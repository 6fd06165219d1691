import DeliveryQueue.Proofs.Entries
import DeliveryQueue.Proofs.Operations
import Mathlib.Data.List.Forall2

/-!
What a reading does, message by message (`Store.Delivers`). It passes over what is in flight, drops
what has expired, and hands out what waits: messages of QoS 0 leave the queue, the others go in
flight, each at a place of its own.
-/
namespace DeliveryQueue

/-- The entry of a message in flight. -/
def StoredPublish.inFlight (stored : StoredPublish) (shared : Bool) (id : UInt16) : Entry :=
  if shared then .taken stored else .publish { stored with packetId := some id }

namespace Change

/-- The change that puts a message in flight. -/
def handing (shared : Bool) (key : EntryKey) (id : UInt16) : Change :=
  if shared then .mark key true else .assign key (some id)

theorem key_handing (shared : Bool) (key : EntryKey) (id : UInt16) :
    (handing shared key id).key = key := by
  cases shared <;> rfl

theorem outcome_handing {stored : StoredPublish} (waits : stored.packetId = none) (shared : Bool)
    (key : EntryKey) (id : UInt16) :
    (handing shared key id).outcome (some (.publish stored)) =
      some (stored.inFlight shared id) := by
  obtain ⟨packetId, _, _, _, _, _, _, _, _⟩ := stored
  obtain rfl : packetId = none := waits
  cases shared <;> rfl

/-- Of changes at different keys, each has its own outcome. -/
theorem get?_actAll_of_mem {entries : Entries} {changes : List Change}
    (apart : (changes.map key).Nodup) {change : Change} (member : change ∈ changes) :
    (actAll entries changes).get? change.key = change.outcome (entries.get? change.key) := by
  induction changes generalizing entries with
  | nil => cases member
  | cons first changes ih =>
    obtain ⟨fresh, others⟩ := List.nodup_cons.mp apart
    rw [actAll_cons]
    rcases List.mem_cons.mp member with rfl | member
    · rw [get?_actAll_of_forall_ne, get?_act_self]
      intro other there same
      exact fresh (List.mem_map.mpr ⟨other, there, same.symm⟩)
    · rw [ih others member, get?_act_of_ne]
      intro same
      exact fresh (List.mem_map.mpr ⟨change, member, same⟩)

end Change

namespace Store

/-- A way to go through the entries of a queue and what comes of it. -/
inductive Delivers (shared : Bool) : List (EntryKey × Entry) → Delivery → Prop
  | stop (rest : List (EntryKey × Entry)) : Delivers shared rest .nothing
  | panic (rest : List (EntryKey × Entry)) : Delivers shared rest .panic
  | pass {rest : List (EntryKey × Entry)} {delivery : Delivery} (e : EntryKey × Entry)
      (others : Delivers shared rest delivery) : Delivers shared (e :: rest) delivery
  | expire {rest : List (EntryKey × Entry)} {delivery : Delivery} (key : EntryKey)
      {stored : StoredPublish} (waits : stored.packetId = none)
      (others : Delivers shared rest delivery) :
      Delivers shared ((key, .publish stored) :: rest) (delivery.expire key)
  | drop {rest : List (EntryKey × Entry)} {delivery : Delivery} (key : EntryKey)
      {stored : StoredPublish} (waits : stored.packetId = none) (once : stored.qos = .atMostOnce)
      (others : Delivers shared rest delivery) :
      Delivers shared ((key, .publish stored) :: rest)
        (delivery.hand (.delete key) (stored.toPublish noPacketId))
  | hand {rest : List (EntryKey × Entry)} {delivery : Delivery} (key : EntryKey)
      {stored : StoredPublish} (waits : stored.packetId = none)
      (acknowledged : stored.qos ≠ .atMostOnce) (id : UInt16)
      (others : Delivers shared rest delivery) :
      Delivers shared ((key, .publish stored) :: rest)
        (delivery.hand (.handing shared key id) (stored.toPublish id))

theorem delivers_deliver (shared : Bool) (now : UInt64) (allowance : Allowance)
    (rest : List (EntryKey × Entry)) :
    Delivers shared rest (deliver shared now allowance rest) := by
  induction rest generalizing allowance with
  | nil => exact .stop []
  | cons e rest ih =>
    obtain ⟨key, entry⟩ := e
    unfold deliver
    split
    · exact .stop _
    · cases entry with
      | pubrel | taken => exact .pass _ (ih allowance)
      | publish stored =>
        dsimp only
        split
        · exact .pass _ (ih allowance)
        · rename_i free
          have waits : stored.packetId = none := by simpa using free
          split
          · exact .expire key waits (ih allowance)
          · split
            · exact .panic _
            · split
              · exact .stop _
              · split
                · rename_i once
                  exact .drop key waits once (ih _)
                · rename_i acknowledged
                  split
                  · rename_i shared
                    subst shared
                    exact .hand key waits acknowledged noPacketId (ih _)
                  · rename_i unshared
                    obtain rfl : shared = false := by simpa using unshared
                    cases allowance.ids with
                    | nil => exact .stop _
                    | cons id ids => exact .hand key waits acknowledged id (ih _)

theorem delivers_reading (overflow : Overflow) (bucket : Bucket) (queue : QueueKey)
    (counts : QueueCounts) (pool : List UInt16) (byteLimit now : UInt64) :
    Delivers queue.shared (bucket.queueEntries queue)
      (reading overflow bucket queue counts pool byteLimit now) :=
  delivers_deliver queue.shared now _ _

/-- A message waits at this key. -/
def WaitsAt (rest : List (EntryKey × Entry)) (key : EntryKey) : Prop :=
  ∃ stored : StoredPublish, (key, .publish stored) ∈ rest ∧ stored.packetId = none

/-- The message that waits at this key is handed out by one of the changes. -/
def HandsAt (shared : Bool) (rest : List (EntryKey × Entry)) (changes : List Change)
    (message : Publish) (key : EntryKey) : Prop :=
  ∃ stored : StoredPublish, (key, .publish stored) ∈ rest ∧ stored.packetId = none ∧
    stored.qos ≠ .atMostOnce ∧ message = stored.toPublish message.packetId ∧
      .handing shared key message.packetId ∈ changes

namespace Delivers

variable {shared : Bool} {rest : List (EntryKey × Entry)} {delivery : Delivery}

/-- No entry is changed twice. -/
theorem keys_sublist (delivers : Delivers shared rest delivery) :
    (delivery.changes.map Change.key).Sublist (rest.map Prod.fst) := by
  induction delivers with
  | stop | panic => exact List.nil_sublist _
  | pass e _ ih => exact ih.cons _
  | expire key _ _ ih | drop key _ _ _ ih => exact ih.cons_cons key
  | hand key _ _ id _ ih =>
    rw [Delivery.hand, List.map_cons, Change.key_handing]
    exact ih.cons_cons key

/-- Only messages that wait are changed. -/
theorem waits (delivers : Delivers shared rest delivery) :
    ∀ change ∈ delivery.changes, WaitsAt rest change.key := by
  have behind {e : EntryKey × Entry} {rest : List (EntryKey × Entry)} {key : EntryKey} :
      WaitsAt rest key → WaitsAt (e :: rest) key := by
    rintro ⟨stored, there, waits⟩
    exact ⟨stored, List.mem_cons_of_mem _ there, waits⟩
  induction delivers with
  | stop | panic =>
    intro change member
    cases member
  | pass e _ ih =>
    intro change member
    exact behind (ih change member)
  | @expire _ _ key stored waits _ ih | @drop _ _ key stored waits _ _ ih =>
    refine List.forall_mem_cons.mpr ⟨⟨stored, List.mem_cons_self, waits⟩, ?_⟩
    intro change member
    exact behind (ih change member)
  | @hand _ _ key stored waits _ id _ ih =>
    refine List.forall_mem_cons.mpr ⟨⟨stored, ?_, waits⟩, ?_⟩
    · rw [Change.key_handing]
      exact List.mem_cons_self
    · intro change member
      exact behind (ih change member)

/-- The messages of QoS 1 and 2 are handed out at places of their own. -/
theorem hands (delivers : Delivers shared rest delivery) :
    ∃ keys : List EntryKey, keys.Sublist (rest.map Prod.fst) ∧
      List.Forall₂ (HandsAt shared rest delivery.changes)
        (delivery.messages.filter fun message => message.qos ≠ .atMostOnce) keys := by
  -- what is handed out further on is handed out still
  have behind {e : EntryKey × Entry} {rest : List (EntryKey × Entry)} {changes : List Change}
      (more : List Change) {messages : List Publish} {keys : List EntryKey}
      (handed : List.Forall₂ (HandsAt shared rest changes) messages keys) :
      List.Forall₂ (HandsAt shared (e :: rest) (more ++ changes)) messages keys := by
    refine handed.imp ?_
    rintro message key ⟨stored, there, waits, acknowledged, content, member⟩
    exact ⟨stored, List.mem_cons_of_mem _ there, waits, acknowledged, content,
      List.mem_append_right _ member⟩
  induction delivers with
  | stop | panic => exact ⟨[], List.nil_sublist _, .nil⟩
  | pass e _ ih =>
    obtain ⟨keys, inside, handed⟩ := ih
    exact ⟨keys, inside.cons _, behind [] handed⟩
  | expire key _ _ ih =>
    obtain ⟨keys, inside, handed⟩ := ih
    exact ⟨keys, inside.cons _, behind [.delete key] handed⟩
  | @drop _ _ key stored _ once _ ih =>
    obtain ⟨keys, inside, handed⟩ := ih
    have unacknowledged : (stored.toPublish noPacketId).qos = .atMostOnce := once
    refine ⟨keys, inside.cons _, ?_⟩
    rw [Delivery.hand, List.filter_cons_of_neg (by simpa using unacknowledged)]
    exact behind [.delete key] handed
  | @hand _ delivery key stored waits acknowledged id _ ih =>
    obtain ⟨keys, inside, handed⟩ := ih
    have kept : (stored.toPublish id).qos ≠ .atMostOnce := acknowledged
    refine ⟨key :: keys, inside.cons_cons key, ?_⟩
    rw [Delivery.hand, List.filter_cons_of_pos (by simpa using kept)]
    refine .cons ⟨stored, List.mem_cons_self, waits, acknowledged, rfl, List.mem_cons_self⟩ ?_
    exact behind [.handing shared key id] handed

end Delivers

end Store

end DeliveryQueue
