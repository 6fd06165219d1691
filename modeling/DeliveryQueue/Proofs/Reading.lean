import DeliveryQueue.Proofs.Handing

/-!
What a reading does as a whole, without its loop (`Store.readNew_takes_longest`). It hands out the
longest run of the messages that are ready that the pool and the byte limit afford, the messages of
QoS 1 and 2 under the free ids of the pool in their order, and it drops the expired messages that
it comes across until it stops.
-/
namespace DeliveryQueue

open Std

namespace Line

/-- What one reading may hand out: not more messages than the pool has ids, not more of QoS 1 and 2
than there are free ids, unless the queue is shared, and not more bytes than the limit, unless it is
a single message. -/
structure Affordable (shared : Bool) (pool free : List UInt16) (byteLimit : UInt64)
    (batch : Line) : Prop where
  count : batch.length ≤ pool.length
  ids : shared = false → acknowledged batch ≤ free.length
  bytes : batch.length ≤ 1 ∨ bytes batch ≤ byteLimit.toNat

/-- The expired messages that a reading comes across. It stops at the last message that the pool
allows, or else at the first that it cannot afford, or at the end of the queue. -/
def crossed (line taken : Line) (count : Nat) (now : UInt64) : Line :=
  (stale line now).filter fun e =>
    if taken.length = count then taken.getLast?.any fun last => e.1.sequence < last.1.sequence
    else (ready line now)[taken.length]?.all fun next => e.1.sequence < next.1.sequence

/-- In the order of their sequence numbers. -/
def Ascending (line : Line) : Prop := line.Pairwise fun a b => a.1.sequence < b.1.sequence

end Line

theorem Bucket.ascending_queueEntries (bucket : Bucket) (queue : QueueKey) :
    Line.Ascending (bucket.queueEntries queue) := by
  have sorted := bucket.entries.ascending.filter fun e => decide (e.1.queue = queue)
  refine sorted.imp_of_mem ?_
  intro a b first second before
  have one : a.1.queue = queue := of_decide_eq_true (List.mem_filter.mp first).2
  have two : b.1.queue = queue := of_decide_eq_true (List.mem_filter.mp second).2
  simpa [EntryKey.compare_def, compareLex, compareOn, one, two, Ordering.then,
    compare_eq_lt] using before

namespace Store

namespace Allowance

/-- The allowance is enough for all of these messages together. -/
structure Covers (shared : Bool) (allowance : Allowance) (batch : Line) : Prop where
  count : batch.length ≤ allowance.count
  ids : shared = false → Line.acknowledged batch ≤ allowance.ids.length
  bytes : batch.length ≤ (if allowance.bytes.isNone then 1 else 0) ∨
    (allowance.bytes.getD 0).toNat + Line.bytes batch ≤ allowance.byteLimit.toNat

/-- The allowance after a message of this size, under the next id if it takes one. -/
def after (shared : Bool) (allowance : Allowance) (entry : Entry) : Allowance :=
  if entry.messageClass = .qos0 ∨ shared = true then allowance.spend entry.size
  else { allowance.spend entry.size with ids := allowance.ids.tail }

variable {shared : Bool} {allowance : Allowance} {batch larger : Line} {e : EntryKey × Entry}

theorem bytes_after (shared : Bool) (allowance : Allowance) (entry : Entry) :
    (allowance.after shared entry).bytes = some (allowance.bytes.getD 0 + entry.size) := by
  unfold after
  split <;> rfl

theorem covers_iff {shared : Bool} {pool free : List UInt16} {byteLimit : UInt64}
    {overflow : Overflow} {batch : Line} :
    Covers shared ⟨pool.length, free, none, byteLimit, overflow⟩ batch ↔
      Line.Affordable shared pool free byteLimit batch := by
  have bytes : (0 : UInt64).toNat + Line.bytes batch = Line.bytes batch := Nat.zero_add _
  constructor
  · rintro ⟨count, ids, small⟩
    exact ⟨count, ids, by simpa [bytes] using small⟩
  · rintro ⟨count, ids, small⟩
    exact ⟨count, ids, by simpa [bytes] using small⟩

/-- Sums that fit into a word do not panic. -/
theorem panics_eq_false {size : UInt64}
    (room : (allowance.bytes.getD 0).toNat + size.toNat < UInt64.size) :
    allowance.panics size = false := by
  unfold panics
  cases used : allowance.bytes with
  | none => exact Bool.and_false _
  | some bytes =>
    rw [used, Option.getD_some] at room
    simp [Nat.not_le.mpr room]

/-- Only sums beyond a word panic, and those only in some builds. -/
theorem overflows_of_panics {size : UInt64} (panics : allowance.panics size = true) :
    allowance.overflow = .panics ∧
      UInt64.size ≤ (allowance.bytes.getD 0).toNat + size.toNat := by
  refine ⟨of_decide_eq_true (Bool.and_eq_true_iff.mp panics).1, Nat.not_lt.mp fun light => ?_⟩
  cases panics.symm.trans (panics_eq_false light)

theorem toNat_spend_le (allowance : Allowance) (size : UInt64) :
    ((allowance.spend size).bytes.getD 0).toNat ≤
      (allowance.bytes.getD 0).toNat + size.toNat :=
  (UInt64.toNat_add ..).trans_le (Nat.mod_le ..)

theorem Covers.of_prefix (covers : allowance.Covers shared larger)
    (inside : batch <+: larger) : allowance.Covers shared batch := by
  obtain ⟨rest, rfl⟩ := inside
  obtain ⟨count, ids, bytes⟩ := covers
  simp only [Line.acknowledged, Line.bytes, List.length_append, List.countP_append,
    List.map_append, List.sum_append] at count ids bytes
  refine ⟨by omega, fun unshared => ?_, ?_⟩
  · exact Nat.le_trans (Nat.le_add_right _ _) (ids unshared)
  · refine bytes.imp (by omega) ?_
    intro fits
    rw [Line.bytes]
    omega

theorem covers_nil (shared : Bool) (allowance : Allowance) : allowance.Covers shared [] :=
  ⟨Nat.zero_le _, fun _ => Nat.zero_le _, .inl (Nat.zero_le _)⟩

/-- The bytes of a message and of those behind it are covered if it is affordable and the bytes of
the others are covered by what is left. -/
theorem bytes_cons (room : (allowance.bytes.getD 0).toNat + e.2.size.toNat < UInt64.size) :
    ((e :: batch).length ≤ (if allowance.bytes.isNone then 1 else 0) ∨
      (allowance.bytes.getD 0).toNat + Line.bytes (e :: batch) ≤ allowance.byteLimit.toNat) ↔
        allowance.affords e.2.size = true ∧ (batch.length ≤ 0 ∨
          (allowance.bytes.getD 0 + e.2.size).toNat + Line.bytes batch ≤
            allowance.byteLimit.toNat) := by
  have sum : (allowance.bytes.getD 0 + e.2.size).toNat =
      (allowance.bytes.getD 0).toNat + e.2.size.toNat := by
    rw [UInt64.toNat_add, Nat.mod_eq_of_lt room]
  have parts : Line.bytes (e :: batch) = e.2.size.toNat + Line.bytes batch := List.sum_cons
  have nothing (none : batch.length ≤ 0) : Line.bytes batch = 0 := by
    obtain rfl := List.length_eq_zero_iff.mp (Nat.le_zero.mp none)
    rfl
  rw [affords, parts, List.length_cons, sum]
  cases used : allowance.bytes with
  | none =>
    simp only [Option.isNone_none, if_true, true_and]
    omega
  | some bytes =>
    rw [used] at sum
    simp only [Option.getD_some] at sum
    simp only [Option.isNone_some, Option.getD_some, decide_eq_true_eq, UInt64.le_iff_toNat_le, sum,
      Bool.false_eq_true, if_false]
    constructor
    · intro fits
      omega
    · rintro ⟨first, none | others⟩
      · have := nothing none
        omega
      · omega

/-- A message that needs an id takes the next one. -/
theorem ids_cons :
    (shared = false → Line.acknowledged (e :: batch) ≤ allowance.ids.length) ↔
      (e.2.messageClass = .qos0 ∨ shared = true ∨ allowance.ids ≠ []) ∧
        (shared = false →
          Line.acknowledged batch ≤ (allowance.after shared e.2).ids.length) := by
  cases shared with
  | true => simp
  | false =>
    by_cases once : e.2.messageClass = .qos0
    · have same : Line.acknowledged (e :: batch) = Line.acknowledged batch :=
        List.countP_cons_of_neg (by simpa using once)
      simp [same, once, after, spend]
    · have more : Line.acknowledged (e :: batch) = Line.acknowledged batch + 1 :=
        List.countP_cons_of_pos (by simpa using once)
      cases ids : allowance.ids with
      | nil => simp [more, once]
      | cons id rest => simp [more, once, after, ids]

/-- A message is covered if it is affordable and, where it needs an id, there is one; what is behind
it has to be covered by what is left. -/
theorem covers_cons (room : (allowance.bytes.getD 0).toNat + e.2.size.toNat < UInt64.size) :
    allowance.Covers shared (e :: batch) ↔
      allowance.count ≠ 0 ∧ allowance.affords e.2.size = true ∧
        (e.2.messageClass = .qos0 ∨ shared = true ∨ allowance.ids ≠ []) ∧
        (allowance.after shared e.2).Covers shared batch := by
  obtain ⟨count, bytes, limit⟩ : (allowance.after shared e.2).count = allowance.count - 1 ∧
      (allowance.after shared e.2).bytes = some (allowance.bytes.getD 0 + e.2.size) ∧
      (allowance.after shared e.2).byteLimit = allowance.byteLimit := by
    unfold after
    split <;> exact ⟨rfl, rfl, rfl⟩
  constructor
  · rintro ⟨enough, free, small⟩
    obtain ⟨affords, others⟩ := (bytes_cons room).mp small
    obtain ⟨first, rest⟩ := ids_cons.mp free
    rw [List.length_cons] at enough
    refine ⟨by omega, affords, first, by omega, rest, ?_⟩
    rwa [bytes, limit]
  · rintro ⟨some, affords, first, others⟩
    have enough := others.count
    have rest := others.bytes
    rw [bytes, limit] at rest
    refine ⟨?_, ids_cons.mpr ⟨first, others.ids⟩, (bytes_cons room).mpr ⟨affords, rest⟩⟩
    rw [List.length_cons]
    omega

end Allowance

/-- A reading panics over a line of 2^64 bytes and more only. -/
theorem overflows_of_deliver {shared : Bool} {now : UInt64} {allowance : Allowance} {line : Line}
    (panics : (deliver shared now allowance line).panics = true) : allowance.overflow = .panics ∧
      UInt64.size ≤ (allowance.bytes.getD 0).toNat + Line.bytes line := by
  have first (e : EntryKey × Entry) (line : Line) :
    Line.bytes (e :: line) = e.2.size.toNat + Line.bytes line := List.sum_cons
  -- a message that is handed out makes the allowance less by what the line gets shorter
  have hand {allowance left : Allowance} {key : EntryKey} {stored : StoredPublish} {rest : Line}
      (behind : left.overflow = .panics ∧
        UInt64.size ≤ (left.bytes.getD 0).toNat + Line.bytes rest)
      (same : left.overflow = allowance.overflow)
      (spent : left.bytes = (allowance.spend stored.size).bytes) :
      allowance.overflow = .panics ∧ UInt64.size ≤
        (allowance.bytes.getD 0).toNat + Line.bytes ((key, .publish stored) :: rest) := by
    obtain ⟨checked, heavy⟩ := behind
    have less := allowance.toNat_spend_le stored.size
    have size : (Entry.publish stored).size = stored.size := rfl
    rw [spent] at heavy
    rw [first, size]
    exact ⟨same.symm.trans checked, by omega⟩
  fun_induction deliver shared now allowance line with
  | case1 | case2 | case6 | case9 => cases panics
  | case3 _ _ _ _ _ _ ih | case4 _ _ _ _ _ _ _ ih | case11 _ _ _ _ _ _ ih =>
    obtain ⟨checked, heavy⟩ := ih panics
    rw [first]
    exact ⟨checked, by omega⟩
  | case5 _ _ _ _ stored _ _ here =>
    obtain ⟨checked, heavy⟩ := Allowance.overflows_of_panics here
    have size : (Entry.publish stored).size = stored.size := rfl
    rw [first, size]
    exact ⟨checked, by omega⟩
  | case7 _ _ _ _ _ _ _ _ _ _ _ ih | case8 _ _ _ _ _ _ _ _ _ _ _ _ ih
  | case10 _ _ _ _ _ _ _ _ _ _ _ _ _ _ _ ih => exact hand (ih panics) rfl rfl

/-- Where a reading ends: as many messages as allowed were handed out, the queue is at its end, or
the next message is more than the allowance covers. -/
inductive Halts (shared : Bool) (now : UInt64) (allowance : Allowance) (seen unseen : Line) : Prop
  | full (used : (Line.ready seen now).length = allowance.count)
      (last : ∀ e ∈ seen.getLast?, e.2.isReady now = true)
  | ended (room : (Line.ready seen now).length < allowance.count) (all : unseen = [])
  | short {e : EntryKey × Entry} {rest : Line}
      (room : (Line.ready seen now).length < allowance.count) (next : unseen = e :: rest)
      (waits : e.2.isReady now = true)
      (large : ¬ allowance.Covers shared (Line.ready seen now ++ [e]))

/-- A reading goes through the one part of a queue, and leaves the other. -/
structure Goes (shared : Bool) (now : UInt64) (allowance : Allowance) (line : Line)
    (delivery : Delivery) (seen unseen : Line) (ids : List UInt16) : Prop where
  parts : line = seen ++ unseen
  hands : Hands shared now ids seen delivery
  calm : delivery.panics = false
  drawn : if shared then ∀ id ∈ ids, id = noPacketId else ids <+: allowance.ids
  covered : allowance.Covers shared (Line.ready seen now)
  halts : Halts shared now allowance seen unseen

namespace Goes

variable {shared : Bool} {now : UInt64} {allowance : Allowance} {line seen unseen : Line}
variable {delivery after : Delivery} {ids drawn : List UInt16} {e : EntryKey × Entry}

theorem stop (halts : Halts shared now allowance [] line) :
    Goes shared now allowance line .nothing [] line [] where
  parts := rfl
  hands := .done
  calm := rfl
  drawn := by cases shared <;> simp
  covered := Allowance.covers_nil shared allowance
  halts := halts

/-- What is not ready does not count. -/
theorem skip (goes : Goes shared now allowance line delivery seen unseen ids)
    (some : allowance.count ≠ 0) (busy : ¬ e.2.isReady now = true)
    (hands : Hands shared now ids (e :: seen) after) (calm : after.panics = false) :
    Goes shared now allowance (e :: line) after (e :: seen) unseen ids := by
  have same : Line.ready (e :: seen) now = Line.ready seen now := Line.ready_cons_of_neg busy
  refine ⟨by rw [goes.parts, List.cons_append], hands, calm, goes.drawn, same ▸ goes.covered, ?_⟩
  rcases goes.halts with ⟨used, last⟩ | ⟨room, all⟩ | ⟨room, next, waits, large⟩
  · refine .full (same ▸ used) ?_
    cases seen with
    | nil => exact absurd used.symm some
    | cons first seen => rwa [List.getLast?_cons_cons]
  · exact .ended (same ▸ room) all
  · exact .short (same ▸ room) next waits (same ▸ large)

/-- What is ready is taken, if it is affordable. -/
theorem take (goes : Goes shared now (allowance.after shared e.2) line delivery seen unseen ids)
    (room : (allowance.bytes.getD 0).toNat + e.2.size.toNat < UInt64.size)
    (some : allowance.count ≠ 0) (affords : allowance.affords e.2.size = true)
    (free : e.2.messageClass = .qos0 ∨ shared = true ∨ allowance.ids ≠ [])
    (waits : e.2.isReady now = true) (hands : Hands shared now drawn (e :: seen) after)
    (calm : after.panics = false)
    (given : if shared then ∀ id ∈ drawn, id = noPacketId else drawn <+: allowance.ids) :
    Goes shared now allowance (e :: line) after (e :: seen) unseen drawn := by
  have more : Line.ready (e :: seen) now = e :: Line.ready seen now := Line.ready_cons_of_pos waits
  have covers {batch : Line} : (allowance.after shared e.2).Covers shared batch ↔
      allowance.Covers shared (e :: batch) := by
    rw [Allowance.covers_cons room]
    exact ⟨fun others => ⟨some, affords, free, others⟩, fun all => all.2.2.2⟩
  have count : (allowance.after shared e.2).count + 1 = allowance.count := by
    have less : (allowance.after shared e.2).count = allowance.count - 1 := by
      unfold Allowance.after
      split <;> rfl
    omega
  have length : (Line.ready (e :: seen) now).length = (Line.ready seen now).length + 1 := by
    rw [more, List.length_cons]
  refine ⟨by rw [goes.parts, List.cons_append], hands, calm, given, ?_, ?_⟩
  · rw [more]
    exact covers.mp goes.covered
  · rcases goes.halts with ⟨used, last⟩ | ⟨room, all⟩ | ⟨room, next, ready, large⟩
    · refine .full (by omega) ?_
      cases seen with
      | nil =>
        rintro _ ⟨⟩
        exact waits
      | cons first seen => rwa [List.getLast?_cons_cons]
    · exact .ended (by omega) all
    · refine .short (by omega) next ready ?_
      rw [more, List.cons_append]
      exact mt covers.mpr large

end Goes

/-- The reading of a queue goes somewhere. -/
def GoesOn (shared : Bool) (now : UInt64) (allowance : Allowance) (line : Line) : Prop :=
  ∃ seen unseen ids,
    Goes shared now allowance line (deliver shared now allowance line) seen unseen ids

section Ready
variable {shared : Bool} {now : UInt64} {allowance : Allowance} {rest : Line} {key : EntryKey}
  {stored : StoredPublish}

/-- At a message that is ready, reading ends or takes it. -/
theorem goesOn_ready (waits : stored.packetId = none) (fresh : stored.isExpired now = false)
    (room : (allowance.bytes.getD 0).toNat + stored.size.toNat < UInt64.size)
    (some : allowance.count ≠ 0)
    (onwards : GoesOn shared now (allowance.after shared (.publish stored)) rest) :
    GoesOn shared now allowance ((key, .publish stored) :: rest) := by
  have ready := isReady_publish waits fresh
  have covers : allowance.Covers shared [(key, .publish stored)] ↔ _ := Allowance.covers_cons room
  have calm : allowance.panics stored.size = false := Allowance.panics_eq_false room
  -- what is not covered is left
  have leave (poor : ¬ allowance.Covers shared [(key, .publish stored)]) :
      ∃ seen unseen ids, Goes shared now allowance ((key, .publish stored) :: rest)
        .nothing seen unseen ids :=
    ⟨[], _, [], .stop (.short (Nat.pos_of_ne_zero some) rfl ready poor)⟩
  obtain ⟨seen, unseen, ids, goes⟩ := onwards
  simp only [GoesOn, deliver, some, if_false, waits, Option.isSome_none, fresh, calm,
    Bool.false_eq_true]
  by_cases affords : allowance.affords stored.size = true
  · simp only [affords, Bool.not_true, Bool.false_eq_true, if_false]
    by_cases once : stored.qos = .atMostOnce
    · have free := messageClass_publish.mpr once
      have same : allowance.after shared (.publish stored) = allowance.spend stored.size :=
        if_pos (.inl free)
      have drawn := goes.drawn
      rw [if_pos once, ← same]
      refine ⟨_, _, _, goes.take room some affords (.inl free) ready
        (.drop key waits fresh once goes.hands) goes.calm ?_⟩
      rwa [same] at drawn
    · have needs := mt messageClass_publish.mp once
      rw [if_neg once]
      cases shared with
      | true =>
        have same : allowance.after true (.publish stored) = allowance.spend stored.size :=
          if_pos (.inr rfl)
        rw [if_pos rfl, ← same]
        exact ⟨_, _, _, goes.take room some affords (.inr (.inl rfl)) ready
          (.hand key waits fresh once noPacketId goes.hands) goes.calm
          (List.forall_mem_cons.mpr ⟨rfl, goes.drawn⟩)⟩
      | false =>
        have same : allowance.after false (.publish stored) =
          { allowance.spend stored.size with ids := allowance.ids.tail } := if_neg (by simpa)
        rw [if_neg Bool.false_ne_true]
        cases left : allowance.ids with
        | nil =>
          refine leave fun covered => ?_
          simpa [needs, left] using (covers.mp covered).2.2.1
        | cons id others =>
          have drawn : ids <+: (allowance.after false (.publish stored)).ids := goes.drawn
          rw [left, List.tail_cons] at same
          rw [same] at drawn
          dsimp only
          rw [← same]
          refine ⟨_, _, _, goes.take room some affords (.inr (.inr (by simp [left]))) ready
            (.hand key waits fresh once id goes.hands) goes.calm ?_⟩
          rw [if_neg Bool.false_ne_true, left]
          exact (List.prefix_cons_inj id).mpr drawn
  · simp only [affords, Bool.not_false, if_true]
    exact leave fun covered => affords (covers.mp covered).2.1

end Ready

/-- Reading goes as far as the allowance lets it. -/
theorem goesOn_of_light (shared : Bool) (now : UInt64) (allowance : Allowance) (line : Line)
    (room : (allowance.bytes.getD 0).toNat + Line.bytes line < UInt64.size) :
    GoesOn shared now allowance line := by
  induction line generalizing allowance with
  | nil =>
    refine ⟨[], [], [], .stop ?_⟩
    rcases Nat.eq_zero_or_pos allowance.count with none | some
    · exact .full none.symm (by simp)
    · exact .ended some rfl
  | cons e rest ih =>
    have parts : Line.bytes (e :: rest) = e.2.size.toNat + Line.bytes rest := List.sum_cons
    rw [parts] at room
    rcases Decidable.em (allowance.count = 0) with none | some
    · have nothing : deliver shared now allowance (e :: rest) = .nothing := by simp [deliver, none]
      rw [GoesOn, nothing]
      exact ⟨[], _, [], .stop (.full none.symm (by simp))⟩
    · obtain ⟨seen, unseen, ids, goes⟩ := ih allowance (by omega)
      -- what is in flight is passed over
      have pass (idle : e.2.isNew = false) (same : deliver shared now allowance (e :: rest) =
          deliver shared now allowance rest) : GoesOn shared now allowance (e :: rest) := by
        rw [GoesOn, same]
        exact ⟨_, _, _, goes.skip some (not_isReady_of_idle idle) (.pass e idle goes.hands)
          goes.calm⟩
      obtain ⟨key, entry⟩ := e
      cases entry with
      | pubrel | taken => exact pass rfl (by simp [deliver, some])
      | publish stored =>
        cases free : stored.packetId with
        | some id => exact pass (by simp [Entry.isNew, free]) (by simp [deliver, some, free])
        | none =>
          cases late : stored.isExpired now with
          | true =>
            have same : deliver shared now allowance ((key, .publish stored) :: rest) =
                (deliver shared now allowance rest).expire key := by
              simp [deliver, some, free, late]
            have busy := not_isReady_of_isStale (isStale_publish free late)
            rw [GoesOn, same]
            exact ⟨_, _, _, goes.skip some busy (.expire key free late goes.hands) goes.calm⟩
          | false =>
            have size : (Entry.publish stored).size = stored.size := rfl
            rw [size] at room
            refine goesOn_ready free late (by omega) some (ih _ ?_)
            rw [Allowance.bytes_after, Option.getD_some, size, UInt64.toNat_add]
            have wrapped := Nat.mod_le
              ((allowance.bytes.getD 0).toNat + stored.size.toNat) (2 ^ 64)
            omega

/-! The whole reading -/

/-- The ids under which messages are handed out: the free ones in their order for QoS 1 and 2, and
none for QoS 0 or in a shared queue. -/
structure Numbered (shared : Bool) (free : List UInt16) (messages : List Publish) : Prop where
  without : ∀ message ∈ messages, message.qos = .atMostOnce ∨ shared = true →
    message.packetId = noPacketId
  under : shared = false →
    ((messages.filter fun message => message.qos ≠ .atMostOnce).map Publish.packetId) <+: free

/-- Of a line in order, what has expired and stands before an entry stands in front of it. -/
theorem stale_before {front back : Line} {e : EntryKey × Entry} {now : UInt64}
    (ascending : Line.Ascending (front ++ e :: back)) (fresh : ¬ e.2.isStale now = true) :
    ((Line.stale (front ++ e :: back) now).filter fun other =>
      decide (other.1.sequence < e.1.sequence)) = Line.stale front now := by
  obtain ⟨_, rest, before⟩ := List.pairwise_append.mp ascending
  have behind := (List.pairwise_cons.mp rest).1
  rw [Line.stale_append, Line.stale_cons_of_neg fresh, List.filter_append]
  have first : (Line.stale front now).filter
      (fun other => decide (other.1.sequence < e.1.sequence)) = Line.stale front now := by
    refine List.filter_eq_self.mpr ?_
    intro other member
    exact decide_eq_true (before other (List.mem_filter.mp member).1 e List.mem_cons_self)
  have second : (Line.stale back now).filter
      (fun other => decide (other.1.sequence < e.1.sequence)) = [] := by
    refine List.filter_eq_nil_iff.mpr ?_
    intro other member
    have later := behind other (List.mem_filter.mp member).1
    simpa using UInt64.le_of_lt later
  rw [first, second, List.append_nil]

namespace Goes

variable {shared : Bool} {now : UInt64} {allowance : Allowance} {line seen unseen batch : Line}
variable {delivery : Delivery} {ids : List UInt16}

theorem ready_eq (goes : Goes shared now allowance line delivery seen unseen ids) :
    Line.ready line now = Line.ready seen now ++ Line.ready unseen now := by
  rw [goes.parts, Line.ready_append]

/-- Nothing longer is covered. -/
theorem longest (goes : Goes shared now allowance line delivery seen unseen ids)
    (inside : batch <+: Line.ready line now) (covers : allowance.Covers shared batch) :
    batch <+: Line.ready seen now := by
  have all := goes.ready_eq
  have part : Line.ready seen now <+: Line.ready line now := ⟨_, all.symm⟩
  rcases goes.halts with ⟨used, _⟩ | ⟨_, rfl⟩ | @⟨e, rest, _, rfl, waits, large⟩
  · exact List.prefix_of_prefix_length_le inside part (used ▸ covers.count)
  · rwa [all, Line.ready, Line.ready, List.filter_nil, List.append_nil] at inside
  · rcases List.prefix_or_prefix_of_prefix inside part with shorter | longer
    · exact shorter
    · -- one message more would be covered too
      by_cases same : batch.length ≤ (Line.ready seen now).length
      · exact List.prefix_of_prefix_length_le inside part same
      · rw [all, Line.ready_cons_of_pos waits] at inside
        have next : Line.ready seen now ++ [e] <+:
            Line.ready seen now ++ e :: Line.ready rest now :=
          (List.prefix_append_right_inj _).mpr ⟨_, rfl⟩
        refine absurd (covers.of_prefix (List.prefix_of_prefix_length_le next inside ?_)) large
        rw [List.length_append, List.length_singleton]
        omega

/-- The expired messages that a reading drops are those that it comes across. -/
theorem crossed_eq (goes : Goes shared now allowance line delivery seen unseen ids)
    (ascending : Line.Ascending line) :
    Line.crossed line (Line.ready seen now) allowance.count now = Line.stale seen now := by
  have all := goes.ready_eq
  have parts := goes.parts
  unfold Line.crossed
  rcases goes.halts with ⟨used, last⟩ | ⟨room, rfl⟩ | ⟨room, rfl, waits, _⟩
  · simp only [used, if_true]
    rcases List.eq_nil_or_concat seen with rfl | ⟨front, e, rfl⟩
    · simp [Line.ready, Line.stale]
    · rw [List.concat_eq_append] at last parts ⊢
      have waits := last e (by simp)
      have fresh := Entry.not_isStale_of_isReady waits
      have taken : Line.ready (front ++ [e]) now = Line.ready front now ++ [e] := by
        rw [Line.ready_append, Line.ready_cons_of_pos waits]
        rfl
      have split : line = front ++ e :: unseen := by simpa using parts
      have dropped : Line.stale (front ++ [e]) now = Line.stale front now := by
        rw [Line.stale_append, Line.stale_cons_of_neg fresh]
        exact List.append_nil _
      rw [split] at ascending ⊢
      rw [taken, dropped]
      simp only [List.getLast?_concat, Option.any_some]
      exact stale_before ascending fresh
  · rw [List.append_nil] at parts
    subst parts
    simp [Nat.ne_of_lt room, Line.stale]
  · subst parts
    have fresh := Entry.not_isStale_of_isReady waits
    rw [all, Line.ready_cons_of_pos waits]
    simp only [Nat.ne_of_lt room, if_false, List.getElem?_append_right (Nat.le_refl _),
      Nat.sub_self, List.getElem?_cons_zero, Option.all_some]
    exact stale_before ascending fresh

/-- The messages carry the ids that were drawn. -/
theorem numbered (goes : Goes shared now allowance line delivery seen unseen ids) :
    Numbered shared allowance.ids delivery.messages := by
  obtain ⟨same, without⟩ := goes.hands.ids_eq
  have drawn := goes.drawn
  cases shared with
  | false =>
    refine ⟨?_, fun _ => same ▸ drawn⟩
    intro message member either
    exact without message member (either.resolve_right Bool.false_ne_true)
  | true =>
    refine ⟨?_, fun unshared => absurd unshared.symm Bool.false_ne_true⟩
    intro message member _
    by_cases once : message.qos = .atMostOnce
    · exact without message member once
    · refine drawn message.packetId (same ▸ List.mem_map_of_mem ?_)
      exact List.mem_filter.mpr ⟨member, decide_eq_true once⟩

end Goes

/-- What is left when the messages were handed out for entries of a bucket and others have expired:
those of QoS 0 are gone, those of QoS 1 and 2 are in flight, and the expired ones are gone. -/
structure HandedOut (store : Store) (index : Nat) (shared : Bool) (taken expired : Line)
    (messages : List Publish) (after : Store) : Prop where
  handed : List.Forall₂ (fun e message => ∃ stored : StoredPublish, e.2 = .publish stored ∧
    message = stored.toPublish message.packetId ∧ after.entryAt index e.1 =
      if stored.qos = .atMostOnce then none
      else some (stored.inFlight shared message.packetId)) taken messages
  dropped : ∀ e ∈ expired, after.entryAt index e.1 = none
  others : ∀ place key, (place = index → key ∉ (taken ++ expired).map Prod.fst) →
    after.entryAt place key = store.entryAt place key
  released : ∃ payloads : List UInt64,
    payloads.Perm (((taken.filter fun e => e.2.messageClass = .qos0) ++ expired).filterMap
      fun e => e.2.payload?) ∧
    after.outbox.released = store.outbox.released ++ payloads
  rest : ∃ left, after = { store with
    buckets := store.buckets.setIfInBounds index left
    budget := after.budget
    stats.expired := store.stats.expired + .ofNat expired.length
    outbox.released := after.outbox.released
    outbox.committed := after.outbox.committed }

variable {store after : Store} {index : Nat} {bucket : Bucket} {queue : QueueKey}

/-- Reading is committing what is delivered, also where nothing was ever queued. -/
theorem readNew_of_commit (opened : store.bucket index = .ok bucket) (agrees : bucket.Agrees)
    {pool : List UInt16} {byteLimit now : UInt64} {delivery : Delivery}
    (delivered : delivery = deliver queue.shared now
      ⟨pool.length, Line.free (bucket.queueEntries queue) pool, none, byteLimit,
        store.settings.overflow⟩ (bucket.queueEntries queue))
    (calm : delivery.panics = false)
    (done : store.commit index bucket delivery.changes = (.ok (), after)) :
    store.readNew queue pool byteLimit now index = (.ok delivery.messages,
      { after with stats.expired := after.stats.expired + .ofNat delivery.expired }) := by
  have reads := reads_readNew store queue pool byteLimit now index
  generalize store.readNew queue pool byteLimit now index = served at reads ⊢
  cases reads with
  | refused closed => cases closed.symm.trans opened
  | unknown again uncounted =>
    cases again.symm.trans opened
    rw [agrees.indexed.faithful.empty queue uncounted] at delivered
    subst delivered
    cases (commit_nil (getElem?_of_bucket opened)).symm.trans done
    simp [deliver, Delivery.nothing]
  | panics again counted overflows =>
    cases again.symm.trans opened
    rw [reading, agrees.free_eq counted, ← delivered] at overflows
    cases calm.symm.trans overflows
  | fails again counted _ failed =>
    cases again.symm.trans opened
    rw [reading, agrees.free_eq counted, ← delivered] at failed
    cases failed.symm.trans done
  | hands again counted _ also =>
    cases again.symm.trans opened
    rw [reading, agrees.free_eq counted, ← delivered] at also ⊢
    cases also.symm.trans done
    rfl

/-- A reading that succeeds has committed what it delivers. -/
theorem commit_of_readNew (opened : store.bucket index = .ok bucket) (agrees : bucket.Agrees)
    {pool : List UInt16} {byteLimit now : UInt64} {messages : List Publish} {delivery : Delivery}
    (delivered : delivery = deliver queue.shared now
      ⟨pool.length, Line.free (bucket.queueEntries queue) pool, none, byteLimit,
        store.settings.overflow⟩ (bucket.queueEntries queue))
    (read : store.readNew queue pool byteLimit now index = (.ok messages, after)) :
    messages = delivery.messages ∧ ∃ middle,
      store.commit index bucket delivery.changes = (.ok (), middle) ∧
      after = { middle with stats.expired := middle.stats.expired + .ofNat delivery.expired } := by
  have reads := reads_readNew store queue pool byteLimit now index
  rw [read] at reads
  cases reads with
  | unknown again uncounted =>
    cases again.symm.trans opened
    rw [agrees.indexed.faithful.empty queue uncounted] at delivered
    subst delivered
    exact ⟨rfl, store, commit_nil (getElem?_of_bucket opened), by simp [deliver, Delivery.nothing]⟩
  | hands again counted _ done =>
    cases again.symm.trans opened
    rw [reading, agrees.free_eq counted, ← delivered] at done ⊢
    exact ⟨rfl, _, done, rfl⟩

/-- What is committed for messages that were handed out leaves just that. -/
theorem handedOut_of_commit (kept : store.Kept) (found : store.buckets[index]? = some bucket)
    {shared : Bool} {now : UInt64} {ids : List UInt16} {seen : Line} {delivery : Delivery}
    (hands : Hands shared now ids seen delivery)
    (stored : ∀ e ∈ seen, bucket.entries.get? e.1 = some e.2)
    (apart : (delivery.changes.map Change.key).Nodup)
    (done : store.commit index bucket delivery.changes = (.ok (), after)) :
    HandedOut store index shared (Line.ready seen now) (Line.stale seen now) delivery.messages
      { after with stats.expired := after.stats.expired + .ofNat delivery.expired } := by
  have changed := contents_of_done kept found done
  have entry (place : Nat) (key : EntryKey) : Store.entryAt
      { after with stats.expired := after.stats.expired + .ofNat delivery.expired } place key =
        if place = index then (Change.actAll bucket.entries delivery.changes).get? key
        else store.entryAt place key := entryAt_set found changed place key
  have made {change : Change} (member : change ∈ delivery.changes) {key : EntryKey}
      (here : change.key = key) : Store.entryAt
        { after with stats.expired := after.stats.expired + .ofNat delivery.expired } index key =
          change.outcome (bucket.entries.get? key) := by
    rw [entry, if_pos rfl, ← here, Change.get?_actAll_of_mem apart member]
  rcases commit_cases (kept found) found delivery.changes with
    ⟨fault, failed⟩ | ⟨left, budget, -, also⟩
  · cases done.symm.trans failed
  cases done.symm.trans also
  constructor
  · have there : ∀ e ∈ Line.ready seen now, bucket.entries.get? e.1 = some e.2 :=
      fun e member => stored e (List.mem_filter.mp member).1
    refine ((List.forall₂_and_left _ _).mpr ⟨there, hands.handed⟩).imp ?_
    rintro e message ⟨its, stored, content, same, change, member, here, outcome⟩
    refine ⟨stored, content, same, ?_⟩
    rw [made member here, its, content, outcome]
  · intro e member
    exact made (hands.expired.2 e member) rfl
  · intro place key elsewhere
    rw [entry]
    split
    · rename_i here
      rw [Change.get?_actAll_of_forall_ne, here, entryAt_of_getElem? found]
      rintro change member rfl
      exact elsewhere here (hands.keys change member)
    · rfl
  · refine ⟨_, ?_, rfl⟩
    have out := (hands.displaced stored).filterMap Entry.payload?
    rw [← Change.displacedAll_of_nodup apart, List.filterMap_map] at out
    exact out
  · exact ⟨left, by rw [hands.expired.1]; rfl⟩

/-- A reading, if the journal takes batches, hands out the longest run of ready messages that it can
afford, and drops what it comes across that has expired. -/
theorem readNew_takes_longest (reached : store.Reached) (opened : store.bucket index = .ok bucket)
    {bytes : Bytes} (accepts : (bucket.journal.append store.disk bytes).answer = .ok ())
    (queue : QueueKey) (light : Line.bytes (bucket.queueEntries queue) < UInt64.size)
    (pool : List UInt16) (byteLimit now : UInt64) :
    let line := bucket.queueEntries queue
    let free := Line.free line pool
    Line.Ascending line ∧ ∃ taken messages after,
      store.readNew queue pool byteLimit now index = (.ok messages, after) ∧
      taken <+: Line.ready line now ∧
      Line.Affordable queue.shared pool free byteLimit taken ∧
      (∀ batch, batch <+: Line.ready line now →
        Line.Affordable queue.shared pool free byteLimit batch → batch <+: taken) ∧
      Numbered queue.shared free messages ∧
      HandedOut store index queue.shared taken (Line.crossed line taken pool.length now) messages
        after := by
  intro line free
  have kept := reached.kept
  have found := getElem?_of_bucket opened
  have its := kept found
  have room : ((none : Option UInt64).getD 0).toNat + Line.bytes line < UInt64.size := by
    simpa using light
  obtain ⟨seen, unseen, ids, goes⟩ :=
    goesOn_of_light queue.shared now
      ⟨pool.length, free, none, byteLimit, store.settings.overflow⟩ line room
  have delivers := delivers_deliver queue.shared now
    ⟨pool.length, free, none, byteLimit, store.settings.overflow⟩ line
  generalize delivered : deliver queue.shared now
    ⟨pool.length, free, none, byteLimit, store.settings.overflow⟩ line = delivery at goes delivers
  have apart : (delivery.changes.map Change.key).Nodup :=
    delivers.keys_sublist.nodup (nodup_queueEntries bucket queue)
  have stored : ∀ change ∈ delivery.changes, ∃ entry,
      bucket.entries.get? change.key = some entry := by
    intro change member
    obtain ⟨message, there, _⟩ := delivers.waits change member
    exact ⟨_, (mem_queueEntries.mp there).1⟩
  let plan : Plan := ⟨false, delivery.changes, .done (.ok ())⟩
  obtain ⟨batches, held, -⟩ := its.recalled
  have fine : bucket.refusal? plan.changes = none := Bucket.refusal?_eq_none_of_append held accepts
    ((reached.writable.bucket found).fits_changes delivers.inserted? stored)
  obtain ⟨disk, outbox, done⟩ := carryOut_of_accepted store index fine
  have there : ∀ e ∈ seen, bucket.entries.get? e.1 = some e.2 := by
    intro e member
    have inside : e ∈ line := goes.parts ▸ List.mem_append_left unseen member
    exact (mem_queueEntries.mp inside).1
  have handed := handedOut_of_commit kept found goes.hands there apart done
  have ascending := bucket.ascending_queueEntries queue
  have crossed : Line.crossed line (Line.ready seen now) pool.length now = Line.stale seen now :=
    goes.crossed_eq ascending
  rw [← crossed] at handed
  refine ⟨ascending, Line.ready seen now, delivery.messages, _,
    readNew_of_commit opened its.agrees delivered.symm goes.calm done, ⟨_, goes.ready_eq.symm⟩,
    Allowance.covers_iff.mp goes.covered, ?_, goes.numbered, handed⟩
  intro batch inside affordable
  exact goes.longest inside (Allowance.covers_iff.mpr affordable)

/-- An expired message, one of QoS 0 and three of QoS 1 wait, and a fourth is in flight. -/
def busy : Store :=
  let message (qos : Qos) (payload : UInt64) := Request.add .client
    (.publish { Publish.ofQos qos "u" payload with timestamp := 10, size := 40 }) 10 .discard 0
  let old := Request.add .client
    (.publish { Publish.ofQos .atLeastOnce "u" 2 with expiry := some 1 }) 10 .discard 0
  ((World.start .single .empty).run
    [.ask (message .atLeastOnce 1), .ask (.readNew .client [5] 100 0 0), .ask old,
      .ask (message .atMostOnce 3), .ask (message .atLeastOnce 4),
      .ask (message .atLeastOnce 5), .ask (message .atLeastOnce 6)]).store

/-- The byte limit would admit one message more, but there are just two free ids. -/
theorem readNew_takes_longest_busy : ∃ messages after,
    busy.readNew .client [0, 5, 7, 7, 8] 160 1000 0 = (.ok messages, after) ∧
      messages.map (fun message => (message.payload, message.packetId)) =
        [(3, 0), (4, 7), (5, 8)] ∧
      after.outbox.released = [2, 3] ∧ after.stats.expired = 1 := by
  have fine : (busy.bucket 0).toOption.any (fun bucket =>
      (bucket.journal.append busy.disk []).answer.isOk &&
        decide (Line.bytes (bucket.queueEntries .client) < UInt64.size)) = true := by
    decide +kernel
  have reached : busy.Reached := ⟨.single, .empty, .single, .empty, _, Store.inMemory_single, rfl⟩
  obtain ⟨bucket, opened, accepts, light⟩ := exists_accepting fine
  obtain ⟨_, line, messages, after, done, _⟩ := readNew_takes_longest reached opened accepts
    .client (of_decide_eq_true light) [0, 5, 7, 7, 8] 160 1000
  refine ⟨messages, after, done, ?_⟩
  have answered : (busy.readNew .client [0, 5, 7, 7, 8] 160 1000 0).1.toOption.map
      (List.map fun message => (message.payload, message.packetId)) =
        some [(3, 0), (4, 7), (5, 8)] := by decide +kernel
  have left : (busy.readNew .client [0, 5, 7, 7, 8] 160 1000 0).2.outbox.released = [2, 3] ∧
      (busy.readNew .client [0, 5, 7, 7, 8] 160 1000 0).2.stats.expired = 1 := by
    decide +kernel
  rw [done] at answered left
  exact ⟨Option.some.inj answered, left⟩

end Store

end DeliveryQueue
