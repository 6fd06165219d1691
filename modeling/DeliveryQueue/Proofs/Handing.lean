import DeliveryQueue.Proofs.Carrying
import DeliveryQueue.Proofs.Failure

/-!
Handing out all messages of a line that are ready and dropping all that have expired
(`Store.Hands`): which messages come out, under which ids, and what becomes of their entries.
-/
namespace DeliveryQueue

/-- Whether a journal in memory takes a batch is not up to the batch. -/
theorem Journal.append_any {journal : Journal} {batches : List Bytes} {disk : Disk} {batch : Bytes}
    (held : journal.held? = some batches)
    (taken : (journal.append disk batch).answer = .ok ()) (other : Disk) (same : Bytes) :
    (journal.append other same).answer = .ok () := by
  cases journal with
  | file log => simp [held?] at held
  | memory log =>
    by_cases refuses : log.failAppends || log.isFull
    · simp [append, MemoryJournal.append, refuses] at taken
    · simp [append, MemoryJournal.append, refuses]

namespace Bucket

variable {bucket : Bucket} {changes : List Change}

/-- A journal that takes a batch refuses no changes that can be encoded. -/
theorem refusal?_eq_none_of_append {batches : List Bytes} {disk : Disk} {batch : Bytes}
    (held : bucket.journal.held? = some batches)
    (taken : (bucket.journal.append disk batch).answer = .ok ())
    (short : Batch.Fits (changes.flatMap Batch.changeTexts)) : bucket.refusal? changes = none := by
  unfold refusal?
  rw [Batch.encode_eq_ok_iff.mpr ⟨short, rfl⟩]
  dsimp only
  rw [Journal.append_any held taken .empty (Batch.bytes changes), ite_self]

end Bucket

/-- A bucket whose journal takes a batch. -/
theorem Store.exists_accepting {store : Store} {index : Nat} {P : Bucket → Bool}
    (fine : (store.bucket index).toOption.any (fun bucket =>
      (bucket.journal.append store.disk []).answer.isOk && P bucket) = true) :
    ∃ bucket, store.bucket index = .ok bucket ∧
      (bucket.journal.append store.disk []).answer = .ok () ∧ P bucket = true := by
  obtain ⟨bucket, opened, fine⟩ := exists_bucket fine
  obtain ⟨works, holds⟩ := Bool.and_eq_true_iff.mp fine
  refine ⟨bucket, opened, ?_, holds⟩
  cases answer : (bucket.journal.append store.disk []).answer with
  | error fault => simp [answer, Except.isOk, Except.toBool] at works
  | ok => rfl

/-- Changes to entries that are stored already write no more than the names of their queues. -/
theorem Table.Writable.fits_changes {entries : Entries} {changes : List Change}
    (writable : Writable entries) (brings : changes.filterMap Change.inserted? = [])
    (stored : ∀ change ∈ changes, ∃ entry, entries.get? change.key = some entry) :
    Batch.Fits (changes.flatMap Batch.changeTexts) := by
  intro text member
  obtain ⟨change, made, its⟩ := List.mem_flatMap.mp member
  obtain ⟨entry, there⟩ := stored change made
  have nothing : change.inserted? = none := List.filterMap_eq_nil_iff.mp brings change made
  rw [Batch.changeTexts, nothing] at its
  obtain rfl := List.mem_singleton.mp its
  exact writable there _ List.mem_cons_self

/-- Changes at different places displace what stood there before. -/
theorem Change.displacedAll_of_nodup {entries : Entries} {changes : List Change}
    (apart : (changes.map key).Nodup) : displacedAll entries changes =
      changes.filterMap fun change => change.displaced (entries.get? change.key) := by
  induction changes generalizing entries with
  | nil => rfl
  | cons change changes ih =>
    obtain ⟨fresh, others⟩ := List.nodup_cons.mp apart
    have same : (changes.filterMap fun other =>
        other.displaced ((change.act entries).get? other.key)) =
          changes.filterMap fun other => other.displaced (entries.get? other.key) := by
      refine List.filterMap_congr ?_
      intro other member
      rw [get?_act_of_ne]
      intro equal
      exact fresh (List.mem_map.mpr ⟨other, member, equal⟩)
    rw [displacedAll, ih others, same]
    cases out : change.displaced (entries.get? change.key) <;> simp [out]

/-- What is related to a member of a list is a member of the other. -/
theorem exists_of_forall₂ {α β : Type} {R : α → β → Prop} {first : List α} {second : List β}
    (all : List.Forall₂ R first second) {a : α} (member : a ∈ first) : ∃ b ∈ second, R a b := by
  induction all with
  | nil => cases member
  | @cons _ b _ _ here _ ih =>
    rcases List.mem_cons.mp member with rfl | member
    · exact ⟨b, List.mem_cons_self, here⟩
    · obtain ⟨b, there, related⟩ := ih member
      exact ⟨b, List.mem_cons_of_mem _ there, related⟩

/-- Whether the entry is a message that waits and has not expired. -/
def Entry.isReady (now : UInt64) (entry : Entry) : Bool := entry.isNew && !entry.isStale now

namespace Line

variable {line seen unseen batch larger : Line} {now : UInt64}

/-- The messages that are ready to be handed out. -/
def ready (line : Line) (now : UInt64) : Line := line.filter fun e => e.2.isReady now

/-- The messages that have expired while they waited. -/
def stale (line : Line) (now : UInt64) : Line := line.filter fun e => e.2.isStale now

def bytes (line : Line) : Nat := (line.map fun e => e.2.size.toNat).sum

/-- How many of the entries are of QoS 1 or 2. -/
def acknowledged (line : Line) : Nat := line.countP fun e => e.2.messageClass ≠ .qos0

theorem ready_cons_of_pos {e : EntryKey × Entry} (here : e.2.isReady now = true) :
    ready (e :: line) now = e :: ready line now := List.filter_cons_of_pos here

theorem ready_cons_of_neg {e : EntryKey × Entry} (not : ¬ e.2.isReady now = true) :
    ready (e :: line) now = ready line now := List.filter_cons_of_neg not

theorem stale_cons_of_pos {e : EntryKey × Entry} (here : e.2.isStale now = true) :
    stale (e :: line) now = e :: stale line now := List.filter_cons_of_pos here

theorem stale_cons_of_neg {e : EntryKey × Entry} (not : ¬ e.2.isStale now = true) :
    stale (e :: line) now = stale line now := List.filter_cons_of_neg not

theorem ready_append (front back : Line) (now : UInt64) :
    ready (front ++ back) now = ready front now ++ ready back now := List.filter_append ..

theorem stale_append (front back : Line) (now : UInt64) :
    stale (front ++ back) now = stale front now ++ stale back now := List.filter_append ..

end Line

theorem Entry.not_isStale_of_isReady {entry : Entry} {now : UInt64}
    (ready : entry.isReady now = true) : ¬ entry.isStale now = true := by
  simpa using (Bool.and_eq_true_iff.mp ready).2

namespace Store

/-- A way to hand out all messages that are ready, those of QoS 1 and 2 under these ids, and to drop
all that have expired. -/
inductive Hands (shared : Bool) (now : UInt64) : List UInt16 → Line → Delivery → Prop
  | done : Hands shared now [] [] .nothing
  | panic : Hands shared now [] [] .panic
  | pass {ids : List UInt16} {rest : Line} {delivery : Delivery} (e : EntryKey × Entry)
      (idle : e.2.isNew = false) (others : Hands shared now ids rest delivery) :
      Hands shared now ids (e :: rest) delivery
  | expire {ids : List UInt16} {rest : Line} {delivery : Delivery} (key : EntryKey)
      {stored : StoredPublish} (waits : stored.packetId = none) (late : stored.isExpired now = true)
      (others : Hands shared now ids rest delivery) :
      Hands shared now ids ((key, .publish stored) :: rest) (delivery.expire key)
  | drop {ids : List UInt16} {rest : Line} {delivery : Delivery} (key : EntryKey)
      {stored : StoredPublish} (waits : stored.packetId = none)
      (fresh : stored.isExpired now = false) (once : stored.qos = .atMostOnce)
      (others : Hands shared now ids rest delivery) :
      Hands shared now ids ((key, .publish stored) :: rest)
        (delivery.hand (.delete key) (stored.toPublish noPacketId))
  | hand {ids : List UInt16} {rest : Line} {delivery : Delivery} (key : EntryKey)
      {stored : StoredPublish} (waits : stored.packetId = none)
      (fresh : stored.isExpired now = false) (acknowledged : stored.qos ≠ .atMostOnce)
      (id : UInt16) (others : Hands shared now ids rest delivery) :
      Hands shared now (id :: ids) ((key, .publish stored) :: rest)
        (delivery.hand (.handing shared key id) (stored.toPublish id))

section Marks
variable {stored : StoredPublish} {now : UInt64}

theorem messageClass_publish :
    (Entry.publish stored).messageClass = .qos0 ↔ stored.qos = .atMostOnce := by
  rw [Entry.messageClass]
  cases stored.qos <;> simp [MessageClass.of]

theorem isReady_publish (waits : stored.packetId = none) (fresh : stored.isExpired now = false) :
    (Entry.publish stored).isReady now = true := by
  simp [Entry.isReady, Entry.isNew, Entry.isStale, waits, fresh]

theorem isStale_publish (waits : stored.packetId = none) (late : stored.isExpired now = true) :
    (Entry.publish stored).isStale now = true := by
  simp [Entry.isStale, waits, late]

theorem not_isStale_publish (fresh : stored.isExpired now = false) :
    ¬ (Entry.publish stored).isStale now = true := by
  simp [Entry.isStale, fresh]

theorem not_isReady_of_isStale {entry : Entry} (stale : entry.isStale now = true) :
    ¬ entry.isReady now = true := by
  simp [Entry.isReady, stale]

theorem not_isReady_of_idle {entry : Entry} (idle : entry.isNew = false) :
    ¬ entry.isReady now = true := by
  simp [Entry.isReady, idle]

theorem not_isStale_of_idle {entry : Entry} (idle : entry.isNew = false) :
    ¬ entry.isStale now = true := by
  intro stale
  rw [Entry.isNew_of_isStale stale] at idle
  cases idle

end Marks

/-- The message is handed out for the entry, and one of the changes does it: it leaves the queue, or
it goes in flight under the id that it carries. -/
def HandsFor (shared : Bool) (changes : List Change) (e : EntryKey × Entry)
    (message : Publish) : Prop :=
  ∃ stored : StoredPublish, e.2 = .publish stored ∧ message = stored.toPublish message.packetId ∧
    ∃ change ∈ changes, change.key = e.1 ∧ change.outcome (some (.publish stored)) =
      if stored.qos = .atMostOnce then none
      else some (stored.inFlight shared message.packetId)

namespace Hands

variable {shared : Bool} {now : UInt64} {ids : List UInt16} {line : Line} {delivery : Delivery}

/-- Each message that is ready is handed out, in order. -/
theorem handed (hands : Hands shared now ids line delivery) :
    List.Forall₂ (HandsFor shared delivery.changes) (Line.ready line now) delivery.messages := by
  -- what is handed out further on is handed out still
  have behind {changes : List Change} (change : Change) {rest : Line} {messages : List Publish}
      (handed : List.Forall₂ (HandsFor shared changes) rest messages) :
      List.Forall₂ (HandsFor shared (change :: changes)) rest messages := by
    refine handed.imp ?_
    rintro e message ⟨stored, its, content, other, made, rest⟩
    exact ⟨stored, its, content, other, List.mem_cons_of_mem _ made, rest⟩
  induction hands with
  | done | panic => exact .nil
  | pass e idle _ ih =>
    rw [Line.ready_cons_of_neg (not_isReady_of_idle idle)]
    exact ih
  | expire key waits late _ ih =>
    rw [Line.ready_cons_of_neg (not_isReady_of_isStale (isStale_publish waits late))]
    exact behind _ ih
  | @drop _ _ delivery key stored waits fresh once _ ih =>
    rw [Line.ready_cons_of_pos (isReady_publish waits fresh)]
    refine .cons ⟨stored, rfl, rfl, .delete key, List.mem_cons_self, rfl, ?_⟩ (behind _ ih)
    rw [if_pos once]
    rfl
  | @hand _ _ delivery key stored waits fresh acknowledged id _ ih =>
    rw [Line.ready_cons_of_pos (isReady_publish waits fresh)]
    refine .cons ⟨stored, rfl, rfl, .handing shared key id, List.mem_cons_self,
      Change.key_handing shared key id, ?_⟩ (behind _ ih)
    rw [if_neg acknowledged]
    exact Change.outcome_handing waits shared key id

/-- The messages of QoS 1 and 2 carry the ids, in order, and those of QoS 0 carry none. -/
theorem ids_eq (hands : Hands shared now ids line delivery) :
    (delivery.messages.filter fun message => message.qos ≠ .atMostOnce).map Publish.packetId =
        ids ∧
      ∀ message ∈ delivery.messages, message.qos = .atMostOnce →
        message.packetId = noPacketId := by
  induction hands with
  | done | panic => exact ⟨rfl, by simp [Delivery.nothing, Delivery.panic]⟩
  | pass _ _ _ ih => exact ih
  | expire _ _ _ _ ih => exact ih
  | @drop _ _ _ key stored _ _ once _ ih =>
    have unacknowledged : (stored.toPublish noPacketId).qos = .atMostOnce := once
    refine ⟨?_, List.forall_mem_cons.mpr ⟨fun _ => rfl, ih.2⟩⟩
    rw [Delivery.hand, List.filter_cons_of_neg (by simpa using unacknowledged)]
    exact ih.1
  | @hand _ _ _ key stored _ _ acknowledged id _ ih =>
    have kept : (stored.toPublish id).qos ≠ .atMostOnce := acknowledged
    refine ⟨?_, List.forall_mem_cons.mpr ⟨fun once => absurd once kept, ih.2⟩⟩
    rw [Delivery.hand, List.filter_cons_of_pos (by simpa using kept), List.map_cons, ih.1]
    rfl

/-- All expired messages are dropped and counted. -/
theorem expired (hands : Hands shared now ids line delivery) :
    delivery.expired = (Line.stale line now).length ∧
      ∀ e ∈ Line.stale line now, .delete e.1 ∈ delivery.changes := by
  induction hands with
  | done | panic => exact ⟨rfl, by simp [Line.stale]⟩
  | pass e idle _ ih =>
    rw [Line.stale_cons_of_neg (not_isStale_of_idle idle)]
    exact ih
  | expire key waits late _ ih =>
    rw [Line.stale_cons_of_pos (isStale_publish waits late)]
    refine ⟨congrArg Nat.succ ih.1, List.forall_mem_cons.mpr ⟨List.mem_cons_self, ?_⟩⟩
    intro e member
    exact List.mem_cons_of_mem _ (ih.2 e member)
  | drop key waits fresh _ _ ih | hand key waits fresh _ _ _ ih =>
    rw [Line.stale_cons_of_neg (not_isStale_publish fresh)]
    refine ⟨ih.1, ?_⟩
    intro e member
    exact List.mem_cons_of_mem _ (ih.2 e member)

/-- Only what is ready or has expired is changed. -/
theorem keys (hands : Hands shared now ids line delivery) :
    ∀ change ∈ delivery.changes,
      change.key ∈ (Line.ready line now ++ Line.stale line now).map Prod.fst := by
  -- what is there behind is there still
  have behind {rest : Line} {key : EntryKey} (e : EntryKey × Entry) :
      key ∈ (Line.ready rest now ++ Line.stale rest now).map Prod.fst →
        key ∈ (Line.ready (e :: rest) now ++ Line.stale (e :: rest) now).map Prod.fst := by
    have longer : rest.Sublist (e :: rest) := List.sublist_cons_self ..
    refine fun member => List.Sublist.subset (List.Sublist.map _ ?_) member
    exact (longer.filter _).append (longer.filter _)
  induction hands with
  | done | panic => simp [Delivery.nothing, Delivery.panic]
  | pass e _ _ ih =>
    intro change member
    exact behind e (ih change member)
  | expire key waits late _ ih =>
    refine List.forall_mem_cons.mpr ⟨?_, fun change member => behind _ (ih change member)⟩
    rw [Line.stale_cons_of_pos (isStale_publish waits late)]
    simp [Change.key]
  | drop key waits fresh _ _ ih =>
    refine List.forall_mem_cons.mpr ⟨?_, fun change member => behind _ (ih change member)⟩
    rw [Line.ready_cons_of_pos (isReady_publish waits fresh)]
    simp [Change.key]
  | hand key waits fresh _ id _ ih =>
    refine List.forall_mem_cons.mpr ⟨?_, fun change member => behind _ (ih change member)⟩
    rw [Line.ready_cons_of_pos (isReady_publish waits fresh), Change.key_handing]
    simp

/-- What is expired or of QoS 0 leaves the queue. -/
theorem displaced (hands : Hands shared now ids line delivery) {entries : Entries}
    (stored : ∀ e ∈ line, entries.get? e.1 = some e.2) :
    (delivery.changes.filterMap fun change => change.displaced (entries.get? change.key)).Perm
      (((Line.ready line now).filter fun e => e.2.messageClass = .qos0) ++
        Line.stale line now |>.map Prod.snd) := by
  induction hands with
  | done | panic => exact .refl _
  | pass e idle _ ih =>
    rw [Line.ready_cons_of_neg (not_isReady_of_idle idle),
      Line.stale_cons_of_neg (not_isStale_of_idle idle)]
    exact ih (List.forall_mem_cons.mp stored).2
  | @expire _ _ _ key message waits late _ ih =>
    obtain ⟨first, others⟩ := List.forall_mem_cons.mp stored
    have out : (Change.delete key).displaced (entries.get? (Change.delete key).key) =
      some (.publish message) := first
    rw [Line.ready_cons_of_neg (not_isReady_of_isStale (isStale_publish waits late)),
      Line.stale_cons_of_pos (isStale_publish waits late), List.map_append, List.map_cons]
    rw [List.map_append] at ih
    simp only [Delivery.expire, List.filterMap_cons, out]
    exact ((ih others).cons _).trans List.perm_middle.symm
  | @drop _ _ _ key message waits fresh once _ ih =>
    obtain ⟨first, others⟩ := List.forall_mem_cons.mp stored
    have out : (Change.delete key).displaced (entries.get? (Change.delete key).key) =
      some (.publish message) := first
    rw [Line.ready_cons_of_pos (isReady_publish waits fresh),
      Line.stale_cons_of_neg (not_isStale_publish fresh),
      List.filter_cons_of_pos (by simpa using messageClass_publish.mpr once)]
    simp only [Delivery.hand, List.filterMap_cons, out]
    exact (ih others).cons _
  | @hand _ _ _ key message waits fresh acknowledged id _ ih =>
    obtain ⟨_, others⟩ := List.forall_mem_cons.mp stored
    have out (before : Option Entry) : (Change.handing shared key id).displaced before = none := by
      cases shared <;> rfl
    rw [Line.ready_cons_of_pos (isReady_publish waits fresh),
      Line.stale_cons_of_neg (not_isStale_publish fresh),
      List.filter_cons_of_neg (by simpa using mt messageClass_publish.mp acknowledged)]
    simp only [Delivery.hand, List.filterMap_cons, out]
    exact ih others

end Hands

/-- A reading goes through some front part of a queue in this way, whatever its allowance. -/
theorem exists_hands (shared : Bool) (now : UInt64) (allowance : Allowance) (line : Line) :
    ∃ seen unseen ids, line = seen ++ unseen ∧
      Hands shared now ids seen (deliver shared now allowance line) := by
  have stop (line : Line) : ∃ seen unseen ids, line = seen ++ unseen ∧
      Hands shared now ids seen .nothing := ⟨[], line, [], rfl, .done⟩
  have waits {stored : StoredPublish} (free : ¬ stored.packetId.isSome = true) :
      stored.packetId = none := by simpa using free
  have fresh {stored : StoredPublish} (timely : ¬ stored.isExpired now = true) :
      stored.isExpired now = false := by simpa using timely
  -- one case for each way that an entry can go, as `deliver` tells them apart
  fun_induction deliver shared now allowance line with
  | case1 | case2 | case6 | case9 => exact stop _
  | case5 => exact ⟨[], _, [], rfl, .panic⟩
  | case3 _ key rest _ stored carries ih =>
    obtain ⟨seen, unseen, ids, parts, hands⟩ := ih
    refine ⟨_ :: seen, unseen, ids, congrArg _ parts, .pass _ ?_ hands⟩
    rw [Entry.isNew, Option.isNone_eq_false_iff]
    exact carries
  | case4 _ key rest _ stored free late ih =>
    obtain ⟨seen, unseen, ids, parts, hands⟩ := ih
    exact ⟨_ :: seen, unseen, ids, congrArg _ parts, .expire key (waits free) late hands⟩
  | case7 _ key rest _ stored free timely _ _ _ once ih =>
    obtain ⟨seen, unseen, ids, parts, hands⟩ := ih
    exact ⟨_ :: seen, unseen, ids, congrArg _ parts,
      .drop key (waits free) (fresh timely) once hands⟩
  | case8 _ key rest _ stored free timely _ _ _ acknowledged yes ih =>
    obtain ⟨seen, unseen, ids, parts, hands⟩ := ih
    subst yes
    exact ⟨_ :: seen, unseen, noPacketId :: ids, congrArg _ parts,
      .hand key (waits free) (fresh timely) acknowledged noPacketId hands⟩
  | case10 _ key rest _ stored free timely _ _ _ acknowledged no id others _ ih =>
    obtain ⟨seen, unseen, ids, parts, hands⟩ := ih
    obtain rfl : shared = false := by simpa using no
    exact ⟨_ :: seen, unseen, id :: ids, congrArg _ parts,
      .hand key (waits free) (fresh timely) acknowledged id hands⟩
  | case11 _ key entry rest _ other ih =>
    obtain ⟨seen, unseen, ids, parts, hands⟩ := ih
    have idle : entry.isNew = false := by
      cases entry with
      | publish stored => exact (other stored rfl).elim
      | pubrel | taken => rfl
    exact ⟨_ :: seen, unseen, ids, congrArg _ parts, .pass _ idle hands⟩

end Store

end DeliveryQueue
