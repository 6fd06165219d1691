import DeliveryQueue.Proofs.Identity
import DeliveryQueue.Proofs.Numbers
import DeliveryQueue.Proofs.Untouched

/-!
What a request wants of its queue. All that a request asks a bucket for can be read off the entries
of its own queue, in their order: what it answers, which changes it commits, and whether it draws a
number (`Request.plan`). A plan edits what is stored in the queue, or puts one entry in at the next
place (`Plan.Fits`).
-/
namespace DeliveryQueue

namespace Request

/-- The queue that a request is about. -/
def queue? : Request → Option QueueKey
  | add queue _ _ _ _ | readNew queue _ _ _ _ | readInFlight queue _ _ _ | removeQos0 queue _
  | clear queue _ | size queue _ => some queue
  | replace id _ _ | remove id _ _ _ => some ⟨id, false⟩
  | removeShared id _ _ | giveBack id _ _ => some ⟨id, true⟩
  | cleanUp _ _ | close => none

/-- The bucket that a request is meant for. -/
def index : Request → Nat
  | add _ _ _ _ index | readNew _ _ _ _ index | readInFlight _ _ _ index | replace _ _ index
  | remove _ _ _ index | removeShared _ _ index | giveBack _ _ index | removeQos0 _ index
  | clear _ index | size _ index | cleanUp _ index => index
  | close => 0

/-- The answer to a request that failed. -/
def refusal (fault : QueueFault) : Request → Answer
  | add .. | removeQos0 .. | clear .. | close => .done (.error fault)
  | readNew .. => .messages (.error fault)
  | readInFlight .. => .inFlight (.error fault)
  | replace .. | remove .. => .uniqueId (.error fault)
  | removeShared .. | giveBack .. => .found (.error fault)
  | size .. => .count (.error fault)
  | cleanUp .. => .names (.error fault)

theorem fault?_refusal (fault : QueueFault) (request : Request) :
    (request.refusal fault).fault? = some fault := by
  cases request <;> rfl

end Request

/-- The entries of a queue with their places, oldest first. -/
abbrev Line := List (EntryKey × Entry)

/-- What a request is about to do to its queue. -/
structure Plan where
  /-- Whether it draws the next number. -/
  draws : Bool
  changes : List Change
  /-- What it answers once the changes are committed. -/
  answer : Answer

/-- Nothing is to be done. -/
def Plan.idle (answer : Answer) : Plan := ⟨false, [], answer⟩

namespace Line

/-- The first entry that carries a packet id. -/
def carrier? (line : Line) (id : UInt16) : Option (EntryKey × Entry) :=
  line.find? fun e => e.2.packetId? = some id

/-- The ids of a pool that can be given out. -/
def free (line : Line) (pool : List UInt16) : List UInt16 :=
  (pool.filter fun id => id != noPacketId && (carrier? line id).isNone).eraseDups

/-- The plan for a message that comes to the queue. -/
def accept (line : Line) (next : EntryKey) (message : Publish) (limit : Nat)
    (policy : DiscardPolicy) : Plan :=
  let messageClass := MessageClass.of message.qos
  match Admission.decide (line.countP fun e => e.2.messageClass = messageClass) limit policy with
  | .accept => ⟨true, Store.arrival none next message, .done (.ok ())⟩
  | .dropIncoming => .idle (.done (.ok ()))
  | .evictOldest =>
    match line.find? fun e => e.2.isNew && decide (e.2.messageClass = messageClass) with
    | some (oldest, _) => ⟨true, Store.arrival (some oldest) next message, .done (.ok ())⟩
    | none => .idle (.done (.ok ()))

def readNew (line : Line) (overflow : Overflow) (shared : Bool) (pool : List UInt16)
    (byteLimit now : UInt64) : Plan :=
  let delivery :=
    Store.deliver shared now ⟨pool.length, free line pool, none, byteLimit, overflow⟩ line
  if delivery.panics then .idle (.messages (.error .panicked))
  else ⟨false, delivery.changes, .messages (.ok delivery.messages)⟩

def readInFlight (line : Line) (overflow : Overflow) (maxCount : Nat) (byteLimit : UInt64) :
    Except QueueFault (List InFlight) :=
  let entries := line.map Prod.snd
  match Store.resend ⟨maxCount, [], none, byteLimit, overflow⟩ (entries.filter Entry.isPubrel ++
      entries.filter fun entry => !entry.isPubrel && !entry.isNew) with
  | some messages => .ok messages
  | none => .error .panicked

def replace (line : Line) (next : EntryKey) (id : UInt16) : Plan :=
  match carrier? line id with
  | none => ⟨true, [.insert next (.pubrel id)], .uniqueId (.ok none)⟩
  | some (key, .publish stored) =>
    ⟨false, [.release key id], .uniqueId (.ok (some stored.uniqueId))⟩
  | some _ => .idle (.uniqueId (.ok none))

def remove (line : Line) (id : UInt16) (expected : Option String) : Plan :=
  match carrier? line id with
  | none => .idle (.uniqueId (.ok none))
  | some (key, entry) =>
    if expected.isSome ∧ entry.uniqueId? ≠ expected then .idle (.uniqueId (.ok none))
    else ⟨false, [.delete key], .uniqueId (.ok entry.uniqueId?)⟩

def changeFirst (line : Line) (fits : Entry → Bool) (change : EntryKey → Change) : Plan :=
  match line.find? fun e => fits e.2 with
  | none => .idle (.found (.ok false))
  | some (key, _) => ⟨false, [change key], .found (.ok true)⟩

def deleteEntries (line : Line) (fits : Entry → Bool) : Plan :=
  ⟨false, (line.filter fun e => fits e.2).map fun e => .delete e.1, .done (.ok ())⟩

end Line

/-- What a request is about to do, given the entries of its queue and the place of the next entry.
Upkeep is about no queue. -/
def Request.plan (overflow : Overflow) (line : Line) (next : EntryKey) : Request → Plan
  | add _ (.publish message) limit policy _ => Line.accept line next message limit policy
  | add _ (.pubrel id) _ _ _ =>
    match Line.carrier? line id with
    | some _ => .idle (.done (.ok ()))
    | none => ⟨true, [.insert next (.pubrel id)], .done (.ok ())⟩
  | readNew queue pool byteLimit now _ => Line.readNew line overflow queue.shared pool byteLimit now
  | readInFlight _ maxCount byteLimit _ =>
    .idle (.inFlight (Line.readInFlight line overflow maxCount byteLimit))
  | replace _ id _ => Line.replace line next id
  | remove _ id expected _ => Line.remove line id expected
  | removeShared _ uniqueId _ =>
    Line.changeFirst line (fun entry => entry.uniqueId? = some uniqueId) .delete
  | giveBack _ uniqueId _ => Line.changeFirst line (Store.isTaken uniqueId) (.mark · false)
  | removeQos0 _ _ => Line.deleteEntries line fun entry => entry.messageClass = .qos0
  | clear _ _ => Line.deleteEntries line fun _ => true
  | size _ _ => .idle (.count (.ok line.length))
  | cleanUp _ _ | close => .idle (.done (.ok ()))

/-! Reading off the queue -/

open Std in
/-- No place of another queue stands between two places of a queue, however their ids begin. -/
theorem EntryKey.between_iff (queue : QueueKey) (key : EntryKey) :
    ((compare ⟨queue, 0⟩ key).isLE && (compare key ⟨queue, 0xFFFFFFFFFFFFFFFF⟩).isLE) =
      decide (key.queue = queue) := by
  obtain ⟨other, n⟩ := key
  by_cases same : other = queue
  · subst same
    have first : (compare 0 n).isLE = true :=
      isLE_compare.mpr (UInt64.le_iff_toNat_le.mpr (Nat.zero_le _))
    have last : (compare n 0xFFFFFFFFFFFFFFFF).isLE = true :=
      isLE_compare.mpr (UInt64.le_iff_toNat_le.mpr (Nat.le_of_lt_succ n.toNat_lt))
    simp only [compare_def, compareLex, compareOn, ReflCmp.compare_self, Ordering.then]
    simp [first, last]
  · have apart : compare other queue ≠ .eq := fun eq => same (LawfulEqOrd.eq_of_compare eq)
    have swapped : compare queue other = (compare other queue).swap := OrientedCmp.eq_swap
    simp only [compare_def, compareLex, compareOn, swapped]
    cases order : compare other queue <;> simp_all [Ordering.then]

namespace Bucket

variable {bucket : Bucket} {queue : QueueKey}

/-- What a bucket keeps beside its entries agrees with them, and no two entries of a queue carry
one packet id. -/
structure Coherent (bucket : Bucket) : Prop where
  agrees : bucket.Agrees
  sound : Sound bucket.entries

/-- The entries of a queue are those between its first possible place and its last. -/
theorem queueEntries_eq_range (bucket : Bucket) (queue : QueueKey) :
    bucket.queueEntries queue = bucket.entries.bindings.filter fun e =>
      (compare ⟨queue, 0⟩ e.1).isLE && (compare e.1 ⟨queue, 0xFFFFFFFFFFFFFFFF⟩).isLE := by
  refine List.filter_congr ?_
  intro e _
  exact (EntryKey.between_iff queue e.1).symm

/-- The entry that carries a packet id is stored in its queue. -/
theorem of_carrier? {id : UInt16} {key : EntryKey} {entry : Entry}
    (first : Line.carrier? (bucket.queueEntries queue) id = some (key, entry)) :
    bucket.entries.get? key = some entry ∧ key.queue = queue ∧ entry.packetId? = some id := by
  obtain ⟨stored, its⟩ := Store.mem_queueEntries.mp (List.mem_of_find?_eq_some first)
  have carries := List.find?_some first
  exact ⟨stored, its, of_decide_eq_true carries⟩

/-- The entry that a packet id leads to is the first that carries it. -/
theorem Agrees.inFlightKey?_eq_carrier? (agrees : bucket.Agrees) (queue : QueueKey) (id : UInt16) :
    bucket.inFlightKey? queue id =
      (Line.carrier? (bucket.queueEntries queue) id).map Prod.fst := by
  cases first : Line.carrier? (bucket.queueEntries queue) id with
  | some e =>
    obtain ⟨stored, its, carries⟩ := of_carrier? first
    exact agrees.inFlightKey?_eq_some_iff.mpr ⟨its, e.2, stored, carries⟩
  | none =>
    cases held : bucket.inFlightKey? queue id with
    | none => rfl
    | some key =>
      obtain ⟨its, entry, stored, carries⟩ := agrees.inFlightKey?_eq_some_iff.mp held
      have absent := List.find?_eq_none.mp first (key, entry)
        (Store.mem_queueEntries.mpr ⟨stored, its⟩)
      exact absurd (decide_eq_true carries) absent

/-- The ids that are free are those that no entry carries. -/
theorem Agrees.free_eq (agrees : bucket.Agrees) {counts : QueueCounts}
    (counted : bucket.counts? queue = some counts) (pool : List UInt16) :
    counts.packetIds.free pool = Line.free (bucket.queueEntries queue) pool := by
  have held (id : UInt16) : (!counts.packetIds.inFlight id) =
      (Line.carrier? (bucket.queueEntries queue) id).isNone := by
    have same := congrArg Option.isNone (agrees.inFlightKey?_eq_carrier? queue id)
    simpa [inFlightKey?, counted, PacketIds.inFlight] using same
  simp only [PacketIds.free, Line.free, held]

theorem Agrees.size_eq_length (agrees : bucket.Agrees) (queue : QueueKey) :
    bucket.size queue = (bucket.queueEntries queue).length := by
  rw [size_eq, agrees.indexed.faithful.counts, agrees.indexed.faithful.counts,
    List.length_eq_countP_add_countP fun e => e.2.messageClass = .qos0]
  congr 2
  funext e
  cases e.2.messageClass <;> rfl

end Bucket

/-! What plans change -/

/-- What is planned for a message: nothing, or that it is put at the end. -/
theorem Line.accept_cases (line : Line) (next : EntryKey) (message : Publish) (limit : Nat)
    (policy : DiscardPolicy) :
    line.accept next message limit policy = .idle (.done (.ok ())) ∨
      ∃ evicted : Option EntryKey, (∀ old ∈ evicted, ∃ entry, (old, entry) ∈ line) ∧
        line.accept next message limit policy =
          ⟨true, Store.arrival evicted next message, .done (.ok ())⟩ := by
  unfold accept
  dsimp only
  split
  · exact .inr ⟨none, by simp, rfl⟩
  · exact .inl rfl
  · split
    · rename_i oldest entry first
      refine .inr ⟨some oldest, ?_, rfl⟩
      rintro old ⟨⟩
      exact ⟨entry, List.mem_of_find?_eq_some first⟩
    · exact .inl rfl

/-- A plan edits what is stored in its queue, or it puts one entry in at the next place. -/
inductive Plan.Fits (entries : Entries) (queue : QueueKey) (next : EntryKey) : Plan → Prop
  | edits {changes : List Change} (answer : Answer) (edits : EditsAlong entries changes)
      (its : ∀ change ∈ changes, change.key.queue = queue) :
      Fits entries queue next ⟨false, changes, answer⟩
  | message {evicted : Option EntryKey} (message : Publish) (answer : Answer)
      (stored : ∀ key ∈ evicted, key.queue = queue ∧ ∃ entry, entries.get? key = some entry) :
      Fits entries queue next ⟨true, Store.arrival evicted next message, answer⟩
  | pubrel {id : UInt16} (answer : Answer) (free : ¬ entries.Carries queue id) :
      Fits entries queue next ⟨true, [.insert next (.pubrel id)], answer⟩

namespace Plan.Fits

variable {entries : Entries} {queue : QueueKey} {next : EntryKey} {plan : Plan}

theorem idle (answer : Answer) : Fits entries queue next (.idle answer) :=
  .edits answer trivial (by simp)

theorem edit {change : Change} (answer : Answer) (edit : Edit entries change)
    (its : change.key.queue = queue) : Fits entries queue next ⟨false, [change], answer⟩ :=
  .edits answer ⟨edit, trivial⟩ (by simp [its])

theorem lawful (fits : plan.Fits entries queue next) (sound : Sound entries)
    (its : next.queue = queue) : Change.LawfulAlong entries plan.changes := by
  cases fits with
  | edits answer edits => exact edits.lawful sound
  | message message answer stored =>
    exact Store.lawfulAlong_arrival sound (fun key member => (stored key member).2) next message
  | pubrel answer free => exact Store.lawfulAlong_pubrel sound (its ▸ free)

/-- A plan touches entries of its queue, and the next place if it draws a number. -/
theorem keys (fits : plan.Fits entries queue next) :
    ∀ change ∈ plan.changes, plan.draws = true ∧ change.key = next ∨
      change.key.queue = queue ∧ ∃ entry, entries.get? change.key = some entry := by
  intro change member
  cases fits with
  | edits answer edits its => exact .inr ⟨its change member, edits.stored change member⟩
  | @message evicted message answer stored =>
    rcases List.mem_append.mp member with old | new
    · obtain ⟨key, evicts, rfl⟩ := List.mem_map.mp (Option.toList_map ▸ old)
      exact .inr (stored key (Option.mem_toList.mp evicts))
    · rw [List.mem_singleton.mp new]
      exact .inl ⟨rfl, rfl⟩
  | pubrel answer free =>
    rw [List.mem_singleton.mp member]
    exact .inl ⟨rfl, rfl⟩

/-- A plan for a queue changes no other. -/
theorem own (fits : plan.Fits entries queue next) (its : next.queue = queue) :
    ∀ change ∈ plan.changes, change.key.queue = queue := by
  intro change member
  rcases fits.keys change member with ⟨_, last⟩ | ⟨own, _⟩
  · rw [last, its]
  · exact own

end Plan.Fits

namespace Bucket

variable {bucket : Bucket} {queue : QueueKey} {next : EntryKey}

theorem not_carries_of_carrier?_eq_none {id : UInt16}
    (nobody : Line.carrier? (bucket.queueEntries queue) id = none) :
    ¬ bucket.entries.Carries queue id := by
  rintro ⟨sequence, entry, stored, carries⟩
  have absent := List.find?_eq_none.mp nobody (⟨queue, sequence⟩, entry)
    (Store.mem_queueEntries.mpr ⟨stored, rfl⟩)
  exact absent (decide_eq_true carries)

theorem fits_accept (message : Publish) (limit : Nat) (policy : DiscardPolicy) :
    (Line.accept (bucket.queueEntries queue) next message limit policy).Fits bucket.entries queue
      next := by
  rcases Line.accept_cases (bucket.queueEntries queue) next message limit policy with
    idle | ⟨evicted, waits, arrives⟩
  · rw [idle]
    exact .idle _
  · rw [arrives]
    refine .message message _ ?_
    intro key gone
    obtain ⟨entry, listed⟩ := waits key gone
    obtain ⟨stored, its⟩ := Store.mem_queueEntries.mp listed
    exact ⟨its, entry, stored⟩

theorem fits_readNew (agrees : bucket.Agrees) (overflow : Overflow) (pool : List UInt16)
    (byteLimit now : UInt64) :
    (Line.readNew (bucket.queueEntries queue) overflow queue.shared pool byteLimit now).Fits
      bucket.entries queue next := by
  have delivers := Store.delivers_deliver queue.shared now
    ⟨pool.length, Line.free (bucket.queueEntries queue) pool, none, byteLimit, overflow⟩
    (bucket.queueEntries queue)
  unfold Line.readNew
  dsimp only
  split
  · exact .idle _
  refine .edits _ ?_ ?_
  · cases counted : bucket.counts? queue with
    | none =>
      rw [agrees.indexed.faithful.empty queue counted]
      trivial
    | some counts =>
      have ahead := Store.ahead_queueEntries agrees counted pool
      rw [agrees.free_eq counted] at ahead
      exact Store.editsAlong_deliver now
        ⟨pool.length, Line.free (bucket.queueEntries queue) pool, none, byteLimit, overflow⟩ _ ahead
  · intro change member
    have listed := delivers.keys_sublist.mem (List.mem_map_of_mem member)
    obtain ⟨e, waits, same⟩ := List.mem_map.mp listed
    rw [← same]
    exact (Store.mem_queueEntries.mp waits).2

theorem fits_changeFirst {fits : Entry → Bool} {change : EntryKey → Change}
    (edits : ∀ key entry, bucket.entries.get? key = some entry → key.queue = queue →
      fits entry = true → Edit bucket.entries (change key) ∧ (change key).key = key) :
    (Line.changeFirst (bucket.queueEntries queue) fits change).Fits bucket.entries queue next := by
  unfold Line.changeFirst
  split
  · exact .idle _
  · rename_i key entry first
    obtain ⟨stored, its, suits⟩ := Store.of_find?_queueEntries first
    obtain ⟨edit, same⟩ := edits key entry stored its suits
    exact .edit _ edit ((congrArg EntryKey.queue same).trans its)

theorem fits_deleteEntries (fits : Entry → Bool) :
    (Line.deleteEntries (bucket.queueEntries queue) fits).Fits bucket.entries queue next := by
  refine .edits _ (Store.editsAlong_deletions bucket queue fits) ?_
  intro change member
  obtain ⟨e, listed, rfl⟩ := List.mem_map.mp member
  exact (Store.mem_queueEntries.mp (List.mem_filter.mp listed).1).2

/-- Every plan edits what is stored in its queue, or puts one entry in at the next place. -/
theorem Coherent.fits (coherent : bucket.Coherent) (overflow : Overflow) {request : Request}
    (its : request.queue? = some queue) :
    (request.plan overflow (bucket.queueEntries queue) next).Fits bucket.entries queue next := by
  cases request with
  | add _ message limit policy index =>
    cases its
    cases message with
    | publish message => exact fits_accept message limit policy
    | pubrel id =>
      simp only [Request.plan]
      split
      · exact .idle _
      · rename_i nobody
        exact .pubrel _ (not_carries_of_carrier?_eq_none nobody)
  | readNew _ pool byteLimit now index =>
    cases its
    exact fits_readNew coherent.agrees overflow pool byteLimit now
  | readInFlight | size => exact .idle _
  | replace client id index =>
    cases its
    simp only [Request.plan, Line.replace]
    split
    · rename_i nobody
      exact .pubrel _ (not_carries_of_carrier?_eq_none nobody)
    · rename_i key stored first
      obtain ⟨there, same, carries⟩ := of_carrier? first
      exact .edit _ (.release there carries) same
    · exact .idle _
  | remove client id expected index =>
    cases its
    simp only [Request.plan, Line.remove]
    split
    · exact .idle _
    · rename_i key entry first
      obtain ⟨there, same⟩ := Store.mem_queueEntries.mp (List.mem_of_find?_eq_some first)
      split
      · exact .idle _
      · exact .edit _ (.delete there) same
  | removeShared group uniqueId index =>
    cases its
    have edits (key : EntryKey) (entry : Entry) (stored : bucket.entries.get? key = some entry)
        (_ : key.queue = ⟨group, true⟩) (_ : decide (entry.uniqueId? = some uniqueId) = true) :
        Edit bucket.entries (.delete key) ∧ (Change.delete key).key = key := ⟨.delete stored, rfl⟩
    exact fits_changeFirst edits
  | giveBack group uniqueId index =>
    cases its
    refine fits_changeFirst ?_
    intro key entry stored same taken
    cases entry with
    | taken message => exact ⟨.giveBack (same ▸ rfl) stored, rfl⟩
    | publish _ | pubrel _ => cases taken
  | removeQos0 _ index =>
    cases its
    exact fits_deleteEntries fun entry => entry.messageClass = .qos0
  | clear _ index =>
    cases its
    exact fits_deleteEntries fun _ => true
  | cleanUp | close => cases its

end Bucket

end DeliveryQueue
