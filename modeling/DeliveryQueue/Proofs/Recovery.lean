import DeliveryQueue.Proofs.Indexes
import DeliveryQueue.Proofs.Soundness

/-!
A bucket and its journal. Whatever a bucket with a journal in memory commits, compacts, flushes or
forgets, its journal replays to its entries (`Recalls`), and the bucket that is rebuilt from the
journal agrees with them as the living one does (`Kept`).
-/
namespace DeliveryQueue

namespace Journal

/-- The batches of a journal that is kept in memory. -/
def held? : Journal → Option (List Bytes)
  | memory log => some log.batches
  | file _ => none

variable {journal : Journal} {batches : List Bytes}

/-- Appending fails and changes nothing, or puts the batch at the end. -/
theorem append_cases (held : journal.held? = some batches) (disk : Disk) (batch : Bytes) :
    (∃ fault, journal.append disk batch = ⟨.error fault, journal, disk⟩) ∨
      ∃ written : Journal, written.held? = some (batches ++ [batch]) ∧
        journal.append disk batch = ⟨.ok (), written, disk⟩ := by
  cases journal with
  | file log => cases held
  | memory log =>
    cases held
    by_cases fails : log.failAppends || log.isFull
    · exact .inl ⟨.io (.injected "append"), by simp [append, MemoryJournal.append, fails]⟩
    · exact .inr ⟨.memory { log with batches := log.batches ++ [batch] }, rfl,
        by simp [append, MemoryJournal.append, fails]⟩

/-- Rewriting fails and changes nothing, or leaves the snapshot alone. -/
theorem replaceAll_cases (held : journal.held? = some batches) (disk : Disk) (snapshot : Bytes) :
    (∃ fault, journal.replaceAll disk snapshot = ⟨.error fault, journal, disk⟩) ∨
      ∃ written : Journal, written.held? = some [snapshot] ∧
        journal.replaceAll disk snapshot = ⟨.ok (), written, disk⟩ := by
  cases journal with
  | file log => cases held
  | memory log =>
    by_cases fails : log.failReplacements
    · exact .inl ⟨.io (.injected "rewrite"), by simp [replaceAll, MemoryJournal.replaceAll, fails]⟩
    · exact .inr ⟨.memory { log with batches := [snapshot] }, rfl,
        by simp [replaceAll, MemoryJournal.replaceAll, fails]⟩

theorem replay_of_held? (held : journal.held? = some batches) (disk : Disk) :
    journal.replay disk = ⟨.ok batches, journal, disk⟩ := by
  cases journal with
  | file log => cases held
  | memory log => cases held; rfl

theorem disk_sync (journal : Journal) (disk : Disk) : (journal.sync disk).disk = disk := by
  cases journal <;> rfl

theorem held?_sync (journal : Journal) (disk : Disk) (held : journal.held? = some batches) :
    (journal.sync disk).journal.held? = some batches := by
  cases journal with
  | file log => cases held
  | memory log =>
    simp only [sync, MemoryJournal.sync, held?]
    split <;> exact held

end Journal

namespace Batch

/-- The changes in batches, if all of them can be read. -/
def changes? : List Bytes → Option (List Change)
  | [] => some []
  | batch :: batches =>
    match decode batch, changes? batches with
    | .ok front, some back => some (front ++ back)
    | _, _ => none

theorem changes?_append (front back : List Bytes) :
    changes? (front ++ back) =
      (changes? front).bind fun first => (changes? back).map fun second => first ++ second := by
  induction front with
  | nil => cases h : changes? back <;> simp [changes?, h]
  | cons batch front ih =>
    simp only [List.cons_append, changes?, ih]
    cases decode batch <;> cases changes? front <;> cases changes? back <;> simp

/-- What one more batch adds to the changes in a log. -/
theorem eq_of_changes?_concat {batches : List Bytes} {changes all : List Change}
    (short : Fits (changes.flatMap changeTexts))
    (read : changes? (batches ++ [bytes changes]) = some all) :
    ∃ front, changes? batches = some front ∧ all = front ++ changes.map Change.spelled := by
  rw [changes?_append] at read
  obtain ⟨front, first, read⟩ := Option.bind_eq_some_iff.mp read
  obtain ⟨back, second, rfl⟩ := Option.map_eq_some_iff.mp read
  refine ⟨front, first, ?_⟩
  simp only [changes?] at second
  cases decoded : decode (bytes changes) with
  | error fault => simp [decoded] at second
  | ok found =>
    simp only [decoded, List.append_nil, Option.some.injEq] at second
    rw [← second, eq_of_decode_bytes short decoded]

/-- The highest sequence number in changes. -/
def top (changes : List Change) : Option UInt64 :=
  changes.foldl (fun top change => Bucket.highest top change.key.sequence) none

end Batch

/-- Whenever the batches can be read, they replay to the entries, by lawful changes only. -/
def Recalls (batches : List Bytes) (entries : Entries) : Prop :=
  ∀ changes, Batch.changes? batches = some changes →
    Change.LawfulAlong Table.empty changes ∧ Change.actAll Table.empty changes = entries

theorem Recalls.nil : Recalls [] Table.empty := by
  rintro changes ⟨⟩
  exact ⟨trivial, rfl⟩

theorem Recalls.concat {batches : List Bytes} {entries : Entries} {changes : List Change}
    (recalls : Recalls batches entries) (short : Batch.Fits (changes.flatMap Batch.changeTexts))
    (lawful : Change.LawfulAlong entries changes) :
    Recalls (batches ++ [Batch.bytes changes]) (Change.actAll entries changes) := by
  intro all read
  obtain ⟨front, first, rfl⟩ := Batch.eq_of_changes?_concat short read
  obtain ⟨before, reached⟩ := recalls front first
  rw [lawful.plain]
  exact ⟨Change.lawfulAlong_append.mpr ⟨before, reached ▸ lawful⟩,
    by rw [Change.actAll_append, reached]⟩

/-- A snapshot says as much as all that it stands for. -/
theorem Recalls.snapshot {entries : Entries} (sound : Sound entries)
    (short : Batch.Fits ((snapshot entries).flatMap Batch.changeTexts)) :
    Recalls [Batch.bytes (snapshot entries)] entries := by
  have lawful := lawfulAlong_snapshot sound
  have whole := Recalls.nil.concat short lawful
  rwa [actAll_snapshot sound] at whole

namespace Bucket

variable {bucket : Bucket} {budget : Budget} {disk : Disk} {batches : List Bytes}
variable {changes : List Change}

theorem applyAll_append (bucket : Bucket) (budget : Budget) (front back : List Change) :
    (bucket.applyAll budget (front ++ back)).1 =
        ((bucket.applyAll budget front).1.applyAll (bucket.applyAll budget front).2.1 back).1 ∧
      (bucket.applyAll budget (front ++ back)).2.1 =
        ((bucket.applyAll budget front).1.applyAll
          (bucket.applyAll budget front).2.1 back).2.1 := by
  induction front generalizing bucket budget with
  | nil => exact ⟨rfl, rfl⟩
  | cons change front ih => exact ih _ _

/-- What is kept beside the entries agrees with them in full. -/
structure Agrees (bucket : Bucket) : Prop where
  indexed : bucket.Indexed
  traced : bucket.Traced

theorem agrees_ofJournal (index : Nat) (journal : Journal) : (ofJournal index journal).Agrees :=
  ⟨indexed_ofJournal index journal, traced_ofJournal index journal⟩

theorem Agrees.applyAll (agrees : bucket.Agrees) (budget : Budget)
    (lawful : Change.LawfulAlong bucket.entries changes) :
    (bucket.applyAll budget changes).1.Agrees := by
  induction changes generalizing bucket budget with
  | nil => exact agrees
  | cons change changes ih =>
    have next : (bucket.apply budget change).1.Agrees :=
      ⟨agrees.indexed.apply budget change,
        agrees.traced.apply agrees.indexed budget lawful.1.sound.single⟩
    exact ih next _ (by rw [entries_apply]; exact lawful.2)

theorem Agrees.withJournal (agrees : bucket.Agrees) (journal : Journal) :
    { bucket with journal }.Agrees :=
  ⟨⟨agrees.indexed.counts, agrees.indexed.ages, agrees.indexed.holders⟩, agrees.traced⟩

theorem Agrees.not_carries_of_holder?_eq_none (agrees : bucket.Agrees) {queue : QueueKey}
    {id : UInt16} (free : bucket.holder? queue id = none) : ¬ bucket.entries.Carries queue id := by
  rintro ⟨sequence, entry, found, carries⟩
  rw [agrees.traced found carries] at free
  cases free

/-! Forgetting empty queues -/

theorem pos_count_of_get? {entries : Entries} {key : EntryKey} {entry : Entry}
    (found : entries.get? key = some entry) : 0 < entries.count key.queue entry.messageClass := by
  have trade := Table.total_erase entries (fun other e =>
    if other.queue = key.queue ∧ e.messageClass = entry.messageClass then 1 else 0) key
  simp only [found, Option.elim, and_self, if_true] at trade
  simp only [Table.count]
  omega

theorem countsOf_forgetEmptyQueues (bucket : Bucket) (queue : QueueKey) :
    bucket.forgetEmptyQueues.countsOf queue =
      if (bucket.countsOf queue).size = 0 then .zero else bucket.countsOf queue := by
  cases counted : bucket.queues.get? queue with
  | none => simp [countsOf, counts?, forgetEmptyQueues, Table.get?_filter, counted]
  | some counts =>
    by_cases bare : counts.size = 0 <;>
      simp [countsOf, counts?, forgetEmptyQueues, Table.get?_filter, counted, Option.filter, bare]

theorem Indexed.forgetEmptyQueues (indexed : bucket.Indexed) :
    bucket.forgetEmptyQueues.Indexed where
  counts queue messageClass := by
    change _ = bucket.entries.count queue messageClass
    rw [← indexed.counts, countsOf_forgetEmptyQueues]
    split
    · rename_i bare
      have both : (bucket.countsOf queue).qos0 = 0 ∧ (bucket.countsOf queue).qos12 = 0 :=
        Nat.add_eq_zero_iff.mp bare
      cases messageClass
      · exact both.1.symm
      · exact both.2.symm
    · rfl
  ages := indexed.ages
  holders {queue id sequence} held := by
    rw [holder?, countsOf_forgetEmptyQueues] at held
    split at held
    · cases held
    · exact indexed.holders held

theorem Agrees.forgetEmptyQueues (agrees : bucket.Agrees) : bucket.forgetEmptyQueues.Agrees := by
  refine ⟨agrees.indexed.forgetEmptyQueues, ?_⟩
  intro queue id sequence entry found carries
  have counted : 0 < bucket.entries.count queue entry.messageClass := pos_count_of_get? found
  have occupied : (bucket.countsOf queue).size ≠ 0 := by
    rw [← agrees.indexed.counts] at counted
    have below := QueueCounts.ofClass_le_size (bucket.countsOf queue) entry.messageClass
    omega
  rw [holder?, countsOf_forgetEmptyQueues, if_neg occupied]
  exact agrees.traced found carries

/-! The journal -/

/-- The bucket and the budget after changes were journaled and applied. -/
inductive Committed (bucket : Bucket) (budget : Budget) (changes : List Change) :
    Bucket → Budget → Prop
  | idle (nothing : changes = []) : Committed bucket budget changes bucket budget
  | written {batches : List Bytes} {journal : Journal} (held : bucket.journal.held? = some batches)
      (short : Batch.Fits (changes.flatMap Batch.changeTexts))
      (longer : journal.held? = some (batches ++ [Batch.bytes changes])) :
      Committed bucket budget changes ({ bucket with journal }.applyAll budget changes).1
        ({ bucket with journal }.applyAll budget changes).2.1

/-- Committing fails and changes nothing, or journals the changes and applies them. -/
theorem commit_cases (held : bucket.journal.held? = some batches) (budget : Budget) (disk : Disk)
    (changes : List Change) :
    (∃ fault, bucket.commit budget disk changes =
        ⟨.error ⟨fault, changes.filterMap Change.inserted?⟩, bucket, budget, disk⟩) ∨
      ∃ after left, bucket.Committed budget changes after left ∧ bucket.commit budget disk changes =
        ⟨.ok (Change.displacedAll bucket.entries changes), after, left, disk⟩ := by
  by_cases idle : changes = []
  · exact .inr ⟨bucket, budget, .idle idle, by simp [commit, idle, Change.displacedAll]⟩
  · have busy : changes.isEmpty = false := by simpa using idle
    cases encoded : Batch.encode changes with
    | error fault => exact .inl ⟨.corruption (.batch fault), by simp [commit, busy, encoded]⟩
    | ok batch =>
      obtain ⟨short, rfl⟩ := Batch.encode_eq_ok_iff.mp encoded
      rcases Journal.append_cases held disk (Batch.bytes changes) with
        ⟨fault, failed⟩ | ⟨journal, longer, written⟩
      · exact .inl ⟨fault, by simp [commit, busy, encoded, failed]⟩
      · refine .inr ⟨_, _, .written held short longer, ?_⟩
        have frame := applyAll_frame { bucket with journal } budget changes
        simp [commit, busy, encoded, written, frame.2.2.2]

theorem Committed.entries {after : Bucket} {left : Budget}
    (committed : bucket.Committed budget changes after left) :
    after.entries = Change.actAll bucket.entries changes := by
  cases committed with
  | idle nothing => rw [nothing, Change.actAll_nil]
  | written => exact (applyAll_frame _ budget changes).1

/-- A bucket whose journal brings back its entries. -/
structure Kept (bucket : Bucket) : Prop where
  agrees : bucket.Agrees
  sound : Sound bucket.entries
  recalled : ∃ batches, bucket.journal.held? = some batches ∧ Recalls batches bucket.entries

namespace Kept

theorem committed {after : Bucket} {left : Budget} (kept : bucket.Kept)
    (lawful : Change.LawfulAlong bucket.entries changes)
    (committed : bucket.Committed budget changes after left) : after.Kept := by
  cases committed with
  | idle => exact kept
  | @written batches journal held short longer =>
    obtain ⟨others, again, recalls⟩ := kept.recalled
    cases held.symm.trans again
    have frame := applyAll_frame { bucket with journal } budget changes
    refine ⟨(kept.agrees.withJournal journal).applyAll budget lawful, ?_, ?_⟩
    · rw [frame.1]
      exact lawful.sound kept.sound
    · rw [frame.1, frame.2.1]
      exact ⟨_, longer, recalls.concat short lawful⟩

theorem forgetEmptyQueues (kept : bucket.Kept) : bucket.forgetEmptyQueues.Kept :=
  ⟨kept.agrees.forgetEmptyQueues, kept.sound, kept.recalled⟩

end Kept

/-- Compacting fails and changes nothing, or puts the snapshot in the place of the journal. -/
theorem compact_cases (held : bucket.journal.held? = some batches) (disk : Disk) :
    (∃ fault, bucket.compact disk = (.error fault, bucket, disk)) ∨
      ∃ journal : Journal, Batch.Fits ((snapshot bucket.entries).flatMap Batch.changeTexts) ∧
        journal.held? = some [Batch.bytes (snapshot bucket.entries)] ∧
        bucket.compact disk = (.ok (), { bucket with journal }, disk) := by
  have same : Batch.encodeSnapshot bucket.entries.bindings =
      Batch.encode (snapshot bucket.entries) := Batch.encodeSnapshot_eq_encode _
  cases encoded : Batch.encode (snapshot bucket.entries) with
  | error fault =>
    exact .inl ⟨.corruption (.batch fault), by simp [compact, same, encoded]⟩
  | ok batch =>
    obtain ⟨short, rfl⟩ := Batch.encode_eq_ok_iff.mp encoded
    rcases Journal.replaceAll_cases held disk (Batch.bytes (snapshot bucket.entries)) with
      ⟨fault, failed⟩ | ⟨journal, shorter, written⟩
    · exact .inl ⟨fault, by simp [compact, same, encoded, failed]⟩
    · exact .inr ⟨journal, short, shorter, by simp [compact, same, encoded, written]⟩

theorem Kept.compact (kept : bucket.Kept) (disk : Disk) : (bucket.compact disk).2.1.Kept := by
  obtain ⟨batches, held, recalls⟩ := kept.recalled
  rcases compact_cases held disk with ⟨fault, same⟩ | ⟨journal, short, shorter, written⟩
  · rwa [same]
  · rw [written]
    exact ⟨kept.agrees.withJournal journal, kept.sound, _, shorter, .snapshot kept.sound short⟩

/-! Rebuilding -/

/-- Replaying batches applies all their changes, or fails if one cannot be read. -/
theorem replayBatches_eq (bucket : Bucket) (budget : Budget) (top : Option UInt64)
    (batches : List Bytes) :
    match Batch.changes? batches with
    | some changes => bucket.replayBatches budget top batches =
        (.ok (changes.foldl (fun top change => highest top change.key.sequence) top),
          (bucket.applyAll budget changes).1, (bucket.applyAll budget changes).2.1)
    | none => ∃ fault, (bucket.replayBatches budget top batches).1 = .error fault := by
  induction batches generalizing bucket budget top with
  | nil => rfl
  | cons batch batches ih =>
    simp only [Batch.changes?, replayBatches]
    cases decoded : Batch.decode batch with
    | error fault => exact ⟨_, rfl⟩
    | ok front =>
      have rest := ih (bucket.applyAll budget front).1 (bucket.applyAll budget front).2.1
        (front.foldl (fun top change => highest top change.key.sequence) top)
      cases read : Batch.changes? batches with
      | none =>
        rw [read] at rest
        exact rest
      | some back =>
        rw [read] at rest
        have joined := applyAll_append bucket budget front back
        simp only [List.foldl_append, joined.1, joined.2]
        exact rest

theorem recover_of_changes? (held : bucket.journal.held? = some batches)
    (read : Batch.changes? batches = some changes) (budget : Budget) (disk : Disk) :
    bucket.recover budget disk =
      ⟨.ok (Batch.top changes), (bucket.applyAll budget changes).1,
        (bucket.applyAll budget changes).2.1, disk⟩ := by
  have replayed := replayBatches_eq bucket budget none batches
  rw [read] at replayed
  simp only [recover, Journal.replay_of_held? held]
  rw [replayed, Batch.top]

theorem recover_of_changes?_eq_none (held : bucket.journal.held? = some batches)
    (unread : Batch.changes? batches = none) (budget : Budget) (disk : Disk) :
    ∃ fault, (bucket.recover budget disk).answer = .error fault := by
  have replayed := replayBatches_eq bucket budget none batches
  rw [unread] at replayed
  simpa only [recover, Journal.replay_of_held? held] using replayed

end Bucket

end DeliveryQueue
