import DeliveryQueue.Proofs.Steps
import DeliveryQueue.Store.Open
import Mathlib.Data.List.Induction

/-!
Opening a store over the journals of another. Each bucket is rebuilt from its journal and holds what
the old one holds (`Bucket.Revives`); the numbers go on behind those that the journals mention.
-/
namespace DeliveryQueue

namespace Sequence

theorem toNat_saturatingAdd_one (n : UInt64) :
    (saturatingAdd n 1).toNat = min (n.toNat + 1) (UInt64.size - 1) := by
  have bound : min (n.toNat + 1) (UInt64.size - 1) < UInt64.size := by
    have positive : 0 < UInt64.size := by decide
    omega
  exact UInt64.toNat_ofNat_of_lt' bound

theorem toNat_max (a b : UInt64) : (max a b).toNat = max a.toNat b.toNat := by
  have chosen : max a b = if a ≤ b then b else a := rfl
  rw [chosen]
  split
  · rename_i less
    exact (Nat.max_eq_right (UInt64.le_iff_toNat_le.mp less)).symm
  · rename_i less
    rw [UInt64.le_iff_toNat_le] at less
    omega

theorem toNat_next_resumeAfter (sequence : Sequence) (highest : UInt64) :
    (sequence.resumeAfter highest).next.toNat =
      max sequence.next.toNat (min (highest.toNat + 1) (UInt64.size - 1)) := by
  rw [← toNat_saturatingAdd_one, resumeAfter, toNat_max]

end Sequence

/-- The highest number is that of a change, and no change has a higher one. -/
theorem Batch.top_cases (changes : List Change) :
    (changes = [] ∧ top changes = none) ∨
      ∃ n, top changes = some n ∧ (∃ change ∈ changes, change.key.sequence = n) ∧
        ∀ change ∈ changes, change.key.sequence.toNat ≤ n.toNat := by
  induction changes using List.reverseRecOn with
  | nil => exact .inl ⟨rfl, rfl⟩
  | append_singleton changes change ih =>
    apply Or.inr
    have last : top (changes ++ [change]) = Bucket.highest (top changes) change.key.sequence := by
      simp [top, List.foldl_append]
    rw [last]
    rcases ih with ⟨rfl, nothing⟩ | ⟨n, found, ⟨highest, member, its⟩, above⟩
    · refine ⟨change.key.sequence, by rw [nothing]; rfl, ⟨change, by simp, rfl⟩, ?_⟩
      simp
    · rw [found]
      have larger := Sequence.toNat_max n change.key.sequence
      refine ⟨max n change.key.sequence, rfl, ?_, ?_⟩
      · by_cases less : n.toNat ≤ change.key.sequence.toNat
        · exact ⟨change, by simp, UInt64.toNat_inj.mp (by omega)⟩
        · exact ⟨highest, by simp [member], UInt64.toNat_inj.mp (by rw [its]; omega)⟩
      · intro other member
        rcases List.mem_append.mp member with member | member
        · have below := above other member
          omega
        · rw [List.mem_singleton.mp member]
          omega

namespace Bucket

/-- The changes in the journal of a bucket, if they can be read. -/
def logged? (bucket : Bucket) : Option (List Change) := bucket.journal.held?.bind Batch.changes?

/-- The journal of the bucket holds a change with this sequence number. -/
def Mentions (bucket : Bucket) (n : UInt64) : Prop :=
  ∃ changes, bucket.logged? = some changes ∧ ∃ change ∈ changes, change.key.sequence = n

/-- The new bucket holds what the old one holds. -/
structure Revives (old new : Bucket) : Prop where
  entries : new.entries = old.entries
  journal : new.journal = old.journal
  kept : new.Kept
  readable : ∃ changes, old.logged? = some changes

variable {bucket : Bucket} {changes : List Change}

theorem Kept.lawful (kept : bucket.Kept) (read : bucket.logged? = some changes) :
    Change.LawfulAlong Table.empty changes ∧
      Change.actAll Table.empty changes = bucket.entries := by
  obtain ⟨batches, held, recalls⟩ := kept.recalled
  rw [logged?, held] at read
  exact recalls changes read

theorem Kept.revives (kept : bucket.Kept) (read : bucket.logged? = some changes) (index : Nat)
    (budget : Budget) :
    bucket.Revives ((ofJournal index bucket.journal).applyAll budget changes).1 := by
  obtain ⟨lawful, reached⟩ := kept.lawful read
  have frame := applyAll_frame (ofJournal index bucket.journal) budget changes
  have entries := frame.1.trans reached
  refine ⟨entries, frame.2.1, ⟨?_, ?_, ?_⟩, changes, read⟩
  · exact (agrees_ofJournal index bucket.journal).applyAll budget lawful
  · rw [entries]
    exact kept.sound
  · rw [entries, frame.2.1]
    exact kept.recalled

/-- What is stored came from a change in the journal. -/
theorem Kept.mentions (kept : bucket.Kept) (read : bucket.logged? = some changes) {key : EntryKey}
    {entry : Entry} (found : bucket.entries.get? key = some entry) :
    bucket.Mentions key.sequence := by
  rw [← (kept.lawful read).2] at found
  rcases Change.mem_of_get?_actAll found with before | ⟨change, member, rfl⟩
  · cases before
  · exact ⟨changes, read, change, member, rfl⟩

theorem mentions_of_journal_eq {old new : Bucket} (same : new.journal = old.journal) (n : UInt64) :
    new.Mentions n ↔ old.Mentions n := by
  simp only [Mentions, logged?, same]

end Bucket

namespace Store

/-- The store with the bucket rebuilt from changes. -/
def revive (store : Store) (old : Bucket) (changes : List Change) : Store :=
  let rebuilt := (Bucket.ofJournal store.bucketCount old.journal).applyAll store.budget changes
  { store with
    buckets := store.buckets.push rebuilt.1
    sequence := (Batch.top changes).elim store.sequence store.sequence.resumeAfter
    budget := rebuilt.2.1 }

theorem addBucket_of_logged? {old : Bucket} {changes : List Change} (kept : old.Kept)
    (read : old.logged? = some changes) (store : Store) :
    store.addBucket old.journal = .ok (store.revive old changes) := by
  obtain ⟨batches, held, _⟩ := kept.recalled
  rw [Bucket.logged?, held] at read
  have same : (Bucket.ofJournal store.bucketCount old.journal).journal.held? = some batches := held
  have recovered := Bucket.recover_of_changes? same read store.budget store.disk
  simp only [addBucket, recovered, revive]

theorem addBucket_of_logged?_eq_none {old : Bucket} (kept : old.Kept) (unread : old.logged? = none)
    (store : Store) : ∃ fault, store.addBucket old.journal = .error fault := by
  obtain ⟨batches, held, _⟩ := kept.recalled
  rw [Bucket.logged?, held] at unread
  have same : (Bucket.ofJournal store.bucketCount old.journal).journal.held? = some batches := held
  obtain ⟨fault, failed⟩ :=
    Bucket.recover_of_changes?_eq_none same unread store.budget store.disk
  exact ⟨.storage fault, by simp only [addBucket, failed]⟩

theorem revive_kept {store : Store} (before : store.Kept) {old : Bucket} {changes : List Change}
    (kept : old.Kept) (read : old.logged? = some changes) : (store.revive old changes).Kept := by
  intro index bucket found
  have revived := (kept.revives read store.bucketCount store.budget).kept
  simp only [Store.revive, Array.getElem?_push] at found
  split at found
  · cases found
    exact revived
  · exact before found

/-- What holds without buckets, and is kept as each bucket is added, holds of a store over
journals. -/
theorem of_ofJournals {P : Store → Prop} {settings : Settings} {journals : List Journal}
    {disk : Disk} {store : Store} (opened : ofJournals settings journals disk = .ok store)
    (first : ∀ used, P (blank used disk))
    (add : ∀ journal ∈ journals, ∀ before after, P before → before.addBucket journal = .ok after →
      P after) : P store := by
  have all {before : Store} (holds : P before)
      (added : journals.foldlM addBucket before = .ok store) : P store := by
    clear opened
    induction journals generalizing before with
    | nil =>
      cases added
      exact holds
    | cons journal journals ih =>
      obtain ⟨one, others⟩ := List.forall_mem_cons.mp add
      rw [List.foldlM_cons] at added
      cases next : before.addBucket journal with
      | error fault =>
        rw [next] at added
        cases added
      | ok middle =>
        rw [next] at added
        exact ih others (one before middle holds next) added
  unfold ofJournals at opened
  dsimp only at opened
  split at opened
  · cases opened
  · exact all (first _) opened

/-- The store after the buckets were rebuilt one after the other. -/
inductive Reopened : Store → List Bucket → Store → Prop
  | done (store : Store) : Reopened store [] store
  | revive {store after : Store} {old : Bucket} {olds : List Bucket} {changes : List Change}
      (kept : old.Kept) (read : old.logged? = some changes)
      (rest : Reopened (store.revive old changes) olds after) : Reopened store (old :: olds) after

variable {store after : Store} {olds : List Bucket}

theorem reopened_of_foldlM (kept : ∀ old ∈ olds, old.Kept)
    (opened : (olds.map Bucket.journal).foldlM addBucket store = .ok after) :
    Reopened store olds after := by
  induction olds generalizing store with
  | nil =>
    cases opened
    exact .done _
  | cons old olds ih =>
    obtain ⟨first, others⟩ := List.forall_mem_cons.mp kept
    rw [List.map_cons, List.foldlM_cons] at opened
    cases read : old.logged? with
    | none =>
      obtain ⟨fault, failed⟩ := addBucket_of_logged?_eq_none first read store
      rw [failed] at opened
      cases opened
    | some changes =>
      rw [addBucket_of_logged? first read] at opened
      exact .revive first read (ih others opened)

theorem exists_reopened (kept : ∀ old ∈ olds, old.Kept)
    (readable : ∀ old ∈ olds, ∃ changes, old.logged? = some changes) (store : Store) :
    ∃ after, (olds.map Bucket.journal).foldlM addBucket store = .ok after := by
  induction olds generalizing store with
  | nil => exact ⟨store, rfl⟩
  | cons old olds ih =>
    obtain ⟨first, others⟩ := List.forall_mem_cons.mp kept
    obtain ⟨⟨changes, read⟩, readable⟩ := List.forall_mem_cons.mp readable
    obtain ⟨after, opened⟩ := ih others readable (store.revive old changes)
    refine ⟨after, ?_⟩
    rw [List.map_cons, List.foldlM_cons, addBucket_of_logged? first read]
    exact opened

namespace Reopened

/-- Bucket for bucket, what the old ones hold. -/
theorem buckets (h : Reopened store olds after) :
    ∃ news, after.buckets.toList = store.buckets.toList ++ news ∧
      List.Forall₂ Bucket.Revives olds news := by
  induction h with
  | done => exact ⟨[], by simp, .nil⟩
  | @revive store after old olds changes kept read rest ih =>
    obtain ⟨news, same, revived⟩ := ih
    exact ⟨_, by simpa [Store.revive] using same,
      .cons (kept.revives read store.bucketCount store.budget) revived⟩

/-- A measure of the entries is that of the old ones. -/
theorem total (h : Reopened store olds after) (measure : Entries → Nat) :
    (after.total fun bucket => measure bucket.entries) =
      (store.total fun bucket => measure bucket.entries) +
        (olds.map fun bucket => measure bucket.entries).sum := by
  induction h with
  | done => rfl
  | @revive store after old olds changes kept read _ ih =>
    have revived := kept.revives read store.bucketCount store.budget
    rw [ih]
    simp only [Store.total, Store.revive, Array.toList_push, List.map_append, List.map_cons,
      List.map_nil, List.sum_append, List.sum_cons, List.sum_nil, revived.entries]
    omega

/-- Over nothing, the bucket at an index is the old one at that index. -/
theorem getElem?_blank {settings : Settings} {disk : Disk}
    (h : Reopened (blank settings disk) olds after) (index : Nat) :
    (olds[index]? = none ∧ after.buckets[index]? = none) ∨
      ∃ old new : Bucket, olds[index]? = some old ∧ after.buckets[index]? = some new ∧
        old.Revives new := by
  obtain ⟨news, same, revived⟩ := h.buckets
  rw [← Array.getElem?_toList, same, blank, List.nil_append]
  clear same h
  induction revived generalizing index with
  | nil => exact .inl ⟨rfl, rfl⟩
  | @cons old new olds news first _ ih =>
    cases index with
    | zero => exact .inr ⟨old, new, rfl, rfl, first⟩
    | succ index => exact ih index

theorem size (h : Reopened store olds after) :
    after.buckets.size = store.buckets.size + olds.length := by
  obtain ⟨news, same, revived⟩ := h.buckets
  rw [← Array.length_toList, same, List.length_append, Array.length_toList, revived.length_eq]

theorem outbox (h : Reopened store olds after) : after.outbox = store.outbox := by
  induction h with
  | done => rfl
  | revive _ _ _ ih => exact ih

theorem stats (h : Reopened store olds after) : after.stats = store.stats := by
  induction h with
  | done => rfl
  | revive _ _ _ ih => exact ih

theorem closed (h : Reopened store olds after) : after.closed = store.closed := by
  induction h with
  | done => rfl
  | revive _ _ _ ih => exact ih

/-- The numbers never go back. -/
theorem next_le (h : Reopened store olds after) :
    store.sequence.next.toNat ≤ after.sequence.next.toNat := by
  induction h with
  | done => exact Nat.le_refl _
  | @revive store after old olds changes _ _ _ ih =>
    refine Nat.le_trans ?_ ih
    simp only [Store.revive]
    cases Batch.top changes with
    | none => exact Nat.le_refl _
    | some n =>
      rw [Option.elim, Sequence.toNat_next_resumeAfter]
      exact Nat.le_max_left _ _

/-- Numbers that a journal mentions are not drawn again. -/
theorem lt_next_of_mentions (h : Reopened store olds after) {old : Bucket} (member : old ∈ olds)
    {n : UInt64} (mentioned : old.Mentions n) (room : n.toNat + 1 < UInt64.size) :
    n.toNat < after.sequence.next.toNat := by
  induction h with
  | done => cases member
  | @revive store after first olds changes _ read rest ih =>
    rcases List.mem_cons.mp member with rfl | member
    · obtain ⟨_, again, change, its, rfl⟩ := mentioned
      cases read.symm.trans again
      refine Nat.lt_of_lt_of_le ?_ rest.next_le
      rcases Batch.top_cases changes with ⟨rfl, _⟩ | ⟨top, found, ⟨_, _, rfl⟩, above⟩
      · cases its
      · have below := above change its
        simp only [Store.revive, found, Option.elim, Sequence.toNat_next_resumeAfter]
        omega
    · exact ih member

/-- The next number is the old one, or follows a number that a journal mentions. -/
theorem next_le_of_mentions (h : Reopened store olds after) :
    after.sequence.next = store.sequence.next ∨
      ∃ old ∈ olds, ∃ n, old.Mentions n ∧ after.sequence.next.toNat ≤ n.toNat + 1 := by
  induction h with
  | done => exact .inl rfl
  | @revive store after old olds changes _ read rest ih =>
    rcases ih with same | ⟨other, member, n, mentioned, bound⟩
    · rcases Batch.top_cases changes with ⟨_, nothing⟩ | ⟨top, found, ⟨change, its, rfl⟩, _⟩
      · exact .inl (by rw [same, Store.revive, nothing]; rfl)
      · simp only [Store.revive, found, Option.elim] at same
        by_cases later : (store.sequence.resumeAfter change.key.sequence).next = store.sequence.next
        · exact .inl (same.trans later)
        · refine .inr ⟨old, List.mem_cons_self, _, ⟨changes, read, change, its, rfl⟩, ?_⟩
          rw [same, Sequence.toNat_next_resumeAfter]
          have differs := mt UInt64.toNat_inj.mp later
          rw [Sequence.toNat_next_resumeAfter] at differs
          omega
    · exact .inr ⟨other, List.mem_cons_of_mem _ member, n, mentioned, bound⟩

theorem kept (h : Reopened store olds after) (before : store.Kept) : after.Kept := by
  induction h with
  | done => exact before
  | revive kept read _ ih => exact ih (revive_kept before kept read)

end Reopened

end Store

end DeliveryQueue
