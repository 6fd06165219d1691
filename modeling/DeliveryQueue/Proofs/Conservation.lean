import DeliveryQueue.Proofs.References
import DeliveryQueue.Proofs.Carrying

/-!
A commit loses no entry and none twice. Whatever changes a batch consists of, a journal that takes
it leaves each payload reference either stored or handed back, and all other keys and queues as they
were; a batch that is refused leaves all but the journal as it was and hands back what it would have
brought in (`Bucket.commit_conserves`).
-/
namespace DeliveryQueue

/-- The payload references that entries own. -/
def Table.references (entries : Entries) : List UInt64 :=
  (entries.bindings.map Prod.snd).filterMap Entry.payload?

theorem Table.count_references (entries : Entries) (payload : UInt64) :
    entries.references.count payload = entries.naming payload := by
  rw [references, count_filterMap_payload?, List.map_map]
  rfl

/-- The references that are stored before changes or come in with them are stored afterwards, or
those of entries that left. -/
theorem Change.references_actAll (entries : Entries) (changes : List Change) :
    (entries.references ++ (changes.filterMap inserted?).filterMap Entry.payload?).Perm
      ((actAll entries changes).references ++
        (displacedAll entries changes).filterMap Entry.payload?) := by
  rw [List.perm_iff_count]
  intro payload
  rw [List.count_append, List.count_append, Table.count_references, Table.count_references]
  exact (naming_actAll entries changes payload).symm

namespace Bucket

variable {bucket : Bucket} {budget : Budget} {key other : EntryKey} {queue : QueueKey}

/-! What changes leave alone -/

theorem age_put_of_ne (differs : other ≠ key) (after : Option Entry) :
    (bucket.put budget key after).1.qos0ByAge.get? other.age = bucket.qos0ByAge.get? other.age := by
  have cleared : (bucket.detach budget key).1.qos0ByAge.get? other.age =
      bucket.qos0ByAge.get? other.age := by
    cases found : bucket.entries.get? key with
    | none => rw [detach_of_get?_eq_none found]
    | some entry => rw [age_detach found, if_neg fun both => differs both.1]
  cases after with
  | none => exact cleared
  | some entry => rw [put, age_occupy, if_neg fun both => differs both.1, cleared]

theorem counts?_put_of_ne (differs : queue ≠ key.queue) (after : Option Entry) :
    (bucket.put budget key after).1.counts? queue = bucket.counts? queue := by
  have cleared : (bucket.detach budget key).1.counts? queue = bucket.counts? queue := by
    cases found : bucket.entries.get? key with
    | none => rw [detach_of_get?_eq_none found]
    | some entry =>
      rw [detach_of_get?_eq_some found]
      cases counted : bucket.counts? key.queue with
      | none => rfl
      | some counts => exact Table.get?_insert_of_ne differs bucket.queues _
  cases after with
  | none => exact cleared
  | some entry =>
    rw [put, occupy_eq]
    exact (Table.get?_insert_of_ne differs _ _).trans cleared

theorem age_applyAll_of_forall_ne {changes : List Change}
    (differs : ∀ change ∈ changes, key ≠ change.key) :
    (bucket.applyAll budget changes).1.qos0ByAge.get? key.age = bucket.qos0ByAge.get? key.age := by
  induction changes generalizing bucket budget with
  | nil => rfl
  | cons change changes ih =>
    obtain ⟨first, others⟩ := List.forall_mem_cons.mp differs
    rw [applyAll, ih others, apply_eq, age_put_of_ne first]

theorem counts?_applyAll_of_forall_ne {changes : List Change}
    (differs : ∀ change ∈ changes, queue ≠ change.key.queue) :
    (bucket.applyAll budget changes).1.counts? queue = bucket.counts? queue := by
  induction changes generalizing bucket budget with
  | nil => rfl
  | cons change changes ih =>
    obtain ⟨first, others⟩ := List.forall_mem_cons.mp differs
    rw [applyAll, ih others, apply_eq, counts?_put_of_ne first]

/-- What encoding and the journal say to a batch. One without changes never gets to them. -/
def verdict (bucket : Bucket) (disk : Disk) (changes : List Change) : Except StorageFault Unit :=
  if changes.isEmpty then .ok ()
  else
    match Batch.encode changes with
    | .error fault => .error (.corruption (.batch fault))
    | .ok batch => (bucket.journal.append disk batch).answer

theorem refusal?_eq (bucket : Bucket) (disk : Disk) (changes : List Change) :
    bucket.refusal? changes =
      match bucket.verdict disk changes with
      | .error fault => some fault
      | .ok () => none := by
  unfold refusal? verdict
  by_cases idle : changes.isEmpty = true
  · simp [idle]
  · rw [if_neg idle, if_neg idle]
    cases Batch.encode changes with
    | error fault => rfl
    | ok batch =>
      have same := (bucket.journal.append_anywhere .empty disk batch).1
      cases taken : (bucket.journal.append disk batch).answer <;> simp [same, taken]

/-- A batch that is taken trades references and touches nothing else; one that is refused hands back
what it brought and changes nothing but, perhaps, the journal. What is in the file of a journal then
stays, just when the append does not leak. -/
theorem commit_conserves (bucket : Bucket) (budget : Budget) (disk : Disk)
    (changes : List Change) :
    let done := bucket.commit budget disk changes
    let brought := changes.filterMap Change.inserted?
    match bucket.verdict disk changes with
    | .ok () => ∃ displaced, done.answer = .ok displaced ∧
        (bucket.entries.references ++ brought.filterMap Entry.payload?).Perm
          (done.bucket.entries.references ++ displaced.filterMap Entry.payload?) ∧
        (∀ key ∉ changes.map Change.key,
          done.bucket.entries.get? key = bucket.entries.get? key ∧
            done.bucket.qos0ByAge.get? key.age = bucket.qos0ByAge.get? key.age) ∧
        ∀ queue ∉ changes.map (·.key.queue), done.bucket.counts? queue = bucket.counts? queue
    | .error fault => ∃ journal left,
        done = ⟨.error ⟨fault, brought⟩, { bucket with journal }, budget, left⟩ ∧
        (bucket.journal.Sound → journal = bucket.journal ∧ left = disk) ∧
        (bucket.journal.AtEnd disk → (bucket.journal.Spared disk journal left ↔
          ∀ batch, Batch.encode changes = .ok batch → ¬ bucket.journal.Leaks batch)) := by
  intro done brought
  have refusal := refusal?_eq bucket disk changes
  cases said : bucket.verdict disk changes with
  | error fault =>
    rw [said] at refusal
    obtain ⟨journal, left, refused, failed⟩ := commit_of_refusal?_eq_some refusal budget disk
    exact ⟨journal, left, failed, refused.eq_of_sound, refused.spared_iff⟩
  | ok =>
    rw [said] at refusal
    obtain ⟨left, committed⟩ := commit_of_refusal?_eq_none refusal budget disk
    refine ⟨Change.displacedAll bucket.entries changes, congrArg Outcome.answer committed, ?_⟩
    simp only [done, committed]
    rw [(applyAll_frame _ budget changes).1]
    refine ⟨Change.references_actAll bucket.entries changes, fun key outside => ?_,
      fun queue outside => ?_⟩
    · have differs : ∀ change ∈ changes, key ≠ change.key := by
        rintro change member rfl
        exact outside (List.mem_map_of_mem member)
      exact ⟨Change.get?_actAll_of_forall_ne bucket.entries differs,
        age_applyAll_of_forall_ne differs⟩
    · refine counts?_applyAll_of_forall_ne ?_
      rintro change member rfl
      exact outside (List.mem_map_of_mem member)

/-- A new journal that flushes its file behind each record, on a device that will fail to do so. -/
def unflushing : FileJournal :=
  { FileJournal.ofScan (Path.ofText "j.log") 0 false ⟨[], 1, 32, none⟩ with
    policy := ⟨some 1, none⟩
    device := ⟨0, none, false, 1⟩ }

/-- A batch that was written but not flushed is refused, and yet it is in the file that the next
opening finds. -/
theorem refused_batch_stays :
    let message : Entry := .publish ⟨none, .atLeastOnce, "t", "u", 1, 0, none, false, 5⟩
    let changes : List Change := [.insert ⟨⟨"c", false⟩, 1⟩ message]
    let disk := (FileJournal.open .empty unflushing.path).2
    let bucket := ofJournal 0 (.file unflushing)
    let done := bucket.commit (.ofLimit 100) disk changes
    FileJournal.openWith unflushing.policy .empty unflushing.path =
        (.ok { unflushing with device := .sound }, disk) ∧
      done.answer = .error ⟨.io .device, [message]⟩ ∧ done.bucket.entries = bucket.entries ∧
      (FileJournal.open done.disk unflushing.path).1.map FileJournal.recovered =
        .ok (some [Batch.bytes changes]) := by
  decide +kernel

/-- Of two messages under one key the first is handed back, and the second is stored through later
changes; a change of a missing key brings nothing in. -/
example :
    let key : EntryKey := ⟨⟨"c", true⟩, 1⟩
    let message (payload : UInt64) : Entry :=
      .publish ⟨none, .atLeastOnce, "t", "u", payload, 0, none, false, 5⟩
    let done := (ofJournal 0 (.memory .empty)).commit (.ofLimit 100) .empty
      [.insert key (message 1), .insert key (message 2), .mark key true,
        .assign ⟨key.queue, 2⟩ (some 3)]
    done.bucket.entries.references = [2] ∧
      done.answer.toOption.map (List.filterMap Entry.payload?) = some [1] := by
  decide +kernel

end Bucket

end DeliveryQueue
