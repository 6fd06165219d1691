import DeliveryQueue.Proofs.Identity

/-!
Compaction. Only what can be written is ever stored, so a snapshot of what is stored can be written
too: compacting a bucket fails only if the journal refuses the snapshot.
-/
namespace DeliveryQueue

theorem Batch.entryTexts_assigned (packetId : Option UInt16) (entry : Entry) :
    entryTexts (entry.assigned packetId) = entryTexts entry := by
  cases entry <;> rfl

theorem Batch.entryTexts_marked (taken : Bool) (entry : Entry) :
    entryTexts (entry.marked taken) = entryTexts entry := by
  cases entry <;> cases taken <;> rfl

/-- All texts in the entries fit their lengths. -/
def Table.Writable (entries : Entries) : Prop :=
  ∀ ⦃key entry⦄, entries.get? key = some entry → Batch.Fits (Batch.changeTexts (.insert key entry))

namespace Table.Writable

variable {entries : Entries} {changes : List Change}

theorem empty : Writable Table.empty := by
  intro key entry found
  cases found

theorem act {change : Change} (writable : Writable entries)
    (short : Batch.Fits (Batch.changeTexts change)) : Writable (change.act entries) := by
  intro key entry found
  by_cases here : key = change.key
  · subst here
    rw [Change.get?_act_self] at found
    cases change with
    | insert key brought =>
      cases found
      exact short
    | delete key => cases found
    | assign key packetId =>
      obtain ⟨before, there, rfl⟩ := Option.map_eq_some_iff.mp found
      have texts := writable there
      simp only [Batch.changeTexts, Change.inserted?, Option.map_some, Option.getD_some,
        Batch.entryTexts_assigned] at texts ⊢
      exact texts
    | mark key taken =>
      obtain ⟨before, there, rfl⟩ := Option.map_eq_some_iff.mp found
      have texts := writable there
      simp only [Batch.changeTexts, Change.inserted?, Option.map_some, Option.getD_some,
        Batch.entryTexts_marked] at texts ⊢
      exact texts
    | release key packetId =>
      cases found
      exact short
  · rw [Change.get?_act_of_ne here] at found
    exact writable found

theorem actAll (writable : Writable entries)
    (short : Batch.Fits (changes.flatMap Batch.changeTexts)) :
    Writable (Change.actAll entries changes) := by
  induction changes generalizing entries with
  | nil => exact writable
  | cons change changes ih =>
    obtain ⟨first, others⟩ := List.forall_mem_append.mp short
    exact ih (writable.act first) others

/-- Then the snapshot fits too. -/
theorem snapshot (writable : Writable entries) :
    Batch.Fits ((snapshot entries).flatMap Batch.changeTexts) := by
  intro text member
  obtain ⟨change, listed, its⟩ := List.mem_flatMap.mp member
  obtain ⟨e, stored, rfl⟩ := List.mem_map.mp listed
  exact writable (Table.mem_bindings_iff.mp stored) text its

end Table.Writable

namespace Bucket

variable {bucket : Bucket}

/-- Whatever a commit does to the entries, it has written before. -/
theorem writable_commit (writable : bucket.entries.Writable) (budget : Budget) (disk : Disk)
    (changes : List Change) : (bucket.commit budget disk changes).bucket.entries.Writable := by
  unfold commit
  split
  · exact writable
  · split
    · exact writable
    · rename_i batch encoded
      dsimp only
      split
      · exact writable
      · have short := (Batch.encode_eq_ok_iff.mp encoded).1
        dsimp only
        rw [(applyAll_frame _ budget changes).1]
        exact writable.actAll short

/-- Compacting is up to the journal. -/
theorem compact_of_writable (writable : bucket.entries.Writable) (disk : Disk) :
    bucket.compact disk =
      let written := bucket.journal.replaceAll disk (Batch.bytes (snapshot bucket.entries))
      (written.answer, { bucket with journal := written.journal }, written.disk) := by
  have encoded : Batch.encodeSnapshot bucket.entries.bindings =
      .ok (Batch.bytes (snapshot bucket.entries)) :=
    (Batch.encodeSnapshot_eq_encode _).trans (Batch.encode_eq_ok_iff.mpr ⟨writable.snapshot, rfl⟩)
  unfold compact
  rw [encoded]

end Bucket

namespace Store

/-- All texts in the store fit their lengths. -/
def Writable (store : Store) : Prop :=
  ∀ ⦃index : Nat⦄ ⦃entries : Entries⦄, store.contents[index]? = some entries → entries.Writable

variable {store after : Store}

theorem Writable.bucket (writable : store.Writable) {index : Nat} {bucket : Bucket}
    (found : store.buckets[index]? = some bucket) : bucket.entries.Writable :=
  writable (getElem?_contents found)

theorem Smooth.writable (smooth : Smooth store after) (writable : store.Writable) :
    after.Writable := by
  cases smooth with
  | @commit index bucket changes found takes =>
    intro place entries there
    have set : (store.commit index bucket changes).2.contents = store.contents.setIfInBounds index
        (bucket.commit store.budget store.disk changes).bucket.entries := by
      refine contents_set ?_
      unfold Store.commit
      dsimp only
      split <;> rfl
    rw [set, Array.getElem?_setIfInBounds] at there
    split at there
    · split at there
      · cases there
        exact Bucket.writable_commit (writable.bucket found) _ _ _
      · cases there
    · exact writable there
  | beside contents =>
    intro place entries there
    exact writable (contents ▸ there)

theorem Smoothly.writable (smoothly : Smoothly store after) (writable : store.Writable) :
    after.Writable := by
  induction smoothly with
  | refl => exact writable
  | tail _ smooth ih => exact smooth.writable ih

end Store

namespace World

/-- In every run, what is stored can be written. -/
theorem run_writable {settings : Settings} {disk : Disk} {store : Store}
    (opened : Store.inMemory settings disk = .ok store) (payloads : Payloads)
    (events : List Event) : ((start store payloads).run events).store.Writable := by
  refine run_invariant (P := fun world => world.store.Writable) opened payloads events ?_ ?_
  · obtain ⟨used, reopened⟩ := Store.reopened_of_inMemory opened
    intro index entries there
    rw [start, reopened.contents, List.map_replicate, List.getElem?_toArray] at there
    obtain ⟨_, rfl⟩ := List.mem_replicate.mp (List.mem_of_getElem? there)
    exact .empty
  · intro world event orderly writable
    have moves := moves_step orderly.kept event
    generalize world.step event = after at moves
    cases moves with
    | ask request =>
      have took := Store.serve_took orderly.kept request
      exact (took.smoothly orderly.kept).writable writable
    | call => exact writable
    | still _ quiet _ =>
      intro index entries there
      exact writable (quiet.contents ▸ there)
    | reopen reopened =>
      intro index entries there
      exact writable (reopened.contents_eq ▸ there)

end World

end DeliveryQueue
