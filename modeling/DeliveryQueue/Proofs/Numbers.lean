import DeliveryQueue.Proofs.World

/-!
Sequence numbers. As long as fewer than 2^63 of them are drawn, the next one is above every number
in the entries and in the journals (`World.Ahead`), also after a restart.
-/
namespace DeliveryQueue

/-- Edits only touch what is stored. -/
theorem EditsAlong.stored {entries : Entries} {changes : List Change}
    (edits : EditsAlong entries changes) :
    ∀ change ∈ changes, ∃ entry, entries.get? change.key = some entry := by
  induction changes generalizing entries with
  | nil => simp
  | cons first changes ih =>
    refine List.forall_mem_cons.mpr ⟨edits.1.stored, ?_⟩
    intro change member
    obtain ⟨entry, found⟩ := ih edits.2 change member
    by_cases same : change.key = first.key
    · rw [same]
      exact edits.1.stored
    · rw [Change.get?_act_of_ne same] at found
      exact ⟨entry, found⟩

namespace Bucket

/-- All numbers in the entries and in the journal are below a bound. -/
structure Under (bucket : Bucket) (bound : Nat) : Prop where
  stored : ∀ ⦃key entry⦄, bucket.entries.get? key = some entry → key.sequence.toNat < bound
  logged : ∀ ⦃n⦄, bucket.Mentions n → n.toNat < bound

variable {bucket after : Bucket} {budget left : Budget} {changes : List Change} {bound : Nat}

theorem Under.mono (under : bucket.Under bound) {higher : Nat} (le : bound ≤ higher) :
    bucket.Under higher :=
  ⟨fun _ _ found => Nat.lt_of_lt_of_le (under.stored found) le,
    fun _ mentioned => Nat.lt_of_lt_of_le (under.logged mentioned) le⟩

/-- Nothing is stored at a number that was not drawn yet. -/
theorem Under.fresh (under : bucket.Under bound) (key : EntryKey)
    (above : bound ≤ key.sequence.toNat) : bucket.entries.get? key = none := by
  by_contra there
  obtain ⟨entry, stored⟩ := Option.ne_none_iff_exists'.mp there
  have below := under.stored stored
  omega

/-- What the journal holds after a commit is what it held before, and the changes. -/
theorem Committed.logged? (committed : bucket.Committed budget changes after left)
    (lawful : Change.LawfulAlong bucket.entries changes) {all : List Change}
    (read : after.logged? = some all) : ∃ front, bucket.logged? = some front ∧
      all = front ++ changes := by
  cases committed with
  | idle nothing => exact ⟨all, read, by rw [nothing, List.append_nil]⟩
  | @written batches journal held short longer =>
    have frame := applyAll_frame { bucket with journal } budget changes
    rw [Bucket.logged?, frame.2.1] at read
    change journal.held?.bind Batch.changes? = some all at read
    rw [longer] at read
    obtain ⟨front, first, rfl⟩ := Batch.eq_of_changes?_concat short read
    exact ⟨front, by rw [Bucket.logged?, held]; exact first, by rw [lawful.plain]⟩

theorem Committed.under (committed : bucket.Committed budget changes after left)
    (lawful : Change.LawfulAlong bucket.entries changes) (under : bucket.Under bound)
    (fresh : ∀ change ∈ changes, change.key.sequence.toNat < bound) : after.Under bound where
  stored := by
    intro key entry found
    rw [committed.entries] at found
    rcases Change.mem_of_get?_actAll found with found | ⟨change, member, rfl⟩
    · exact under.stored found
    · exact fresh change member
  logged := by
    rintro n ⟨all, read, change, member, rfl⟩
    obtain ⟨front, before, rfl⟩ := committed.logged? lawful read
    rcases List.mem_append.mp member with member | member
    · exact under.logged ⟨front, before, change, member, rfl⟩
    · exact fresh change member

theorem compact_logged? (kept : bucket.Kept) (disk : Disk) :
    (bucket.compact disk).2.1.logged? = bucket.logged? ∨
      ∀ all, (bucket.compact disk).2.1.logged? = some all → all = snapshot bucket.entries := by
  obtain ⟨batches, held, _⟩ := kept.recalled
  rcases compact_cases held disk with ⟨fault, same⟩ | ⟨journal, short, shorter, written⟩
  · exact .inl (by rw [same])
  · apply Or.inr
    intro all read
    rw [written, logged?, shorter, Option.bind_some, ← List.nil_append [_]] at read
    have plain := (lawfulAlong_snapshot kept.sound).plain
    obtain ⟨front, first, rfl⟩ := Batch.eq_of_changes?_concat short read
    cases first
    rw [plain, List.nil_append]

theorem Tended.under {few : Nat} (tended : bucket.Tended few after) (kept : bucket.Kept)
    (under : bucket.Under bound) : after.Under bound where
  stored := by
    rw [tended.entries]
    exact under.stored
  logged := by
    rintro n ⟨all, read, change, member, rfl⟩
    cases tended with
    | flush journal held =>
      obtain ⟨batches, before, _⟩ := kept.recalled
      rw [logged?, held batches before] at read
      exact under.logged ⟨all, by rw [logged?, before]; exact read, change, member, rfl⟩
    | forget => exact under.logged ⟨all, read, change, member, rfl⟩
    | compact disk short =>
      rcases compact_logged? kept disk with same | whole
      · exact under.logged ⟨all, same ▸ read, change, member, rfl⟩
      · rw [whole all read] at member
        obtain ⟨e, stored, rfl⟩ := List.mem_map.mp member
        exact under.stored (Table.mem_bindings_iff.mp stored)

end Bucket

namespace Store

/-- All numbers in the buckets of a store are below a bound. -/
def Under (store : Store) (bound : Nat) : Prop :=
  ∀ ⦃index : Nat⦄ ⦃bucket : Bucket⦄, store.buckets[index]? = some bucket → bucket.Under bound

variable {store after : Store} {index few bound : Nat} {bucket : Bucket} {offer : Option Offer}

theorem Under.mono (under : store.Under bound) {higher : Nat} (le : bound ≤ higher) :
    store.Under higher := fun _ _ found => (under found).mono le

theorem Under.commit (under : store.Under bound) (kept : store.Kept)
    (found : store.buckets[index]? = some bucket) {changes : List Change}
    (lawful : Change.LawfulAlong bucket.entries changes)
    (fresh : ∀ change ∈ changes, change.key.sequence.toNat < bound) :
    (store.commit index bucket changes).2.Under bound := by
  rcases commit_cases (kept found) found changes with
    ⟨fault, failed⟩ | ⟨new, left, committed, done⟩
  · rw [failed]
    exact under
  · rw [done]
    exact forall_set under (committed.under lawful (under found) fresh)

theorem Quiet.under (step : Quiet few store after) (kept : store.Kept) (under : store.Under bound) :
    after.Under bound := by
  cases step with
  | edit found edits short =>
    refine under.commit kept found (edits.lawful (kept found).sound) ?_
    intro change member
    obtain ⟨entry, stored⟩ := edits.stored change member
    exact (under found).stored stored
  | tend found tended => exact forall_set under (tended.under (kept found) (under found))
  | note => exact under

theorem Quietly.under (steps : Quietly few store after) (kept : store.Kept)
    (under : store.Under bound) : after.Under bound := by
  induction steps with
  | refl => exact under
  | next step _ ih => exact ih (step.kept kept) (step.under kept under)

theorem toNat_advance {sequence : Sequence}
    (rises : sequence.next.toNat ≤ sequence.advance.next.toNat) :
    sequence.advance.next.toNat = sequence.next.toNat + 1 := by
  have small := sequence.next.toNat_lt
  simp only [Sequence.advance, UInt64.toNat_add, UInt64.reduceToNat] at rises ⊢
  omega

/-- A step that draws the next number leaves a higher one. -/
theorem Step.under (step : Step few store offer after) (kept : store.Kept)
    (rises : store.sequence.next.toNat ≤ after.sequence.next.toNat)
    (under : store.Under store.sequence.next.toNat) :
    after.Under after.sequence.next.toNat := by
  cases step with
  | @enqueue index bucket found queue message evicted stored =>
    rw [sequence_commit] at rises ⊢
    have next := toNat_advance rises
    have wider : { store with sequence := store.sequence.advance }.Under
        store.sequence.advance.next.toNat := under.mono rises
    refine wider.commit kept.advance found
      (lawfulAlong_arrival (kept found).sound stored _ message) ?_
    intro change member
    rcases List.mem_append.mp member with member | member
    · obtain ⟨key, gone, rfl⟩ : ∃ key, evicted = some key ∧ Change.delete key = change := by
        simpa using member
      obtain ⟨entry, there⟩ := stored key gone
      exact Nat.lt_of_lt_of_le ((under found).stored there) rises
    · rw [List.mem_singleton.mp member]
      change store.sequence.next.toNat < store.sequence.advance.next.toNat
      omega
  | @enqueuePubrel index bucket found queue id free =>
    rw [sequence_commit] at rises ⊢
    have next := toNat_advance rises
    have wider : { store with sequence := store.sequence.advance }.Under
        store.sequence.advance.next.toNat := under.mono rises
    refine wider.commit kept.advance found (lawfulAlong_pubrel (kept found).sound free) ?_
    intro change member
    rw [List.mem_singleton.mp member]
    change store.sequence.next.toNat < store.sequence.advance.next.toNat
    omega
  | refuse | stay => exact under
  | quiet step =>
    rw [step.sequence]
    exact step.under kept under

theorem Took.under (took : Took store offer after) (kept : store.Kept)
    (rises : store.sequence.next.toNat ≤ after.sequence.next.toNat)
    (under : store.Under store.sequence.next.toNat) :
    after.Under after.sequence.next.toNat := by
  obtain ⟨few, middle, _, step, rest⟩ := took
  rw [rest.sequence] at rises ⊢
  exact rest.under (step.kept kept) (step.under kept rises under)

/-- A store that was opened goes on above all that it found. -/
theorem Reopened.under {settings : Settings} {disk : Disk} {olds : List Bucket}
    (h : Reopened (blank settings disk) olds after) (under : ∀ old ∈ olds, old.Under bound)
    (room : bound < UInt64.size) : after.Under after.sequence.next.toNat := by
  intro index new found
  rcases h.getElem?_blank index with ⟨_, nothing⟩ | ⟨old, other, before, there, revived⟩
  · rw [nothing] at found
    cases found
  · cases there.symm.trans found
    have member := List.mem_of_getElem? before
    have logged {n : UInt64} (mentioned : new.Mentions n) :
        n.toNat < after.sequence.next.toNat := by
      have mentioned := (Bucket.mentions_of_journal_eq revived.journal n).mp mentioned
      have less := (under old member).logged mentioned
      exact h.lt_next_of_mentions member mentioned (by omega)
    obtain ⟨changes, read⟩ := revived.readable
    have again : new.logged? = some changes := by
      rw [Bucket.logged?, revived.journal]
      exact read
    exact ⟨fun _ _ stored => logged (revived.kept.mentions again stored), fun _ => logged⟩

/-- And not above more than that. -/
theorem Reopened.next_le_bound {settings : Settings} {disk : Disk} {olds : List Bucket}
    (h : Reopened (blank settings disk) olds after) (under : ∀ old ∈ olds, old.Under bound)
    (begun : Sequence.start.toNat ≤ bound) : after.sequence.next.toNat ≤ bound := by
  rcases h.next_le_of_mentions with same | ⟨old, member, n, mentioned, le⟩
  · rw [same]
    exact begun
  · have less := (under old member).logged mentioned
    omega

end Store

namespace World

/-- The next number is above all others, and no further than what was drawn. -/
structure Ahead (world : World) : Prop where
  begun : Sequence.start.toNat ≤ world.store.sequence.next.toNat
  drawn : world.store.sequence.next.toNat ≤ Sequence.start.toNat + world.drawn
  under : world.store.Under world.store.sequence.next.toNat

theorem drawn_le_step (world : World) (event : Event) : world.drawn ≤ (world.step event).drawn := by
  cases event with
  | ask => exact Nat.le_add_right _ _
  | call => exact Nat.le_refl _
  | tell | restart =>
    simp only [step, tell, restart]
    split <;> exact Nat.le_refl _

theorem drawn_le_run (world : World) (events : List Event) :
    world.drawn ≤ (world.run events).drawn := by
  induction events generalizing world with
  | nil => exact Nat.le_refl _
  | cons event events ih => exact Nat.le_trans (drawn_le_step world event) (ih _)

/-- As long as fewer than 2^63 numbers are drawn, drawing one more does not come back to zero. -/
theorem ask_rises {world : World} (kept : world.store.Kept) (h : world.Ahead) (request : Request)
    (few : (world.ask request).drawn < 2 ^ 63) :
    world.store.sequence.next.toNat ≤ (world.ask request).store.sequence.next.toNat ∧
      (world.ask request).store.sequence.next.toNat ≤
        Sequence.start.toNat + (world.ask request).drawn := by
  have took := (Store.serve_took kept request).sequence
  have drawn := h.drawn
  simp only [ask] at few ⊢
  have begin : Sequence.start.toNat = 2 ^ 63 - 1 := by decide
  rcases took with same | same
  · rw [same] at few ⊢
    omega
  · rw [same] at few ⊢
    simp only [Sequence.advance] at few ⊢
    rw [show world.store.sequence.next + 1 - world.store.sequence.next = 1 by
      rw [UInt64.add_comm, UInt64.add_sub_cancel]] at few ⊢
    simp only [UInt64.toNat_add, UInt64.reduceToNat] at few ⊢
    omega

theorem Moves.ahead {world after : World} {event : Event} (moves : world.Moves event after)
    (kept : world.store.Kept) (h : world.Ahead) (few : after.drawn < 2 ^ 63) : after.Ahead := by
  cases moves with
  | ask request =>
    obtain ⟨rises, drawn⟩ := ask_rises kept h request few
    exact ⟨Nat.le_trans h.begun rises, drawn,
      (Store.serve_took kept request).under kept rises h.under⟩
  | call => exact ⟨h.begun, h.drawn, h.under⟩
  | still silent quiet outbox =>
    have same := quiet.sequence
    exact ⟨by rw [same]; exact h.begun, by rw [same]; exact h.drawn,
      by rw [same]; exact quiet.under kept h.under⟩
  | reopen reopened =>
    have olds := Store.forall_toList h.under
    refine ⟨reopened.next_le, ?_, reopened.under olds world.store.sequence.next.toNat_lt⟩
    exact Nat.le_trans (reopened.next_le_bound olds h.begun) h.drawn

theorem step_ahead {world : World} (event : Event) (kept : world.store.Kept)
    (h : world.drawn < 2 ^ 63 → world.Ahead) (few : (world.step event).drawn < 2 ^ 63) :
    (world.step event).Ahead :=
  (moves_step kept event).ahead kept
    (h (Nat.lt_of_le_of_lt (drawn_le_step world event) few)) few

theorem start_ahead {settings : Settings} {disk : Disk} {store : Store}
    (opened : Store.inMemory settings disk = .ok store) (payloads : Payloads) :
    (start store payloads).Ahead := by
  obtain ⟨used, reopened⟩ := Store.reopened_of_inMemory opened
  have under : ∀ old ∈ List.replicate settings.bucketCount Store.fresh,
      old.Under Sequence.start.toNat := by
    intro old member
    rw [List.eq_of_mem_replicate member]
    refine ⟨fun _ _ found => (by cases found), ?_⟩
    rintro n ⟨changes, read, change, member, _⟩
    cases read
    cases member
  exact ⟨reopened.next_le, reopened.next_le_bound under (Nat.le_refl _),
    reopened.under under (by decide)⟩

/-- The next number stays above all others in every run that draws fewer than 2^63. -/
theorem run_ahead {settings : Settings} {disk : Disk} {store : Store}
    (opened : Store.inMemory settings disk = .ok store) (payloads : Payloads)
    (events : List Event) (few : ((start store payloads).run events).drawn < 2 ^ 63) :
    ((start store payloads).run events).Ahead :=
  run_invariant opened payloads events (fun _ => start_ahead opened payloads)
    (fun _ event orderly h => step_ahead event orderly.kept h) few

end World

end DeliveryQueue
