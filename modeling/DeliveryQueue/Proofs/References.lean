import DeliveryQueue.Proofs.World

/-!
Payload references are conserved. Every reference that was handed to a store was released once or
belongs to an entry that is still stored, through failures and restarts alike. So a payload that a
stored entry names outlives every sweep, as long as callers count a reference for each message that
they hand over.
-/
namespace DeliveryQueue

/-- The references to a payload that the entry owns: one or none. -/
def Entry.names (payload : UInt64) (entry : Entry) : Nat :=
  if entry.payload? = some payload then 1 else 0

/-- How many entries name a payload. -/
def Table.naming (entries : Entries) (payload : UInt64) : Nat :=
  entries.total fun _ => Entry.names payload

theorem Entry.payload?_assigned (packetId : Option UInt16) (entry : Entry) :
    (entry.assigned packetId).payload? = entry.payload? := by
  cases entry <;> rfl

theorem Entry.payload?_marked (taken : Bool) (entry : Entry) :
    (entry.marked taken).payload? = entry.payload? := by
  cases entry <;> cases taken <;> rfl

theorem count_filterMap_payload? (payload : UInt64) (entries : List Entry) :
    (entries.filterMap Entry.payload?).count payload = (entries.map (Entry.names payload)).sum := by
  induction entries with
  | nil => rfl
  | cons entry entries ih =>
    rw [List.map_cons, List.sum_cons, ← ih, Entry.names]
    cases named : entry.payload? with
    | none => simp [List.filterMap_cons_none named]
    | some other =>
      rw [List.filterMap_cons_some named, List.count_cons]
      by_cases same : other = payload <;> simp [same, Nat.add_comm]

namespace Change

/-- What a change brings in is stored afterwards, or it displaces as much. -/
theorem naming_act (entries : Entries) (change : Change) (payload : UInt64) :
    (change.act entries).naming payload +
        (change.displaced (entries.get? change.key)).elim 0 (Entry.names payload) =
      entries.naming payload + change.inserted?.elim 0 (Entry.names payload) := by
  have trade := Table.total_set entries (fun _ => Entry.names payload) change.key
    (change.outcome (entries.get? change.key))
  rw [← act] at trade
  simp only [Table.naming]
  cases change with
  | insert key entry => simpa [outcome, displaced, inserted?, Change.key] using trade
  | delete key => simpa [outcome, displaced, inserted?, Change.key] using trade
  | release key id =>
    simpa [outcome, displaced, inserted?, Change.key, Entry.names, Entry.payload?, Entry.message?]
      using trade
  | assign key id =>
    cases found : entries.get? key <;>
      simpa [outcome, displaced, inserted?, Change.key, found, Entry.names,
        Entry.payload?_assigned] using trade
  | mark key taken =>
    cases found : entries.get? key <;>
      simpa [outcome, displaced, inserted?, Change.key, found, Entry.names,
        Entry.payload?_marked] using trade

theorem naming_actAll (entries : Entries) (changes : List Change) (payload : UInt64) :
    (actAll entries changes).naming payload +
        ((displacedAll entries changes).filterMap Entry.payload?).count payload =
      entries.naming payload +
        ((changes.filterMap inserted?).filterMap Entry.payload?).count payload := by
  simp only [count_filterMap_payload?]
  induction changes generalizing entries with
  | nil => rfl
  | cons change changes ih =>
    have first := naming_act entries change payload
    have rest := ih (change.act entries)
    have left : ((change.displaced (entries.get? change.key)).toList.map
        (Entry.names payload)).sum =
        (change.displaced (entries.get? change.key)).elim 0 (Entry.names payload) := by
      cases change.displaced (entries.get? change.key) <;> simp
    have brought : (((change :: changes).filterMap inserted?).map (Entry.names payload)).sum =
        change.inserted?.elim 0 (Entry.names payload) +
          ((changes.filterMap inserted?).map (Entry.names payload)).sum := by
      cases entry : change.inserted? <;> simp [entry]
    rw [actAll_cons, displacedAll, List.map_append, List.sum_append, left, brought]
    omega

end Change

namespace Store

/-- How many stored entries name a payload. -/
def naming (store : Store) (payload : UInt64) : Nat :=
  store.total fun bucket => bucket.entries.naming payload

/-- The references to a payload for which a store answers: those released and those stored. -/
def accounted (store : Store) (payload : UInt64) : Nat :=
  store.outbox.released.count payload + store.naming payload

/-- The reference that an offer hands over, if it is one to this payload. -/
def handed (offer : Option Offer) (payload : UInt64) : Nat :=
  offer.elim 0 fun o => if o.message.payload = payload then 1 else 0

variable {store after : Store} {index few : Nat} {bucket : Bucket} {offer : Option Offer}

theorem accounted_commit (kept : store.Kept) (found : store.buckets[index]? = some bucket)
    (changes : List Change) (payload : UInt64) :
    (store.commit index bucket changes).2.accounted payload = store.accounted payload +
      ((changes.filterMap Change.inserted?).filterMap Entry.payload?).count payload := by
  rcases commit_cases (kept found) found changes with
    ⟨fault, failed⟩ | ⟨new, left, committed, done⟩
  · rw [failed]
    simp only [accounted, releaseEntries, List.count_append, naming, total]
    omega
  · rw [done]
    have trade := total_set found { store with
        buckets := store.buckets.setIfInBounds index new
        budget := left } rfl fun bucket => bucket.entries.naming payload
    have conserved := Change.naming_actAll bucket.entries changes payload
    rw [← committed.entries] at conserved
    simp only [accounted, record, releaseEntries, List.count_append, naming] at trade ⊢
    simp only [total] at trade ⊢
    omega

theorem inserted_edits {entries : Entries} {changes : List Change}
    (edits : EditsAlong entries changes) (payload : UInt64) :
    ((changes.filterMap Change.inserted?).filterMap Entry.payload?).count payload = 0 := by
  rw [edits.inserted?]
  rfl

theorem Quiet.accounted (step : Quiet few store after) (kept : store.Kept) (payload : UInt64) :
    after.accounted payload = store.accounted payload := by
  cases step with
  | edit found edits short =>
    rw [accounted_commit kept found, inserted_edits edits, Nat.add_zero]
  | @tend index bucket new found tended =>
    have trade := total_set found { store with
        buckets := store.buckets.setIfInBounds index new } rfl
      fun bucket => bucket.entries.naming payload
    simp only [tended.entries] at trade
    simp only [Store.accounted, naming]
    omega
  | note => rfl

theorem Quietly.accounted (steps : Quietly few store after) (kept : store.Kept) (payload : UInt64) :
    after.accounted payload = store.accounted payload := by
  induction steps with
  | refl => rfl
  | next step _ ih => exact (ih (step.kept kept)).trans (step.accounted kept payload)

/-- Whatever a message finds, the reference that came with it is accounted for. -/
theorem Step.accounted (step : Step few store offer after) (kept : store.Kept) (payload : UInt64) :
    after.accounted payload = store.accounted payload + handed offer payload := by
  cases step with
  | @enqueue index bucket found queue message evicted stored =>
    rw [accounted_commit kept.advance found]
    have brought : (arrival evicted ⟨queue, store.sequence.next⟩ message).filterMap
        Change.inserted? = [.publish (.ofPublish message)] := by
      cases evicted <;> rfl
    rw [brought]
    simp only [List.filterMap_cons, List.filterMap_nil, Entry.payload?, Entry.message?,
      Option.map_some, StoredPublish.ofPublish, List.count_singleton, beq_iff_eq, handed,
      Option.elim]
    rfl
  | @enqueuePubrel index bucket found queue id free =>
    rw [accounted_commit kept.advance found]
    rfl
  | refuse offer =>
    simp only [Store.accounted, release, List.count_append, List.count_singleton, beq_iff_eq,
      handed, Option.elim, naming, total]
    omega
  | quiet step => exact step.accounted kept payload
  | stay => rfl

theorem Took.accounted (took : Took store offer after) (kept : store.Kept) (payload : UInt64) :
    after.accounted payload = store.accounted payload + handed offer payload := by
  obtain ⟨few, middle, _, step, rest⟩ := took
  rw [rest.accounted (step.kept kept), step.accounted kept]

end Store

namespace Payloads

variable {payloads : Payloads} {id : UInt64}

theorem references_le_release (payloads : Payloads) (released id : UInt64) :
    payloads.references id ≤
      (payloads.release released).references id + if released = id then 1 else 0 := by
  unfold release references
  cases found : payloads.stored.get? released with
  | none => exact Nat.le_add_right _ _
  | some payload =>
    by_cases same : id = released
    · simp only [same, found, Table.get?_insert_self, Option.map_some, Option.getD_some, if_true]
      omega
    · simp only [Table.get?_insert_of_ne same]
      exact Nat.le_add_right _ _

theorem references_le_foldl_release (payloads : Payloads) (released : List UInt64) (id : UInt64) :
    payloads.references id ≤
      (released.foldl release payloads).references id + released.count id := by
  induction released generalizing payloads with
  | nil => exact Nat.le_add_right _ _
  | cons first released ih =>
    have once := references_le_release payloads first id
    have rest := ih (payloads.release first)
    simp only [List.foldl_cons, List.count_cons, beq_iff_eq]
    omega

/-- A payload that somebody refers to stays, with its bytes. -/
theorem sweep_of_references_pos (referred : 0 < payloads.references id) :
    ∃ payload, payloads.stored.get? id = some payload ∧
      payloads.sweep.stored.get? id = some payload := by
  unfold references at referred
  cases found : payloads.stored.get? id with
  | none => simp [found] at referred
  | some payload =>
    refine ⟨payload, rfl, ?_⟩
    have counted : payload.references ≠ 0 := by
      simp only [found, Option.map_some, Option.getD_some] at referred
      omega
    simp [sweep, Table.get?_filter, found, Option.filter, counted]

end Payloads

namespace World

/-- How many offers hand over a reference to a payload. -/
def references (offers : List Offer) (payload : UInt64) : Nat :=
  offers.countP fun offer => offer.message.payload = payload

/-- The references of a payload that were handed over are those that were released and those of
stored entries; what callers counted and nobody released is still counted. -/
structure Balanced (world : World) (payload : UInt64) : Prop where
  conserved :
    world.record.released.count payload + world.store.naming payload =
      references world.offers payload
  counted : world.counted payload ≤
    (world.payloads.references payload : Int) + world.record.released.count payload

theorem references_append (offers : List Offer) (offer : Option Offer) (payload : UInt64) :
    references (offers ++ offer.toList) payload =
      references offers payload + Store.handed offer payload := by
  cases offer <;> simp [references, Store.handed, List.countP_cons]

theorem Moves.balanced {world after : World} {event : Event} {payload : UInt64}
    (moves : world.Moves event after) (orderly : world.Orderly) (h : world.Balanced payload) :
    after.Balanced payload := by
  have bare : world.store.outbox.released.count payload = 0 := by rw [orderly.settled]; rfl
  have kept := orderly.kept
  have conserved := h.conserved
  have counted := h.counted
  cases moves with
  | ask request =>
    have took := (Store.serve_took kept request).accounted kept payload
    have released := Payloads.references_le_foldl_release world.payloads
      (world.store.serve request).2.outbox.released payload
    have offered := offers_step world (.ask request)
    simp only [step] at offered
    constructor
    · rw [offered, references_append]
      simp only [Store.accounted, bare] at took
      simp only [World.ask, Outbox.append, List.count_append, Event.offer?]
      change _ + (world.store.serve request).2.naming payload = _
      omega
    · simp only [World.ask, Outbox.append, List.count_append]
      omega
  | call call =>
    refine ⟨h.conserved, ?_⟩
    simp only [World.call]
    omega
  | still silent quiet outbox =>
    have same := quiet.accounted kept payload
    rw [Store.accounted, outbox, Store.accounted] at same
    exact ⟨(Nat.add_left_cancel same) ▸ h.conserved, h.counted⟩
  | @reopen settings used disk after reopened =>
    refine ⟨?_, h.counted⟩
    have revived : after.naming payload = world.store.naming payload := by
      have named := reopened.total fun entries => entries.naming payload
      simpa [Store.naming, Store.total, Store.blank] using named
    change _ + after.naming payload = references world.offers payload
    rw [revived]
    exact h.conserved

theorem start_balanced {settings : Settings} {disk : Disk} {store : Store}
    (opened : Store.inMemory settings disk = .ok store) (payloads : Payloads) (payload : UInt64) :
    (start store payloads).Balanced payload := by
  obtain ⟨used, reopened⟩ := Store.reopened_of_inMemory opened
  refine ⟨?_, Int.natCast_nonneg _⟩
  change 0 + store.naming payload = 0
  have bare : Store.fresh.entries.naming payload = 0 := rfl
  have named := reopened.total fun entries => entries.naming payload
  simp only [List.map_replicate, List.sum_replicate_nat, bare] at named
  simpa [Store.naming, Store.total, Store.blank] using named

/-- References are conserved over whole runs, and sweeping the payload store is safe in them. -/
theorem references_conserved {settings : Settings} {disk : Disk} {store : Store}
    (opened : Store.inMemory settings disk = .ok store) (payloads : Payloads)
    (events : List Event) (payload : UInt64) :
    let world := (start store payloads).run events
    let added := references (events.filterMap Event.offer?) payload
    world.record.released.count payload + world.store.naming payload = added ∧
      ((added : Int) ≤ world.counted payload → 0 < world.store.naming payload →
        ∃ stored, world.payloads.stored.get? payload = some stored ∧
          world.payloads.sweep.stored.get? payload = some stored) := by
  have balanced : ((start store payloads).run events).Balanced payload :=
    run_invariant opened payloads events (start_balanced opened payloads payload)
      fun _ event orderly h => (moves_step orderly.kept event).balanced orderly h
  have conserved := balanced.conserved
  rw [offers_run] at conserved
  refine ⟨conserved, ?_⟩
  intro enough named
  have counted := balanced.counted
  change _ = references (events.filterMap Event.offer?) payload at conserved
  exact Payloads.sweep_of_references_pos (by omega)

theorem references_of_sample_conserved :
    let world := (start .single .empty).run sample
    world.record.released.count 1 + world.store.naming 1 = 1 ∧
      ∃ stored, world.payloads.stored.get? 1 = some stored ∧
        world.payloads.sweep.stored.get? 1 = some stored :=
  have conserved := references_conserved Store.inMemory_single .empty sample 1
  ⟨conserved.1, conserved.2 (by decide +kernel) (by decide +kernel)⟩

end World

end DeliveryQueue
