import DeliveryQueue.Proofs.Eviction
import DeliveryQueue.Proofs.Independence
import Mathlib.Data.List.Infix

/-!
Whether the QoS 0 budget bounds what waits (`World.budget_bounds_iff`). What it counts is exact as
long as all that waits of QoS 0 weighs less than 2^64 bytes together, and then its sweeps bring it
back to its limit. A message that brings in more starts the count again at zero, and is let pass
(`Store.Overruns`).
-/
namespace DeliveryQueue

/-! What requests bring in -/

namespace Request

variable {bucket : Bucket} {queue : QueueKey} {request : Request}

/-- Whether a request adds a message. -/
def adds : Request → Bool
  | add .. => true
  | _ => false

/-- The bytes of QoS 0 that a request offers. -/
def weight (request : Request) : Nat := request.offer?.elim 0 Offer.weight

theorem weight_lt (request : Request) : request.weight < UInt64.size := by
  unfold weight
  cases request.offer? with
  | none => decide
  | some offer =>
    rw [Option.elim, Offer.weight]
    split
    · exact UInt64.toNat_lt_size _
    · decide

theorem of_weight_pos (weighs : 0 < request.weight) :
    ∃ queue message limit policy index,
      request = .add queue (.publish message) limit policy index ∧ message.qos = .atMostOnce := by
  cases request with
  | add queue message limit policy index =>
    cases message with
    | publish message =>
      refine ⟨queue, message, limit, policy, index, rfl, ?_⟩
      by_contra acknowledged
      simp [weight, offer?, Offer.weight, acknowledged] at weighs
    | pubrel id => cases weighs
  | _ => cases weighs

/-- What puts nothing at the end of a queue draws no number. -/
theorem draws_plan (overflow : Overflow) (line : Line) (next : EntryKey)
    (only : request.inserts = false) : (request.plan overflow line next).draws = false := by
  cases request with
  | add | replace => cases only
  | remove =>
    simp only [plan, Line.remove]
    split
    · rfl
    · split <;> rfl
  | removeShared | giveBack =>
    simp only [plan, Line.changeFirst]
    split <;> rfl
  | readNew =>
    simp only [plan, Line.readNew]
    split <;> rfl
  | _ => rfl

/-- No plan brings in more than its request offers. -/
theorem load_plan_le (coherent : bucket.Coherent) (overflow : Overflow)
    (its : request.queue? = some queue) (next : EntryKey) :
    ((request.plan overflow (bucket.queueEntries queue) next).changes.map Change.load).sum ≤
      request.weight := by
  cases only : request.inserts with
  | false =>
    have fits : (request.plan overflow (bucket.queueEntries queue) next).Fits bucket.entries
        queue next := coherent.fits overflow its
    have draws := draws_plan overflow (bucket.queueEntries queue) next only
    generalize request.plan overflow (bucket.queueEntries queue) next = plan at fits draws ⊢
    cases fits with
    | edits answer edits =>
      rw [edits.load]
      exact Nat.zero_le _
    | message | pubrel => cases draws
  | true =>
    cases request with
    | add queue' message limit policy index =>
      cases message with
      | publish message =>
        rcases Line.accept_cases (bucket.queueEntries queue) next message limit policy with
          idle | ⟨evicted, _, arrives⟩
        · rw [plan, idle]
          exact Nat.zero_le _
        · rw [plan, arrives]
          exact Nat.le_of_eq (Store.load_arrival evicted next message queue' index)
      | pubrel id =>
        simp only [plan]
        split <;> exact Nat.zero_le _
    | replace id packetId index =>
      simp only [plan, Line.replace]
      split <;> exact Nat.zero_le _
    | _ => cases only

end Request

/-- Every plan for a message is answered that it went well. -/
theorem Line.answer_accept (line : Line) (next : EntryKey) (message : Publish) (limit : Nat)
    (policy : DiscardPolicy) : (line.accept next message limit policy).answer = .done (.ok ()) := by
  rcases line.accept_cases next message limit policy with idle | ⟨_, _, arrives⟩
  · rw [idle]
    rfl
  · rw [arrives]

theorem Bucket.Coherent.withJournal {bucket : Bucket} (coherent : bucket.Coherent)
    (journal : Journal) : { bucket with journal }.Coherent :=
  ⟨coherent.agrees.withJournal journal, coherent.sound⟩

theorem Bucket.Tended.coherent {few : Nat} {bucket new : Bucket} (tended : bucket.Tended few new)
    (coherent : bucket.Coherent) : new.Coherent := by
  refine ⟨?_, tended.entries ▸ coherent.sound⟩
  cases tended with
  | flush journal => exact coherent.agrees.withJournal journal
  | forget => exact coherent.agrees.forgetEmptyQueues
  | compact disk =>
    unfold Bucket.compact
    split
    · exact coherent.agrees
    · exact coherent.agrees.withJournal _

namespace Store

variable {store after : Store} {cap : UInt64} {index few : Nat} {bucket new : Bucket}
variable {queue : QueueKey} {plan : Plan} {request : Request}

/-! Counting -/

/-- The budget has this limit, and what it counts is what waits of QoS 0. -/
structure Counted (store : Store) (cap : UInt64) : Prop where
  coherent : ∀ ⦃i : Nat⦄ ⦃b : Bucket⦄, store.buckets[i]? = some b → b.Coherent
  exact : store.budget.used.toNat = store.qos0Bytes
  limit : store.budget.limit = cap

/-- What waits of QoS 0 is within the limit as well. -/
structure Rationed (store : Store) (cap : UInt64) : Prop extends Counted store cap where
  most : store.qos0Bytes ≤ cap.toNat

namespace Counted

variable (counted : store.Counted cap)
include counted

theorem room_iff : store.budget.exceeded = false ↔ store.qos0Bytes ≤ cap.toNat := by
  rw [Budget.exceeded, decide_eq_false_iff_not, UInt64.lt_iff_toNat_lt, Nat.not_lt, counted.exact,
    counted.limit]

theorem beside (sequence : Sequence) (stats : Stats) (closed : Bool) (disk : Disk)
    (outbox : Outbox) : { store with sequence, stats, closed, disk, outbox }.Counted cap :=
  ⟨counted.coherent, counted.exact, counted.limit⟩

theorem carried (found : store.buckets[index]? = some bucket)
    (lawful : Change.LawfulAlong bucket.entries plan.changes)
    (tallied : Change.Tallied bucket.entries plan.changes)
    (light : (store.carried index bucket plan).qos0Bytes < UInt64.size) :
    (store.carried index bucket plan).Counted cap where
  coherent := forall_set counted.coherent ((counted.coherent found).applyAll _ store.budget lawful)
  exact := (used_carried counted.exact found tallied).trans (Nat.mod_eq_of_lt light)
  limit := (Bucket.limit_applyAll _ _ _).trans counted.limit

end Counted

theorem qos0Bytes_carried_le (found : store.buckets[index]? = some bucket)
    (lawful : Change.LawfulAlong bucket.entries plan.changes) :
    (store.carried index bucket plan).qos0Bytes ≤
      store.qos0Bytes + (plan.changes.map Change.load).sum := by
  have weights := qos0Bytes_carried store found plan
  have grows := lawful.weight
  omega

/-! Buckets that keep their entries -/

theorem qos0Bytes_of_entries (found : store.buckets[index]? = some bucket)
    (same : new.entries = bucket.entries)
    (buckets : after.buckets = store.buckets.setIfInBounds index new) :
    after.qos0Bytes = store.qos0Bytes := by
  have weights := total_set found after buckets fun bucket => bucket.entries.weight
  rw [same] at weights
  exact Nat.add_right_cancel weights

theorem Counted.turn (counted : store.Counted cap) (found : store.buckets[index]? = some bucket)
    (coherent : new.Coherent) (same : new.entries = bucket.entries) :
    { store with buckets := store.buckets.setIfInBounds index new }.Counted cap where
  coherent := forall_set counted.coherent coherent
  exact := counted.exact.trans (qos0Bytes_of_entries found same rfl).symm
  limit := counted.limit

/-! Sweeps -/

/-- Where one message less weighs, fewer do. -/
theorem length_ballast_lt {b : Ballast} (bears : store.Bears b)
    (gone : ∀ place key, after.entryAt place key =
      if place = b.index ∧ key = b.key then none else store.entryAt place key) :
    after.ballast.length < store.ballast.length := by
  have fresh : b ∉ after.ballast := by
    intro member
    have stored := (mem_ballast.mp member).1
    simp [gone] at stored
  have inside : b :: after.ballast ⊆ store.ballast := by
    refine List.cons_subset.mpr ⟨mem_ballast.mpr bears, fun other member => ?_⟩
    obtain ⟨stored, once⟩ := mem_ballast.mp member
    rw [gone] at stored
    split at stored
    · cases stored
    · exact mem_ballast.mpr ⟨stored, once⟩
  exact ((List.nodup_cons.mpr ⟨fresh, after.ballast_nodup⟩).subperm inside).length_le

namespace Counted

/-- A commit of edits is refused, which only the journal may take note of, or it keeps count and
brings nothing in. -/
theorem edit (counted : store.Counted cap) {changes : List Change}
    (found : store.buckets[index]? = some bucket) (edits : EditsAlong bucket.entries changes) :
    (∃ fault journal disk outbox, store.commit index bucket changes = (.error fault, { store with
        buckets := store.buckets.setIfInBounds index { bucket with journal }
        disk
        outbox })) ∨
      ∃ left : Store, left.Counted cap ∧ left.qos0Bytes ≤ store.qos0Bytes ∧
        left.stats.qos0EvictionFailures = store.stats.qos0EvictionFailures ∧
        left.contents = store.contents.setIfInBounds index (Change.actAll bucket.entries changes) ∧
        store.commit index bucket changes = (.ok (), left) := by
  let plan : Plan := ⟨false, changes, .done (.ok ())⟩
  have same : store.commit index bucket changes = store.carryOut index bucket plan := rfl
  cases taken : bucket.refusal? plan.changes with
  | some fault =>
    obtain ⟨journal, left, outbox, -, failed⟩ := carryOut_of_refused store index taken
    exact .inl ⟨_, journal, left, outbox, same.trans failed⟩
  | none =>
    obtain ⟨disk, outbox, done⟩ := carryOut_of_accepted store index taken
    have lawful := edits.lawful (counted.coherent found).sound
    have lighter : (store.carried index bucket plan).qos0Bytes ≤ store.qos0Bytes + _ :=
      qos0Bytes_carried_le found lawful
    rw [edits.load, Nat.add_zero] at lighter
    have light : store.qos0Bytes < UInt64.size := counted.exact ▸ UInt64.toNat_lt_size _
    have next := counted.carried found lawful (Change.tallied_of_load lawful edits.load)
      (Nat.lt_of_le_of_lt lighter light)
    have changed := contents_set (rfl : (store.carried index bucket plan).buckets = _)
    rw [(Bucket.applyAll_frame _ _ _).1] at changed
    exact .inr ⟨_, next.beside _ _ _ disk outbox, lighter, rfl, changed, same.trans done⟩

/-- A round of a sweep: the deletion of the oldest is refused and the sweep ends, or one message
less weighs and the sweep goes on. -/
theorem round (counted : store.Counted cap) (excess : store.budget.exceeded = true) :
    (∃ failed : Store, failed.Counted cap ∧
        failed.stats.qos0EvictionFailures = store.stats.qos0EvictionFailures + 1 ∧
        ∀ fuel, store.evictQos0 (fuel + 1) = failed) ∨
      ∃ next : Store, next.Counted cap ∧ next.ballast.length < store.ballast.length ∧
        next.stats.qos0EvictionFailures = store.stats.qos0EvictionFailures ∧
        ∀ fuel, store.evictQos0 (fuel + 1) = next.evictQos0 fuel := by
  obtain ⟨b, weighs⟩ : ∃ b, b ∈ store.ballast := by
    refine List.exists_mem_of_ne_nil _ fun none => ?_
    have bytes := store.bytes_ballast
    rw [none] at bytes
    have room := counted.room_iff.mpr (bytes ▸ Nat.zero_le _)
    cases room.symm.trans excess
  obtain ⟨index, key, message, oldest, bears⟩ := exists_oldestQos0?
    (fun _ _ found => (counted.coherent found).agrees.indexed) (mem_ballast.mp weighs)
  obtain ⟨bucket, found, _, stored⟩ := weighs_of_bears bears
  have turns (fuel : Nat) := evictQos0_of_oldest excess oldest found stored fuel
  have edits : EditsAlong bucket.entries [.delete key] := ⟨.delete stored, trivial⟩
  rcases counted.edit found edits with
    ⟨fault, journal, disk, outbox, failed⟩ | ⟨left, next, _, same, changed, done⟩
  · have fine := (counted.coherent found).withJournal journal
    refine .inl ⟨{ store with
      buckets := store.buckets.setIfInBounds index { bucket with journal }
      stats.qos0EvictionFailures := store.stats.qos0EvictionFailures + 1
      disk
      outbox }, (counted.turn found fine rfl).beside _ _ _ _ _, rfl, fun fuel => ?_⟩
    rw [turns, failed]
  · refine .inr ⟨left.dropped key.queue message store.budget.used, next.beside _ _ _ _ _,
      length_ballast_lt bears (entryAt_of_delete found changed), same, fun fuel => ?_⟩
    rw [turns, done]

/-- A sweep keeps count, and brings what waits back to the limit, unless a journal refuses a
deletion. -/
theorem evictQos0 (counted : store.Counted cap) {fuel : Nat}
    (enough : store.ballast.length ≤ fuel) : (store.evictQos0 fuel).Counted cap ∧
      ((store.evictQos0 fuel).stats.qos0EvictionFailures = store.stats.qos0EvictionFailures →
        (store.evictQos0 fuel).qos0Bytes ≤ cap.toNat) := by
  induction fuel generalizing store with
  | zero =>
    have bytes := store.bytes_ballast
    rw [List.length_eq_zero_iff.mp (Nat.le_zero.mp enough)] at bytes
    exact ⟨counted, fun _ => bytes ▸ Nat.zero_le _⟩
  | succ fuel ih =>
    cases excess : store.budget.exceeded with
    | false =>
      rw [evictQos0_of_room excess]
      exact ⟨counted, fun _ => counted.room_iff.mp excess⟩
    | true =>
      rcases counted.round excess with
        ⟨failed, left, more, ends⟩ | ⟨next, goesOn, fewer, same, goes⟩
      · rw [ends]
        exact ⟨left, fun same => absurd (more.symm.trans same) (by simp)⟩
      · rw [goes, ← same]
        exact ih goesOn (Nat.le_of_lt_succ (Nat.lt_of_lt_of_le fewer enough))

theorem enforceBudget (counted : store.Counted cap) (steady :
    store.enforceBudget.stats.qos0EvictionFailures = store.stats.qos0EvictionFailures) :
    store.enforceBudget.Rationed cap := by
  have enough : store.ballast.length ≤ store.qos0Count :=
    length_ballast_le (forall_toList fun _ _ found => (counted.coherent found).agrees.indexed)
  obtain ⟨left, most⟩ := counted.evictQos0 enough
  exact ⟨left, most steady⟩

end Counted

/-! Upkeep -/

namespace Rationed

variable (rationed : store.Rationed cap)
include rationed

theorem light : store.qos0Bytes < UInt64.size :=
  Nat.lt_of_le_of_lt rationed.most (UInt64.toNat_lt_size _)

theorem beside (sequence : Sequence) (stats : Stats) (closed : Bool) (disk : Disk)
    (outbox : Outbox) : { store with sequence, stats, closed, disk, outbox }.Rationed cap :=
  ⟨rationed.toCounted.beside sequence stats closed disk outbox, rationed.most⟩

theorem unlimited : store.unlimited.Rationed 0xFFFFFFFFFFFFFFFF :=
  ⟨⟨rationed.coherent, rationed.exact, rfl⟩, Nat.le_of_lt_succ rationed.light⟩

theorem turn (found : store.buckets[index]? = some bucket) (coherent : new.Coherent)
    (same : new.entries = bucket.entries) :
    { store with buckets := store.buckets.setIfInBounds index new }.Rationed cap :=
  ⟨rationed.toCounted.turn found coherent same,
    (Nat.le_of_eq (qos0Bytes_of_entries found same rfl)).trans rationed.most⟩

theorem tend (found : store.buckets[index]? = some bucket) (tended : bucket.Tended few new) :
    { store with buckets := store.buckets.setIfInBounds index new }.Rationed cap :=
  rationed.turn found (tended.coherent (rationed.coherent found)) tended.entries

theorem edit {changes : List Change} (found : store.buckets[index]? = some bucket)
    (edits : EditsAlong bucket.entries changes) :
    (store.commit index bucket changes).2.Rationed cap := by
  rcases rationed.toCounted.edit found edits with
    ⟨_, journal, disk, outbox, failed⟩ | ⟨left, counted, lighter, _, _, done⟩
  · rw [failed]
    have fine := (rationed.coherent found).withJournal journal
    exact (rationed.turn found fine rfl).beside _ _ _ _ _
  · rw [done]
    exact ⟨counted, Nat.le_trans lighter rationed.most⟩

theorem cleanUp (now : UInt64) (index : Nat) : (store.cleanUp now index).2.Rationed cap := by
  have swept {bucket : Bucket} (opened : store.bucket index = .ok bucket) :
      (store.commit index bucket ((staleKeys bucket now).map .delete)).2.Rationed cap :=
    rationed.edit (getElem?_of_bucket opened) (editsAlong_staleKeys bucket now)
  have cleans := cleansUp_cleanUp store now index
  generalize store.cleanUp now index = served at cleans ⊢
  cases cleans with
  | refused => exact rationed
  | fails opened failed =>
    have left := swept opened
    rwa [failed] at left
  | @sweeps bucket middle left opened done there =>
    have swept := swept opened
    rw [done] at swept
    exact (swept.tend there (.forget : left.Tended 0 _)).beside _ _ _ _ _
  | @compacts bucket middle left opened done there =>
    have swept := swept opened
    rw [done] at swept
    have forgot := swept.tend there (.forget : left.Tended 0 _)
    have again := getElem?_set_self there left.forgetEmptyQueues
    exact (forgot.tend again (.compact middle.disk (Nat.le_refl _))).beside _ _ _ _ _

end Rationed

theorem Quiet.rationed (step : Quiet few store after) (rationed : store.Rationed cap) :
    after.Rationed cap := by
  cases step with
  | edit found edits => exact rationed.edit found edits
  | tend found tended => exact rationed.tend found tended
  | note => exact rationed.beside _ _ _ _ _

theorem Quietly.rationed (steps : Quietly few store after) (rationed : store.Rationed cap) :
    after.Rationed cap := by
  induction steps with
  | refl => exact rationed
  | next step _ ih => exact ih (step.rationed rationed)

theorem Rationed.close (rationed : store.Rationed cap) : store.close.2.Rationed cap := by
  obtain ⟨_, _, steps⟩ := close_edited store
  exact steps.rationed rationed

/-! Serving -/

/-- The message brings in so much that the budget counts anew, and it is taken beyond the limit. -/
structure Overruns (store : Store) (request : Request) : Prop where
  adds : request.adds = true
  heavy : UInt64.size ≤ store.peak request
  taken : (store.serve request).1 = .done (.ok ())
  excess : store.budget.limit.toNat < (store.serve request).2.qos0Bytes

/-- A message of QoS 0 that exceeds the budget is taken, and the budget swept. -/
theorem addPublish_of_exceeded {message : Publish} {limit : Nat} {policy : DiscardPolicy}
    (opened : store.bucket index = .ok bucket) (agrees : bucket.Agrees)
    (once : message.qos = .atMostOnce) (planned : Line.accept (bucket.queueEntries queue)
      ⟨queue, store.sequence.next⟩ message limit policy = plan)
    (taken : bucket.refusal? plan.changes = none) (room : store.budget.exceeded = false)
    (excess : (store.carried index bucket plan).budget.exceeded = true) :
    ∃ stats disk outbox, stats.qos0EvictionFailures = store.stats.qos0EvictionFailures ∧
      store.addPublish queue message limit policy index =
        (.ok (), { store.carried index bucket plan with stats, disk, outbox }.enforceBudget) := by
  have count := agrees.indexed.faithful.counts queue (.of message.qos)
  have enqueued {evicted : Option EntryKey} (arrives : plan =
      ⟨true, arrival evicted ⟨queue, store.sequence.next⟩ message, .done (.ok ())⟩) :
      ∃ stats disk outbox, stats.qos0EvictionFailures = store.stats.qos0EvictionFailures ∧
        store.enqueue queue message evicted index bucket =
          (.ok (), { store.carried index bucket plan with stats, disk, outbox }.enforceBudget) := by
    obtain ⟨disk, outbox, done⟩ := carryOut_of_accepted store index taken
    rw [arrives] at done ⊢
    rw [enqueue_of_done once done]
    cases evicted.bind fun old => (bucket.entries.get? old).bind Entry.message? with
    | none => exact ⟨_, disk, outbox, rfl, rfl⟩
    | some old =>
      exact ⟨{ store.stats with discarded := store.stats.discarded + 1 }, disk, _, rfl, rfl⟩
  have idle (stays : plan = .idle (.done (.ok ()))) : False := by
    rw [stays] at excess
    cases room.symm.trans excess
  have adds := adds_addPublish store queue message limit policy index
  generalize store.addPublish queue message limit policy index = served at adds ⊢
  cases adds with
  | refused closed => cases closed.symm.trans opened
  | accepted again free =>
    cases again.symm.trans opened
    exact enqueued (by rw [← planned, Line.accept, ← count, free])
  | evicting again full oldest =>
    cases again.symm.trans opened
    obtain ⟨e, first, rfl⟩ := Option.map_eq_some_iff.mp oldest
    exact enqueued (by simp only [← planned, Line.accept, ← count, full, first])
  | turnedAway again full =>
    cases again.symm.trans opened
    refine (idle ?_).elim
    rcases full with full | ⟨full, none⟩
    · simp only [← planned, Line.accept, ← count, full]
    · have nobody := Option.map_eq_none_iff.mp none
      simp only [← planned, Line.accept, ← count, full, nobody]

/-- Before any message is dropped, less than 2^64 bytes of QoS 0 wait, and then the budget is kept
unless a journal refuses a deletion; or the request overruns. -/
def Fares (store : Store) (cap : UInt64) (request : Request) : Prop :=
  store.peak request < UInt64.size ∧
      ((store.serve request).2.stats.qos0EvictionFailures = store.stats.qos0EvictionFailures →
        (store.serve request).2.Rationed cap) ∨
    store.Overruns request

namespace Rationed

variable (rationed : store.Rationed cap)
include rationed

section Taken
variable (opened : store.bucket request.index = .ok bucket) (its : request.queue? = some queue)
  (planned : request.plan store.settings.overflow (bucket.queueEntries queue)
    ⟨queue, store.sequence.next⟩ = plan)
include opened its planned

theorem fits : plan.Fits bucket.entries queue ⟨queue, store.sequence.next⟩ :=
  planned ▸ (rationed.coherent (getElem?_of_bucket opened)).fits _ its

theorem lawful : Change.LawfulAlong bucket.entries plan.changes :=
  (rationed.fits opened its planned).lawful
    (rationed.coherent (getElem?_of_bucket opened)).sound rfl

theorem tallied : Change.Tallied bucket.entries plan.changes :=
  (rationed.fits opened its planned).tallied
    (rationed.coherent (getElem?_of_bucket opened)).sound rfl

theorem carried_le : (store.carried request.index bucket plan).qos0Bytes ≤
    store.qos0Bytes + request.weight := by
  have found := getElem?_of_bucket opened
  have grows := qos0Bytes_carried_le found (rationed.lawful opened its planned)
  have load := request.load_plan_le (rationed.coherent found) store.settings.overflow its
    ⟨queue, store.sequence.next⟩
  rw [planned] at load
  omega

/-- A request that leaves less than 2^64 bytes before any message is dropped. -/
theorem serve_of_light (taken : bucket.refusal? plan.changes = none)
    (light : (store.carried request.index bucket plan).qos0Bytes < UInt64.size)
    (steady : (store.serve request).2.stats.qos0EvictionFailures =
      store.stats.qos0EvictionFailures) : (store.serve request).2.Rationed cap := by
  have found := getElem?_of_bucket opened
  have agrees := (rationed.coherent found).agrees
  have counted := rationed.carried found (rationed.lawful opened its planned)
    (rationed.tallied opened its planned) light
  cases excess : (store.carried request.index bucket plan).budget.exceeded with
  | false =>
    have serves := serves_of_room opened agrees its planned fun _ => excess
    generalize store.serve request = served at serves
    cases serves with
    | refused again => cases again.symm.trans taken
    | served => exact ⟨counted.beside _ _ _ _ _, counted.room_iff.mp excess⟩
  | true =>
    -- only what a message of QoS 0 brings in can be too much
    have beyond : ¬ (store.carried request.index bucket plan).qos0Bytes ≤ cap.toNat :=
      fun most => Bool.noConfusion (excess.symm.trans (counted.room_iff.mpr most))
    have grows := rationed.carried_le opened its planned
    have most := rationed.most
    obtain ⟨_, message, limit, policy, index, rfl, once⟩ := request.of_weight_pos (by omega)
    cases its
    have opened : store.bucket index = .ok bucket := opened
    obtain ⟨stats, disk, outbox, same, added⟩ := addPublish_of_exceeded opened agrees once planned
      taken (rationed.room_iff.mpr most) excess
    have served : store.serve (.add queue (.publish message) limit policy index) =
        (store.addPublish queue message limit policy index).map .done id := rfl
    rw [served, added] at steady ⊢
    exact (counted.beside _ stats _ disk outbox).enforceBudget (steady.trans same.symm)

/-- Beyond 2^64 bytes, the budget counts less than there was to begin with. -/
theorem room_of_heavy
    (heavy : UInt64.size ≤ (store.carried request.index bucket plan).qos0Bytes) :
    (store.carried request.index bucket plan).budget.exceeded = false := by
  have most := rationed.most
  have grows := rationed.carried_le opened its planned
  have offered := request.weight_lt
  have word := UInt64.toNat_lt_size cap
  have limit : (store.carried request.index bucket plan).budget.limit = cap :=
    (Bucket.limit_applyAll _ _ _).trans rationed.limit
  have wraps : (store.carried request.index bucket plan).qos0Bytes % UInt64.size =
      (store.carried request.index bucket plan).qos0Bytes - UInt64.size := by
    rw [Nat.mod_eq_sub_mod heavy, Nat.mod_eq_of_lt (by omega)]
  rw [Budget.exceeded, decide_eq_false_iff_not, UInt64.lt_iff_toNat_lt, limit,
    used_carried rationed.exact (getElem?_of_bucket opened) (rationed.tallied opened its planned),
    wraps]
  omega

theorem overruns_of_heavy (taken : bucket.refusal? plan.changes = none)
    (heavy : UInt64.size ≤ (store.carried request.index bucket plan).qos0Bytes) :
    store.Overruns request := by
  have coherent := rationed.coherent (getElem?_of_bucket opened)
  have peak := peak_of_accepted coherent opened its planned taken
  have room := rationed.room_of_heavy opened its planned heavy
  have serves := serves_of_room opened coherent.agrees its planned fun _ => room
  have grows := rationed.carried_le opened its planned
  have few := rationed.light
  obtain ⟨_, message, limit, policy, index, rfl, _⟩ := request.of_weight_pos (by omega)
  generalize served_eq : store.serve _ = served at serves
  cases serves with
  | refused again => cases again.symm.trans taken
  | served =>
    refine ⟨rfl, peak ▸ heavy, ?_, ?_⟩
    · rw [served_eq]
      exact planned ▸ Line.answer_accept _ _ message limit policy
    · rw [served_eq]
      exact Nat.lt_of_lt_of_le (UInt64.toNat_lt_size _) heavy

end Taken

/-- What a closed store is asked for brings nothing in. -/
theorem serve_of_closed {fault : QueueFault} (closed : store.bucket request.index = .error fault)
    (its : request.queue? = some queue) : (store.serve request).2.Rationed cap := by
  obtain ⟨outbox, served⟩ := Store.serve_of_closed closed its
  rw [served]
  exact rationed.beside _ _ _ _ _

/-- What is refused brings nothing in. -/
theorem serve_of_refused {fault : StorageFault} (opened : store.bucket request.index = .ok bucket)
    (its : request.queue? = some queue)
    (refused : bucket.refusal? (request.plan store.settings.overflow (bucket.queueEntries queue)
      ⟨queue, store.sequence.next⟩).changes = some fault) :
    (store.serve request).2.Rationed cap := by
  have found := getElem?_of_bucket opened
  have coherent := rationed.coherent found
  obtain ⟨journal, left, outbox, -, served⟩ :=
    Store.serve_of_refused opened coherent.agrees its rfl refused
  rw [served]
  exact (rationed.turn found (coherent.withJournal journal) rfl).beside _ _ _ _ _

/-- A request about a queue. -/
theorem fares_of_queue (its : request.queue? = some queue) : store.Fares cap request := by
  cases opened : store.bucket request.index with
  | error fault =>
    have left := rationed.unlimited.serve_of_closed opened its
    exact .inl ⟨left.light, fun _ => rationed.serve_of_closed opened its⟩
  | ok bucket =>
    have coherent := rationed.coherent (getElem?_of_bucket opened)
    cases taken : bucket.refusal? (request.plan store.settings.overflow
        (bucket.queueEntries queue) ⟨queue, store.sequence.next⟩).changes with
    | some fault =>
      have left := rationed.unlimited.serve_of_refused opened its taken
      exact .inl ⟨left.light, fun _ => rationed.serve_of_refused opened its taken⟩
    | none =>
      have peak := peak_of_accepted coherent opened its rfl taken
      rcases Nat.lt_or_ge (store.peak request) UInt64.size with light | heavy
      · exact .inl ⟨light, rationed.serve_of_light opened its rfl taken (peak ▸ light)⟩
      · exact .inr (rationed.overruns_of_heavy opened its rfl taken (peak ▸ heavy))

/-- Upkeep brings nothing in. -/
theorem fares_of_upkeep (upkeep : request.queue? = none) : store.Fares cap request := by
  have goes {store : Store} {cap : UInt64} (rationed : store.Rationed cap) :
      (store.serve request).2.Rationed cap := by
    cases request with
    | cleanUp now index => exact rationed.cleanUp now index
    | close => exact rationed.close
    | _ => cases upkeep
  exact .inl ⟨(goes rationed.unlimited).light, fun _ => goes rationed⟩

theorem fares (request : Request) : store.Fares cap request := by
  cases its : request.queue? with
  | some queue => exact rationed.fares_of_queue its
  | none => exact rationed.fares_of_upkeep its

end Rationed

end Store

/-! Runs -/

namespace World

/-- As events happen, what waits of QoS 0 is within the limit after every message that is taken. -/
def KeepsBudget (world : World) (events : List Event) (cap : UInt64) : Prop :=
  ∀ front request, front ++ [.ask request] <+: events → request.adds = true →
    ((world.run front).store.serve request).1 = .done (.ok ()) →
      ((world.run front).ask request).store.qos0Bytes ≤ cap.toNat

variable {world : World} {cap : UInt64}

/-- As long as no message overruns and no journal refuses a deletion, the budget is kept. -/
theorem rationed_step {event : Event} (rationed : world.store.Rationed cap)
    (lasting : ∀ settings, event ≠ .restart settings)
    (fine : ∀ request, event = .ask request → ¬ world.store.Overruns request)
    (steady : (world.step event).store.stats.qos0EvictionFailures =
      world.store.stats.qos0EvictionFailures) : (world.step event).store.Rationed cap := by
  cases event with
  | ask request =>
    rcases rationed.fares request with ⟨_, goesOn⟩ | overruns
    · exact (goesOn steady).beside _ _ _ _ .empty
    · exact absurd overruns (fine request rfl)
  | call => exact rationed
  | tell index mood =>
    simp only [step, tell]
    split
    · exact rationed
    · rename_i bucket found
      have tended : bucket.Tended 0 { bucket with journal := bucket.journal.told mood } :=
        .flush _ fun batches held => by rwa [Journal.held?_told]
      exact rationed.tend found tended
  | restart settings => exact absurd rfl (lasting settings)

section Run
variable {settings : Settings} {journals : List Journal} {disk : Disk} {store : Store}
  (blank : ∀ journal ∈ journals, (journal.replay disk).answer = .ok [])
  (opened : Store.ofJournals settings journals disk = .ok store) (payloads : Payloads)
  (events : List Event) (lasting : ∀ settings, .restart settings ∉ events)
  (steady : ∀ front, front <+: events →
    ((start store payloads).run front).store.stats.qos0EvictionFailures = 0)
include blank opened lasting steady

theorem rationed_run (fine : ∀ front request, front ++ [.ask request] <+: events →
      ((start store payloads).run front).store.Rationed store.budget.limit →
        ¬ ((start store payloads).run front).store.Overruns request) :
    ((start store payloads).run events).store.Rationed store.budget.limit := by
  induction events using List.reverseRecOn with
  | nil =>
    have vacant := (Store.vacant_of_ofJournals blank opened).1
    refine ⟨⟨vacant.fit.coherent, vacant.fit.exact, rfl⟩, ?_⟩
    exact vacant.qos0Bytes_eq_zero ▸ Nat.zero_le _
  | append_singleton events event ih =>
    have before {front : List Event} (first : front <+: events) : front <+: events ++ [event] :=
      first.trans (List.prefix_append _ _)
    have rationed := ih (fun settings member => lasting settings (List.mem_append_left _ member))
      (fun front first => steady front (before first))
      (fun front request first => fine front request (before first))
    have now := steady _ (List.prefix_refl (events ++ [event]))
    rw [run_concat] at now ⊢
    have earlier := steady events (before (List.prefix_refl _))
    refine rationed_step rationed ?_ ?_ (now.trans earlier.symm)
    · rintro settings rfl
      exact lasting settings (List.mem_append_right _ List.mem_cons_self)
    · rintro request rfl
      exact fine events request (List.prefix_refl _) rationed

/-- Unless a journal refuses a deletion, the budget bounds what waits of QoS 0 if and only if no
message ever brings it to 2^64 bytes before others are dropped. -/
theorem budget_bounds_iff :
    (start store payloads).KeepsBudget events store.budget.limit ↔
      ∀ front request, front ++ [.ask request] <+: events → request.adds = true →
        ((start store payloads).run front).store.peak request < UInt64.size := by
  -- either side rules out that a message overruns, and then the budget is kept all along
  have all (fine : ∀ front request, front ++ [.ask request] <+: events →
      ((start store payloads).run front).store.Rationed store.budget.limit →
        ¬ ((start store payloads).run front).store.Overruns request)
      (front : List Event) (first : front <+: events) :
      ((start store payloads).run front).store.Rationed store.budget.limit :=
    rationed_run blank opened payloads front
      (fun settings member => lasting settings (first.subset member))
      (fun start begins => steady start (begins.trans first))
      (fun start request begins => fine start request (begins.trans first))
  constructor
  · intro bounded front request inside adds
    have fine (front request) (inside : front ++ [.ask request] <+: events)
        (rationed : ((start store payloads).run front).store.Rationed store.budget.limit) :
        ¬ ((start store payloads).run front).store.Overruns request := fun overruns =>
      absurd (bounded front request inside overruns.adds overruns.taken)
        (Nat.not_le.mpr (rationed.limit ▸ overruns.excess))
    have rationed := all fine front ((List.prefix_append _ _).trans inside)
    rcases rationed.fares request with ⟨light, _⟩ | overruns
    · exact light
    · exact absurd overruns (fine front request inside rationed)
  · intro light front request inside _ _
    have rationed := all (fun front request inside _ overruns =>
      absurd (light front request inside overruns.adds) (Nat.not_lt.mpr overruns.heavy)) _ inside
    rw [run_concat] at rationed
    exact rationed.most

end Run

end World

/-! Two buckets that share a budget of 100 bytes -/

def Store.austere : Store :=
  { blank scarce .empty with buckets := #[fresh, { fresh with index := 1 }] }

/-- A message of QoS 0 that is added to one of the buckets. -/
def Request.ofSize (size : UInt64) (index : Nat) : Request :=
  .add .client (.publish { Publish.ofQos .atMostOnce "u" 1 with size }) 10 .discard index

namespace World

theorem ofJournals_austere : Store.ofJournals Store.scarce
    [.memory .empty, .memory .empty] .empty = .ok .austere := rfl

/-- The first message has to go for the second. -/
theorem budget_bounds_iff_austere :
    let events := [Request.ofSize 70 0, .ofSize 60 1].map Event.ask
    (start .austere .empty).KeepsBudget events 100 ∧
      ((start .austere .empty).run events).store.qos0Bytes = 60 := by
  intro events
  have steady : ∀ front ∈ events.inits,
      ((start .austere .empty).run front).store.stats.qos0EvictionFailures = 0 := by
    decide +kernel
  have light : ∀ front ∈ events.inits, ∀ request ∈ [Request.ofSize 70 0, .ofSize 60 1],
      ((start .austere .empty).run front).store.peak request < UInt64.size := by
    decide +kernel
  refine ⟨(budget_bounds_iff (by decide) ofJournals_austere .empty events (by simp [events])
    fun front first => steady front ((List.mem_inits _ _).mpr first)).mpr ?_, by decide +kernel⟩
  intro front request inside _
  have asked := inside.subset (List.mem_append_right front List.mem_cons_self)
  obtain ⟨_, member, same⟩ := List.mem_map.mp asked
  cases same
  exact light front ((List.mem_inits _ _).mpr ((List.prefix_append _ _).trans inside)) request
    member

/-- A message that is as large as can be makes the budget count less than there was, and nothing
goes for it. -/
theorem budget_overrun :
    let events := [Request.ofSize 10 0, .ofSize 0xFFFFFFFFFFFFFFFF 0].map Event.ask
    let world := (start .austere .empty).run events
    Store.ofJournals Store.scarce [.memory .empty, .memory .empty] .empty = .ok .austere ∧
      (∀ front ∈ events.inits,
        ((start .austere .empty).run front).store.stats.qos0EvictionFailures = 0) ∧
      world.store.budget = ⟨100, 9⟩ ∧ world.store.qos0Bytes = 18446744073709551625 ∧
      ¬ (start .austere .empty).KeepsBudget events 100 := by
  intro events world
  have bytes : world.store.qos0Bytes = 18446744073709551625 := by decide +kernel
  refine ⟨ofJournals_austere, by decide +kernel, by decide +kernel, bytes, fun keeps => ?_⟩
  have most : world.store.qos0Bytes ≤ 100 :=
    keeps [.ask (.ofSize 10 0)] (.ofSize 0xFFFFFFFFFFFFFFFF 0) (List.prefix_refl _) rfl rfl
  rw [bytes] at most
  exact absurd most (by decide)

end World

end DeliveryQueue
