import DeliveryQueue.Proofs.Mirroring

/-!
Queues do not interfere. Take a run about many queues, and the same run without all that is about
queues other than one: as long as the numbers do not run out, no journal fails and the budget holds,
the queue is answered in the one run as in the other (`World.queues_do_not_interfere`). Where the
numbers start again at zero, they may not be (`World.queues_interfere`).
-/
namespace DeliveryQueue

/-! Stores that hold nothing -/

namespace Store

variable {store : Store}

/-- Nothing is stored, and nothing weighs against the budget. -/
structure Vacant (store : Store) : Prop where
  agrees : ∀ ⦃i : Nat⦄ ⦃b : Bucket⦄, store.buckets[i]? = some b → b.Agrees
  vacant : ∀ ⦃i : Nat⦄ ⦃b : Bucket⦄, store.buckets[i]? = some b → b.entries = Table.empty
  unused : store.budget.used = 0

namespace Vacant

variable (vacant : store.Vacant)
include vacant

theorem qos0Bytes_eq_zero : store.qos0Bytes = 0 := by
  refine List.sum_eq_zero ?_
  intro weight member
  obtain ⟨bucket, held, rfl⟩ := List.mem_map.mp member
  obtain ⟨i, found⟩ := List.mem_iff_getElem?.mp held
  rw [vacant.vacant (Array.getElem?_toList ▸ found)]
  rfl

theorem fit : store.Fit store.sequence.next.toNat where
  coherent i b found := ⟨vacant.agrees found, vacant.vacant found ▸ Sound.empty⟩
  exact := by rw [vacant.qos0Bytes_eq_zero, vacant.unused]; rfl
  next := UInt64.ofNat_toNat.symm
  under i b found key entry stored := by
    rw [vacant.vacant found] at stored
    cases stored

/-- A store that holds nothing is its own mirror. -/
theorem mirrors (queue : QueueKey) :
    Mirrors queue id store.sequence.next.toNat store.sequence.next.toNat store store where
  fit := vacant.fit
  twinFit := vacant.fit
  le := Nat.le_refl _
  closed := rfl
  overflow := rfl
  limit := rfl
  reflects := by
    refine ⟨rfl, ?_⟩
    intro i b c found there
    cases found.symm.trans there
    refine ⟨?_, .refl _⟩
    rw [vacant.vacant found]
    rfl
  orders a b held := by
    obtain ⟨_, i, bucket, entry, found, stored⟩ := held
    rw [vacant.vacant found] at stored
    cases stored

end Vacant

theorem addBucket_of_blank {journal : Journal}
    (blank : (journal.replay store.disk).answer = .ok []) :
    store.addBucket journal = .ok { store with
      buckets := store.buckets.push
        (Bucket.ofJournal store.bucketCount (journal.replay store.disk).journal) } := by
  have same : (journal.replay store.disk).disk = store.disk := by cases journal <;> rfl
  simp only [addBucket, Bucket.recover, Bucket.ofJournal, Bucket.replayBatches, blank, same]
  rfl

theorem Vacant.push (vacant : store.Vacant) (journal : Journal) :
    { store with
      buckets := store.buckets.push (Bucket.ofJournal store.bucketCount journal) }.Vacant := by
  refine ⟨?_, ?_, vacant.unused⟩ <;> intro i b found <;>
    simp only [Array.getElem?_push] at found <;> split at found
  · cases found
    exact Bucket.agrees_ofJournal _ _
  · exact vacant.agrees found
  · cases found
    rfl
  · exact vacant.vacant found

theorem vacant_of_foldlM {after : Store} {journals : List Journal} (vacant : store.Vacant)
    (blank : ∀ journal ∈ journals, (journal.replay store.disk).answer = .ok [])
    (opened : journals.foldlM addBucket store = .ok after) :
    after.Vacant ∧ after.sequence = store.sequence := by
  induction journals generalizing store with
  | nil =>
    cases opened
    exact ⟨vacant, rfl⟩
  | cons journal journals ih =>
    obtain ⟨first, others⟩ := List.forall_mem_cons.mp blank
    rw [List.foldlM_cons, addBucket_of_blank first] at opened
    exact (ih (vacant.push (journal.replay store.disk).journal) others opened :)

/-- A store that is opened over journals without batches holds nothing. -/
theorem vacant_of_ofJournals {settings : Settings} {journals : List Journal} {disk : Disk}
    (blank : ∀ journal ∈ journals, (journal.replay disk).answer = .ok [])
    (opened : ofJournals settings journals disk = .ok store) :
    store.Vacant ∧ store.sequence = .fresh := by
  unfold ofJournals at opened
  dsimp only at opened
  split at opened
  · cases opened
  · refine vacant_of_foldlM ⟨?_, ?_, rfl⟩ blank opened <;> intro i b found <;> cases found

/-! Runs -/

/-- The store once a request is served and its outbox emptied. -/
def after (store : Store) (request : Request) : Store :=
  { (store.serve request).2 with outbox := .empty }

/-- No request is answered by a journal that fails, and what waits of QoS 0 stays within the
budget. -/
def Calm (store : Store) : List Request → Prop
  | [] => True
  | request :: requests =>
    (store.serve request).1.journalFailed = false ∧
      store.peak request ≤ store.budget.limit.toNat ∧ (store.after request).Calm requests

def decidableCalm (store : Store) : (requests : List Request) → Decidable (store.Calm requests)
  | [] => isTrue trivial
  | request :: requests =>
    have := (store.after request).decidableCalm requests
    inferInstanceAs (Decidable (_ ∧ _ ∧ _))

instance (store : Store) (requests : List Request) : Decidable (store.Calm requests) :=
  store.decidableCalm requests

end Store

namespace World

variable {world twin : World} {queue : QueueKey} {f : UInt64 → UInt64} {number fewer : Nat}
variable {request : Request} {requests : List Request}

/-- What was answered to one queue, in the order of the requests. -/
def answers (world : World) (queue : QueueKey) : List (Request × Answer) :=
  world.history.filter fun h => h.1.queue? = some queue

theorem answers_ask (world : World) (queue : QueueKey) (request : Request) :
    (world.ask request).answers queue = world.answers queue ++
      if request.queue? = some queue then [(request, (world.store.serve request).1)] else [] := by
  simp [answers, ask, List.filter_append, List.filter_cons]

theorem run_ask (world : World) (request : Request) (events : List Event) :
    world.run (.ask request :: events) = (world.ask request).run events := rfl

/-- Requests are served from the mirror of a queue as from the store. -/
theorem answers_of_mirrors
    (mirrors : Store.Mirrors queue f number fewer world.store twin.store)
    (addressed : ∀ request ∈ requests, request.queue?.isSome) (calm : world.store.Calm requests)
    (room : number + (world.run (requests.map .ask)).drawn ≤ UInt64.size + world.drawn)
    (same : world.answers queue = twin.answers queue) :
    (world.run (requests.map .ask)).answers queue =
      (twin.run ((requests.filter fun request => request.queue? = some queue).map .ask)).answers
        queue := by
  induction requests generalizing world twin f number fewer with
  | nil => exact same
  | cons request requests ih =>
    obtain ⟨first, others⟩ := List.forall_mem_cons.mp addressed
    obtain ⟨fine, within, calm⟩ := calm
    obtain ⟨other, its⟩ := Option.isSome_iff_exists.mp first
    rw [List.map_cons, run_ask] at room ⊢
    have drawn : (world.ask request).drawn = world.drawn + world.store.draws request := rfl
    have further := drawn_le_run (world.ask request) (requests.map .ask)
    have small : number + world.store.draws request ≤ UInt64.size := by omega
    have roomToo : number + world.store.draws request +
        ((world.ask request).run (requests.map .ask)).drawn ≤
          UInt64.size + (world.ask request).drawn := by omega
    by_cases own : other = queue
    · subst own
      obtain ⟨answered, g, after⟩ := mirrors.along small within fine its
      rw [List.filter_cons_of_pos (by simpa using its), List.map_cons, run_ask]
      refine ih (after.beside .empty .empty) others calm roomToo ?_
      rw [answers_ask, answers_ask, same, answered]
    · have after := mirrors.aside small within fine its own
      have hidden : ¬ request.queue? = some queue := by simpa [its] using own
      rw [List.filter_cons_of_neg (by simpa using hidden)]
      refine ih (after.beside .empty twin.store.outbox) others calm roomToo ?_
      rw [answers_ask, if_neg hidden, List.append_nil, same]

/-- A run about one queue answers nothing else. -/
theorem answers_run_of_forall (its : ∀ request ∈ requests, request.queue? = some queue)
    (all : world.answers queue = world.history) :
    (world.run (requests.map .ask)).answers queue = (world.run (requests.map .ask)).history := by
  induction requests generalizing world with
  | nil => exact all
  | cons request requests ih =>
    obtain ⟨first, others⟩ := List.forall_mem_cons.mp its
    rw [List.map_cons, run_ask]
    refine ih others ?_
    rw [answers_ask, if_pos first, all]
    rfl

/-- What a queue is answered is not changed by leaving out of the run all that is about other
queues. -/
theorem queues_do_not_interfere {store : Store} (vacant : store.Vacant) (payloads : Payloads)
    (queue : QueueKey) (addressed : ∀ request ∈ requests, request.queue?.isSome)
    (calm : store.Calm requests)
    (room : store.sequence.next.toNat +
      ((start store payloads).run (requests.map .ask)).drawn ≤ UInt64.size) :
    ((start store payloads).run (requests.map .ask)).answers queue =
      ((start store payloads).run
        ((requests.filter fun request => request.queue? = some queue).map .ask)).history := by
  refine (answers_of_mirrors (vacant.mirrors queue) addressed calm room rfl).trans ?_
  refine answers_run_of_forall ?_ rfl
  intro request member
  simpa using (List.mem_filter.mp member).2

/-- Two clients and a group share a bucket. The group has the name of one client, and the name of
the other begins with it. -/
def neighbors : List Request :=
  let group : QueueKey := ⟨"c", true⟩
  let longer : QueueKey := ⟨"cc", false⟩
  [.add longer (.publish (.ofQos .atLeastOnce "u1" 1)) 10 .discard 0,
    .add .client (.publish (.ofQos .atLeastOnce "u2" 2)) 10 .discard 0,
    .add group (.publish (.ofQos .exactlyOnce "u3" 3)) 10 .discard 0,
    .readNew .client [1] 1000 0 0,
    .clear longer 0,
    .removeShared "c" "u3" 0,
    .remove "c" 1 none 0]

theorem neighbors_do_not_interfere :
    ((start .single .empty).run (neighbors.map .ask)).answers .client =
      ((start .single .empty).run
        ((neighbors.filter fun request => request.queue? = some .client).map .ask)).history :=
  have vacant := (Store.vacant_of_ofJournals (by decide) Store.inMemory_single).1
  queues_do_not_interfere vacant .empty .client (by decide) (by decide +kernel) (by decide +kernel)

end World

/-! Where the numbers run out -/

/-- A message that is too long for a journal. -/
def Publish.overlong : Publish :=
  { Publish.ofQos .atLeastOnce "u" 1 with topic := String.ofList (List.replicate 65536 'a') }

theorem utf8ByteSize_replicate (n : Nat) :
    (String.ofList (List.replicate n 'a')).utf8ByteSize = n := by
  induction n with
  | zero => rfl
  | succ n ih =>
    rw [List.replicate_succ', String.ofList_append, String.utf8ByteSize_append, ih]
    rfl

theorem Publish.fits_overlong : Batch.fits overlong.topic = false := by
  have size : overlong.topic.utf8ByteSize = 65536 := utf8ByteSize_replicate 65536
  simp [Batch.fits, size]

/-- Adding such a message to the queue of another client. -/
def Request.vain : Request := .add ⟨"b", false⟩ (.publish .overlong) 10 .discard 0

namespace Store

/-- The store over one fresh journal, with a number to go on with. -/
def singleAt (next : UInt64) : Store := { single with sequence := ⟨next⟩ }

theorem refusal?_of_long {bucket : Bucket} {key : EntryKey} {message : Publish}
    (short : Batch.fits key.queue.id = true) (long : Batch.fits message.topic = false) :
    bucket.refusal? (arrival none key message) = some (.corruption (.batch (.tooLong .topic))) := by
  have texts : (arrival none key message).flatMap Batch.changeTexts =
      [(.queueId, key.queue.id), (.topic, message.topic), (.uniqueId, message.uniqueId)] := rfl
  have encoded : Batch.encode (arrival none key message) = .error (.tooLong .topic) := by
    simp [Batch.encode, Batch.overlong?, texts, short, long]
  simp only [Bucket.refusal?, encoded]
  rfl

/-- The other client has nothing in the first bucket. -/
structure Spacious (store : Store) (bucket : Bucket) : Prop where
  opened : store.bucket 0 = .ok bucket
  agrees : bucket.Agrees
  bare : bucket.queueEntries ⟨"b", false⟩ = []

theorem spacious_single (next limit : UInt64) :
    { singleAt next with budget.limit := limit }.Spacious fresh :=
  ⟨rfl, Bucket.agrees_ofJournal 0 _, rfl⟩

namespace Spacious

variable {store : Store} {bucket : Bucket} (spacious : store.Spacious bucket)
include spacious

/-- Adding in vain draws a number, and nothing else comes of it. -/
theorem serve_vain :
    ∃ outbox, store.serve .vain =
      (.done (.error (.storage (.corruption (.batch (.tooLong .topic))))),
        { store with sequence := store.sequence.advance, outbox }) := by
  let plan : Plan :=
    ⟨true, arrival none ⟨⟨"b", false⟩, store.sequence.next⟩ .overlong, .done (.ok ())⟩
  have planned : Request.vain.plan store.settings.overflow (bucket.queueEntries ⟨"b", false⟩)
      ⟨⟨"b", false⟩, store.sequence.next⟩ = plan := by
    rw [spacious.bare]
    rfl
  have opened : store.bucket Request.vain.index = .ok bucket := spacious.opened
  have short : Batch.fits "b" = true := by decide
  obtain ⟨journal, left, outbox, refused, served⟩ :=
    serve_of_refused opened spacious.agrees rfl planned
      (refusal?_of_long short Publish.fits_overlong)
  obtain ⟨rfl, rfl⟩ := refused.eq_of_calm rfl
  refine ⟨outbox, served.trans ?_⟩
  rw [setIfInBounds_self (getElem?_of_bucket opened)]
  rfl

theorem after_vain :
    store.after .vain = { store with sequence := store.sequence.advance, outbox := .empty } := by
  obtain ⟨outbox, served⟩ := spacious.serve_vain
  change { (store.serve .vain).2 with outbox := .empty } = _
  rw [served]

end Spacious

theorem calm_vain {next : UInt64} {requests : List Request}
    (calm : (singleAt (next + 1)).Calm requests) : (singleAt next).Calm (.vain :: requests) := by
  have spacious := spacious_single next single.budget.limit
  obtain ⟨outbox, served⟩ := spacious.serve_vain
  obtain ⟨outboxToo, tried⟩ := (spacious_single next 0xFFFFFFFFFFFFFFFF).serve_vain
  have after : (singleAt next).after .vain = singleAt (next + 1) := spacious.after_vain
  refine ⟨?_, ?_, after.symm ▸ calm⟩
  · rw [show (singleAt next).serve .vain = _ from served]
    rfl
  · rw [peak, show (singleAt next).unlimited.serve .vain = _ from tried]
    exact Nat.zero_le _

theorem calm_replicate_vain {count : Nat} {next : UInt64} {requests : List Request}
    (calm : (singleAt (next + .ofNat count)).Calm requests) :
    (singleAt next).Calm (List.replicate count .vain ++ requests) := by
  induction count generalizing next with
  | zero => simpa using calm
  | succ count ih =>
    rw [List.replicate_succ, List.cons_append]
    exact calm_vain (ih (add_ofNat_succ next count ▸ calm))

end Store

namespace World

variable {world other : World} {queue : QueueKey}

/-- What is answered hangs on the store alone. -/
theorem answers_run_congr (store : world.store = other.store)
    (same : world.answers queue = other.answers queue) (requests : List Request) :
    (world.run (requests.map .ask)).answers queue =
      (other.run (requests.map .ask)).answers queue := by
  induction requests generalizing world other with
  | nil => exact same
  | cons request requests ih =>
    rw [List.map_cons, run_ask, run_ask]
    refine ih ?_ ?_
    · change world.store.after request = other.store.after request
      rw [store]
    · rw [answers_ask, answers_ask, same, store]

/-- However often something is added in vain, numbers are drawn, and that is all. -/
theorem store_run_vain {bucket : Bucket} (spacious : world.store.Spacious bucket)
    (settled : world.store.outbox = .empty) (count : Nat) :
    (world.run (List.replicate count (.ask .vain))).store =
      { world.store with
        sequence := ⟨world.store.sequence.next + .ofNat count⟩
        outbox := .empty } := by
  induction count generalizing world with
  | zero => simp [run, ← settled]
  | succ count ih =>
    have after : (world.ask .vain).store =
        { world.store with sequence := world.store.sequence.advance, outbox := .empty } :=
      spacious.after_vain
    have again : (world.ask .vain).store.Spacious bucket :=
      after ▸ ⟨spacious.opened, spacious.agrees, spacious.bare⟩
    have rest := ih again (congrArg Store.outbox after)
    rw [after] at rest
    rw [add_ofNat_succ]
    exact rest

theorem answers_run_vain {count : Nat} {next : UInt64} (begun : world.store = .singleAt next)
    (store : other.store = .singleAt (next + .ofNat count))
    (same : world.answers .client = other.answers .client) (requests : List Request) :
    (world.run ((List.replicate count Request.vain ++ requests).map .ask)).answers .client =
      (other.run (requests.map .ask)).answers .client := by
  induction count generalizing world next with
  | zero =>
    refine answers_run_congr (begun.trans (store.trans ?_).symm) same requests
    simp
  | succ count ih =>
    rw [List.replicate_succ, List.cons_append, List.map_cons, run_ask]
    have after : (world.ask .vain).store = .singleAt (next + 1) := by
      change world.store.after .vain = _
      rw [begun]
      exact (Store.spacious_single next Store.single.budget.limit).after_vain
    refine ih after (store.trans (by rw [add_ofNat_succ])) ?_
    rw [answers_ask, if_neg (by decide), List.append_nil, same]

/-- Every number is the next one of some run that leaves nothing behind. -/
theorem exists_run_singleAt (next : UInt64) :
    ∃ events, ((start .single .empty).run events).store = .singleAt next := by
  have begun : (start .single .empty).store = .singleAt Sequence.start := rfl
  have spacious : (start Store.single .empty).store.Spacious Store.fresh :=
    Store.spacious_single Sequence.start Store.single.budget.limit
  refine ⟨_, (store_run_vain spacious rfl (next - Sequence.start).toNat).trans ?_⟩
  rw [begun, UInt64.ofNat_toNat, UInt64.add_comm]
  exact congrArg Store.singleAt (UInt64.sub_add_cancel _ _)

/-- A client adds a message before the numbers start again at zero, and another after that. -/
def astride : List Request :=
  [.add .client (.publish (.ofQos .atLeastOnce "u1" 1)) 10 .discard 0,
    .add ⟨"b", false⟩ (.publish (.ofQos .atLeastOnce "u2" 2)) 10 .discard 0,
    .add .client (.publish (.ofQos .atLeastOnce "u3" 3)) 10 .discard 0,
    .readNew .client [1, 2] 1000 0 0]

/-- The messages that were handed out, in their order. -/
def handed (history : List (Request × Answer)) : List String :=
  history.flatMap fun h =>
    match h.2 with
    | .messages (.ok messages) => messages.map Publish.uniqueId
    | _ => []

/-- Queues do interfere where the numbers start again at zero: another client that adds in vain for
long enough turns the order of a queue around. -/
theorem queues_interfere : ¬ ∀ (settings : Settings) (disk : Disk) (store : Store)
    (payloads : Payloads) (queue : QueueKey) (requests : List Request),
    Store.inMemory settings disk = .ok store →
      (∀ request ∈ requests, request.queue?.isSome) → store.Calm requests →
        ((start store payloads).run (requests.map .ask)).answers queue =
          ((start store payloads).run
            ((requests.filter fun request => request.queue? = some queue).map .ask)).history := by
  intro always
  -- the number of requests in vain is nothing to compute with
  obtain ⟨count, last⟩ : ∃ count : Nat,
      Sequence.start + .ofNat count = 0xFFFFFFFFFFFFFFFE := ⟨2 ^ 63 - 1, by decide⟩
  have addressed : ∀ request ∈ List.replicate count Request.vain ++ astride,
      request.queue?.isSome := by
    intro request member
    rcases List.mem_append.mp member with member | member
    · rw [List.eq_of_mem_replicate member]
      rfl
    · exact (by decide : ∀ request ∈ astride, request.queue?.isSome) request member
  have calm : (Store.singleAt Sequence.start).Calm (List.replicate count .vain ++ astride) := by
    refine Store.calm_replicate_vain ?_
    rw [last]
    decide +kernel
  have same := always .single .empty .single .empty .client _ Store.inMemory_single addressed calm
  have begun : (start Store.single .empty).store = .singleAt Sequence.start := rfl
  have ended : (start (.singleAt 0xFFFFFFFFFFFFFFFE) .empty).store =
      .singleAt (Sequence.start + .ofNat count) := by rw [last]; rfl
  rw [answers_run_vain begun ended rfl, List.filter_append,
    List.filter_replicate_of_neg (by decide), List.nil_append] at same
  exact absurd (congrArg handed same) (by decide +kernel)

end World

end DeliveryQueue
