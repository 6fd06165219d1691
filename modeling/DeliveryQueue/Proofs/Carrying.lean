import DeliveryQueue.Proofs.Serving

/-!
Carrying out plans over journals of any kind. A commit is refused, by the encoding or by the
journal, and then changes nothing but the journal (`Store.carryOut_of_refused`), or all of its
changes are made (`Store.carryOut_of_accepted`). What carries a store from plan to plan is
`Store.Fit`: buckets that are coherent, a budget that is exact, and a next number that is above all
others.
-/
namespace DeliveryQueue

/-! Journals -/

namespace FileJournal

/-- The twin is on the same device, and is not due for a flush before the journal is, unless
flushing does not fail there. -/
structure Willing (log twin : FileJournal) : Prop where
  readOnly : twin.readOnly = log.readOnly
  device : twin.device = log.device
  later : log.device.failFlushes ≠ 0 → twin.policy = log.policy ∧
    twin.lastFlush = log.lastFlush ∧ twin.unflushed ≤ log.unflushed

namespace Willing

variable {log twin after afterToo : FileJournal} {batch same record other : Bytes}

theorem refl (log : FileJournal) : Willing log log :=
  ⟨rfl, rfl, fun _ => ⟨rfl, rfl, Nat.le_refl _⟩⟩

/-- Behind one record more each, the twin is not due any sooner either. -/
theorem flushDue (willing : Willing log twin) (fails : log.device.failFlushes ≠ 0)
    (due : (twin.pass other).flushDue = true) : (log.pass record).flushDue = true := by
  obtain ⟨policy, lastFlush, fewer⟩ := willing.later fails
  simp only [FileJournal.flushDue, pass, policy, lastFlush, willing.device, Bool.or_eq_true]
    at due ⊢
  refine due.imp_left fun every => ?_
  obtain ⟨count, counts, reached⟩ := Option.any_eq_true _ _ |>.mp every
  refine (Option.any_eq_true _ _).mpr ⟨count, counts, decide_eq_true ?_⟩
  have reached := of_decide_eq_true reached
  omega

theorem takes (willing : Willing log twin) (takes : log.Takes batch)
    (length : same.length = batch.length) : twin.Takes same where
  writable := willing.readOnly.trans takes.writable
  light := length ▸ takes.light
  whole := (congrArg Device.tears willing.device).trans takes.whole
  flushes due := by
    have device : twin.device.failFlushes = log.device.failFlushes :=
      congrArg Device.failFlushes willing.device
    refine device.trans (Decidable.byContradiction fun fails => fails ?_)
    exact takes.flushes (willing.flushDue fails due)

/-- The twin stays willing as both take a record. -/
theorem passed (willing : Willing log twin) (passed : log.Passed record after)
    (passedToo : twin.Passed other afterToo) : Willing after afterToo := by
  obtain ⟨⟨_, _, frame⟩, flushes⟩ := passed
  obtain ⟨⟨_, _, frameToo⟩, flushesToo⟩ := passedToo
  have device : after.device = log.device := by rw [frame]; rfl
  refine ⟨?_, ?_, fun fails => ?_⟩
  · rw [frame, frameToo]
    exact willing.readOnly
  · rw [frame, frameToo]
    exact willing.device
  · rw [device] at fails
    obtain ⟨policy, lastFlush, fewer⟩ := willing.later fails
    rw [flushes fails, flushesToo (willing.device ▸ fails)]
    exact ⟨policy, lastFlush, Nat.succ_le_succ fewer⟩

/-- The twin stays willing as the journal takes more. -/
theorem passed_left (willing : Willing log twin) (passed : log.Passed record after) :
    Willing after twin := by
  obtain ⟨⟨_, _, frame⟩, flushes⟩ := passed
  have device : after.device = log.device := by rw [frame]; rfl
  refine ⟨?_, ?_, fun fails => ?_⟩
  · rw [frame]
    exact willing.readOnly
  · rw [frame]
    exact willing.device
  · rw [device] at fails
    obtain ⟨policy, lastFlush, fewer⟩ := willing.later fails
    rw [flushes fails]
    exact ⟨policy, lastFlush, Nat.le_succ_of_le fewer⟩

end Willing

end FileJournal

namespace Journal

/-- Whether a journal takes a batch is not up to the disk, and neither is what becomes of it. -/
theorem append_anywhere (journal : Journal) (disk other : Disk) (batch : Bytes) :
    (journal.append disk batch).answer = (journal.append other batch).answer ∧
      (journal.append disk batch).journal = (journal.append other batch).journal := by
  cases journal with
  | memory log => cases taken : log.append batch <;> simp [append, taken]
  | file log =>
    by_cases readOnly : log.readOnly = true
    · simp [append, FileJournal.append, readOnly]
    by_cases heavy : UInt32.size ≤ batch.length
    · simp [append, FileJournal.append, readOnly, heavy]
    cases tears : log.device.tears with
    | none => simp [append, FileJournal.append, readOnly, heavy, Device.write, tears]
    | some count =>
      by_cases cuts : log.device.failCuts = true <;>
        simp [append, FileJournal.append, readOnly, heavy, Device.write, tears,
          FileJournal.cutBack, cuts]

/-- The twin takes every batch that the journal takes. -/
inductive Willing : Journal → Journal → Prop
  | memory {log twin : MemoryJournal} (fails : twin.failAppends = log.failAppends)
      (capacity : twin.capacity = log.capacity)
      (fewer : twin.batches.length ≤ log.batches.length) : Willing (.memory log) (.memory twin)
  | file {log twin : FileJournal} (willing : log.Willing twin) :
      Willing (.file log) (.file twin)

namespace Willing

variable {journal twin : Journal} {disk : Disk} {batch : Bytes}

theorem refl (journal : Journal) : Willing journal journal := by
  cases journal with
  | memory log => exact .memory rfl rfl (Nat.le_refl _)
  | file log => exact .file (.refl log)

/-- A journal in memory that holds fewer batches is not full either. -/
theorem isFull_of_fewer {log twin : MemoryJournal} (capacity : twin.capacity = log.capacity)
    (fewer : twin.batches.length ≤ log.batches.length) (room : log.isFull = false) :
    twin.isFull = false := by
  unfold MemoryJournal.isFull at room ⊢
  rw [capacity]
  cases most : log.capacity with
  | none => rfl
  | some most' =>
    rw [most] at room
    simp only [Option.any_some, decide_eq_false_iff_not] at room ⊢
    omega

/-- The twin takes a batch of the same length, and stays willing. -/
theorem append (willing : Willing journal twin)
    (taken : (journal.append disk batch).answer = .ok ()) (other : Disk) {same : Bytes}
    (length : same.length = batch.length) :
    (twin.append other same).answer = .ok () ∧
      Willing (journal.append disk batch).journal (twin.append other same).journal := by
  cases willing with
  | @memory log twin fails capacity fewer =>
    by_cases refuses : log.failAppends || log.isFull
    · simp [Journal.append, MemoryJournal.append, refuses] at taken
    · obtain ⟨works, room⟩ := Bool.or_eq_false_iff.mp (Bool.not_eq_true _ ▸ refuses)
      have roomToo := isFull_of_fewer capacity fewer room
      have worksToo := fails.trans works
      simp only [Journal.append, MemoryJournal.append, works, room, worksToo, roomToo]
      exact ⟨rfl, .memory rfl capacity (by simpa using fewer)⟩
  | @file log twin willing =>
    have takes := FileJournal.takes_of_append taken
    obtain ⟨after, passed, done⟩ := FileJournal.append_of_takes takes disk
    obtain ⟨afterToo, passedToo, doneToo⟩ :=
      FileJournal.append_of_takes (willing.takes takes length) other
    simp only [Journal.append, done, doneToo, true_and]
    exact .file (willing.passed passed passedToo)

/-- The twin stays willing as the journal takes more. -/
theorem append_left (willing : Willing journal twin)
    (taken : (journal.append disk batch).answer = .ok ()) :
    Willing (journal.append disk batch).journal twin := by
  cases willing with
  | @memory log twin fails capacity fewer =>
    by_cases refuses : log.failAppends || log.isFull
    · simp [Journal.append, MemoryJournal.append, refuses] at taken
    · simp only [Journal.append, MemoryJournal.append, refuses]
      refine .memory fails capacity ?_
      simp only [List.length_append]
      omega
  | @file log twin willing =>
    obtain ⟨after, passed, done⟩ :=
      FileJournal.append_of_takes (FileJournal.takes_of_append taken) disk
    simp only [Journal.append, done]
    exact .file (willing.passed_left passed)

end Willing

end Journal

/-- A fault of a journal, as opposed to one of a store or of what it was given. -/
def StorageFault.ofJournal : StorageFault → Bool
  | io _ | readOnly | corruption (.record _) => true
  | _ => false

/-- The answer reports that a journal failed. -/
def Answer.journalFailed (answer : Answer) : Bool :=
  match answer.fault? with
  | some (.storage fault) => fault.ofJournal
  | _ => false

theorem Journal.ofJournal_append {journal : Journal} {disk : Disk} {batch : Bytes}
    {fault : StorageFault} (failed : (journal.append disk batch).answer = .error fault) :
    fault.ofJournal = true := by
  cases journal with
  | memory log =>
    by_cases refuses : log.failAppends || log.isFull
    · simp only [append, MemoryJournal.append, refuses] at failed
      cases failed
      rfl
    · simp [append, MemoryJournal.append, refuses] at failed
  | file log =>
    have failed : (log.append disk batch).1 = .error fault := failed
    have appends := log.appends_append disk batch
    generalize log.append disk batch = done at appends failed
    cases appends with
    | locked | heavy | torn =>
      cases failed
      rfl
    | written _ _ _ flush =>
      obtain ⟨rfl, -⟩ :=
        FileJournal.flushIfDue_eq_error ((congrArg Prod.fst flush).trans failed)
      rfl

theorem Journal.Refused.eq_of_calm {journal after : Journal} {disk left : Disk}
    {changes : List Change} {fault : StorageFault}
    (refused : journal.Refused disk changes fault after left) (calm : fault.ofJournal = false) :
    after = journal ∧ left = disk := by
  cases refused with
  | encoding => exact ⟨rfl, rfl⟩
  | append _ failed =>
    cases calm.symm.trans (ofJournal_append (congrArg Outcome.answer failed))

/-! Commits -/

namespace Bucket

variable {bucket : Bucket} {changes : List Change} {fault : StorageFault}

/-- Why a bucket does not commit changes, if it does not. -/
def refusal? (bucket : Bucket) (changes : List Change) : Option StorageFault :=
  if changes.isEmpty then none
  else
    match Batch.encode changes with
    | .error fault => some (.corruption (.batch fault))
    | .ok batch =>
      match (bucket.journal.append .empty batch).answer with
      | .error fault => some fault
      | .ok () => none

/-- The journal once changes were committed. -/
def written (bucket : Bucket) (changes : List Change) : Journal :=
  if changes.isEmpty then bucket.journal
  else (bucket.journal.append .empty (Batch.bytes changes)).journal

theorem commit_of_refusal?_eq_some (refused : bucket.refusal? changes = some fault)
    (budget : Budget) (disk : Disk) :
    ∃ journal left, bucket.journal.Refused disk changes fault journal left ∧
      bucket.commit budget disk changes =
        ⟨.error ⟨fault, changes.filterMap Change.inserted?⟩, { bucket with journal }, budget,
          left⟩ := by
  have failed : ∃ rejection : Rejection, rejection.fault = fault ∧
      (bucket.commit budget disk changes).answer = .error rejection := by
    unfold refusal? at refused
    unfold commit
    by_cases idle : changes.isEmpty = true
    · simp [idle] at refused
    · rw [if_neg idle] at refused ⊢
      cases encoded : Batch.encode changes with
      | error fault =>
        rw [encoded] at refused
        cases refused
        exact ⟨_, rfl, rfl⟩
      | ok batch =>
        have same := (bucket.journal.append_anywhere .empty disk batch).1
        rw [encoded] at refused
        dsimp only at refused ⊢
        rw [same] at refused
        cases answer : (bucket.journal.append disk batch).answer with
        | error fault =>
          rw [answer] at refused
          cases refused
          exact ⟨_, rfl, rfl⟩
        | ok =>
          rw [answer] at refused
          cases refused
  obtain ⟨rejection, rfl, answer⟩ := failed
  exact commit_of_error answer

/-- Where nothing fails on the device, refused changes leave all as it is. -/
theorem commit_of_refusal?_of_sound (sound : bucket.journal.Sound)
    (refused : bucket.refusal? changes = some fault) (budget : Budget) (disk : Disk) :
    bucket.commit budget disk changes =
      ⟨.error ⟨fault, changes.filterMap Change.inserted?⟩, bucket, budget, disk⟩ := by
  obtain ⟨journal, left, told, failed⟩ := commit_of_refusal?_eq_some refused budget disk
  obtain ⟨rfl, rfl⟩ := told.eq_of_sound sound
  exact failed

theorem commit_of_refusal?_eq_none (taken : bucket.refusal? changes = none) (budget : Budget)
    (disk : Disk) :
    ∃ left, bucket.commit budget disk changes =
      ⟨.ok (Change.displacedAll bucket.entries changes),
        ({ bucket with journal := bucket.written changes }.applyAll budget changes).1,
        ({ bucket with journal := bucket.written changes }.applyAll budget changes).2.1, left⟩ := by
  unfold refusal? at taken
  unfold commit written
  by_cases idle : changes.isEmpty = true
  · refine ⟨disk, ?_⟩
    rw [if_pos idle, if_pos idle, List.isEmpty_iff.mp idle]
    rfl
  · rw [if_neg idle] at taken ⊢
    cases encoded : Batch.encode changes with
    | error fault =>
      rw [encoded] at taken
      cases taken
    | ok batch =>
      obtain ⟨answer, journal⟩ := bucket.journal.append_anywhere .empty disk batch
      obtain ⟨_, rfl⟩ := Batch.encode_eq_ok_iff.mp encoded
      rw [encoded] at taken
      dsimp only at taken ⊢
      rw [if_neg idle, journal]
      rw [answer] at taken
      cases fine : (bucket.journal.append disk (Batch.bytes changes)).answer with
      | error fault =>
        rw [fine] at taken
        cases taken
      | ok =>
        have frame := applyAll_frame
          { bucket with journal := (bucket.journal.append disk (Batch.bytes changes)).journal }
          budget changes
        exact ⟨_, congrArg (Outcome.mk · _ _ _) (congrArg Except.ok frame.2.2.2)⟩

theorem Coherent.applyAll (coherent : bucket.Coherent) (journal : Journal) (budget : Budget)
    (lawful : Change.LawfulAlong bucket.entries changes) :
    ({ bucket with journal }.applyAll budget changes).1.Coherent where
  agrees := (coherent.agrees.withJournal journal).applyAll budget lawful
  sound := by
    rw [(applyAll_frame _ budget changes).1]
    exact lawful.sound coherent.sound

theorem limit_put (bucket : Bucket) (budget : Budget) (key : EntryKey) (after : Option Entry) :
    (bucket.put budget key after).2.limit = budget.limit := by
  have cleared : (bucket.detach budget key).2.1.limit = budget.limit := by
    cases found : bucket.entries.get? key with
    | none => rw [detach_of_get?_eq_none found]
    | some entry =>
      rw [detach_of_get?_eq_some found]
      cases entry.qos0Bytes? <;> rfl
  cases after with
  | none => exact cleared
  | some entry =>
    simp only [put, occupy_eq]
    cases entry.qos0Bytes? <;> exact cleared

theorem limit_applyAll (bucket : Bucket) (budget : Budget) (changes : List Change) :
    (bucket.applyAll budget changes).2.1.limit = budget.limit := by
  induction changes generalizing bucket budget with
  | nil => rfl
  | cons change changes ih =>
    have first : (bucket.apply budget change).2.1.limit = budget.limit := by
      rw [apply_eq]
      exact limit_put bucket budget _ _
    exact (ih _ _).trans first

variable {budget : Budget} {base : Nat}

/-- The budget follows a message that takes its place and that of an older one. -/
theorem used_arrival (exact : budget.used.toNat = base + bucket.entries.weight)
    (evicted : Option EntryKey) (key : EntryKey) (message : Publish) :
    (bucket.applyAll budget (Store.arrival evicted key message)).2.1.used.toNat =
      (base + (Change.actAll bucket.entries (Store.arrival evicted key message)).weight) %
        UInt64.size := by
  cases evicted with
  | none =>
    simp only [Store.arrival, Option.map_none, Option.toList_none, List.nil_append, applyAll,
      apply_eq, Change.actAll_cons, Change.actAll_nil]
    exact used_put_mod _ exact _
  | some old =>
    have cleared := used_detach exact old
    rw [← entries_detach bucket budget old] at cleared
    simp only [Store.arrival, Option.map_some, Option.toList_some, List.singleton_append, applyAll]
    rw [apply_eq, apply_eq]
    have rest := used_put_mod key cleared (some (.publish (.ofPublish message)))
    rw [entries_detach] at rest
    exact rest

end Bucket

/-- The budget follows the changes, around the end of its range. -/
def Change.Tallied (entries : Entries) (changes : List Change) : Prop :=
  ∀ ⦃bucket : Bucket⦄ ⦃budget : Budget⦄ ⦃base : Nat⦄, bucket.entries = entries →
    budget.used.toNat = base + entries.weight →
      (bucket.applyAll budget changes).2.1.used.toNat =
        (base + (actAll entries changes).weight) % UInt64.size

theorem Change.tallied_of_load {entries : Entries} {changes : List Change}
    (lawful : LawfulAlong entries changes) (nothing : (changes.map load).sum = 0) :
    Tallied entries changes := by
  rintro bucket budget base rfl exact
  have bound : base + bucket.entries.weight < UInt64.size := exact ▸ budget.used.toNat_lt
  have used := Bucket.used_applyAll lawful exact (by rw [nothing]; exact bound)
  rw [← used, Nat.mod_eq_of_lt (UInt64.toNat_lt_size _)]

theorem Plan.Fits.tallied {entries : Entries} {queue : QueueKey} {next : EntryKey} {plan : Plan}
    (fits : plan.Fits entries queue next) (sound : Sound entries) (its : next.queue = queue) :
    Change.Tallied entries plan.changes := by
  have lawful := fits.lawful sound its
  cases fits with
  | edits answer edits => exact Change.tallied_of_load lawful edits.load
  | pubrel answer free => exact Change.tallied_of_load lawful rfl
  | message message answer stored =>
    rintro bucket budget base rfl exact
    exact Bucket.used_arrival exact _ next message

namespace Store

variable {store after : Store} {index number : Nat} {bucket new : Bucket} {queue : QueueKey}
variable {plan : Plan} {fault : StorageFault}

/-- The store once a plan was carried out, but for what the disk, the counters and the outbox tell
of it. -/
def carried (store : Store) (index : Nat) (bucket : Bucket) (plan : Plan) : Store :=
  let done := { bucket with journal := bucket.written plan.changes }.applyAll store.budget
    plan.changes
  { store with
    sequence := if plan.draws then store.sequence.advance else store.sequence
    buckets := store.buckets.setIfInBounds index done.1
    budget := done.2.1 }

theorem carryOut_of_refused (store : Store) (index : Nat)
    (refused : bucket.refusal? plan.changes = some fault) :
    ∃ journal left outbox, bucket.journal.Refused store.disk plan.changes fault journal left ∧
      store.carryOut index bucket plan = (.error (.storage fault), { store with
        sequence := if plan.draws then store.sequence.advance else store.sequence
        buckets := store.buckets.setIfInBounds index { bucket with journal }
        disk := left
        outbox }) := by
  obtain ⟨journal, left, told, failed⟩ :=
    Bucket.commit_of_refusal?_eq_some refused store.budget store.disk
  simp only [carryOut, commit, failed]
  exact ⟨journal, left, _, told, rfl⟩

theorem carryOut_of_accepted (store : Store) (index : Nat)
    (taken : bucket.refusal? plan.changes = none) :
    ∃ disk outbox, store.carryOut index bucket plan =
      (.ok (), { store.carried index bucket plan with disk, outbox }) := by
  obtain ⟨left, committed⟩ := Bucket.commit_of_refusal?_eq_none taken store.budget store.disk
  simp only [carryOut, commit, committed]
  exact ⟨_, _, rfl⟩

/-- The bytes of the messages of QoS 0 that wait in a store. -/
def qos0Bytes (store : Store) : Nat := store.total fun bucket => bucket.entries.weight

/-- What a store needs to go on: its buckets are coherent, its budget is exact, and the next number,
which may just have come back to zero, is above all that are stored. -/
structure Fit (store : Store) (number : Nat) : Prop where
  coherent : ∀ ⦃i : Nat⦄ ⦃b : Bucket⦄, store.buckets[i]? = some b → b.Coherent
  exact : store.budget.used.toNat = store.qos0Bytes
  next : store.sequence.next = UInt64.ofNat number
  under : ∀ ⦃i : Nat⦄ ⦃b : Bucket⦄, store.buckets[i]? = some b →
    ∀ ⦃key entry⦄, b.entries.get? key = some entry → key.sequence.toNat < number

/-- What waits once a plan was carried out. -/
theorem qos0Bytes_carried (store : Store) (found : store.buckets[index]? = some bucket)
    (plan : Plan) :
    (store.carried index bucket plan).qos0Bytes + bucket.entries.weight =
      store.qos0Bytes + (Change.actAll bucket.entries plan.changes).weight := by
  have weights := total_set found (store.carried index bucket plan) rfl
    fun bucket => bucket.entries.weight
  rw [(Bucket.applyAll_frame _ _ plan.changes).1] at weights
  exact weights

/-- The budget is the weight of this bucket and that of all others. -/
theorem used_carried (exact : store.budget.used.toNat = store.qos0Bytes)
    (found : store.buckets[index]? = some bucket)
    (tallied : Change.Tallied bucket.entries plan.changes) :
    (store.carried index bucket plan).budget.used.toNat =
      (store.carried index bucket plan).qos0Bytes % UInt64.size := by
  have weights := qos0Bytes_carried store found plan
  have share : bucket.entries.weight ≤ store.qos0Bytes :=
    le_total found fun bucket => bucket.entries.weight
  have split : store.budget.used.toNat =
      store.qos0Bytes - bucket.entries.weight + bucket.entries.weight := by omega
  have follows : (store.carried index bucket plan).budget.used.toNat =
      (store.qos0Bytes - bucket.entries.weight +
        (Change.actAll bucket.entries plan.changes).weight) % UInt64.size := tallied rfl split
  rw [follows]
  congr 1
  omega

namespace Fit

variable (fit : store.Fit number)
include fit

theorem next_draw (draws : Bool) :
    (if draws then store.sequence.advance else store.sequence).next =
      UInt64.ofNat (number + draws.toNat) := by
  cases draws with
  | false => exact fit.next
  | true =>
    simp only [if_true, Sequence.advance, fit.next]
    exact (UInt64.ofNat_add number 1).symm

/-- A number that was drawn is gone, whatever came of it. -/
theorem draw (draws : Bool) (outbox : Outbox) :
    { store with
      sequence := if draws then store.sequence.advance else store.sequence
      outbox }.Fit (number + draws.toNat) where
  coherent := fit.coherent
  exact := fit.exact
  next := fit.next_draw draws
  under _ _ found _ _ stored := Nat.lt_add_right _ (fit.under found stored)

theorem beside (stats : Stats) (disk : Disk) (outbox : Outbox) :
    { store with stats, disk, outbox }.Fit number :=
  ⟨fit.coherent, fit.exact, fit.next, fit.under⟩

section Carried
variable (found : store.buckets[index]? = some bucket)
  (fits : plan.Fits bucket.entries queue ⟨queue, store.sequence.next⟩)
  (light : (store.carried index bucket plan).qos0Bytes < UInt64.size)
include found fits light

theorem exact_carried : (store.carried index bucket plan).budget.used.toNat =
    (store.carried index bucket plan).qos0Bytes :=
  (used_carried fit.exact found (fits.tallied (fit.coherent found).sound rfl)).trans
    (Nat.mod_eq_of_lt light)

/-- A plan that is carried out leaves all as it has to be. -/
theorem carried (room : plan.draws = true → number < UInt64.size) :
    (store.carried index bucket plan).Fit (number + plan.draws.toNat) := by
  have its := fit.coherent found
  have lawful := fits.lawful its.sound rfl
  constructor
  · exact forall_set fit.coherent (its.applyAll _ store.budget lawful)
  · exact fit.exact_carried found fits light
  · exact fit.next_draw plan.draws
  · refine forall_set (fun i b there key entry stored =>
      Nat.lt_add_right _ (fit.under there stored)) ?_
    intro key entry stored
    rw [(Bucket.applyAll_frame _ store.budget plan.changes).1] at stored
    rcases Change.mem_of_get?_actAll stored with before | ⟨change, member, rfl⟩
    · exact Nat.lt_add_right _ (fit.under found before)
    · rcases fits.keys change member with ⟨draws, last⟩ | ⟨_, _, before⟩
      · rw [last, fit.next, draws, UInt64.toNat_ofNat_of_lt' (room draws)]
        exact Nat.lt_succ_self number
      · exact Nat.lt_add_right _ (fit.under found before)

end Carried

end Fit

/-! Requests -/

/-- What is answered and what is left when a request about a queue is served within the budget:
its changes are refused, or they are made. -/
inductive Serves (store : Store) (bucket : Bucket) (request : Request) (plan : Plan) :
    Answer × Store → Prop
  | refused {fault : StorageFault} {journal : Journal} {left : Disk}
      (refused : bucket.refusal? plan.changes = some fault)
      (told : bucket.journal.Refused store.disk plan.changes fault journal left)
      (outbox : Outbox) :
      Serves store bucket request plan (request.refusal (.storage fault), { store with
        sequence := if plan.draws then store.sequence.advance else store.sequence
        buckets := store.buckets.setIfInBounds request.index { bucket with journal }
        disk := left
        outbox })
  | served (taken : bucket.refusal? plan.changes = none) (stats : Stats) (disk : Disk)
      (outbox : Outbox) :
      Serves store bucket request plan
        (plan.answer, { store.carried request.index bucket plan with stats, disk, outbox })

theorem serves_of_room {request : Request} (opened : store.bucket request.index = .ok bucket)
    (agrees : bucket.Agrees) (its : request.queue? = some queue)
    (planned : request.plan store.settings.overflow (bucket.queueEntries queue)
      ⟨queue, store.sequence.next⟩ = plan)
    (room : bucket.refusal? plan.changes = none →
      (store.carried request.index bucket plan).budget.exceeded = false) :
    Serves store bucket request plan (store.serve request) := by
  have found := getElem?_of_bucket opened
  cases taken : bucket.refusal? plan.changes with
  | some fault =>
    obtain ⟨journal, left, outbox, told, failed⟩ := carryOut_of_refused store request.index taken
    have follows := follows_serve opened agrees its (by
      rw [planned]
      intro after done
      cases failed.symm.trans done)
    rw [planned] at follows
    generalize store.serve request = served at follows ⊢
    cases follows with
    | fails again =>
      cases failed.symm.trans again
      exact .refused taken told outbox
    | works done => cases failed.symm.trans done
  | none =>
    obtain ⟨disk, outbox, done⟩ := carryOut_of_accepted store request.index taken
    have follows := follows_serve opened agrees its (by
      rw [planned]
      intro after again
      cases done.symm.trans again
      exact room taken)
    rw [planned] at follows
    generalize store.serve request = served at follows ⊢
    cases follows with
    | fails failed => cases done.symm.trans failed
    | works again stats outbox =>
      cases done.symm.trans again
      exact .served taken stats disk outbox

/-- A request whose changes are refused draws its number all the same. -/
theorem serve_of_refused {request : Request} (opened : store.bucket request.index = .ok bucket)
    (agrees : bucket.Agrees) (its : request.queue? = some queue)
    (planned : request.plan store.settings.overflow (bucket.queueEntries queue)
      ⟨queue, store.sequence.next⟩ = plan)
    (refused : bucket.refusal? plan.changes = some fault) :
    ∃ journal left outbox, bucket.journal.Refused store.disk plan.changes fault journal left ∧
      store.serve request = (request.refusal (.storage fault), { store with
        sequence := if plan.draws then store.sequence.advance else store.sequence
        buckets := store.buckets.setIfInBounds request.index { bucket with journal }
        disk := left
        outbox }) := by
  have serves := serves_of_room opened agrees its planned fun taken => by
    cases refused.symm.trans taken
  generalize store.serve request = served at serves ⊢
  cases serves with
  | refused again told outbox =>
    cases again.symm.trans refused
    exact ⟨_, _, outbox, told, rfl⟩
  | served taken => cases taken.symm.trans refused

/-- The store with a budget that nothing exceeds. -/
def unlimited (store : Store) : Store := { store with budget.limit := 0xFFFFFFFFFFFFFFFF }

/-- The bytes of QoS 0 that wait once a request is served, before any message is dropped to keep the
budget. -/
def peak (store : Store) (request : Request) : Nat :=
  (store.unlimited.serve request).2.qos0Bytes

/-- Within the budget, a request is served as planned. -/
theorem Fit.serves {request : Request} (fit : store.Fit number)
    (opened : store.bucket request.index = .ok bucket) (its : request.queue? = some queue)
    (planned : request.plan store.settings.overflow (bucket.queueEntries queue)
      ⟨queue, store.sequence.next⟩ = plan)
    (light : bucket.refusal? plan.changes = none →
      (store.carried request.index bucket plan).qos0Bytes ≤ store.budget.limit.toNat) :
    Serves store bucket request plan (store.serve request) := by
  have found := getElem?_of_bucket opened
  have coherent := fit.coherent found
  refine serves_of_room opened coherent.agrees its planned ?_
  intro taken
  have fits : plan.Fits bucket.entries queue ⟨queue, store.sequence.next⟩ :=
    planned ▸ coherent.fits _ its
  have below := light taken
  have exact := fit.exact_carried found fits (Nat.lt_of_le_of_lt below (UInt64.toNat_lt_size _))
  have limit : (store.carried request.index bucket plan).budget.limit = store.budget.limit :=
    Bucket.limit_applyAll _ _ _
  rw [Budget.exceeded, decide_eq_false_iff_not, UInt64.lt_iff_toNat_lt, limit]
  omega

theorem peak_of_accepted {request : Request} (coherent : bucket.Coherent)
    (opened : store.bucket request.index = .ok bucket) (its : request.queue? = some queue)
    (planned : request.plan store.settings.overflow (bucket.queueEntries queue)
      ⟨queue, store.sequence.next⟩ = plan)
    (taken : bucket.refusal? plan.changes = none) :
    store.peak request = (store.carried request.index bucket plan).qos0Bytes := by
  have found := getElem?_of_bucket opened
  have limit : (store.unlimited.carried request.index bucket plan).budget.limit =
      0xFFFFFFFFFFFFFFFF := Bucket.limit_applyAll _ _ _
  have serves : Serves store.unlimited bucket request plan (store.unlimited.serve request) := by
    refine serves_of_room opened coherent.agrees its planned fun _ => ?_
    rw [Budget.exceeded, decide_eq_false_iff_not, limit, UInt64.lt_iff_toNat_lt]
    exact Nat.not_lt.mpr (Nat.le_of_lt_succ (UInt64.toNat_lt _))
  have weights := qos0Bytes_carried store found plan
  have same : (store.unlimited.carried request.index bucket plan).qos0Bytes +
      bucket.entries.weight =
        store.qos0Bytes + (Change.actAll bucket.entries plan.changes).weight :=
    qos0Bytes_carried store.unlimited found plan
  unfold peak
  generalize store.unlimited.serve request = served at serves
  cases serves with
  | refused refused => cases refused.symm.trans taken
  | served _ stats disk outbox =>
    change (store.unlimited.carried request.index bucket plan).qos0Bytes = _
    omega

end Store

end DeliveryQueue
