import DeliveryQueue.Proofs.Carrying
import DeliveryQueue.Proofs.Renaming

/-!
The mirror of one queue: a store that holds what another holds of this queue, under other sequence
numbers in the same order, and nothing else (`Store.Mirrors`). A request about another queue does
not show in the mirror (`Store.Mirrors.aside`), and a request about the queue is answered by the
mirror as by the store (`Store.Mirrors.along`), as long as the numbers do not run out, no journal
fails and the budget holds.
-/
namespace DeliveryQueue

/-! The entries of one queue -/

namespace Table

/-- The entries of one queue alone. -/
def only (entries : Entries) (queue : QueueKey) : Entries :=
  entries.filter fun key _ => key.queue = queue

variable {entries : Entries} {queue : QueueKey} {change : Change} {changes : List Change}

theorem get?_only (entries : Entries) (queue : QueueKey) (key : EntryKey) :
    (entries.only queue).get? key = if key.queue = queue then entries.get? key else none := by
  rw [only, get?_filter]
  by_cases its : key.queue = queue <;> cases entries.get? key <;> simp [its, Option.filter]

theorem only_act (its : change.key.queue = queue) :
    only (change.act entries) queue = change.act (only entries queue) := by
  apply ext_get?
  intro key
  rw [get?_only]
  by_cases same : key = change.key
  · subst same
    rw [if_pos its, Change.get?_act_self, Change.get?_act_self, get?_only, if_pos its]
  · rw [Change.get?_act_of_ne same, Change.get?_act_of_ne same, get?_only]

theorem only_act_of_ne (other : change.key.queue ≠ queue) :
    only (change.act entries) queue = only entries queue := by
  apply ext_get?
  intro key
  rw [get?_only, get?_only]
  split
  · rename_i its
    rw [Change.get?_act_of_ne]
    rintro rfl
    exact other its
  · rfl

theorem only_actAll (its : ∀ change ∈ changes, change.key.queue = queue) :
    only (Change.actAll entries changes) queue = Change.actAll (only entries queue) changes := by
  induction changes generalizing entries with
  | nil => rfl
  | cons change changes ih =>
    obtain ⟨first, others⟩ := List.forall_mem_cons.mp its
    rw [Change.actAll_cons, ih others, only_act first, Change.actAll_cons]

theorem only_actAll_of_ne (other : ∀ change ∈ changes, change.key.queue ≠ queue) :
    only (Change.actAll entries changes) queue = only entries queue := by
  induction changes generalizing entries with
  | nil => rfl
  | cons change changes ih =>
    obtain ⟨first, others⟩ := List.forall_mem_cons.mp other
    rw [Change.actAll_cons, ih others, only_act_of_ne first]

end Table

namespace Bucket

variable {f : UInt64 → UInt64} {queue : QueueKey} {bucket twin : Bucket} {changes : List Change}

/-- The twin holds what the bucket holds of one queue, under other sequence numbers, and nothing
else. Its journal is as willing as that of the bucket. -/
structure Mirrors (queue : QueueKey) (f : UInt64 → UInt64) (bucket twin : Bucket) : Prop where
  line : twin.entries.bindings = Line.renamed f (bucket.entries.only queue).bindings
  willing : bucket.journal.Willing twin.journal

/-- The twin holds no other queue. -/
theorem Mirrors.queueEntries (mirrors : bucket.Mirrors queue f twin) :
    twin.queueEntries queue = Line.renamed f (bucket.queueEntries queue) := by
  have whole : twin.queueEntries queue = twin.entries.bindings := by
    refine List.filter_eq_self.mpr ?_
    intro e member
    rw [mirrors.line] at member
    obtain ⟨before, listed, rfl⟩ := List.mem_map.mp member
    exact (List.mem_filter.mp listed).2
  exact whole.trans mirrors.line

/-- The twin weighs no more. -/
theorem Mirrors.weight_le (mirrors : bucket.Mirrors queue f twin) :
    twin.entries.weight ≤ bucket.entries.weight := by
  simp only [Table.weight, Table.total, mirrors.line, Line.renamed, List.map_map]
  exact (List.filter_sublist.map fun e : EntryKey × Entry => e.2.weight).sum_le_sum
    fun _ _ => Nat.zero_le _

/-- Changes that are written as a batch are taken if the journal takes the batch. -/
theorem refusal?_of_fits (busy : changes.isEmpty = false)
    (short : Batch.Fits (changes.flatMap Batch.changeTexts)) :
    bucket.refusal? changes =
      match (bucket.journal.append .empty (Batch.bytes changes)).answer with
      | .error fault => some fault
      | .ok () => none := by
  have encoded : Batch.encode changes = .ok (Batch.bytes changes) :=
    Batch.encode_eq_ok_iff.mpr ⟨short, rfl⟩
  simp only [refusal?, busy, encoded]
  rfl

/-- The twin takes changes at the other places, or refuses them for the same reason. -/
theorem refusal?_renamed (willing : bucket.journal.Willing twin.journal)
    (fine : ∀ fault, bucket.refusal? changes = some fault → fault.ofJournal = false) :
    twin.refusal? (changes.map (Change.renamed f)) = bucket.refusal? changes := by
  have empty : (changes.map (Change.renamed f)).isEmpty = changes.isEmpty := List.isEmpty_map
  cases idle : changes.isEmpty with
  | true => simp [refusal?, empty, idle]
  | false =>
    have texts := Batch.texts_renamed (f := f) changes
    cases long : Batch.overlong? (changes.flatMap Batch.changeTexts) with
    | some field => simp [refusal?, empty, idle, Batch.encode, texts, long]
    | none =>
      have short := Batch.overlong?_eq_none_iff.mp long
      rw [refusal?_of_fits idle short] at fine ⊢
      rw [refusal?_of_fits (empty.trans idle) (texts ▸ short)]
      cases answer : (bucket.journal.append .empty (Batch.bytes changes)).answer with
      | error fault =>
        rw [answer] at fine
        cases (fine fault rfl).symm.trans (Journal.ofJournal_append answer)
      | ok =>
        rw [(willing.append answer .empty (Batch.length_bytes_renamed changes)).1]

theorem append_of_accepted (busy : changes.isEmpty = false)
    (taken : bucket.refusal? changes = none) :
    (bucket.journal.append .empty (Batch.bytes changes)).answer = .ok () := by
  cases long : Batch.overlong? (changes.flatMap Batch.changeTexts) with
  | some field => simp [refusal?, busy, Batch.encode, long] at taken
  | none =>
    rw [refusal?_of_fits busy (Batch.overlong?_eq_none_iff.mp long)] at taken
    cases answer : (bucket.journal.append .empty (Batch.bytes changes)).answer with
    | error fault =>
      rw [answer] at taken
      cases taken
    | ok => rfl

theorem willing_written (willing : bucket.journal.Willing twin.journal)
    (taken : bucket.refusal? changes = none) :
    (bucket.written changes).Willing twin.journal ∧
      (bucket.written changes).Willing (twin.written (changes.map (Change.renamed f))) := by
  cases idle : changes.isEmpty with
  | true => simp [written, idle, willing]
  | false =>
    have answer := append_of_accepted idle taken
    simp only [written, List.isEmpty_map, idle]
    exact ⟨willing.append_left answer,
      (willing.append answer .empty (Batch.length_bytes_renamed changes)).2⟩

section Changes
variable {places : EntryKey → Prop} (mirrors : bucket.Mirrors queue f twin)
  (taken : bucket.refusal? changes = none)
include mirrors taken

/-- What is done to other queues does not show. -/
theorem Mirrors.aside (other : ∀ change ∈ changes, change.key.queue ≠ queue) (budget : Budget) :
    ({ bucket with journal := bucket.written changes }.applyAll budget changes).1.Mirrors queue f
      twin := by
  have frame := applyAll_frame { bucket with journal := bucket.written changes } budget changes
  constructor
  · rw [frame.1, Table.only_actAll_of_ne other]
    exact mirrors.line
  · rw [frame.2.1]
    exact (willing_written (f := f) mirrors.willing taken).1

/-- What is done to the queue is done to its mirror at the other places. -/
theorem Mirrors.along (its : ∀ change ∈ changes, change.key.queue = queue)
    (orders : Orders f places) (theirs : ∀ change ∈ changes, places change.key)
    (all : ∀ e ∈ bucket.queueEntries queue, places e.1) (budget budgetToo : Budget) :
    let twinChanges := changes.map (Change.renamed f)
    ({ bucket with journal := bucket.written changes }.applyAll budget changes).1.Mirrors queue f
      ({ twin with journal := twin.written twinChanges }.applyAll budgetToo twinChanges).1 := by
  intro twinChanges
  have frame := applyAll_frame { bucket with journal := bucket.written changes } budget changes
  have twinFrame := applyAll_frame { twin with journal := twin.written twinChanges } budgetToo
    twinChanges
  constructor
  · rw [frame.1, twinFrame.1, Table.only_actAll its]
    exact Change.actAll_renamed orders theirs all mirrors.line
  · rw [frame.2.1, twinFrame.2.1]
    exact (willing_written mirrors.willing taken).2

end Changes

end Bucket

/-! Mirrored stores -/

theorem EntryKey.compare_eq_lt {a b : EntryKey} (same : a.queue = b.queue)
    (below : a.sequence.toNat < b.sequence.toNat) : compare a b = .lt := by
  obtain ⟨queue, m⟩ := a
  obtain ⟨_, n⟩ := b
  cases same
  have order : compare m n = .lt := Std.compare_eq_lt.mpr (UInt64.lt_iff_toNat_lt.mpr below)
  simp [compare_def, compareLex, compareOn, order]

namespace Store

variable {store twin : Store} {queue : QueueKey} {f : UInt64 → UInt64} {number fewer index : Nat}

/-- An entry of the queue stands at this place. -/
def Holds (store : Store) (queue : QueueKey) (key : EntryKey) : Prop :=
  key.queue = queue ∧ ∃ (i : Nat) (bucket : Bucket) (entry : Entry),
    store.buckets[i]? = some bucket ∧ bucket.entries.get? key = some entry

/-- Each bucket of the one list is mirrored by that of the other. -/
structure Reflects (queue : QueueKey) (f : UInt64 → UInt64) (buckets twins : Array Bucket) :
    Prop where
  size : twins.size = buckets.size
  each : ∀ ⦃i : Nat⦄ ⦃b c : Bucket⦄, buckets[i]? = some b → twins[i]? = some c → b.Mirrors queue f c

namespace Reflects

variable {buckets twins : Array Bucket} {bucket : Bucket} {b c : Bucket}

theorem exists_twin (reflects : Reflects queue f buckets twins) (found : buckets[index]? = some b) :
    ∃ c, twins[index]? = some c ∧ b.Mirrors queue f c := by
  have inside : index < twins.size := by
    rw [reflects.size]
    exact (Array.getElem?_eq_some_iff.mp found).1
  have there := Array.getElem?_eq_getElem inside
  exact ⟨_, there, reflects.each found there⟩

theorem set (reflects : Reflects queue f buckets twins) (mirrors : b.Mirrors queue f c) :
    Reflects queue f (buckets.setIfInBounds index b) (twins.setIfInBounds index c) := by
  refine ⟨by simp [reflects.size], ?_⟩
  intro i old twin found there
  rw [Array.getElem?_setIfInBounds] at found there
  by_cases same : index = i
  · rw [if_pos same] at found there
    split at found
    · split at there
      · cases found
        cases there
        exact mirrors
      · cases there
    · cases found
  · rw [if_neg same] at found there
    exact reflects.each found there

theorem set_left (reflects : Reflects queue f buckets twins)
    (mirrors : ∀ c, twins[index]? = some c → b.Mirrors queue f c) :
    Reflects queue f (buckets.setIfInBounds index b) twins := by
  refine ⟨by simp [reflects.size], ?_⟩
  intro i old twin found there
  rw [Array.getElem?_setIfInBounds] at found
  by_cases same : index = i
  · rw [if_pos same] at found
    split at found
    · cases found
      exact mirrors twin (same ▸ there)
    · cases found
  · rw [if_neg same] at found
    exact reflects.each found there

/-- The twins weigh no more. -/
theorem qos0Bytes_le (reflects : Reflects queue f store.buckets twin.buckets) :
    twin.qos0Bytes ≤ store.qos0Bytes := by
  refine List.Forall₂.sum_le_sum (List.forall₂_iff_get.mpr ⟨?_, ?_⟩)
  · simp [reflects.size]
  · intro i inside insideToo
    simp only [List.get_eq_getElem, List.getElem_map, Array.getElem_toList]
    simp only [List.length_map, Array.length_toList] at inside insideToo
    exact (reflects.each (Array.getElem?_eq_getElem insideToo)
      (Array.getElem?_eq_getElem inside)).weight_le

end Reflects

/-- The twin mirrors what the store holds of the queue, and it is as ready to go on as the store. -/
structure Mirrors (queue : QueueKey) (f : UInt64 → UInt64) (number fewer : Nat)
    (store twin : Store) : Prop where
  fit : store.Fit number
  twinFit : twin.Fit fewer
  le : fewer ≤ number
  closed : twin.closed = store.closed
  overflow : twin.settings.overflow = store.settings.overflow
  limit : twin.budget.limit = store.budget.limit
  reflects : Reflects queue f store.buckets twin.buckets
  orders : Orders f (store.Holds queue)

theorem Mirrors.beside (mirrors : Mirrors queue f number fewer store twin)
    (outbox outboxToo : Outbox) :
    Mirrors queue f number fewer { store with outbox } { twin with outbox := outboxToo } where
  fit := mirrors.fit.beside store.stats store.disk outbox
  twinFit := mirrors.twinFit.beside twin.stats twin.disk outboxToo
  le := mirrors.le
  closed := mirrors.closed
  overflow := mirrors.overflow
  limit := mirrors.limit
  reflects := mirrors.reflects
  orders := mirrors.orders

/-- The numbers in a mirror are below the next. -/
theorem Mirrors.below (mirrors : Mirrors queue f number fewer store twin) {key : EntryKey}
    (holds : store.Holds queue key) : (f key.sequence).toNat < fewer := by
  obtain ⟨its, i, b, entry, found, stored⟩ := holds
  obtain ⟨c, there, mirror⟩ := mirrors.reflects.exists_twin found
  have listed : (key, entry) ∈ b.queueEntries queue := mem_queueEntries.mpr ⟨stored, its⟩
  have mirrored : (key.renamed f, entry) ∈ c.entries.bindings := by
    rw [mirror.line]
    exact List.mem_map.mpr ⟨_, listed, rfl⟩
  exact mirrors.twinFit.under there (Table.mem_bindings_iff.mp mirrored)

/-- How places are renumbered as a request is served that may draw a number. -/
structure Renumbers (queue : QueueKey) (store twin : Store) (draws : Bool) (g : UInt64 → UInt64)
    (places : EntryKey → Prop) : Prop where
  orders : Orders g places
  holds : ∀ ⦃key⦄, store.Holds queue key → places key
  next : draws = true → places ⟨queue, store.sequence.next⟩ ∧
    g store.sequence.next = twin.sequence.next
  reflects : Reflects queue g store.buckets twin.buckets

theorem Mirrors.renumbers (mirrors : Mirrors queue f number fewer store twin) {draws : Bool}
    (room : draws = true → number < UInt64.size) :
    ∃ g places, Renumbers queue store twin draws g places := by
  cases draws with
  | false => exact ⟨f, _, mirrors.orders, fun _ holds => holds, by simp, mirrors.reflects⟩
  | true =>
    have small := room rfl
    have next : store.sequence.next.toNat = number := by
      rw [mirrors.fit.next, UInt64.toNat_ofNat_of_lt' small]
    have twinNext : twin.sequence.next.toNat = fewer := by
      rw [mirrors.twinFit.next, UInt64.toNat_ofNat_of_lt' (Nat.lt_of_le_of_lt mirrors.le small)]
    let g (n : UInt64) : UInt64 := if n = store.sequence.next then twin.sequence.next else f n
    have above {key : EntryKey} (holds : store.Holds queue key) :
        key.sequence.toNat < store.sequence.next.toNat := by
      obtain ⟨_, i, b, entry, found, stored⟩ := holds
      exact next ▸ mirrors.fit.under found stored
    have same {key : EntryKey} (holds : store.Holds queue key) : key.renamed g = key.renamed f := by
      have old : key.sequence ≠ store.sequence.next := fun eq => by
        have less := above holds
        rw [eq] at less
        exact Nat.lt_irrefl _ less
      simp only [EntryKey.renamed, g, if_neg old]
    have last : EntryKey.renamed g ⟨queue, store.sequence.next⟩ = ⟨queue, twin.sequence.next⟩ := by
      simp [EntryKey.renamed, g]
    have rises {key : EntryKey} (holds : store.Holds queue key) :
        compare (key.renamed f) ⟨queue, twin.sequence.next⟩ = .lt ∧
          compare key ⟨queue, store.sequence.next⟩ = .lt :=
      ⟨EntryKey.compare_eq_lt holds.1 (twinNext ▸ mirrors.below holds),
        EntryKey.compare_eq_lt holds.1 (above holds)⟩
    refine ⟨g, fun key => store.Holds queue key ∨ key = ⟨queue, store.sequence.next⟩,
      ?_, fun _ holds => .inl holds, fun _ => ⟨.inr rfl, by simp [g]⟩, ?_⟩
    · rintro a b (held | rfl) (heldToo | rfl)
      · rw [same held, same heldToo]
        exact mirrors.orders held heldToo
      · rw [same held, last, (rises held).1, (rises held).2]
      · rw [same heldToo, last, Std.OrientedCmp.gt_iff_lt.mpr (rises heldToo).1,
          Std.OrientedCmp.gt_iff_lt.mpr (rises heldToo).2]
      · simp
    · refine ⟨mirrors.reflects.size, ?_⟩
      intro i b c found there
      have mirror := mirrors.reflects.each found there
      refine ⟨?_, mirror.willing⟩
      rw [mirror.line]
      refine List.map_congr_left ?_
      intro e listed
      obtain ⟨stored, its⟩ := mem_queueEntries.mp listed
      exact Prod.ext (same ⟨its, i, b, e.2, found, stored⟩).symm rfl

/-! One request -/

/-- How many numbers a request draws. -/
def draws (store : Store) (request : Request) : Nat :=
  ((store.serve request).2.sequence.next - store.sequence.next).toNat

theorem Fit.next_sub (fit : store.Fit number) (draws : Bool) :
    ((if draws then store.sequence.advance else store.sequence).next -
      store.sequence.next).toNat = draws.toNat := by
  rw [fit.next_draw, fit.next, UInt64.ofNat_add, UInt64.add_comm, UInt64.add_sub_cancel]
  cases draws <;> rfl

theorem bucket_of_error {fault : QueueFault} (refused : store.bucket index = .error fault)
    (closed : twin.closed = store.closed) (size : twin.buckets.size = store.buckets.size) :
    twin.bucket index = .error fault := by
  unfold bucket at refused ⊢
  rw [closed]
  split
  · rename_i shut
    rwa [if_pos shut] at refused
  · rename_i shut
    rw [if_neg shut] at refused
    cases found : store.buckets[index]? with
    | some b =>
      rw [found] at refused
      cases refused
    | none =>
      have outside := Array.getElem?_eq_none_iff.mp found
      rw [found] at refused
      rw [Array.getElem?_eq_none_iff.mpr (size ▸ outside), bucketCount, size]
      exact refused

theorem bucket_of_ok {bucket c : Bucket} (opened : store.bucket index = .ok bucket)
    (closed : twin.closed = store.closed) (there : twin.buckets[index]? = some c) :
    twin.bucket index = .ok c := by
  unfold Store.bucket at opened ⊢
  rw [closed, there]
  split
  · rename_i shut
    rw [if_pos shut] at opened
    cases opened
  · rfl

/-- What a store holds of a queue once a plan was carried out. -/
theorem holds_carried {bucket : Bucket} {other : QueueKey} {plan : Plan} {key : EntryKey}
    (found : store.buckets[index]? = some bucket)
    (fits : plan.Fits bucket.entries other ⟨other, store.sequence.next⟩)
    (holds : (store.carried index bucket plan).Holds queue key) :
    store.Holds queue key ∨
      plan.draws = true ∧ other = queue ∧ key = ⟨queue, store.sequence.next⟩ := by
  obtain ⟨its, i, b, entry, there, stored⟩ := holds
  simp only [carried, Array.getElem?_setIfInBounds] at there
  by_cases same : index = i
  · rw [if_pos same] at there
    split at there
    · cases there
      rw [(Bucket.applyAll_frame _ _ plan.changes).1] at stored
      rcases Change.mem_of_get?_actAll stored with before | ⟨change, member, rfl⟩
      · exact .inl ⟨its, index, bucket, entry, found, before⟩
      · rcases fits.keys change member with ⟨draws, last⟩ | ⟨_, old, before⟩
        · have own : other = queue := (congrArg EntryKey.queue last).symm.trans its
          exact .inr ⟨draws, own, last.trans (own ▸ rfl)⟩
        · exact .inl ⟨its, index, bucket, old, found, before⟩
    · cases there
  · rw [if_neg same] at there
    exact .inl ⟨its, i, b, entry, there, stored⟩

theorem Serves.draws {bucket : Bucket} {request : Request} {plan : Plan}
    (serves : Serves store bucket request plan (store.serve request)) (fit : store.Fit number) :
    store.draws request = plan.draws.toNat := by
  unfold Store.draws
  generalize store.serve request = served at serves
  cases serves with
  | refused | served => exact fit.next_sub plan.draws

theorem Serves.fault {bucket : Bucket} {request : Request} {plan : Plan} {fault : StorageFault}
    (serves : Serves store bucket request plan (store.serve request))
    (refused : bucket.refusal? plan.changes = some fault) :
    (store.serve request).1.journalFailed = fault.ofJournal := by
  generalize store.serve request = served at serves
  cases serves with
  | refused again =>
    cases again.symm.trans refused
    simp only [Answer.journalFailed, Request.fault?_refusal]
  | served taken => cases taken.symm.trans refused

/-! What is renumbered -/

namespace Renumbers

variable {g : UInt64 → UInt64} {places : EntryKey → Prop} {request : Request} {plan : Plan}
variable {overflow : Overflow}
variable {bucket c : Bucket} (renumbers : Renumbers queue store twin plan.draws g places)
include renumbers

/-- The mirror follows the same plan at the places that have its numbers. -/
theorem planned (mirror : bucket.Mirrors queue g c)
    (planned : request.plan overflow (bucket.queueEntries queue) ⟨queue, store.sequence.next⟩ =
      plan) :
    request.plan overflow (c.queueEntries queue) ⟨queue, twin.sequence.next⟩ =
      plan.renamed g := by
  rw [mirror.queueEntries, ← planned, ← Request.plan_renamed]
  cases draws : plan.draws with
  | true => rw [EntryKey.renamed, (renumbers.next draws).2]
  | false =>
    refine Request.plan_of_draws_eq_false ?_ _
    rw [Request.plan_renamed, planned]
    exact draws

variable (found : store.buckets[index]? = some bucket)
include found

theorem reflects_carried (there : twin.buckets[index]? = some c)
    (fits : plan.Fits bucket.entries queue ⟨queue, store.sequence.next⟩)
    (taken : bucket.refusal? plan.changes = none) :
    Reflects queue g (store.carried index bucket plan).buckets
      (twin.carried index c (plan.renamed g)).buckets := by
  have theirs : ∀ change ∈ plan.changes, places change.key := by
    intro change member
    rcases fits.keys change member with ⟨draws, last⟩ | ⟨own, entry, stored⟩
    · exact last ▸ (renumbers.next draws).1
    · exact renumbers.holds ⟨own, index, bucket, entry, found, stored⟩
  have all : ∀ e ∈ bucket.queueEntries queue, places e.1 := by
    intro e listed
    obtain ⟨stored, own⟩ := mem_queueEntries.mp listed
    exact renumbers.holds ⟨own, index, bucket, e.2, found, stored⟩
  have mirror := renumbers.reflects.each found there
  exact renumbers.reflects.set
    (mirror.along taken (fits.own rfl) renumbers.orders theirs all _ _)

theorem orders_carried (fits : plan.Fits bucket.entries queue ⟨queue, store.sequence.next⟩) :
    Orders g ((store.carried index bucket plan).Holds queue) := by
  have before {key : EntryKey} (holds : (store.carried index bucket plan).Holds queue key) :
      places key := by
    rcases holds_carried found fits holds with held | ⟨draws, _, rfl⟩
    · exact renumbers.holds held
    · exact (renumbers.next draws).1
  exact fun a b held heldToo => renumbers.orders (before held) (before heldToo)

end Renumbers

namespace Mirrors

variable {request : Request} (mirrors : Mirrors queue f number fewer store twin)
  (room : number + store.draws request ≤ UInt64.size)
  (within : store.peak request ≤ store.budget.limit.toNat)
  (calm : (store.serve request).1.journalFailed = false)
include mirrors room within calm

/-- A request about another queue does not show in the mirror. -/
theorem aside {other : QueueKey} (its : request.queue? = some other) (apart : other ≠ queue) :
    Mirrors queue f (number + store.draws request) fewer (store.serve request).2 twin := by
  have le := Nat.le_add_right_of_le mirrors.le (k := store.draws request)
  cases opened : store.bucket request.index with
  | error fault =>
    obtain ⟨outbox, refused⟩ := serve_of_closed opened its
    have none : store.draws request = 0 := by simp [draws, refused]
    rw [refused, none]
    exact ⟨mirrors.fit.draw false outbox, mirrors.twinFit, mirrors.le, mirrors.closed,
      mirrors.overflow, mirrors.limit, mirrors.reflects, mirrors.orders⟩
  | ok bucket =>
    have found := getElem?_of_bucket opened
    let plan := request.plan store.settings.overflow (bucket.queueEntries other)
      ⟨other, store.sequence.next⟩
    have fits : plan.Fits bucket.entries other ⟨other, store.sequence.next⟩ :=
      (mirrors.fit.coherent found).fits _ its
    have light (taken : bucket.refusal? plan.changes = none) :
        (store.carried request.index bucket plan).qos0Bytes ≤ store.budget.limit.toNat :=
      peak_of_accepted (mirrors.fit.coherent found) opened its rfl taken ▸ within
    have serves := mirrors.fit.serves opened its rfl light
    have drawn := serves.draws mirrors.fit
    rw [drawn] at room le ⊢
    have unbroken {fault : StorageFault} (refused : bucket.refusal? plan.changes = some fault) :
        fault.ofJournal = false := (serves.fault refused).symm.trans calm
    generalize store.serve request = served at serves ⊢
    cases serves with
    | refused refused told outbox =>
      obtain ⟨rfl, rfl⟩ := told.eq_of_calm (unbroken refused)
      rw [setIfInBounds_self found]
      exact ⟨mirrors.fit.draw plan.draws outbox, mirrors.twinFit, le, mirrors.closed,
        mirrors.overflow, mirrors.limit, mirrors.reflects, mirrors.orders⟩
    | served taken stats disk outbox =>
      have small (draws : plan.draws = true) : number < UInt64.size := by
        rw [draws, Bool.toNat_true] at room
        exact room
      have fit := mirrors.fit.carried found fits
        (Nat.lt_of_le_of_lt (light taken) (UInt64.toNat_lt_size _)) small
      have others : ∀ change ∈ plan.changes, change.key.queue ≠ queue :=
        fun change member => fits.own rfl change member ▸ apart
      exact {
        fit := fit.beside stats disk outbox
        twinFit := mirrors.twinFit
        le
        closed := mirrors.closed
        overflow := mirrors.overflow
        limit := mirrors.limit.trans (Bucket.limit_applyAll _ _ _).symm
        reflects := mirrors.reflects.set_left fun c there =>
          (mirrors.reflects.each found there).aside taken others store.budget
        orders := by
          have before {key : EntryKey}
              (holds : (store.carried request.index bucket plan).Holds queue key) :
              store.Holds queue key :=
            (holds_carried found fits holds).resolve_right fun last => apart last.2.1
          exact fun a b held heldToo => mirrors.orders (before held) (before heldToo) }

/-- A request about the queue is answered by the mirror as by the store, and mirrored. -/
theorem along (its : request.queue? = some queue) :
    (twin.serve request).1 = (store.serve request).1 ∧
      ∃ g, Mirrors queue g (number + store.draws request) (fewer + store.draws request)
        (store.serve request).2 (twin.serve request).2 := by
  cases opened : store.bucket request.index with
  | error fault =>
    obtain ⟨outbox, refused⟩ := serve_of_closed opened its
    have openedToo := bucket_of_error opened mirrors.closed mirrors.reflects.size
    obtain ⟨outboxToo, refusedToo⟩ := serve_of_closed openedToo its
    have none : store.draws request = 0 := by simp [draws, refused]
    rw [refused, refusedToo, none]
    exact ⟨rfl, f, mirrors.fit.draw false outbox, mirrors.twinFit.draw false outboxToo, mirrors.le,
      mirrors.closed, mirrors.overflow, mirrors.limit, mirrors.reflects, mirrors.orders⟩
  | ok bucket =>
    have found := getElem?_of_bucket opened
    obtain ⟨c, there, _⟩ := mirrors.reflects.exists_twin found
    have openedToo := bucket_of_ok opened mirrors.closed there
    let plan := request.plan store.settings.overflow (bucket.queueEntries queue)
      ⟨queue, store.sequence.next⟩
    have fits : plan.Fits bucket.entries queue ⟨queue, store.sequence.next⟩ :=
      (mirrors.fit.coherent found).fits _ its
    have light (taken : bucket.refusal? plan.changes = none) :
        (store.carried request.index bucket plan).qos0Bytes ≤ store.budget.limit.toNat :=
      peak_of_accepted (mirrors.fit.coherent found) opened its rfl taken ▸ within
    have serves := mirrors.fit.serves opened its rfl light
    have drawn := serves.draws mirrors.fit
    rw [drawn] at room ⊢
    have small (draws : plan.draws = true) : number < UInt64.size := by
      rw [draws, Bool.toNat_true] at room
      exact room
    -- the mirror follows the same plan at the places that have its numbers
    obtain ⟨g, places, renumbers⟩ := mirrors.renumbers small
    have mirror := renumbers.reflects.each found there
    have planned := renumbers.planned mirror rfl
    have fitsToo : (plan.renamed g).Fits c.entries queue ⟨queue, twin.sequence.next⟩ :=
      planned ▸ (mirrors.twinFit.coherent there).fits _ its
    have reflects := renumbers.reflects_carried found there fits
    have unbroken {fault : StorageFault} (refused : bucket.refusal? plan.changes = some fault) :
        fault.ofJournal = false := (serves.fault refused).symm.trans calm
    have same : c.refusal? (plan.renamed g).changes = bucket.refusal? plan.changes :=
      Bucket.refusal?_renamed mirror.willing fun fault => unbroken
    have lightToo (taken : c.refusal? (plan.renamed g).changes = none) :
        (twin.carried request.index c (plan.renamed g)).qos0Bytes ≤ twin.budget.limit.toNat := by
      rw [mirrors.limit]
      exact Nat.le_trans (reflects (same ▸ taken)).qos0Bytes_le (light (same ▸ taken))
    have servesToo := mirrors.twinFit.serves openedToo its (mirrors.overflow ▸ planned) lightToo
    have le := Nat.add_le_add_right mirrors.le plan.draws.toNat
    generalize store.serve request = served at serves ⊢
    generalize twin.serve request = servedToo at servesToo ⊢
    cases serves with
    | refused refused told outbox =>
      cases servesToo with
      | served taken => cases (taken.symm.trans same).trans refused
      | refused refusedToo toldToo outboxToo =>
        cases (refusedToo.symm.trans same).trans refused
        obtain ⟨rfl, rfl⟩ := told.eq_of_calm (unbroken refused)
        obtain ⟨rfl, rfl⟩ := toldToo.eq_of_calm (unbroken refused)
        rw [setIfInBounds_self found, setIfInBounds_self there]
        exact ⟨rfl, g, {
          fit := mirrors.fit.draw plan.draws outbox
          twinFit := mirrors.twinFit.draw plan.draws outboxToo
          le
          closed := mirrors.closed
          overflow := mirrors.overflow
          limit := mirrors.limit
          reflects := renumbers.reflects
          orders := fun a b held heldToo =>
            renumbers.orders (renumbers.holds held) (renumbers.holds heldToo) }⟩
    | served taken stats disk outbox =>
      cases servesToo with
      | refused refused => cases (refused.symm.trans same).trans taken
      | served takenToo statsToo diskToo outboxToo =>
        have fit := mirrors.fit.carried found fits
          (Nat.lt_of_le_of_lt (light taken) (UInt64.toNat_lt_size _)) small
        have twinFit := mirrors.twinFit.carried there fitsToo
          (Nat.lt_of_le_of_lt (lightToo takenToo) (UInt64.toNat_lt_size _))
          fun draws => Nat.lt_of_le_of_lt mirrors.le (small draws)
        exact ⟨rfl, g, {
          fit := fit.beside stats disk outbox
          twinFit := twinFit.beside statsToo diskToo outboxToo
          le
          closed := mirrors.closed
          overflow := mirrors.overflow
          limit := (Bucket.limit_applyAll _ _ _).trans
            (mirrors.limit.trans (Bucket.limit_applyAll _ _ _).symm)
          reflects := reflects taken
          orders := renumbers.orders_carried found fits }⟩

end Mirrors

end Store

end DeliveryQueue
