import DeliveryQueue.Proofs.Numbers

/-!
Numbers that are drawn again. A store goes on above all that it inserted until it is dropped. The
next store goes on above what the journals still mention, and a compacted journal may no longer
mention the highest number: it is drawn again unless all restarts find as high a number
(`World.Remembers`).
-/
namespace DeliveryQueue

/-- The number under which a change inserts an entry. -/
def Change.number? (change : Change) : Option UInt64 :=
  change.inserted?.map fun _ => change.key.sequence

/-- The numbers of the inserts that went into journals. -/
def Outbox.numbers (outbox : Outbox) : List UInt64 := outbox.committed.filterMap Change.number?

theorem EditsAlong.number? {entries : Entries} {changes : List Change}
    (edits : EditsAlong entries changes) : changes.filterMap Change.number? = [] := by
  induction changes generalizing entries with
  | nil => rfl
  | cons change changes ih =>
    have none : change.number? = none := by rw [Change.number?, edits.1.inserted?]; rfl
    rw [List.filterMap_cons_none none, ih edits.2]

namespace Store

variable {store after : Store} {index few : Nat} {bucket : Bucket} {offer : Option Offer}

/-- A commit inserts what is asked, or nothing. -/
theorem numbers_commit (kept : store.Kept) (found : store.buckets[index]? = some bucket)
    (changes : List Change) :
    (store.commit index bucket changes).2.outbox.numbers = store.outbox.numbers ∨
      (store.commit index bucket changes).2.outbox.numbers =
        store.outbox.numbers ++ changes.filterMap Change.number? := by
  rcases commit_cases (kept found) found changes with
    ⟨fault, failed⟩ | ⟨new, left, committed, done⟩
  · rw [failed]
    exact .inl rfl
  · rw [done]
    exact .inr List.filterMap_append

theorem Quiet.numbers (step : Quiet few store after) (kept : store.Kept) :
    after.outbox.numbers = store.outbox.numbers := by
  cases step with
  | @edit index bucket changes found edits short =>
    rcases numbers_commit kept found changes with same | longer
    · exact same
    · rw [longer, edits.number?, List.append_nil]
  | tend | note => rfl

theorem Quietly.numbers (steps : Quietly few store after) (kept : store.Kept) :
    after.outbox.numbers = store.outbox.numbers := by
  induction steps with
  | refl => rfl
  | next step _ ih => exact (ih (step.kept kept)).trans (step.numbers kept)

/-- A step inserts nothing, or one entry under the number that it draws. -/
theorem Step.numbers (step : Step few store offer after) (kept : store.Kept) :
    after.outbox.numbers = store.outbox.numbers ∨
      after.outbox.numbers = store.outbox.numbers ++ [store.sequence.next] ∧
        after.sequence = store.sequence.advance := by
  cases step with
  | @enqueue index bucket found queue message evicted stored =>
    rcases numbers_commit kept.advance found
      (arrival evicted ⟨queue, store.sequence.next⟩ message) with same | longer
    · exact .inl same
    · refine .inr ⟨longer.trans ?_, sequence_commit _ _ _ _⟩
      cases evicted <;> rfl
  | @enqueuePubrel index bucket found queue id free =>
    rcases numbers_commit kept.advance found
      [.insert ⟨queue, store.sequence.next⟩ (.pubrel id)] with same | longer
    · exact .inl same
    · exact .inr ⟨longer, sequence_commit _ _ _ _⟩
  | refuse | stay => exact .inl rfl
  | quiet step => exact .inl (step.numbers kept)

theorem Took.numbers (took : Took store offer after) (kept : store.Kept) :
    after.outbox.numbers = store.outbox.numbers ∨
      after.outbox.numbers = store.outbox.numbers ++ [store.sequence.next] ∧
        after.sequence = store.sequence.advance := by
  obtain ⟨few, middle, _, step, rest⟩ := took
  rw [rest.numbers (step.kept kept), rest.sequence]
  exact step.numbers kept

/-- A queue that is not full takes a message if its journal takes the insert. -/
theorem numbers_addPublish {queue : QueueKey} {message : Publish} {limit : Nat}
    (opened : store.bucket index = .ok bucket)
    (appends : ∀ batch, ∃ written, bucket.journal.append store.disk batch =
      ⟨.ok (), written, store.disk⟩)
    (short : Batch.Fits
      (Batch.changeTexts (.insert ⟨queue, store.sequence.next⟩ (.publish (.ofPublish message)))))
    (room : bucket.classSize queue (.of message.qos) < limit)
    (acknowledged : message.qos ≠ .atMostOnce) (policy : DiscardPolicy) :
    (store.addPublish queue message limit policy index).2.outbox.numbers =
      store.outbox.numbers ++ [store.sequence.next] := by
  have accepted : Admission.decide (bucket.classSize queue (.of message.qos)) limit policy =
      .accept := by simp [Admission.decide, atLimit, Nat.not_le.mpr room]
  let change := Change.insert ⟨queue, store.sequence.next⟩ (.publish (.ofPublish message))
  have encoded : Batch.encode [change] = .ok (Batch.bytes [change]) :=
    Batch.encode_eq_ok_iff.mpr ⟨by simpa using short, rfl⟩
  obtain ⟨written, appended⟩ := appends (Batch.bytes [change])
  simp [addPublish, opened, accepted, enqueue, commit, Bucket.commit, encoded, appended, change,
    acknowledged, record, releaseEntries, Outbox.numbers, Change.number?, Change.inserted?,
    Change.key]

/-- A journal of the store holds a change with this number. -/
def Mentions (store : Store) (n : UInt64) : Prop :=
  ∃ bucket ∈ store.buckets.toList, bucket.Mentions n

/-- A store that was opened goes on above a number exactly if the journals mention one as high. -/
theorem Reopened.lt_next_iff {settings : Settings} {disk : Disk} {bound : Nat}
    (h : Reopened (blank settings disk) store.buckets.toList after) (under : store.Under bound)
    (room : bound < UInt64.size) {n : UInt64} (begun : Sequence.start ≤ n) :
    n < after.sequence.next ↔ ∃ m, store.Mentions m ∧ n ≤ m := by
  simp only [UInt64.lt_iff_toNat_lt, UInt64.le_iff_toNat_le] at begun ⊢
  constructor
  · intro less
    rcases h.next_le_of_mentions with same | ⟨old, member, m, mentioned, le⟩
    · change after.sequence.next = Sequence.start at same
      rw [same] at less
      omega
    · exact ⟨m, ⟨old, member, mentioned⟩, by omega⟩
  · rintro ⟨m, ⟨old, member, mentioned⟩, le⟩
    have below := (forall_toList under old member).logged mentioned
    exact Nat.lt_of_le_of_lt le (h.lt_next_of_mentions member mentioned (by omega))

end Store

namespace World

/-- The numbers of all entries that were ever inserted, in the order of the inserts. -/
def numbers (world : World) : List UInt64 := world.record.numbers

/-- The numbers of the inserts so far ascend, and the next number is above them. -/
def Fresh (world : World) : Prop :=
  (world.numbers ++ [world.store.sequence.next]).Pairwise (· < ·)

/-- If the event is a restart that succeeds, the journals mention a number as high as any that was
ever inserted. -/
def Remembers (world : World) : Event → Prop
  | .restart settings =>
    (∃ after, Store.ofJournals settings world.store.journals world.store.disk = .ok after) →
      ∀ n ∈ world.numbers, ∃ m, world.store.Mentions m ∧ n ≤ m
  | _ => True

variable {world : World}

theorem fresh_iff : world.Fresh ↔
    world.numbers.Pairwise (· < ·) ∧ ∀ n ∈ world.numbers, n < world.store.sequence.next := by
  simp [Fresh, List.pairwise_append]

/-- Telling a journal how to behave inserts nothing and draws nothing. -/
theorem tell_numbers (world : World) (index : Nat) (mood : Mood) :
    (world.tell index mood).numbers = world.numbers ∧
      (world.tell index mood).store.sequence = world.store.sequence := by
  unfold tell
  split <;> exact ⟨rfl, rfl⟩

theorem numbers_ask (world : World) (request : Request) : (world.ask request).numbers =
    world.numbers ++ (world.store.serve request).2.outbox.numbers := List.filterMap_append

theorem ask_numbers (orderly : world.Orderly) (request : Request) :
    (world.ask request).numbers = world.numbers ∨
      (world.ask request).numbers = world.numbers ++ [world.store.sequence.next] ∧
        (world.ask request).store.sequence = world.store.sequence.advance := by
  have none : world.store.outbox.numbers = [] := by rw [orderly.settled]; rfl
  rw [numbers_ask]
  rcases (Store.serve_took orderly.kept request).numbers orderly.kept with same | ⟨longer, next⟩
  · rw [same, none, List.append_nil]
    exact .inl rfl
  · rw [longer, none, List.nil_append]
    exact .inr ⟨rfl, next⟩

theorem ask_fresh (orderly : world.Orderly) (ahead : world.Ahead) (fresh : world.Fresh)
    (request : Request) (few : (world.ask request).drawn < 2 ^ 63) :
    (world.ask request).Fresh := by
  have rises := (ask_rises orderly.kept ahead request few).1
  obtain ⟨ascend, above⟩ := fresh_iff.mp fresh
  rcases ask_numbers orderly request with same | ⟨longer, drawn⟩
  · rw [fresh_iff, same]
    refine ⟨ascend, ?_⟩
    intro n member
    exact UInt64.lt_iff_toNat_lt.mpr
      (Nat.lt_of_lt_of_le (UInt64.lt_iff_toNat_lt.mp (above n member)) rises)
  · rw [drawn] at rises
    have next := Store.toNat_advance rises
    have higher : world.store.sequence.next < (world.ask request).store.sequence.next := by
      rw [drawn, UInt64.lt_iff_toNat_lt]
      omega
    rw [fresh_iff, longer]
    refine ⟨fresh, ?_⟩
    intro n member
    rcases List.mem_append.mp member with member | member
    · exact UInt64.lt_trans (above n member) higher
    · rwa [List.mem_singleton.mp member]

theorem step_fresh_iff (event : Event) (orderly : world.Orderly) (ahead : world.Ahead)
    (begun : ∀ n ∈ world.numbers, Sequence.start ≤ n) (fresh : world.Fresh)
    (few : (world.step event).drawn < 2 ^ 63) :
    (world.step event).Fresh ↔ world.Remembers event := by
  cases event with
  | ask request => exact iff_of_true (ask_fresh orderly ahead fresh request few) trivial
  | call => exact iff_of_true fresh trivial
  | tell index mood =>
    obtain ⟨same, next⟩ := tell_numbers world index mood
    refine iff_of_true ?_ trivial
    rwa [step, Fresh, same, next]
  | restart settings =>
    simp only [step, restart, Remembers]
    cases opened : Store.ofJournals settings world.store.journals world.store.disk with
    | error fault => exact iff_of_true fresh (by rintro ⟨after, ⟨⟩⟩)
    | ok after =>
      obtain ⟨used, reopened⟩ :=
        Store.reopened_of_ofJournals (Store.forall_toList orderly.kept) opened
      have higher (n : UInt64) (member : n ∈ world.numbers) :=
        reopened.lt_next_iff ahead.under (UInt64.toNat_lt _) (begun n member)
      rw [fresh_iff]
      constructor
      · rintro ⟨_, above⟩ _ n member
        exact (higher n member).mp (above n member)
      · intro remembered
        refine ⟨(fresh_iff.mp fresh).1, ?_⟩
        intro n member
        exact (higher n member).mpr (remembered ⟨after, rfl⟩ n member)

/-- Whatever is asked of a fresh world, the inserts still ascend. -/
theorem Fresh.ascending (fresh : world.Fresh) (orderly : world.Orderly) (mood : Mood)
    (request : Request) :
    ((world.tell 0 mood).ask request).numbers.Pairwise (· < ·) := by
  obtain ⟨same, next⟩ := tell_numbers world 0 mood
  have told : (world.tell 0 mood).Orderly := orderly.step (.tell 0 mood)
  rcases ask_numbers told request with fewer | ⟨longer, _⟩
  · rw [fewer, same]
    exact (fresh_iff.mp fresh).1
  · rw [longer, same, next]
    exact fresh

/-- An open store inserts under the next number, once its journal works. -/
theorem exists_insert (orderly : world.Orderly) (unclosed : world.store.closed = false)
    (some_ : world.store.buckets.size ≠ 0) : ∃ mood request,
      ((world.tell 0 mood).ask request).numbers = world.numbers ++ [world.store.sequence.next] := by
  have inside : 0 < world.store.buckets.size := Nat.pos_of_ne_zero some_
  have found := Array.getElem?_eq_getElem inside
  generalize world.store.buckets[0] = bucket at found
  obtain ⟨batches, held, _⟩ := (orderly.kept found).recalled
  let message := Publish.ofQos .atLeastOnce "" 0
  let mood : Mood := ⟨none, false, false, 0⟩
  let told := { bucket with journal := bucket.journal.told mood }
  let store := { world.store with buckets := world.store.buckets.setIfInBounds 0 told }
  have same : world.tell 0 mood = { world with store } := by simp [tell, found, store, told]
  have opened : store.bucket 0 = .ok told := by
    have placed : store.buckets[0]? = some told := Array.getElem?_setIfInBounds_self_of_lt inside
    have unclosed : store.closed = false := unclosed
    simp [Store.bucket, unclosed, placed]
  have appends (batch : Bytes) : ∃ written, told.journal.append store.disk batch =
      ⟨.ok (), written, store.disk⟩ := by
    simp only [told]
    cases journal : bucket.journal with
    | file log => simp [journal, Journal.held?] at held
    | memory log =>
      exact ⟨_, by simp [Journal.told, Journal.append, MemoryJournal.append,
        MemoryJournal.isFull, mood]; rfl⟩
  have short : Batch.Fits (Batch.changeTexts
      (.insert ⟨.client, store.sequence.next⟩ (.publish (.ofPublish message)))) := by
    change ∀ t ∈ [(Batch.Field.queueId, "c"), (.topic, "t"), (.uniqueId, "")], Batch.fits t.2 = true
    decide +kernel
  have inserted := Store.numbers_addPublish opened appends short (Nat.lt_succ_self _) (by decide)
    .discard
  refine ⟨mood, .add .client (.publish message)
    (told.classSize .client (.of message.qos) + 1) .discard 0, ?_⟩
  have none : store.outbox.numbers = [] := by
    change world.store.outbox.numbers = []
    rw [orderly.settled]
    rfl
  rw [none] at inserted
  rw [same, numbers_ask]
  exact congrArg (world.numbers ++ ·) inserted

theorem run_tell_ask (world : World) (front : List Event) (mood : Mood) (request : Request) :
    world.run (front ++ [.tell 0 mood, .ask request]) =
      ((world.run front).tell 0 mood).ask request := by
  simp [run, List.foldl_append, step]

section Run
variable {settings : Settings} {disk : Disk} {store : Store}
  (opened : Store.inMemory settings disk = .ok store) (payloads : Payloads) (events : List Event)
include opened

theorem run_begun (few : ((start store payloads).run events).drawn < 2 ^ 63) :
    ∀ n ∈ ((start store payloads).run events).numbers, Sequence.start ≤ n := by
  induction events using List.reverseRecOn with
  | nil =>
    intro n member
    cases member
  | append_singleton events event ih =>
    rw [run_concat] at few ⊢
    have fewer := Nat.lt_of_le_of_lt (drawn_le_step _ event) few
    have ahead := run_ahead opened payloads events fewer
    have before := ih fewer
    cases event with
    | ask request =>
      intro n member
      rcases ask_numbers (run_orderly opened payloads events) request with same | ⟨longer, _⟩
      · exact before n (same ▸ member)
      · rw [step, longer] at member
        rcases List.mem_append.mp member with member | member
        · exact before n member
        · rw [List.mem_singleton.mp member]
          exact UInt64.le_iff_toNat_le.mpr ahead.begun
    | call => exact before
    | tell | restart =>
      simp only [step, tell, restart]
      split <;> exact before

theorem fresh_of_remembers (few : ((start store payloads).run events).drawn < 2 ^ 63)
    (remembers : ∀ front event, front ++ [event] <+: events →
      ((start store payloads).run front).Remembers event) :
    ((start store payloads).run events).Fresh := by
  induction events using List.reverseRecOn with
  | nil => exact List.pairwise_singleton _ _
  | append_singleton events event ih =>
    rw [run_concat] at few ⊢
    have fewer := Nat.lt_of_le_of_lt (drawn_le_step _ event) few
    have fresh := ih fewer fun front other first =>
      remembers front other (first.trans (List.prefix_append _ _))
    exact (step_fresh_iff event (run_orderly opened payloads events)
      (run_ahead opened payloads events fewer) (run_begun opened payloads events fewer) fresh
      few).mpr (remembers events event List.prefix_rfl)

theorem fresh_of_ascending (few : ((start store payloads).run events).drawn < 2 ^ 63)
    (ascending : ∀ front, front <+: events → ∀ mood request, ((start store payloads).run
      (front ++ [.tell 0 mood, .ask request])).numbers.Pairwise (· < ·)) :
    ((start store payloads).run events).Fresh := by
  induction events using List.reverseRecOn with
  | nil => exact List.pairwise_singleton _ _
  | append_singleton events event ih =>
    have drawn := few
    rw [run_concat] at drawn ⊢
    have fewer := Nat.lt_of_le_of_lt (drawn_le_step _ event) drawn
    have fresh := ih fewer fun front first =>
      ascending front (first.trans (List.prefix_append _ _))
    have orderly := run_orderly opened payloads events
    have same := step_fresh_iff event orderly (run_ahead opened payloads events fewer)
      (run_begun opened payloads events fewer) fresh drawn
    cases event with
    | ask | call | tell => exact same.mpr trivial
    | restart later =>
      cases again : Store.ofJournals later ((start store payloads).run events).store.journals
          ((start store payloads).run events).store.disk with
      | error fault => exact same.mpr (by rintro ⟨after, done⟩; rw [again] at done; cases done)
      | ok after =>
        -- the new store is open, so one more insert shows which number is next
        obtain ⟨used, reopened⟩ :=
          Store.reopened_of_ofJournals (Store.forall_toList orderly.kept) again
        have restarted : ((start store payloads).run events).step (.restart later) =
            { (start store payloads).run events with store := after } := by
          simp only [step, restart, again]
        have some_ := size_run opened payloads (events ++ [.restart later])
        rw [run_concat] at some_
        obtain ⟨mood, request, inserted⟩ := exists_insert (orderly.step (.restart later))
          (by rw [restarted]; exact reopened.closed)
          (by rw [some_]; exact Store.bucketCount_ne_zero opened)
        have one := ascending _ List.prefix_rfl mood request
        rwa [run_tell_ask, run_concat, inserted] at one

/-- As long as fewer than 2^63 numbers are drawn, the inserts ascend all through a run, whatever is
asked next at any point of it, exactly if every restart in it remembers the inserts before it. -/
theorem ascending_iff_remembers (few : ((start store payloads).run events).drawn < 2 ^ 63) :
    (∀ front, front <+: events → ∀ mood request, ((start store payloads).run
        (front ++ [.tell 0 mood, .ask request])).numbers.Pairwise (· < ·)) ↔
      ∀ front event, front ++ [event] <+: events →
        ((start store payloads).run front).Remembers event := by
  have fewer {front : List Event} (first : front <+: events) :
      ((start store payloads).run front).drawn < 2 ^ 63 := by
    obtain ⟨rest, rfl⟩ := first
    rw [run, List.foldl_append] at few
    exact Nat.lt_of_le_of_lt (drawn_le_run _ rest) few
  constructor
  · intro ascending front event first
    have before : front <+: events := (List.prefix_append front [event]).trans first
    have fresh {part : List Event} (inside : part <+: events) :=
      fresh_of_ascending opened payloads part (fewer inside) fun other first =>
        ascending other (first.trans inside)
    have drawn := fewer first
    have next := fresh first
    rw [run_concat] at drawn next
    exact (step_fresh_iff event (run_orderly opened payloads front)
      (run_ahead opened payloads front (fewer before))
      (run_begun opened payloads front (fewer before)) (fresh before) drawn).mp next
  · intro remembers front first mood request
    have fresh := fresh_of_remembers opened payloads front (fewer first) fun other event inside =>
      remembers other event (inside.trans first)
    rw [run_tell_ask]
    exact fresh.ascending (run_orderly opened payloads front) mood request

end Run

theorem ascending_iff_remembers_sample :
    (∀ front, front <+: sample → ∀ mood request, ((start .single .empty).run
        (front ++ [.tell 0 mood, .ask request])).numbers.Pairwise (· < ·)) ↔
      ∀ front event, front ++ [event] <+: sample →
        ((start .single .empty).run front).Remembers event :=
  ascending_iff_remembers Store.inMemory_single .empty sample (by decide +kernel)

/-- The only message is handed out, the journal compacted, the store restarted, and a message
added. -/
def forgetful : List Event :=
  [.ask (.add .client (.publish (.ofQos .atMostOnce "u1" 1)) 10 .discard 0),
    .ask (.readNew .client [1] 1000 0 0),
    .ask (.cleanUp 0 0),
    .restart .single,
    .ask (.add .client (.publish (.ofQos .atMostOnce "u2" 2)) 10 .discard 0)]

/-- The inserts of a run need not ascend: here both have the same number. -/
theorem numbers_not_ascending : ¬ ∀ (settings : Settings) (disk : Disk) (store : Store)
    (payloads : Payloads) (events : List Event), Store.inMemory settings disk = .ok store →
      ((start store payloads).run events).drawn < 2 ^ 63 →
        ((start store payloads).run events).numbers.Pairwise (· < ·) := by
  intro ascending
  have both := ascending .single .empty .single .empty forgetful rfl (by decide +kernel)
  have twice : ((start .single .empty).run forgetful).numbers =
      [Sequence.start, Sequence.start] := by decide +kernel
  rw [twice] at both
  exact absurd both (by decide)

end World

end DeliveryQueue
