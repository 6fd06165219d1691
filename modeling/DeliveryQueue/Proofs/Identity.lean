import DeliveryQueue.Proofs.Contents
import Mathlib.Logic.Relation

/-!
Packet ids. In every store that runs, a packet id leads to the one entry of its queue that carries
it (`Bucket.Identifies`), and no change that is ever applied finds its id taken by another entry or
gives an id to anything but a message (`Bucket.Takes`), when it is made and when it is replayed.
-/
namespace DeliveryQueue

namespace Bucket

/-- A packet id leads to the entry that carries it, if there is one, and there is only one. -/
structure Identifies (bucket : Bucket) : Prop where
  single : ∀ ⦃a b first second id⦄, bucket.entries.get? a = some first →
    bucket.entries.get? b = some second → a.queue = b.queue → first.packetId? = some id →
      second.packetId? = some id → a = b
  found : ∀ queue id key, bucket.inFlightKey? queue id = some key ↔
    key.queue = queue ∧ ∃ entry, bucket.entries.get? key = some entry ∧ entry.packetId? = some id
  proper : ∀ ⦃key stored⦄, bucket.entries.get? key = some (.publish stored) →
    stored.packetId ≠ some noPacketId
  /-- Only messages and PUBRELs are found by an id. -/
  expected : ∀ ⦃queue id key⦄, bucket.inFlightKey? queue id = some key →
    (∃ stored, bucket.entries.get? key = some (.publish stored) ∧ stored.packetId = some id) ∨
      bucket.entries.get? key = some (.pubrel id)

/-- The change gives an id to a message only, and if there is an id at its key afterwards, then no
other entry of the queue holds it when the index is told. -/
structure Takes (bucket : Bucket) (budget : Budget) (change : Change) : Prop where
  assigns : ∀ ⦃key id⦄, change = .assign key id →
    ∃ stored, bucket.entries.get? key = some (.publish stored)
  available : ∀ ⦃entry id⦄, change.outcome (bucket.entries.get? change.key) = some entry →
    entry.packetId? = some id →
      ((bucket.detach budget change.key).1.countsOf change.key.queue).packetIds.available id
        change.key.sequence = true

/-- Changes that are taken one after the other. -/
def TakesAll (bucket : Bucket) (budget : Budget) : List Change → Prop
  | [] => True
  | change :: changes =>
    bucket.Takes budget change ∧
      TakesAll (bucket.apply budget change).1 (bucket.apply budget change).2.1 changes

variable {bucket : Bucket} {changes : List Change}

theorem Agrees.inFlightKey?_eq_some_iff (agrees : bucket.Agrees) {queue : QueueKey} {id : UInt16}
    {key : EntryKey} : bucket.inFlightKey? queue id = some key ↔
      key.queue = queue ∧
        ∃ entry, bucket.entries.get? key = some entry ∧ entry.packetId? = some id := by
  rw [inFlightKey?_eq, Option.map_eq_some_iff]
  constructor
  · rintro ⟨sequence, held, rfl⟩
    exact ⟨rfl, agrees.indexed.holders held⟩
  · rintro ⟨rfl, entry, stored, carries⟩
    exact ⟨key.sequence, agrees.traced stored carries, rfl⟩

theorem Agrees.identifies (agrees : bucket.Agrees) (sound : Sound bucket.entries) :
    bucket.Identifies where
  single a b first second id here there same carries carriesToo := by
    obtain ⟨queue, n⟩ := a
    obtain ⟨other, m⟩ := b
    obtain rfl : queue = other := same
    rw [sound.single here carries there carriesToo]
  found queue id key := agrees.inFlightKey?_eq_some_iff
  proper key stored found := sound.proper found
  expected queue id key held := by
    obtain ⟨_, entry, stored, carries⟩ := agrees.inFlightKey?_eq_some_iff.mp held
    cases entry with
    | publish message => exact .inl ⟨message, stored, carries⟩
    | pubrel other =>
      cases carries
      exact .inr stored
    | taken => cases carries

theorem Agrees.detach (agrees : bucket.Agrees) (budget : Budget) (key : EntryKey) :
    (bucket.detach budget key).1.Agrees :=
  ⟨agrees.indexed.detach budget key, agrees.traced.detach budget key⟩

/-- A lawful change is taken: if another entry held its id, two would carry it afterwards. -/
theorem Agrees.takes (agrees : bucket.Agrees) (budget : Budget) {change : Change}
    (lawful : Change.Lawful bucket.entries change) : bucket.Takes budget change := by
  refine ⟨lawful.assigns, ?_⟩
  intro entry id outcome carries
  apply PacketIds.available_of_holder?_eq_none
  by_contra held
  obtain ⟨sequence, held⟩ := Option.ne_none_iff_exists'.mp held
  obtain ⟨other, there, carriesToo⟩ := (agrees.detach budget change.key).indexed.holders held
  rw [entries_detach] at there
  have differs : (⟨change.key.queue, sequence⟩ : EntryKey) ≠ change.key := by
    intro same
    rw [same, Table.get?_erase_self] at there
    cases there
  rw [Table.get?_erase_of_ne differs] at there
  have kept : (change.act bucket.entries).get? ⟨change.key.queue, sequence⟩ = some other := by
    rw [Change.get?_act_of_ne differs, there]
  have placed : (change.act bucket.entries).get? ⟨change.key.queue, change.key.sequence⟩ =
      some entry := (Change.get?_act_self change bucket.entries).trans outcome
  exact differs (by rw [lawful.sound.single kept carriesToo placed carries])

theorem Agrees.takesAll (agrees : bucket.Agrees) (budget : Budget)
    (lawful : Change.LawfulAlong bucket.entries changes) : bucket.TakesAll budget changes := by
  induction changes generalizing bucket budget with
  | nil => trivial
  | cons change changes ih =>
    have next : (bucket.apply budget change).1.Agrees :=
      ⟨agrees.indexed.apply budget change,
        agrees.traced.apply agrees.indexed budget lawful.1.sound.single⟩
    refine ⟨agrees.takes budget lawful.1, ih next _ ?_⟩
    rw [entries_apply]
    exact lawful.2

/-- A bucket that holds the same, counts the same for every queue, finds the same by packet id and
has the same order by age. -/
structure Unmoved (bucket left : Bucket) : Prop where
  entries : left.entries = bucket.entries
  counts : ∀ queue, left.countsOf queue = bucket.countsOf queue
  ages : left.qos0ByAge = bucket.qos0ByAge

theorem Unmoved.refl (bucket : Bucket) : bucket.Unmoved bucket := ⟨rfl, fun _ => rfl, rfl⟩

/-- What is kept beside the entries hangs on them alone, if it agrees with them. -/
theorem Agrees.unmoved {left : Bucket} (agrees : bucket.Agrees) (again : left.Agrees)
    (same : left.entries = bucket.entries) : bucket.Unmoved left where
  entries := same
  counts queue := by
    have size (messageClass : MessageClass) : (left.countsOf queue).ofClass messageClass =
        (bucket.countsOf queue).ofClass messageClass := by
      rw [again.indexed.counts, agrees.indexed.counts, same]
    have holders : (left.countsOf queue).packetIds.holders =
        (bucket.countsOf queue).packetIds.holders := by
      refine Table.ext_get? fun id => Option.ext fun sequence => ?_
      constructor
      · intro held
        obtain ⟨entry, there, carries⟩ := again.indexed.holders held
        exact agrees.traced (same ▸ there) carries
      · intro held
        obtain ⟨entry, there, carries⟩ := agrees.indexed.holders held
        exact again.traced (same.symm ▸ there) carries
    have qos0 := size .qos0
    have qos12 := size .qos12
    generalize left.countsOf queue = counts at qos0 qos12 holders ⊢
    generalize bucket.countsOf queue = others at qos0 qos12 holders ⊢
    obtain ⟨_, _, ⟨_⟩⟩ := counts
    obtain ⟨_, _, ⟨_⟩⟩ := others
    cases qos0
    cases qos12
    cases holders
    rfl
  ages := by
    refine Table.ext_get? fun age => ?_
    exact (again.indexed.ages age.entryKey).trans (same ▸ (agrees.indexed.ages age.entryKey).symm)

end Bucket

namespace Store

/-- Changes are committed that a bucket takes, or no bucket moves and no change is journaled. -/
inductive Smooth (store : Store) : Store → Prop
  | commit {index : Nat} {bucket : Bucket} {changes : List Change}
      (found : store.buckets[index]? = some bucket)
      (takes : bucket.TakesAll store.budget changes) :
      Smooth store (store.commit index bucket changes).2
  | beside {after : Store} (contents : after.contents = store.contents)
      (unmoved : ∀ ⦃index : Nat⦄ ⦃bucket left : Bucket⦄, store.buckets[index]? = some bucket →
        after.buckets[index]? = some left → bucket.Unmoved left)
      (committed : after.outbox.committed = store.outbox.committed) : Smooth store after

/-- Any number of smooth steps. -/
abbrev Smoothly : Store → Store → Prop := Relation.ReflTransGen Smooth

variable {store after : Store} {index few : Nat} {bucket : Bucket} {offer : Option Offer}

theorem Kept.smooth (kept : store.Kept) (found : store.buckets[index]? = some bucket)
    {changes : List Change} (lawful : Change.LawfulAlong bucket.entries changes) :
    Smooth store (store.commit index bucket changes).2 :=
  .commit found ((kept found).agrees.takesAll store.budget lawful)

theorem smooth_of_buckets_eq (buckets : after.buckets = store.buckets)
    (committed : after.outbox.committed = store.outbox.committed) : Smooth store after := by
  refine .beside (congrArg (·.map Bucket.entries) buckets) ?_ committed
  intro index bucket left found there
  cases (buckets ▸ there).symm.trans found
  exact .refl bucket

theorem Quiet.smooth (step : Quiet few store after) (kept : store.Kept) : Smooth store after := by
  cases step with
  | edit found edits short => exact kept.smooth found (edits.lawful (kept found).sound)
  | @tend place old new found tended =>
    refine .beside (contents_set_of_entries_eq found rfl tended.entries) ?_ rfl
    intro index bucket left there here
    have here : (store.buckets.setIfInBounds place new)[index]? = some left := here
    by_cases its : place = index
    · subst its
      cases there.symm.trans found
      cases (getElem?_set_self found new).symm.trans here
      exact (kept found).agrees.unmoved (tended.kept (kept found)).agrees tended.entries
    · rw [Array.getElem?_setIfInBounds_ne its, there] at here
      cases here
      exact .refl bucket
  | note => exact smooth_of_buckets_eq rfl rfl

theorem Quietly.smoothly (steps : Quietly few store after) (kept : store.Kept) :
    Smoothly store after := by
  induction steps with
  | refl => exact .refl
  | next step _ ih => exact .head (step.smooth kept) (ih (step.kept kept))

theorem Step.smoothly (step : Step few store offer after) (kept : store.Kept) :
    Smoothly store after := by
  have drawn : Smooth store { store with sequence := store.sequence.advance } :=
    smooth_of_buckets_eq rfl rfl
  cases step with
  | @enqueue index bucket found queue message evicted stored =>
    have lawful := lawfulAlong_arrival (kept found).sound stored
      ⟨queue, store.sequence.next⟩ message
    exact .head drawn (.single (kept.advance.smooth found lawful))
  | @enqueuePubrel index bucket found queue id free =>
    have lawful : Change.LawfulAlong bucket.entries
        [.insert ⟨queue, store.sequence.next⟩ (.pubrel id)] :=
      lawfulAlong_pubrel (kept found).sound free
    exact .head drawn (.single (kept.advance.smooth found lawful))
  | refuse => exact .single (smooth_of_buckets_eq rfl rfl)
  | quiet step => exact .single (step.smooth kept)
  | stay => exact .refl

theorem Took.smoothly (took : Took store offer after) (kept : store.Kept) :
    Smoothly store after := by
  obtain ⟨few, middle, _, step, rest⟩ := took
  exact (step.smoothly kept).trans (rest.smoothly (step.kept kept))

end Store

namespace World

/-- At any time a packet id leads to the one entry that carries it, whatever is asked next is made
of changes that are taken, and so is every journal that can be read. -/
theorem ids_identify {settings : Settings} {disk : Disk} {store : Store}
    (opened : Store.inMemory settings disk = .ok store) (payloads : Payloads)
    (events : List Event) :
    let world := (start store payloads).run events
    (∀ bucket ∈ world.store.buckets, bucket.Identifies) ∧
      (∀ request, world.store.Smoothly (world.store.serve request).2) ∧
      ∀ bucket ∈ world.store.buckets, ∀ changes, bucket.logged? = some changes →
        ∀ index budget, (Bucket.ofJournal index bucket.journal).TakesAll budget changes := by
  have kept := (run_orderly opened payloads events).kept
  refine ⟨?_, ?_, ?_⟩
  · intro bucket member
    obtain ⟨index, found⟩ := Array.mem_iff_getElem?.mp member
    exact (kept found).agrees.identifies (kept found).sound
  · intro request
    exact (Store.serve_took kept request).smoothly kept
  · intro bucket member changes read index budget
    obtain ⟨place, found⟩ := Array.mem_iff_getElem?.mp member
    have fresh := Bucket.agrees_ofJournal index bucket.journal
    exact fresh.takesAll budget ((kept found).lawful read).1

theorem ids_identify_sample :
    let world := (start .single .empty).run sample
    (∀ bucket ∈ world.store.buckets, bucket.Identifies) ∧
      (∀ request, world.store.Smoothly (world.store.serve request).2) ∧
      ∀ bucket ∈ world.store.buckets, ∀ changes, bucket.logged? = some changes →
        ∀ index budget, (Bucket.ofJournal index bucket.journal).TakesAll budget changes :=
  ids_identify Store.inMemory_single .empty sample

end World

end DeliveryQueue
