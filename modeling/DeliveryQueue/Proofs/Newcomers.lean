import DeliveryQueue.Proofs.Mirroring
import DeliveryQueue.Proofs.Numbers
import DeliveryQueue.Proofs.Untouched

/-!
Messages that come after recovered ones. A store that is opened goes on above all numbers in its
journals, whatever these hold, up to the last number there is, and from then on a request stores
under the next number or where something stands already (`Store.Narrows`, `Store.Draws`). So a
message that is added stands behind all others and takes nobody's place. Only above the last number
there is no other: it is drawn again (`World.add_comes_last_iff`).
-/
namespace DeliveryQueue

/-- The highest number there is. -/
def Sequence.last : UInt64 := 0xFFFFFFFFFFFFFFFF

namespace Change

/-- Where nothing stands, the change does nothing. -/
def Barren (change : Change) : Prop := change.outcome none = none

theorem Barren.inserted? {change : Change} (barren : change.Barren) : change.inserted? = none := by
  cases change with
  | insert => cases barren
  | delete | assign | mark | release => rfl

/-- Barren changes fill no place. -/
theorem get?_actAll_eq_none {entries : Entries} {changes : List Change} {key : EntryKey}
    (free : entries.get? key = none)
    (barren : ∀ change ∈ changes, change.key = key → change.Barren) :
    (actAll entries changes).get? key = none := by
  induction changes generalizing entries with
  | nil => exact free
  | cons change changes ih =>
    obtain ⟨first, others⟩ := List.forall_mem_cons.mp barren
    refine ih ?_ others
    by_cases same : key = change.key
    · rw [same, get?_act_self, ← same, free]
      exact first same.symm
    · rw [get?_act_of_ne same]
      exact free

/-- What is there after changes was there before, or one of them could fill its place. -/
theorem filled_of_get?_actAll {entries : Entries} {changes : List Change} {key : EntryKey}
    {entry : Entry} (found : (actAll entries changes).get? key = some entry) :
    (∃ before, entries.get? key = some before) ∨
      ∃ change ∈ changes, change.key = key ∧ ¬ change.Barren := by
  rw [or_iff_not_imp_right]
  intro bare
  simp only [not_exists, not_and, not_not] at bare
  rw [← Option.ne_none_iff_exists']
  intro free
  rw [get?_actAll_eq_none free bare] at found
  cases found

end Change

theorem Bucket.entries_commit (bucket : Bucket) (budget : Budget) (disk : Disk)
    (changes : List Change) :
    (bucket.commit budget disk changes).bucket.entries = bucket.entries ∨
      (bucket.commit budget disk changes).bucket.entries =
        Change.actAll bucket.entries changes := by
  unfold commit
  split
  · exact .inl rfl
  · split
    · exact .inl rfl
    · dsimp only
      split
      · exact .inl rfl
      · exact .inr (applyAll_frame _ budget changes).1

namespace Store

variable {store middle after : Store} {index few : Nat} {bucket : Bucket} {changes : List Change}
  {key : EntryKey}

/-- Some entry stands at this place. -/
def Stores (store : Store) (key : EntryKey) : Prop :=
  ∃ (index : Nat) (bucket : Bucket) (entry : Entry),
    store.buckets[index]? = some bucket ∧ bucket.entries.get? key = some entry

theorem stores_iff :
    store.Stores key ↔ ∃ bucket ∈ store.buckets.toList, key ∈ bucket.entries.keys := by
  constructor
  · rintro ⟨index, bucket, entry, found, stored⟩
    exact ⟨bucket, mem_toList found, List.mem_map.mpr ⟨(key, entry),
      Table.mem_bindings_iff.mpr stored, rfl⟩⟩
  · rintro ⟨bucket, member, there⟩
    obtain ⟨index, found⟩ := List.mem_iff_getElem?.mp member
    obtain ⟨⟨_, entry⟩, stored, rfl⟩ := List.mem_map.mp there
    exact ⟨index, bucket, entry, Array.getElem?_toList ▸ found, Table.mem_bindings_iff.mp stored⟩

theorem stores_set {new : Bucket}
    (replaced : after.buckets = store.buckets.setIfInBounds index new) (stores : after.Stores key) :
    store.Stores key ∨ ∃ entry, new.entries.get? key = some entry := by
  obtain ⟨i, other, entry, there, stored⟩ := stores
  rw [replaced, Array.getElem?_setIfInBounds] at there
  split at there
  · split at there
    · cases there
      exact .inr ⟨entry, stored⟩
    · cases there
  · exact .inl ⟨i, other, entry, there, stored⟩

/-- What stands after a commit stood there before, or one of the changes can fill its place. -/
theorem stores_commit (found : store.buckets[index]? = some bucket)
    (stores : (store.commit index bucket changes).2.Stores key) :
    store.Stores key ∨ ∃ change ∈ changes, change.key = key ∧ ¬ change.Barren := by
  have replaced : (store.commit index bucket changes).2.buckets = store.buckets.setIfInBounds index
      (bucket.commit store.budget store.disk changes).bucket := by
    unfold commit
    dsimp only
    split <;> rfl
  rcases stores_set replaced stores with before | ⟨entry, stored⟩
  · exact .inl before
  · rcases bucket.entries_commit store.budget store.disk changes with same | acted
    · exact .inl ⟨index, bucket, entry, found, same ▸ stored⟩
    · rw [acted] at stored
      refine (Change.filled_of_get?_actAll stored).imp_left ?_
      rintro ⟨before, there⟩
      exact ⟨index, bucket, before, found, there⟩

theorem mem_committed_commit {change : Change}
    (member : change ∈ (store.commit index bucket changes).2.outbox.committed) :
    change ∈ store.outbox.committed ∨ change ∈ changes := by
  unfold commit at member
  dsimp only at member
  split at member
  · exact List.mem_append.mp member
  · exact .inl member

/-- Nothing is stored in a new place, and no number drawn. -/
structure Narrows (store after : Store) : Prop where
  sequence : after.sequence = store.sequence
  stores : ∀ {key}, after.Stores key → store.Stores key
  committed : ∀ change ∈ after.outbox.committed,
    change ∈ store.outbox.committed ∨ change.inserted? = none

/-- A number is drawn, and nothing stored in a new place but under this number. -/
structure Draws (store after : Store) : Prop where
  sequence : after.sequence = store.sequence.advance
  stores : ∀ {key}, after.Stores key → store.Stores key ∨ key.sequence = store.sequence.next
  committed : ∀ change ∈ after.outbox.committed, change ∈ store.outbox.committed ∨
    change.inserted? = none ∨ change.key.sequence = store.sequence.next

namespace Narrows

theorem refl (store : Store) : store.Narrows store :=
  ⟨rfl, id, fun _ => .inl⟩

theorem trans (first : store.Narrows middle) (second : middle.Narrows after) :
    store.Narrows after where
  sequence := second.sequence.trans first.sequence
  stores there := first.stores (second.stores there)
  committed change member :=
    (second.committed change member).elim (first.committed change) .inr

/-- Changes of what is stored, and barren ones, open no place. -/
theorem commit (found : store.buckets[index]? = some bucket)
    (tame : ∀ change ∈ changes, change.inserted? = none ∧
      (change.Barren ∨ ∃ entry, bucket.entries.get? change.key = some entry)) :
    store.Narrows (store.commit index bucket changes).2 where
  sequence := sequence_commit _ _ _ _
  stores there := by
    rcases stores_commit found there with before | ⟨change, member, rfl, fertile⟩
    · exact before
    · obtain ⟨entry, stored⟩ := (tame change member).2.resolve_left fertile
      exact ⟨index, bucket, entry, found, stored⟩
  committed change member :=
    (mem_committed_commit member).imp_right fun new => (tame change new).1

theorem commit_barren (found : store.buckets[index]? = some bucket)
    (barren : ∀ change ∈ changes, change.Barren) :
    store.Narrows (store.commit index bucket changes).2 :=
  .commit found fun change member => ⟨(barren change member).inserted?, .inl (barren change member)⟩

/-- Nor does upkeep of a bucket. -/
theorem set (found : store.buckets[index]? = some bucket) {new : Bucket}
    (replaced : after.buckets = store.buckets.setIfInBounds index new)
    (same : new.entries = bucket.entries) (sequence : after.sequence = store.sequence)
    (outbox : after.outbox = store.outbox) : store.Narrows after where
  sequence := sequence
  stores there := by
    rcases stores_set replaced there with before | ⟨entry, stored⟩
    · exact before
    · exact ⟨index, bucket, entry, found, same ▸ stored⟩
  committed change member := .inl (outbox ▸ member)

end Narrows

theorem Draws.then (draws : store.Draws middle) (narrows : middle.Narrows after) :
    store.Draws after where
  sequence := narrows.sequence.trans draws.sequence
  stores there := draws.stores (narrows.stores there)
  committed change member :=
    (narrows.committed change member).elim (draws.committed change) fun none => .inr (.inl none)

/-- A commit that draws a number, with an insert under it at most. -/
theorem Draws.commit (found : store.buckets[index]? = some bucket)
    (tame : ∀ change ∈ changes, change.Barren ∨ change.key.sequence = store.sequence.next) :
    store.Draws
      ({ store with sequence := store.sequence.advance }.commit index bucket changes).2 where
  sequence := sequence_commit _ _ _ _
  stores there := by
    have found : { store with sequence := store.sequence.advance }.buckets[index]? = some bucket :=
      found
    rcases stores_commit found there with before | ⟨change, member, rfl, fertile⟩
    · exact .inl before
    · exact .inr ((tame change member).resolve_left fertile)
  committed change member :=
    (mem_committed_commit member).imp_right fun new =>
      (tame change new).imp_left Change.Barren.inserted?

/-! Operations -/

theorem Quiet.narrows (step : Quiet few store after) : store.Narrows after := by
  cases step with
  | edit found edits short =>
    have bare := List.filterMap_eq_nil_iff.mp edits.inserted?
    exact .commit found fun change member =>
      ⟨bare change member, .inr (edits.stored change member)⟩
  | tend found tended => exact .set found rfl tended.entries rfl rfl
  | note => exact ⟨rfl, id, fun _ => .inl⟩

theorem Quietly.narrows (steps : Quietly few store after) : store.Narrows after := by
  induction steps with
  | refl => exact .refl _
  | next step _ ih => exact step.narrows.trans ih

theorem enqueuePubrel_draws (found : store.buckets[index]? = some bucket) (queue : QueueKey)
    (id : UInt16) : store.Draws (store.enqueuePubrel queue id index bucket).2 := by
  refine .commit found ?_
  intro change member
  rw [List.mem_singleton.mp member]
  exact .inr rfl

theorem Step.draws {offer : Option Offer} (step : Step few store offer after) :
    store.Narrows after ∨ store.Draws after := by
  cases step with
  | @enqueue index bucket found queue message evicted stored =>
    refine .inr (.commit found ?_)
    intro change member
    rcases List.mem_append.mp member with gone | new
    · obtain ⟨old, -, rfl⟩ : ∃ old, evicted = some old ∧ Change.delete old = change := by
        simpa using gone
      exact .inl rfl
    · rw [List.mem_singleton.mp new]
      exact .inr rfl
  | enqueuePubrel found _ => exact .inr (enqueuePubrel_draws found _ _)
  | refuse => exact .inl ⟨rfl, id, fun _ => .inl⟩
  | quiet step => exact .inl step.narrows
  | stay => exact .inl (.refl store)

theorem Took.draws {offer : Option Offer} (took : Took store offer after) :
    store.Narrows after ∨ store.Draws after := by
  obtain ⟨few, middle, -, step, rest⟩ := took
  exact step.draws.imp (·.trans rest.narrows) (·.then rest.narrows)

theorem addPubrel_draws (store : Store) (queue : QueueKey) (id : UInt16) (index : Nat) :
    store.Narrows (store.addPubrel queue id index).2 ∨
      store.Draws (store.addPubrel queue id index).2 := by
  have adds := adds_addPubrel store queue id index
  generalize store.addPubrel queue id index = served at adds ⊢
  cases adds with
  | refused | known => exact .inl (.refl store)
  | fresh opened => exact .inr (enqueuePubrel_draws (getElem?_of_bucket opened) queue id)

theorem replace_draws (store : Store) (id : String) (packetId : UInt16) (index : Nat) :
    store.Narrows (store.replace id packetId index).2 ∨
      store.Draws (store.replace id packetId index).2 := by
  have replaces := replaces_replace store id packetId index
  generalize store.replace id packetId index = served at replaces ⊢
  cases replaces with
  | refused | known => exact .inl (.refl store)
  | fresh opened => exact .inr (enqueuePubrel_draws (getElem?_of_bucket opened) _ packetId)
  | releases opened _ there =>
    refine .inl (.commit (getElem?_of_bucket opened) ?_)
    intro change member
    rw [List.mem_singleton.mp member]
    exact ⟨rfl, .inr ⟨_, there⟩⟩

/-- What a reading changes, it changes where something stands. -/
theorem Delivers.barren {shared : Bool} {rest : List (EntryKey × Entry)} {delivery : Delivery}
    (delivers : Delivers shared rest delivery) : ∀ change ∈ delivery.changes, change.Barren := by
  induction delivers with
  | stop | panic => exact List.forall_mem_nil _
  | pass _ _ ih => exact ih
  | expire _ _ _ ih | drop _ _ _ _ ih => exact List.forall_mem_cons.mpr ⟨rfl, ih⟩
  | hand key _ _ id _ ih => cases shared <;> exact List.forall_mem_cons.mpr ⟨rfl, ih⟩

theorem readNew_narrows (store : Store) (queue : QueueKey) (pool : List UInt16)
    (byteLimit now : UInt64) (index : Nat) :
    store.Narrows (store.readNew queue pool byteLimit now index).2 := by
  have step {bucket : Bucket} (found : store.buckets[index]? = some bucket)
      (counts : QueueCounts) : store.Narrows (store.commit index bucket
        (reading store.settings.overflow bucket queue counts pool byteLimit now).changes).2 :=
    .commit_barren found (delivers_reading _ bucket queue counts pool byteLimit now).barren
  have reads := reads_readNew store queue pool byteLimit now index
  generalize store.readNew queue pool byteLimit now index = served at reads ⊢
  cases reads with
  | refused | unknown | panics => exact .refl store
  | @fails _ counts _ _ opened _ _ failed =>
    have narrows := step (getElem?_of_bucket opened) counts
    rwa [failed] at narrows
  | @hands _ counts _ opened _ _ done =>
    have narrows := step (getElem?_of_bucket opened) counts
    rw [done] at narrows
    exact narrows.trans ⟨rfl, id, fun _ => .inl⟩

theorem remove_narrows (store : Store) (id : String) (packetId : UInt16)
    (expected : Option String) (index : Nat) :
    store.Narrows (store.remove id packetId expected index).2 := by
  have removes := removes_remove store id packetId expected index
  generalize store.remove id packetId expected index = served at removes ⊢
  cases removes with
  | refused | unknown | unexpected => exact .refl store
  | removes opened =>
    exact .commit_barren (getElem?_of_bucket opened) (List.forall_mem_singleton.mpr rfl)

theorem Edited.narrows (edited : store.Edited after) : store.Narrows after := by
  obtain ⟨few, -, steps⟩ := edited
  exact steps.narrows

theorem cleanUp_narrows (store : Store) (now : UInt64) (index : Nat) :
    store.Narrows (store.cleanUp now index).2 := by
  have step {bucket : Bucket} (found : store.buckets[index]? = some bucket) :
      store.Narrows (store.commit index bucket ((staleKeys bucket now).map .delete)).2 :=
    .commit_barren found fun change member => by
      obtain ⟨key, -, rfl⟩ := List.mem_map.mp member
      rfl
  have cleans := cleansUp_cleanUp store now index
  generalize store.cleanUp now index = served at cleans ⊢
  cases cleans with
  | refused => exact .refl store
  | fails opened failed =>
    have narrows := step (getElem?_of_bucket opened)
    rwa [failed] at narrows
  | sweeps opened done there _ =>
    have narrows := step (getElem?_of_bucket opened)
    rw [done] at narrows
    exact narrows.trans (.set there rfl rfl rfl rfl)
  | @compacts _ swept left opened done there _ =>
    have narrows := step (getElem?_of_bucket opened)
    rw [done] at narrows
    have same : (left.forgetEmptyQueues.compact swept.disk).2.1.entries = left.entries :=
      (Bucket.Tended.compact swept.disk (Nat.le_refl _)).entries
    exact narrows.trans (.set there (Array.setIfInBounds_setIfInBounds _) same rfl rfl)

/-- Whatever is asked of a store, what it then stores stood there before or stands under the number
that was drawn. -/
theorem serve_draws (store : Store) (request : Request) :
    store.Narrows (store.serve request).2 ∨ store.Draws (store.serve request).2 := by
  cases request with
  | add queue message limit policy index =>
    cases message with
    | publish message => exact (addPublish_took store queue message limit policy index).draws
    | pubrel id => exact addPubrel_draws store queue id index
  | readNew queue pool byteLimit now index =>
    exact .inl (readNew_narrows store queue pool byteLimit now index)
  | readInFlight | size => exact .inl (.refl store)
  | replace id packetId index => exact replace_draws store id packetId index
  | remove id packetId expected index =>
    exact .inl (remove_narrows store id packetId expected index)
  | removeShared id uniqueId index =>
    exact .inl (removeShared_edited store id uniqueId index).narrows
  | giveBack id uniqueId index => exact .inl (giveBack_edited store id uniqueId index).narrows
  | removeQos0 queue index =>
    exact .inl (deleteEntries_edited store queue (fun entry => entry.messageClass = .qos0)
      index).narrows
  | clear queue index => exact .inl (deleteEntries_edited store queue (fun _ => true) index).narrows
  | cleanUp now index => exact .inl (cleanUp_narrows store now index)
  | close => exact .inl (close_edited store).narrows

/-! Opening -/

/-- A bucket is added with what its journal replays to, and the numbers go on after all that the
journal mentions. -/
theorem eq_of_addBucket {journal : Journal} (added : store.addBucket journal = .ok after) :
    ∃ changes bucket, bucket.entries = Change.actAll Table.empty changes ∧
      after.buckets = store.buckets.push bucket ∧
      after.sequence = (Batch.top changes).elim store.sequence store.sequence.resumeAfter ∧
      after.outbox = store.outbox := by
  let bare := { Bucket.ofJournal store.bucketCount journal with
    journal := (journal.replay store.disk).journal }
  unfold addBucket Bucket.recover at added
  cases read : (journal.replay store.disk).answer with
  | error fault =>
    simp only [Bucket.ofJournal, read] at added
    cases added
  | ok batches =>
    have replayed := bare.replayBatches_eq store.budget none batches
    cases whole : Batch.changes? batches with
    | none =>
      rw [whole] at replayed
      obtain ⟨fault, failed⟩ := replayed
      simp only [Bucket.ofJournal, read, bare] at added failed
      rw [failed] at added
      cases added
    | some changes =>
      rw [whole] at replayed
      simp only [Bucket.ofJournal, read, bare] at added replayed
      rw [replayed] at added
      cases added
      exact ⟨changes, _, (Bucket.applyAll_frame bare store.budget changes).1, rfl, rfl, rfl⟩

/-- The next number comes after each that stands in the store, unless there is none after it. -/
def Resumes (store : Store) : Prop := ∀ key, store.Stores key →
  min (key.sequence.toNat + 1) Sequence.last.toNat ≤ store.sequence.next.toNat

/-- A store goes on after all that it recovers. -/
theorem resumes_of_ofJournals {settings : Settings} {journals : List Journal} {disk : Disk}
    (opened : ofJournals settings journals disk = .ok store) :
    store.Resumes ∧ store.outbox = .empty := by
  refine of_ofJournals (P := fun store => store.Resumes ∧ store.outbox = .empty) opened
    (fun used => ⟨?_, rfl⟩) ?_
  · rintro key ⟨index, bucket, entry, found, -⟩
    cases found
  · rintro journal - before after ⟨carried, outbox⟩ added
    obtain ⟨changes, bucket, entries, buckets, sequence, same⟩ := eq_of_addBucket added
    refine ⟨?_, same.trans outbox⟩
    have last : Sequence.last.toNat = UInt64.size - 1 := rfl
    rintro key ⟨index, other, entry, found, stored⟩
    rw [buckets, Array.getElem?_push] at found
    rcases Batch.top_cases changes with ⟨rfl, none⟩ | ⟨highest, top, -, above⟩
    · rw [none] at sequence
      split at found
      · cases found
        rw [entries] at stored
        cases stored
      · rw [sequence]
        exact carried key ⟨index, other, entry, found, stored⟩
    · rw [top] at sequence
      change after.sequence = before.sequence.resumeAfter highest at sequence
      rw [sequence, Sequence.toNat_next_resumeAfter]
      split at found
      · cases found
        rw [entries] at stored
        rcases Change.mem_of_get?_actAll stored with nothing | ⟨change, member, rfl⟩
        · cases nothing
        · have below := above change member
          omega
      · have before := carried key ⟨index, other, entry, found, stored⟩
        omega

end Store

namespace World

variable {world : World} {first : Nat}

/-- The next number is as far from the first as numbers were drawn, and all that is stored stands
under lower ones. -/
structure Leads (world : World) (first : Nat) : Prop where
  next : world.store.sequence.next.toNat = first + world.drawn
  under : ∀ {key}, world.store.Stores key → key.sequence < world.store.sequence.next
  outbox : world.store.outbox = .empty

theorem Leads.ask (leads : world.Leads first) (request : Request)
    (room : first + (world.ask request).drawn < UInt64.size) : (world.ask request).Leads first := by
  have next := leads.next
  rcases world.store.serve_draws request with narrows | draws
  · have drawn : (world.ask request).drawn = world.drawn := by
      simp [World.ask, narrows.sequence]
    refine ⟨?_, fun there => ?_, rfl⟩
    · rw [drawn, ← next]
      exact congrArg (·.next.toNat) narrows.sequence
    · have same : (world.ask request).store.sequence = world.store.sequence := narrows.sequence
      rw [same]
      exact leads.under (narrows.stores there)
  · have one : world.store.sequence.next + 1 - world.store.sequence.next = 1 := by
      rw [UInt64.add_comm, UInt64.add_sub_cancel]
    have drawn : (world.ask request).drawn = world.drawn + 1 := by
      simp [World.ask, draws.sequence, Sequence.advance, one]
    have moved : (world.ask request).store.sequence = world.store.sequence.advance := draws.sequence
    have higher : (world.ask request).store.sequence.next.toNat =
        world.store.sequence.next.toNat + 1 := by
      have size : UInt64.size = 2 ^ 64 := rfl
      rw [drawn] at room
      rw [moved]
      apply Store.toNat_advance
      simp only [Sequence.advance, UInt64.toNat_add, UInt64.reduceToNat]
      omega
    refine ⟨by omega, fun {key} there => ?_, rfl⟩
    rw [UInt64.lt_iff_toNat_lt, higher]
    rcases draws.stores there with before | new
    · have below := UInt64.lt_iff_toNat_lt.mp (leads.under before)
      omega
    · rw [new]
      omega

theorem stores_tell (world : World) (index : Nat) (mood : Mood) {key : EntryKey}
    (there : (world.tell index mood).store.Stores key) : world.store.Stores key := by
  unfold tell at there
  split at there
  · exact there
  · rename_i bucket found
    rcases Store.stores_set rfl there with before | ⟨entry, stored⟩
    · exact before
    · exact ⟨index, bucket, entry, found, stored⟩

theorem Leads.step (leads : world.Leads first) {event : Event}
    (single : ∀ settings, event ≠ .restart settings)
    (room : first + (world.step event).drawn < UInt64.size) : (world.step event).Leads first := by
  cases event with
  | ask request => exact leads.ask request room
  | call => exact ⟨leads.next, leads.under, leads.outbox⟩
  | tell index mood =>
    have same : (world.tell index mood).store.sequence = world.store.sequence ∧
        (world.tell index mood).drawn = world.drawn ∧
        (world.tell index mood).store.outbox = world.store.outbox := by
      unfold tell
      split <;> exact ⟨rfl, rfl, rfl⟩
    obtain ⟨sequence, drawn, outbox⟩ := same
    refine ⟨?_, fun there => ?_, outbox.trans leads.outbox⟩
    · rw [World.step, sequence, drawn]
      exact leads.next
    · rw [World.step, sequence]
      exact leads.under (stores_tell world index mood there)
  | restart settings => exact absurd rfl (single settings)

theorem Leads.run (leads : world.Leads first) {events : List Event}
    (single : ∀ settings, .restart settings ∉ events)
    (room : first + (world.run events).drawn < UInt64.size) : (world.run events).Leads first := by
  induction events using List.reverseRecOn with
  | nil => exact leads
  | append_singleton events event ih =>
    rw [run_concat] at room ⊢
    have fewer := drawn_le_step (world.run events) event
    have before := ih (fun settings member => single settings (List.mem_append_left _ member))
      (by omega)
    refine before.step (fun settings again => single settings ?_) room
    exact List.mem_append_right _ (List.mem_singleton.mpr again.symm)

/-- An entry of this number comes after all that was recovered, and after all that is stored now;
nothing gives way to it. -/
structure Newest (recovered now : Store) (queue : QueueKey) (n : UInt64) : Prop where
  above : ∀ key, recovered.Stores key → key.sequence < n
  behind : ∀ key, now.Stores key → key.sequence < n
  sorted : ∀ key, now.Stores key → key.queue = queue → compare key ⟨queue, n⟩ = .lt
  free : ¬ now.Stores ⟨queue, n⟩

theorem Leads.newest {store : Store} (leads : world.Leads store.sequence.next.toNat)
    (under : ∀ key, store.Stores key → key.sequence < store.sequence.next) (queue : QueueKey) :
    Newest store world.store queue world.store.sequence.next where
  above key recovered := by
    have below := UInt64.lt_iff_toNat_lt.mp (under key recovered)
    have next := leads.next
    rw [UInt64.lt_iff_toNat_lt]
    omega
  behind _ there := leads.under there
  sorted _ there its := EntryKey.compare_eq_lt its (UInt64.lt_iff_toNat_lt.mp (leads.under there))
  free there := UInt64.lt_irrefl _ (leads.under there)

/-- What is added stands under the number that was drawn for it. -/
theorem sequence_of_insert (world : World) (settled : world.store.outbox = .empty)
    {request : Request} {key : EntryKey} {entry : Entry}
    (added : .insert key entry ∈ (world.store.serve request).2.outbox.committed) :
    key.sequence = world.store.sequence.next := by
  have committed : ∀ change ∈ (world.store.serve request).2.outbox.committed,
      change ∈ world.store.outbox.committed ∨ change.inserted? = none ∨
        change.key.sequence = world.store.sequence.next := by
    rcases world.store.serve_draws request with narrows | draws
    · exact fun change member => (narrows.committed change member).imp_right .inl
    · exact draws.committed
  rcases committed _ added with before | none | its
  · rw [settled] at before
    cases before
  · cases none
  · exact its

section Run
variable {settings : Settings} {journals : List Journal} {disk : Disk} {store : Store}
  (opened : Store.ofJournals settings journals disk = .ok store) (payloads : Payloads)
  {events : List Event} (single : ∀ settings, .restart settings ∉ events)
  (room : store.sequence.next.toNat + ((start store payloads).run events).drawn < UInt64.size)
include opened single room

/-- After a store was opened over any journals, and whatever was done with it since, a message that
is added comes after all others, exactly if no entry that was recovered has the last number there
is. There has to be a number left for it: there is one if none was drawn since. -/
theorem add_comes_last_iff {queue : QueueKey} {message : Publish} {limit index : Nat}
    {policy : DiscardPolicy} {n : UInt64}
    (added : .insert ⟨queue, n⟩ (.publish (.ofPublish message)) ∈
      (((start store payloads).run events).store.serve
        (.add queue (.publish message) limit policy index)).2.outbox.committed) :
    Newest store ((start store payloads).run events).store queue n ↔
      ∀ key, store.Stores key → key.sequence ≠ Sequence.last := by
  obtain ⟨resumes, settled⟩ := Store.resumes_of_ofJournals opened
  have last : Sequence.last.toNat = 2 ^ 64 - 1 := rfl
  constructor
  · intro newest key stored highest
    have above := UInt64.lt_iff_toNat_lt.mp (newest.above key stored)
    have most := n.toNat_lt
    rw [highest, last] at above
    omega
  · intro lower
    have under (key : EntryKey) (stored : store.Stores key) :
        key.sequence < store.sequence.next := by
      have next := resumes key stored
      have most := key.sequence.toNat_lt
      have less : key.sequence.toNat ≠ Sequence.last.toNat := fun same =>
        lower key stored (UInt64.toNat_inj.mp same)
      rw [UInt64.lt_iff_toNat_lt]
      omega
    have begun : (start store payloads).Leads store.sequence.next.toNat :=
      ⟨rfl, fun there => under _ there, settled⟩
    have leads := begun.run single room
    have its : n = _ := sequence_of_insert _ leads.outbox added
    rw [its]
    exact leads.newest under queue

end Run

/-! A message under a high number -/

/-- A journal in memory that brings in one message, under this number. -/
def brought (n : UInt64) : Journal :=
  let message := StoredPublish.ofPublish (.ofQos .atLeastOnce "u1" 1)
  .memory { MemoryJournal.empty with
    batches := [Batch.bytes [.insert ⟨.client, n⟩ (.publish message)]] }

/-- The store over it. -/
def bringing (n : UInt64) : Store :=
  (Store.ofJournals .single [brought n] .empty).toOption.getD .single

def newcomer : Publish := .ofQos .atLeastOnce "u2" 2

/-- The journal refuses another message, and works again. -/
def refusing : List Event :=
  [.tell 0 ⟨none, true, false, 0⟩,
    .ask (.add .client (.publish newcomer) 10 .discard 0),
    .tell 0 ⟨none, false, false, 0⟩]

/-- At the second go the message gets the last number. -/
theorem add_comes_last_iff_retried :
    let store := bringing (Sequence.last - 2)
    let world := (start store .empty).run refusing
    Store.ofJournals .single [brought (Sequence.last - 2)] .empty = .ok store ∧
      Newest store world.store .client Sequence.last := by
  intro store world
  have opened : Store.ofJournals .single [brought (Sequence.last - 2)] .empty = .ok store := rfl
  have single : ∀ settings, .restart settings ∉ refusing := by
    rintro settings (- | ⟨_, - | ⟨_, - | ⟨_, ⟨⟩⟩⟩⟩)
  have room : store.sequence.next.toNat + world.drawn < UInt64.size := by decide +kernel
  have added : .insert ⟨.client, Sequence.last⟩ (.publish (.ofPublish newcomer)) ∈
      (world.store.serve (.add .client (.publish newcomer) 10 .discard 0)).2.outbox.committed := by
    decide +kernel
  refine ⟨opened, (add_comes_last_iff opened .empty single room added).mpr ?_⟩
  have lower : ∀ bucket ∈ store.buckets.toList, ∀ key ∈ bucket.entries.keys,
      key.sequence ≠ Sequence.last := by decide +kernel
  intro key stored
  obtain ⟨bucket, member, there⟩ := Store.stores_iff.mp stored
  exact lower bucket member key there

/-- A recovered message that has the last number gives way to the next one. -/
theorem add_replaces_last :
    let store := bringing Sequence.last
    let served := store.serve (.add .client (.publish newcomer) 10 .discard 0)
    Store.ofJournals .single [brought Sequence.last] .empty = .ok store ∧
      store.Stores ⟨.client, Sequence.last⟩ ∧
      .insert ⟨.client, Sequence.last⟩ (.publish (.ofPublish newcomer)) ∈
        served.2.outbox.committed ∧
      store.total (·.size .client) = 1 ∧ served.2.total (·.size .client) = 1 ∧
      served.2.outbox.released = [1] ∧
      ¬ ∀ n, .insert ⟨.client, n⟩ (.publish (.ofPublish newcomer)) ∈ served.2.outbox.committed →
        Newest store store .client n := by
  intro store served
  have stored : store.Stores ⟨.client, Sequence.last⟩ := by
    refine Store.stores_iff.mpr ?_
    decide +kernel
  have added : .insert ⟨.client, Sequence.last⟩ (.publish (.ofPublish newcomer)) ∈
      served.2.outbox.committed := by decide +kernel
  refine ⟨rfl, stored, added, by decide +kernel, by decide +kernel, by decide +kernel, ?_⟩
  intro newest
  exact (newest _ added).free stored

end World

end DeliveryQueue
