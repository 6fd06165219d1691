import DeliveryQueue.Proofs.Operations
import DeliveryQueue.Proofs.Recovery
import Mathlib.Data.List.Nodup
import Mathlib.Data.List.Perm.Subperm

/-!
The steps that store operations are made of. An operation takes in at most one message, with its
payload reference (`Step`); what else it does to the entries are edits of what is stored, and what
it does to the buckets leaves their entries alone (`Quiet`). Invariants are shown for these steps;
that the operations consist of them is shown here, once for each operation.
-/
namespace DeliveryQueue

theorem Entry.isNew_of_isStale {now : UInt64} {entry : Entry} (stale : entry.isStale now = true) :
    entry.isNew = true := by
  cases entry with
  | publish stored =>
    rw [isStale, Bool.and_eq_true] at stale
    exact stale.1
  | pubrel | taken => cases stale

theorem PacketIds.nodup_eraseDups (ids : List UInt16) : ids.eraseDups.Nodup := by
  match ids with
  | [] => simp
  | id :: ids =>
    rw [List.eraseDups_cons, List.nodup_cons, List.mem_eraseDups]
    exact ⟨by simp, nodup_eraseDups _⟩
termination_by ids.length
decreasing_by
  exact Nat.lt_succ_of_le (List.length_filter_le _ ids)

/-- What upkeep does to a bucket. It writes snapshots of so many entries at most. -/
inductive Bucket.Tended (few : Nat) (bucket : Bucket) : Bucket → Prop
  | flush (journal : Journal)
      (held : ∀ batches, bucket.journal.held? = some batches → journal.held? = some batches) :
      Tended few bucket { bucket with journal }
  | forget : Tended few bucket bucket.forgetEmptyQueues
  | compact (disk : Disk) (short : bucket.entryCount ≤ few) :
      Tended few bucket (bucket.compact disk).2.1

theorem Bucket.Tended.entries {few : Nat} {bucket after : Bucket}
    (tended : bucket.Tended few after) :
    after.entries = bucket.entries := by
  cases tended with
  | flush | forget => rfl
  | compact disk short =>
    unfold Bucket.compact
    split <;> rfl

theorem Bucket.Tended.kept {few : Nat} {bucket after : Bucket} (tended : bucket.Tended few after)
    (kept : bucket.Kept) : after.Kept := by
  cases tended with
  | flush journal held =>
    obtain ⟨batches, before, recalls⟩ := kept.recalled
    exact ⟨kept.agrees.withJournal journal, kept.sound, batches, held batches before, recalls⟩
  | forget => exact kept.forgetEmptyQueues
  | compact disk short => exact kept.compact disk

/-- A PUBLISH that is handed to a store, with the queue and the bucket that it is meant for. -/
structure Offer where
  queue : QueueKey
  message : Publish
  index : Nat
  deriving DecidableEq, Repr

namespace Store

/-- Every bucket of the store is kept by its journal. -/
def Kept (store : Store) : Prop :=
  ∀ ⦃index : Nat⦄ ⦃bucket : Bucket⦄, store.buckets[index]? = some bucket → bucket.Kept

/-- A step that takes nothing in. It writes so many changes at most. -/
inductive Quiet (few : Nat) : Store → Store → Prop
  | edit {store : Store} {index : Nat} {bucket : Bucket} {changes : List Change}
      (found : store.buckets[index]? = some bucket) (edits : EditsAlong bucket.entries changes)
      (short : changes.length ≤ few) : Quiet few store (store.commit index bucket changes).2
  | tend {store : Store} {index : Nat} {bucket after : Bucket}
      (found : store.buckets[index]? = some bucket) (tended : bucket.Tended few after) :
      Quiet few store { store with buckets := store.buckets.setIfInBounds index after }
  | note {store : Store} (stats : Stats) (notices : List Notice) (closed : Bool) (disk : Disk) :
      Quiet few store { store with stats, outbox.notices := notices, closed, disk }

/-- Any number of quiet steps. -/
inductive Quietly (few : Nat) : Store → Store → Prop
  | refl (store : Store) : Quietly few store store
  | next {a b c : Store} (step : Quiet few a b) (rest : Quietly few b c) : Quietly few a c

/-- The first step of an operation. It alone draws numbers and takes payload references over. -/
inductive Step (few : Nat) : Store → Option Offer → Store → Prop
  | enqueue {store : Store} {index : Nat} {bucket : Bucket}
      (found : store.buckets[index]? = some bucket) (queue : QueueKey) (message : Publish)
      {evicted : Option EntryKey}
      (stored : ∀ key ∈ evicted, ∃ entry, bucket.entries.get? key = some entry) :
      Step few store (some ⟨queue, message, index⟩)
        ({ store with sequence := store.sequence.advance }.commit index bucket
          (arrival evicted ⟨queue, store.sequence.next⟩ message)).2
  | enqueuePubrel {store : Store} {index : Nat} {bucket : Bucket}
      (found : store.buckets[index]? = some bucket) {queue : QueueKey} {id : UInt16}
      (free : ¬ bucket.entries.Carries queue id) :
      Step few store none
        ({ store with sequence := store.sequence.advance }.commit index bucket
          [Change.insert ⟨queue, store.sequence.next⟩ (.pubrel id)]).2
  | refuse (store : Store) (offer : Offer) :
      Step few store (some offer) (store.release offer.message.payload)
  | quiet {store after : Store} (step : Quiet few store after) : Step few store none after
  | stay (store : Store) : Step few store none store

/-- No operation writes more changes at once than a bucket holds entries, an arrival aside. -/
def Spans (store : Store) (few : Nat) : Prop :=
  few ≤ 1 ∨ ∃ (index : Nat) (bucket : Bucket),
    store.buckets[index]? = some bucket ∧ few ≤ bucket.entryCount

/-- A first step that takes in what is offered, and quiet ones after it. -/
def Took (store : Store) (offer : Option Offer) (after : Store) : Prop :=
  ∃ few middle, store.Spans few ∧ Step few store offer middle ∧ Quietly few middle after

/-- Quiet steps only. -/
def Edited (store after : Store) : Prop := ∃ few, store.Spans few ∧ Quietly few store after

namespace Quietly

variable {few : Nat}

theorem trans {a b c : Store} (first : Quietly few a b) (second : Quietly few b c) :
    Quietly few a c := by
  induction first with
  | refl => exact second
  | next step _ ih => exact .next step (ih second)

theorem single {a b : Store} (step : Quiet few a b) : Quietly few a b := .next step (.refl b)

end Quietly

variable {store after : Store} {offer : Option Offer} {index few : Nat} {bucket : Bucket}

theorem spans_one (store : Store) : store.Spans 1 := .inl (Nat.le_refl 1)

theorem spans_entryCount (found : store.buckets[index]? = some bucket) :
    store.Spans bucket.entryCount := .inr ⟨index, bucket, found, Nat.le_refl _⟩

/-- An operation on a single entry, if any. -/
theorem Took.step (step : Step 1 store offer after) : Took store offer after :=
  ⟨1, after, spans_one store, step, .refl after⟩

theorem Took.stay (store : Store) : Took store none store := .step (.stay store)

namespace Edited

theorem stay (store : Store) : store.Edited store := ⟨1, spans_one store, .refl store⟩

/-- A single quiet step on a single entry. -/
theorem step (step : Quiet 1 store after) : store.Edited after := ⟨1, spans_one store, .single step⟩

theorem took (edited : store.Edited after) : Took store none after := by
  obtain ⟨few, spans, steps⟩ := edited
  exact ⟨few, store, spans, .stay store, steps⟩

end Edited

/-- The sum of a measure over all buckets. -/
def total (store : Store) (measure : Bucket → Nat) : Nat :=
  (store.buckets.toList.map measure).sum

/-- Replacing an element of a list trades its measure for that of the new one. -/
theorem sum_map_set {α : Type} {l : List α} {i : Nat} {a : α} (there : l[i]? = some a) (new : α)
    (measure : α → Nat) :
    ((l.set i new).map measure).sum + measure a = (l.map measure).sum + measure new := by
  induction l generalizing i with
  | nil => cases there
  | cons b l ih =>
    cases i with
    | zero =>
      cases there
      simp only [List.set_cons_zero, List.map_cons, List.sum_cons]
      omega
    | succ i =>
      have rest := ih there
      simp only [List.set_cons_succ, List.map_cons, List.sum_cons]
      omega

/-- Replacing a bucket trades its measure for that of the new one. -/
theorem total_set (found : store.buckets[index]? = some bucket) {new : Bucket} (after : Store)
    (replaced : after.buckets = store.buckets.setIfInBounds index new) (measure : Bucket → Nat) :
    after.total measure + measure bucket = store.total measure + measure new := by
  simp only [total, replaced, Array.toList_setIfInBounds]
  exact sum_map_set (by rwa [Array.getElem?_toList]) new measure

/-- Committing fails and settles only what would have come in, or changes one bucket and settles
what went out. -/
theorem commit_cases (kept : bucket.Kept) (found : store.buckets[index]? = some bucket)
    (changes : List Change) :
    (∃ fault, store.commit index bucket changes =
        (.error (.storage fault), store.releaseEntries (changes.filterMap Change.inserted?))) ∨
      ∃ after left, bucket.Committed store.budget changes after left ∧
        store.commit index bucket changes = (.ok (),
          ({ store with
              buckets := store.buckets.setIfInBounds index after
              budget := left }.releaseEntries
            (Change.displacedAll bucket.entries changes)).record changes) := by
  have same : store.buckets.setIfInBounds index bucket = store.buckets := by
    obtain ⟨inside, rfl⟩ := Array.getElem?_eq_some_iff.mp found
    rw [Array.setIfInBounds, dif_pos inside, Array.set_getElem_self]
  obtain ⟨batches, held, _⟩ := kept.recalled
  rcases Bucket.commit_cases held store.budget store.disk changes with
    ⟨fault, failed⟩ | ⟨after, left, committed, done⟩
  · exact .inl ⟨fault, by simp only [commit, failed, same]⟩
  · exact .inr ⟨after, left, committed, by simp only [commit, done]⟩

theorem length_queueEntries_le (bucket : Bucket) (queue : QueueKey) :
    (bucket.queueEntries queue).length ≤ bucket.entryCount := List.length_filter_le _ _

/-- One entry is taken out. -/
theorem quiet_delete (found : store.buckets[index]? = some bucket) {key : EntryKey} {entry : Entry}
    (stored : bucket.entries.get? key = some entry) :
    Quiet 1 store (store.commit index bucket [.delete key]).2 :=
  .edit found ⟨.delete stored, trivial⟩ (Nat.le_refl 1)

theorem quiet_stats (store : Store) (stats : Stats) : Quiet few store { store with stats } :=
  .note stats store.outbox.notices store.closed store.disk

/-! Adding -/

theorem quietly_evictQos0 (fuel : Nat) (store : Store) :
    Quietly 1 store (store.evictQos0 fuel) := by
  induction fuel generalizing store with
  | zero => exact .refl store
  | succ fuel ih =>
    unfold evictQos0
    split
    · split
      · exact .refl store
      · rename_i index key _
        split
        · exact .refl store
        · rename_i bucket found
          split
          · exact .refl store
          · rename_i message holds
            obtain ⟨entry, stored, _⟩ := Option.bind_eq_some_iff.mp holds
            have deleted := quiet_delete found stored
            generalize store.commit index bucket [.delete key] = committed at deleted
            obtain ⟨answer, after⟩ := committed
            cases answer with
            | error fault => exact .next deleted (.single (quiet_stats after _))
            | ok => exact .next deleted (.next (.note _ _ after.closed after.disk) (ih _))
    · exact .refl store

theorem enqueue_took (found : store.buckets[index]? = some bucket) (queue : QueueKey)
    (message : Publish) {evicted : Option EntryKey}
    (stored : ∀ key ∈ evicted, ∃ entry, bucket.entries.get? key = some entry) :
    Took store (some ⟨queue, message, index⟩)
      (store.enqueue queue message evicted index bucket).2 := by
  have step : Step 1 store _ _ := .enqueue found queue message stored
  have enqueues := enqueues_enqueue store queue message evicted index bucket
  generalize store.enqueue queue message evicted index bucket = served at enqueues ⊢
  cases enqueues with
  | fails failed =>
    rw [failed] at step
    exact .step step
  | @arrives after last done room =>
    rw [done] at step
    refine ⟨1, after, spans_one store, step, ?_⟩
    have yields : Quietly 1 after last := by
      rw [room]
      cases evicted.bind fun old => (bucket.entries.get? old).bind Entry.message? with
      | none => exact .refl after
      | some old => exact .single (.note _ _ after.closed after.disk)
    dsimp only
    split
    · exact yields.trans (quietly_evictQos0 _ _)
    · exact yields

theorem turnAway_took (store : Store) (queue : QueueKey) (message : Publish) (index : Nat) :
    Took store (some ⟨queue, message, index⟩) (store.turnAway queue message) :=
  ⟨1, _, spans_one store, .refuse store ⟨queue, message, index⟩,
    .single (.note _ _ store.closed store.disk)⟩

theorem addPublish_took (store : Store) (queue : QueueKey) (message : Publish) (limit : Nat)
    (policy : DiscardPolicy) (index : Nat) :
    Took store (some ⟨queue, message, index⟩)
      (store.addPublish queue message limit policy index).2 := by
  have adds := adds_addPublish store queue message limit policy index
  generalize store.addPublish queue message limit policy index = served at adds ⊢
  cases adds with
  | refused => exact .step (.refuse store ⟨queue, message, index⟩)
  | accepted opened =>
    exact enqueue_took (getElem?_of_bucket opened) queue message (by rintro key ⟨⟩)
  | evicting opened _ oldest =>
    apply enqueue_took (getElem?_of_bucket opened) queue message
    rintro key ⟨⟩
    obtain ⟨entry, stored, _⟩ := isNew_of_oldestEvictable? oldest
    exact ⟨entry, stored⟩
  | turnedAway => exact turnAway_took store queue message index

theorem enqueuePubrel_took (kept : store.Kept) (found : store.buckets[index]? = some bucket)
    {queue : QueueKey} {id : UInt16} (free : bucket.inFlightKey? queue id = none) :
    Took store none (store.enqueuePubrel queue id index bucket).2 := by
  rw [Bucket.inFlightKey?_eq, Option.map_eq_none_iff] at free
  exact .step (.enqueuePubrel found ((kept found).agrees.not_carries_of_holder?_eq_none free))

theorem addPubrel_took (kept : store.Kept) (queue : QueueKey) (id : UInt16) (index : Nat) :
    Took store none (store.addPubrel queue id index).2 := by
  have adds := adds_addPubrel store queue id index
  generalize store.addPubrel queue id index = served at adds ⊢
  cases adds with
  | refused | known => exact .stay store
  | fresh opened free => exact enqueuePubrel_took kept (getElem?_of_bucket opened) free

/-! Settling -/

/-- The entry that a bucket answers for a packet id carries it. -/
theorem carries_of_inFlightKey? (agrees : bucket.Agrees) {queue : QueueKey} {id : UInt16}
    {key : EntryKey} (held : bucket.inFlightKey? queue id = some key) :
    ∃ entry, bucket.entries.get? key = some entry ∧ entry.packetId? = some id := by
  rw [Bucket.inFlightKey?_eq] at held
  obtain ⟨sequence, holds, rfl⟩ := Option.map_eq_some_iff.mp held
  exact agrees.indexed.holders holds

/-- A PUBREL takes the place of the message that a packet id leads to. -/
theorem quiet_release (kept : store.Kept) (found : store.buckets[index]? = some bucket)
    {queue : QueueKey} {id : UInt16} {key : EntryKey} {stored : StoredPublish}
    (held : bucket.inFlightKey? queue id = some key)
    (there : bucket.entries.get? key = some (.publish stored)) :
    Quiet 1 store (store.commit index bucket [.release key id]).2 := by
  obtain ⟨entry, here, carries⟩ := carries_of_inFlightKey? (kept found).agrees held
  cases there.symm.trans here
  exact .edit found ⟨.release there carries, trivial⟩ (Nat.le_refl 1)

theorem replace_took (kept : store.Kept) (id : String) (packetId : UInt16) (index : Nat) :
    Took store none (store.replace id packetId index).2 := by
  have replaces := replaces_replace store id packetId index
  generalize store.replace id packetId index = served at replaces ⊢
  cases replaces with
  | refused | known => exact .stay store
  | fresh opened free => exact enqueuePubrel_took kept (getElem?_of_bucket opened) free
  | releases opened held there =>
    exact .step (.quiet (quiet_release kept (getElem?_of_bucket opened) held there))

theorem remove_edited (kept : store.Kept) (id : String) (packetId : UInt16)
    (expected : Option String) (index : Nat) :
    store.Edited (store.remove id packetId expected index).2 := by
  have removes := removes_remove store id packetId expected index
  generalize store.remove id packetId expected index = served at removes ⊢
  cases removes with
  | refused | unknown | unexpected => exact .stay store
  | removes opened held =>
    have found := getElem?_of_bucket opened
    obtain ⟨entry, stored, _⟩ := carries_of_inFlightKey? (kept found).agrees held
    exact .step (quiet_delete found stored)

theorem changeFirst_edited {queue : QueueKey} {fits : Entry → Bool} {change : EntryKey → Change}
    (edits : ∀ bucket : Bucket, ∀ key entry, bucket.entries.get? key = some entry →
      key.queue = queue → fits entry = true → Edit bucket.entries (change key)) (index : Nat) :
    store.Edited (store.changeFirst queue fits change index).2 := by
  have changes := changes_changeFirst store queue fits change index
  generalize store.changeFirst queue fits change index = served at changes ⊢
  cases changes with
  | refused | missing => exact .stay store
  | @changes bucket key entry opened first =>
    obtain ⟨stored, its, suits⟩ := of_find?_queueEntries first
    exact .step (.edit (getElem?_of_bucket opened)
      ⟨edits bucket key entry stored its suits, trivial⟩ (Nat.le_refl 1))

theorem removeShared_edited (store : Store) (id uniqueId : String) (index : Nat) :
    store.Edited (store.removeShared id uniqueId index).2 :=
  changeFirst_edited (fun _ _ _ stored _ _ => .delete stored) index

theorem giveBack_edited (store : Store) (id uniqueId : String) (index : Nat) :
    store.Edited (store.giveBack id uniqueId index).2 := by
  refine changeFirst_edited ?_ index
  intro bucket key entry stored its taken
  cases entry with
  | taken message => exact .giveBack (by rw [its]) stored
  | publish | pubrel => cases taken

theorem deletions_eq (bucket : Bucket) (queue : QueueKey) (fits : Entry → Bool) :
    deletions bucket queue fits =
      (((bucket.queueEntries queue).filter fun e => fits e.2).map Prod.fst).map .delete := by
  rw [deletions, List.map_map]
  rfl

theorem editsAlong_deletions (bucket : Bucket) (queue : QueueKey) (fits : Entry → Bool) :
    EditsAlong bucket.entries (deletions bucket queue fits) := by
  rw [deletions_eq]
  refine editsAlong_deletes
    ((nodup_queueEntries bucket queue).sublist (List.filter_sublist.map Prod.fst)) ?_
  intro key member
  obtain ⟨e, kept, rfl⟩ := List.mem_map.mp member
  exact ⟨e.2, (mem_queueEntries.mp (List.mem_filter.mp kept).1).1⟩

theorem deleteEntries_edited (store : Store) (queue : QueueKey) (fits : Entry → Bool)
    (index : Nat) : store.Edited (store.deleteEntries queue fits index).2 := by
  have deletes := deletes_deleteEntries store queue fits index
  generalize store.deleteEntries queue fits index = served at deletes ⊢
  cases deletes with
  | refused => exact .stay store
  | @deletes bucket opened =>
    have found := getElem?_of_bucket opened
    have edits := editsAlong_deletions bucket queue fits
    refine ⟨_, spans_entryCount found, .single (.edit found edits ?_)⟩
    rw [deletions, List.length_map]
    exact Nat.le_trans (List.length_filter_le _ _) (length_queueEntries_le bucket queue)

/-! Reading -/

theorem not_carries_act {entries : Entries} {change : Change} {queue : QueueKey} {id : UInt16}
    (free : ¬ entries.Carries queue id)
    (other : ∀ entry, change.outcome (entries.get? change.key) = some entry →
      entry.packetId? ≠ some id) : ¬ (change.act entries).Carries queue id := by
  rintro ⟨sequence, entry, found, carries⟩
  by_cases same : (⟨queue, sequence⟩ : EntryKey) = change.key
  · rw [same, Change.get?_act_self] at found
    exact other entry found carries
  · rw [Change.get?_act_of_ne same] at found
    exact free ⟨sequence, entry, found, carries⟩

/-- What is left to go through, as one change after the other is made: the entries still stand, and
nobody carries the ids still to be given out. -/
structure Ahead (entries : Entries) (queue : QueueKey) (ids : List UInt16)
    (rest : List (EntryKey × Entry)) : Prop where
  stored : ∀ e ∈ rest, entries.get? e.1 = some e.2 ∧ e.1.queue = queue
  apart : (rest.map Prod.fst).Nodup
  proper : ∀ id ∈ ids, id ≠ noPacketId ∧ ¬ entries.Carries queue id
  single : ids.Nodup

namespace Ahead

variable {entries : Entries} {queue : QueueKey} {ids : List UInt16} {key : EntryKey} {entry : Entry}
variable {rest : List (EntryKey × Entry)}

theorem skip (ahead : Ahead entries queue ids ((key, entry) :: rest)) :
    Ahead entries queue ids rest where
  stored e member := ahead.stored e (List.mem_cons_of_mem _ member)
  apart := (List.nodup_cons.mp ahead.apart).2
  proper := ahead.proper
  single := ahead.single

/-- A change of the first entry leaves the others as they are. -/
theorem change {change : Change} (ahead : Ahead entries queue ids (⟨change.key, entry⟩ :: rest))
    (free : ∀ id ∈ ids, ∀ after, change.outcome (some entry) = some after →
      after.packetId? ≠ some id) : Ahead (change.act entries) queue ids rest where
  stored e member := by
    have differs : e.1 ≠ change.key := by
      intro same
      exact (List.nodup_cons.mp ahead.apart).1 (List.mem_map.mpr ⟨e, member, same⟩)
    rw [Change.get?_act_of_ne differs]
    exact ahead.skip.stored e member
  apart := ahead.skip.apart
  proper id member := by
    have found := (ahead.stored _ List.mem_cons_self).1
    refine ⟨(ahead.proper id member).1, not_carries_act (ahead.proper id member).2 ?_⟩
    rw [found]
    exact free id member
  single := ahead.single

theorem spend {id : UInt16} (ahead : Ahead entries queue (id :: ids) rest) :
    Ahead entries queue ids rest where
  stored := ahead.stored
  apart := ahead.apart
  proper other member := ahead.proper other (List.mem_cons_of_mem _ member)
  single := (List.nodup_cons.mp ahead.single).2

end Ahead

theorem editsAlong_deliver {queue : QueueKey} (now : UInt64) (allowance : Allowance)
    (rest : List (EntryKey × Entry)) {entries : Entries}
    (ahead : Ahead entries queue allowance.ids rest) :
    EditsAlong entries (deliver queue.shared now allowance rest).changes := by
  induction rest generalizing allowance entries with
  | nil => trivial
  | cons e rest ih =>
    obtain ⟨key, entry⟩ := e
    obtain ⟨stored, its⟩ := ahead.stored _ List.mem_cons_self
    unfold deliver
    split
    · trivial
    · cases entry with
      | pubrel | taken => exact ih allowance ahead.skip
      | publish message =>
        dsimp only
        split
        · exact ih allowance ahead.skip
        · have deleted : Ahead ((Change.delete key).act entries) queue allowance.ids rest :=
            Ahead.change ahead (by rintro id _ after ⟨⟩)
          split
          · exact ⟨.delete stored, ih allowance deleted⟩
          · split
            · trivial
            · split
              · trivial
              · split
                · exact ⟨.delete stored, ih (allowance.spend message.size) deleted⟩
                · rename_i acknowledged
                  split
                  · rename_i shared
                    refine ⟨.take (its ▸ shared) stored acknowledged,
                      ih (allowance.spend message.size) (Ahead.change ahead ?_)⟩
                    rintro id _ after ⟨⟩
                    simp [Entry.marked, Entry.packetId?]
                  · cases pool : allowance.ids with
                    | nil => trivial
                    | cons id ids =>
                      rw [pool] at ahead
                      obtain ⟨proper, free⟩ := ahead.proper id List.mem_cons_self
                      refine ⟨.hand stored acknowledged proper (its ▸ free),
                        ih { allowance.spend message.size with ids } (Ahead.change ahead.spend ?_)⟩
                      rintro other member after ⟨⟩ ⟨⟩
                      exact (List.nodup_cons.mp ahead.single).1 member

theorem length_deliver_le (shared : Bool) (now : UInt64) (allowance : Allowance)
    (rest : List (EntryKey × Entry)) :
    (deliver shared now allowance rest).changes.length ≤ rest.length := by
  fun_induction deliver shared now allowance rest with
  | _ => grind [Delivery.nothing, Delivery.panic, Delivery.expire, Delivery.hand]

theorem ahead_queueEntries (agrees : bucket.Agrees) {queue : QueueKey} {counts : QueueCounts}
    (counted : bucket.counts? queue = some counts) (pool : List UInt16) :
    Ahead bucket.entries queue (counts.packetIds.free pool) (bucket.queueEntries queue) where
  stored e member := mem_queueEntries.mp member
  apart := nodup_queueEntries bucket queue
  proper id member := by
    simp only [PacketIds.free, List.mem_eraseDups, List.mem_filter, Bool.and_eq_true, bne_iff_ne,
      Bool.not_eq_true', PacketIds.inFlight, Option.isSome_eq_false_iff] at member
    refine ⟨member.2.1, agrees.not_carries_of_holder?_eq_none ?_⟩
    simpa [Bucket.holder?, Bucket.countsOf, counted] using member.2.2
  single := PacketIds.nodup_eraseDups _

/-- What a reading changes are edits of what is stored. -/
theorem editsAlong_reading (agrees : bucket.Agrees) {queue : QueueKey} {counts : QueueCounts}
    (counted : bucket.counts? queue = some counts) (overflow : Overflow) (pool : List UInt16)
    (byteLimit now : UInt64) :
    EditsAlong bucket.entries (reading overflow bucket queue counts pool byteLimit now).changes :=
  editsAlong_deliver now _ _ (ahead_queueEntries agrees counted pool)

theorem readNew_edited (kept : store.Kept) (queue : QueueKey) (pool : List UInt16)
    (byteLimit now : UInt64) (index : Nat) :
    store.Edited (store.readNew queue pool byteLimit now index).2 := by
  -- reading writes no more changes than there are entries
  have quiet {bucket : Bucket} {counts : QueueCounts}
      (found : store.buckets[index]? = some bucket) (counted : bucket.counts? queue = some counts) :
      Quiet bucket.entryCount store (store.commit index bucket
        (reading store.settings.overflow bucket queue counts pool byteLimit now).changes).2 :=
    .edit found (editsAlong_reading (kept found).agrees counted _ pool byteLimit now)
      (Nat.le_trans (length_deliver_le _ _ _ _) (length_queueEntries_le bucket queue))
  have reads := reads_readNew store queue pool byteLimit now index
  generalize store.readNew queue pool byteLimit now index = served at reads ⊢
  cases reads with
  | refused | unknown | panics => exact .stay store
  | @fails bucket counts fault after opened counted _ failed =>
    have found := getElem?_of_bucket opened
    have step := quiet found counted
    rw [failed] at step
    exact ⟨_, spans_entryCount found, .single step⟩
  | @hands bucket counts after opened counted _ done =>
    have found := getElem?_of_bucket opened
    have step := quiet found counted
    rw [done] at step
    exact ⟨_, spans_entryCount found, .next step (.single (quiet_stats after _))⟩

/-! Upkeep -/

theorem mem_staleKeys {now : UInt64} {key : EntryKey} (stale : key ∈ staleKeys bucket now) :
    ∃ entry, bucket.entries.get? key = some entry ∧ entry.isStale now = true := by
  obtain ⟨queue, _, member⟩ := List.mem_flatMap.mp stale
  obtain ⟨e, kept, rfl⟩ := List.mem_map.mp member
  obtain ⟨listed, expired⟩ := List.mem_filter.mp kept
  exact ⟨e.2, (mem_queueEntries.mp listed).1, expired⟩

theorem nodup_staleKeys (bucket : Bucket) (now : UInt64) : (staleKeys bucket now).Nodup := by
  refine List.nodup_flatMap.mpr ⟨?_, bucket.queues.nodup_keys.imp ?_⟩
  · intro queue _
    exact (nodup_queueEntries bucket queue).sublist (List.filter_sublist.map Prod.fst)
  · intro a b differs key first second
    obtain ⟨e, here, rfl⟩ := List.mem_map.mp first
    obtain ⟨f, there, same⟩ := List.mem_map.mp second
    have one := (mem_queueEntries.mp (List.mem_filter.mp here).1).2
    have two := (mem_queueEntries.mp (List.mem_filter.mp there).1).2
    exact differs (by rw [← one, ← two, same])

theorem editsAlong_staleKeys (bucket : Bucket) (now : UInt64) :
    EditsAlong bucket.entries ((staleKeys bucket now).map .delete) :=
  editsAlong_deletes (nodup_staleKeys bucket now) fun _ stale =>
    (mem_staleKeys stale).imp fun _ there => there.1

theorem length_staleKeys_le (bucket : Bucket) (now : UInt64) :
    (staleKeys bucket now).length ≤ bucket.entryCount := by
  have inside : staleKeys bucket now ⊆ bucket.entries.keys := by
    intro key stale
    obtain ⟨entry, found, _⟩ := mem_staleKeys stale
    exact List.mem_map.mpr ⟨(key, entry), Table.mem_bindings_iff.mpr found, rfl⟩
  have few := ((nodup_staleKeys bucket now).subperm inside).length_le
  rwa [Table.keys, List.length_map] at few

/-- Edits leave no more entries in a bucket than there were. -/
theorem entryCount_commit_le (kept : bucket.Kept) (found : store.buckets[index]? = some bucket)
    {changes : List Change} (edits : EditsAlong bucket.entries changes) {new : Bucket}
    (there : (store.commit index bucket changes).2.buckets[index]? = some new) :
    new.entryCount ≤ bucket.entryCount := by
  rcases commit_cases kept found changes with ⟨fault, failed⟩ | ⟨swept, left, committed, done⟩
  · rw [failed] at there
    cases found.symm.trans there
    exact Nat.le_refl _
  · rw [done] at there
    cases (getElem?_set_self found swept).symm.trans there
    rw [Bucket.entryCount, committed.entries]
    exact edits.size_le

theorem cleanUp_edited (kept : store.Kept) (now : UInt64) (index : Nat) :
    store.Edited (store.cleanUp now index).2 := by
  have quiet {bucket : Bucket} (found : store.buckets[index]? = some bucket) :
      Quiet bucket.entryCount store
        (store.commit index bucket ((staleKeys bucket now).map .delete)).2 := by
    refine .edit found (editsAlong_staleKeys bucket now) ?_
    rw [List.length_map]
    exact length_staleKeys_le bucket now
  have cleans := cleansUp_cleanUp store now index
  generalize store.cleanUp now index = served at cleans ⊢
  cases cleans with
  | refused => exact .stay store
  | @fails bucket fault after opened failed =>
    have found := getElem?_of_bucket opened
    have step := quiet found
    rw [failed] at step
    exact ⟨_, spans_entryCount found, .single step⟩
  | @sweeps bucket swept left opened done there _ =>
    have found := getElem?_of_bucket opened
    have step := quiet found
    rw [done] at step
    exact ⟨_, spans_entryCount found,
      .next step (.next (.tend there .forget) (.single (quiet_stats _ _)))⟩
  | @compacts bucket swept left opened done there _ =>
    have found := getElem?_of_bucket opened
    have step := quiet found
    have few : left.entryCount ≤ bucket.entryCount :=
      entryCount_commit_le (kept found) found (editsAlong_staleKeys bucket now) (by rwa [done])
    rw [done] at step
    have again := getElem?_set_self there left.forgetEmptyQueues
    exact ⟨_, spans_entryCount found, .next step (.next (.tend there .forget)
      (.next (.tend again (.compact swept.disk few)) (.single (.note _ _ _ _))))⟩

theorem sync_eq (bucket : Bucket) (disk : Disk) :
    bucket.sync disk = ((bucket.journal.sync disk).answer,
      { bucket with journal := (bucket.journal.sync disk).journal }, disk) := by
  rw [Bucket.sync, Journal.disk_sync]

theorem disk_flush (bucket : Bucket) (disk : Disk) (retries : Nat) :
    (flush bucket disk retries).2.2 = disk := by
  induction retries generalizing bucket with
  | zero => rw [flush, sync_eq]
  | succ retries ih =>
    rw [flush, sync_eq]
    cases (bucket.journal.sync disk).answer with
    | ok => rfl
    | error => exact ih _

theorem flushAll_eq (retries : Nat) (disk : Disk) (buckets : List Bucket) :
    (flushAll retries disk buckets).2 =
      (buckets.map fun bucket => (flush bucket disk retries).2.1, disk) := by
  induction buckets with
  | nil => rfl
  | cons bucket buckets ih =>
    simp only [flushAll, disk_flush, ih, List.map_cons]

theorem tended_flush (bucket : Bucket) (disk : Disk) (retries : Nat) :
    bucket.Tended few (flush bucket disk retries).2.1 := by
  have flushed : ∃ journal : Journal, (∀ batches, bucket.journal.held? = some batches →
      journal.held? = some batches) ∧
        (flush bucket disk retries).2.1 = { bucket with journal } := by
    induction retries generalizing bucket disk with
    | zero => exact ⟨_, fun _ held => Journal.held?_sync _ disk held, rfl⟩
    | succ retries ih =>
      unfold flush
      have once (batches : List Bytes) (held : bucket.journal.held? = some batches) :
          (bucket.journal.sync disk).journal.held? = some batches :=
        Journal.held?_sync _ disk held
      rw [sync_eq]
      cases (bucket.journal.sync disk).answer with
      | ok => exact ⟨_, once, rfl⟩
      | error fault =>
        obtain ⟨journal, held, same⟩ :=
          ih { bucket with journal := (bucket.journal.sync disk).journal } disk
        exact ⟨journal, fun batches before => held batches (once batches before), same⟩
  obtain ⟨journal, held, same⟩ := flushed
  rw [same]
  exact .flush journal held

theorem quietly_flushAll (few : Nat) (store : Store) (retries : Nat) (disk : Disk)
    (done buckets : List Bucket) :
    Quietly few { store with buckets := (done ++ buckets).toArray }
      { store with buckets := (done ++ (flushAll retries disk buckets).2.1).toArray } := by
  induction buckets generalizing done disk with
  | nil => exact .refl _
  | cons bucket buckets ih =>
    have found : ({ store with buckets := (done ++ bucket :: buckets).toArray } :
        Store).buckets[done.length]? = some bucket := by simp
    have next : Quiet few _ _ := .tend found (tended_flush bucket disk retries)
    have rest := ih (flush bucket disk retries).2.2 (done ++ [(flush bucket disk retries).2.1])
    simp only [List.setIfInBounds_toArray, List.set_append_right _ _ (Nat.le_refl _), Nat.sub_self,
      List.set_cons_zero] at next
    simp only [List.append_assoc, List.cons_append, List.nil_append] at rest
    exact .next next rest

theorem close_edited (store : Store) : store.Edited store.close.2 := by
  have closes := closes_close store
  generalize store.close = served at closes ⊢
  cases closes with
  | again => exact .stay store
  | flushes =>
    have flushed := quietly_flushAll 1 store store.settings.closeRetries store.disk []
      store.buckets.toList
    rw [List.nil_append, Array.toArray_toList] at flushed
    exact ⟨1, spans_one store, flushed.trans (.single (.note _ _ _ _))⟩

/-! Steps keep the journals -/

theorem mem_toList (found : store.buckets[index]? = some bucket) :
    bucket ∈ store.buckets.toList :=
  List.mem_of_getElem? (by rwa [Array.getElem?_toList])

theorem forall_toList {P : Bucket → Prop} {buckets : Array Bucket}
    (all : ∀ ⦃i : Nat⦄ ⦃b : Bucket⦄, buckets[i]? = some b → P b) : ∀ b ∈ buckets.toList, P b := by
  intro b member
  obtain ⟨i, found⟩ := List.mem_iff_getElem?.mp member
  exact all (by rwa [Array.getElem?_toList] at found)

/-- Replacing a bucket by one that is as good. -/
theorem forall_set {P : Bucket → Prop} {buckets : Array Bucket}
    (all : ∀ ⦃i : Nat⦄ ⦃b : Bucket⦄, buckets[i]? = some b → P b) {index : Nat} {new : Bucket}
    (fine : P new) :
    ∀ ⦃i : Nat⦄ ⦃b : Bucket⦄, (buckets.setIfInBounds index new)[i]? = some b → P b := by
  intro i b found
  rw [Array.getElem?_setIfInBounds] at found
  split at found
  · split at found
    · cases found
      exact fine
    · cases found
  · exact all found

theorem Kept.commit (kept : store.Kept) (found : store.buckets[index]? = some bucket)
    {changes : List Change} (lawful : Change.LawfulAlong bucket.entries changes) :
    (store.commit index bucket changes).2.Kept := by
  rcases commit_cases (kept found) found changes with
    ⟨fault, failed⟩ | ⟨after, left, committed, done⟩
  · rw [failed]
    exact kept
  · rw [done]
    exact forall_set kept ((kept found).committed lawful committed)

theorem Kept.advance (kept : store.Kept) :
    { store with sequence := store.sequence.advance }.Kept := kept

theorem lawfulAlong_arrival {entries : Entries} (sound : Sound entries) {evicted : Option EntryKey}
    (stored : ∀ key ∈ evicted, ∃ entry, entries.get? key = some entry) (key : EntryKey)
    (message : Publish) : Change.LawfulAlong entries (arrival evicted key message) := by
  have arrives {entries : Entries} (sound : Sound entries) :
      Change.Lawful entries (.insert key (.publish (.ofPublish message))) :=
    Change.lawful_insert sound (by simp [Entry.Proper, StoredPublish.ofPublish])
      (by rintro id ⟨⟩)
  cases evicted with
  | none => exact ⟨arrives sound, trivial⟩
  | some old =>
    obtain ⟨entry, found⟩ := stored old rfl
    have leaves := (Edit.delete found).lawful sound
    exact ⟨leaves, arrives leaves.sound, trivial⟩

theorem lawfulAlong_pubrel {entries : Entries} (sound : Sound entries) {key : EntryKey}
    {id : UInt16} (free : ¬ entries.Carries key.queue id) :
    Change.LawfulAlong entries [.insert key (.pubrel id)] := by
  refine ⟨Change.lawful_insert sound trivial ?_, trivial⟩
  rintro other ⟨⟩
  exact free

theorem Quiet.kept (step : Quiet few store after) (kept : store.Kept) : after.Kept := by
  cases step with
  | edit found edits short => exact kept.commit found (edits.lawful (kept found).sound)
  | tend found tended => exact forall_set kept (tended.kept (kept found))
  | note => exact kept

theorem Quietly.kept (steps : Quietly few store after) (kept : store.Kept) : after.Kept := by
  induction steps with
  | refl => exact kept
  | next step _ ih => exact ih (step.kept kept)

theorem Step.kept (step : Step few store offer after) (kept : store.Kept) : after.Kept := by
  cases step with
  | @enqueue index bucket found queue message evicted stored =>
    exact kept.advance.commit found (lawfulAlong_arrival (kept found).sound stored _ message)
  | @enqueuePubrel index bucket found queue id free =>
    exact kept.advance.commit found (lawfulAlong_pubrel (kept found).sound free)
  | refuse => exact kept
  | quiet step => exact step.kept kept
  | stay => exact kept

theorem Took.kept (took : Took store offer after) (kept : store.Kept) : after.Kept := by
  obtain ⟨few, middle, _, step, rest⟩ := took
  exact rest.kept (step.kept kept)

/-! The sequence of numbers -/

theorem sequence_commit (store : Store) (index : Nat) (bucket : Bucket) (changes : List Change) :
    (store.commit index bucket changes).2.sequence = store.sequence := by
  unfold commit
  dsimp only
  split <;> rfl

theorem Quiet.sequence (step : Quiet few store after) : after.sequence = store.sequence := by
  cases step with
  | edit => exact sequence_commit _ _ _ _
  | tend | note => rfl

theorem Quietly.sequence (steps : Quietly few store after) :
    after.sequence = store.sequence := by
  induction steps with
  | refl => rfl
  | next step _ ih => exact ih.trans step.sequence

/-- A step draws one number at most. -/
theorem Step.sequence (step : Step few store offer after) :
    after.sequence = store.sequence ∨ after.sequence = store.sequence.advance := by
  cases step with
  | enqueue | enqueuePubrel => exact .inr (sequence_commit _ _ _ _)
  | refuse | stay => exact .inl rfl
  | quiet step => exact .inl step.sequence

theorem Took.sequence (took : Took store offer after) :
    after.sequence = store.sequence ∨ after.sequence = store.sequence.advance := by
  obtain ⟨few, middle, _, step, rest⟩ := took
  rw [rest.sequence]
  exact step.sequence

/-! The number of buckets -/

theorem Quiet.size (step : Quiet few store after) : after.buckets.size = store.buckets.size := by
  cases step with
  | edit => exact size_commit _ _ _ _
  | tend => exact Array.size_setIfInBounds
  | note => rfl

theorem Quietly.size (steps : Quietly few store after) :
    after.buckets.size = store.buckets.size := by
  induction steps with
  | refl => rfl
  | next step _ ih => exact ih.trans step.size

theorem Took.size (took : Took store offer after) : after.buckets.size = store.buckets.size := by
  obtain ⟨few, middle, _, step, rest⟩ := took
  apply rest.size.trans
  cases step with
  | enqueue | enqueuePubrel => exact size_commit _ _ _ _
  | refuse | stay => rfl
  | quiet step => exact step.size

end Store

end DeliveryQueue
