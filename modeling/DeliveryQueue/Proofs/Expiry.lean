import DeliveryQueue.Proofs.Cleaning
import DeliveryQueue.Proofs.Lightening
import DeliveryQueue.Proofs.Reading

/-!
A message that has expired goes when its bucket is swept or when a reading comes across it, and it
does not matter which comes first (`Store.sweep_and_read_commute`). A reading hands out the same
with and without the expired messages (`Store.deliver_fresh`), and what it drops of them the sweep
does not have to drop.
-/
namespace DeliveryQueue

open Std

namespace Line

/-- The entries that have not expired while they waited. -/
def fresh (line : Line) (now : UInt64) : Line := line.filter fun e => !e.2.isStale now

variable {line : Line} {now : UInt64} {e : EntryKey × Entry}

theorem fresh_cons_of_pos (late : e.2.isStale now = true) :
    fresh (e :: line) now = fresh line now := by
  simp [fresh, late]

theorem fresh_cons_of_neg (not : ¬ e.2.isStale now = true) :
    fresh (e :: line) now = e :: fresh line now := by
  simp [fresh, not]

end Line

/-- The entries that do not wait or have not expired. -/
def Table.lasting (entries : Entries) (now : UInt64) : Entries :=
  entries.filter fun _ entry => !entry.isStale now

namespace Store

/-! Reading -/

/-- What a reading does at an entry, whatever comes behind it. -/
inductive Meets (shared : Bool) (now : UInt64) (allowance : Allowance) (e : EntryKey × Entry) : Prop
  | stop (here : ∀ rest, deliver shared now allowance (e :: rest) = .nothing)
  | panic (here : ∀ rest, deliver shared now allowance (e :: rest) = .panic)
  | pass (onward : ∀ rest,
      deliver shared now allowance (e :: rest) = deliver shared now allowance rest)
  | hand (left : Allowance) (change : Change) (message : Publish)
      (onward : ∀ rest, deliver shared now allowance (e :: rest) =
        (deliver shared now left rest).hand change message)

theorem meets_of_fresh (shared : Bool) {now : UInt64} (allowance : Allowance)
    {e : EntryKey × Entry} (fresh : ¬ e.2.isStale now = true) : Meets shared now allowance e := by
  obtain ⟨key, entry⟩ := e
  by_cases none : allowance.count = 0
  · exact .stop fun rest => by simp [deliver, none]
  cases entry with
  | pubrel | taken => exact .pass fun rest => by simp [deliver, none]
  | publish stored =>
    cases waits : stored.packetId with
    | some id => exact .pass fun rest => by simp [deliver, none, waits]
    | none =>
      have lives : stored.isExpired now = false := by
        simpa [Entry.isStale, waits] using fresh
      by_cases panics : allowance.panics stored.size = true
      · exact .panic fun rest => by simp [deliver, none, waits, lives, panics]
      by_cases affords : allowance.affords stored.size = true
      · by_cases once : stored.qos = .atMostOnce
        · exact .hand (allowance.spend stored.size) (.delete key) (stored.toPublish noPacketId)
            fun rest => by simp [deliver, none, waits, lives, panics, affords, once]
        · cases shared with
          | true =>
            exact .hand (allowance.spend stored.size) (.mark key true)
              (stored.toPublish noPacketId) fun rest => by
                simp [deliver, none, waits, lives, panics, affords, once]
          | false =>
            cases free : allowance.ids with
            | nil =>
              exact .stop fun rest => by
                simp [deliver, none, waits, lives, panics, affords, once, free]
            | cons id ids =>
              exact .hand { allowance.spend stored.size with ids } (.assign key (some id))
                (stored.toPublish id) fun rest => by
                  simp [deliver, none, waits, lives, panics, affords, once, free]
      · exact .stop fun rest => by simp [deliver, none, waits, lives, panics, affords]

theorem meets_of_stale (shared : Bool) {now : UInt64} {allowance : Allowance}
    {e : EntryKey × Entry} (late : e.2.isStale now = true) (some : allowance.count ≠ 0)
    (rest : Line) : deliver shared now allowance (e :: rest) =
      (deliver shared now allowance rest).expire e.1 := by
  obtain ⟨key, entry⟩ := e
  obtain ⟨stored, rfl, waits, old⟩ := Entry.of_isStale late
  simp [deliver, some, waits, old]

theorem deliver_of_count_zero {allowance : Allowance} (none : allowance.count = 0) (shared : Bool)
    (now : UInt64) (line : Line) : deliver shared now allowance line = .nothing := by
  cases line with
  | nil => rfl
  | cons e line => simp [deliver, none]

/-- A reading does what another one does, and drops messages besides. -/
structure DropsBesides (dropped : Line) (other delivery : Delivery) : Prop where
  panics : delivery.panics = other.panics
  messages : delivery.messages = other.messages
  changes : delivery.changes.Perm (other.changes ++ dropped.map fun e => .delete e.1)
  expired : delivery.expired = dropped.length
  none : other.expired = 0

namespace DropsBesides

variable {dropped : Line} {other delivery : Delivery}

theorem nothing : DropsBesides [] .nothing .nothing := ⟨rfl, rfl, .refl _, rfl, rfl⟩

theorem panic : DropsBesides [] .panic .panic := ⟨rfl, rfl, .refl _, rfl, rfl⟩

theorem hand (drops : DropsBesides dropped other delivery) (change : Change) (message : Publish) :
    DropsBesides dropped (other.hand change message) (delivery.hand change message) where
  panics := drops.panics
  messages := congrArg (message :: ·) drops.messages
  changes := drops.changes.cons change
  expired := drops.expired
  none := drops.none

theorem expire (drops : DropsBesides dropped other delivery) (e : EntryKey × Entry) :
    DropsBesides (e :: dropped) other (delivery.expire e.1) where
  panics := drops.panics
  messages := drops.messages
  changes := (drops.changes.cons _).trans List.perm_middle.symm
  expired := congrArg (· + 1) drops.expired
  none := drops.none

end DropsBesides

/-- A reading hands out the same with and without the expired messages. Some of them it drops. -/
theorem deliver_fresh (shared : Bool) (now : UInt64) (allowance : Allowance) (line : Line) :
    ∃ dropped : Line, dropped.Sublist (Line.stale line now) ∧
      DropsBesides dropped (deliver shared now allowance (Line.fresh line now))
        (deliver shared now allowance line) := by
  induction line generalizing allowance with
  | nil => exact ⟨[], .slnil, .nothing⟩
  | cons e rest ih =>
    by_cases late : e.2.isStale now = true
    · rw [Line.fresh_cons_of_pos late, Line.stale_cons_of_pos late]
      by_cases none : allowance.count = 0
      · rw [deliver_of_count_zero none, deliver_of_count_zero none]
        exact ⟨[], List.nil_sublist _, .nothing⟩
      · obtain ⟨dropped, part, drops⟩ := ih allowance
        rw [meets_of_stale shared late none]
        exact ⟨e :: dropped, part.cons_cons e, drops.expire e⟩
    · rw [Line.fresh_cons_of_neg late, Line.stale_cons_of_neg late]
      rcases meets_of_fresh shared allowance late with
        here | here | onward | ⟨left, _, _, onward⟩
      · rw [here, here]
        exact ⟨[], List.nil_sublist _, .nothing⟩
      · rw [here, here]
        exact ⟨[], List.nil_sublist _, .panic⟩
      · rw [onward, onward]
        exact ih allowance
      · obtain ⟨dropped, part, drops⟩ := ih left
        rw [onward, onward]
        exact ⟨dropped, part, drops.hand _ _⟩

/-- Where something is changed a message waits, and what stands there afterwards, if anything, does
not wait and does not weigh on the budget. -/
theorem Delivers.settles {shared : Bool} {rest : Line} {delivery : Delivery}
    (delivers : Delivers shared rest delivery) :
    ∀ change ∈ delivery.changes, ∃ stored : StoredPublish, (change.key, .publish stored) ∈ rest ∧
      ∀ entry, change.outcome (some (.publish stored)) = some entry →
        entry.isNew = false ∧ entry.qos0Bytes? = none := by
  induction delivers with
  | stop | panic => exact fun _ member => nomatch member
  | pass e others ih =>
    intro change member
    obtain ⟨stored, there, light⟩ := ih change member
    exact ⟨stored, List.mem_cons_of_mem e there, light⟩
  | @expire rest delivery key stored waits others ih
  | @drop rest delivery key stored waits once others ih =>
    intro change member
    rcases List.mem_cons.mp member with rfl | member
    · exact ⟨stored, List.mem_cons_self, by rintro entry ⟨⟩⟩
    · obtain ⟨stored, there, light⟩ := ih change member
      exact ⟨stored, List.mem_cons_of_mem _ there, light⟩
  | @hand rest delivery key stored waits acknowledged id others ih =>
    intro change member
    rcases List.mem_cons.mp member with rfl | member
    · rw [Change.key_handing]
      refine ⟨stored, List.mem_cons_self, fun entry taken => ?_⟩
      rw [Change.outcome_handing waits] at taken
      cases taken
      cases shared <;> simp [StoredPublish.inFlight, Entry.isNew, Entry.qos0Bytes?, acknowledged]
    · obtain ⟨stored, there, light⟩ := ih change member
      exact ⟨stored, List.mem_cons_of_mem _ there, light⟩

/-! What is left -/

section Meeting
variable {entries : Entries} {line dropped : Line} {now : UInt64} {shared : Bool}
  {bare full : Delivery} {change : Change}
  (stored : ∀ e ∈ line, entries.get? e.1 = some e.2) (apart : (line.map Prod.fst).Nodup)
  (less : Delivers shared (Line.fresh line now) bare) (more : Delivers shared line full)
  (part : dropped.Sublist (Line.stale line now)) (drops : DropsBesides dropped bare full)

include stored less in
/-- The messages that the shorter reading changes are those that a sweep leaves. -/
theorem lasting_of_bare (member : change ∈ bare.changes) :
    ∃ message : StoredPublish, ¬ (Entry.publish message).isStale now = true ∧
      entries.get? change.key = some (.publish message) ∧
      (entries.lasting now).get? change.key = some (.publish message) ∧
      ∀ entry, change.outcome (some (.publish message)) = some entry →
        entry.isNew = false ∧ entry.qos0Bytes? = none := by
  obtain ⟨message, there, light⟩ := less.settles change member
  obtain ⟨there, fresh⟩ := List.mem_filter.mp there
  have found : entries.get? change.key = some (.publish message) := stored _ there
  have fresh : (Entry.publish message).isStale now = false := by simpa using fresh
  refine ⟨message, by simp [fresh], found, ?_, light⟩
  rw [Table.lasting, Table.get?_filter, found, Option.filter_some_pos (by simp [fresh])]

include stored part in
theorem stale_of_dropped {e : EntryKey × Entry} (member : e ∈ dropped) :
    entries.get? e.1 = some e.2 ∧ e.2.isStale now = true := by
  obtain ⟨there, late⟩ := List.mem_filter.mp (part.subset member)
  exact ⟨stored e there, late⟩

include drops in
theorem mem_full : change ∈ full.changes ↔
    change ∈ bare.changes ∨ ∃ e ∈ dropped, .delete e.1 = change := by
  rw [drops.changes.mem_iff, List.mem_append, List.mem_map]

include apart more drops in
theorem gone_of_dropped {e : EntryKey × Entry} (member : e ∈ dropped) :
    (Change.actAll entries full.changes).get? e.1 = none :=
  Change.get?_actAll_of_mem (more.keys_sublist.nodup apart)
    ((mem_full drops).mpr (.inr ⟨e, member, rfl⟩))

include drops in
/-- Where neither reading changes anything, all stays. -/
theorem get?_actAll_of_apart {key : EntryKey}
    (untouched : ¬ ∃ change ∈ bare.changes, change.key = key)
    (kept : ¬ ∃ e ∈ dropped, e.1 = key) :
    (Change.actAll entries full.changes).get? key = entries.get? key := by
  refine Change.get?_actAll_of_forall_ne _ fun change member same => ?_
  rcases (mem_full drops).mp member with its | ⟨e, its, rfl⟩
  · exact untouched ⟨change, its, same.symm⟩
  · exact kept ⟨e, its, same.symm⟩

include stored apart less more part drops

/-- What the longer reading leaves of the lasting entries is what the shorter one leaves. -/
theorem lasting_actAll : (Change.actAll entries full.changes).lasting now =
    Change.actAll (entries.lasting now) bare.changes := by
  have once : (full.changes.map Change.key).Nodup := more.keys_sublist.nodup apart
  have few : (bare.changes.map Change.key).Nodup :=
    less.keys_sublist.nodup ((List.filter_sublist.map Prod.fst).nodup apart)
  refine Table.ext_get? fun key => ?_
  rw [Table.lasting, Table.get?_filter]
  by_cases changed : ∃ change ∈ bare.changes, change.key = key
  · obtain ⟨change, member, rfl⟩ := changed
    obtain ⟨message, -, found, lasts, light⟩ := lasting_of_bare stored less member
    rw [Change.get?_actAll_of_mem once ((mem_full drops).mpr (.inl member)), found,
      Change.get?_actAll_of_mem few member, lasts]
    cases left : change.outcome (some (.publish message)) with
    | none => rfl
    | some entry =>
      have fresh : ¬ entry.isStale now = true := fun late =>
        absurd (Entry.isNew_of_isStale late) (by simp [(light entry left).1])
      rw [Option.filter_some_pos (by simp [fresh])]
  · have untouched : ∀ change ∈ bare.changes, key ≠ change.key :=
      fun change member same => changed ⟨change, member, same.symm⟩
    rw [Change.get?_actAll_of_forall_ne _ untouched, Table.lasting, Table.get?_filter]
    by_cases gone : ∃ e ∈ dropped, e.1 = key
    · obtain ⟨e, member, rfl⟩ := gone
      obtain ⟨found, late⟩ := stale_of_dropped stored part member
      rw [gone_of_dropped apart more drops member, found,
        Option.filter_some_neg (by simp [late])]
      rfl
    · rw [get?_actAll_of_apart drops changed gone]

omit part in
/-- An expired message is left by the longer reading unless it drops it. -/
theorem stale_left_iff {key : EntryKey} {entry : Entry} (late : entry.isStale now = true) :
    (Change.actAll entries full.changes).get? key = some entry ↔
      entries.get? key = some entry ∧ ¬ ∃ e ∈ dropped, e.1 = key := by
  have once : (full.changes.map Change.key).Nodup := more.keys_sublist.nodup apart
  by_cases changed : ∃ change ∈ bare.changes, change.key = key
  · obtain ⟨change, member, rfl⟩ := changed
    obtain ⟨message, fresh, found, -, light⟩ := lasting_of_bare stored less member
    rw [Change.get?_actAll_of_mem once ((mem_full drops).mpr (.inl member)), found]
    constructor
    · intro left
      exact absurd (Entry.isNew_of_isStale late) (by simp [(light entry left).1])
    · rintro ⟨⟨⟩, -⟩
      exact absurd late fresh
  · by_cases gone : ∃ e ∈ dropped, e.1 = key
    · obtain ⟨e, member, rfl⟩ := gone
      rw [gone_of_dropped apart more drops member]
      constructor
      · rintro ⟨⟩
      · exact fun there => absurd ⟨e, member, rfl⟩ there.2
    · rw [get?_actAll_of_apart drops changed gone, and_iff_left gone]

/-- What has expired the longer reading drops, or it leaves it for the sweep. -/
theorem perm_stale : (entries.bindings.filter fun e => e.2.isStale now).Perm
    (dropped ++
      (Change.actAll entries full.changes).bindings.filter fun e => e.2.isStale now) := by
  have single : dropped.Nodup := part.nodup (.filter _ (.of_map Prod.fst apart))
  have disjoint : ∀ e ∈ dropped, ∀ other ∈ (Change.actAll entries full.changes).bindings.filter
      (fun e => e.2.isStale now), e ≠ other := by
    rintro e member _ there rfl
    have left := Table.mem_bindings_iff.mp (List.mem_filter.mp there).1
    rw [gone_of_dropped apart more drops member] at left
    cases left
  refine (List.perm_ext_iff_of_nodup (entries.bindings_nodup.filter _)
    (List.nodup_append.mpr ⟨single, (Table.bindings_nodup _).filter _, disjoint⟩)).mpr ?_
  intro e
  rw [List.mem_append, List.mem_filter, List.mem_filter, Table.mem_bindings_iff,
    Table.mem_bindings_iff]
  constructor
  · rintro ⟨there, late⟩
    by_cases gone : ∃ f ∈ dropped, f.1 = e.1
    · obtain ⟨f, member, same⟩ := gone
      obtain ⟨found, -⟩ := stale_of_dropped stored part member
      rw [same, there] at found
      exact .inl (Prod.ext same (Option.some.inj found).symm ▸ member)
    · exact .inr ⟨(stale_left_iff stored apart less more drops late).mpr ⟨there, gone⟩, late⟩
  · rintro (member | ⟨left, late⟩)
    · exact stale_of_dropped stored part member
    · exact ⟨((stale_left_iff stored apart less more drops late).mp left).1, late⟩

/-- What the longer reading takes out is what the shorter one takes out, and what it drops. -/
theorem perm_displaced : (Change.displacedAll entries full.changes).Perm
    (Change.displacedAll (entries.lasting now) bare.changes ++ dropped.map Prod.snd) := by
  have few : (bare.changes.map Change.key).Nodup :=
    less.keys_sublist.nodup ((List.filter_sublist.map Prod.fst).nodup apart)
  rw [Change.displacedAll_of_nodup (more.keys_sublist.nodup apart),
    Change.displacedAll_of_nodup few]
  refine (drops.changes.filterMap _).trans (.of_eq ?_)
  rw [List.filterMap_append, List.filterMap_map]
  congr 1
  · refine List.filterMap_congr fun change member => ?_
    obtain ⟨message, -, found, lasts, -⟩ := lasting_of_bare stored less member
    rw [found, lasts]
  · rw [← List.filterMap_eq_map]
    refine List.filterMap_congr fun e member => ?_
    exact (stale_of_dropped stored part member).1

omit apart more in
theorem freed_eq : Change.freed entries full.changes =
    Change.freed (entries.lasting now) bare.changes + Line.weight dropped := by
  have there : ∀ e ∈ dropped, entries.get? e.1 = some e.2 :=
    fun e member => (stale_of_dropped stored part member).1
  rw [Change.freed, (drops.changes.map _).sum_eq, List.map_append, List.sum_append,
    ← Change.freed_deletes there]
  congr 1
  refine congrArg List.sum (List.map_congr_left fun change member => ?_)
  obtain ⟨message, -, found, lasts, -⟩ := lasting_of_bare stored less member
  rw [found, lasts]

/-- If a sweep goes first and then the shorter reading, they free, count and take out what the
longer reading and the sweep behind it do. -/
theorem meeting_balance {first second : Line} (gone : first.Perm (dropped ++ second)) :
    Line.weight first + Change.freed (entries.lasting now) bare.changes =
        Change.freed entries full.changes + Line.weight second ∧
      first.length + bare.expired = full.expired + second.length ∧
      ((Change.displacedAll entries full.changes).filterMap Entry.payload? ++
          second.filterMap fun e => e.2.payload?).Perm
        ((first.filterMap fun e => e.2.payload?) ++
          (Change.displacedAll (entries.lasting now) bare.changes).filterMap Entry.payload?) := by
  refine ⟨?_, ?_, ?_⟩
  · have bytes := (gone.map fun e => e.2.weight).sum_eq
    rw [List.map_append, List.sum_append] at bytes
    rw [freed_eq stored less part drops]
    simp only [Line.weight]
    omega
  · rw [drops.none, drops.expired, Nat.add_zero, gone.length_eq, List.length_append]
  · have out := (perm_displaced stored apart less more part drops).filterMap Entry.payload?
    rw [List.filterMap_append, List.filterMap_map] at out
    have payloads := gone.filterMap fun e => e.2.payload?
    rw [List.filterMap_append] at payloads
    refine (out.append_right _).trans ?_
    rw [List.append_assoc]
    exact (payloads.symm.append_left _).trans List.perm_append_comm

end Meeting

/-- A reading leaves nothing that weighs on the budget where it changes something. -/
theorem Delivers.lighten {shared : Bool} {entries : Entries} {line : Line} {delivery : Delivery}
    (delivers : Delivers shared line delivery)
    (stored : ∀ e ∈ line, entries.get? e.1 = some e.2) (apart : (line.map Prod.fst).Nodup) :
    Change.Lighten entries delivery.changes where
  apart := delivers.keys_sublist.nodup apart
  light := by
    intro change member entry left
    obtain ⟨message, there, light⟩ := delivers.settles change member
    have found : entries.get? change.key = some (.publish message) := stored _ there
    exact (light entry (found ▸ left)).2

/-! The store -/

/-- No journal fails under the requests. -/
def Unfailing (store : Store) : List Request → Prop
  | [] => True
  | request :: requests => (store.serve request).1.journalFailed = false ∧
      Unfailing (store.serve request).2 requests

def decidableUnfailing (store : Store) :
    (requests : List Request) → Decidable (store.Unfailing requests)
  | [] => isTrue trivial
  | request :: requests =>
    have := (store.serve request).2.decidableUnfailing requests
    inferInstanceAs (Decidable (_ ∧ _))

instance (store : Store) (requests : List Request) : Decidable (store.Unfailing requests) :=
  store.decidableUnfailing requests

/-- The entries of a bucket were changed and what that freed was given back. -/
structure Settled (store : Store) (index : Nat) (entries : Entries) (bytes expired : Nat)
    (payloads : List UInt64) (after : Store) : Prop where
  contents : after.contents = store.contents.setIfInBounds index entries
  rest : ∃ buckets committed, after = { store with
    buckets
    budget := store.budget.drain bytes
    stats.expired := store.stats.expired + .ofNat expired
    outbox.released := store.outbox.released ++ payloads
    outbox.committed := committed }

variable {store middle after other : Store} {index : Nat} {bucket left : Bucket} {now : UInt64}
variable {queue : QueueKey}

theorem Settled.trans {first second : Entries} {bytes more expired further : Nat}
    {payloads others : List UInt64} (one : Settled store index first bytes expired payloads middle)
    (two : Settled middle index second more further others after) :
    Settled store index second (bytes + more) (expired + further) (payloads ++ others) after := by
  obtain ⟨buckets, committed, rfl⟩ := one.rest
  obtain ⟨also, further, rfl⟩ := two.rest
  constructor
  · rw [two.contents, one.contents, Array.setIfInBounds_setIfInBounds]
  · exact ⟨also, further, by
      rw [Budget.drain_drain, UInt64.ofNat_add, UInt64.add_assoc, List.append_assoc]⟩

/-- Stores that hold the same and have settled for the same. -/
structure SameUpshot (store other : Store) : Prop where
  contents : other.contents = store.contents
  budget : other.budget = store.budget
  stats : other.stats = store.stats
  released : other.outbox.released.Perm store.outbox.released
  rest : other = { store with
    buckets := other.buckets
    outbox.released := other.outbox.released
    outbox.committed := other.outbox.committed }

theorem SameUpshot.refl (store : Store) : SameUpshot store store := ⟨rfl, rfl, rfl, .refl _, rfl⟩

theorem Settled.sameUpshot {entries : Entries} {bytes expired : Nat} {payloads others : List UInt64}
    (one : Settled store index entries bytes expired payloads after)
    (two : Settled store index entries bytes expired others other)
    (same : others.Perm payloads) : SameUpshot after other := by
  have contents := two.contents.trans one.contents.symm
  obtain ⟨buckets, committed, rfl⟩ := one.rest
  obtain ⟨_, _, rfl⟩ := two.rest
  exact ⟨contents, rfl, rfl, same.append_left _, rfl⟩

theorem Edited.sound (edited : store.Edited after) (kept : store.Kept)
    (writable : store.Writable) : after.Kept ∧ after.Writable :=
  ⟨edited.took.kept kept, (edited.took.smoothly kept).writable writable⟩

/-- A sweep, if no journal fails. -/
theorem exists_cleanUp (kept : store.Kept) (writable : store.Writable)
    (opened : store.bucket index = .ok bucket)
    (fine : (store.serve (.cleanUp now index)).1.journalFailed = false) :
    ∃ names left after, store.cleanUp now index = (.ok names, after) ∧
      after.bucket index = .ok left ∧ left.entries = bucket.entries.lasting now ∧
      Settled store index (bucket.entries.lasting now) (Line.weight (staleEntries bucket now))
        (staleEntries bucket now).length
        ((staleEntries bucket now).filterMap fun e => e.2.payload?) after := by
  have found := getElem?_of_bucket opened
  have its := kept found
  obtain ⟨batches, held, -⟩ := its.recalled
  have swept := cleanUp_eq_sweep kept opened now
  rcases Bucket.sweep_cases its (writable.bucket found) held store.settings.compactionThreshold
    now with ⟨fault, cause, failed⟩ | ⟨left, done, leaves⟩
  · rw [failed] at swept
    simp [serve, swept, Answer.journalFailed, Answer.fault?, cause] at fine
  · rw [done] at swept
    refine ⟨_, left, _, swept, bucket_of_set opened rfl rfl, leaves.entries, ?_, _, _, rfl⟩
    exact (contents_set rfl).trans (congrArg _ leaves.entries)

/-- A reading that panics leaves the store alone. -/
theorem readNew_of_panics (opened : store.bucket index = .ok bucket) (agrees : bucket.Agrees)
    {pool : List UInt16} {byteLimit : UInt64} (panics : (deliver queue.shared now
      ⟨pool.length, Line.free (bucket.queueEntries queue) pool, none, byteLimit,
        store.settings.overflow⟩ (bucket.queueEntries queue)).panics = true) :
    store.readNew queue pool byteLimit now index = (.error .panicked, store) := by
  have reads := reads_readNew store queue pool byteLimit now index
  generalize store.readNew queue pool byteLimit now index = served at reads ⊢
  cases reads with
  | refused closed => cases closed.symm.trans opened
  | unknown again uncounted =>
    cases again.symm.trans opened
    rw [agrees.indexed.faithful.empty queue uncounted] at panics
    cases panics
  | panics => rfl
  | fails again counted calm | hands again counted calm =>
    cases again.symm.trans opened
    rw [reading, agrees.free_eq counted] at calm
    cases calm.symm.trans panics

/-- A reading, if no journal fails and it does not panic. -/
theorem exists_readNew (kept : store.Kept) (writable : store.Writable)
    (opened : store.bucket index = .ok bucket) {pool : List UInt16} {byteLimit : UInt64}
    (fine : (store.serve (.readNew queue pool byteLimit now index)).1.journalFailed = false)
    (delivery : Delivery) (delivered : delivery = deliver queue.shared now
      ⟨pool.length, Line.free (bucket.queueEntries queue) pool, none, byteLimit,
        store.settings.overflow⟩ (bucket.queueEntries queue)) (calm : delivery.panics = false) :
    ∃ left after, store.readNew queue pool byteLimit now index = (.ok delivery.messages, after) ∧
      after.bucket index = .ok left ∧ left.Kept ∧
      left.entries = Change.actAll bucket.entries delivery.changes ∧
      Settled store index (Change.actAll bucket.entries delivery.changes)
        (Change.freed bucket.entries delivery.changes) delivery.expired
        ((Change.displacedAll bucket.entries delivery.changes).filterMap Entry.payload?) after := by
  have found := getElem?_of_bucket opened
  have its := kept found
  have stored : ∀ e ∈ bucket.queueEntries queue, bucket.entries.get? e.1 = some e.2 :=
    fun e member => (mem_queueEntries.mp member).1
  have delivers : Delivers queue.shared (bucket.queueEntries queue) delivery :=
    delivered ▸ delivers_deliver queue.shared now _ _
  let plan := Line.readNew (bucket.queueEntries queue) store.settings.overflow queue.shared pool
    byteLimit now
  have planned : plan.changes = delivery.changes := by
    simp only [plan, Line.readNew, ← delivered, calm, Bool.false_eq_true, if_false]
  have fits : plan.Fits bucket.entries queue ⟨queue, 0⟩ :=
    Bucket.fits_readNew its.agrees store.settings.overflow pool byteLimit now
  have lawful : Change.LawfulAlong bucket.entries delivery.changes :=
    planned ▸ fits.lawful its.sound rfl
  have taken : bucket.refusal? delivery.changes = none := by
    cases refused : bucket.refusal? delivery.changes with
    | none => rfl
    | some fault =>
      have short := (writable.bucket found).fits_changes delivers.inserted? fun change member => by
        obtain ⟨message, there, -⟩ := delivers.settles change member
        exact ⟨_, stored _ there⟩
      let request := Request.readNew queue pool byteLimit now index
      have there : store.bucket request.index = .ok bucket := opened
      obtain ⟨_, _, _, -, served⟩ :=
        serve_of_refused there its.agrees rfl rfl (planned.symm ▸ refused)
      have cause := Bucket.ofJournal_of_refusal? short refused
      have answered : (store.serve (.readNew queue pool byteLimit now index)).1 =
          .messages (.error (.storage fault)) := congrArg Prod.fst served
      rw [answered] at fine
      cases cause.symm.trans fine
  obtain ⟨left, whole, entries, done⟩ := exists_commit its found taken lawful
    (delivers.lighten stored (nodup_queueEntries bucket queue))
  refine ⟨left, _, readNew_of_commit opened its.agrees delivered calm done,
    bucket_of_set opened rfl rfl, whole, entries, ?_, _, _, rfl⟩
  exact (contents_set rfl).trans (congrArg _ entries)

end Store

/-- What carries a packet id has not expired. -/
theorem Line.free_fresh (line : Line) (pool : List UInt16) (now : UInt64) :
    Line.free (Line.fresh line now) pool = Line.free line pool := by
  have same (id : UInt16) : Line.carrier? (Line.fresh line now) id = Line.carrier? line id := by
    rw [Line.carrier?, Line.fresh, List.find?_filter, Line.carrier?]
    refine congrArg (List.find? · line) (funext fun e => ?_)
    cases late : e.2.isStale now with
    | false => simp
    | true =>
      obtain ⟨stored, its, waits, -⟩ := Entry.of_isStale late
      simp [its, Entry.packetId?, waits]
  simp only [Line.free, same]

namespace Store

variable {store : Store} {index : Nat} {bucket left : Bucket} {now : UInt64} {queue : QueueKey}

theorem queueEntries_of_lasting (same : left.entries = bucket.entries.lasting now)
    (queue : QueueKey) : left.queueEntries queue = Line.fresh (bucket.queueEntries queue) now := by
  have rest : (bucket.entries.lasting now).bindings =
      bucket.entries.bindings.filter fun e => !e.2.isStale now := rfl
  rw [Bucket.queueEntries, same, rest, Line.fresh, Bucket.queueEntries, List.filter_comm]

/-- Whether a bucket is swept before a reading or after it, the reading hands out the same, and both
end with the same. Where sums panic, a queue of 2^64 bytes and more may make the reading do so,
either way. -/
theorem sweep_and_read_commute (reached : store.Reached) (opened : store.bucket index = .ok bucket)
    (queue : QueueKey) (pool : List UInt16) (byteLimit now : UInt64)
    (fine : store.Unfailing
      [.cleanUp now index, .readNew queue pool byteLimit now index])
    (fineToo : store.Unfailing
      [.readNew queue pool byteLimit now index, .cleanUp now index]) :
    ∃ names swept answer end₁ read names' end₂,
      store.cleanUp now index = (.ok names, swept) ∧
      swept.readNew queue pool byteLimit now index = (answer, end₁) ∧
      store.readNew queue pool byteLimit now index = (answer, read) ∧
      read.cleanUp now index = (.ok names', end₂) ∧ SameUpshot end₁ end₂ ∧
      ((∃ messages, answer = .ok messages) ∨ answer = .error .panicked ∧
        store.settings.overflow = .panics ∧
        UInt64.size ≤ Line.bytes (bucket.queueEntries queue)) := by
  have kept := reached.kept
  have writable := reached.writable
  have its := kept (getElem?_of_bucket opened)
  obtain ⟨sweepFine, readFine, -⟩ := fine
  obtain ⟨readFineToo, sweepFineToo, -⟩ := fineToo
  let line := bucket.queueEntries queue
  let allowance : Allowance :=
    ⟨pool.length, Line.free line pool, none, byteLimit, store.settings.overflow⟩
  let full := deliver queue.shared now allowance line
  let bare := deliver queue.shared now allowance (Line.fresh line now)
  have stored : ∀ e ∈ line, bucket.entries.get? e.1 = some e.2 :=
    fun e member => (mem_queueEntries.mp member).1
  have apart : (line.map Prod.fst).Nodup := nodup_queueEntries bucket queue
  have less : Delivers queue.shared (Line.fresh line now) bare := delivers_deliver ..
  have more : Delivers queue.shared line full := delivers_deliver ..
  obtain ⟨dropped, part, drops⟩ : ∃ dropped : Line, dropped.Sublist (Line.stale line now) ∧
      DropsBesides dropped bare full := deliver_fresh queue.shared now allowance line
  -- the sweep first
  obtain ⟨names, cleaned, swept, sweeps, openedSwept, lasting, settlesSweep⟩ :=
    exists_cleanUp kept writable opened sweepFine
  have afterSweep : (store.serve (.cleanUp now index)).2 = swept := congrArg Prod.snd sweeps
  obtain ⟨sweptKept, sweptWritable⟩ := (cleanUp_edited kept now index).sound kept writable
  rw [congrArg Prod.snd sweeps] at sweptKept sweptWritable
  have shorter := queueEntries_of_lasting lasting queue
  have build : swept.settings.overflow = store.settings.overflow := by
    obtain ⟨_, _, rfl⟩ := settlesSweep.rest
    rfl
  have bared : bare = deliver queue.shared now
      ⟨pool.length, Line.free (cleaned.queueEntries queue) pool, none, byteLimit,
        swept.settings.overflow⟩ (cleaned.queueEntries queue) := by
    rw [shorter, Line.free_fresh, build]
  -- the two panic alike
  by_cases panics : full.panics = true
  · have agrees := (sweptKept (getElem?_of_bucket openedSwept)).agrees
    have stuck : swept.readNew queue pool byteLimit now index = (.error .panicked, swept) :=
      readNew_of_panics openedSwept agrees (bared ▸ drops.panics.symm.trans panics)
    refine ⟨names, swept, .error .panicked, swept, store, names, swept, sweeps, stuck,
      readNew_of_panics opened its.agrees panics, sweeps, .refl swept,
      .inr ⟨rfl, ?_⟩⟩
    simpa [allowance] using overflows_of_deliver panics
  rw [Bool.not_eq_true] at panics
  obtain ⟨-, end₁, reads, -, -, -, settlesRead⟩ := exists_readNew sweptKept sweptWritable
    openedSwept (afterSweep ▸ readFine) bare bared (drops.panics.symm.trans panics)
  -- the reading first
  obtain ⟨left, read, readsToo, openedRead, leftKept, leftEntries, settlesReadToo⟩ :=
    exists_readNew kept writable opened readFineToo full rfl panics
  have afterRead : (store.serve (.readNew queue pool byteLimit now index)).2 = read :=
    congrArg Prod.snd readsToo
  obtain ⟨readKept, readWritable⟩ :=
    (readNew_edited kept queue pool byteLimit now index).sound kept writable
  rw [congrArg Prod.snd readsToo] at readKept readWritable
  obtain ⟨names', -, end₂, sweepsToo, -, -, settlesSweepToo⟩ :=
    exists_cleanUp readKept readWritable openedRead (afterRead ▸ sweepFineToo)
  refine ⟨names, swept, .ok bare.messages, end₁, read, names', end₂, sweeps, reads,
    drops.messages ▸ readsToo, sweepsToo, ?_, .inl ⟨_, rfl⟩⟩
  -- what the first sweep drops, the reading drops or the second sweep does
  have gone : (staleEntries bucket now).Perm (dropped ++ staleEntries left now) := by
    refine (perm_staleEntries its.agrees.indexed now).trans ?_
    refine (perm_stale stored apart less more part drops).trans (.append_left _ ?_)
    rw [← leftEntries]
    exact (perm_staleEntries leftKept.agrees.indexed now).symm
  obtain ⟨freed, count, payloads⟩ := meeting_balance stored apart less more part drops gone
  have both := settlesSweep.trans settlesRead
  have bothToo := settlesReadToo.trans settlesSweepToo
  rw [lasting, freed, count] at both
  rw [leftEntries, lasting_actAll stored apart less more part drops] at bothToo
  exact both.sameUpshot bothToo payloads

/-- A message waits between two that have expired. -/
def mingled : Store :=
  let message (qos : Qos) (payload : UInt64) (expiry : Option UInt64) := Event.ask <|
    .add .client (.publish { Publish.ofQos qos "u" payload with expiry }) 10 .discard 0
  ((World.start .single .empty).run
    [message .atMostOnce 1 (some 1), message .atLeastOnce 2 none,
      message .exactlyOnce 3 (some 1)]).store

/-- The reading drops the first of them and stops before the other. -/
theorem sweep_and_read_commute_mingled : ∃ names swept messages end₁ read names' end₂,
    mingled.cleanUp 1000 0 = (.ok names, swept) ∧
      swept.readNew .client [7] 100 1000 0 = (.ok messages, end₁) ∧
      mingled.readNew .client [7] 100 1000 0 = (.ok messages, read) ∧
      read.cleanUp 1000 0 = (.ok names', end₂) ∧ SameUpshot end₁ end₂ ∧
      messages.map (fun message => (message.payload, message.packetId)) = [(2, 7)] ∧
      read.outbox.released = [1] ∧ swept.outbox.released = [1, 3] ∧ end₂.stats.expired = 2 := by
  have reached : mingled.Reached :=
    ⟨.single, .empty, .single, .empty, _, Store.inMemory_single, rfl⟩
  have fine : (mingled.bucket 0).toOption.any (fun _ => true) = true := by decide +kernel
  obtain ⟨bucket, opened, -⟩ := exists_bucket fine
  obtain ⟨names, swept, answer, end₁, read, names', end₂, sweeps, reads, readsToo, sweepsToo,
    same, answers⟩ := sweep_and_read_commute reached opened .client [7] 100 1000
      (by decide +kernel) (by decide +kernel)
  have answered : (mingled.readNew .client [7] 100 1000 0).1.toOption.map
      (List.map fun message => (message.payload, message.packetId)) = some [(2, 7)] := by
    decide +kernel
  have dropped : (mingled.readNew .client [7] 100 1000 0).2.outbox.released = [1] ∧
      ((mingled.readNew .client [7] 100 1000 0).2.cleanUp 1000 0).2.stats.expired = 2 := by
    decide +kernel
  have cleaned : (mingled.cleanUp 1000 0).2.outbox.released = [1, 3] := by decide +kernel
  rw [readsToo] at answered dropped
  rw [sweepsToo] at dropped
  rw [sweeps] at cleaned
  obtain ⟨messages, rfl⟩ | ⟨rfl, -⟩ := answers
  · exact ⟨names, swept, messages, end₁, read, names', end₂, sweeps, reads, readsToo, sweepsToo,
      same, Option.some.inj answered, dropped.1, cleaned, dropped.2⟩
  · cases answered

end Store

end DeliveryQueue
