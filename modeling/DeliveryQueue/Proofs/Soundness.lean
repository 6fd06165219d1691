import DeliveryQueue.Proofs.Entries
import DeliveryQueue.Proofs.RoundTrip

/-!
Which entries a bucket can come to hold. No two entries of a queue carry one packet id, none carries
the id zero, and a taken message is one of QoS 1 or 2 without an id (`Sound`). The changes that a
store makes keep it so, weigh no more than what they bring in, and read back as they were written
(`Lawful`); so does the snapshot of sound entries (`lawfulAlong_snapshot`).
-/
namespace DeliveryQueue

namespace Entry

/-- What holds of each stored entry by itself. -/
def Proper : Entry → Prop
  | publish stored => stored.packetId ≠ some noPacketId
  | pubrel _ => True
  | taken stored => stored.packetId = none ∧ stored.qos ≠ .atMostOnce

/-- What the entry adds to the QoS 0 budget. -/
def weight (entry : Entry) : Nat := entry.qos0Bytes?.elim 0 UInt64.toNat

theorem Proper.spelled {entry : Entry} (proper : entry.Proper) : entry.spelled = entry := by
  cases entry with
  | publish stored =>
    change stored.packetId ≠ some noPacketId at proper
    simp [Entry.spelled, StoredPublish.spelled, spelledId, proper]
  | pubrel packetId => rfl
  | taken stored =>
    have absent : spelledId stored.packetId = stored.packetId := by simp [spelledId, proper.1]
    rw [Entry.spelled, StoredPublish.spelled, absent]

end Entry

namespace Table

/-- Every binding of the one table is a binding of the other. -/
def Within (small large : Entries) : Prop :=
  ∀ ⦃key entry⦄, small.get? key = some entry → large.get? key = some entry

/-- Some entry of the queue carries the packet id. -/
def Carries (entries : Entries) (queue : QueueKey) (id : UInt16) : Prop :=
  ∃ sequence entry, entries.get? ⟨queue, sequence⟩ = some entry ∧ entry.packetId? = some id

/-- What the entries weigh against the QoS 0 budget. -/
def weight (entries : Entries) : Nat := entries.total fun _ => Entry.weight

end Table

structure Sound (entries : Entries) : Prop where
  single : entries.SingleCarriers
  proper : ∀ ⦃key entry⦄, entries.get? key = some entry → entry.Proper

namespace Sound

variable {entries : Entries} {key : EntryKey}

theorem empty : Sound Table.empty where
  single _ _ _ _ _ _ found := by cases found
  proper _ _ found := by cases found

theorem of_within {small large : Entries} (sound : Sound large) (within : small.Within large) :
    Sound small where
  single _ _ _ _ _ _ first carries second carriesToo :=
    sound.single (within first) carries (within second) carriesToo
  proper _ _ found := sound.proper (within found)

/-- Only what is newly set has to be looked at. -/
theorem set (sound : Sound entries) {after : Option Entry}
    (proper : ∀ entry, after = some entry → entry.Proper)
    (single : ∀ entry id, after = some entry → entry.packetId? = some id →
      ∀ sequence other, entries.get? ⟨key.queue, sequence⟩ = some other →
        other.packetId? = some id → sequence = key.sequence) :
    Sound (entries.set key after) where
  single := by
    intro queue id a b first second found carries foundToo carriesToo
    by_cases here : (⟨queue, a⟩ : EntryKey) = key
    · subst here
      rw [Table.get?_set_self] at found
      by_cases there : (⟨queue, b⟩ : EntryKey) = ⟨queue, a⟩
      · cases there
        rfl
      · rw [Table.get?_set_of_ne there] at foundToo
        exact (single first id found carries b second foundToo carriesToo).symm
    · rw [Table.get?_set_of_ne here] at found
      by_cases there : (⟨queue, b⟩ : EntryKey) = key
      · subst there
        rw [Table.get?_set_self] at foundToo
        exact single second id foundToo carriesToo a first found carries
      · rw [Table.get?_set_of_ne there] at foundToo
        exact sound.single found carries foundToo carriesToo
  proper := by
    intro other entry found
    by_cases same : other = key
    · rw [same, Table.get?_set_self] at found
      exact proper entry found
    · rw [Table.get?_set_of_ne same] at found
      exact sound.proper found

end Sound

namespace Change

/-- What the change may add to the weight of the entries. -/
def load (change : Change) : Nat := change.inserted?.elim 0 Entry.weight

/-- A change that a store makes, as its journal and its budget see it. -/
structure Lawful (entries : Entries) (change : Change) : Prop where
  sound : Sound (change.act entries)
  weight : (change.act entries).weight ≤ entries.weight + change.load
  plain : change.spelled = change
  /-- Only a message is given a packet id. -/
  assigns : ∀ ⦃key id⦄, change = .assign key id →
    ∃ stored, entries.get? key = some (.publish stored)

/-- Changes that are lawful one after the other. -/
def LawfulAlong (entries : Entries) : List Change → Prop
  | [] => True
  | change :: changes => Lawful entries change ∧ LawfulAlong (change.act entries) changes

theorem lawfulAlong_append {entries : Entries} {front back : List Change} :
    LawfulAlong entries (front ++ back) ↔
      LawfulAlong entries front ∧ LawfulAlong (actAll entries front) back := by
  induction front generalizing entries with
  | nil => simp [LawfulAlong]
  | cons change front ih => simp [LawfulAlong, ih, and_assoc]

variable {entries : Entries} {changes : List Change}

theorem LawfulAlong.sound (lawful : LawfulAlong entries changes) (sound : Sound entries) :
    Sound (actAll entries changes) := by
  induction changes generalizing entries with
  | nil => exact sound
  | cons change changes ih => exact ih lawful.2 lawful.1.sound

theorem LawfulAlong.weight (lawful : LawfulAlong entries changes) :
    (actAll entries changes).weight ≤ entries.weight + (changes.map load).sum := by
  induction changes generalizing entries with
  | nil => simp
  | cons change changes ih =>
    have first := lawful.1.weight
    have others := ih lawful.2
    simp only [actAll_cons, List.map_cons, List.sum_cons]
    omega

theorem LawfulAlong.plain (lawful : LawfulAlong entries changes) :
    changes.map spelled = changes := by
  induction changes generalizing entries with
  | nil => rfl
  | cons change changes ih => rw [List.map_cons, lawful.1.plain, ih lawful.2]

/-- The weight goes from what stood at the key to what stands there now. -/
theorem weight_act (entries : Entries) (change : Change) :
    (change.act entries).weight + (entries.get? change.key).elim 0 Entry.weight =
      entries.weight + (change.outcome (entries.get? change.key)).elim 0 Entry.weight :=
  Table.total_set entries (fun _ => Entry.weight) change.key _

theorem weight_act_insert (entries : Entries) (key : EntryKey) (entry : Entry) :
    ((insert key entry).act entries).weight ≤ entries.weight + (insert key entry).load := by
  have trade := weight_act entries (insert key entry)
  simp only [outcome, load, inserted?, Option.elim] at trade ⊢
  omega

theorem lawful_insert (sound : Sound entries) {key : EntryKey} {entry : Entry}
    (proper : entry.Proper)
    (free : ∀ id, entry.packetId? = some id → ¬ entries.Carries key.queue id) :
    Lawful entries (insert key entry) where
  sound := by
    refine sound.set ?_ ?_
    · rintro other ⟨⟩
      exact proper
    · rintro other id ⟨⟩ carries sequence carrier found carriesToo
      exact absurd ⟨sequence, carrier, found, carriesToo⟩ (free id carries)
  weight := weight_act_insert entries key entry
  plain := by simp [spelled, proper.spelled]
  assigns := by rintro other id ⟨⟩

end Change

/-! Edits -/

/-- The changes that a store makes to what it holds already. -/
inductive Edit (entries : Entries) : Change → Prop
  | delete {key : EntryKey} {entry : Entry} (found : entries.get? key = some entry) :
      Edit entries (.delete key)
  | hand {key : EntryKey} {stored : StoredPublish} {id : UInt16}
      (found : entries.get? key = some (.publish stored)) (acknowledged : stored.qos ≠ .atMostOnce)
      (proper : id ≠ noPacketId) (free : ¬ entries.Carries key.queue id) :
      Edit entries (.assign key (some id))
  | take {key : EntryKey} {stored : StoredPublish} (shared : key.queue.shared = true)
      (found : entries.get? key = some (.publish stored))
      (acknowledged : stored.qos ≠ .atMostOnce) : Edit entries (.mark key true)
  | giveBack {key : EntryKey} {stored : StoredPublish} (shared : key.queue.shared = true)
      (found : entries.get? key = some (.taken stored)) : Edit entries (.mark key false)
  | release {key : EntryKey} {stored : StoredPublish} {id : UInt16}
      (found : entries.get? key = some (.publish stored)) (carried : stored.packetId = some id) :
      Edit entries (.release key id)

def EditsAlong (entries : Entries) : List Change → Prop
  | [] => True
  | change :: changes => Edit entries change ∧ EditsAlong (change.act entries) changes

namespace Edit

variable {entries : Entries} {change : Change}

theorem stored (edit : Edit entries change) :
    ∃ entry, entries.get? change.key = some entry := by
  cases edit <;> exact ⟨_, ‹_›⟩

theorem load (edit : Edit entries change) : change.load = 0 := by
  cases edit <;> rfl

theorem inserted? (edit : Edit entries change) : change.inserted? = none := by
  cases edit <;> rfl

theorem lawful (sound : Sound entries) (edit : Edit entries change) :
    Change.Lawful entries change := by
  have trade := Change.weight_act entries change
  cases edit with
  | delete found =>
    refine ⟨sound.set ?_ ?_, by simp only [Change.outcome, Option.elim] at trade; omega, rfl, ?_⟩
    · rintro entry ⟨⟩
    · rintro entry id ⟨⟩
    · rintro key id ⟨⟩
  | @hand key stored id found acknowledged proper free =>
    simp only [Change.outcome, Change.key, found, Option.map_some, Entry.assigned, Option.elim,
      Entry.weight, Entry.qos0Bytes?, acknowledged, if_false] at trade
    refine ⟨?_, by omega, by simp [Change.spelled, spelledId, proper],
      by rintro other id ⟨⟩; exact ⟨stored, found⟩⟩
    simp only [Change.act, Change.key, Change.outcome, found, Option.map_some, Entry.assigned]
    refine sound.set ?_ ?_
    · rintro entry ⟨⟩
      simpa [Entry.Proper] using proper
    · rintro entry other ⟨⟩ ⟨⟩ sequence carrier there carries
      exact absurd ⟨sequence, carrier, there, carries⟩ free
  | @take key stored shared found acknowledged =>
    simp only [Change.outcome, Change.key, found, Option.map_some, Entry.marked, Option.elim,
      Entry.weight, Entry.qos0Bytes?, if_true] at trade
    refine ⟨?_, by omega, rfl, by rintro other id ⟨⟩⟩
    simp only [Change.act, Change.key, Change.outcome, found, Option.map_some, Entry.marked,
      if_true]
    refine sound.set ?_ ?_
    · rintro entry ⟨⟩
      exact ⟨rfl, acknowledged⟩
    · rintro entry other ⟨⟩ ⟨⟩
  | @giveBack key stored shared found =>
    have proper : stored.packetId = none ∧ stored.qos ≠ .atMostOnce := sound.proper found
    simp only [Change.outcome, Change.key, found, Option.map_some, Entry.marked, Option.elim,
      Entry.weight, Entry.qos0Bytes?, proper.2, if_false, Bool.false_eq_true] at trade
    refine ⟨?_, by omega, rfl, by rintro other id ⟨⟩⟩
    simp only [Change.act, Change.key, Change.outcome, found, Option.map_some, Entry.marked,
      Bool.false_eq_true, if_false]
    refine sound.set ?_ ?_
    · rintro entry ⟨⟩
      simp [Entry.Proper, proper.1]
    · rintro entry other ⟨⟩ carries
      simp [Entry.packetId?, proper.1] at carries
  | @release key stored id found carried =>
    simp only [Change.outcome, Change.key, Option.elim, Entry.weight, Entry.qos0Bytes?] at trade
    refine ⟨sound.set ?_ ?_, by omega, rfl, ?_⟩
    · rintro entry ⟨⟩
      trivial
    · rintro entry other ⟨⟩ ⟨⟩ sequence carrier there carries
      exact sound.single there carries found carried
    · rintro other id ⟨⟩

end Edit

theorem EditsAlong.lawful {entries : Entries} {changes : List Change} (sound : Sound entries)
    (edits : EditsAlong entries changes) : Change.LawfulAlong entries changes := by
  induction changes generalizing entries with
  | nil => trivial
  | cons change changes ih =>
    have first := edits.1.lawful sound
    exact ⟨first, ih first.sound edits.2⟩

/-- Edits add no entries. -/
theorem EditsAlong.size_le {entries : Entries} {changes : List Change}
    (edits : EditsAlong entries changes) : (Change.actAll entries changes).size ≤ entries.size := by
  induction changes generalizing entries with
  | nil => exact Nat.le_refl _
  | cons change changes ih =>
    apply Nat.le_trans (ih edits.2)
    obtain ⟨entry, found⟩ := edits.1.stored
    have trade := Table.total_set entries (fun _ _ => 1) change.key
      (change.outcome (entries.get? change.key))
    have one : (change.outcome (entries.get? change.key)).elim 0 (fun _ => 1) ≤ 1 := by
      cases change.outcome (entries.get? change.key) <;> simp
    rw [← Change.act, Table.total_one, Table.total_one, found, Option.elim] at trade
    rw [found] at one
    omega

theorem EditsAlong.inserted? {entries : Entries} {changes : List Change}
    (edits : EditsAlong entries changes) : changes.filterMap Change.inserted? = [] := by
  induction changes generalizing entries with
  | nil => rfl
  | cons change changes ih => rw [List.filterMap_cons_none edits.1.inserted?, ih edits.2]

theorem EditsAlong.load {entries : Entries} {changes : List Change}
    (edits : EditsAlong entries changes) : (changes.map Change.load).sum = 0 := by
  induction changes generalizing entries with
  | nil => rfl
  | cons change changes ih =>
    rw [List.map_cons, List.sum_cons, edits.1.load, ih edits.2]

theorem editsAlong_deletes {entries : Entries} {keys : List EntryKey} (apart : keys.Nodup)
    (stored : ∀ key ∈ keys, ∃ entry, entries.get? key = some entry) :
    EditsAlong entries (keys.map .delete) := by
  induction keys generalizing entries with
  | nil => trivial
  | cons key keys ih =>
    obtain ⟨others, apart⟩ := List.nodup_cons.mp apart
    obtain ⟨⟨entry, found⟩, stored⟩ := List.forall_mem_cons.mp stored
    refine ⟨.delete found, ih apart ?_⟩
    intro other member
    have differs : other ≠ (Change.delete key).key := by
      rintro rfl
      exact others member
    rw [Change.get?_act_of_ne differs]
    exact stored other member

/-! Snapshots -/

/-- The changes that a snapshot of the entries holds. -/
def snapshot (entries : Entries) : List Change := entries.bindings.map fun e => .insert e.1 e.2

section Snapshot
variable {entries part : Entries} {rest : List (EntryKey × Entry)}

theorem within_insert (within : part.Within entries) {key : EntryKey} {entry : Entry}
    (found : entries.get? key = some entry) :
    ((Change.insert key entry).act part).Within entries := by
  intro other stored there
  by_cases same : other = key
  · rw [same] at there ⊢
    exact found.trans ((Change.get?_act_self (.insert key entry) part).symm.trans there)
  · rw [Change.get?_act_of_ne same] at there
    exact within there

/-- Inserting bindings of sound entries one after the other stays within them. -/
theorem lawfulAlong_inserts (sound : Sound entries) (within : part.Within entries)
    (members : ∀ e ∈ rest, e ∈ entries.bindings) :
    Change.LawfulAlong part (rest.map fun e => .insert e.1 e.2) ∧
      (Change.actAll part (rest.map fun e => .insert e.1 e.2)).Within entries ∧
      part.Within (Change.actAll part (rest.map fun e => .insert e.1 e.2)) ∧
      ∀ e ∈ rest, (Change.actAll part (rest.map fun e => .insert e.1 e.2)).get? e.1 = some e.2 := by
  induction rest generalizing part with
  | nil => exact ⟨trivial, within, fun _ _ found => found, by simp⟩
  | cons e rest ih =>
    obtain ⟨key, entry⟩ := e
    obtain ⟨member, members⟩ := List.forall_mem_cons.mp members
    have found := Table.mem_bindings_iff.mp member
    have next := within_insert within found
    obtain ⟨lawful, inside, grown, bound⟩ := ih next members
    have placed := grown (Change.get?_act_self (.insert key entry) part)
    have lawfully : Change.Lawful part (.insert key entry) := by
      refine ⟨sound.of_within next, Change.weight_act_insert part key entry, ?_, ?_⟩
      · simp [Change.spelled, (sound.proper found).spelled]
      · rintro other id ⟨⟩
    refine ⟨⟨lawfully, lawful⟩, inside, ?_, List.forall_mem_cons.mpr ⟨placed, bound⟩⟩
    intro other stored there
    by_cases same : other = key
    · have equal := (within there).symm.trans (same ▸ found)
      rw [same, equal]
      exact placed
    · exact grown ((Change.get?_act_of_ne same part).trans there)

end Snapshot

theorem lawfulAlong_snapshot {entries : Entries} (sound : Sound entries) :
    Change.LawfulAlong Table.empty (snapshot entries) := by
  have nothing : Table.Within Table.empty entries := fun _ _ found => by cases found
  exact (lawfulAlong_inserts sound nothing fun _ member => member).1

theorem actAll_snapshot {entries : Entries} (sound : Sound entries) :
    Change.actAll Table.empty (snapshot entries) = entries := by
  have nothing : Table.Within Table.empty entries := fun _ _ found => by cases found
  obtain ⟨_, inside, _, bound⟩ := lawfulAlong_inserts sound nothing fun _ member => member
  apply Table.ext_get?
  intro key
  cases found : entries.get? key with
  | some entry => exact bound (key, entry) (Table.mem_bindings_iff.mpr found)
  | none =>
    cases there : (Change.actAll Table.empty (snapshot entries)).get? key with
    | none => rfl
    | some entry => exact absurd (inside there) (by simp [found])

/-- A snapshot brings in just what the entries weigh. -/
theorem load_snapshot (entries : Entries) :
    ((snapshot entries).map Change.load).sum = entries.weight := by
  simp [snapshot, Table.weight, Table.total, Change.load, Change.inserted?, Function.comp_def]

end DeliveryQueue
