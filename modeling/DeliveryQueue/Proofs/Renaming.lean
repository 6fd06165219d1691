import DeliveryQueue.Proofs.Plans

/-!
Other sequence numbers. What a request plans for its queue takes no notice of the sequence numbers
in it: with other numbers, the same is answered, and the same changes are made at the places that
have the other numbers (`Request.plan_renamed`). As long as the order stays, so does what the
changes lead to (`Change.actAll_renamed`), and whether they can be written.
-/
namespace DeliveryQueue

variable {f : UInt64 → UInt64}

/-- The place with another sequence number. -/
def EntryKey.renamed (f : UInt64 → UInt64) (key : EntryKey) : EntryKey :=
  ⟨key.queue, f key.sequence⟩

def Change.renamed (f : UInt64 → UInt64) : Change → Change
  | insert key entry => insert (key.renamed f) entry
  | delete key => delete (key.renamed f)
  | assign key packetId => assign (key.renamed f) packetId
  | mark key taken => mark (key.renamed f) taken
  | release key packetId => release (key.renamed f) packetId

def Line.renamed (f : UInt64 → UInt64) (line : Line) : Line :=
  line.map fun e => (e.1.renamed f, e.2)

def Plan.renamed (f : UInt64 → UInt64) (plan : Plan) : Plan :=
  { plan with changes := plan.changes.map (Change.renamed f) }

@[simp] theorem Change.key_renamed (change : Change) :
    (change.renamed f).key = change.key.renamed f := by
  cases change <;> rfl

/-! Plans -/

def Store.Delivery.renamed (f : UInt64 → UInt64) (delivery : Delivery) : Delivery :=
  { delivery with changes := delivery.changes.map (Change.renamed f) }

theorem Store.deliver_renamed (shared : Bool) (now : UInt64) (allowance : Allowance)
    (line : Line) :
    deliver shared now allowance (Line.renamed f line) =
      (deliver shared now allowance line).renamed f := by
  induction line generalizing allowance with
  | nil => rfl
  | cons e rest ih =>
    obtain ⟨key, entry⟩ := e
    have next (allowance : Allowance) :
        deliver shared now allowance (rest.map fun e => (e.1.renamed f, e.2)) =
          (deliver shared now allowance rest).renamed f := ih allowance
    simp only [Line.renamed, List.map_cons, deliver]
    cases entry with
    | pubrel _ | taken _ =>
      simp only [next]
      split <;> rfl
    | publish stored =>
      simp only [next]
      split
      · rfl
      · split
        · rfl
        · split
          · rfl
          · split
            · rfl
            · split
              · rfl
              · split
                · rfl
                · split
                  · rfl
                  · split <;> rfl

namespace Line

variable (line : Line)

theorem find?_renamed (fits : Entry → Bool) :
    (line.renamed f).find? (fun e => fits e.2) =
      (line.find? fun e => fits e.2).map fun e => (e.1.renamed f, e.2) :=
  List.find?_map

theorem carrier?_renamed (id : UInt16) :
    carrier? (line.renamed f) id = (carrier? line id).map fun e => (e.1.renamed f, e.2) :=
  find?_renamed line fun entry => entry.packetId? = some id

theorem countP_renamed (fits : Entry → Bool) :
    (line.renamed f).countP (fun e => fits e.2) = line.countP fun e => fits e.2 :=
  List.countP_map

theorem free_renamed (pool : List UInt16) : free (line.renamed f) pool = free line pool := by
  simp only [free, carrier?_renamed, Option.isNone_map]

theorem accept_renamed (next : EntryKey) (message : Publish) (limit : Nat)
    (policy : DiscardPolicy) :
    accept (line.renamed f) (next.renamed f) message limit policy =
      (accept line next message limit policy).renamed f := by
  have count := countP_renamed (f := f) line fun entry =>
    entry.messageClass = MessageClass.of message.qos
  have oldest := find?_renamed (f := f) line fun entry =>
    entry.isNew && decide (entry.messageClass = MessageClass.of message.qos)
  simp only [accept, count, oldest]
  split
  · rfl
  · rfl
  · cases line.find? fun e => e.2.isNew && decide (e.2.messageClass = MessageClass.of message.qos)
      <;> rfl

theorem readNew_renamed (overflow : Overflow) (shared : Bool) (pool : List UInt16)
    (byteLimit now : UInt64) :
    readNew (line.renamed f) overflow shared pool byteLimit now =
      (readNew line overflow shared pool byteLimit now).renamed f := by
  simp only [readNew, free_renamed, Store.deliver_renamed, Store.Delivery.renamed]
  split <;> rfl

theorem readInFlight_renamed (overflow : Overflow) (maxCount : Nat) (byteLimit : UInt64) :
    readInFlight (line.renamed f) overflow maxCount byteLimit =
      readInFlight line overflow maxCount byteLimit := by
  have entries : (line.renamed f).map Prod.snd = line.map Prod.snd := by
    rw [renamed, List.map_map]
    rfl
  rw [readInFlight, entries, readInFlight]

theorem changeFirst_renamed (fits : Entry → Bool) {change : EntryKey → Change}
    (falls : ∀ key, change (key.renamed f) = (change key).renamed f) :
    changeFirst (line.renamed f) fits change = (changeFirst line fits change).renamed f := by
  simp only [changeFirst, find?_renamed]
  cases line.find? fun e => fits e.2 with
  | none => rfl
  | some e => simp [Plan.renamed, falls]

theorem deleteEntries_renamed (fits : Entry → Bool) :
    deleteEntries (line.renamed f) fits = (deleteEntries line fits).renamed f := by
  simp only [deleteEntries, Plan.renamed, renamed, List.filter_map, List.map_map]
  rfl

end Line

/-- With other numbers in the queue, a request makes the same plan at other places. -/
theorem Request.plan_renamed (overflow : Overflow) (line : Line) (next : EntryKey)
    (request : Request) :
    request.plan overflow (line.renamed f) (next.renamed f) =
      (request.plan overflow line next).renamed f := by
  cases request with
  | add queue message limit policy index =>
    cases message with
    | publish message => exact Line.accept_renamed line next message limit policy
    | pubrel id =>
      simp only [plan, Line.carrier?_renamed]
      cases Line.carrier? line id <;> rfl
  | readNew queue pool byteLimit now =>
    exact Line.readNew_renamed line overflow queue.shared pool byteLimit now
  | readInFlight _ maxCount byteLimit =>
    simp only [plan, Line.readInFlight_renamed]
    rfl
  | replace _ id =>
    simp only [plan, Line.replace, Line.carrier?_renamed]
    rcases Line.carrier? line id with _ | ⟨key, entry⟩
    · rfl
    · cases entry <;> rfl
  | remove _ id expected =>
    simp only [plan, Line.remove, Line.carrier?_renamed]
    rcases Line.carrier? line id with _ | ⟨key, entry⟩
    · rfl
    · dsimp only [Option.map_some]
      split <;> rfl
  | removeShared _ uniqueId =>
    exact Line.changeFirst_renamed line (fun entry => entry.uniqueId? = some uniqueId) fun _ => rfl
  | giveBack _ uniqueId =>
    exact Line.changeFirst_renamed line (Store.isTaken uniqueId) fun _ => rfl
  | removeQos0 => exact Line.deleteEntries_renamed line fun entry => entry.messageClass = .qos0
  | clear => exact Line.deleteEntries_renamed line fun _ => true
  | size =>
    simp only [plan, Line.renamed, List.length_map]
    rfl
  | cleanUp | close => rfl

/-- A plan that draws no number does not depend on the next one. -/
theorem Request.plan_of_draws_eq_false {overflow : Overflow} {line : Line} {next : EntryKey}
    {request : Request} (stays : (request.plan overflow line next).draws = false)
    (other : EntryKey) : request.plan overflow line other = request.plan overflow line next := by
  cases request with
  | add queue message limit policy index =>
    cases message with
    | publish message =>
      simp only [plan, Line.accept] at stays ⊢
      split
      · simp_all
      · rfl
      · split
        · simp_all
        · rfl
    | pubrel id =>
      simp only [plan] at stays ⊢
      split
      · rfl
      · simp_all
  | replace _ id =>
    simp only [plan, Line.replace] at stays ⊢
    split
    · simp_all
    · rfl
    · rfl
  | readNew | readInFlight | remove | removeShared | giveBack | removeQos0 | clear | size
  | cleanUp | close => rfl

/-! Entries -/

/-- The new numbers of some places are in the order of the old. -/
def Orders (f : UInt64 → UInt64) (places : EntryKey → Prop) : Prop :=
  ∀ ⦃a b⦄, places a → places b → compare (a.renamed f) (b.renamed f) = compare a b

section Tables
variable {places : EntryKey → Prop} {key : EntryKey} {line : Line}

theorem Table.find?_renamed (orders : Orders f places) (its : places key)
    (all : ∀ e ∈ line, places e.1) : find? (key.renamed f) (line.renamed f) = find? key line := by
  induction line with
  | nil => rfl
  | cons e rest ih =>
    obtain ⟨first, others⟩ := List.forall_mem_cons.mp all
    have same := orders its first
    have later := ih others
    simp only [Line.renamed, List.map_cons, find?] at later ⊢
    rw [same, later]

theorem Table.place_renamed (orders : Orders f places) (its : places key)
    (all : ∀ e ∈ line, places e.1) (entry : Entry) :
    place (key.renamed f) entry (line.renamed f) = Line.renamed f (place key entry line) := by
  induction line with
  | nil => rfl
  | cons e rest ih =>
    obtain ⟨first, others⟩ := List.forall_mem_cons.mp all
    have same := orders its first
    have later := ih others
    simp only [Line.renamed, List.map_cons, place] at later ⊢
    rw [same]
    split
    · rfl
    · rfl
    · rw [later, List.map_cons]

variable {entries twin : Entries}

theorem Table.bindings_set_renamed (orders : Orders f places) (its : places key)
    (all : ∀ e ∈ entries.bindings, places e.1)
    (same : twin.bindings = Line.renamed f entries.bindings) (after : Option Entry) :
    (twin.set (key.renamed f) after).bindings =
      Line.renamed f (entries.set key after).bindings := by
  cases after with
  | some entry =>
    have placed := place_renamed orders its all entry
    exact (congrArg (place (key.renamed f) entry) same).trans placed
  | none =>
    change twin.bindings.filter _ = Line.renamed f (entries.bindings.filter _)
    rw [same, Line.renamed, List.filter_map, Line.renamed]
    congr 1
    refine List.filter_congr ?_
    intro e member
    exact congrArg (· != Ordering.eq) (orders its (all e member))

@[simp] theorem Change.outcome_renamed (change : Change) (before : Option Entry) :
    (change.renamed f).outcome before = change.outcome before := by
  cases change <;> rfl

/-- A change at the new place does there what the change does at the old. -/
theorem Change.act_renamed {change : Change} (orders : Orders f places)
    (its : places change.key) (all : ∀ e ∈ entries.bindings, places e.1)
    (same : twin.bindings = Line.renamed f entries.bindings) :
    ((change.renamed f).act twin).bindings = Line.renamed f (change.act entries).bindings := by
  have found : twin.get? (change.key.renamed f) = entries.get? change.key :=
    (congrArg (Table.find? _) same).trans (Table.find?_renamed orders its all)
  rw [act, act, key_renamed, outcome_renamed, found]
  exact Table.bindings_set_renamed orders its all same _

theorem Change.actAll_renamed {changes : List Change} (orders : Orders f places)
    (theirs : ∀ change ∈ changes, places change.key) (all : ∀ e ∈ entries.bindings, places e.1)
    (same : twin.bindings = Line.renamed f entries.bindings) :
    (actAll twin (changes.map (renamed f))).bindings =
      Line.renamed f (actAll entries changes).bindings := by
  induction changes generalizing entries twin with
  | nil => exact same
  | cons change changes ih =>
    obtain ⟨first, others⟩ := List.forall_mem_cons.mp theirs
    refine ih others ?_ (act_renamed orders first all same)
    intro e member
    by_cases touched : e.1 = change.key
    · exact touched ▸ first
    · have there := get?_act_of_ne touched entries ▸ Table.mem_bindings_iff.mp member
      exact all e (Table.mem_bindings_iff.mpr there)

end Tables

/-! Batches -/

theorem Batch.changeTexts_renamed (change : Change) :
    changeTexts (change.renamed f) = changeTexts change := by
  cases change <;> rfl

/-- Whether changes can be written is not up to sequence numbers. -/
theorem Batch.texts_renamed (changes : List Change) :
    (changes.map (Change.renamed f)).flatMap changeTexts = changes.flatMap changeTexts := by
  rw [List.flatMap_map]
  exact congrArg (changes.flatMap ·) (funext changeTexts_renamed)

theorem Batch.length_changeBytes_renamed (change : Change) :
    (changeBytes (change.renamed f)).length = (changeBytes change).length := by
  have key (key : EntryKey) : (keyBytes (key.renamed f)).length = (keyBytes key).length := by
    simp [keyBytes, EntryKey.renamed, word64, length_bigEndian]
  cases change <;> simp [Change.renamed, changeBytes, key]

/-- All sequence numbers take up the same number of bytes. -/
theorem Batch.length_bytes_renamed (changes : List Change) :
    (bytes (changes.map (Change.renamed f))).length = (bytes changes).length := by
  simp only [bytes, List.length_append, length_bigEndian, List.length_flatMap, List.map_map]
  congr 2
  exact List.map_congr_left fun change _ => length_changeBytes_renamed change

end DeliveryQueue
