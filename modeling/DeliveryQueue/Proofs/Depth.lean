import DeliveryQueue.Proofs.Fate
import DeliveryQueue.Proofs.Ledger

/-!
Depth limits. Where every message for a queue comes with the same limit and goes into the same
bucket, and a PUBREL only takes the place of an entry with its id, the queue never holds more
entries of one class than the limit (`World.depth_limits_hold`). A message that meets the limit is
given up, or makes an older one of its class go; the other class is not touched (`Store.MakesRoom`).
-/
namespace DeliveryQueue

theorem Admission.decide_eq_accept_iff {count limit : Nat} {policy : DiscardPolicy} :
    decide count limit policy = .accept ↔ count < limit := by
  unfold decide atLimit
  cases policy <;> simp

/-- The queue was full and gave up a message of the class. -/
def Notice.IsAbout (queue : QueueKey) (messageClass : MessageClass) (notice : Notice) : Prop :=
  ∃ topic qos, notice = .queueFull queue.id topic qos ∧ MessageClass.of qos = messageClass

/-- Every entry that carries a packet id is one of QoS 1 or 2. -/
def Table.Acknowledged (entries : Entries) : Prop :=
  ∀ ⦃key entry id⦄, entries.get? key = some entry → entry.packetId? = some id →
    entry.messageClass = .qos12

theorem Entry.messageClass_of_message? {entry : Entry} {stored : StoredPublish}
    (holds : entry.message? = some stored) : MessageClass.of stored.qos = entry.messageClass := by
  cases entry with
  | publish | taken =>
    cases holds
    rfl
  | pubrel => cases holds

/-- What is evicted, if anything, is an entry of the class in the queue. -/
def Table.Yields (entries : Entries) (queue : QueueKey) (messageClass : MessageClass)
    (evicted : Option EntryKey) : Prop :=
  ∀ old ∈ evicted, old.queue = queue ∧
    ∃ entry, entries.get? old = some entry ∧ entry.messageClass = messageClass

theorem Table.Yields.stored {entries : Entries} {queue : QueueKey} {messageClass : MessageClass}
    {evicted : Option EntryKey} (yields : entries.Yields queue messageClass evicted) :
    ∀ key ∈ evicted, ∃ entry, entries.get? key = some entry := by
  intro old gone
  obtain ⟨_, entry, found, _⟩ := yields old gone
  exact ⟨entry, found⟩

theorem Table.yields_none {entries : Entries} {queue : QueueKey} {messageClass : MessageClass} :
    entries.Yields queue messageClass none := by rintro old ⟨⟩

theorem Bucket.yields_oldestEvictable? {bucket : Bucket} {queue : QueueKey}
    {messageClass : MessageClass} {old : EntryKey}
    (oldest : bucket.oldestEvictable? queue messageClass = some old) :
    bucket.entries.Yields queue messageClass (some old) := by
  rintro key ⟨⟩
  obtain ⟨its, entry, found, _, classed⟩ := Store.of_oldestEvictable? oldest
  exact ⟨its, entry, found, classed⟩

/-- A queue has no more than so many entries of each class, and in all queues only entries of QoS 1
or 2 carry packet ids. -/
structure Table.Shallow (entries : Entries) (queue : QueueKey) (depth : Nat) : Prop where
  few : ∀ messageClass, entries.count queue messageClass ≤ depth
  acknowledged : entries.Acknowledged

/-- One, if the entry is of the class and its key in the queue. -/
def Entry.tally (queue : QueueKey) (messageClass : MessageClass) (key : EntryKey) (entry : Entry) :
    Nat :=
  if key.queue = queue ∧ entry.messageClass = messageClass then 1 else 0

theorem Entry.tally_of_ne {queue : QueueKey} {key : EntryKey} (other : key.queue ≠ queue)
    (messageClass : MessageClass) (entry : Entry) : entry.tally queue messageClass key = 0 :=
  if_neg fun its => other its.1

theorem Entry.tally_le (queue : QueueKey) (messageClass : MessageClass) (key : EntryKey)
    (entry : Entry) :
    entry.tally queue messageClass key ≤ if entry.messageClass = messageClass then 1 else 0 := by
  unfold tally
  by_cases classed : entry.messageClass = messageClass
  · rw [if_pos classed]
    split <;> omega
  · rw [if_neg fun both => classed both.2]
    exact Nat.zero_le _

namespace Change

variable {entries : Entries} {queue : QueueKey} {messageClass : MessageClass} {depth : Nat}
variable {key : EntryKey} {entry : Entry}

/-- A queue trades the entry that stood at the key for the one that stands there now. -/
theorem count_act (entries : Entries) (change : Change) (queue : QueueKey)
    (messageClass : MessageClass) :
    (change.act entries).count queue messageClass +
        (entries.get? change.key).elim 0 (Entry.tally queue messageClass change.key) =
      entries.count queue messageClass + (change.outcome (entries.get? change.key)).elim 0
        (Entry.tally queue messageClass change.key) :=
  Table.total_set entries (Entry.tally queue messageClass) change.key _

/-- A change in another queue makes no difference. -/
theorem count_act_of_ne {change : Change} (other : change.key.queue ≠ queue) :
    (change.act entries).count queue messageClass = entries.count queue messageClass := by
  have none (stands : Option Entry) :
      stands.elim 0 (Entry.tally queue messageClass change.key) = 0 := by
    cases stands with
    | none => rfl
    | some entry => exact Entry.tally_of_ne other messageClass entry
  have trade := count_act entries change queue messageClass
  rwa [none, none] at trade

/-- No queue gains if what stays is of the class of what was there. -/
theorem count_act_le {change : Change} {before : Entry}
    (found : entries.get? change.key = some before)
    (same : ∀ after, change.outcome (some before) = some after →
      after.messageClass = before.messageClass) :
    (change.act entries).count queue messageClass ≤ entries.count queue messageClass := by
  have trade := count_act entries change queue messageClass
  rw [found] at trade
  cases left : change.outcome (some before) with
  | none =>
    rw [left] at trade
    exact Nat.le.intro trade
  | some after =>
    rw [left, Option.elim, Option.elim, Entry.tally, Entry.tally, same after left] at trade
    exact Nat.le_of_eq (Nat.add_right_cancel trade)

theorem count_delete (found : entries.get? key = some entry) :
    ((delete key).act entries).count key.queue entry.messageClass + 1 =
      entries.count key.queue entry.messageClass := by
  have trade := count_act entries (delete key) key.queue entry.messageClass
  simpa [Change.key, outcome, found, Entry.tally] using trade

theorem count_insert_le (entries : Entries) (key : EntryKey) (entry : Entry) (queue : QueueKey)
    (messageClass : MessageClass) : ((insert key entry).act entries).count queue messageClass ≤
      entries.count queue messageClass + if entry.messageClass = messageClass then 1 else 0 := by
  have trade := count_act entries (insert key entry) queue messageClass
  have one := Entry.tally_le queue messageClass key entry
  simp only [outcome, Option.elim, Change.key] at trade
  omega

end Change

namespace Table.Acknowledged

variable {entries : Entries}

/-- Only what a change leaves at its key has to be looked at. -/
theorem act {change : Change} (acknowledged : entries.Acknowledged)
    (fine : ∀ after id, change.outcome (entries.get? change.key) = some after →
      after.packetId? = some id → after.messageClass = .qos12) :
    (change.act entries).Acknowledged := by
  intro key entry id found carries
  by_cases same : key = change.key
  · rw [same, Change.get?_act_self] at found
    exact fine entry id found carries
  · rw [Change.get?_act_of_ne same] at found
    exact acknowledged found carries

end Table.Acknowledged

namespace Table.Shallow

variable {entries : Entries} {queue : QueueKey} {depth : Nat}

/-- A change that leaves an entry of the class that was there, or none. -/
theorem act {change : Change} (shallow : entries.Shallow queue depth) {before : Entry}
    (found : entries.get? change.key = some before)
    (same : ∀ after, change.outcome (some before) = some after →
      after.messageClass = before.messageClass)
    (fine : ∀ after id, change.outcome (some before) = some after →
      after.packetId? = some id → after.messageClass = .qos12) :
    (change.act entries).Shallow queue depth where
  few messageClass := Nat.le_trans (Change.count_act_le found same) (shallow.few messageClass)
  acknowledged := shallow.acknowledged.act (found ▸ fine)

/-- An edit adds to no class: a PUBREL takes the place of a message of QoS 1 or 2. -/
theorem edit {change : Change} (shallow : entries.Shallow queue depth) (sound : Sound entries)
    (edit : Edit entries change) : (change.act entries).Shallow queue depth := by
  cases edit with
  | delete found => exact shallow.act found (by rintro after ⟨⟩) (by rintro after id ⟨⟩)
  | @hand key stored id found acknowledged =>
    have known := MessageClass.of_eq_qos12_iff.mpr acknowledged
    refine shallow.act found ?_ ?_
    · rintro after ⟨⟩
      rfl
    · rintro after other ⟨⟩ _
      exact known
  | @take key stored _ found =>
    refine shallow.act found ?_ ?_
    · rintro after ⟨⟩
      rfl
    · rintro after id ⟨⟩ ⟨⟩
  | @giveBack key stored _ found =>
    have proper : stored.packetId = none ∧ stored.qos ≠ .atMostOnce := sound.proper found
    refine shallow.act found ?_ ?_
    · rintro after ⟨⟩
      rfl
    · rintro after id ⟨⟩ _
      exact MessageClass.of_eq_qos12_iff.mpr proper.2
  | @release key stored id found carries =>
    have known := shallow.acknowledged found carries
    refine shallow.act found ?_ ?_
    · rintro after ⟨⟩
      exact known.symm
    · rintro after other ⟨⟩ _
      rfl

theorem edits {changes : List Change} (shallow : entries.Shallow queue depth)
    (sound : Sound entries) (edits : EditsAlong entries changes) :
    (Change.actAll entries changes).Shallow queue depth := by
  induction changes generalizing entries with
  | nil => exact shallow
  | cons change changes ih =>
    exact ih (shallow.edit sound edits.1) (edits.1.lawful sound).sound edits.2

/-- An entry comes to another queue, or there is room for one of its class. -/
theorem insert (shallow : entries.Shallow queue depth) {key : EntryKey} {entry : Entry}
    (room : key.queue = queue → entries.count queue entry.messageClass < depth)
    (fine : ∀ id, entry.packetId? = some id → entry.messageClass = .qos12) :
    ((Change.insert key entry).act entries).Shallow queue depth where
  few messageClass := by
    by_cases own : key.queue = queue
    · have more := Change.count_insert_le entries key entry queue messageClass
      have before := shallow.few messageClass
      by_cases classed : entry.messageClass = messageClass
      · have less := room own
        rw [classed] at less
        split at more <;> omega
      · rw [if_neg classed] at more
        omega
    · have other : (Change.insert key entry).key.queue ≠ queue := own
      rw [Change.count_act_of_ne other]
      exact shallow.few messageClass
  acknowledged := by
    refine shallow.acknowledged.act ?_
    rintro after id ⟨⟩ carries
    exact fine id carries

/-- A message comes to another queue, finds room, or takes the place of one of its class. -/
theorem arrival (shallow : entries.Shallow queue depth) (sound : Sound entries) (key : EntryKey)
    (message : Publish) {evicted : Option EntryKey}
    (room : evicted = none → key.queue = queue → entries.count queue (.of message.qos) < depth)
    (yields : entries.Yields key.queue (.of message.qos) evicted) :
    (Change.actAll entries (Store.arrival evicted key message)).Shallow queue depth := by
  cases evicted with
  | none => exact shallow.insert (room rfl) (by rintro id ⟨⟩)
  | some old =>
    obtain ⟨its, entry, found, same⟩ := yields old rfl
    have less := Change.count_delete found
    refine (shallow.edit sound (.delete found)).insert ?_ (by rintro id ⟨⟩)
    rintro rfl
    have few := shallow.few entry.messageClass
    rw [its, same] at less
    rw [same] at few
    exact Nat.lt_of_lt_of_le (Nat.lt_of_succ_le (Nat.le_of_eq less)) few

end Table.Shallow

theorem Bucket.Agrees.classSize_eq_count {bucket : Bucket} (agrees : bucket.Agrees)
    (queue : QueueKey) (messageClass : MessageClass) :
    bucket.classSize queue messageClass = bucket.entries.count queue messageClass :=
  (bucket.classSize_eq queue messageClass).trans (agrees.indexed.counts queue messageClass)

namespace Store

/-- How many entries of a class a queue has, in whatever bucket. -/
def depth (store : Store) (queue : QueueKey) (messageClass : MessageClass) : Nat :=
  store.total fun bucket => bucket.entries.count queue messageClass

/-- A queue has no more than so many entries of each class in one bucket, and none in others. -/
def Shallow (store : Store) (queue : QueueKey) (limit place : Nat) : Prop :=
  ∀ ⦃index : Nat⦄ ⦃entries : Entries⦄, store.contents[index]? = some entries →
    entries.Shallow queue (if index = place then limit else 0)

variable {store after : Store} {index few limit place : Nat} {bucket : Bucket} {queue : QueueKey}

theorem count_le_depth (found : store.buckets[index]? = some bucket) (queue : QueueKey)
    (messageClass : MessageClass) :
    bucket.entries.count queue messageClass ≤ store.depth queue messageClass :=
  List.single_le_sum (fun _ _ => Nat.zero_le _) _
    (List.mem_map_of_mem (mem_toList found))

/-- A sum to which one place adds at most so much, and the others nothing. -/
theorem sum_map_le_of_single {α : Type} {measure : α → Nat} {l : List α} {limit : Nat} (place : Nat)
    (few : ∀ i a, l[i]? = some a → measure a ≤ if i = place then limit else 0) :
    (l.map measure).sum ≤ limit := by
  induction l generalizing limit place with
  | nil => exact Nat.zero_le _
  | cons a l ih =>
    have first := few 0 a rfl
    rw [List.map_cons, List.sum_cons]
    cases place with
    | zero =>
      have rest : (l.map measure).sum ≤ 0 := ih 0 fun i b found => by
        simpa using few (i + 1) b found
      rw [if_pos rfl] at first
      omega
    | succ place =>
      have rest : (l.map measure).sum ≤ limit := ih place fun i b found => by
        simpa using few (i + 1) b found
      rw [if_neg (by omega)] at first
      omega

theorem Shallow.depth_le (shallow : store.Shallow queue limit place)
    (messageClass : MessageClass) : store.depth queue messageClass ≤ limit := by
  refine sum_map_le_of_single place fun index bucket found => ?_
  rw [Array.getElem?_toList] at found
  exact (shallow (getElem?_contents found)).few messageClass

/-- A request keeps to the depth limit of a queue: a message comes with the limit and goes into the
one bucket, and a PUBREL comes only where its id is in flight. -/
def Heeds (store : Store) (queue : QueueKey) (limit place : Nat) : Request → Prop
  | .add other (.publish _) used _ index => other = queue → used = limit ∧ index = place
  | .add other (.pubrel _) _ _ _ => other ≠ queue
  | .replace id packetId index => ⟨id, false⟩ = queue →
      ∀ bucket ∈ (store.bucket index).toOption, bucket.inFlightKey? queue packetId ≠ none
  | _ => True

namespace Shallow

theorem of_contents_eq (shallow : store.Shallow queue limit place)
    (same : after.contents = store.contents) : after.Shallow queue limit place := by
  intro index entries there
  exact shallow (same ▸ there)

/-- Only the bucket to which changes are committed has to be looked at. -/
theorem commit (shallow : store.Shallow queue limit place) (kept : store.Kept)
    (found : store.buckets[index]? = some bucket) {changes : List Change}
    (fine : (Change.actAll bucket.entries changes).Shallow queue
      (if index = place then limit else 0)) :
    (store.commit index bucket changes).2.Shallow queue limit place := by
  rcases commit_contents kept found changes with
    ⟨fault, after, failed, same⟩ | ⟨after, done, changed⟩
  · rw [failed]
    exact shallow.of_contents_eq same
  · rw [done]
    intro other entries there
    rw [changed, Array.getElem?_setIfInBounds] at there
    split at there
    · rename_i same
      split at there
      · cases there
        exact same ▸ fine
      · cases there
    · exact shallow there

theorem quiet (shallow : store.Shallow queue limit place) (kept : store.Kept)
    (step : Quiet few store after) : after.Shallow queue limit place := by
  cases step with
  | edit found edits short =>
    exact shallow.commit kept found
      ((shallow (getElem?_contents found)).edits (kept found).sound edits)
  | tend found tended =>
    exact shallow.of_contents_eq (contents_set_of_entries_eq found rfl tended.entries)
  | note => exact shallow

theorem quietly (shallow : store.Shallow queue limit place) (kept : store.Kept)
    (steps : Quietly few store after) : after.Shallow queue limit place := by
  induction steps with
  | refl => exact shallow
  | next step _ ih => exact ih (shallow.quiet kept step) (step.kept kept)

theorem edited (shallow : store.Shallow queue limit place) (kept : store.Kept)
    (edited : store.Edited after) : after.Shallow queue limit place := by
  obtain ⟨few, _, steps⟩ := edited
  exact shallow.quietly kept steps

/-! Adding -/

theorem enqueue (shallow : store.Shallow queue limit place) (kept : store.Kept)
    (found : store.buckets[index]? = some bucket) {other : QueueKey} {message : Publish}
    {evicted : Option EntryKey}
    (room : evicted = none → other = queue → bucket.entries.count queue (.of message.qos) <
      if index = place then limit else 0)
    (yields : bucket.entries.Yields other (.of message.qos) evicted) :
    (store.enqueue other message evicted index bucket).2.Shallow queue limit place := by
  have fine := (shallow (getElem?_contents found)).arrival (kept found).sound
    ⟨other, store.sequence.next⟩ message room yields
  have drawn : { store with sequence := store.sequence.advance }.Shallow queue limit place :=
    shallow
  refine enqueue_of_commit (P := fun store => store.Shallow queue limit place) kept found
    yields.stored ?_ ?_ (drawn.commit kept.advance found fine)
  · intro before after same shallow
    exact shallow.of_contents_eq same
  · intro _ before fuel keeps shallow
    exact shallow.quietly keeps (quietly_evictQos0 fuel before)

theorem addPublish (shallow : store.Shallow queue limit place) (kept : store.Kept)
    {other : QueueKey} {used : Nat} (heeds : other = queue → used = limit ∧ index = place)
    (message : Publish) (policy : DiscardPolicy) :
    (store.addPublish other message used policy index).2.Shallow queue limit place := by
  have adds := adds_addPublish store other message used policy index
  generalize store.addPublish other message used policy index = served at adds ⊢
  cases adds with
  | refused | turnedAway => exact shallow
  | @accepted bucket opened room =>
    have found := getElem?_of_bucket opened
    refine shallow.enqueue kept found ?_ Table.yields_none
    rintro _ rfl
    obtain ⟨rfl, rfl⟩ := heeds rfl
    rw [Admission.decide_eq_accept_iff, (kept found).agrees.classSize_eq_count] at room
    rwa [if_pos rfl]
  | @evicting bucket old opened _ oldest =>
    exact shallow.enqueue kept (getElem?_of_bucket opened) (by rintro ⟨⟩)
      (Bucket.yields_oldestEvictable? oldest)

theorem enqueuePubrel (shallow : store.Shallow queue limit place) (kept : store.Kept)
    (found : store.buckets[index]? = some bucket) {other : QueueKey} (apart : other ≠ queue)
    (id : UInt16) :
    (store.enqueuePubrel other id index bucket).2.Shallow queue limit place := by
  have drawn : { store with sequence := store.sequence.advance }.Shallow queue limit place :=
    shallow
  exact drawn.commit kept.advance found ((shallow (getElem?_contents found)).insert
    (fun its => absurd its apart) fun _ _ => rfl)

theorem addPubrel (shallow : store.Shallow queue limit place) (kept : store.Kept)
    {other : QueueKey} (apart : other ≠ queue) (id : UInt16) (index : Nat) :
    (store.addPubrel other id index).2.Shallow queue limit place := by
  have adds := adds_addPubrel store other id index
  generalize store.addPubrel other id index = served at adds ⊢
  cases adds with
  | refused | known => exact shallow
  | fresh opened => exact shallow.enqueuePubrel kept (getElem?_of_bucket opened) apart id

/-! Every request -/

theorem replace (shallow : store.Shallow queue limit place) (kept : store.Kept) {id : String}
    {packetId : UInt16} (heeds : store.Heeds queue limit place (.replace id packetId index)) :
    (store.replace id packetId index).2.Shallow queue limit place := by
  have replaces := replaces_replace store id packetId index
  generalize store.replace id packetId index = served at replaces ⊢
  cases replaces with
  | refused | known => exact shallow
  | @fresh bucket opened free =>
    refine shallow.enqueuePubrel kept (getElem?_of_bucket opened) ?_ packetId
    rintro rfl
    exact heeds rfl bucket (by rw [opened]; rfl) free
  | releases opened held there =>
    exact shallow.quiet kept (quiet_release kept (getElem?_of_bucket opened) held there)

theorem serve (shallow : store.Shallow queue limit place) (kept : store.Kept) {request : Request}
    (heeds : store.Heeds queue limit place request) :
    (store.serve request).2.Shallow queue limit place := by
  cases request with
  | add other message used policy index =>
    cases message with
    | publish message => exact shallow.addPublish kept heeds message policy
    | pubrel id => exact shallow.addPubrel kept heeds id index
  | replace => exact shallow.replace kept heeds
  | _ => exact shallow.edited kept (serve_edited kept rfl)

end Shallow

/-! Giving way -/

/-- From one state of a store to another, these notices about full queues were added, and as many
messages were counted as given up, in words that wrap around. -/
structure GaveUp (store after : Store) (given : List Notice) : Prop where
  counted : after.stats.discarded = store.stats.discarded + .ofNat given.length
  reported : after.outbox.notices.filter Notice.isFull =
    store.outbox.notices.filter Notice.isFull ++ given

/-- What becomes of a store as a message comes to a queue with a limit. Whatever is given up at the
limit, the message itself or an older one, is of the class of the message, and the queue is full of
that class. Entries of the other class stay, in every place but the next. -/
structure MakesRoom (store : Store) (queue : QueueKey) (message : Publish) (limit : Nat)
    (after : Store) : Prop where
  given : ∃ given, store.GaveUp after given ∧ ∀ notice ∈ given,
    limit ≤ store.depth queue (.of message.qos) ∧ notice.IsAbout queue (.of message.qos)
  spared : ∀ place key entry, store.entryAt place key = some entry →
    entry.messageClass ≠ .of message.qos → key ≠ ⟨queue, store.sequence.next⟩ →
      after.entryAt place key = some entry

theorem GaveUp.nothing (stats : after.stats.discarded = store.stats.discarded)
    (notices : after.outbox.notices.filter Notice.isFull =
      store.outbox.notices.filter Notice.isFull) : store.GaveUp after [] :=
  ⟨stats.trans (UInt64.add_zero _).symm, notices.trans (List.append_nil _).symm⟩

theorem Silent.gaveUp (silent : store.Silent after) : store.GaveUp after [] :=
  .nothing (congrArg Stats.discarded silent.stats) (congrArg _ silent.notices)

namespace GaveUp

variable {given : List Notice} {last : Store}

theorem trans {more : List Notice} (first : store.GaveUp after given)
    (second : after.GaveUp last more) : store.GaveUp last (given ++ more) := by
  constructor
  · rw [second.counted, first.counted, List.length_append, UInt64.ofNat_add, UInt64.add_assoc]
  · rw [second.reported, first.reported, List.append_assoc]

theorem discard (gave : store.GaveUp after given) (id topic : String) (qos : Qos) :
    store.GaveUp (after.discard id topic qos) (given ++ [.queueFull id topic qos]) :=
  gave.trans ⟨rfl, List.filter_append _ _⟩

end GaveUp

/-- What is dropped to keep the budget is not given up at a limit. -/
theorem Sweeps.gaveUp (sweeps : Sweeps store after) : store.GaveUp after [] := by
  induction sweeps with
  | done store => exact .nothing rfl rfl
  | @fail store after index bucket key _ _ _ _ failed =>
    have silent := commit_silent store index bucket [.delete key]
    rw [failed] at silent
    exact ⟨silent.gaveUp.counted, silent.gaveUp.reported⟩
  | @drop store after last index bucket key message _ _ _ committed _ ih =>
    have silent := commit_silent store index bucket [.delete key]
    rw [committed] at silent
    have dropped : after.GaveUp (after.dropped key.queue message store.budget.used) [] :=
      ⟨(UInt64.add_zero _).symm, List.filter_append _ _⟩
    exact (silent.gaveUp.trans dropped).trans ih

section Adding
variable (kept : store.Kept) (found : store.buckets[index]? = some bucket) {message : Publish}
  {evicted : Option EntryKey} (yields : bucket.entries.Yields queue (.of message.qos) evicted)
include kept found yields

/-- A message that arrives gives up what it evicts, and nothing else. -/
theorem enqueue_gaveUp : ∃ given,
    store.GaveUp (store.enqueue queue message evicted index bucket).2 given ∧
      ∀ notice ∈ given, evicted.isSome ∧ notice.IsAbout queue (.of message.qos) := by
  have step : Step 1 store _ _ := .enqueue found queue message yields.stored
  have keeps := step.kept kept
  have silent := commit_silent { store with sequence := store.sequence.advance } index bucket
    (arrival evicted ⟨queue, store.sequence.next⟩ message)
  have enqueues := enqueues_enqueue store queue message evicted index bucket
  generalize store.enqueue queue message evicted index bucket = served at enqueues ⊢
  cases enqueues with
  | fails failed =>
    rw [failed] at silent
    exact ⟨[], ⟨silent.gaveUp.counted, silent.gaveUp.reported⟩, by simp⟩
  | @arrives after last done room =>
    rw [done] at keeps silent
    have arrived : store.GaveUp after [] := ⟨silent.gaveUp.counted, silent.gaveUp.reported⟩
    have yielded : last.Kept ∧ ∃ given, store.GaveUp last given ∧
        ∀ notice ∈ given, evicted.isSome ∧ notice.IsAbout queue (.of message.qos) := by
      rw [room]
      cases holds : evicted.bind fun old => (bucket.entries.get? old).bind Entry.message? with
      | none => exact ⟨keeps, [], arrived, by simp⟩
      | some gone =>
        refine ⟨keeps, _, arrived.discard queue.id gone.topic gone.qos, ?_⟩
        obtain ⟨old, evicts, holds⟩ := Option.bind_eq_some_iff.mp holds
        obtain ⟨entry, there, holds⟩ := Option.bind_eq_some_iff.mp holds
        obtain ⟨_, _, first, classed⟩ := yields old evicts
        cases there.symm.trans first
        intro notice member
        obtain rfl := List.mem_singleton.mp member
        exact ⟨by rw [evicts]; rfl, _, _, rfl,
          (Entry.messageClass_of_message? holds).trans classed⟩
    obtain ⟨still, given, gave, all⟩ := yielded
    refine ⟨given, ?_, all⟩
    dsimp only
    split
    · have swept := gave.trans (sweeps_evictQos0 still last.qos0Count).gaveUp
      rwa [List.append_nil] at swept
    · exact gave

/-- Only entries of the class of a message that arrives are evicted or swept away. -/
theorem enqueue_spares {place : Nat} {key : EntryKey} {entry : Entry}
    (there : store.entryAt place key = some entry) (apart : entry.messageClass ≠ .of message.qos)
    (old : key ≠ ⟨queue, store.sequence.next⟩) :
    (store.enqueue queue message evicted index bucket).2.entryAt place key = some entry := by
  have others : place = index → ∀ change ∈ arrival evicted ⟨queue, store.sequence.next⟩ message,
      change.key ≠ key := by
    rintro rfl change member rfl
    rw [entryAt_of_getElem? found] at there
    rcases List.mem_append.mp member with member | member
    · obtain ⟨gone, evicts, rfl⟩ : ∃ gone, evicted = some gone ∧ Change.delete gone = change := by
        simpa using member
      obtain ⟨_, other, here, classed⟩ := yields gone evicts
      cases here.symm.trans there
      exact apart classed
    · rw [List.mem_singleton.mp member] at old
      exact old rfl
  refine enqueue_of_commit (P := fun store => store.entryAt place key = some entry) kept found
    yields.stored ?_ ?_ ?_
  · intro before after same still
    rw [entryAt_of_contents_eq same, still]
  · intro unacknowledged before fuel keeps still
    -- a sweep takes messages of QoS 0 only
    have acknowledged : entry.messageClass = .qos12 := by
      rw [unacknowledged] at apart
      cases classed : entry.messageClass with
      | qos0 => exact absurd classed apart
      | qos12 => rfl
    exact Sweeps.entryAt keeps still (sweeps_evictQos0 keeps fuel)
      (Entry.weightless_of_acknowledged acknowledged)
  · rw [entryAt_commit_of_ne kept.advance found others]
    exact there

theorem enqueue_makesRoom
    (full : evicted.isSome → limit ≤ bucket.entries.count queue (.of message.qos)) :
    store.MakesRoom queue message limit (store.enqueue queue message evicted index bucket).2 where
  given := by
    obtain ⟨given, gave, all⟩ := enqueue_gaveUp kept found yields
    refine ⟨given, gave, fun notice member => ?_⟩
    obtain ⟨evicts, about⟩ := all notice member
    exact ⟨Nat.le_trans (full evicts) (count_le_depth found queue _), about⟩
  spared _ _ _ there apart old := enqueue_spares kept found yields there apart old

end Adding

theorem addPublish_makesRoom (kept : store.Kept) (queue : QueueKey) (message : Publish)
    (limit : Nat) (policy : DiscardPolicy) (index : Nat) :
    store.MakesRoom queue message limit
      (store.addPublish queue message limit policy index).2 := by
  have full {bucket : Bucket} (opened : store.bucket index = .ok bucket)
      (closed : Admission.decide (bucket.classSize queue (.of message.qos)) limit policy ≠
        .accept) : limit ≤ bucket.entries.count queue (.of message.qos) := by
    rw [Ne, Admission.decide_eq_accept_iff,
      (kept (getElem?_of_bucket opened)).agrees.classSize_eq_count] at closed
    exact Nat.le_of_not_lt closed
  have adds := adds_addPublish store queue message limit policy index
  generalize store.addPublish queue message limit policy index = served at adds ⊢
  cases adds with
  | refused => exact ⟨⟨[], .nothing rfl rfl, by simp⟩, fun _ _ _ there _ _ => there⟩
  | accepted opened =>
    exact enqueue_makesRoom kept (getElem?_of_bucket opened) Table.yields_none (by rintro ⟨⟩)
  | @evicting bucket old opened reached oldest =>
    exact enqueue_makesRoom kept (getElem?_of_bucket opened)
      (Bucket.yields_oldestEvictable? oldest) fun _ => full opened (by simp [reached])
  | @turnedAway bucket opened reached =>
    have gave : store.GaveUp (store.discard queue.id message.topic message.qos)
        [.queueFull queue.id message.topic message.qos] :=
      (GaveUp.nothing rfl rfl).discard queue.id message.topic message.qos
    have closed : Admission.decide (bucket.classSize queue (.of message.qos)) limit policy ≠
        .accept := by
      rcases reached with dropped | ⟨evicting, _⟩
      · simp [dropped]
      · simp [evicting]
    refine ⟨⟨_, ⟨gave.counted, gave.reported⟩, ?_⟩, fun _ _ _ there _ _ => there⟩
    intro notice member
    obtain rfl := List.mem_singleton.mp member
    exact ⟨Nat.le_trans (full opened closed) (count_le_depth (getElem?_of_bucket opened) queue _),
      _, _, rfl, rfl⟩

/-- While there is room for its class, it makes no difference to a message where the limit is. -/
theorem addPublish_of_room (kept : store.Kept) {message : Publish}
    (room : store.depth queue (.of message.qos) < limit) {used : Nat} (more : limit ≤ used)
    (policy other : DiscardPolicy) (index : Nat) :
    store.addPublish queue message limit policy index =
      store.addPublish queue message used other index := by
  unfold addPublish
  cases opened : store.bucket index with
  | error fault => rfl
  | ok bucket =>
    have found := getElem?_of_bucket opened
    have few := count_le_depth found queue (.of message.qos)
    rw [← (kept found).agrees.classSize_eq_count] at few
    have accepts : Admission.decide (bucket.classSize queue (.of message.qos)) limit policy =
        .accept := Admission.decide_eq_accept_iff.mpr (by omega)
    have acceptsToo : Admission.decide (bucket.classSize queue (.of message.qos)) used other =
        .accept := Admission.decide_eq_accept_iff.mpr (by omega)
    dsimp only
    rw [accepts, acceptsToo]

end Store

namespace World

variable {world : World} {queue : QueueKey} {limit place : Nat}

/-- Every request of a run keeps to the depth limit of a queue. -/
def Heeds (queue : QueueKey) (limit place : Nat) (world : World) : List Event → Prop
  | [] => True
  | .ask request :: events =>
    world.store.Heeds queue limit place request ∧
      (world.ask request).Heeds queue limit place events
  | event :: events => (world.step event).Heeds queue limit place events

theorem step_shallow (orderly : world.Orderly)
    (shallow : world.store.Shallow queue limit place) {event : Event}
    (heeds : ∀ request, event = .ask request → world.store.Heeds queue limit place request) :
    (world.step event).store.Shallow queue limit place := by
  have moves := moves_step orderly.kept event
  generalize world.step event = after at moves ⊢
  cases moves with
  | ask request => exact shallow.serve orderly.kept (heeds request rfl)
  | call => exact shallow
  | still _ quiet _ => exact shallow.of_contents_eq quiet.contents
  | reopen reopened => exact shallow.of_contents_eq reopened.contents_eq

theorem run_shallow (orderly : world.Orderly) (shallow : world.store.Shallow queue limit place)
    {events : List Event} (heeds : world.Heeds queue limit place events) :
    (world.run events).store.Shallow queue limit place := by
  induction events generalizing world with
  | nil => exact shallow
  | cons event events ih =>
    have next : (∀ request, event = .ask request → world.store.Heeds queue limit place request) ∧
        (world.step event).Heeds queue limit place events := by
      cases event with
      | ask request => exact ⟨by rintro _ ⟨⟩; exact heeds.1, heeds.2⟩
      | call | tell | restart => exact ⟨by rintro _ ⟨⟩, heeds⟩
    exact ih (orderly.step event) (step_shallow orderly shallow next.1) next.2

theorem start_shallow {settings : Settings} {disk : Disk} {store : Store}
    (opened : Store.inMemory settings disk = .ok store) (payloads : Payloads) :
    (start store payloads).store.Shallow queue limit place := by
  obtain ⟨used, reopened⟩ := Store.reopened_of_inMemory opened
  intro index entries there
  rw [start, reopened.contents, List.map_replicate, List.getElem?_toArray] at there
  obtain ⟨_, rfl⟩ := List.mem_replicate.mp (List.mem_of_getElem? there)
  exact ⟨fun _ => Nat.zero_le _, by rintro key entry id ⟨⟩⟩

/-- However requests, journals that fail and restarts follow each other, a queue never has more
entries of a class than its limit, and no message makes one of the other class give way to it. Nor
does the other class keep a message out: while there is room for its own, it is taken as if the
limit were higher. -/
theorem depth_limits_hold {settings : Settings} {disk : Disk} {store : Store}
    (opened : Store.inMemory settings disk = .ok store) (payloads : Payloads)
    {events : List Event} (heeds : (start store payloads).Heeds queue limit place events) :
    let now := ((start store payloads).run events).store
    (∀ messageClass, now.depth queue messageClass ≤ limit) ∧
      ∀ message policy,
        now.MakesRoom queue message limit
          (now.serve (.add queue (.publish message) limit policy place)).2 ∧
        (now.depth queue (.of message.qos) < limit → ∀ used other, limit ≤ used →
          now.serve (.add queue (.publish message) limit policy place) =
            now.serve (.add queue (.publish message) used other place)) := by
  have shallow := run_shallow (run_orderly opened payloads [])
    (start_shallow opened payloads) heeds
  have kept := (run_orderly opened payloads events).kept
  refine ⟨shallow.depth_le, fun message policy =>
    ⟨Store.addPublish_makesRoom kept queue message limit policy place, ?_⟩⟩
  intro room used other more
  simp only [Store.serve, Store.add, Store.addPublish_of_room kept room more policy other place]

/-- Messages of both classes come to a queue that takes one of each. The one of QoS 2 is handed out
and released, two more find the queue full, and the journal is opened again. -/
def crowd : List Event :=
  [.ask (.add .client (.publish (.ofQos .exactlyOnce "u1" 1)) 1 .discard 0),
    .ask (.readNew .client [7] 1000 0 0),
    .ask (.replace QueueKey.client.id 7 0),
    .ask (.add .client (.publish (.ofQos .atMostOnce "u2" 2)) 1 .discard 0),
    .ask (.add .client (.publish (.ofQos .atMostOnce "u3" 3)) 1 .discardOldest 0),
    .ask (.add .client (.publish (.ofQos .atLeastOnce "u4" 4)) 1 .discardOldest 0),
    .restart .single]

theorem depth_limits_hold_crowd :
    let now := ((start .single .empty).run crowd).store
    (∀ messageClass, now.depth .client messageClass ≤ 1) ∧
      (∀ message policy, now.MakesRoom .client message 1
        (now.serve (.add .client (.publish message) 1 policy 0)).2) ∧
      (∀ messageClass, now.depth .client messageClass = 1) := by
  have heeds : (start .single .empty).Heeds .client 1 0 crowd := by
    refine ⟨fun _ => ⟨rfl, rfl⟩, trivial, fun _ => ?_, fun _ => ⟨rfl, rfl⟩, fun _ => ⟨rfl, rfl⟩,
      fun _ => ⟨rfl, rfl⟩, trivial⟩
    decide +kernel
  obtain ⟨few, makes⟩ := depth_limits_hold Store.inMemory_single .empty heeds
  refine ⟨few, fun message policy => (makes message policy).1, ?_⟩
  rintro (_ | _) <;> decide +kernel

end World

end DeliveryQueue
