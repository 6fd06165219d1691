import DeliveryQueue.Proofs.Delivery
import DeliveryQueue.Proofs.Identity

/-!
What becomes of messages in flight as a request is answered. No sweep, no eviction and no failure
takes them away; a request leaves such a message alone or settles it (`Store.Fate`). A reading puts
messages of QoS 1 and 2 in flight (`Store.HandsOut`).
-/
namespace DeliveryQueue

/-- A message of QoS 1 or 2 that was handed out, or a PUBREL. -/
structure Entry.InFlight (entry : Entry) : Prop where
  given : entry.isNew = false
  acknowledged : entry.messageClass = .qos12

theorem MessageClass.of_eq_qos12_iff {qos : Qos} : of qos = .qos12 ↔ qos ≠ .atMostOnce := by
  cases qos <;> simp [of]

theorem Entry.weightless_of_acknowledged {entry : Entry}
    (acknowledged : entry.messageClass = .qos12) : entry.qos0Bytes? = none := by
  cases entry with
  | publish stored => rw [qos0Bytes?, if_neg (MessageClass.of_eq_qos12_iff.mp acknowledged)]
  | pubrel | taken => rfl

theorem Entry.InFlight.weightless {entry : Entry} (flies : entry.InFlight) :
    entry.qos0Bytes? = none := weightless_of_acknowledged flies.acknowledged

theorem Entry.inFlight_pubrel (id : UInt16) : (Entry.pubrel id).InFlight := ⟨rfl, rfl⟩

theorem StoredPublish.inFlight_inFlight {stored : StoredPublish}
    (acknowledged : stored.qos ≠ .atMostOnce) (shared : Bool) (id : UInt16) :
    (stored.inFlight shared id).InFlight := by
  have known := MessageClass.of_eq_qos12_iff.mpr acknowledged
  cases shared with
  | false => exact ⟨rfl, known⟩
  | true => exact ⟨rfl, known⟩

namespace Store

variable {store after : Store} {index place : Nat} {bucket : Bucket} {queue : QueueKey}
variable {key : EntryKey} {entry : Entry}

/-- What becomes of an entry in flight as a request is answered: it is left alone, or the request
settles it. -/
inductive Fate (place : Nat) (key : EntryKey) (left : Option Entry) :
    Entry → Request → Answer → Prop
  | keep {entry : Entry} {request : Request} {answer : Answer} (same : left = some entry) :
      Fate place key left entry request answer
  | release {stored : StoredPublish} {id : UInt16} (unshared : key.queue.shared = false)
      (carries : stored.packetId = some id) (released : left = some (.pubrel id)) :
      Fate place key left (.publish stored) (.replace key.queue.id id place)
        (.uniqueId (.ok (some stored.uniqueId)))
  | remove {entry : Entry} {id : UInt16} {expected : Option String}
      (unshared : key.queue.shared = false) (carries : entry.packetId? = some id)
      (gone : left = none) :
      Fate place key left entry (.remove key.queue.id id expected place)
        (.uniqueId (.ok entry.uniqueId?))
  | removeShared {entry : Entry} {uniqueId : String} (shared : key.queue.shared = true)
      (named : entry.uniqueId? = some uniqueId) (gone : left = none) :
      Fate place key left entry (.removeShared key.queue.id uniqueId place) (.found (.ok true))
  | giveBack {stored : StoredPublish} (shared : key.queue.shared = true)
      (waits : left = some (.publish stored)) :
      Fate place key left (.taken stored) (.giveBack key.queue.id stored.uniqueId place)
        (.found (.ok true))
  | clear {entry : Entry} (gone : left = none) :
      Fate place key left entry (.clear key.queue place) (.done (.ok ()))

section Requests
variable (kept : store.Kept) (there : store.entryAt place key = some entry)
include kept there

/-! Adding -/

theorem Sweeps.entryAt (sweeps : Sweeps store after) (weightless : entry.qos0Bytes? = none) :
    after.entryAt place key = some entry := by
  -- what is dropped weighs something
  have spared {bucket : Bucket} {other : EntryKey} (weighs : bucket.Weighs other) :
      ∀ change ∈ [Change.delete other], bucket.entries.get? change.key ≠ some entry := by
    intro change member stored
    obtain ⟨heavy, found, weight⟩ := weighs
    rw [List.mem_singleton.mp member, Change.key, found] at stored
    cases stored
    rw [weightless] at weight
    cases weight
  induction sweeps with
  | done => exact there
  | fail kept found weighs failed =>
    have same := entryAt_commit_of_spared kept found there (spared weighs)
    rwa [failed] at same
  | @drop store after last index bucket other message kept found weighs committed _ ih =>
    have next := entryAt_commit_of_spared kept found there (spared weighs)
    rw [committed] at next
    obtain ⟨_, stored, _⟩ := weighs
    have keeps := (quiet_delete found stored).kept kept
    rw [committed] at keeps
    exact ih keeps next

variable (flies : entry.InFlight)
include flies

/-- What is evicted waits, and nothing stands at a number yet to be drawn. -/
theorem enqueue_keeps (under : store.Under store.sequence.next.toNat) (queue : QueueKey)
    (message : Publish) {evicted : Option EntryKey}
    (waits : ∀ old ∈ evicted, ∃ waiting, bucket.entries.get? old = some waiting ∧
      waiting.isNew = true) (found : store.buckets[index]? = some bucket) :
    (store.enqueue queue message evicted index bucket).2.entryAt place key = some entry := by
  have spared : ∀ change ∈ arrival evicted ⟨queue, store.sequence.next⟩ message,
      bucket.entries.get? change.key ≠ some entry := by
    intro change member stored
    rcases List.mem_append.mp member with member | member
    · obtain ⟨old, gone, rfl⟩ : ∃ old, evicted = some old ∧ Change.delete old = change := by
        simpa using member
      obtain ⟨waiting, first, isNew⟩ := waits old gone
      cases first.symm.trans stored
      rw [flies.given] at isNew
      cases isNew
    · obtain rfl := List.mem_singleton.mp member
      cases stored.symm.trans ((under found).fresh _ (Nat.le_refl _))
  have stored : ∀ key ∈ evicted, ∃ entry, bucket.entries.get? key = some entry := by
    intro old gone
    obtain ⟨waiting, first, _⟩ := waits old gone
    exact ⟨waiting, first⟩
  have committed := entryAt_commit_of_spared kept.advance found there spared
  refine enqueue_of_commit (P := fun store => store.entryAt place key = some entry) kept found
    stored ?_ ?_ committed
  · intro before after same still
    rw [entryAt_of_contents_eq same, still]
  · intro _ before fuel keeps still
    exact Sweeps.entryAt keeps still (sweeps_evictQos0 keeps fuel) flies.weightless

theorem addPublish_keeps (under : store.Under store.sequence.next.toNat) (queue : QueueKey)
    (message : Publish) (limit : Nat) (policy : DiscardPolicy) (index : Nat) :
    (store.addPublish queue message limit policy index).2.entryAt place key = some entry := by
  have adds := adds_addPublish store queue message limit policy index
  generalize store.addPublish queue message limit policy index = served at adds ⊢
  cases adds with
  | refused | turnedAway => exact there
  | accepted opened =>
    exact enqueue_keeps kept there flies under queue message (by rintro old ⟨⟩)
      (getElem?_of_bucket opened)
  | evicting opened _ oldest =>
    refine enqueue_keeps kept there flies under queue message ?_ (getElem?_of_bucket opened)
    rintro key ⟨⟩
    exact isNew_of_oldestEvictable? oldest

omit flies in
theorem enqueuePubrel_keeps (under : store.Under store.sequence.next.toNat) (queue : QueueKey)
    (id : UInt16) (found : store.buckets[index]? = some bucket) :
    (store.enqueuePubrel queue id index bucket).2.entryAt place key = some entry := by
  refine entryAt_commit_of_spared kept.advance found there ?_
  intro change member stored
  obtain rfl := List.mem_singleton.mp member
  cases stored.symm.trans ((under found).fresh _ (Nat.le_refl _))

omit flies in
theorem addPubrel_keeps (under : store.Under store.sequence.next.toNat) (queue : QueueKey)
    (id : UInt16) (index : Nat) :
    (store.addPubrel queue id index).2.entryAt place key = some entry := by
  have adds := adds_addPubrel store queue id index
  generalize store.addPubrel queue id index = served at adds ⊢
  cases adds with
  | refused | known => exact there
  | fresh opened => exact enqueuePubrel_keeps kept there under queue id (getElem?_of_bucket opened)

/-! Reading -/

/-- Only what waits is read. -/
theorem readNew_keeps (queue : QueueKey) (pool : List UInt16) (byteLimit now : UInt64)
    (index : Nat) :
    (store.readNew queue pool byteLimit now index).2.entryAt place key = some entry := by
  have spared (bucket : Bucket) (counts : QueueCounts) :
      ∀ change ∈ (reading store.settings.overflow bucket queue counts pool byteLimit now).changes,
        bucket.entries.get? change.key ≠ some entry := by
    intro change member stored
    obtain ⟨waiting, listed, free⟩ := (delivers_reading _ _ _ _ _ _ _).waits change member
    cases (mem_queueEntries.mp listed).1.symm.trans stored
    have given := flies.given
    rw [Entry.isNew, free] at given
    cases given
  have reads := reads_readNew store queue pool byteLimit now index
  generalize store.readNew queue pool byteLimit now index = served at reads ⊢
  cases reads with
  | refused | unknown | panics => exact there
  | @fails bucket counts fault after opened counted _ failed =>
    have next := entryAt_commit_of_spared kept (getElem?_of_bucket opened) there
      (spared bucket counts)
    rw [failed] at next
    exact next
  | @hands bucket counts after opened counted _ done =>
    have next := entryAt_commit_of_spared kept (getElem?_of_bucket opened) there
      (spared bucket counts)
    rw [done] at next
    exact next

/-! Settling -/

omit flies in
theorem replace_fate (under : store.Under store.sequence.next.toNat) (id : String)
    (packetId : UInt16) (index : Nat) :
    Fate place key ((store.replace id packetId index).2.entryAt place key) entry
      (.replace id packetId index) (.uniqueId (store.replace id packetId index).1) := by
  have replaces := replaces_replace store id packetId index
  generalize store.replace id packetId index = served at replaces ⊢
  cases replaces with
  | refused | known => exact .keep there
  | fresh opened => exact .keep (enqueuePubrel_keeps kept there under _ packetId
      (getElem?_of_bucket opened))
  | @releases bucket other stored opened held first =>
    have found := getElem?_of_bucket opened
    obtain ⟨its, carrier, here, carries⟩ := (kept found).agrees.inFlightKey?_eq_some_iff.mp held
    cases first.symm.trans here
    rcases entryAt_commit_single kept found there (.release other packetId) with
      same | ⟨⟨rfl, rfl, mine⟩, answered, released⟩
    · exact .keep same
    · cases first.symm.trans mine
      have name : id = key.queue.id := by rw [its]
      subst name
      dsimp only
      rw [answered]
      exact .release (by rw [its]) carries released

omit flies in
theorem remove_fate (id : String) (packetId : UInt16) (expected : Option String) (index : Nat) :
    Fate place key ((store.remove id packetId expected index).2.entryAt place key) entry
      (.remove id packetId expected index)
      (.uniqueId (store.remove id packetId expected index).1) := by
  have removes := removes_remove store id packetId expected index
  generalize store.remove id packetId expected index = served at removes ⊢
  cases removes with
  | refused | unknown | unexpected => exact .keep there
  | @removes bucket other opened held =>
    have found := getElem?_of_bucket opened
    obtain ⟨its, carrier, stored, carries⟩ := (kept found).agrees.inFlightKey?_eq_some_iff.mp held
    rcases entryAt_commit_single kept found there (.delete other) with
      same | ⟨⟨rfl, rfl, mine⟩, answered, gone⟩
    · exact .keep same
    · cases stored.symm.trans mine
      have name : id = key.queue.id := by rw [its]
      subst name
      dsimp only
      rw [answered, stored]
      exact .remove (by rw [its]) carries gone

omit flies in
/-- Changing the first entry that fits leaves an entry alone, or falls on it. -/
theorem changeFirst_single (queue : QueueKey) (fits : Entry → Bool) {change : EntryKey → Change}
    (falls : ∀ key, (change key).key = key) (index : Nat) :
    (store.changeFirst queue fits change index).2.entryAt place key = some entry ∨
      (place = index ∧ key.queue = queue ∧ fits entry = true) ∧
        (store.changeFirst queue fits change index).1 = .ok true ∧
        (store.changeFirst queue fits change index).2.entryAt place key =
          (change key).outcome (some entry) := by
  have changes := changes_changeFirst store queue fits change index
  generalize store.changeFirst queue fits change index = served at changes ⊢
  cases changes with
  | refused | missing => exact .inl there
  | @changes bucket other first opened fit =>
    have found := getElem?_of_bucket opened
    obtain ⟨stored, its, suits⟩ := of_find?_queueEntries fit
    rcases entryAt_commit_single kept found there (change other) with
      same | ⟨⟨rfl, mine, here⟩, answered, changed⟩
    · exact .inl same
    · right
      rw [falls] at mine
      subst mine
      cases stored.symm.trans here
      exact ⟨⟨rfl, its, suits⟩, by rw [answered]; rfl, changed⟩

omit flies in
theorem removeShared_fate (id uniqueId : String) (index : Nat) :
    Fate place key ((store.removeShared id uniqueId index).2.entryAt place key) entry
      (.removeShared id uniqueId index) (.found (store.removeShared id uniqueId index).1) := by
  rcases changeFirst_single kept there ⟨id, true⟩ (fun entry => entry.uniqueId? = some uniqueId)
    (fun key => (rfl : (Change.delete key).key = key)) index with
    same | ⟨⟨rfl, its, named⟩, answered, gone⟩
  · exact .keep same
  · have name : id = key.queue.id := by rw [its]
    subst name
    rw [removeShared, answered]
    exact .removeShared (by rw [its]) (by simpa using named) gone

omit flies in
theorem giveBack_fate (id uniqueId : String) (index : Nat) :
    Fate place key ((store.giveBack id uniqueId index).2.entryAt place key) entry
      (.giveBack id uniqueId index) (.found (store.giveBack id uniqueId index).1) := by
  rcases changeFirst_single kept there ⟨id, true⟩ (isTaken uniqueId)
    (fun key => (rfl : (Change.mark key false).key = key)) index with
    same | ⟨⟨rfl, its, fits⟩, answered, waits⟩
  · exact .keep same
  · cases entry with
    | publish | pubrel => cases fits
    | taken stored =>
      have name : id = key.queue.id := by rw [its]
      have named : uniqueId = stored.uniqueId := (of_decide_eq_true fits).symm
      subst name named
      rw [giveBack, answered]
      exact .giveBack (by rw [its]) waits

/-! Emptying -/

theorem removeQos0_keeps (queue : QueueKey) (index : Nat) :
    (store.removeQos0 queue index).2.entryAt place key = some entry := by
  have deletes := deletes_deleteEntries store queue (fun entry => entry.messageClass = .qos0) index
  rw [← removeQos0] at deletes
  generalize store.removeQos0 queue index = served at deletes ⊢
  cases deletes with
  | refused => exact there
  | deletes opened =>
    refine entryAt_commit_of_spared kept (getElem?_of_bucket opened) there ?_
    intro change member stored
    obtain ⟨other, _, rfl, here, _, unacknowledged⟩ := mem_deletions.mp member
    cases here.symm.trans stored
    have known := flies.acknowledged
    rw [of_decide_eq_true unacknowledged] at known
    cases known

omit flies in
theorem clear_fate (queue : QueueKey) (index : Nat) :
    Fate place key ((store.clear queue index).2.entryAt place key) entry (.clear queue index)
      (.done (store.clear queue index).1) := by
  have deletes := deletes_deleteEntries store queue (fun _ => true) index
  rw [← clear] at deletes
  generalize store.clear queue index = served at deletes ⊢
  cases deletes with
  | refused => exact .keep there
  | @deletes bucket opened =>
    have found := getElem?_of_bucket opened
    by_cases mine : place = index ∧ key.queue = queue
    · obtain ⟨rfl, rfl⟩ := mine
      rcases commit_contents kept found (deletions bucket key.queue fun _ => true) with
        ⟨fault, after, failed, same⟩ | ⟨after, done, changed⟩
      · rw [failed]
        refine .keep ?_
        rw [← there]
        exact entryAt_of_contents_eq same place key
      · rw [done]
        refine .clear ?_
        rw [entryAt_of_getElem? found] at there
        have member : Change.delete key ∈ deletions bucket key.queue fun _ => true :=
          mem_deletions.mpr ⟨key, entry, rfl, there, rfl, rfl⟩
        dsimp only
        rw [entryAt_set found changed, if_pos rfl]
        exact Change.get?_actAll_of_mem (nodup_deletions bucket key.queue _) member
    · refine .keep ?_
      rw [entryAt_commit_of_ne kept found, there]
      intro same change member equal
      obtain ⟨other, _, rfl, _, its, _⟩ := mem_deletions.mp member
      exact mine ⟨same, equal ▸ its⟩

/-! Upkeep -/

/-- Only what waits can be stale. -/
theorem cleanUp_keeps (now : UInt64) (index : Nat) :
    (store.cleanUp now index).2.entryAt place key = some entry := by
  rcases cleanUp_cases store now index with same | ⟨bucket, found, cases⟩
  · rw [same]
    exact there
  · have spared : ∀ change ∈ (staleKeys bucket now).map Change.delete,
        bucket.entries.get? change.key ≠ some entry := by
      intro change member stored
      obtain ⟨old, expired, rfl⟩ := List.mem_map.mp member
      obtain ⟨waiting, found, stale⟩ := mem_staleKeys expired
      cases found.symm.trans stored
      have isNew := Entry.isNew_of_isStale stale
      rw [flies.given] at isNew
      cases isNew
    have next := entryAt_commit_of_spared kept found there spared
    rcases cases with ⟨fault, after, failed, same⟩ | ⟨swept, done, same, _, _⟩
    · rw [failed] at next
      rw [same]
      exact next
    · rw [done] at next
      rw [entryAt_of_contents_eq same]
      exact next

/-- A request leaves an entry in flight alone, or settles it. -/
theorem serve_fate (under : store.Under store.sequence.next.toNat) (request : Request) :
    Fate place key ((store.serve request).2.entryAt place key) entry request
      (store.serve request).1 := by
  cases request with
  | add queue message limit policy index =>
    cases message with
    | publish message =>
      exact .keep (addPublish_keeps kept there flies under queue message limit policy index)
    | pubrel id => exact .keep (addPubrel_keeps kept there under queue id index)
  | readNew queue pool byteLimit now index =>
    exact .keep (readNew_keeps kept there flies queue pool byteLimit now index)
  | readInFlight | size => exact .keep there
  | replace id packetId index => exact replace_fate kept there under id packetId index
  | remove id packetId expected index => exact remove_fate kept there id packetId expected index
  | removeShared id uniqueId index => exact removeShared_fate kept there id uniqueId index
  | giveBack id uniqueId index => exact giveBack_fate kept there id uniqueId index
  | removeQos0 queue index => exact .keep (removeQos0_keeps kept there flies queue index)
  | clear queue index => exact clear_fate kept there queue index
  | cleanUp now index => exact .keep (cleanUp_keeps kept there flies now index)
  | close =>
    refine .keep ?_
    rw [← there]
    exact entryAt_of_contents_eq (close_silent store).1 place key

end Requests

/-! Handing out -/

/-- A message of QoS 1 or 2 waited at a key, and is in flight there. -/
structure HandsOut (before after : Store) (queue : QueueKey) (place : Nat) (message : Publish)
    (key : EntryKey) (stored : StoredPublish) : Prop where
  its : key.queue = queue
  waited : before.entryAt place key = some (.publish stored)
  free : stored.packetId = none
  acknowledged : stored.qos ≠ .atMostOnce
  content : message = stored.toPublish message.packetId
  flies : after.entryAt place key = some (stored.inFlight queue.shared message.packetId)

/-- The messages of QoS 1 and 2 that a reading answers go in flight, each at a place of its own. -/
theorem readNew_hands (kept : store.Kept) {pool : List UInt16} {byteLimit now : UInt64}
    {messages : List Publish}
    (answered : (store.readNew queue pool byteLimit now index).1 = .ok messages) :
    ∃ keys : List EntryKey, keys.Nodup ∧ List.Forall₂ (fun message key => ∃ stored,
      HandsOut store (store.readNew queue pool byteLimit now index).2 queue index message key
        stored) (messages.filter fun message => message.qos ≠ .atMostOnce) keys := by
  have reads := reads_readNew store queue pool byteLimit now index
  generalize store.readNew queue pool byteLimit now index = served at answered reads ⊢
  cases reads with
  | refused | panics | fails => cases answered
  | unknown =>
    cases answered
    exact ⟨[], List.nodup_nil, .nil⟩
  | @hands bucket counts after opened counted _ done =>
    cases answered
    have found := getElem?_of_bucket opened
    have delivers := delivers_reading store.settings.overflow bucket queue counts pool byteLimit now
    have single := nodup_queueEntries bucket queue
    have apart := delivers.keys_sublist.nodup single
    obtain ⟨keys, inside, handed⟩ := delivers.hands
    refine ⟨keys, inside.nodup single, handed.imp ?_⟩
    rintro message key ⟨stored, listed, free, acknowledged, content, member⟩
    obtain ⟨there, its⟩ := mem_queueEntries.mp listed
    have waited := (entryAt_of_getElem? found key).trans there
    refine ⟨stored, its, waited, free, acknowledged, content, ?_⟩
    have changed := contents_of_done kept found done
    have placed := @Change.get?_actAll_of_mem bucket.entries _ apart _ member
    rw [Change.key_handing, there, Change.outcome_handing free] at placed
    rw [← placed]
    exact (entryAt_set found changed index key).trans (if_pos rfl)

end Store

end DeliveryQueue
