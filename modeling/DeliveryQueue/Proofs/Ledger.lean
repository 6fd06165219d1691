import DeliveryQueue.Proofs.Delivery
import DeliveryQueue.Proofs.Contents

/-!
Messages that come and go. What a store holds, together with what it dropped of its own accord and
counted, changes only by what comes in and what is settled, and what is dropped for want of room is
reported (`Store.Accounts`). Every operation keeps its books that way.
-/
namespace DeliveryQueue

/-- How many messages the entry holds: one or none. -/
def Entry.messages (entry : Entry) : Nat := if entry.message?.isSome then 1 else 0

theorem Entry.messages_of_isNew {entry : Entry} (isNew : entry.isNew = true) :
    entry.messages = 1 := by
  cases entry with
  | publish => rfl
  | pubrel | taken => cases isNew

theorem Entry.messages_of_qos0Bytes? {entry : Entry} (weighs : entry.qos0Bytes?.isSome = true) :
    entry.messages = 1 := by
  cases entry with
  | publish | taken => rfl
  | pubrel => cases weighs

/-- How many messages the entries hold. -/
def Table.messages (entries : Entries) : Nat := entries.total fun _ => Entry.messages

namespace Change

/-- How many messages stand where the change falls, before it is made. -/
def lost (entries : Entries) (change : Change) : Nat :=
  (entries.get? change.key).elim 0 Entry.messages

/-- How many messages stand where the change falls, after it was made. -/
def gained (entries : Entries) (change : Change) : Nat :=
  (change.outcome (entries.get? change.key)).elim 0 Entry.messages

/-- Changes at different keys lose and gain each on its own. -/
theorem messages_actAll {entries : Entries} {changes : List Change}
    (apart : (changes.map key).Nodup) :
    (actAll entries changes).messages + (changes.map (lost entries)).sum =
      entries.messages + (changes.map (gained entries)).sum := by
  induction changes generalizing entries with
  | nil => rfl
  | cons change changes ih =>
    obtain ⟨fresh, others⟩ := List.nodup_cons.mp apart
    have first := Table.total_set entries (fun _ => Entry.messages) change.key
      (change.outcome (entries.get? change.key))
    rw [← act] at first
    have rest := @ih (change.act entries) others
    -- the others find what was there before
    have same : ∀ other ∈ changes,
        (change.act entries).get? other.key = entries.get? other.key := by
      intro other member
      apply get?_act_of_ne
      intro equal
      exact fresh (List.mem_map.mpr ⟨other, member, equal⟩)
    have lose : changes.map (lost (change.act entries)) = changes.map (lost entries) :=
      List.map_congr_left fun other member => by rw [lost, same other member, lost]
    have gain : changes.map (gained (change.act entries)) = changes.map (gained entries) :=
      List.map_congr_left fun other member => by rw [gained, same other member, gained]
    rw [lose, gain] at rest
    simp only [Table.messages, List.map_cons, List.sum_cons, actAll_cons] at rest ⊢
    rw [lost, gained]
    omega

end Change

/-- A full queue gave a message up. -/
def Notice.isFull : Notice → Bool
  | queueFull .. => true
  | qos0Memory .. => false

namespace NoticeCounts

theorem add_cases (counts : NoticeCounts) (notice : Notice) :
    (counts.add notice).queueFull = counts.queueFull + (if notice.isFull then 1 else 0) ∧
      (counts.add notice).qos0Memory + (counts.add notice).qos0MemoryShared =
        counts.qos0Memory + counts.qos0MemoryShared + (if !notice.isFull then 1 else 0) := by
  cases notice with
  | queueFull => exact ⟨rfl, rfl⟩
  | qos0Memory shared =>
    cases shared with
    | false => exact ⟨rfl, Nat.add_right_comm _ 1 _⟩
    | true => exact ⟨rfl, rfl⟩

/-- Counting notices tells how many there were of either sort. -/
theorem foldl_add (counts : NoticeCounts) (notices : List Notice) :
    (notices.foldl add counts).queueFull = counts.queueFull + notices.countP Notice.isFull ∧
      (notices.foldl add counts).qos0Memory + (notices.foldl add counts).qos0MemoryShared =
        counts.qos0Memory + counts.qos0MemoryShared +
          notices.countP fun notice => !notice.isFull := by
  induction notices generalizing counts with
  | nil => exact ⟨rfl, rfl⟩
  | cons notice notices ih =>
    obtain ⟨full, memory⟩ := ih (counts.add notice)
    obtain ⟨more, heavier⟩ := counts.add_cases notice
    rw [List.foldl_cons, full, memory, List.countP_cons, List.countP_cons]
    omega

end NoticeCounts

namespace Store

/-- How many messages a store holds. -/
def held (store : Store) : Nat := (store.contents.toList.map Table.messages).sum

/-- How many messages a store dropped of its own accord, and why. -/
structure Tally where
  expired : Nat
  full : Nat
  memory : Nat

def Tally.total (drops : Tally) : Nat := drops.expired + drops.full + drops.memory

/-- What a store dropped was counted, in words that wrap around. For want of room, it was reported,
too. -/
structure Tallied (store after : Store) (drops : Tally) : Prop where
  expired : after.stats.expired = store.stats.expired + .ofNat drops.expired
  discarded : after.stats.discarded = store.stats.discarded + .ofNat drops.full
  qos0MemoryDropped : after.stats.qos0MemoryDropped =
    store.stats.qos0MemoryDropped + .ofNat drops.memory
  full : after.outbox.notices.countP Notice.isFull =
    store.outbox.notices.countP Notice.isFull + drops.full
  memory : after.outbox.notices.countP (fun notice => !notice.isFull) =
    store.outbox.notices.countP (fun notice => !notice.isFull) + drops.memory

/-- From one state of a store to another, so many messages came in and so many were settled. The
others are there, or were dropped. -/
structure Accounts (store after : Store) (came settled : Nat) : Prop where
  books : ∃ drops, Tallied store after drops ∧
    after.held + settled + drops.total = store.held + came

/-- How many messages of a bucket are not there any more afterwards. -/
def deleted (store after : Store) (place : Nat) : Nat :=
  store.contents[place]?.elim 0 fun entries => entries.total fun key entry =>
    if (after.entryAt place key).isNone then entry.messages else 0

variable {store after last : Store} {index : Nat} {bucket : Bucket} {key : EntryKey}
variable {changes : List Change}

namespace Accounts

variable {came settled : Nat}

/-- A store that counts the same. -/
theorem of_silent (stats : after.stats = store.stats)
    (notices : after.outbox.notices = store.outbox.notices)
    (same : after.held + settled = store.held + came) : Accounts store after came settled := by
  refine ⟨⟨0, 0, 0⟩, ?_, same⟩
  constructor <;> simp [stats, notices]

theorem refl (store : Store) : Accounts store store 0 0 := .of_silent rfl rfl rfl

theorem trans {moreCame moreSettled : Nat} (first : Accounts store after came settled)
    (second : Accounts after last moreCame moreSettled) :
    Accounts store last (came + moreCame) (settled + moreSettled) := by
  obtain ⟨drops, tallied, books⟩ := first
  obtain ⟨drops', tallied', books'⟩ := second
  refine ⟨⟨drops.expired + drops'.expired, drops.full + drops'.full, drops.memory + drops'.memory⟩,
    ?_, ?_⟩
  · constructor
    · rw [tallied'.expired, tallied.expired, UInt64.ofNat_add, UInt64.add_assoc]
    · rw [tallied'.discarded, tallied.discarded, UInt64.ofNat_add, UInt64.add_assoc]
    · rw [tallied'.qos0MemoryDropped, tallied.qos0MemoryDropped, UInt64.ofNat_add,
        UInt64.add_assoc]
    · rw [tallied'.full, tallied.full, Nat.add_assoc]
    · rw [tallied'.memory, tallied.memory, Nat.add_assoc]
  · simp only [Tally.total] at books books' ⊢
    omega

/-- Only the difference matters. -/
theorem trade (accounts : Accounts store after came settled) {came' settled' : Nat}
    (same : came + settled' = came' + settled) : Accounts store after came' settled' := by
  obtain ⟨drops, tallied, books⟩ := accounts
  exact ⟨drops, tallied, by omega⟩

/-- A store that holds and counts the same. -/
theorem of_eq (contents : after.contents = store.contents) (stats : after.stats = store.stats)
    (notices : after.outbox.notices = store.outbox.notices) : Accounts store after 0 0 := by
  refine .of_silent stats notices ?_
  rw [held, held, contents]

/-- Numbers that were drawn make no difference. -/
theorem of_advance {sequence : Sequence}
    (accounts : Accounts { store with sequence } after came settled) :
    Accounts store after came settled := by
  obtain ⟨drops, tallied, books⟩ := accounts
  exact ⟨drops, { tallied with }, books⟩

/-- A message that was taken out is dropped because its queue is full. -/
theorem discard (accounts : Accounts store after came (settled + 1)) (id topic : String)
    (qos : Qos) : Accounts store (after.discard id topic qos) came settled := by
  obtain ⟨drops, tallied, books⟩ := accounts
  refine ⟨{ drops with full := drops.full + 1 }, ?_, ?_⟩
  · have reported : (after.discard id topic qos).outbox.notices.countP Notice.isFull =
      after.outbox.notices.countP Notice.isFull + 1 := List.countP_append
    have silent : (after.discard id topic qos).outbox.notices.countP (fun n => !n.isFull) =
      after.outbox.notices.countP fun n => !n.isFull := List.countP_append
    refine ⟨tallied.expired, ?_, tallied.qos0MemoryDropped, ?_, silent.trans tallied.memory⟩
    · rw [UInt64.ofNat_add, ← UInt64.add_assoc, ← tallied.discarded]
      rfl
    · rw [reported, tallied.full, Nat.add_assoc]
  · have same : (after.discard id topic qos).held = after.held := rfl
    simp only [Tally.total] at books ⊢
    omega

/-- A message that was taken out is dropped to keep the budget. -/
theorem dropped (accounts : Accounts store after came (settled + 1)) (queue : QueueKey)
    (message : StoredPublish) (used : UInt64) :
    Accounts store (after.dropped queue message used) came settled := by
  obtain ⟨drops, tallied, books⟩ := accounts
  refine ⟨{ drops with memory := drops.memory + 1 }, ?_, ?_⟩
  · have reported : (after.dropped queue message used).outbox.notices.countP (fun n => !n.isFull) =
      after.outbox.notices.countP (fun n => !n.isFull) + 1 := List.countP_append
    have silent : (after.dropped queue message used).outbox.notices.countP Notice.isFull =
      after.outbox.notices.countP Notice.isFull := List.countP_append
    refine ⟨tallied.expired, tallied.discarded, ?_, silent.trans tallied.full, ?_⟩
    · rw [UInt64.ofNat_add, ← UInt64.add_assoc, ← tallied.qos0MemoryDropped]
      rfl
    · rw [reported, tallied.memory, Nat.add_assoc]
  · have same : (after.dropped queue message used).held = after.held := rfl
    simp only [Tally.total] at books ⊢
    omega

/-- Messages that were taken out had expired, and are counted. -/
theorem expire {more : Nat} (accounts : Accounts store after came (settled + more))
    (contents : last.contents = after.contents) (outbox : last.outbox = after.outbox)
    (stats : last.stats = { after.stats with expired := after.stats.expired + .ofNat more }) :
    Accounts store last came settled := by
  obtain ⟨drops, tallied, books⟩ := accounts
  refine ⟨{ drops with expired := drops.expired + more }, ?_, ?_⟩
  · constructor
    · rw [stats, UInt64.ofNat_add, ← UInt64.add_assoc, ← tallied.expired]
    · rw [stats]
      exact tallied.discarded
    · rw [stats]
      exact tallied.qos0MemoryDropped
    · rw [outbox]
      exact tallied.full
    · rw [outbox]
      exact tallied.memory
  · have same : last.held = after.held := by rw [held, held, contents]
    simp only [Tally.total] at books ⊢
    omega

end Accounts

theorem sum_filter {α : Type} (l : List α) (p : α → Bool) (measure : α → Nat) :
    ((l.filter p).map measure).sum = (l.map fun a => if p a then measure a else 0).sum := by
  induction l with
  | nil => rfl
  | cons a l ih =>
    by_cases fits : p a
    · rw [List.filter_cons_of_pos fits, List.map_cons, List.map_cons, List.sum_cons,
        List.sum_cons, if_pos fits, ih]
    · rw [List.filter_cons_of_neg fits, List.map_cons, List.sum_cons, if_neg fits, ih,
        Nat.zero_add]

theorem held_set {entries : Entries} (found : store.buckets[index]? = some bucket)
    (replaced : after.contents = store.contents.setIfInBounds index entries) :
    after.held + bucket.entries.messages = store.held + entries.messages := by
  rw [held, held, replaced, Array.toList_setIfInBounds]
  refine sum_map_set ?_ entries Table.messages
  rw [Array.getElem?_toList]
  exact getElem?_contents found

theorem commit_failed_accounts (kept : store.Kept) (found : store.buckets[index]? = some bucket)
    {fault : QueueFault} (failed : store.commit index bucket changes = (.error fault, after)) :
    Accounts store after 0 0 := by
  have silent := commit_silent store index bucket changes
  rw [failed] at silent
  exact .of_eq (contents_of_failed kept found failed) silent.stats silent.notices

/-- A commit that succeeds accounts for what its changes gain and lose. -/
theorem commit_accounts (kept : store.Kept) (found : store.buckets[index]? = some bucket)
    (apart : (changes.map Change.key).Nodup)
    (done : store.commit index bucket changes = (.ok (), after)) :
    Accounts store after (changes.map (Change.gained bucket.entries)).sum
      (changes.map (Change.lost bucket.entries)).sum := by
  have silent := commit_silent store index bucket changes
  rw [done] at silent
  have traded := held_set found (contents_of_done kept found done)
  have conserved := @Change.messages_actAll bucket.entries changes apart
  refine .of_silent silent.stats silent.notices ?_
  omega

theorem commit_single_accounts (kept : store.Kept) (found : store.buckets[index]? = some bucket)
    (change : Change) {entry : Entry} (stored : bucket.entries.get? change.key = some entry)
    (done : store.commit index bucket [change] = (.ok (), after)) :
    Accounts store after ((change.outcome (some entry)).elim 0 Entry.messages)
      entry.messages := by
  have apart : ([change].map Change.key).Nodup := List.nodup_singleton _
  have accounts := commit_accounts kept found apart done
  rw [List.map_singleton, List.map_singleton, List.sum_singleton, List.sum_singleton,
    Change.gained, Change.lost, stored] at accounts
  exact accounts

/-! Adding -/

/-- What is dropped to keep the budget is a message, and is counted. -/
theorem Sweeps.accounts (sweeps : Sweeps store after) : Accounts store after 0 0 := by
  induction sweeps with
  | done store => exact .refl store
  | fail kept found _ failed =>
    obtain ⟨drops, tallied, books⟩ := commit_failed_accounts kept found failed
    exact ⟨drops, { tallied with }, books⟩
  | @drop store after last index bucket key message kept found weighs committed _ ih =>
    obtain ⟨entry, stored, heavy⟩ := weighs
    have accounts := commit_single_accounts kept found (.delete key) stored committed
    rw [Entry.messages_of_qos0Bytes? heavy] at accounts
    exact (accounts.dropped key.queue message store.budget.used).trans ih

theorem arrival_ledger {entries : Entries} {key : EntryKey} (fresh : entries.get? key = none)
    (message : Publish) {evicted : Option EntryKey}
    (waits : ∀ old ∈ evicted, ∃ waiting, entries.get? old = some waiting ∧
      waiting.isNew = true) :
    ((arrival evicted key message).map Change.key).Nodup ∧
      ((arrival evicted key message).map (Change.gained entries)).sum = 1 ∧
        ((arrival evicted key message).map (Change.lost entries)).sum =
          evicted.toList.length := by
  have new : Change.lost entries (.insert key (.publish (.ofPublish message))) = 0 := by
    rw [Change.lost, Change.key, fresh, Option.elim]
  cases evicted with
  | none => exact ⟨List.nodup_singleton key, rfl, new⟩
  | some old =>
    obtain ⟨waiting, stored, isNew⟩ := waits old rfl
    have gone : Change.lost entries (.delete old) = 1 := by
      rw [Change.lost, Change.key, stored, Option.elim, Entry.messages_of_isNew isNew]
    have apart : old ≠ key := by
      rintro rfl
      cases fresh.symm.trans stored
    refine ⟨?_, rfl, ?_⟩
    · simpa [arrival, Change.key] using apart
    · simp [arrival, gone, new]

section Requests
variable (kept : store.Kept)
include kept

/-- A message that arrives is taken in, and one that it evicts is dropped and counted. -/
theorem enqueue_accounts (under : store.Under store.sequence.next.toNat)
    (found : store.buckets[index]? = some bucket) (queue : QueueKey) (message : Publish)
    {evicted : Option EntryKey}
    (waits : ∀ old ∈ evicted, ∃ waiting, bucket.entries.get? old = some waiting ∧
      waiting.isNew = true) :
    Accounts store (store.enqueue queue message evicted index bucket).2
      (store.enqueue queue message evicted index bucket).1.isOk.toNat 0 := by
  have fresh := (under found).fresh ⟨queue, store.sequence.next⟩ (Nat.le_refl _)
  have stored : ∀ key ∈ evicted, ∃ entry, bucket.entries.get? key = some entry := by
    intro old gone
    obtain ⟨waiting, first, _⟩ := waits old gone
    exact ⟨waiting, first⟩
  obtain ⟨apart, gained, lost⟩ := arrival_ledger fresh message waits
  have step : Step 1 store _ _ := .enqueue found queue message stored
  have keeps := step.kept kept
  have enqueues := enqueues_enqueue store queue message evicted index bucket
  generalize store.enqueue queue message evicted index bucket = served at enqueues ⊢
  cases enqueues with
  | fails failed => exact (commit_failed_accounts kept.advance found failed).of_advance
  | @arrives after last done room =>
    rw [done] at keeps
    have accounts := (commit_accounts kept.advance found apart done).of_advance
    rw [gained, lost] at accounts
    have yields : Accounts store last 1 0 ∧ last.Kept := by
      cases evicted with
      | none =>
        rw [room]
        exact ⟨accounts, keeps⟩
      | some old =>
        obtain ⟨waiting, there, isNew⟩ := waits old rfl
        cases waiting with
        | pubrel | taken => cases isNew
        | publish gone =>
          rw [Option.bind_some, there] at room
          rw [room]
          exact ⟨accounts.discard queue.id gone.topic gone.qos, keeps⟩
    -- what is dropped to keep the budget is accounted for, too
    dsimp only
    split
    · exact yields.1.trans (sweeps_evictQos0 yields.2 _).accounts
    · exact yields.1

omit kept in
/-- A message that is turned away came in and was dropped. -/
theorem turnAway_accounts (store : Store) (queue : QueueKey) (message : Publish) :
    Accounts store (store.turnAway queue message) 1 0 := by
  have passed : Accounts store store 1 1 := (Accounts.refl store).trade rfl
  obtain ⟨drops, tallied, books⟩ := passed.discard queue.id message.topic message.qos
  exact ⟨drops, { tallied with }, books⟩

theorem addPublish_accounts (under : store.Under store.sequence.next.toNat) (queue : QueueKey)
    (message : Publish) (limit : Nat) (policy : DiscardPolicy) (index : Nat) :
    Accounts store (store.addPublish queue message limit policy index).2
      (store.addPublish queue message limit policy index).1.isOk.toNat 0 := by
  have adds := adds_addPublish store queue message limit policy index
  generalize store.addPublish queue message limit policy index = served at adds ⊢
  cases adds with
  | refused => exact .of_eq rfl rfl rfl
  | accepted opened =>
    exact enqueue_accounts kept under (getElem?_of_bucket opened) queue message
      (by rintro old ⟨⟩)
  | evicting opened _ oldest =>
    refine enqueue_accounts kept under (getElem?_of_bucket opened) queue message ?_
    rintro key ⟨⟩
    exact isNew_of_oldestEvictable? oldest
  | turnedAway => exact turnAway_accounts store queue message

theorem enqueuePubrel_accounts (under : store.Under store.sequence.next.toNat)
    (found : store.buckets[index]? = some bucket) (queue : QueueKey) (id : UInt16) :
    Accounts store (store.enqueuePubrel queue id index bucket).2 0 0 := by
  have fresh := (under found).fresh ⟨queue, store.sequence.next⟩ (Nat.le_refl _)
  have lost : Change.lost bucket.entries
      (.insert ⟨queue, store.sequence.next⟩ (.pubrel id)) = 0 := by
    rw [Change.lost, Change.key, fresh, Option.elim]
  have apart : ([Change.insert ⟨queue, store.sequence.next⟩ (.pubrel id)].map
    Change.key).Nodup := List.nodup_singleton _
  unfold enqueuePubrel
  dsimp only
  cases committed : { store with sequence := store.sequence.advance }.commit index bucket
    [.insert ⟨queue, store.sequence.next⟩ (.pubrel id)] with
  | mk answer after =>
    cases answer with
    | error fault => exact (commit_failed_accounts kept.advance found committed).of_advance
    | ok =>
      have accounts := (commit_accounts kept.advance found apart committed).of_advance
      rw [List.map_singleton, List.map_singleton, lost] at accounts
      exact accounts

theorem addPubrel_accounts (under : store.Under store.sequence.next.toNat) (queue : QueueKey)
    (id : UInt16) (index : Nat) : Accounts store (store.addPubrel queue id index).2 0 0 := by
  have adds := adds_addPubrel store queue id index
  generalize store.addPubrel queue id index = served at adds ⊢
  cases adds with
  | refused | known => exact .refl store
  | fresh opened => exact enqueuePubrel_accounts kept under (getElem?_of_bucket opened) queue id

/-! Reading -/

omit kept in
/-- What a reading takes out has expired or is handed out for good. -/
theorem Delivers.ledger {shared : Bool} {rest : List (EntryKey × Entry)} {delivery : Delivery}
    (delivers : Delivers shared rest delivery) {entries : Entries}
    (stored : ∀ e ∈ rest, entries.get? e.1 = some e.2) :
    (delivery.changes.map (Change.lost entries)).sum =
      (delivery.changes.map (Change.gained entries)).sum + delivery.expired +
        delivery.messages.countP fun message => message.qos = .atMostOnce := by
  induction delivers with
  | stop | panic => rfl
  | pass e _ ih => exact ih fun other member => stored other (List.mem_cons_of_mem _ member)
  | @expire rest delivery key message waits _ ih =>
    have first := stored _ List.mem_cons_self
    have others := ih fun other member => stored other (List.mem_cons_of_mem _ member)
    have lost : Change.lost entries (.delete key) = 1 := by
      rw [Change.lost, Change.key, first]
      rfl
    have gained : Change.gained entries (.delete key) = 0 := rfl
    simp only [Delivery.expire, List.map_cons, List.sum_cons, lost, gained]
    omega
  | @drop rest delivery key message waits once _ ih =>
    have first := stored _ List.mem_cons_self
    have others := ih fun other member => stored other (List.mem_cons_of_mem _ member)
    have lost : Change.lost entries (.delete key) = 1 := by
      rw [Change.lost, Change.key, first]
      rfl
    have gained : Change.gained entries (.delete key) = 0 := rfl
    have counts : decide ((message.toPublish noPacketId).qos = .atMostOnce) = true :=
      decide_eq_true once
    simp only [Delivery.hand, List.map_cons, List.sum_cons, lost, gained]
    rw [List.countP_cons, if_pos counts]
    omega
  | @hand rest delivery key message waits acknowledged id _ ih =>
    have first := stored _ List.mem_cons_self
    have others := ih fun other member => stored other (List.mem_cons_of_mem _ member)
    have lost : Change.lost entries (.handing shared key id) = 1 := by
      rw [Change.lost, Change.key_handing, first]
      rfl
    have gained : Change.gained entries (.handing shared key id) = 1 := by
      rw [Change.gained, Change.key_handing, first, Change.outcome_handing waits]
      cases shared <;> rfl
    have uncounted : ¬ decide ((message.toPublish id).qos = .atMostOnce) = true :=
      mt of_decide_eq_true acknowledged
    simp only [Delivery.hand, List.map_cons, List.sum_cons, lost, gained]
    rw [List.countP_cons, if_neg uncounted]
    omega

theorem readNew_accounts (queue : QueueKey) (pool : List UInt16) (byteLimit now : UInt64)
    (index : Nat) :
    Accounts store (store.readNew queue pool byteLimit now index).2 0
      ((store.readNew queue pool byteLimit now index).1.toOption.elim 0 fun messages =>
        messages.countP fun message => message.qos = .atMostOnce) := by
  have reads := reads_readNew store queue pool byteLimit now index
  generalize store.readNew queue pool byteLimit now index = served at reads ⊢
  cases reads with
  | refused | unknown | panics => exact .refl store
  | fails opened _ _ failed => exact commit_failed_accounts kept (getElem?_of_bucket opened) failed
  | @hands bucket counts after opened counted _ done =>
    have delivers := delivers_reading store.settings.overflow bucket queue counts pool byteLimit now
    have accounts := commit_accounts kept (getElem?_of_bucket opened)
      (delivers.keys_sublist.nodup (nodup_queueEntries bucket queue)) done
    have ledger := delivers.ledger fun e member => (mem_queueEntries.mp member).1
    have counted : Accounts store after 0
        ((reading store.settings.overflow bucket queue counts pool byteLimit now).messages.countP
            (fun message => message.qos = .atMostOnce) +
          (reading store.settings.overflow bucket queue counts pool byteLimit now).expired) := by
      apply accounts.trade
      omega
    exact counted.expire rfl rfl rfl

/-! Settling -/

theorem replace_accounts (under : store.Under store.sequence.next.toNat) (id : String)
    (packetId : UInt16) (index : Nat) :
    Accounts store (store.replace id packetId index).2 0
      ((store.replace id packetId index).1.toOption.join.elim 0 fun _ => 1) := by
  have replaces := replaces_replace store id packetId index
  generalize store.replace id packetId index = served at replaces ⊢
  cases replaces with
  | refused | known => exact .refl store
  | @fresh bucket opened =>
    have accounts :=
      enqueuePubrel_accounts kept under (getElem?_of_bucket opened) ⟨id, false⟩ packetId
    generalize store.enqueuePubrel ⟨id, false⟩ packetId index bucket = answered at accounts ⊢
    obtain ⟨answer, after⟩ := answered
    cases answer with
    | error | ok => exact accounts
  | @releases bucket key stored opened held there =>
    have found := getElem?_of_bucket opened
    cases committed : store.commit index bucket [.release key packetId] with
    | mk answer after =>
      cases answer with
      | error fault => exact commit_failed_accounts kept found committed
      | ok => exact commit_single_accounts kept found (.release key packetId) there committed

theorem remove_accounts (id : String) (packetId : UInt16) (expected : Option String)
    (index : Nat) :
    Accounts store (store.remove id packetId expected index).2 0
      ((store.remove id packetId expected index).1.toOption.join.elim 0 fun _ => 1) := by
  have removes := removes_remove store id packetId expected index
  generalize store.remove id packetId expected index = served at removes ⊢
  cases removes with
  | refused | unknown | unexpected => exact .refl store
  | @removes bucket key opened held =>
    have found := getElem?_of_bucket opened
    obtain ⟨entry, stored, _⟩ := carries_of_inFlightKey? (kept found).agrees held
    cases committed : store.commit index bucket [.delete key] with
    | mk answer after =>
      cases answer with
      | error fault => exact commit_failed_accounts kept found committed
      | ok =>
        have accounts := commit_single_accounts kept found (.delete key) stored committed
        rw [stored]
        cases entry <;> exact accounts

/-- Changing the first entry that fits, each at the same cost. -/
theorem changeFirst_accounts {queue : QueueKey} {fits : Entry → Bool}
    {change : EntryKey → Change} {settled : Nat}
    (costs : ∀ key entry, fits entry = true → (change key).key = key ∧
      entry.messages = ((change key).outcome (some entry)).elim 0 Entry.messages + settled)
    (index : Nat) :
    Accounts store (store.changeFirst queue fits change index).2 0
      ((store.changeFirst queue fits change index).1.toOption.elim 0 fun found =>
        if found then settled else 0) := by
  have changes := changes_changeFirst store queue fits change index
  generalize store.changeFirst queue fits change index = served at changes ⊢
  cases changes with
  | refused | missing => exact .refl store
  | @changes bucket key entry opened first =>
    obtain ⟨stored, _, suits⟩ := of_find?_queueEntries first
    obtain ⟨falls, cost⟩ := costs key entry suits
    rw [← falls] at stored
    have found := getElem?_of_bucket opened
    cases committed : store.commit index bucket [change key] with
    | mk answer after =>
      cases answer with
      | error fault => exact commit_failed_accounts kept found committed
      | ok =>
        apply (commit_single_accounts kept found (change key) stored committed).trade
        rw [cost]
        exact (Nat.zero_add _).symm

theorem removeShared_accounts (id uniqueId : String) (index : Nat) :
    Accounts store (store.removeShared id uniqueId index).2 0
      ((store.removeShared id uniqueId index).1.toOption.elim 0 fun found =>
        if found then 1 else 0) := by
  refine changeFirst_accounts kept ?_ index
  intro key entry fits
  refine ⟨rfl, ?_⟩
  cases entry with
  | publish | taken => rfl
  | pubrel => simp [Entry.uniqueId?, Entry.message?] at fits

theorem giveBack_accounts (id uniqueId : String) (index : Nat) :
    Accounts store (store.giveBack id uniqueId index).2 0 0 := by
  have costs : ∀ key entry, isTaken uniqueId entry = true → (Change.mark key false).key = key ∧
      entry.messages =
        ((Change.mark key false).outcome (some entry)).elim 0 Entry.messages + 0 := by
    intro key entry fits
    refine ⟨rfl, ?_⟩
    cases entry with
    | publish | taken => rfl
    | pubrel => cases fits
  have accounts := @changeFirst_accounts store kept ⟨id, true⟩ _ _ _ costs index
  rw [← giveBack] at accounts
  generalize store.giveBack id uniqueId index = answered at accounts ⊢
  obtain ⟨answer, after⟩ := answered
  cases answer with
  | error => exact accounts
  | ok found => cases found <;> exact accounts

/-! Emptying and upkeep -/

omit kept in
theorem gained_deletes {α : Type} (entries : Entries) (l : List α) (key : α → EntryKey) :
    ((l.map fun a => Change.delete (key a)).map (Change.gained entries)).sum = 0 := by
  induction l with
  | nil => rfl
  | cons a l ih =>
    rw [List.map_cons, List.map_cons, List.sum_cons, ih]
    rfl

omit kept in
/-- Of the deleted entries, those are lost that held messages. -/
theorem lost_deletions (bucket : Bucket) (queue : QueueKey) (fits : Entry → Bool) :
    ((deletions bucket queue fits).map (Change.lost bucket.entries)).sum =
      bucket.entries.total fun key entry =>
        if ((Change.actAll bucket.entries (deletions bucket queue fits)).get? key).isNone then
          entry.messages else 0 := by
  have lost : ∀ e ∈ (bucket.queueEntries queue).filter fun e => fits e.2,
      (Change.lost bucket.entries ∘ fun e => Change.delete e.1) e = e.2.messages := by
    intro e member
    have stored := (mem_queueEntries.mp (List.mem_filter.mp member).1).1
    rw [Function.comp_apply, Change.lost, Change.key, stored, Option.elim]
  have listed : ((deletions bucket queue fits).map (Change.lost bucket.entries)).sum =
      (((bucket.queueEntries queue).filter fun e => fits e.2).map fun e => e.2.messages).sum := by
    rw [deletions, List.map_map, List.map_congr_left lost]
  rw [listed, Bucket.queueEntries, List.filter_filter, sum_filter, Table.total]
  congr 1
  apply List.map_congr_left
  intro e member
  have stored := Table.mem_bindings_iff.mp member
  by_cases doomed : e.1.queue = queue ∧ fits e.2 = true
  · have deleted : Change.delete e.1 ∈ deletions bucket queue fits :=
      mem_deletions.mpr ⟨e.1, e.2, rfl, stored, doomed⟩
    have gone := @Change.get?_actAll_of_mem bucket.entries _
      (nodup_deletions bucket queue fits) _ deleted
    rw [Change.key] at gone
    have absent : ((Change.actAll bucket.entries (deletions bucket queue fits)).get?
        e.1).isNone = true := by
      rw [gone]
      rfl
    rw [if_pos (by simp [doomed]), if_pos absent]
  · have spared : (Change.actAll bucket.entries (deletions bucket queue fits)).get? e.1 =
        some e.2 := by
      rw [Change.get?_actAll_of_forall_ne, stored]
      intro change member same
      obtain ⟨key, entry, rfl, there, fit⟩ := mem_deletions.mp member
      obtain rfl : e.1 = key := same
      cases stored.symm.trans there
      exact doomed fit
    rw [spared, if_neg (by simpa [and_comm] using doomed), if_neg (by simp)]

theorem deleteEntries_accounts (queue : QueueKey) (fits : Entry → Bool) (index : Nat) :
    Accounts store (store.deleteEntries queue fits index).2 0
      ((store.deleteEntries queue fits index).1.toOption.elim 0 fun _ =>
        store.deleted (store.deleteEntries queue fits index).2 index) := by
  have deletes := deletes_deleteEntries store queue fits index
  generalize store.deleteEntries queue fits index = served at deletes ⊢
  cases deletes with
  | refused => exact .refl store
  | @deletes bucket opened =>
    have found := getElem?_of_bucket opened
    cases committed : store.commit index bucket (deletions bucket queue fits) with
    | mk answer after =>
      cases answer with
      | error fault => exact commit_failed_accounts kept found committed
      | ok =>
        have accounts := commit_accounts kept found (nodup_deletions bucket queue fits) committed
        have changed := contents_of_done kept found committed
        rw [lost_deletions, deletions, gained_deletes, ← deletions] at accounts
        dsimp only [Except.toOption, Option.elim]
        rw [deleted, getElem?_contents found, Option.elim]
        simp only [entryAt_set found changed, if_true]
        exact accounts

theorem cleanUp_accounts (now : UInt64) (index : Nat) :
    Accounts store (store.cleanUp now index).2 0 0 := by
  rcases cleanUp_cases store now index with same | ⟨bucket, found, cases⟩
  · rw [same]
    exact .refl store
  · have apart : (((staleKeys bucket now).map Change.delete).map Change.key).Nodup := by
      rw [List.map_map]
      exact (List.map_id _).symm ▸ nodup_staleKeys bucket now
    have gained : (((staleKeys bucket now).map Change.delete).map
        (Change.gained bucket.entries)).sum = 0 := gained_deletes bucket.entries _ id
    -- what is stale waits, so it is a message
    have single : ∀ key ∈ staleKeys bucket now,
        (Change.lost bucket.entries ∘ Change.delete) key = 1 := by
      intro key member
      obtain ⟨entry, stored, stale⟩ := mem_staleKeys member
      rw [Function.comp_apply, Change.lost, Change.key, stored, Option.elim]
      exact Entry.messages_of_isNew (Entry.isNew_of_isStale stale)
    have lost : (((staleKeys bucket now).map Change.delete).map
        (Change.lost bucket.entries)).sum = (staleKeys bucket now).length := by
      rw [List.map_map, List.map_congr_left single, List.map_const', List.sum_replicate_nat,
        Nat.mul_one]
    rcases cases with ⟨fault, after, failed, same⟩ | ⟨swept, done, contents, outbox, stats⟩
    · rw [same]
      exact commit_failed_accounts kept found failed
    · have accounts := commit_accounts kept found apart done
      rw [gained, lost] at accounts
      exact (accounts.trade (by omega)).expire contents outbox stats

omit kept in
theorem close_accounts (store : Store) : Accounts store store.close.2 0 0 := by
  obtain ⟨contents, silent⟩ := close_silent store
  exact .of_eq contents silent.stats silent.notices

end Requests

end Store

end DeliveryQueue
