import DeliveryQueue.Proofs.Numbers

/-!
Delivery in order. What waits in a queue of one client waits in the order of its arrival, and
reading takes from the front (`readNew_waiting`). Whatever happens, what was handed out together
with what still waits is part of what arrived, in the same order (`World.InOrder`).
-/
namespace DeliveryQueue

/-- The message of a waiting entry. -/
def Entry.waiting? : Entry → Option StoredPublish
  | publish stored => if stored.packetId.isNone then some stored else none
  | _ => none

/-- What waits in entries, without those at some keys. -/
def unread (touched : List EntryKey) (entries : List (EntryKey × Entry)) : List StoredPublish :=
  entries.filterMap fun e => if e.1 ∈ touched then none else e.2.waiting?

section Unread
variable {key : EntryKey} {entry : Entry} {rest : List (EntryKey × Entry)}

theorem unread_cons_of_touched {touched : List EntryKey} (apart : key ∉ rest.map Prod.fst) :
    unread (key :: touched) ((key, entry) :: rest) = unread touched rest := by
  rw [unread, List.filterMap_cons_none (by simp)]
  refine List.filterMap_congr fun e member => ?_
  have differs : e.1 ≠ key := fun same => apart (List.mem_map.mpr ⟨e, member, same⟩)
  simp [differs]

theorem unread_cons_of_busy (busy : entry.waiting? = none) (touched : List EntryKey) :
    unread touched ((key, entry) :: rest) = unread touched rest :=
  List.filterMap_cons_none (by simp [busy])

theorem unread_cons_of_waiting {stored : StoredPublish} (waits : entry.waiting? = some stored) :
    unread [] ((key, entry) :: rest) = stored :: unread [] rest :=
  List.filterMap_cons_some (by simp [waits])

theorem unread_sublist (touched : List EntryKey) (entries : List (EntryKey × Entry)) :
    (unread touched entries).Sublist (unread [] entries) := by
  have fewer : unread touched entries = unread [] (entries.filter fun e => e.1 ∉ touched) := by
    simp only [unread, List.filterMap_filter]
    refine List.filterMap_congr fun e _ => ?_
    by_cases here : e.1 ∈ touched <;> simp [here]
  rw [fewer]
  exact List.filter_sublist.filterMap _

end Unread

namespace Table

/-- The messages that wait in a queue, in order, without those at some keys. -/
def waitingBut (entries : Entries) (queue : QueueKey) (touched : List EntryKey) :
    List StoredPublish := unread touched (entries.bindings.filter fun e => e.1.queue = queue)

/-- The messages that wait in a queue, in order. -/
def waiting (entries : Entries) (queue : QueueKey) : List StoredPublish :=
  entries.waitingBut queue []

variable {entries : Entries} {queue : QueueKey} {key : EntryKey} {touched : List EntryKey}

theorem waitingBut_erase (entries : Entries) (queue : QueueKey) (key : EntryKey)
    (touched : List EntryKey) :
    (entries.erase key).waitingBut queue touched = entries.waitingBut queue (key :: touched) := by
  simp only [waitingBut, unread, erase, filter, List.filterMap_filter]
  refine List.filterMap_congr fun e _ => ?_
  by_cases same : e.1 = key
  · simp [same]
  · have apart : compare key e.1 ≠ .eq := fun equal =>
      same (Std.LawfulEqOrd.eq_of_compare equal).symm
    simp [same, apart]

/-- A queue that gets an entry above all others gets it at its end. -/
theorem filter_insert (key : EntryKey) (entry : Entry)
    (above : ∀ e ∈ entries.bindings, e.1.queue = key.queue → e.1.sequence < key.sequence) :
    (entries.insert key entry).bindings.filter (fun e => e.1.queue = key.queue) =
      entries.bindings.filter (fun e => e.1.queue = key.queue) ++ [(key, entry)] := by
  have later (e) (member : e ∈ entries.bindings) (its : e.1.queue = key.queue) :
      compare e.1 key = .lt := by
    have less : compare e.1.sequence key.sequence = .lt := by
      simp [compare, compareOfLessAndEq, above e member its]
    simp [EntryKey.compare_def, compareLex, compareOn, its, less]
  refine eq_of_mem_iff ((entries.insert key entry).ascending.filter _) ?_ ?_
  · refine List.pairwise_append.mpr ⟨entries.ascending.filter _, List.pairwise_singleton _ _, ?_⟩
    intro e member last is_last
    obtain ⟨member, its⟩ := List.mem_filter.mp member
    rw [List.mem_singleton.mp is_last]
    exact later e member (by simpa using its)
  · rintro ⟨other, value⟩
    simp only [List.mem_filter, List.mem_append, List.mem_singleton, mem_bindings_iff]
    by_cases same : other = key
    · have absent : entries.get? key ≠ some value := by
        intro found
        have less := later (key, value) (mem_bindings_iff.mpr found) rfl
        simp at less
      simp [same, absent, eq_comm]
    · simp [get?_insert_of_ne same, same]

end Table

namespace Change

/-- Nothing waits in the queue where the change was made. -/
def Settles (queue : QueueKey) (change : Change) : Prop :=
  change.key.queue = queue → ∀ before after, change.outcome before = some after →
    after.waiting? = none

variable {queue : QueueKey} {change : Change}

theorem waitingBut_act (settles : change.Settles queue) (entries : Entries)
    (touched : List EntryKey) :
    (change.act entries).waitingBut queue touched =
      entries.waitingBut queue (change.key :: touched) := by
  have gone : (change.act entries).waitingBut queue touched =
      (change.act entries).waitingBut queue (change.key :: touched) := by
    refine List.filterMap_congr fun e member => ?_
    obtain ⟨member, its⟩ := List.mem_filter.mp member
    by_cases same : e.1 = change.key
    · have found := Table.mem_bindings_iff.mp member
      rw [same, get?_act_self] at found
      have settled := settles (by simpa [same] using its) _ _ found
      simp [same, settled]
    · simp [same]
  rw [gone, ← Table.waitingBut_erase, act, Table.erase_set, Table.waitingBut_erase]

theorem waitingBut_actAll {changes : List Change}
    (settle : ∀ change ∈ changes, change.Settles queue) (entries : Entries)
    (touched : List EntryKey) :
    (actAll entries changes).waitingBut queue touched =
      entries.waitingBut queue (changes.map key ++ touched) := by
  induction changes generalizing entries with
  | nil => rfl
  | cons change changes ih =>
    obtain ⟨first, others⟩ := List.forall_mem_cons.mp settle
    rw [actAll_cons, ih others, waitingBut_act first]
    rfl

theorem waiting_actAll {changes : List Change}
    (settle : ∀ change ∈ changes, change.Settles queue) (entries : Entries) :
    (actAll entries changes).waiting queue = entries.waitingBut queue (changes.map key) := by
  rw [Table.waiting, waitingBut_actAll settle, List.append_nil]

end Change

/-- Edits leave nothing waiting in the queue of one client. -/
theorem Edit.settles {entries : Entries} {change : Change} {queue : QueueKey}
    (edit : Edit entries change) (unshared : queue.shared = false) : change.Settles queue := by
  intro its before after outcome
  subst its
  cases edit with
  | delete => cases outcome
  | hand =>
    obtain ⟨entry, _, rfl⟩ := Option.map_eq_some_iff.mp outcome
    cases entry <;> rfl
  | take shared | giveBack shared => cases shared.symm.trans unshared
  | release =>
    cases outcome
    rfl

theorem EditsAlong.settle {entries : Entries} {changes : List Change} {queue : QueueKey}
    (edits : EditsAlong entries changes) (unshared : queue.shared = false) :
    ∀ change ∈ changes, change.Settles queue := by
  induction changes generalizing entries with
  | nil => simp
  | cons change changes ih =>
    exact List.forall_mem_cons.mpr ⟨edits.1.settles unshared, ih edits.2⟩

namespace Store

/-- What is handed out stood in front of what still waits. -/
theorem deliver_in_order (now : UInt64) (allowance : Allowance) (rest : List (EntryKey × Entry))
    (apart : (rest.map Prod.fst).Nodup) :
    ((deliver false now allowance rest).messages.map StoredPublish.ofPublish ++
      unread ((deliver false now allowance rest).changes.map Change.key) rest).Sublist
        (unread [] rest) := by
  induction rest generalizing allowance with
  | nil => exact List.Sublist.refl _
  | cons e rest ih =>
    obtain ⟨key, entry⟩ := e
    obtain ⟨fresh, others⟩ := List.nodup_cons.mp apart
    have ih := fun allowance => ih allowance others
    unfold deliver
    split
    · exact List.Sublist.refl _
    · cases entry with
      | pubrel | taken =>
        rw [unread_cons_of_busy rfl, unread_cons_of_busy rfl]
        exact ih allowance
      | publish stored =>
        dsimp only
        split
        · rename_i given
          have busy : (Entry.publish stored).waiting? = none := by
            cases id : stored.packetId <;> simp [Entry.waiting?, id] at given ⊢
          rw [unread_cons_of_busy busy, unread_cons_of_busy busy]
          exact ih allowance
        · rename_i free
          have none : stored.packetId = none := by simpa using free
          have waits : (Entry.publish stored).waiting? = some stored := by
            simp [Entry.waiting?, none]
          have content (id : UInt16) : StoredPublish.ofPublish (stored.toPublish id) = stored := by
            cases stored
            cases none
            rfl
          split
          · rw [Delivery.expire, List.map_cons, Change.key, unread_cons_of_touched fresh,
              unread_cons_of_waiting waits]
            exact (ih allowance).cons _
          · split
            · exact List.Sublist.refl _
            · split
              · exact List.Sublist.refl _
              · split
                · rw [Delivery.hand, List.map_cons, List.map_cons, Change.key, content,
                    unread_cons_of_touched fresh, unread_cons_of_waiting waits]
                  exact (ih _).cons_cons _
                · split
                  · rename_i shared
                    cases shared
                  · cases allowance.ids with
                    | nil => exact List.Sublist.refl _
                    | cons id ids =>
                      dsimp only
                      rw [Delivery.hand, List.map_cons, List.map_cons, Change.key, content,
                        unread_cons_of_touched fresh, unread_cons_of_waiting waits]
                      exact (ih _).cons_cons _

/-- The messages that are handed over for a queue. -/
def added (queue : QueueKey) (offers : List Offer) : List StoredPublish :=
  (offers.filter fun offer => offer.queue = queue).map fun offer => .ofPublish offer.message

/-- What waits in a queue in the bucket at an index. -/
def waiting (store : Store) (queue : QueueKey) (place : Nat) : List StoredPublish :=
  store.buckets[place]?.elim [] fun bucket => bucket.entries.waiting queue

variable {store after : Store} {queue : QueueKey} {index place few : Nat} {bucket : Bucket}
variable {offer : Option Offer} {more : List StoredPublish} {changes : List Change}

theorem waiting_of_getElem? (found : store.buckets[place]? = some bucket) (queue : QueueKey) :
    store.waiting queue place = bucket.entries.waiting queue := by
  rw [waiting, found, Option.elim]

theorem waiting_set (found : store.buckets[index]? = some bucket) {new : Bucket} (after : Store)
    (replaced : after.buckets = store.buckets.setIfInBounds index new)
    (grown : (new.entries.waiting queue).Sublist (bucket.entries.waiting queue ++ more)) :
    (after.waiting queue place).Sublist (store.waiting queue place ++ more) := by
  by_cases same : index = place
  · subst same
    have there : after.buckets[index]? = some new := by
      rw [replaced]
      exact getElem?_set_self found new
    rwa [waiting_of_getElem? there, waiting_of_getElem? found]
  · have equal : after.waiting queue place = store.waiting queue place := by
      rw [waiting, replaced, Array.getElem?_setIfInBounds_ne same, waiting]
    rw [equal]
    exact List.sublist_append_left _ _

theorem waiting_commit (kept : store.Kept) (found : store.buckets[index]? = some bucket)
    (grown : ((Change.actAll bucket.entries changes).waiting queue).Sublist
      (bucket.entries.waiting queue ++ more)) :
    ((store.commit index bucket changes).2.waiting queue place).Sublist
      (store.waiting queue place ++ more) := by
  rcases commit_cases (kept found) found changes with
    ⟨fault, failed⟩ | ⟨new, left, committed, done⟩
  · rw [failed]
    exact List.sublist_append_left _ _
  · rw [done]
    exact waiting_set found _ rfl (by rwa [committed.entries])

/-- Committing changes that settle lets nobody wait who did not. -/
theorem waiting_commit_of_settle (kept : store.Kept) (found : store.buckets[index]? = some bucket)
    (settle : ∀ change ∈ changes, change.Settles queue) :
    ((store.commit index bucket changes).2.waiting queue place).Sublist
      (store.waiting queue place) := by
  have fewer : ((Change.actAll bucket.entries changes).waiting queue).Sublist
      (bucket.entries.waiting queue ++ []) := by
    rw [Change.waiting_actAll settle, List.append_nil]
    exact unread_sublist _ _
  rw [← List.append_nil (store.waiting queue place)]
  exact waiting_commit kept found fewer

theorem Quiet.waiting (step : Quiet few store after) (kept : store.Kept)
    (unshared : queue.shared = false) :
    (after.waiting queue place).Sublist (store.waiting queue place) := by
  cases step with
  | edit found edits short => exact waiting_commit_of_settle kept found (edits.settle unshared)
  | @tend index bucket new found tended =>
    have same : (new.entries.waiting queue).Sublist (bucket.entries.waiting queue ++ []) := by
      rw [tended.entries, List.append_nil]
    rw [← List.append_nil (store.waiting queue place)]
    exact waiting_set found _ rfl same
  | note => exact List.Sublist.refl _

theorem Quietly.waiting (steps : Quietly few store after) (kept : store.Kept)
    (unshared : queue.shared = false) :
    (after.waiting queue place).Sublist (store.waiting queue place) := by
  induction steps with
  | refl => exact List.Sublist.refl _
  | next step _ ih => exact (ih (step.kept kept)).trans (step.waiting kept unshared)

/-- A message that arrives under a number above all others waits behind them. -/
theorem waiting_insert {entries : Entries} {n : UInt64}
    (above : ∀ ⦃key entry⦄, entries.get? key = some entry → key.sequence.toNat < n.toNat)
    (queue other : QueueKey) (message : Publish) (index : Nat) :
    ((Change.act entries (.insert ⟨other, n⟩ (.publish (.ofPublish message)))).waiting
      queue).Sublist (entries.waiting queue ++ added queue [⟨other, message, index⟩]) := by
  by_cases same : other = queue
  · subst same
    have last := Table.filter_insert ⟨other, n⟩ (.publish (.ofPublish message)) fun e member _ =>
      UInt64.lt_iff_toNat_lt.mpr (above (Table.mem_bindings_iff.mp member))
    have longer : (Change.act entries (.insert ⟨other, n⟩ (.publish (.ofPublish message)))).waiting
        other = entries.waiting other ++ [.ofPublish message] := by
      rw [Change.act, Change.outcome, Change.key, Table.set, Table.waiting, Table.waitingBut, last,
        unread, List.filterMap_append]
      rfl
    rw [longer]
    simp [added]
  · have settles : Change.Settles queue (.insert ⟨other, n⟩ (.publish (.ofPublish message))) :=
      fun its => absurd its same
    rw [Table.waiting, Change.waitingBut_act settles]
    exact (unread_sublist _ _).trans (List.sublist_append_left _ _)

theorem waiting_arrival {entries : Entries} {n : UInt64}
    (above : ∀ ⦃key entry⦄, entries.get? key = some entry → key.sequence.toNat < n.toNat)
    (evicted : Option EntryKey) (queue other : QueueKey) (message : Publish) (index : Nat) :
    ((Change.actAll entries (arrival evicted ⟨other, n⟩ message)).waiting queue).Sublist
      (entries.waiting queue ++ added queue [⟨other, message, index⟩]) := by
  cases evicted with
  | none => exact waiting_insert above queue other message index
  | some old =>
    have settles : Change.Settles queue (.delete old) := by rintro _ before after ⟨⟩
    have fewer : ((Change.act entries (.delete old)).waiting queue).Sublist
        (entries.waiting queue) := by
      rw [Table.waiting, Change.waitingBut_act settles]
      exact unread_sublist _ _
    have others : ∀ ⦃key entry⦄, (Change.act entries (.delete old)).get? key = some entry →
        key.sequence.toNat < n.toNat := by
      intro key entry found
      by_cases same : key = old
      · subst same
        cases (Table.get?_erase_self entries key).symm.trans found
      · exact above ((Table.get?_erase_of_ne same entries).symm.trans found)
    exact (waiting_insert others queue other message index).trans (fewer.append_right _)

/-- Only what is offered waits anew, behind what waits already. -/
theorem Step.waiting (step : Step few store offer after) (kept : store.Kept)
    (under : store.Under store.sequence.next.toNat) (unshared : queue.shared = false) :
    (after.waiting queue place).Sublist
      (store.waiting queue place ++ added queue offer.toList) := by
  cases step with
  | @enqueue index bucket found other message evicted stored =>
    exact waiting_commit kept.advance found
      (waiting_arrival (under found).stored evicted queue other message index)
  | @enqueuePubrel index bucket found other id free =>
    refine List.Sublist.trans (waiting_commit_of_settle kept.advance found ?_)
      (List.sublist_append_left _ _)
    intro change member
    rw [List.mem_singleton.mp member]
    rintro _ before after ⟨⟩
    rfl
  | refuse | stay => exact List.sublist_append_left _ _
  | quiet step => exact (step.waiting kept unshared).trans (List.sublist_append_left _ _)

theorem Took.waiting (took : Took store offer after) (kept : store.Kept)
    (under : store.Under store.sequence.next.toNat) (unshared : queue.shared = false) :
    (after.waiting queue place).Sublist
      (store.waiting queue place ++ added queue offer.toList) := by
  obtain ⟨few, middle, _, step, rest⟩ := took
  exact (rest.waiting (step.kept kept) unshared).trans (step.waiting kept under unshared)

/-- Reading hands out what waits in front, and leaves at most what waits behind it. -/
theorem readNew_waiting (kept : store.Kept) (unshared : queue.shared = false) {pool : List UInt16}
    {byteLimit now : UInt64} {messages : List Publish}
    (answered : (store.readNew queue pool byteLimit now index).1 = .ok messages) :
    (messages.map StoredPublish.ofPublish ++
      (store.readNew queue pool byteLimit now index).2.waiting queue index).Sublist
        (store.waiting queue index) := by
  have reads := reads_readNew store queue pool byteLimit now index
  generalize store.readNew queue pool byteLimit now index = served at answered reads ⊢
  cases reads with
  | refused | panics | fails => cases answered
  | unknown =>
    cases answered
    exact List.Sublist.refl _
  | @hands bucket counts after opened counted _ done =>
    cases answered
    have found := getElem?_of_bucket opened
    have edits := editsAlong_reading (kept found).agrees counted store.settings.overflow pool
      byteLimit now
    have front := deliver_in_order now
      ⟨pool.length, counts.packetIds.free pool, none, byteLimit, store.settings.overflow⟩
      (bucket.queueEntries queue) (nodup_queueEntries bucket queue)
    rw [← unshared, ← reading] at front
    generalize reading store.settings.overflow bucket queue counts pool byteLimit now = delivery
      at edits front done
    rcases commit_cases (kept found) found delivery.changes with
      ⟨fault, failed⟩ | ⟨new, left, committed, same⟩
    · cases done.symm.trans failed
    · cases done.symm.trans same
      have there := getElem?_set_self found new
      have left : new.entries.waiting queue =
          unread (delivery.changes.map Change.key) (bucket.queueEntries queue) := by
        rw [committed.entries, Change.waiting_actAll (edits.settle unshared)]
        rfl
      rw [waiting_of_getElem? found]
      refine List.Sublist.trans ?_ front
      refine List.Sublist.append_left ?_ _
      rw [← left, waiting_of_getElem? there]

theorem Reopened.waiting {settings : Settings} {disk : Disk} {olds : List Bucket}
    (h : Reopened (blank settings disk) olds after) (queue : QueueKey) (place : Nat) :
    after.waiting queue place =
      olds[place]?.elim [] fun bucket => bucket.entries.waiting queue := by
  rcases h.getElem?_blank place with ⟨before, there⟩ | ⟨old, new, before, there, revived⟩
  · rw [Store.waiting, there, before]
  · rw [Store.waiting, there, before, Option.elim, Option.elim, revived.entries]

/-- The messages of a queue that an answer hands out. -/
def handedOut (queue : QueueKey) : Request × Answer → List Publish
  | (.readNew other .., .messages (.ok messages)) => if other = queue then messages else []
  | _ => []

theorem serve_in_order (kept : store.Kept) (under : store.Under store.sequence.next.toNat)
    (unshared : queue.shared = false) (request : Request)
    (addressed : ∀ pool byteLimit now index,
      request = .readNew queue pool byteLimit now index → index = place) :
    ((handedOut queue (request, (store.serve request).1)).map StoredPublish.ofPublish ++
      (store.serve request).2.waiting queue place).Sublist
        (store.waiting queue place ++ added queue request.offer?.toList) := by
  have took : ((store.serve request).2.waiting queue place).Sublist
      (store.waiting queue place ++ added queue request.offer?.toList) :=
    (serve_took kept request).waiting kept under unshared
  cases request with
  | readNew other pool byteLimit now index =>
    cases answered : (store.readNew other pool byteLimit now index).1 with
    | error fault => simpa [handedOut, serve, answered] using took
    | ok messages =>
      by_cases same : other = queue
      · subst same
        rw [← addressed pool byteLimit now index rfl]
        have front := readNew_waiting kept unshared answered
        simpa [handedOut, serve, answered, added, Request.offer?] using front
      · simpa [handedOut, serve, answered, same] using took
  | _ => simpa [handedOut] using took

end Store

namespace World

/-- All that was handed out of a queue, in order. -/
def delivered (world : World) (queue : QueueKey) : List Publish :=
  world.history.flatMap (Store.handedOut queue)

/-- What was handed out and what still waits arrived in this order. -/
def InOrder (world : World) (queue : QueueKey) (place : Nat) : Prop :=
  ((world.delivered queue).map StoredPublish.ofPublish ++ world.store.waiting queue place).Sublist
    (Store.added queue world.offers)

variable {world : World} {queue : QueueKey} {place : Nat}

/-- Nothing is out of order if less waits than before. -/
theorem InOrder.fewer {other : World} (h : world.InOrder queue place)
    (history : other.history = world.history)
    (fewer : (other.store.waiting queue place).Sublist (world.store.waiting queue place)) :
    other.InOrder queue place := by
  rw [InOrder, delivered, offers, history]
  exact (List.Sublist.append_left fewer _).trans h

theorem ask_inOrder (orderly : world.Orderly) (ahead : world.Ahead)
    (unshared : queue.shared = false) {request : Request}
    (addressed : ∀ pool byteLimit now index,
      request = .readNew queue pool byteLimit now index → index = place)
    (h : world.InOrder queue place) : (world.ask request).InOrder queue place := by
  have served := Store.serve_in_order orderly.kept ahead.under unshared request addressed
  have delivered : (world.ask request).delivered queue =
      world.delivered queue ++ Store.handedOut queue (request, (world.store.serve request).1) := by
    simp [World.delivered, ask]
  have offered : Store.added queue (world.ask request).offers =
      Store.added queue world.offers ++ Store.added queue request.offer?.toList := by
    have next := offers_step world (.ask request)
    rw [step] at next
    rw [next]
    simp [Store.added, Event.offer?]
  rw [InOrder, delivered, offered, List.map_append, List.append_assoc]
  apply List.Sublist.trans (List.Sublist.append_left served _)
  rw [← List.append_assoc]
  exact h.append_right _

theorem Moves.inOrder {after : World} {event : Event} (moves : world.Moves event after)
    (orderly : world.Orderly) (ahead : world.Ahead) (unshared : queue.shared = false)
    (addressed : ∀ pool byteLimit now index,
      event = .ask (.readNew queue pool byteLimit now index) → index = place)
    (h : world.InOrder queue place) : after.InOrder queue place := by
  cases moves with
  | ask request =>
    exact ask_inOrder orderly ahead unshared
      (fun pool byteLimit now index same => addressed pool byteLimit now index (by rw [same])) h
  | call => exact h
  | still silent quiet outbox => exact h.fewer rfl (quiet.waiting orderly.kept unshared)
  | reopen reopened =>
    exact h.fewer rfl (by rw [reopened.waiting, Store.waiting, Array.getElem?_toList])

section Run
variable {settings : Settings} {disk : Disk} {store : Store}
  (opened : Store.inMemory settings disk = .ok store) (payloads : Payloads) (events : List Event)
include opened

theorem start_inOrder (queue : QueueKey) (place : Nat) :
    (start store payloads).InOrder queue place := by
  obtain ⟨used, reopened⟩ := Store.reopened_of_inMemory opened
  have none : store.waiting queue place = [] := by
    rw [reopened.waiting, List.getElem?_replicate]
    split <;> rfl
  rw [InOrder, start, none]
  exact List.Sublist.refl _

/-- What is read from the queue of one client, as long as it is read at one index, such as the
bucket of the client, is part of what was added to the queue, in the same order. -/
theorem delivered_in_order (unshared : queue.shared = false)
    (addressed : ∀ pool byteLimit now index,
      .ask (.readNew queue pool byteLimit now index) ∈ events → index = place)
    (few : ((start store payloads).run events).drawn < 2 ^ 63) :
    ((((start store payloads).run events).delivered queue).map StoredPublish.ofPublish).Sublist
      (Store.added queue (events.filterMap Event.offer?)) := by
  have inOrder : ((start store payloads).run events).InOrder queue place := by
    induction events using List.reverseRecOn with
    | nil => exact start_inOrder opened payloads queue place
    | append_singleton events event ih =>
      rw [run_concat] at few ⊢
      have fewer := Nat.lt_of_le_of_lt (drawn_le_step _ event) few
      have orderly := run_orderly opened payloads events
      refine (moves_step orderly.kept event).inOrder orderly
        (run_ahead opened payloads events fewer) unshared ?_ (ih ?_ fewer)
      · rintro pool byteLimit now index rfl
        exact addressed pool byteLimit now index (by simp)
      · intro pool byteLimit now index member
        exact addressed pool byteLimit now index (List.mem_append_left _ member)
  have offered := offers_run (start store payloads) events
  change _ = events.filterMap Event.offer? at offered
  rw [← offered]
  exact (List.sublist_append_left _ _).trans inOrder

end Run

theorem delivered_in_order_sample :
    (((start .single .empty).run sample).delivered .client).map StoredPublish.ofPublish
      |>.Sublist (Store.added .client (sample.filterMap Event.offer?)) := by
  have addressed : ∀ pool byteLimit now index,
      Event.ask (.readNew .client pool byteLimit now index) ∈ sample → index = 0 := by
    intro pool byteLimit now index member
    simp only [sample, List.mem_cons, reduceCtorEq, Event.ask.injEq, false_or, List.not_mem_nil,
      or_false, Request.readNew.injEq] at member
    exact member.2.2.2.2
  exact delivered_in_order Store.inMemory_single .empty sample rfl addressed (by decide +kernel)

end World

end DeliveryQueue
