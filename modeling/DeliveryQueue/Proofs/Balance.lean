import DeliveryQueue.Proofs.Ledger

/-!
No message disappears unaccounted. Over the life of a store, what it held at first and what came in
balances with what it holds, what was handed out or settled, what was deleted as queues were
emptied, and what it counts as dropped (`World.messages_accounted`).
-/
namespace DeliveryQueue

/-- The messages that were taken in, as a request and its answer tell. -/
def admitted : Request × Answer → Nat
  | (.add _ (.publish _) _ _ _, .done (.ok ())) => 1
  | _ => 0

/-- The messages that were handed out for good or settled, as a request and its answer tell. -/
def departed : Request × Answer → Nat
  | (.readNew .., .messages (.ok messages)) =>
    messages.countP fun message => message.qos = .atMostOnce
  | (.replace .., .uniqueId (.ok (some _))) => 1
  | (.remove .., .uniqueId (.ok (some _))) => 1
  | (.removeShared .., .found (.ok true)) => 1
  | _ => 0

namespace Store

/-- The messages that a request deleted as it emptied a queue. -/
def emptied (store after : Store) : Request × Answer → Nat
  | (.removeQos0 _ index, .done (.ok ())) => store.deleted after index
  | (.clear _ index, .done (.ok ())) => store.deleted after index
  | _ => 0

variable {store after : Store}

/-- Every request keeps the books. -/
theorem serve_accounts (kept : store.Kept) (under : store.Under store.sequence.next.toNat)
    (request : Request) :
    let served := store.serve request
    Accounts store served.2 (admitted (request, served.1))
      (departed (request, served.1) + store.emptied served.2 (request, served.1)) := by
  cases request with
  | add queue message limit policy index =>
    cases message with
    | pubrel id => exact addPubrel_accounts kept under queue id index
    | publish message =>
      have accounts := addPublish_accounts kept under queue message limit policy index
      have told : ∀ result, admitted (.add queue (.publish message) limit policy index,
          .done result) = result.isOk.toNat := by
        rintro (fault | ⟨⟨⟩⟩)
        · rfl
        · rfl
      rw [← told] at accounts
      exact accounts
  | readNew queue pool byteLimit now index =>
    have accounts := readNew_accounts kept queue pool byteLimit now index
    have told : ∀ result, departed (.readNew queue pool byteLimit now index, .messages result) =
        result.toOption.elim 0 fun messages =>
          messages.countP fun message => message.qos = .atMostOnce := by
      rintro (fault | messages)
      · rfl
      · rfl
    rw [← told] at accounts
    exact accounts
  | readInFlight | size => exact .refl store
  | replace id packetId index =>
    have accounts := replace_accounts kept under id packetId index
    have told : ∀ result, departed (.replace id packetId index, .uniqueId result) =
        result.toOption.join.elim 0 fun _ => 1 := by
      rintro (fault | (_ | uniqueId))
      · rfl
      · rfl
      · rfl
    rw [← told] at accounts
    exact accounts
  | remove id packetId expected index =>
    have accounts := remove_accounts kept id packetId expected index
    have told : ∀ result, departed (.remove id packetId expected index, .uniqueId result) =
        result.toOption.join.elim 0 fun _ => 1 := by
      rintro (fault | (_ | uniqueId))
      · rfl
      · rfl
      · rfl
    rw [← told] at accounts
    exact accounts
  | removeShared id uniqueId index =>
    have accounts := removeShared_accounts kept id uniqueId index
    have told : ∀ result, departed (.removeShared id uniqueId index, .found result) =
        result.toOption.elim 0 fun found => if found then 1 else 0 := by
      rintro (fault | (_ | _))
      · rfl
      · rfl
      · rfl
    rw [← told] at accounts
    exact accounts
  | giveBack id uniqueId index => exact giveBack_accounts kept id uniqueId index
  | removeQos0 queue index =>
    have accounts := deleteEntries_accounts kept queue (fun entry => entry.messageClass = .qos0)
      index
    have told : ∀ result after, store.emptied after (.removeQos0 queue index, .done result) =
        result.toOption.elim 0 fun _ => store.deleted after index := by
      rintro (fault | ⟨⟨⟩⟩) after
      · rfl
      · rfl
    rw [← told] at accounts
    exact accounts.trade (Nat.zero_add _)
  | clear queue index =>
    have accounts := deleteEntries_accounts kept queue (fun _ => true) index
    have told : ∀ result after, store.emptied after (.clear queue index, .done result) =
        result.toOption.elim 0 fun _ => store.deleted after index := by
      rintro (fault | ⟨⟨⟩⟩) after
      · rfl
      · rfl
    rw [← told] at accounts
    exact accounts.trade (Nat.zero_add _)
  | cleanUp now index => exact cleanUp_accounts kept now index
  | close => exact close_accounts store

end Store

namespace World

/-- A world that begins with a store over the journals of another. The numbers that were drawn
still count. -/
def anew (world : World) (store : Store) : World :=
  { start store world.payloads with drawn := world.drawn }

/-- The messages that an event deletes as it empties a queue. -/
def emptiedBy (world : World) : Event → Nat
  | .ask request =>
    let served := world.store.serve request
    world.store.emptied served.2 (request, served.1)
  | _ => 0

/-- The messages that are deleted in a run as queues are emptied. -/
def emptied (world : World) : List Event → Nat
  | [] => 0
  | event :: events => world.emptiedBy event + (world.step event).emptied events

theorem emptied_concat (world : World) (events : List Event) (event : Event) :
    world.emptied (events ++ [event]) =
      world.emptied events + (world.run events).emptiedBy event := by
  induction events generalizing world with
  | nil => exact Nat.add_comm _ _
  | cons first events ih =>
    rw [List.cons_append, emptied, emptied, ih]
    exact (Nat.add_assoc _ _ _).symm

variable {world : World} {first : Store} {gone : Nat}

/-- These are the messages that the store dropped in a world. It counted them, in words that wrap
around, and those that it dropped for want of room were reported. -/
structure Dropped (world : World) (drops : Store.Tally) : Prop where
  expired : world.store.stats.expired = .ofNat drops.expired
  discarded : world.store.stats.discarded = .ofNat drops.full
  qos0MemoryDropped : world.store.stats.qos0MemoryDropped = .ofNat drops.memory
  full : world.record.notices.countP Notice.isFull = drops.full
  memory : world.record.notices.countP (fun notice => !notice.isFull) = drops.memory

/-- The books balance with those of the store at first. -/
structure Balances (first : Store) (gone : Nat) (world : World) : Prop where
  books : ∃ drops, world.Dropped drops ∧
    world.store.held + (world.history.map departed).sum + gone + drops.total =
      first.held + (world.history.map admitted).sum

/-- A store that dropped more. -/
theorem Dropped.more {drops more : Store.Tally} {after : Store} (dropped : world.Dropped drops)
    (settled : world.store.outbox = .empty) (tallied : world.store.Tallied after more) :
    let counts := world.record.append after.outbox
    after.stats.expired = .ofNat (drops.expired + more.expired) ∧
      after.stats.discarded = .ofNat (drops.full + more.full) ∧
      after.stats.qos0MemoryDropped = .ofNat (drops.memory + more.memory) ∧
      counts.notices.countP Notice.isFull = drops.full + more.full ∧
      counts.notices.countP (fun notice => !notice.isFull) = drops.memory + more.memory := by
  obtain ⟨expired, discarded, memoryDropped, full, memory⟩ := tallied
  rw [settled, Outbox.empty, List.countP_nil, Nat.zero_add] at full memory
  rw [dropped.expired, ← UInt64.ofNat_add] at expired
  rw [dropped.discarded, ← UInt64.ofNat_add] at discarded
  rw [dropped.qos0MemoryDropped, ← UInt64.ofNat_add] at memoryDropped
  refine ⟨expired, discarded, memoryDropped, ?_, ?_⟩
  · rw [Outbox.append, List.countP_append, dropped.full, full]
  · rw [Outbox.append, List.countP_append, dropped.memory, memory]

theorem step_balances (balances : Balances first gone world) (orderly : world.Orderly)
    (ahead : world.Ahead) {event : Event} (single : ∀ settings, event ≠ .restart settings) :
    Balances first (gone + world.emptiedBy event) (world.step event) := by
  obtain ⟨drops, dropped, books⟩ := balances
  cases event with
  | ask request =>
    obtain ⟨more, tallied, kept⟩ := Store.serve_accounts orderly.kept ahead.under request
    obtain ⟨expired, discarded, memoryDropped, full, memory⟩ := dropped.more orderly.settled tallied
    refine ⟨⟨drops.expired + more.expired, drops.full + more.full, drops.memory + more.memory⟩,
      ⟨expired, discarded, memoryDropped, full, memory⟩, ?_⟩
    have same : (world.step (.ask request)).store.held = (world.store.serve request).2.held := rfl
    rw [same]
    simp only [step, ask, emptiedBy, List.map_append, List.map_singleton, List.sum_append,
      List.sum_singleton]
    simp only [Store.Tally.total] at books kept ⊢
    omega
  | call => exact ⟨drops, { dropped with }, books⟩
  | tell index mood =>
    simp only [step, tell]
    split
    · exact ⟨drops, dropped, books⟩
    · rename_i bucket found
      refine ⟨drops, { dropped with }, ?_⟩
      -- what a journal is told changes no entry
      have same : Store.contents { world.store with
          buckets := world.store.buckets.setIfInBounds index
            { bucket with journal := bucket.journal.told mood } } = world.store.contents :=
        Store.contents_set_of_entries_eq found rfl rfl
      rw [Store.held] at books ⊢
      rw [same]
      exact books
  | restart settings => exact absurd rfl (single settings)

section Run
variable {settings later : Settings} {disk place : Disk} {store : Store}
  (opened : Store.inMemory settings disk = .ok store) (payloads : Payloads) {past : List Event}
  (again : Store.ofJournals later ((start store payloads).run past).store.journals place =
    .ok first)
include opened again

theorem anew_run {events : List Event}
    (few : ((((start store payloads).run past).anew first).run events).drawn < 2 ^ 63) :
    ((((start store payloads).run past).anew first).run events).Orderly ∧
      ((((start store payloads).run past).anew first).run events).Ahead := by
  have before := run_orderly opened payloads past
  obtain ⟨used, reopened⟩ :=
    Store.reopened_of_ofJournals (Store.forall_toList before.kept) again
  induction events using List.reverseRecOn with
  | nil =>
    have ahead := run_ahead opened payloads past few
    have moves : ((start store payloads).run past).Moves (.restart later) _ := .reopen reopened
    obtain ⟨begun, drawn, under⟩ := moves.ahead before.kept ahead few
    exact ⟨⟨reopened.kept (Store.blank_kept used place), reopened.outbox⟩, begun, drawn, under⟩
  | append_singleton events event ih =>
    rw [run_concat] at few ⊢
    have fewer := Nat.lt_of_le_of_lt (drawn_le_step _ event) few
    obtain ⟨orderly, ahead⟩ := ih fewer
    exact ⟨orderly.step event, step_ahead event orderly.kept (fun _ => ahead) few⟩

theorem run_balances {events : List Event} (single : ∀ settings, .restart settings ∉ events)
    (few : ((((start store payloads).run past).anew first).run events).drawn < 2 ^ 63) :
    Balances first ((((start store payloads).run past).anew first).emptied events)
      ((((start store payloads).run past).anew first).run events) := by
  induction events using List.reverseRecOn with
  | nil =>
    have before := run_orderly opened payloads past
    obtain ⟨used, reopened⟩ :=
      Store.reopened_of_ofJournals (Store.forall_toList before.kept) again
    have none : first.stats = .zero := reopened.stats
    exact ⟨⟨0, 0, 0⟩, ⟨congrArg Stats.expired none, congrArg Stats.discarded none,
      congrArg Stats.qos0MemoryDropped none, rfl, rfl⟩, rfl⟩
  | append_singleton events event ih =>
    rw [run_concat] at few ⊢
    rw [emptied_concat]
    have fewer := Nat.lt_of_le_of_lt (drawn_le_step _ event) few
    obtain ⟨orderly, ahead⟩ := anew_run opened payloads again fewer
    refine step_balances (ih ?_ fewer) orderly ahead ?_
    · intro settings member
      exact single settings (List.mem_append_left _ member)
    · rintro settings rfl
      exact single settings (List.mem_append_right _ List.mem_cons_self)

/-- In the life of a store that was opened over fresh journals or those of earlier stores, as long
as fewer than 2^63 numbers are drawn, every message is accounted for, and what was dropped for want
of room was reported: in words that wrap around, and in numbers as long as there were fewer than
2^64 messages. -/
theorem messages_accounted {events : List Event} (single : ∀ settings, .restart settings ∉ events)
    (few : ((((start store payloads).run past).anew first).run events).drawn < 2 ^ 63) :
    let fresh := ((start store payloads).run past).anew first
    let world := fresh.run events
    let counts := world.record.notices.foldl NoticeCounts.add .zero
    let stats := world.store.stats
    let came := first.held + (world.history.map admitted).sum
    let left := world.store.held + (world.history.map departed).sum + fresh.emptied events
    .ofNat came = .ofNat left + stats.expired + stats.discarded + stats.qos0MemoryDropped ∧
      stats.discarded = .ofNat counts.queueFull ∧
        stats.qos0MemoryDropped = .ofNat (counts.qos0Memory + counts.qos0MemoryShared) ∧
      (came < UInt64.size →
        came = left + stats.expired.toNat + stats.discarded.toNat + stats.qos0MemoryDropped.toNat ∧
          stats.discarded.toNat = counts.queueFull ∧
            stats.qos0MemoryDropped.toNat = counts.qos0Memory + counts.qos0MemoryShared) := by
  intro fresh world counts stats came left
  have balances : Balances first (fresh.emptied events) world :=
    run_balances opened payloads again single few
  obtain ⟨drops, ⟨expired, discarded, memoryDropped, full, memory⟩, books⟩ := balances
  obtain ⟨counted, heavier⟩ := NoticeCounts.zero.foldl_add world.record.notices
  have queueFull : drops.full = counts.queueFull := by
    rw [counted, full]
    exact (Nat.zero_add _).symm
  have qos0Memory : drops.memory = counts.qos0Memory + counts.qos0MemoryShared := by
    rw [heavier, memory]
    exact (Nat.zero_add _).symm
  have total : came = left + drops.expired + drops.full + drops.memory := by
    rw [Store.Tally.total] at books
    omega
  refine ⟨?_, ?_, ?_, ?_⟩
  · rw [total, UInt64.ofNat_add, UInt64.ofNat_add, UInt64.ofNat_add, ← expired, ← discarded,
      ← memoryDropped]
  · rw [← queueFull]
    exact discarded
  · rw [← qos0Memory]
    exact memoryDropped
  · intro below
    have expired : stats.expired.toNat = drops.expired :=
      (congrArg UInt64.toNat expired).trans (UInt64.toNat_ofNat_of_lt (by omega))
    have discarded : stats.discarded.toNat = drops.full :=
      (congrArg UInt64.toNat discarded).trans (UInt64.toNat_ofNat_of_lt (by omega))
    have memoryDropped : stats.qos0MemoryDropped.toNat = drops.memory :=
      (congrArg UInt64.toNat memoryDropped).trans (UInt64.toNat_ofNat_of_lt (by omega))
    rw [expired, discarded, memoryDropped]
    exact ⟨total, queueFull, qos0Memory⟩

end Run

/-- A client reads its queue, settles a message, fills the queue, and is forgotten. -/
def visit : List Event :=
  [.ask (.readNew .client [1, 2] 1000 0 0),
    .ask (.remove "c" 1 none 0),
    .ask (.add .client (.publish (.ofQos .atLeastOnce "u3" 3)) 1 .discard 0),
    .ask (.add .client (.publish (.ofQos .atLeastOnce "u4" 4)) 1 .discard 0),
    .ask (.clear .client 0)]

theorem messages_accounted_visit :
    let first := ((start .single .empty).run (sample.take 4)).store
    let fresh := ((start .single .empty).run (sample.take 3)).anew first
    let world := fresh.run visit
    let counts := world.record.notices.foldl NoticeCounts.add .zero
    let stats := world.store.stats
    let came := first.held + (world.history.map admitted).sum
    let left := world.store.held + (world.history.map departed).sum + fresh.emptied visit
    (came = left + stats.expired.toNat + stats.discarded.toNat + stats.qos0MemoryDropped.toNat ∧
      stats.discarded.toNat = counts.queueFull ∧
        stats.qos0MemoryDropped.toNat = counts.qos0Memory + counts.qos0MemoryShared) ∧
      first.held = 2 ∧ (world.history.map admitted).sum = 2 ∧
        (world.history.map departed).sum = 2 ∧ fresh.emptied visit = 1 ∧
          counts.queueFull = 1 := by
  have again : Store.ofJournals .single ((start .single .empty).run (sample.take 3)).store.journals
      Disk.empty = .ok ((start .single .empty).run (sample.take 4)).store := by
    decide +kernel
  have single : ∀ settings, .restart settings ∉ visit := by
    intro settings
    simp [visit]
  have few : ((((start .single .empty).run (sample.take 3)).anew
      ((start .single .empty).run (sample.take 4)).store).run visit).drawn < 2 ^ 63 := by
    decide +kernel
  obtain ⟨-, -, -, accounted⟩ := messages_accounted Store.inMemory_single .empty again single few
  refine ⟨accounted ?_, ?_⟩
  · decide +kernel
  · decide +kernel

/-- A client adds a message to a queue that is to hold none. -/
def barred : Request := .add .client (.publish (.ofQos .atLeastOnce "u1" 1)) 0 .discard 0

/-- What is left once so many messages were turned away, and nothing else was asked for. -/
structure Barred (count : Nat) (world : World) : Prop where
  store : world.store = { Store.single with stats.discarded := .ofNat count }
  drawn : world.drawn = 0
  admitted : (world.history.map admitted).sum = count
  departed : (world.history.map departed).sum = 0
  notices : world.record.notices.countP Notice.isFull = count

theorem run_barred (count : Nat) : Barred count
    ((((start .single .empty).run []).anew .single).run (List.replicate count (.ask barred))) := by
  induction count with
  | zero => exact ⟨rfl, rfl, rfl, rfl, rfl⟩
  | succ count ih =>
    obtain ⟨store, drawn, came, left, notices⟩ := ih
    rw [List.replicate_succ', run_concat]
    generalize World.run _ (List.replicate count (.ask barred)) = world at *
    have served : world.store.serve barred = (.done (.ok ()),
        world.store.turnAway .client (.ofQos .atLeastOnce "u1" 1)) := by
      rw [store]
      rfl
    simp only [step, ask, served]
    constructor
    · rw [store, UInt64.ofNat_add]
      rfl
    · rw [drawn, Nat.zero_add]
      exact congrArg UInt64.toNat (UInt64.sub_self world.store.sequence.next)
    · rw [List.map_append, List.sum_append, came]
      rfl
    · rw [List.map_append, List.sum_append, left]
      rfl
    · rw [Outbox.append, List.countP_append, notices, store]
      rfl

theorem emptied_barred (world : World) (count : Nat) :
    world.emptied (List.replicate count (.ask barred)) = 0 := by
  induction count generalizing world with
  | zero => rfl
  | succ count ih => exact (congrArg (_ + ·) (ih (world.step (.ask barred)))).trans rfl

/-- Once so many messages were turned away that the count is back at zero, none of them is accounted
for. -/
theorem unaccounted {count : Nat} (wraps : UInt64.ofNat count = 0) (some : count ≠ 0) :
    let events := List.replicate count (.ask barred)
    let fresh := ((start .single .empty).run []).anew .single
    let world := fresh.run events
    let counts := world.record.notices.foldl NoticeCounts.add .zero
    let stats := world.store.stats
    (∀ settings, .restart settings ∉ events) ∧ world.drawn < 2 ^ 63 ∧
      Store.single.held + (world.history.map admitted).sum ≠
        world.store.held + (world.history.map departed).sum + fresh.emptied events +
          stats.expired.toNat + stats.discarded.toNat + stats.qos0MemoryDropped.toNat ∧
      stats.discarded.toNat ≠ counts.queueFull := by
  intro events fresh world counts stats
  obtain ⟨store, drawn, came, left, notices⟩ : Barred count world := run_barred count
  have none : stats = .zero := by
    rw [show stats = world.store.stats from rfl, store, wraps]
    rfl
  have first : Store.single.held = 0 := by decide +kernel
  have held : world.store.held = 0 := by
    rw [store]
    exact first
  have emptied : fresh.emptied events = 0 := emptied_barred fresh count
  refine ⟨?_, ?_, ?_, ?_⟩
  · intro settings member
    cases List.eq_of_mem_replicate member
  · rw [drawn]
    decide
  · rw [came, left, held, first, emptied, none, Nat.zero_add]
    exact some
  · rw [none, (NoticeCounts.zero.foldl_add world.record.notices).1, notices]
    exact fun same => some ((Nat.zero_add count).symm.trans same.symm)

/-- The counts wrap around. -/
theorem messages_unaccounted :
    let events := List.replicate (2 ^ 64) (.ask barred)
    let fresh := ((start .single .empty).run []).anew .single
    let world := fresh.run events
    let counts := world.record.notices.foldl NoticeCounts.add .zero
    let stats := world.store.stats
    Store.inMemory .single .empty = .ok .single ∧
      Store.ofJournals .single ((start .single .empty).run []).store.journals .empty =
        .ok .single ∧
      (∀ settings, .restart settings ∉ events) ∧ world.drawn < 2 ^ 63 ∧
      Store.single.held + (world.history.map admitted).sum ≠
        world.store.held + (world.history.map departed).sum + fresh.emptied events +
          stats.expired.toNat + stats.discarded.toNat + stats.qos0MemoryDropped.toNat ∧
      stats.discarded.toNat ≠ counts.queueFull :=
  ⟨rfl, rfl, unaccounted (by decide) (by decide)⟩

end World

end DeliveryQueue
