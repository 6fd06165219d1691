import DeliveryQueue.Proofs.Fate
import DeliveryQueue.Proofs.Reading

/-!
Reading messages in flight again (`Store.readInFlight_takes_longest`). What is in flight in a queue
stands in one order, PUBRELs first, and the longest run of it that can be afforded is sent again,
the messages under their own ids. What a reading has just put in flight is among it.
-/
namespace DeliveryQueue

/-- An entry is sent again as this: a message under its own id and marked as a duplicate, a message
that some consumer has taken under none. -/
inductive Resends : Entry → InFlight → Prop
  | publish {stored : StoredPublish} {id : UInt16} (carries : stored.packetId = some id) :
      Resends (.publish stored) (.publish { stored.toPublish id with duplicate := true })
  | pubrel (id : UInt16) : Resends (.pubrel id) (.pubrel id)
  | taken (stored : StoredPublish) : Resends (.taken stored) (.taken (stored.toPublish noPacketId))

theorem Resends.inFlight?_eq {entry : Entry} {message : InFlight}
    (resends : Resends entry message) : entry.inFlight? = some message := by
  cases resends with
  | publish carries => rw [Entry.inFlight?, carries]; rfl
  | pubrel | taken => rfl

theorem exists_resends {entry : Entry} (flies : entry.isNew = false) :
    ∃ message, Resends entry message := by
  cases entry with
  | pubrel id => exact ⟨_, .pubrel id⟩
  | taken stored => exact ⟨_, .taken stored⟩
  | publish stored =>
    cases carries : stored.packetId with
    | none => simp [Entry.isNew, carries] at flies
    | some id => exact ⟨_, .publish carries⟩

namespace Line

/-- What may be sent again in one go: not more messages than asked for, and not more bytes than the
limit, unless it is a single message. -/
structure Resendable (maxCount : Nat) (byteLimit : UInt64) (batch : Line) : Prop where
  count : batch.length ≤ maxCount
  bytes : batch.length ≤ 1 ∨ bytes batch ≤ byteLimit.toNat

/-- In the order in which entries in flight are sent again: PUBRELs, then messages, each in the
order of their sequence numbers. -/
def InTurn (line : Line) : Prop :=
  line.Pairwise fun a b => a.2.isPubrel = true ∧ b.2.isPubrel = false ∨
    a.2.isPubrel = b.2.isPubrel ∧ a.1.sequence < b.1.sequence

/-- The entries in flight, PUBRELs first. -/
def flying (line : Line) : Line :=
  line.filter (fun e => e.2.isPubrel) ++ line.filter fun e => !e.2.isPubrel && !e.2.isNew

theorem mem_flying {line : Line} {e : EntryKey × Entry} :
    e ∈ line.flying ↔ e ∈ line ∧ e.2.isNew = false := by
  have given (released : e.2.isPubrel = true) : e.2.isNew = false := by
    cases its : e.2 <;> simp_all [Entry.isPubrel, Entry.isNew]
  rw [flying, List.mem_append, List.mem_filter, List.mem_filter, ← and_or_left]
  refine and_congr_right fun _ => ?_
  cases released : e.2.isPubrel with
  | true => simp [given released]
  | false => simp

theorem inTurn_flying {line : Line} (ascending : line.Ascending) : line.flying.InTurn := by
  refine List.pairwise_append.mpr ⟨?_, ?_, ?_⟩
  · refine (ascending.filter _).imp_of_mem ?_
    intro a b first second before
    have one := (List.mem_filter.mp first).2
    have two := (List.mem_filter.mp second).2
    exact .inr ⟨one.trans two.symm, before⟩
  · refine (ascending.filter _).imp_of_mem ?_
    intro a b first second before
    have one := (Bool.and_eq_true_iff.mp (List.mem_filter.mp first).2).1
    have two := (Bool.and_eq_true_iff.mp (List.mem_filter.mp second).2).1
    exact .inr ⟨Bool.not_inj (one.trans two.symm), before⟩
  · intro a first b second
    have one := (List.mem_filter.mp first).2
    have two := (Bool.and_eq_true_iff.mp (List.mem_filter.mp second).2).1
    exact .inl ⟨one, by simpa using two⟩

/-- Nothing but what is in flight weighs. -/
theorem bytes_flying_le (line : Line) : bytes line.flying ≤ bytes line := by
  induction line with
  | nil => exact Nat.le_refl 0
  | cons e line ih =>
    have parts (line : Line) : bytes line.flying = bytes (line.filter fun e => e.2.isPubrel) +
        bytes (line.filter fun e => !e.2.isPubrel && !e.2.isNew) := by
      rw [bytes, flying, List.map_append, List.sum_append]
      rfl
    rw [parts] at ih ⊢
    have first (line : Line) : bytes (e :: line) = e.2.size.toNat + bytes line := List.sum_cons
    cases released : e.2.isPubrel <;> cases waits : e.2.isNew <;>
      simp only [List.filter_cons, released, waits, Bool.not_true, Bool.not_false, Bool.and_true,
        Bool.and_false, if_true, Bool.false_eq_true, if_false, first] <;> omega

end Line

namespace Store

theorem inFlightEntries_eq (bucket : Bucket) (queue : QueueKey) :
    inFlightEntries bucket queue = (Line.flying (bucket.queueEntries queue)).map Prod.snd := by
  rw [inFlightEntries, Line.flying, List.map_append, List.filter_map, List.filter_map]
  rfl

theorem Allowance.covers_iff_resendable {maxCount : Nat} {byteLimit : UInt64}
    {overflow : Overflow} {batch : Line} :
    Covers true ⟨maxCount, [], none, byteLimit, overflow⟩ batch ↔
      batch.Resendable maxCount byteLimit := by
  have bytes : (0 : UInt64).toNat + Line.bytes batch = Line.bytes batch := Nat.zero_add _
  constructor
  · rintro ⟨count, _, small⟩
    exact ⟨count, by simpa [bytes] using small⟩
  · rintro ⟨count, small⟩
    exact ⟨count, fun unshared => (Bool.false_ne_true unshared.symm).elim,
      by simpa [bytes] using small⟩

/-- Entries in flight are sent again as far as the allowance goes. -/
theorem resend_takes {line : Line} (flying : ∀ e ∈ line, e.2.isNew = false) (allowance : Allowance)
    (room : (allowance.bytes.getD 0).toNat + Line.bytes line < UInt64.size) :
    ∃ taken messages, resend allowance (line.map Prod.snd) = some messages ∧ taken <+: line ∧
      allowance.Covers true taken ∧
      (∀ batch, batch <+: line → allowance.Covers true batch → batch <+: taken) ∧
      List.Forall₂ (fun e message => Resends e.2 message) taken messages := by
  induction line generalizing allowance with
  | nil =>
    exact ⟨[], [], rfl, List.nil_prefix, Allowance.covers_nil true allowance,
      fun _ inside _ => inside, .nil⟩
  | cons e rest ih =>
    obtain ⟨flies, others⟩ := List.forall_mem_cons.mp flying
    have parts : Line.bytes (e :: rest) = e.2.size.toNat + Line.bytes rest := List.sum_cons
    rw [parts] at room
    have covers {batch : Line} : allowance.Covers true (e :: batch) ↔ _ :=
      Allowance.covers_cons (by omega)
    have calm : allowance.panics e.2.size = false := Allowance.panics_eq_false (by omega)
    rw [List.map_cons]
    by_cases ends : allowance.count = 0 ∨ allowance.affords e.2.size = false
    · have nothing : resend allowance (e.2 :: rest.map Prod.snd) = some [] := by
        rcases ends with none | dear
        · simp [resend, none]
        · simp [resend, calm, dear]
      refine ⟨[], [], nothing, List.nil_prefix, Allowance.covers_nil true allowance, ?_, .nil⟩
      intro batch inside enough
      cases batch with
      | nil => exact List.nil_prefix
      | cons first batch =>
        obtain ⟨rfl, _⟩ := List.cons_prefix_cons.mp inside
        obtain ⟨some, affords, _⟩ := covers.mp enough
        rcases ends with none | dear
        · exact absurd none some
        · exact absurd (dear.symm.trans affords) Bool.false_ne_true
    · obtain ⟨some, affords⟩ := not_or.mp ends
      have cheap : allowance.affords e.2.size = true := by simpa using affords
      obtain ⟨message, resends⟩ := exists_resends flies
      have left : allowance.after true e.2 = allowance.spend e.2.size := if_pos (.inr rfl)
      have more : resend allowance (e.2 :: rest.map Prod.snd) =
          (message :: ·) <$> resend (allowance.after true e.2) (rest.map Prod.snd) := by
        simp only [resend, some, calm, cheap, resends.inFlight?_eq, left, if_false,
          Bool.false_eq_true, Bool.true_eq_false]
      have less : ((allowance.after true e.2).bytes.getD 0).toNat + Line.bytes rest <
          UInt64.size := by
        rw [Allowance.bytes_after, Option.getD_some, UInt64.toNat_add]
        have wrapped := Nat.mod_le ((allowance.bytes.getD 0).toNat + e.2.size.toNat) (2 ^ 64)
        omega
      obtain ⟨taken, messages, again, inside, enough, longest, sent⟩ := ih others _ less
      refine ⟨e :: taken, message :: messages, by rw [more, again]; rfl,
        (List.prefix_cons_inj e).mpr inside, covers.mpr ⟨some, cheap, .inr (.inl rfl), enough⟩, ?_,
        .cons resends sent⟩
      intro batch within covered
      cases batch with
      | nil => exact List.nil_prefix
      | cons first batch =>
        obtain ⟨rfl, behind⟩ := List.cons_prefix_cons.mp within
        have others := (covers.mp covered).2.2.2
        exact (List.prefix_cons_inj first).mpr (longest batch behind others)

variable {store : Store} {index : Nat} {bucket : Bucket} {queue : QueueKey}

/-- A message of QoS 1 or 2 that a reading has handed out to a client is in flight in the queue, and
is sent again under the same id. -/
theorem resent_of_readNew {before : Store} (kept : before.Kept) (client : queue.shared = false)
    {pool : List UInt16} {byteLimit now : UInt64} {given : List Publish}
    (answered : before.readNew queue pool byteLimit now index = (.ok given, store))
    (opened : store.bucket index = .ok bucket) {message : Publish} (member : message ∈ given)
    (acknowledged : message.qos ≠ .atMostOnce) :
    ∃ e ∈ Line.flying (bucket.queueEntries queue),
      e.2.inFlight? = some (.publish { message with duplicate := true }) := by
  have read : (before.readNew queue pool byteLimit now index).1 = .ok given :=
    congrArg Prod.fst answered
  obtain ⟨keys, _, handed⟩ := readNew_hands kept read
  have mine : message ∈ given.filter fun message => message.qos ≠ .atMostOnce :=
    List.mem_filter.mpr ⟨member, decide_eq_true acknowledged⟩
  obtain ⟨key, _, stored, hands⟩ := exists_of_forall₂ handed mine
  have flies := hands.flies
  rw [answered, entryAt_of_getElem? (getElem?_of_bucket opened)] at flies
  refine ⟨(key, stored.inFlight queue.shared message.packetId), Line.mem_flying.mpr
    ⟨mem_queueEntries.mpr ⟨flies, hands.its⟩, ?_⟩, ?_⟩
  · rw [client]
    rfl
  · rw [client, hands.content]
    rfl

section Resending
variable (opened : store.bucket index = .ok bucket)
  (light : Line.bytes (bucket.queueEntries queue) < UInt64.size)
include opened light

/-- As much of what is in flight is read again as the limits admit. -/
theorem readInFlight_takes (maxCount : Nat) (byteLimit : UInt64) :
    ∃ (taken : Line) (messages : List InFlight),
      store.readInFlight queue maxCount byteLimit index = .ok messages ∧
      taken <+: Line.flying (bucket.queueEntries queue) ∧
      Line.Resendable maxCount byteLimit taken ∧
      (∀ batch, batch <+: Line.flying (bucket.queueEntries queue) →
        Line.Resendable maxCount byteLimit batch → batch <+: taken) ∧
      List.Forall₂ (fun e message => Resends e.2 message) taken messages := by
  have room : (0 : UInt64).toNat + Line.bytes (Line.flying (bucket.queueEntries queue)) <
      UInt64.size := by
    simpa using Nat.lt_of_le_of_lt (Line.bytes_flying_le _) light
  obtain ⟨taken, messages, again, inside, covers, longest, sent⟩ :=
    resend_takes (fun e member => (Line.mem_flying.mp member).2)
      ⟨maxCount, [], none, byteLimit, store.settings.overflow⟩ room
  refine ⟨taken, messages, ?_, inside, Allowance.covers_iff_resendable.mp covers, ?_, sent⟩
  · rw [← inFlightEntries_eq] at again
    simp only [readInFlight, opened, again]
  · intro batch within affordable
    exact longest batch within (Allowance.covers_iff_resendable.mpr affordable)

/-- Where the limits admit all that is in flight, all of it is read again. -/
theorem readInFlight_takes_all {maxCount : Nat} {byteLimit : UInt64}
    (many : (Line.flying (bucket.queueEntries queue)).length ≤ maxCount)
    (wide : Line.bytes (Line.flying (bucket.queueEntries queue)) ≤ byteLimit.toNat) :
    ∃ messages, store.readInFlight queue maxCount byteLimit index = .ok messages ∧
      List.Forall₂ (fun e message => Resends e.2 message)
        (Line.flying (bucket.queueEntries queue)) messages := by
  obtain ⟨taken, messages, answered, inside, -, longest, sent⟩ :=
    readInFlight_takes opened light maxCount byteLimit
  have all := longest _ List.prefix_rfl ⟨many, .inr wide⟩
  obtain rfl := inside.eq_of_length (Nat.le_antisymm inside.length_le all.length_le)
  exact ⟨messages, answered, sent⟩

end Resending

/-- Reading again answers the longest run that can be afforded of what is in flight, in its order,
and leaves the store alone. -/
theorem readInFlight_takes_longest (opened : store.bucket index = .ok bucket) (queue : QueueKey)
    (light : Line.bytes (bucket.queueEntries queue) < UInt64.size) :
    let flying := Line.flying (bucket.queueEntries queue)
    Line.InTurn flying ∧
      (∀ key entry, (key, entry) ∈ flying ↔
        bucket.entries.get? key = some entry ∧ key.queue = queue ∧ entry.isNew = false) ∧
      (∀ (maxCount : Nat) (byteLimit : UInt64), ∃ (taken : Line) (messages : List InFlight),
        store.serve (.readInFlight queue maxCount byteLimit index) =
          (.inFlight (.ok messages), store) ∧
        taken <+: flying ∧ Line.Resendable maxCount byteLimit taken ∧
        (∀ batch, batch <+: flying → Line.Resendable maxCount byteLimit batch → batch <+: taken) ∧
        List.Forall₂ (fun e message => Resends e.2 message) taken messages) ∧
      (∀ (before : Store) (pool : List UInt16) (limit now : UInt64) (given : List Publish),
        before.Reached → queue.shared = false →
        before.readNew queue pool limit now index = (.ok given, store) →
        ∀ (maxCount : Nat) (byteLimit : UInt64), flying.length ≤ maxCount →
          Line.bytes flying ≤ byteLimit.toNat →
          ∃ messages, store.readInFlight queue maxCount byteLimit index = .ok messages ∧
            ∀ message ∈ given, message.qos ≠ .atMostOnce →
              InFlight.publish { message with duplicate := true } ∈ messages) := by
  intro flying
  refine ⟨Line.inTurn_flying (bucket.ascending_queueEntries queue), ?_, ?_, ?_⟩
  · intro key entry
    rw [Line.mem_flying, mem_queueEntries, and_assoc]
  · intro maxCount byteLimit
    obtain ⟨taken, messages, answered, takes⟩ := readInFlight_takes opened light maxCount byteLimit
    refine ⟨taken, messages, ?_, takes⟩
    rw [serve, answered]
  · intro before pool limit now given reached client handed maxCount byteLimit many wide
    obtain ⟨messages, answered, sent⟩ := readInFlight_takes_all opened light many wide
    refine ⟨messages, answered, ?_⟩
    intro message member acknowledged
    obtain ⟨e, there, again⟩ :=
      resent_of_readNew reached.kept client handed opened member acknowledged
    obtain ⟨copy, listed, resends⟩ := exists_of_forall₂ sent there
    cases again.symm.trans resends.inFlight?_eq
    exact listed

/-- One message was released, another is in flight, and two are to be read. -/
def resumable : Store :=
  let message (qos : Qos) (payload : UInt64) := Request.add .client
    (.publish { Publish.ofQos qos "u" payload with size := 40 }) 10 .discard 0
  ((World.start .single .empty).run
    [.ask (message .atLeastOnce 1), .ask (message .exactlyOnce 2),
      .ask (.readNew .client [3, 4] 100 0 0), .ask (.replace QueueKey.client.id 4 0),
      .ask (message .atLeastOnce 5), .ask (message .exactlyOnce 6)]).store

/-- What the reading leaves. -/
def resumed : Store := (resumable.readNew .client [7, 8] 100 0 0).2

/-- The PUBREL comes first, and the byte limit admits two of the three messages. With no limit that
matters, both messages of the reading are there. -/
theorem readInFlight_takes_longest_resumed :
    (∃ messages, resumed.serve (.readInFlight .client 4 100 0) =
        (.inFlight (.ok messages), resumed) ∧
      messages = [.pubrel 4,
        .publish { Publish.ofQos .atLeastOnce "u" 1 with
          packetId := 3, size := 40, duplicate := true },
        .publish { Publish.ofQos .atLeastOnce "u" 5 with
          packetId := 7, size := 40, duplicate := true }]) ∧
    ∃ given messages, (resumable.readNew .client [7, 8] 100 0 0).1 = .ok given ∧
      given.map Publish.packetId = [7, 8] ∧
      resumed.readInFlight .client 4 1000 0 = .ok messages ∧
      ∀ message ∈ given, message.qos ≠ .atMostOnce →
        InFlight.publish { message with duplicate := true } ∈ messages := by
  have reached : resumable.Reached :=
    ⟨.single, .empty, .single, .empty, _, Store.inMemory_single, rfl⟩
  have fine : (resumed.bucket 0).toOption.any (fun bucket =>
      decide (Line.bytes (bucket.queueEntries .client) < UInt64.size ∧
        (Line.flying (bucket.queueEntries .client)).length ≤ 4 ∧
        Line.bytes (Line.flying (bucket.queueEntries .client)) ≤ 1000)) = true := by
    decide +kernel
  obtain ⟨bucket, opened, fine⟩ := exists_bucket fine
  obtain ⟨light, many, wide⟩ := of_decide_eq_true fine
  obtain ⟨_, _, takes, again⟩ := readInFlight_takes_longest opened .client light
  constructor
  · obtain ⟨_, messages, answered, _⟩ := takes 4 100
    refine ⟨messages, answered, ?_⟩
    have same : resumed.readInFlight .client 4 100 0 = .ok messages := by
      simpa [serve] using congrArg Prod.fst answered
    have read : (resumed.readInFlight .client 4 100 0).toOption = some [.pubrel 4,
        .publish { Publish.ofQos .atLeastOnce "u" 1 with
          packetId := 3, size := 40, duplicate := true },
        .publish { Publish.ofQos .atLeastOnce "u" 5 with
          packetId := 7, size := 40, duplicate := true }] := by decide +kernel
    rw [same] at read
    exact Option.some.inj read
  · have answered : (resumable.readNew .client [7, 8] 100 0 0).1.toOption.map
        (List.map Publish.packetId) = some [7, 8] := by decide +kernel
    cases given : (resumable.readNew .client [7, 8] 100 0 0).1 with
    | error fault =>
      rw [given] at answered
      cases answered
    | ok messages =>
      rw [given] at answered
      obtain ⟨copies, listed, all⟩ := again resumable [7, 8] 100 0 messages reached rfl
        (Prod.ext given rfl) 4 1000 many wide
      exact ⟨messages, copies, rfl, Option.some.inj answered, listed, all⟩

end Store

end DeliveryQueue
