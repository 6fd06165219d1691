import DeliveryQueue.Proofs.Resending

/-!
Byte limits over messages of any size. A reading adds up what it hands out in a 64-bit word. Where
sums wrap, it knows the sum modulo 2^64 only, and hands out a front of what it would hand out under
the largest limit: its byte limits hold exactly if all that it could hand out weighs less than 2^64
bytes (`Store.byte_limits_heeded_iff`). Where sums panic, it does so in place of going on beyond a
word.
-/
namespace DeliveryQueue

/-- What a message weighs when it is sent again. -/
def InFlight.size : InFlight → UInt64
  | publish message | taken message => message.size
  | pubrel _ => pubrelSize

theorem InFlight.size_of_inFlight? {entry : Entry} {message : InFlight}
    (sent : entry.inFlight? = some message) : message.size = entry.size := by
  cases entry with
  | publish stored =>
    obtain ⟨id, _, rfl⟩ := Option.map_eq_some_iff.mp sent
    rfl
  | pubrel | taken =>
    cases sent
    rfl

namespace Store

section Limits
variable {α : Type} {size : α → UInt64} {answers : UInt64 → Except QueueFault (List α)}

/-- The bytes of messages, as many as they are. -/
def bytesOf (size : α → UInt64) (messages : List α) : Nat :=
  (messages.map fun message => (size message).toNat).sum

/-- The largest byte limit. -/
def noLimit : UInt64 := 0xFFFFFFFFFFFFFFFF

theorem le_noLimit (bytes : UInt64) : bytes ≤ noLimit := by
  have last : noLimit.toNat + 1 = UInt64.size := rfl
  have bound := bytes.toNat_lt_size
  rw [UInt64.le_iff_toNat_le]
  omega

/-- More than one message is answered within the byte limit only. -/
def Heeded (size : α → UInt64) (answers : UInt64 → Except QueueFault (List α)) : Prop :=
  ∀ byteLimit messages, answers byteLimit = .ok messages → 1 < messages.length →
    bytesOf size messages ≤ byteLimit.toNat

/-- The byte limit counts in words, and lets a front pass of what the largest one lets pass. -/
structure CountsInWords (size : α → UInt64) (answers : UInt64 → Except QueueFault (List α)) :
    Prop where
  wraps : ∀ ⦃byteLimit messages⦄, answers byteLimit = .ok messages → 1 < messages.length →
    bytesOf size messages % UInt64.size ≤ byteLimit.toNat
  front : ∀ ⦃byteLimit messages all⦄, answers byteLimit = .ok messages →
    answers noLimit = .ok all → messages <+: all

namespace CountsInWords

/-- A reading keeps its limit exactly if what it hands out fits a word. -/
theorem within_iff (counts : CountsInWords size answers) {byteLimit : UInt64} {messages : List α}
    (answered : answers byteLimit = .ok messages) (several : 1 < messages.length) :
    bytesOf size messages ≤ byteLimit.toNat ↔ bytesOf size messages < UInt64.size := by
  constructor
  · intro within
    exact Nat.lt_of_le_of_lt within byteLimit.toNat_lt_size
  · intro light
    have wraps := counts.wraps answered several
    rwa [Nat.mod_eq_of_lt light] at wraps

/-- All limits are kept exactly if all that can be handed out fits a word. -/
theorem heeded_iff (counts : CountsInWords size answers) {all : List α}
    (answered : answers noLimit = .ok all) :
    Heeded size answers ↔ (1 < all.length → bytesOf size all < UInt64.size) := by
  constructor
  · intro heeded several
    exact (counts.within_iff answered several).mp (heeded noLimit all answered several)
  · intro light byteLimit messages limited several
    obtain ⟨rest, rfl⟩ := counts.front limited answered
    refine (counts.within_iff limited several).mpr ?_
    have all := light (by rw [List.length_append]; omega)
    rw [bytesOf, List.map_append, List.sum_append] at all
    exact Nat.lt_of_le_of_lt (Nat.le_add_right _ _) all

end CountsInWords

end Limits

namespace Allowance

variable {allowance : Allowance} {bytes : UInt64} {sizes : List UInt64}

/-- What was taken so far and these sizes are within the byte limit as far as a word can tell. The
first message of all is. -/
def Admits (allowance : Allowance) (sizes : List UInt64) : Prop :=
  sizes.length ≤ (if allowance.bytes.isNone then 1 else 0) ∨
    ((allowance.bytes.getD 0).toNat + (sizes.map UInt64.toNat).sum) % UInt64.size ≤
      allowance.byteLimit.toNat

theorem admits_nil (allowance : Allowance) : allowance.Admits [] := .inl (Nat.zero_le _)

/-- A message that is affordable is admitted in front of those that are admitted after it. -/
theorem Admits.cons (affords : allowance.affords bytes = true)
    (rest : (allowance.spend bytes).Admits sizes) : allowance.Admits (bytes :: sizes) := by
  have spent : ((allowance.spend bytes).bytes.getD 0).toNat =
      ((allowance.bytes.getD 0).toNat + bytes.toNat) % UInt64.size := UInt64.toNat_add ..
  rcases rest with none | within
  · obtain rfl := List.length_eq_zero_iff.mp (Nat.le_zero.mp none)
    cases used : allowance.bytes with
    | none => exact .inl (by simp [used])
    | some before =>
      rw [Allowance.affords, used, decide_eq_true_eq, UInt64.le_iff_toNat_le,
        UInt64.toNat_add] at affords
      exact .inr (by simpa [used] using affords)
  · rw [spent, Nat.mod_add_mod, Nat.add_assoc] at within
    exact .inr within

/-- The allowance without a byte limit that matters. -/
def boundless (allowance : Allowance) : Allowance := { allowance with byteLimit := noLimit }

theorem affords_boundless (allowance : Allowance) (bytes : UInt64) :
    allowance.boundless.affords bytes = true := by
  unfold affords boundless
  cases allowance.bytes with
  | none => rfl
  | some before => exact decide_eq_true (le_noLimit _)

/-- The allowance in a build whose sums wrap. -/
def wrapping (allowance : Allowance) : Allowance := { allowance with overflow := .wraps }

/-- Where sums panic, what was taken so far and one more message weigh less than 2^64 bytes if they
do not. -/
theorem light_of_calm (checked : allowance.overflow = .panics)
    (calm : allowance.panics bytes = false) :
    (allowance.bytes.getD 0).toNat + bytes.toNat < UInt64.size := by
  simp only [panics, checked, decide_true, Bool.true_and] at calm
  cases used : allowance.bytes with
  | none => simpa using bytes.toNat_lt_size
  | some before => simpa [used] using calm

theorem toNat_spend (checked : allowance.overflow = .panics)
    (calm : allowance.panics bytes = false) :
    ((allowance.spend bytes).bytes.getD 0).toNat =
      (allowance.bytes.getD 0).toNat + bytes.toNat := by
  have spent : ((allowance.spend bytes).bytes.getD 0).toNat =
      ((allowance.bytes.getD 0).toNat + bytes.toNat) % UInt64.size := UInt64.toNat_add ..
  rw [spent, Nat.mod_eq_of_lt (light_of_calm checked calm)]

end Allowance

/-! Reading for the first time -/

theorem admits_deliver (shared : Bool) (now : UInt64) (allowance : Allowance) (line : Line) :
    allowance.Admits ((deliver shared now allowance line).messages.map Publish.size) := by
  -- one case for each way that an entry can go, as `deliver` tells them apart
  fun_induction deliver shared now allowance line with
  | case1 | case2 | case5 | case6 | case9 => exact Allowance.admits_nil _
  | case3 _ _ _ _ _ _ ih | case4 _ _ _ _ _ _ _ ih | case11 _ _ _ _ _ _ ih => exact ih
  | case7 _ _ _ _ _ _ _ _ affords _ _ ih | case8 _ _ _ _ _ _ _ _ affords _ _ _ ih
  | case10 _ _ _ _ _ _ _ _ affords _ _ _ _ _ _ ih =>
    exact .cons (by simpa [StoredPublish.toPublish] using affords) ih

/-- A smaller byte limit only ends a reading earlier. -/
theorem prefix_deliver (shared : Bool) (now : UInt64) (allowance : Allowance) (line : Line) :
    (deliver shared now allowance line).messages <+:
      (deliver shared now allowance.boundless line).messages := by
  have enough := Allowance.affords_boundless
  have count (allowance : Allowance) : allowance.boundless.count = allowance.count := rfl
  have panics (allowance : Allowance) (bytes : UInt64) :
      allowance.boundless.panics bytes = allowance.panics bytes := rfl
  have spent (allowance : Allowance) (bytes : UInt64) :
      allowance.boundless.spend bytes = (allowance.spend bytes).boundless := rfl
  -- one case for each way that an entry can go, as `deliver` tells them apart
  fun_induction deliver shared now allowance line with
  | case1 | case2 | case5 | case6 | case9 => exact List.nil_prefix
  | case3 allowance key rest some stored flies ih =>
    simpa [deliver, count, some, flies] using ih
  | case4 allowance key rest some stored waits late ih =>
    simpa [deliver, count, some, waits, late, Delivery.expire] using ih
  | case7 allowance key rest some stored waits fresh calm _ left once ih =>
    simpa [deliver, count, some, waits, fresh, panics, calm, enough, once, spent, Delivery.hand]
      using ih
  | case8 allowance key rest some stored waits fresh calm _ left acknowledged shared ih =>
    simpa [deliver, count, some, waits, fresh, panics, calm, enough, acknowledged, shared, spent,
      Delivery.hand] using ih
  | case10 allowance key rest some stored waits fresh calm _ left acknowledged unshared id ids free
      ih =>
    have next : allowance.boundless.ids = id :: ids := free
    have same : deliver shared now allowance.boundless ((key, .publish stored) :: rest) =
        (deliver shared now (Allowance.boundless { left with ids }) rest).hand
          (.assign key (.some id)) (stored.toPublish id) := by
      simp only [deliver, count, some, waits, fresh, panics, calm, enough, acknowledged, unshared,
        next]
      rfl
    rw [same]
    exact (List.prefix_cons_inj (stored.toPublish id)).mpr ih
  | case11 allowance key entry rest some other ih =>
    cases entry with
    | publish stored => exact (other stored rfl).elim
    | pubrel | taken => simpa [deliver, count, some] using ih

/-- A reading that does not panic does not show that it could have. -/
theorem deliver_wrapping {shared : Bool} {now : UInt64} {allowance : Allowance} {line : Line}
    (calm : (deliver shared now allowance line).panics = false) :
    deliver shared now allowance.wrapping line = deliver shared now allowance line := by
  have count (allowance : Allowance) : allowance.wrapping.count = allowance.count := rfl
  have affords (allowance : Allowance) (bytes : UInt64) :
      allowance.wrapping.affords bytes = allowance.affords bytes := rfl
  have never (allowance : Allowance) (bytes : UInt64) :
      allowance.wrapping.panics bytes = false := rfl
  have spent (allowance : Allowance) (bytes : UInt64) :
      allowance.wrapping.spend bytes = (allowance.spend bytes).wrapping := rfl
  -- one case for each way that an entry can go, as `deliver` tells them apart
  fun_induction deliver shared now allowance line with
  | case1 => rfl
  | case2 allowance key entry rest none => simp [deliver, count, none]
  | case3 allowance key rest some stored flies ih =>
    simpa [deliver, count, some, flies] using ih calm
  | case4 allowance key rest some stored waits late ih =>
    simpa [deliver, count, some, waits, late] using congrArg (·.expire key) (ih calm)
  | case5 => cases calm
  | case6 allowance key rest some stored waits fresh _ dear =>
    simp [deliver, count, some, waits, fresh, never, affords, dear]
  | case7 allowance key rest some stored waits fresh _ cheap left once ih =>
    simpa [deliver, count, some, waits, fresh, never, affords, cheap, once, spent] using
      congrArg (·.hand (.delete key) (stored.toPublish noPacketId)) (ih calm)
  | case8 allowance key rest some stored waits fresh _ cheap left acknowledged shared ih =>
    simpa [deliver, count, some, waits, fresh, never, affords, cheap, acknowledged, shared, spent]
      using congrArg (·.hand (.mark key true) (stored.toPublish noPacketId)) (ih calm)
  | case9 allowance key rest some stored waits fresh _ cheap acknowledged unshared none =>
    have same : allowance.wrapping.ids = [] := none
    simp [deliver, count, some, waits, fresh, never, affords, cheap, acknowledged, unshared, same]
  | case10 allowance key rest some stored waits fresh _ cheap left acknowledged unshared id ids free
      ih =>
    have next : allowance.wrapping.ids = id :: ids := free
    have same : deliver shared now allowance.wrapping ((key, .publish stored) :: rest) =
        (deliver shared now (Allowance.wrapping { left with ids }) rest).hand
          (.assign key (.some id)) (stored.toPublish id) := by
      simp only [deliver, count, some, waits, fresh, never, affords, cheap, acknowledged, unshared,
        next]
      rfl
    rw [same, ih calm]
  | case11 allowance key entry rest some other ih =>
    cases entry with
    | publish stored => exact (other stored rfl).elim
    | pubrel | taken => simpa [deliver, count, some] using ih calm

/-- Where sums panic, what is handed out fits a word. -/
theorem light_deliver (shared : Bool) (now : UInt64) (allowance : Allowance) (line : Line)
    (checked : allowance.overflow = .panics) :
    (allowance.bytes.getD 0).toNat +
      bytesOf Publish.size (deliver shared now allowance line).messages < UInt64.size := by
  have none {allowance : Allowance} :
      (allowance.bytes.getD 0).toNat + bytesOf Publish.size [] < UInt64.size :=
    UInt64.toNat_lt_size _
  -- what a message adds to those behind it
  have more {stored : StoredPublish} {allowance : Allowance} {messages : List Publish}
      (checked : allowance.overflow = .panics)
      (calm : ¬ allowance.panics stored.size = true) (id : UInt16)
      (rest : ((allowance.spend stored.size).bytes.getD 0).toNat +
        bytesOf Publish.size messages < UInt64.size) :
      (allowance.bytes.getD 0).toNat +
        bytesOf Publish.size (stored.toPublish id :: messages) < UInt64.size := by
    rw [Bool.not_eq_true] at calm
    rwa [Allowance.toNat_spend checked calm, Nat.add_assoc] at rest
  fun_induction deliver shared now allowance line with
  | case1 | case2 | case5 | case6 | case9 => exact none
  | case3 _ _ _ _ _ _ ih | case4 _ _ _ _ _ _ _ ih | case11 _ _ _ _ _ _ ih => exact ih checked
  | case7 _ _ _ _ _ _ _ calm _ _ _ ih | case8 _ _ _ _ _ _ _ calm _ _ _ _ ih
  | case10 _ _ _ _ _ _ _ calm _ _ _ _ _ _ _ ih => exact more checked calm _ (ih checked)

/-- What is answered was delivered, unless the queue was never used. -/
theorem delivered_of_readNew {store : Store} {queue : QueueKey} {pool : List UInt16}
    {byteLimit now : UInt64} {index : Nat} {messages : List Publish}
    (answered : (store.readNew queue pool byteLimit now index).1 = .ok messages) :
    (∃ bucket, store.bucket index = .ok bucket ∧ bucket.counts? queue = none ∧ messages = []) ∨
      ∃ bucket counts, store.bucket index = .ok bucket ∧ bucket.counts? queue = some counts ∧
        messages =
          (reading store.settings.overflow bucket queue counts pool byteLimit now).messages := by
  have reads := reads_readNew store queue pool byteLimit now index
  generalize store.readNew queue pool byteLimit now index = served at reads answered
  cases reads with
  | refused | panics | fails => cases answered
  | unknown opened uncounted =>
    cases answered
    exact .inl ⟨_, opened, uncounted, rfl⟩
  | hands opened counted =>
    cases answered
    exact .inr ⟨_, _, opened, counted, rfl⟩

theorem countsInWords_readNew (store : Store) (queue : QueueKey) (pool : List UInt16)
    (now : UInt64) (index : Nat) :
    CountsInWords Publish.size fun byteLimit =>
      (store.readNew queue pool byteLimit now index).1 := by
  constructor
  · intro byteLimit messages answered several
    rcases delivered_of_readNew answered with ⟨_, _, _, rfl⟩ | ⟨bucket, counts, _, _, rfl⟩
    · simp at several
    · rcases admits_deliver queue.shared now ⟨pool.length, counts.packetIds.free pool, none,
        byteLimit, store.settings.overflow⟩ (bucket.queueEntries queue) with single | within
      · rw [List.length_map] at single
        exact absurd several (Nat.not_lt.mpr single)
      · simpa [bytesOf, reading, Function.comp_def] using within
  · intro byteLimit messages all answered unlimited
    rcases delivered_of_readNew answered with
      ⟨_, _, _, rfl⟩ | ⟨bucket, counts, opened, counted, rfl⟩
    · exact List.nil_prefix
    · rcases delivered_of_readNew unlimited with ⟨_, again, uncounted, _⟩ | ⟨_, _, again, also, rfl⟩
      · cases again.symm.trans opened
        cases uncounted.symm.trans counted
      · cases again.symm.trans opened
        cases also.symm.trans counted
        exact prefix_deliver queue.shared now _ _

/-! Reading again -/

theorem admits_resend {allowance : Allowance} {entries : List Entry} {messages : List InFlight}
    (resent : resend allowance entries = some messages) :
    allowance.Admits (messages.map InFlight.size) := by
  fun_induction resend allowance entries generalizing messages with
  | case1 | case2 | case4 =>
    cases resent
    exact Allowance.admits_nil _
  | case3 => cases resent
  | case5 allowance entry rest _ _ cheap message sent ih =>
    obtain ⟨others, again, rfl⟩ := Option.map_eq_some_iff.mp resent
    rw [List.map_cons, InFlight.size_of_inFlight? sent]
    exact .cons (by simpa using cheap) (ih again)
  | case6 _ _ _ _ _ _ _ ih => exact ih resent

theorem prefix_resend {allowance : Allowance} {entries : List Entry} {messages all : List InFlight}
    (resent : resend allowance entries = some messages)
    (unlimited : resend allowance.boundless entries = some all) : messages <+: all := by
  have enough := Allowance.affords_boundless
  have count (allowance : Allowance) : allowance.boundless.count = allowance.count := rfl
  have panics (allowance : Allowance) (bytes : UInt64) :
      allowance.boundless.panics bytes = allowance.panics bytes := rfl
  fun_induction resend allowance entries generalizing messages all with
  | case1 | case2 | case4 =>
    cases resent
    exact List.nil_prefix
  | case3 => cases resent
  | case5 allowance entry rest some calm cheap message sent ih =>
    obtain ⟨others, again, rfl⟩ := Option.map_eq_some_iff.mp resent
    have same : resend allowance.boundless (entry :: rest) =
        (message :: ·) <$> resend (allowance.spend entry.size).boundless rest := by
      simp only [resend, count, some, panics, calm, enough, sent]
      rfl
    obtain ⟨more, beyond, rfl⟩ := Option.map_eq_some_iff.mp (same.symm.trans unlimited)
    exact (List.prefix_cons_inj message).mpr (ih again beyond)
  | case6 allowance entry rest some calm cheap silent ih =>
    have same : resend allowance.boundless (entry :: rest) = resend allowance.boundless rest := by
      simp [resend, count, some, panics, calm, enough, silent]
    exact ih resent (same.symm.trans unlimited)

theorem resend_wrapping {allowance : Allowance} {entries : List Entry} {messages : List InFlight}
    (resent : resend allowance entries = some messages) :
    resend allowance.wrapping entries = some messages := by
  have count (allowance : Allowance) : allowance.wrapping.count = allowance.count := rfl
  have affords (allowance : Allowance) (bytes : UInt64) :
      allowance.wrapping.affords bytes = allowance.affords bytes := rfl
  have never (allowance : Allowance) (bytes : UInt64) :
      allowance.wrapping.panics bytes = false := rfl
  fun_induction resend allowance entries generalizing messages with
  | case1 => exact resent
  | case2 allowance entry rest none => simpa [resend, count, none] using resent
  | case3 => cases resent
  | case4 allowance entry rest some _ dear =>
    simpa [resend, count, some, never, affords, dear] using resent
  | case5 allowance entry rest some _ cheap message sent ih =>
    obtain ⟨others, again, rfl⟩ := Option.map_eq_some_iff.mp resent
    have same : resend allowance.wrapping (entry :: rest) =
        (message :: ·) <$> resend (allowance.spend entry.size).wrapping rest := by
      simp only [resend, count, some, never, affords, cheap, sent]
      rfl
    rw [same, ih again]
    rfl
  | case6 allowance entry rest some _ cheap silent ih =>
    simpa [resend, count, some, never, affords, cheap, silent] using ih resent

theorem light_resend {allowance : Allowance} {entries : List Entry} {messages : List InFlight}
    (checked : allowance.overflow = .panics)
    (resent : resend allowance entries = some messages) :
    (allowance.bytes.getD 0).toNat + bytesOf InFlight.size messages < UInt64.size := by
  fun_induction resend allowance entries generalizing messages with
  | case1 | case2 | case4 =>
    cases resent
    exact UInt64.toNat_lt_size _
  | case3 => cases resent
  | case5 allowance entry rest _ calm _ message sent ih =>
    obtain ⟨others, again, rfl⟩ := Option.map_eq_some_iff.mp resent
    have rest := ih checked again
    rw [Bool.not_eq_true] at calm
    rw [Allowance.toNat_spend checked calm, Nat.add_assoc] at rest
    rwa [bytesOf, List.map_cons, List.sum_cons, InFlight.size_of_inFlight? sent]
  | case6 _ _ _ _ _ _ _ ih => exact ih checked resent

/-- What is answered was sent again. -/
theorem resent_of_readInFlight {store : Store} {queue : QueueKey} {maxCount index : Nat}
    {byteLimit : UInt64} {messages : List InFlight}
    (answered : store.readInFlight queue maxCount byteLimit index = .ok messages) :
    ∃ bucket, store.bucket index = .ok bucket ∧
      resend ⟨maxCount, [], none, byteLimit, store.settings.overflow⟩
        (inFlightEntries bucket queue) = some messages := by
  unfold readInFlight at answered
  split at answered
  · cases answered
  · rename_i bucket opened
    refine ⟨bucket, opened, ?_⟩
    split at answered <;> cases answered
    assumption

theorem countsInWords_readInFlight (store : Store) (queue : QueueKey) (maxCount index : Nat) :
    CountsInWords InFlight.size fun byteLimit =>
      store.readInFlight queue maxCount byteLimit index := by
  constructor
  · intro byteLimit messages answered several
    obtain ⟨bucket, _, resent⟩ := resent_of_readInFlight answered
    rcases admits_resend resent with single | within
    · rw [List.length_map] at single
      exact absurd several (Nat.not_lt.mpr single)
    · simpa [bytesOf, Function.comp_def] using within
  · intro byteLimit messages all answered unlimited
    obtain ⟨bucket, opened, resent⟩ := resent_of_readInFlight answered
    obtain ⟨_, again, others⟩ := resent_of_readInFlight unlimited
    cases again.symm.trans opened
    exact prefix_resend resent others

/-! Readings that panic -/

theorem overflows_of_resend {allowance : Allowance} {line : Line}
    (panics : resend allowance (line.map Prod.snd) = none) : allowance.overflow = .panics ∧
      UInt64.size ≤ (allowance.bytes.getD 0).toNat + Line.bytes line := by
  induction line generalizing allowance with
  | nil => cases panics
  | cons e line ih =>
    have first : Line.bytes (e :: line) = e.2.size.toNat + Line.bytes line := List.sum_cons
    have spent := allowance.toNat_spend_le e.2.size
    rw [List.map_cons, resend] at panics
    rw [first]
    split at panics
    · cases panics
    · split at panics
      · rename_i here
        obtain ⟨checked, heavy⟩ := Allowance.overflows_of_panics here
        exact ⟨checked, by omega⟩
      · split at panics
        · cases panics
        · split at panics
          · obtain ⟨checked, heavy⟩ := ih (Option.map_eq_none_iff.mp panics)
            exact ⟨checked, by omega⟩
          · obtain ⟨checked, heavy⟩ := ih panics
            exact ⟨checked, by omega⟩

/-- A reading panics over a queue of 2^64 bytes and more only, in a build whose sums panic. -/
def Overweighs (store : Store) (queue : QueueKey) (index : Nat) : Prop :=
  store.settings.overflow = .panics ∧ ∃ bucket, store.bucket index = .ok bucket ∧
    UInt64.size ≤ Line.bytes (bucket.queueEntries queue)

variable {store : Store} {queue : QueueKey} {pool : List UInt16} {byteLimit now : UInt64}
variable {maxCount index : Nat}

theorem not_panicked_of_bucket (closed : store.bucket index = .error .panicked) : False := by
  unfold bucket at closed
  split at closed
  · cases closed
  · split at closed <;> cases closed

theorem overweighs_of_readNew
    (panics : (store.readNew queue pool byteLimit now index).1 = .error .panicked) :
    store.Overweighs queue index := by
  have reads := reads_readNew store queue pool byteLimit now index
  generalize store.readNew queue pool byteLimit now index = served at reads panics
  cases reads with
  | unknown | hands => cases panics
  | refused closed =>
    cases panics
    exact (not_panicked_of_bucket closed).elim
  | panics opened counted overflows =>
    obtain ⟨checked, heavy⟩ := overflows_of_deliver overflows
    exact ⟨checked, _, opened, by simpa using heavy⟩
  | fails opened counted calm failed =>
    cases panics
    obtain ⟨_, _, _, other, _⟩ := commit_of_error failed
    cases other

theorem overweighs_of_readInFlight
    (panics : store.readInFlight queue maxCount byteLimit index = .error .panicked) :
    store.Overweighs queue index := by
  unfold readInFlight at panics
  split at panics
  · rename_i closed
    cases panics
    exact (not_panicked_of_bucket closed).elim
  · rename_i bucket opened
    split at panics
    · cases panics
    · rename_i none
      rw [inFlightEntries_eq] at none
      obtain ⟨checked, heavy⟩ := overflows_of_resend none
      refine ⟨checked, bucket, opened, ?_⟩
      exact Nat.le_trans (by simpa using heavy) (Line.bytes_flying_le _)

/-- The store in a build whose sums wrap. -/
def wrapping (store : Store) : Store := { store with settings.overflow := .wraps }

/-- What a build whose sums panic answers, next to one whose sums wrap: the same, within the limit,
or it panics. -/
structure Checked (size : α → UInt64) (answers wrapped : UInt64 → Except QueueFault (List α)) :
    Prop where
  heeded : Heeded size answers
  same : ∀ byteLimit, answers byteLimit = .error .panicked ∨
    answers byteLimit = wrapped byteLimit

theorem checked_readNew (checked : store.settings.overflow = .panics) :
    Checked Publish.size (fun byteLimit => (store.readNew queue pool byteLimit now index).1)
      fun byteLimit => (store.wrapping.readNew queue pool byteLimit now index).1 := by
  constructor
  · intro byteLimit messages answered several
    refine ((countsInWords_readNew store queue pool now index).within_iff answered several).mpr ?_
    rcases delivered_of_readNew answered with ⟨_, _, _, rfl⟩ | ⟨bucket, counts, _, _, rfl⟩
    · cases several
    · simpa [reading] using light_deliver queue.shared now ⟨pool.length,
        counts.packetIds.free pool, none, byteLimit, store.settings.overflow⟩
        (bucket.queueEntries queue) checked
  · intro byteLimit
    have open_ : store.wrapping.bucket index = store.bucket index := rfl
    have committed (bucket : Bucket) (changes : List Change) :
        store.wrapping.commit index bucket changes =
          ((store.commit index bucket changes).1,
            { (store.commit index bucket changes).2 with settings := store.wrapping.settings }) :=
      commit_settings store store.wrapping.settings index bucket changes
    have wrapped {bucket : Bucket} {counts : QueueCounts} (calm : (reading
        store.settings.overflow bucket queue counts pool byteLimit now).panics = false) :
        deliver queue.shared now ⟨pool.length, counts.packetIds.free pool, none, byteLimit,
          store.wrapping.settings.overflow⟩ (bucket.queueEntries queue) =
            reading store.settings.overflow bucket queue counts pool byteLimit now :=
      deliver_wrapping calm
    have reads := reads_readNew store queue pool byteLimit now index
    generalize store.readNew queue pool byteLimit now index = served at reads ⊢
    cases reads with
    | panics => exact .inl rfl
    | refused closed => exact .inr (by simp [readNew, open_, closed])
    | unknown opened uncounted => exact .inr (by simp [readNew, open_, opened, uncounted])
    | fails opened counted calm failed | hands opened counted calm failed =>
      exact .inr (by simp [readNew, open_, opened, counted, wrapped calm, calm, committed, failed])

theorem checked_readInFlight (checked : store.settings.overflow = .panics) :
    Checked InFlight.size (fun byteLimit => store.readInFlight queue maxCount byteLimit index)
      fun byteLimit => store.wrapping.readInFlight queue maxCount byteLimit index := by
  constructor
  · intro byteLimit messages answered several
    refine ((countsInWords_readInFlight store queue maxCount index).within_iff answered
      several).mpr ?_
    obtain ⟨bucket, _, resent⟩ := resent_of_readInFlight answered
    simpa using light_resend checked resent
  · intro byteLimit
    have open_ : store.wrapping.bucket index = store.bucket index := rfl
    cases opened : store.bucket index with
    | error fault => exact .inr (by simp [readInFlight, open_, opened])
    | ok bucket =>
      cases resent : resend ⟨maxCount, [], none, byteLimit, store.settings.overflow⟩
          (inFlightEntries bucket queue) with
      | none => exact .inl (by simp [readInFlight, opened, resent])
      | some messages =>
        have same : resend ⟨maxCount, [], none, byteLimit, store.wrapping.settings.overflow⟩
          (inFlightEntries bucket queue) = some messages := resend_wrapping resent
        exact .inr (by simp [readInFlight, open_, opened, resent, same])

/-- A reading of several messages is within its byte limit exactly if together they weigh less than
2^64 bytes, and every reading is exactly if those do that the largest limit lets pass. Where sums
panic, a reading answers nothing else, but it panics in place of ending at a message that takes the
sum beyond a word; then the queue holds 2^64 bytes and more. -/
theorem byte_limits_heeded_iff (store : Store) (queue : QueueKey) (pool : List UInt16)
    (now : UInt64) (maxCount index : Nat) :
    let reads byteLimit := (store.readNew queue pool byteLimit now index).1
    let resends byteLimit := store.readInFlight queue maxCount byteLimit index
    (∀ byteLimit messages, reads byteLimit = .ok messages → 1 < messages.length →
      (bytesOf Publish.size messages ≤ byteLimit.toNat ↔
        bytesOf Publish.size messages < UInt64.size)) ∧
    (∀ all, reads noLimit = .ok all →
      (Heeded Publish.size reads ↔
        (1 < all.length → bytesOf Publish.size all < UInt64.size))) ∧
    (∀ byteLimit messages, resends byteLimit = .ok messages → 1 < messages.length →
      (bytesOf InFlight.size messages ≤ byteLimit.toNat ↔
        bytesOf InFlight.size messages < UInt64.size)) ∧
    (∀ all, resends noLimit = .ok all →
      (Heeded InFlight.size resends ↔
        (1 < all.length → bytesOf InFlight.size all < UInt64.size))) ∧
    (store.settings.overflow = .panics →
      Checked Publish.size reads
        (fun byteLimit => (store.wrapping.readNew queue pool byteLimit now index).1) ∧
      Checked InFlight.size resends
        fun byteLimit => store.wrapping.readInFlight queue maxCount byteLimit index) ∧
    ∀ byteLimit, reads byteLimit = .error .panicked ∨ resends byteLimit = .error .panicked →
      store.Overweighs queue index := by
  intro reads resends
  have fresh : CountsInWords Publish.size reads := countsInWords_readNew store queue pool now index
  have again : CountsInWords InFlight.size resends :=
    countsInWords_readInFlight store queue maxCount index
  refine ⟨fun _ _ => fresh.within_iff, fun _ => fresh.heeded_iff,
    fun _ _ => again.within_iff, fun _ => again.heeded_iff,
    fun checked => ⟨checked_readNew checked, checked_readInFlight checked⟩, ?_⟩
  intro byteLimit panics
  exact panics.elim overweighs_of_readNew overweighs_of_readInFlight

theorem exists_answer {α : Type} {answer : Except QueueFault α} {P : α → Prop} [DecidablePred P]
    (fine : answer.toOption.any (fun a => decide (P a)) = true) : ∃ a, answer = .ok a ∧ P a := by
  cases answer with
  | error fault => cases fine
  | ok a => exact ⟨a, rfl, of_decide_eq_true fine⟩

/-- In `resumable` two messages wait, and every byte limit is heeded when they are read, and when
they are read again. -/
theorem byte_limits_heeded_iff_resumable :
    (Heeded Publish.size fun byteLimit => (resumable.readNew .client [7, 8] byteLimit 0 0).1) ∧
      Heeded InFlight.size fun byteLimit => resumed.readInFlight .client 4 byteLimit 0 := by
  obtain ⟨_, fresh, _⟩ := byte_limits_heeded_iff resumable .client [7, 8] 0 4 0
  obtain ⟨_, _, _, again, _⟩ := byte_limits_heeded_iff resumed .client [7, 8] 0 4 0
  obtain ⟨all, answered, light⟩ :
      ∃ all, (resumable.readNew .client [7, 8] noLimit 0 0).1 = .ok all ∧
        (1 < all.length ∧ bytesOf Publish.size all < UInt64.size) :=
    exists_answer (by decide +kernel)
  obtain ⟨rest, resent, lightToo⟩ :
      ∃ rest, resumed.readInFlight .client 4 noLimit 0 = .ok rest ∧
        (1 < rest.length ∧ bytesOf InFlight.size rest < UInt64.size) :=
    exists_answer (by decide +kernel)
  exact ⟨(fresh all answered).mpr fun _ => light.2, (again rest resent).mpr fun _ => lightToo.2⟩

/-- Two messages wait whose sizes add up to 2^64 + 4, in a build that does so with sums. -/
def overweight (overflow : Overflow) : Store :=
  let message (size payload : UInt64) := Request.add .client
    (.publish { Publish.ofQos .atLeastOnce "u" payload with size }) 10 .discard 0
  ((World.start { single with settings.overflow := overflow } .empty).run
    [.ask (message 0xFFFFFFFFFFFFFFFF 1), .ask (message 5 2)]).store

theorem overweight_reached (overflow : Overflow) : (overweight overflow).Reached :=
  ⟨{ Settings.single with overflow }, .empty, { single with settings.overflow := overflow },
    .empty, _, rfl, rfl⟩

/-- Where sums wrap, a limit of 100 bytes lets both pass, at the first reading and at the second.
Where they panic, neither reading ends at the second message: both panic. -/
theorem byte_limits_ignored :
    let read := (overweight .wraps).readNew .client [1, 2] 100 0 0
    let first := (overweight .panics).readNew .client [1] 100 0 0
    let second := first.2.readNew .client [2] 100 0 0
    (∀ overflow, (overweight overflow).Reached) ∧
      (∃ messages, read.1 = .ok messages ∧
        messages.map Publish.size = [0xFFFFFFFFFFFFFFFF, 5]) ∧
      (∃ messages, read.2.readInFlight .client 2 100 0 = .ok messages ∧
        messages.map InFlight.size = [0xFFFFFFFFFFFFFFFF, 5]) ∧
      (¬ Heeded Publish.size fun byteLimit =>
        ((overweight .wraps).readNew .client [1, 2] byteLimit 0 0).1) ∧
      (¬ Heeded InFlight.size fun byteLimit => read.2.readInFlight .client 2 byteLimit 0) ∧
      (overweight .panics).readNew .client [1, 2] 100 0 0 = (.error .panicked, overweight .panics) ∧
      second.2.readInFlight .client 2 100 0 = .error .panicked := by
  intro read first second
  obtain ⟨messages, answered, sizes, heavy⟩ : ∃ messages, read.1 = .ok messages ∧
      (messages.map Publish.size = [0xFFFFFFFFFFFFFFFF, 5] ∧
        (1 < messages.length ∧ 100 < bytesOf Publish.size messages)) :=
    exists_answer (by decide +kernel)
  obtain ⟨again, resent, sizesToo, heavyToo⟩ :
      ∃ again, read.2.readInFlight .client 2 100 0 = .ok again ∧
        (again.map InFlight.size = [0xFFFFFFFFFFFFFFFF, 5] ∧
          (1 < again.length ∧ 100 < bytesOf InFlight.size again)) :=
    exists_answer (by decide +kernel)
  refine ⟨overweight_reached, ⟨messages, answered, sizes⟩, ⟨again, resent, sizesToo⟩, ?_, ?_,
    by decide +kernel, by decide +kernel⟩
  · intro heeded
    exact absurd (heeded 100 messages answered heavy.1) (Nat.not_le.mpr heavy.2)
  · intro heeded
    exact absurd (heeded 100 again resent heavyToo.1) (Nat.not_le.mpr heavyToo.2)

end Store

end DeliveryQueue
