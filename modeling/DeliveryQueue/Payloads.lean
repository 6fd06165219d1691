import DeliveryQueue.Message
import DeliveryQueue.Table

/-!
Payload bytes with their reference counts. Whoever hands a message to a queue counts one reference
for it, the queue releases that reference when the message leaves, and a sweep drops the payloads
that nobody refers to. The counts begin at zero or one and a call moves them by one, so the 64-bit
words that hold them are enough for all runs of fewer than 2^64 calls; here they are numbers.
-/
namespace DeliveryQueue

structure Payload where
  bytes : Bytes
  references : Nat
  deriving DecidableEq, Repr

structure Payloads where
  nextId : UInt64
  stored : Table UInt64 Payload
  /-- How often each payload was released, known or not. -/
  releases : Table UInt64 Nat
  deriving DecidableEq, Repr

namespace Payloads

def empty : Payloads := ⟨1, Table.empty, Table.empty⟩

def add (payloads : Payloads) (bytes : Bytes) : Payloads :=
  { payloads with
    nextId := payloads.nextId + 1
    stored := payloads.stored.insert payloads.nextId ⟨bytes, 1⟩ }

def bytes? (payloads : Payloads) (id : UInt64) : Option Bytes :=
  (payloads.stored.get? id).map (·.bytes)

def references (payloads : Payloads) (id : UInt64) : Nat :=
  ((payloads.stored.get? id).map (·.references)).getD 0

def releasesOf (payloads : Payloads) (id : UInt64) : Nat := (payloads.releases.get? id).getD 0

def totalReleases (payloads : Payloads) : Nat :=
  payloads.releases.bindings.foldr (fun e count => e.2 + count) 0

/-- Count one reference more; unknown payloads have none to count. -/
def retain (payloads : Payloads) (id : UInt64) : Payloads :=
  match payloads.stored.get? id with
  | some payload =>
    { payloads with
      stored := payloads.stored.insert id { payload with references := payload.references + 1 } }
  | none => payloads

/-- Count one reference less, but not below zero. -/
def release (payloads : Payloads) (id : UInt64) : Payloads :=
  let counted :=
    { payloads with releases := payloads.releases.insert id (payloads.releasesOf id + 1) }
  match payloads.stored.get? id with
  | some payload =>
    { counted with
      stored := payloads.stored.insert id { payload with references := payload.references - 1 } }
  | none => counted

/-- Drop the payloads without references. -/
def sweep (payloads : Payloads) : Payloads :=
  { payloads with stored := payloads.stored.filter fun _ payload => payload.references != 0 }

/-- How many payloads a sweep drops. -/
def swept (payloads : Payloads) : Nat := payloads.stored.size - payloads.sweep.stored.size

end Payloads

end DeliveryQueue
