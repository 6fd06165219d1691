import DeliveryQueue.Bytes

/-!
MQTT messages as a queue sees them. A queue carries the number of a payload, never its bytes.
-/
namespace DeliveryQueue

/-- Quality of service. -/
inductive Qos
  | atMostOnce
  | atLeastOnce
  | exactlyOnce
  deriving DecidableEq, Repr, Inhabited

namespace Qos

def level : Qos → UInt8
  | atMostOnce => 0
  | atLeastOnce => 1
  | exactlyOnce => 2

def ofLevel? (level : Nat) : Option Qos :=
  match level with
  | 0 => some atMostOnce
  | 1 => some atLeastOnce
  | 2 => some exactlyOnce
  | _ => none

end Qos

/-- The packet id of a message that has none. -/
def noPacketId : UInt16 := 0

structure Publish where
  packetId : UInt16
  qos : Qos
  topic : String
  /-- An id of this message that is unique in the cluster. -/
  uniqueId : String
  payload : UInt64
  /-- Creation time in milliseconds. -/
  timestamp : UInt64
  /-- Seconds after which the message expires. -/
  expiry : Option UInt64
  retain : Bool
  duplicate : Bool
  /-- Estimated size in memory, in bytes. -/
  size : UInt64
  deriving DecidableEq, Repr

/-- What a message without payload weighs: its two texts and a fixed overhead. -/
def defaultSize (topic uniqueId : String) : UInt64 :=
  UInt64.ofNat (topic.utf8ByteSize + uniqueId.utf8ByteSize + 64)

/-- Addition that stays at the largest value. -/
def saturatingAdd (a b : UInt64) : UInt64 :=
  UInt64.ofNat (min (a.toNat + b.toNat) (UInt64.size - 1))

/-- Multiplication that stays at the largest value. -/
def saturatingMul (a b : UInt64) : UInt64 :=
  UInt64.ofNat (min (a.toNat * b.toNat) (UInt64.size - 1))

/-- Subtraction that stays at zero. -/
def saturatingSub (a b : UInt64) : UInt64 := if b ≤ a then a - b else 0

/-- What becomes of a plain sum of words that does not fit into one. That is up to the build of the
program: it checks sums, or it lets them wrap around. -/
inductive Overflow
  | panics
  | wraps
  deriving DecidableEq, Repr

/-- A message lives until `expiry` seconds after its creation, or for ever. -/
def isExpired (timestamp : UInt64) (expiry : Option UInt64) (now : UInt64) : Bool :=
  match expiry with
  | none => false
  | some seconds => saturatingAdd timestamp (saturatingMul seconds 1000) ≤ now

def Publish.isExpired (message : Publish) (now : UInt64) : Bool :=
  DeliveryQueue.isExpired message.timestamp message.expiry now

/-- A message handed to a queue: a PUBLISH, or the PUBREL of a handshake under way. -/
inductive Message
  | publish (message : Publish)
  | pubrel (packetId : UInt16)
  deriving DecidableEq, Repr

/-- A message that was handed out and not yet settled. -/
inductive InFlight
  | publish (message : Publish)
  | pubrel (packetId : UInt16)
  /-- A message of a shared queue that some consumer has taken. -/
  | taken (message : Publish)
  deriving DecidableEq, Repr

/-- What a PUBREL weighs when messages are read again. -/
def pubrelSize : UInt64 := 16

end DeliveryQueue
