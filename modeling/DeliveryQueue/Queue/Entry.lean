import DeliveryQueue.Message
import DeliveryQueue.Queue.Limit

/-!
What a queue stores. A message waits with no packet id, is in flight under one, and may leave a
PUBREL in its place; a message of a shared queue that was handed out is marked as taken.
-/
namespace DeliveryQueue

/-- A PUBLISH as stored. It owns one reference to its payload. -/
structure StoredPublish where
  /-- Absent while the message waits. -/
  packetId : Option UInt16
  qos : Qos
  topic : String
  uniqueId : String
  payload : UInt64
  timestamp : UInt64
  expiry : Option UInt64
  retain : Bool
  size : UInt64
  deriving DecidableEq, Repr

namespace StoredPublish

/-- Store an incoming message, waiting. -/
def ofPublish (message : Publish) : StoredPublish where
  packetId := none
  qos := message.qos
  topic := message.topic
  uniqueId := message.uniqueId
  payload := message.payload
  timestamp := message.timestamp
  expiry := message.expiry
  retain := message.retain
  size := message.size

/-- The message as handed out under `packetId`. -/
def toPublish (stored : StoredPublish) (packetId : UInt16) : Publish where
  packetId := packetId
  qos := stored.qos
  topic := stored.topic
  uniqueId := stored.uniqueId
  payload := stored.payload
  timestamp := stored.timestamp
  expiry := stored.expiry
  retain := stored.retain
  duplicate := false
  size := stored.size

def isExpired (stored : StoredPublish) (now : UInt64) : Bool :=
  DeliveryQueue.isExpired stored.timestamp stored.expiry now

end StoredPublish

inductive Entry
  | publish (stored : StoredPublish)
  | pubrel (packetId : UInt16)
  /-- A message of a shared queue that some consumer has taken. -/
  | taken (stored : StoredPublish)
  deriving DecidableEq, Repr

namespace Entry

/-- The message in the entry, if it still holds one. -/
def message? : Entry → Option StoredPublish
  | publish stored | taken stored => some stored
  | pubrel _ => none

def messageClass : Entry → MessageClass
  | publish stored | taken stored => .of stored.qos
  | pubrel _ => .qos12

/-- The packet id that the entry occupies. -/
def packetId? : Entry → Option UInt16
  | publish stored => stored.packetId
  | pubrel packetId => some packetId
  | taken _ => none

/-- Whether the entry waits to be handed out. -/
def isNew : Entry → Bool
  | publish stored => stored.packetId.isNone
  | _ => false

def isPubrel : Entry → Bool
  | pubrel _ => true
  | _ => false

def uniqueId? (entry : Entry) : Option String := entry.message?.map (·.uniqueId)

def size : Entry → UInt64
  | publish stored | taken stored => stored.size
  | pubrel _ => pubrelSize

/-- What the entry weighs against the QoS 0 budget, if it weighs anything. -/
def qos0Bytes? : Entry → Option UInt64
  | publish stored => if stored.qos = .atMostOnce then some stored.size else none
  | _ => none

/-- The payload reference that the entry owns. -/
def payload? (entry : Entry) : Option UInt64 := entry.message?.map (·.payload)

/-- Whether the entry waits and has expired. -/
def isStale (now : UInt64) : Entry → Bool
  | publish stored => stored.packetId.isNone && stored.isExpired now
  | _ => false

/-- The entry as sent again; a waiting entry is not. -/
def inFlight? : Entry → Option InFlight
  | publish stored => stored.packetId.map fun id =>
      .publish { stored.toPublish id with duplicate := true }
  | pubrel packetId => some (.pubrel packetId)
  | taken stored => some (.taken (stored.toPublish noPacketId))

end Entry

end DeliveryQueue
