import DeliveryQueue.Disk

/-!
A journal that is kept in memory. It can be told to fail, so that recovery from failing storage can
be rehearsed; a failing call leaves the log as it was.
-/
namespace DeliveryQueue

structure MemoryJournal where
  batches : List Bytes
  /-- How many batches it takes before appends fail; without one, any number. -/
  capacity : Option Nat
  failAppends : Bool
  failReplacements : Bool
  /-- How many of the next flushes fail. -/
  failSyncs : Nat
  /-- How often it was told to flush. -/
  syncs : Nat
  deriving DecidableEq, Repr

namespace MemoryJournal

def empty : MemoryJournal := ⟨[], none, false, false, 0, 0⟩

/-- Whether the log holds all that it takes. -/
def isFull (log : MemoryJournal) : Bool := log.capacity.any (· ≤ log.batches.length)

def append (log : MemoryJournal) (batch : Bytes) : Except IoFault MemoryJournal :=
  if log.failAppends || log.isFull then .error (.injected "append")
  else .ok { log with batches := log.batches ++ [batch] }

/-- Put one batch in the place of all. -/
def replaceAll (log : MemoryJournal) (snapshot : Bytes) : Except IoFault MemoryJournal :=
  if log.failReplacements then .error (.injected "rewrite")
  else .ok { log with batches := [snapshot] }

/-- Flush. A failing flush counts too. -/
def sync (log : MemoryJournal) : Except IoFault Unit × MemoryJournal :=
  let log := { log with syncs := log.syncs + 1 }
  match log.failSyncs with
  | 0 => (.ok (), log)
  | left + 1 => (.error (.injected "sync"), { log with failSyncs := left })

end MemoryJournal

end DeliveryQueue
