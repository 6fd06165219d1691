import DeliveryQueue.Disk
import DeliveryQueue.Layout
import DeliveryQueue.Journal.Record
import DeliveryQueue.Queue.Batch

/-!
What can go wrong with stored data.
-/
namespace DeliveryQueue

/-- Bytes that cannot be what they should be. -/
inductive Corruption
  | batch (fault : Batch.Fault)
  | record (fault : Record.Fault)
  /-- The file of this name holds no layout. -/
  | layout (path : String)
  /-- The layout cannot be written down. -/
  | unwritable (given : Layout)
  deriving DecidableEq, Repr

def Corruption.message : Corruption → String
  | batch fault => fault.message
  | record fault => fault.message
  | layout path => path ++ ": no bucket layout"
  | unwritable given => "no document for " ++ toString given.bucketCount ++ " buckets"

inductive StorageFault
  | io (fault : IoFault)
  | corruption (cause : Corruption)
  | closed
  | readOnly
  | layoutMismatch (stored configured : Layout)
  deriving DecidableEq, Repr

def StorageFault.message : StorageFault → String
  | io fault => "I/O error: " ++ fault.message
  | corruption cause => "journal corruption: " ++ cause.message
  | closed => "journal closed"
  | readOnly => "journal is read-only"
  | layoutMismatch stored configured =>
    "bucket layout mismatch: " ++ Layout.mismatchText stored configured

end DeliveryQueue
