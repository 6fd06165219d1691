import DeliveryQueue.Toml.Value

/-!
The layout of a data directory: how many buckets it has and how queues find theirs. Journals are
found by position, so a directory can only be used with the layout it was made with.
-/
namespace DeliveryQueue

structure Layout where
  bucketCount : Nat
  router : String
  deriving DecidableEq, Repr

namespace Layout

def fileName : String := "layout.toml"

/-- The only router: the checksum of the queue's id. -/
def checksumRouter : String := "crc32"

def ofCount (bucketCount : Nat) : Layout := ⟨bucketCount, checksumRouter⟩

/-- The entries of the document that holds a layout. -/
def entries (layout : Layout) : Toml.Entries :=
  [("bucket_count", .integer layout.bucketCount), ("router", .string layout.router)]

/-- The layout that a document holds. Both entries have to be there; others are of no account. -/
def ofEntries? (entries : Toml.Entries) : Option Layout := do
  let bucketCount ← (← entries.lookup "bucket_count").natural? UInt64.size
  let router ← (← entries.lookup "router").string?
  return ⟨bucketCount, router⟩

/-- What is wrong when a directory has one layout and is opened with another. -/
def mismatchText (stored configured : Layout) : String :=
  "data directory has " ++ toString stored.bucketCount ++ " buckets routed by " ++ stored.router ++
    ", configured " ++ toString configured.bucketCount ++ " routed by " ++ configured.router

end Layout

end DeliveryQueue
