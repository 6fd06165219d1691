import DeliveryQueue.PacketIds
import DeliveryQueue.Budget
import DeliveryQueue.Sequence
import DeliveryQueue.Payloads
import DeliveryQueue.Notice
import DeliveryQueue.Text.Decimal
import DeliveryQueue.Queue.Change
import DeliveryQueue.Queue.Batch
import DeliveryQueue.Disk
import DeliveryQueue.Journal.Record
import DeliveryQueue.Journal.Memory
import DeliveryQueue.Toml.Document
import DeliveryQueue.Toml.Library
import DeliveryQueue.Journal.Basic
import DeliveryQueue.DataDirectory
import DeliveryQueue.Settings
import DeliveryQueue.Bucket
import DeliveryQueue.Dispatcher
import DeliveryQueue.CommandLine
import DeliveryQueue.Main
import DeliveryQueue.Proofs.Entries
import DeliveryQueue.Proofs.RoundTrip
import DeliveryQueue.Proofs.Indexes
import DeliveryQueue.Proofs.Soundness
import DeliveryQueue.Proofs.Recovery
import DeliveryQueue.Proofs.Operations
import DeliveryQueue.Proofs.Steps
import DeliveryQueue.Proofs.Reopening
import DeliveryQueue.Proofs.World
import DeliveryQueue.Proofs.References
import DeliveryQueue.Proofs.Numbers
import DeliveryQueue.Proofs.Restart
import DeliveryQueue.Proofs.Reuse
import DeliveryQueue.Proofs.Order
import DeliveryQueue.Proofs.Caches
import DeliveryQueue.Proofs.Contents
import DeliveryQueue.Proofs.Identity
import DeliveryQueue.Proofs.Delivery
import DeliveryQueue.Proofs.Fate
import DeliveryQueue.Proofs.InFlight
import DeliveryQueue.Proofs.Ledger
import DeliveryQueue.Proofs.Balance
import DeliveryQueue.Proofs.Compaction
import DeliveryQueue.Proofs.Devices
import DeliveryQueue.Proofs.Untouched
import DeliveryQueue.Proofs.Failure
import DeliveryQueue.Proofs.Framing
import DeliveryQueue.Proofs.Names
import DeliveryQueue.Proofs.LogFile
import DeliveryQueue.Proofs.FirstReplay
import DeliveryQueue.Proofs.Crash
import DeliveryQueue.Proofs.Plans
import DeliveryQueue.Proofs.Serving
import DeliveryQueue.Proofs.Carrying
import DeliveryQueue.Proofs.Renaming
import DeliveryQueue.Proofs.Mirroring
import DeliveryQueue.Proofs.Independence
import DeliveryQueue.Proofs.Spelling
import DeliveryQueue.Proofs.ReadOnly
import DeliveryQueue.Proofs.Closing
import DeliveryQueue.Proofs.Depth
import DeliveryQueue.Proofs.Handing
import DeliveryQueue.Proofs.Reading
import DeliveryQueue.Proofs.Ballast
import DeliveryQueue.Proofs.Eviction
import DeliveryQueue.Proofs.Sweeping
import DeliveryQueue.Proofs.Places
import DeliveryQueue.Proofs.Aside
import DeliveryQueue.Proofs.Recording
import DeliveryQueue.Proofs.Founding
import DeliveryQueue.Proofs.Lodging
import DeliveryQueue.Proofs.Opening
import DeliveryQueue.Proofs.Visits
import DeliveryQueue.Proofs.Lightening
import DeliveryQueue.Proofs.Cleaning
import DeliveryQueue.Proofs.Acknowledging
import DeliveryQueue.Proofs.Expiry
import DeliveryQueue.Proofs.Stocking
import DeliveryQueue.Proofs.Admitting
import DeliveryQueue.Proofs.Discarding
import DeliveryQueue.Proofs.Resending
import DeliveryQueue.Proofs.GivingBack
import DeliveryQueue.Proofs.Frames
import DeliveryQueue.Proofs.Inspection
import DeliveryQueue.Proofs.Remainder
import DeliveryQueue.Proofs.Damage
import DeliveryQueue.Proofs.Misreading
import DeliveryQueue.Proofs.Padding
import DeliveryQueue.Proofs.Delimiting
import DeliveryQueue.Proofs.Guards
import DeliveryQueue.Proofs.Newcomers
import DeliveryQueue.Proofs.Conservation
import DeliveryQueue.Proofs.ByteLimits
import DeliveryQueue.Proofs.Rationing
