import DeliveryQueue.Proofs.Opening

/-!
The life of a data directory: it is opened again and again, with any settings, and each store that
opens is asked at the buckets of its queues and closed. Once a layout is recorded, the directory
keeps its number of buckets (`Life.bucket_count_is_kept`), given that the library for TOML reads
each configured layout back as it wrote it.
-/
namespace DeliveryQueue

open DataDirectory

namespace Request

/-- The request at the bucket of its queue. A sweep is of any bucket. -/
def addressed (bucketFor : String → Nat) : Request → Request
  | add queue message limit policy _ => add queue message limit policy (bucketFor queue.id)
  | readNew queue pool byteLimit now _ => readNew queue pool byteLimit now (bucketFor queue.id)
  | readInFlight queue maxCount byteLimit _ =>
    readInFlight queue maxCount byteLimit (bucketFor queue.id)
  | replace id packetId _ => replace id packetId (bucketFor id)
  | remove id packetId expected _ => remove id packetId expected (bucketFor id)
  | removeShared id uniqueId _ => removeShared id uniqueId (bucketFor id)
  | giveBack id uniqueId _ => giveBack id uniqueId (bucketFor id)
  | removeQos0 queue _ => removeQos0 queue (bucketFor queue.id)
  | clear queue _ => clear queue (bucketFor queue.id)
  | size queue _ => size queue (bucketFor queue.id)
  | cleanUp now index => cleanUp now index
  | close => close

theorem index_addressed (bucketFor : String → Nat) (request : Request) :
    ∀ queue ∈ (request.addressed bucketFor).queue?,
      bucketFor queue.id = (request.addressed bucketFor).index := by
  cases request <;> rintro queue ⟨⟩ <;> rfl

end Request

namespace Store

variable {store : Store} {directory : DataDirectory} {toml : Toml.Library} {place count : Nat}

/-- The store after requests, each at the bucket of its queue. -/
def attend (store : Store) (requests : List Request) : Store :=
  requests.foldl (fun store request => (store.serve (request.addressed store.bucketFor)).2) store

theorem Lodges.attend (lodges : store.Lodges directory toml place count)
    (requests : List Request) : (store.attend requests).Lodges directory toml place count := by
  induction requests generalizing store with
  | nil => exact lodges
  | cons request requests ih =>
    refine ih (lodges.serve ?_)
    have its := request.index_addressed store.bucketFor
    unfold bucketFor bucketCount at its
    rw [lodges.size] at its
    rwa [show store.bucketFor = fun id => bucketIndex id count by
      funext id; rw [bucketFor, bucketCount, lodges.size]]

end Store

/-- The directory is opened with some settings, and if that succeeds, requests are served. -/
structure Visit where
  settings : Settings
  requests : List Request
  deriving DecidableEq, Repr

/-- The disk between two visits, and what the buckets held when a store was closed last. -/
structure Life where
  disk : Disk
  contents : Array Entries

namespace Life

variable {life : Life} {directory : DataDirectory} {toml : Toml.Library} {visit : Visit}
variable {visits : List Visit} {count : Nat}

def start (disk : Disk) : Life := ⟨disk, #[]⟩

/-- Opening that fails leaves on the disk what it made. A store that opens is closed in the end. -/
def step (toml : Toml.Library) (life : Life) (visit : Visit) : Life :=
  match Store.open toml visit.settings life.disk with
  | (.error _, disk) => { life with disk }
  | (.ok store, _) =>
    let closed := (store.attend visit.requests).close.2
    ⟨closed.disk, closed.contents⟩

def run (life : Life) (toml : Toml.Library) (visits : List Visit) : Life :=
  visits.foldl (step toml) life

/-- Nothing was ever stored, and no layout recorded. -/
structure Blank (life : Life) (directory : DataDirectory) : Prop where
  sound : life.disk.Sound
  unused : directory.Unused life.disk
  nothing : life.contents = #[]

/-- A layout of so many buckets is recorded, and what was stored last is on the disk. -/
def Rooted (life : Life) (directory : DataDirectory) (toml : Toml.Library) (count : Nat) : Prop :=
  ∃ place contents, directory.Keeps toml life.disk place contents ∧ contents.size = count ∧
    ∀ index key, Store.entryOf contents index key = Store.entryOf life.contents index key

/-- A visit to the files of a directory leaves them to the next. -/
theorem rooted_of_openFiles {disk : Disk} {place : Nat} {contents : Array Entries}
    (keeps : directory.Keeps toml disk place contents)
    (same : ∀ index key, Store.entryOf contents index key = Store.entryOf life.contents index key)
    (its : visit.settings.bucketCount = contents.size)
    (opened : Store.open toml visit.settings life.disk =
      Store.openFiles visit.settings directory disk) :
    (life.step toml visit).Rooted directory toml contents.size := by
  obtain ⟨left, opens⟩ := keeps.openFiles its
  unfold Life.step
  rw [opened]
  generalize Store.openFiles visit.settings directory disk = reached at left opens
  obtain ⟨answer, after⟩ := reached
  cases answer with
  | error fault => exact ⟨place, contents, left, rfl, same⟩
  | ok store =>
    have closed := ((opens store rfl).1.attend visit.requests).close
    refine ⟨place, _, closed.keeps, ?_, fun _ _ => rfl⟩
    rw [Store.contents, Array.size_map]
    exact closed.size

theorem Rooted.step (rooted : life.Rooted directory toml count)
    (its : DataDirectory.ofText visit.settings.dataDir = directory) :
    (life.step toml visit).Rooted directory toml count := by
  obtain ⟨place, contents, keeps, rfl, same⟩ := rooted
  have opened := keeps.open its
  by_cases other : visit.settings.validate = .ok () ∧ visit.settings.bucketCount = contents.size
  · rw [other.1] at opened
    simp only [other.2, if_true] at opened
    exact rooted_of_openFiles keeps same other.2 opened
  · have refused : ∃ fault, Store.open toml visit.settings life.disk =
        (.error fault, life.disk) := by
      rw [opened]
      cases valid : visit.settings.validate with
      | error fault => exact ⟨_, rfl⟩
      | ok =>
        have differs : visit.settings.bucketCount ≠ contents.size := fun same =>
          other ⟨valid, same⟩
        simp only [if_neg differs]
        exact ⟨_, rfl⟩
    obtain ⟨fault, refused⟩ := refused
    unfold Life.step
    rw [refused]
    exact ⟨place, contents, keeps, rfl, same⟩

theorem entryOf_replicate (count index : Nat) (key : EntryKey) :
    Store.entryOf (Array.replicate count Table.empty) index key = Store.entryOf #[] index key := by
  rw [Store.entryOf, Store.entryOf, Array.getElem?_replicate]
  split <;> rfl

theorem Blank.step (blank : life.Blank directory)
    (its : DataDirectory.ofText visit.settings.dataDir = directory)
    (reads : toml.Keeps (.ofCount visit.settings.bucketCount)) :
    (life.step toml visit).Blank directory ∨
      (life.step toml visit).Rooted directory toml visit.settings.bucketCount := by
  rcases blank.unused.open blank.sound its reads with
    ⟨fault, left, refused, sound, unused⟩ | ⟨middle, place, -, keeps, opened⟩
  · left
    unfold Life.step
    rw [refused]
    exact ⟨sound, unused, blank.nothing⟩
  · right
    have size : (Array.replicate visit.settings.bucketCount
        (Table.empty : Entries)).size = visit.settings.bucketCount := Array.size_replicate
    have rooted := rooted_of_openFiles keeps
      (blank.nothing ▸ entryOf_replicate _) size.symm opened
    rwa [size] at rooted

/-! The whole life -/

/-- How a directory is found once a layout is recorded. -/
structure Bound (life : Life) (directory : DataDirectory) (toml : Toml.Library)
    (layout : Layout) : Prop where
  recorded : directory.loadLayout toml life.disk = .ok (some layout)
  refuses : ∀ ⦃settings : Settings⦄, DataDirectory.ofText settings.dataDir = directory →
    settings.validate = .ok () → settings.bucketCount ≠ layout.bucketCount →
      Store.open toml settings life.disk = (.error (.storage (.layoutMismatch layout
        (.ofCount settings.bucketCount))), life.disk)
  opens : ∀ ⦃settings : Settings⦄ ⦃store left⦄,
    DataDirectory.ofText settings.dataDir = directory →
      Store.open toml settings life.disk = (.ok store, left) →
        store.bucketCount = layout.bucketCount ∧ settings.bucketCount = layout.bucketCount ∧
          directory.loadLayout toml left = .ok (some layout) ∧
          store.Shelters directory left life.contents
  looks : ∀ ⦃settings : Settings⦄, DataDirectory.ofText settings.dataDir = directory →
    Store.openReadOnly toml settings life.disk =
        Store.openReadOnly toml { settings with bucketCount := layout.bucketCount } life.disk ∧
      ∀ store, Store.openReadOnly toml settings life.disk = .ok store →
        store.bucketCount = layout.bucketCount ∧
          store.Shelters directory life.disk life.contents

theorem shelters_of_same {store : Store} {disk : Disk} {contents others : Array Entries}
    (shelters : store.Shelters directory disk contents)
    (same : ∀ index key, Store.entryOf contents index key = Store.entryOf others index key) :
    store.Shelters directory disk others :=
  ⟨fun index key => (shelters.same index key).trans (same index key), shelters.its, shelters.filed⟩

/-- A store that opens over the files of a directory. -/
theorem opens_of_keeps {disk left : Disk} {place : Nat} {contents : Array Entries}
    {settings : Settings} {store : Store} (keeps : directory.Keeps toml disk place contents)
    (its : settings.bucketCount = contents.size)
    (opened : Store.openFiles settings directory disk = (.ok store, left)) :
    store.bucketCount = contents.size ∧
      directory.loadLayout toml left = .ok (some (.ofCount contents.size)) ∧
      store.Shelters directory left contents := by
  obtain ⟨kept, opens⟩ := keeps.openFiles its
  rw [opened] at kept opens
  obtain ⟨lodges, shelters⟩ := opens store rfl
  exact ⟨lodges.size, kept.records.loadLayout, shelters⟩

theorem Rooted.bound (rooted : life.Rooted directory toml count) :
    life.Bound directory toml (.ofCount count) := by
  obtain ⟨place, contents, keeps, rfl, same⟩ := rooted
  refine ⟨keeps.records.loadLayout, fun settings its valid other => ?_,
    fun settings store left its opened => ?_, fun settings its => ?_⟩
  · have differs : settings.bucketCount ≠ contents.size := other
    rw [keeps.open its, valid]
    simp only [if_neg differs]
  · rw [keeps.open its] at opened
    split at opened
    · cases opened
    · split at opened
      · rename_i its
        obtain ⟨size, recorded, shelters⟩ := opens_of_keeps keeps its opened
        exact ⟨size, its, recorded, shelters_of_same shelters same⟩
      · cases opened
  · obtain ⟨configured, shows⟩ := keeps.openReadOnly its
    refine ⟨configured, fun store opened => ?_⟩
    obtain ⟨size, shelters⟩ := shows store opened
    exact ⟨size, shelters_of_same shelters same⟩

theorem Blank.opens {settings : Settings} {store : Store} {left : Disk}
    (blank : life.Blank directory) (its : DataDirectory.ofText settings.dataDir = directory)
    (reads : toml.Keeps (.ofCount settings.bucketCount))
    (opened : Store.open toml settings life.disk = (.ok store, left)) :
    store.bucketCount = settings.bucketCount ∧
      directory.loadLayout toml left = .ok (some (.ofCount settings.bucketCount)) ∧
      store.Shelters directory left life.contents := by
  rcases blank.unused.open blank.sound its reads with
    ⟨fault, _, refused, -⟩ | ⟨middle, place, -, keeps, same⟩
  · cases refused.symm.trans opened
  · have size : (Array.replicate settings.bucketCount
        (Table.empty : Entries)).size = settings.bucketCount := Array.size_replicate
    obtain ⟨sizes, recorded, shelters⟩ :=
      opens_of_keeps keeps size.symm (same.symm.trans opened)
    rw [size] at sizes recorded
    rw [blank.nothing]
    exact ⟨sizes, recorded, shelters_of_same shelters (entryOf_replicate _)⟩

theorem Rooted.run (rooted : life.Rooted directory toml count)
    (its : ∀ visit ∈ visits, DataDirectory.ofText visit.settings.dataDir = directory) :
    (life.run toml visits).Rooted directory toml count := by
  induction visits generalizing life with
  | nil => exact rooted
  | cons visit visits ih =>
    obtain ⟨first, others⟩ := List.forall_mem_cons.mp its
    exact ih (rooted.step first) others

theorem Blank.run (blank : life.Blank directory)
    (its : ∀ visit ∈ visits, DataDirectory.ofText visit.settings.dataDir = directory ∧
      toml.Keeps (.ofCount visit.settings.bucketCount)) :
    (life.run toml visits).Blank directory ∨
      ∃ count, (life.run toml visits).Rooted directory toml count := by
  induction visits generalizing life with
  | nil => exact .inl blank
  | cons visit visits ih =>
    obtain ⟨⟨first, reads⟩, others⟩ := List.forall_mem_cons.mp its
    rcases blank.step first reads with still | rooted
    · exact ih still others
    · exact .inr ⟨_, rooted.run fun visit member => (others visit member).1⟩

/-- A data directory keeps its number of buckets for life, if each layout that is configured for it
reads as it was written. Whatever visits it sees, what is recorded after some of them binds all
later ones, and a store that opens holds what the last one held, each entry in the journal of its
queue. -/
theorem bucket_count_is_kept {directory : DataDirectory} {disk : Disk} (sound : disk.Sound)
    (bare : directory.Bare disk) (toml : Toml.Library) {visits later : List Visit}
    (theirs : ∀ visit ∈ visits ++ later,
      DataDirectory.ofText visit.settings.dataDir = directory ∧
        toml.Keeps (.ofCount visit.settings.bucketCount)) :
    (∀ layout, directory.loadLayout toml ((start disk).run toml visits).disk = .ok (some layout) →
        ((start disk).run toml (visits ++ later)).Bound directory toml layout) ∧
      ∀ settings store left, DataDirectory.ofText settings.dataDir = directory →
        toml.Keeps (.ofCount settings.bucketCount) →
          Store.open toml settings ((start disk).run toml visits).disk = (.ok store, left) →
            store.bucketCount = settings.bucketCount ∧
              directory.loadLayout toml left = .ok (some (.ofCount settings.bucketCount)) ∧
              store.Shelters directory left ((start disk).run toml visits).contents := by
  have blank : (start disk).Blank directory := ⟨sound, bare.unused, rfl⟩
  have whole : (start disk).run toml (visits ++ later) =
      ((start disk).run toml visits).run toml later := List.foldl_append
  have first := blank.run fun visit member => theirs visit (List.mem_append_left later member)
  rw [whole]
  generalize (start disk).run toml visits = life at first
  rcases first with blank | ⟨count, rooted⟩
  · refine ⟨fun layout recorded => ?_, fun settings store left its reads opened =>
      blank.opens its reads opened⟩
    rcases blank.unused.loadLayout toml with none | ⟨fault, failed⟩
    · cases recorded.symm.trans none
    · cases recorded.symm.trans failed
  · refine ⟨fun layout recorded => ?_, fun settings store left its _ opened => ?_⟩
    · cases recorded.symm.trans rooted.bound.recorded
      exact (rooted.run fun visit member =>
        (theirs visit (List.mem_append_right visits member)).1).bound
    · obtain ⟨size, configured, recorded, shelters⟩ := rooted.bound.opens its opened
      have same : settings.bucketCount = count := configured
      rw [same]
      exact ⟨size, recorded, shelters⟩

/-! One bucket, and no more -/

/-- A visit with one bucket that brings a message. -/
def oneBucket : Visit :=
  ⟨{ Settings.single with dataDir := "d" },
    [.add .client (.publish (.ofQos .atLeastOnce "u1" 1)) 10 .discard 7]⟩

/-- A visit with three buckets. -/
def threeBuckets : Visit := ⟨{ Settings.single with dataDir := "d", bucketCount := 3 }, []⟩

theorem bucket_count_is_kept_once :
    ((start .empty).run .own ([oneBucket] ++ [threeBuckets])).Bound (.ofText "d") .own
        (.ofCount 1) ∧
      ∃ store left, Store.open .own oneBucket.settings
          ((start .empty).run .own [oneBucket]).disk = (.ok store, left) ∧
        store.Shelters (.ofText "d") left ((start .empty).run .own [oneBucket]).contents ∧
        (store.entryAt 0 ⟨.client, Sequence.fresh.next⟩).isSome = true := by
  have reads (visit : Visit) (fits : visit.settings.bucketCount < UInt64.size) :
      Toml.Library.own.Keeps (.ofCount visit.settings.bucketCount) := Toml.Library.own_keeps fits
  have theirs : ∀ visit ∈ [oneBucket] ++ [threeBuckets],
      DataDirectory.ofText visit.settings.dataDir = .ofText "d" ∧
        visit.settings.bucketCount < UInt64.size := by decide
  have recorded : (DataDirectory.ofText "d").loadLayout .own
      ((start .empty).run .own [oneBucket]).disk = .ok (some (.ofCount 1)) := by decide +kernel
  have opens : (Store.open .own oneBucket.settings
      ((start .empty).run .own [oneBucket]).disk).1.toOption.isSome = true := by decide +kernel
  have holds : (Store.entryOf ((start .empty).run .own [oneBucket]).contents 0
      ⟨.client, Sequence.fresh.next⟩).isSome = true := by decide +kernel
  have kept := bucket_count_is_kept Disk.empty_sound (bare_empty (.ofText "d")) .own
    fun visit member => (theirs visit member).imp_right (reads visit)
  generalize (start .empty).run .own ([oneBucket] ++ [threeBuckets]) = last at kept ⊢
  generalize (start .empty).run .own [oneBucket] = life at recorded opens holds kept ⊢
  refine ⟨kept.1 _ recorded, ?_⟩
  generalize reached : Store.open .own oneBucket.settings life.disk = opened at opens ⊢
  obtain ⟨answer, left⟩ := opened
  cases answer with
  | error fault => cases opens
  | ok store =>
    obtain ⟨-, -, shelters⟩ := kept.2 _ store left rfl (reads oneBucket (by decide)) reached
    exact ⟨store, left, rfl, shelters, (shelters.same _ _).symm ▸ holds⟩

end Life

end DeliveryQueue
