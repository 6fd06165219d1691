import DeliveryQueue.Proofs.Recording
import DeliveryQueue.Proofs.Recovery

/-!
How a data directory begins. As long as there are no files in it (`DataDirectory.Bare`), opening it
makes missing directories and records the layout, or fails and leaves no file behind.
-/
namespace DeliveryQueue

namespace Disk

variable {disk after last : Disk} {path : Path} {directory number : Nat} {name : String}
variable {trail walked : Trail} {steps : List String}

/-- Directories were made, and nothing else. -/
structure Grown (disk after : Disk) : Prop where
  workingDirectory : after.workingDirectory = disk.workingDirectory
  node : ∀ ⦃directory name node⦄, disk.node? directory name = some node →
    after.node? directory name = some node
  file : ∀ ⦃directory name number⦄, after.node? directory name = some (.file number) →
    disk.node? directory name = some (.file number)

namespace Grown

theorem refl (disk : Disk) : disk.Grown disk :=
  ⟨rfl, fun _ _ _ there => there, fun _ _ _ there => there⟩

theorem trans (first : disk.Grown after) (second : after.Grown last) : disk.Grown last :=
  ⟨second.workingDirectory.trans first.workingDirectory,
    fun _ _ _ there => second.node (first.node there),
    fun _ _ _ there => first.file (second.file there)⟩

/-- A walk to a directory leads there still. -/
theorem follow (grown : disk.Grown after)
    (walk : disk.follow trail steps = .ok (.directory walked)) :
    after.follow trail steps = .ok (.directory walked) := by
  induction steps generalizing trail with
  | nil => exact walk
  | cons step steps ih =>
    obtain ⟨next, enters, rest⟩ := exists_enters walk
    have still : after.Enters trail step next := by
      cases enters with
      | idle stays => exact .idle stays
      | up busy back => exact .up busy back
      | down busy forth found =>
        obtain ⟨short, there⟩ := entry_eq_ok_iff.mp found
        exact .down busy forth (entry_eq_ok_iff.mpr ⟨short, grown.node there⟩)
    rw [still.follow]
    exact ih rest

end Grown

theorem grown_createDirectory (sound : disk.Sound)
    (made : disk.createDirectory path = .ok after) : disk.Grown after := by
  obtain ⟨directory, name, ends, vacant, rfl⟩ := createDirectory_cases made
  have inside : directory < ({ disk with
      directories := disk.directories.push ∅ } : Disk).directories.size := by
    rw [Array.size_push]
    exact Nat.lt_succ_of_lt (sound.ending ends)
  refine ⟨rfl, fun other otherName node there => ?_, fun other otherName number there => ?_⟩
  · rw [node?_link inside, if_neg, node?_push]
    · exact there
    · rintro ⟨rfl, rfl⟩
      cases vacant.symm.trans there
  · rw [node?_link inside] at there
    split at there
    · cases there
    · rwa [node?_push] at there

theorem grown_ensureDirectory (sound : disk.Sound) (path : Path) :
    disk.Grown (disk.ensureDirectory path).2 := by
  unfold ensureDirectory
  split
  · rename_i made
    exact grown_createDirectory sound made
  · exact .refl disk

theorem grown_createAlong (sound : disk.Sound) (paths : List Path) :
    disk.Grown (disk.createAlong paths).2 := by
  induction paths generalizing disk with
  | nil => exact .refl disk
  | cons path further ih =>
    have first := grown_ensureDirectory sound path
    have safe := sound.ensureDirectory path
    unfold createAlong
    split
    · rename_i middle missing
      rw [missing] at first safe
      have rest := ih safe
      have still := safe.createAlong further
      split
      · rename_i last made
        rw [made] at rest still
        exact (first.trans rest).trans (grown_ensureDirectory still path)
      · exact first.trans rest
    · exact first

theorem grown_createDirectories (sound : disk.Sound) (path : Path) :
    disk.Grown (disk.createDirectories path).2 := by
  unfold createDirectories
  split
  · exact .refl disk
  · exact grown_createAlong sound _

/-- A walk ends at a file by its name, and goes through directories until then. -/
theorem follow_file {other : String}
    (walk : disk.follow trail (steps ++ [name]) = .ok (.file directory other number)) :
    ∃ walked, disk.follow trail steps = .ok (.directory walked) ∧ directory = walked.last ∧
      other = name ∧ disk.node? walked.last name = some (.file number) := by
  induction steps generalizing trail with
  | nil =>
    rw [List.nil_append] at walk
    unfold follow at walk
    split at walk
    · cases walk
    · split at walk
      · cases walk
      · split at walk
        · cases walk
        · cases walk
        · cases walk
        · rename_i found
          rw [if_pos rfl] at walk
          cases walk
          exact ⟨trail, rfl, rfl, rfl, (entry_eq_ok_iff.mp found).2⟩
  | cons step steps ih =>
    rw [List.cons_append] at walk
    unfold follow at walk ⊢
    split at walk
    · rename_i stays
      rw [if_pos stays]
      exact ih walk
    · rename_i busy
      rw [if_neg busy]
      split at walk
      · rename_i back
        rw [if_pos back]
        exact ih walk
      · rename_i forth
        rw [if_neg forth]
        split at walk
        · cases walk
        · cases walk
        · exact ih walk
        · rw [if_neg (List.append_ne_nil_of_right_ne_nil steps (List.cons_ne_nil name []))] at walk
          cases walk

end Disk

namespace DataDirectory

variable {directory : DataDirectory} {disk after : Disk} {place : Nat} {name : String}

/-- A path to a name leads to a file in the directory, if to any. -/
theorem resolve_join {found number : Nat} {other : String}
    (leads : disk.resolve (directory.path.join name) = .ok (.file found other number)) :
    directory.place? disk = some found ∧ other = name ∧
      disk.node? found name = some (.file number) := by
  unfold Disk.resolve at leads
  rcases disk.start_cases (directory.path.join name) with begins | ⟨fault, failed, -⟩
  · have steps : (directory.path.join name).steps = directory.front ++ [name] := rfl
    simp only [begins, bind, Except.bind, steps, ← List.append_assoc] at leads
    obtain ⟨walked, walk, rfl, rfl, node⟩ := Disk.follow_file leads
    exact ⟨place?_eq_some_iff.mpr ⟨walked, walk, rfl⟩, rfl, node⟩
  · simp [failed, bind, Except.bind] at leads

/-! Directories without files -/

/-- No file is in the directory, now or once missing directories are made. -/
def Bare (directory : DataDirectory) (disk : Disk) : Prop :=
  ∀ after, disk.Grown after → ∀ place, directory.place? after = some place →
    ∀ name number, after.node? place name ≠ some (.file number)

theorem bare_of_no_files
    (none : ∀ place name number, disk.node? place name ≠ some (.file number)) :
    directory.Bare disk :=
  fun _ grown place _ name number there => none place name number (grown.file there)

theorem bare_empty (directory : DataDirectory) : directory.Bare .empty :=
  bare_of_no_files fun place name number found => by simp [Disk.node?_empty] at found

theorem place?_of_grown (grown : disk.Grown after) (there : directory.place? disk = some place) :
    directory.place? after = some place := by
  obtain ⟨trail, walk, last⟩ := place?_eq_some_iff.mp there
  have same : after.origin directory.path = disk.origin directory.path := by
    rw [Disk.origin, Disk.origin, grown.workingDirectory]
  exact place?_eq_some_iff.mpr ⟨trail, by rw [same]; exact grown.follow walk, last⟩

/-- No layout was recorded so far. At most a draft of one was left behind. -/
def Unused (directory : DataDirectory) (disk : Disk) : Prop :=
  ∀ ⦃after⦄, disk.Grown after → ∀ ⦃place⦄, directory.place? after = some place →
    ∀ ⦃name number⦄, after.node? place name = some (.file number) → name = layoutDraft

theorem Bare.unused (bare : directory.Bare disk) : directory.Unused disk :=
  fun after grown place there name number file =>
    absurd file (bare after grown place there name number)

namespace Unused

variable (unused : directory.Unused disk)
include unused

theorem grown (grown : disk.Grown after) : directory.Unused after :=
  fun _ more => unused (grown.trans more)

theorem apart (there : directory.place? disk = some place) : disk.Apart place := by
  intro name other number leads leadsToo
  rw [unused (.refl disk) there leads, unused (.refl disk) there leadsToo]

theorem aside (there : directory.place? disk = some place)
    (aside : disk.Aside place [layoutDraft] after) : directory.Unused after := by
  intro last grown other its name number file
  have still := place?_of_grown grown (place?_of_alike aside.alike there)
  cases its.symm.trans still
  refine Decidable.byContradiction fun differs => ?_
  have foreign : name ∉ [layoutDraft] := by simpa using differs
  have same := aside.node foreign
  exact differs (unused (.refl disk) there (same ▸ grown.file file))

theorem loadLayout (toml : Toml.Library) : directory.loadLayout toml disk = .ok none ∨
    ∃ fault, directory.loadLayout toml disk = .error fault := by
  have missing (number : Nat) : disk.openFile directory.layoutPath ≠ .ok number := by
    intro opened
    unfold Disk.openFile Disk.findFile at opened
    rw [layoutPath_eq] at opened
    split at opened
    · rename_i found name file resolved
      obtain ⟨there, rfl, node⟩ := resolve_join resolved
      exact layout_ne_layoutDraft (unused (.refl disk) there node)
    · cases opened
    · cases opened
  unfold DataDirectory.loadLayout Disk.readText Disk.readBytes
  cases opened : disk.openFile directory.layoutPath with
  | ok number => exact absurd opened (missing number)
  | error fault =>
    cases fault with
    | notFound => exact .inl rfl
    | _ => exact .inr ⟨_, rfl⟩

end Unused

end DataDirectory

/-! Recording the layout -/

/-- The queues of the entries belong into the bucket at an index, of so many. -/
def Table.Routed (entries : Entries) (count index : Nat) : Prop :=
  ∀ ⦃key entry⦄, entries.get? key = some entry → bucketIndex key.queue.id count = index

theorem Table.Routed.empty (count index : Nat) : Routed Table.empty count index := by
  intro key entry found
  cases found

namespace DataDirectory

variable {directory : DataDirectory} {toml : Toml.Library} {disk after : Disk} {place : Nat}
variable {contents : Array Entries}

/-- The layout is recorded, and the journal of each bucket replays to what the bucket holds. -/
structure Keeps (directory : DataDirectory) (toml : Toml.Library) (disk : Disk) (place : Nat)
    (contents : Array Entries) : Prop where
  sound : disk.Sound
  apart : disk.Apart place
  there : directory.place? disk = some place
  records : directory.Records toml disk place contents.size
  journals : ∀ ⦃index entries⦄, contents[index]? = some entries →
    ∃ log, disk.Files place index log ∧ Recalls log entries
  routed : ∀ ⦃index entries⦄, contents[index]? = some entries →
    Table.Routed entries contents.size index

theorem exists_ending_of_writeFile {path : Path} {bytes : Bytes}
    (written : disk.writeFile path bytes = .ok after) :
    ∃ place name, disk.ending path = .ok (some (place, name)) := by
  unfold Disk.writeFile at written
  cases opened : disk.openOrCreate path with
  | error fault => simp [opened, bind, Except.bind] at written
  | ok found =>
    obtain ⟨place, name, ends, -⟩ := Disk.openOrCreate_cases opened
    exact ⟨place, name, ends⟩

theorem exists_ending_of_renameFile {source path : Path}
    (renamed : disk.renameFile source path = .ok after) :
    ∃ place name, disk.ending path = .ok (some (place, name)) := by
  unfold Disk.renameFile at renamed
  cases found : disk.findFile source with
  | error fault => simp [found, bind, Except.bind] at renamed
  | ok old =>
    cases ends : disk.ending path with
    | error fault => simp [found, ends, bind, Except.bind] at renamed
    | ok last =>
      cases last with
      | none => simp [found, ends, bind, Except.bind] at renamed
      | some last => exact ⟨last.1, last.2, rfl⟩

theorem journalName_ne_layoutDraft (index : Nat) : journalName index ≠ layoutDraft := by
  intro same
  have chars := congrArg String.toList same
  rw [toList_journalName] at chars
  cases chars

namespace Unused

variable (unused : directory.Unused disk) (sound : disk.Sound)
include unused sound

/-- A layout is recorded, or nothing is left behind but perhaps its draft. -/
theorem storeLayout {count : Nat} (reads : toml.Keeps (.ofCount count)) :
    (∃ fault left, directory.storeLayout toml disk (.ofCount count) = (.error fault, left) ∧
        left.Sound ∧ directory.Unused left) ∨
      ∃ left place, directory.storeLayout toml disk (.ofCount count) = (.ok (), left) ∧
        directory.Keeps toml left place (Array.replicate count Table.empty) := by
  unfold DataDirectory.storeLayout
  rw [layoutPath_withExtension]
  rcases written : toml.write (Layout.ofCount count).entries with _ | text
  · exact .inl ⟨_, _, rfl, sound, unused⟩
  dsimp only
  split
  · exact .inl ⟨_, _, rfl, sound, unused⟩
  · rename_i middle wrote
    obtain ⟨place, other, ends⟩ := exists_ending_of_writeFile wrote
    obtain ⟨-, there, rfl⟩ := (ending_join proper_layoutDraft).mp ends
    obtain ⟨first, number, leads, content⟩ := Disk.aside_writeFile sound (unused.apart there) there
      proper_layoutDraft (List.mem_singleton_self _) wrote
    split
    · exact .inl ⟨_, _, rfl, first.sound, unused.aside there first⟩
    · rename_i last renamed
      have still := place?_of_alike first.alike there
      obtain ⟨found, name, target⟩ := exists_ending_of_renameFile renamed
      have its := (ending_join proper_layout).mp target
      cases its.2.1.symm.trans still
      obtain rfl := its.2.2
      have draft : layoutDraft ∈ [layoutDraft, Layout.fileName] := List.mem_cons_self
      have final : Layout.fileName ∈ [layoutDraft, Layout.fileName] := by simp
      obtain ⟨second, led, kept⟩ := Disk.aside_renameFile first.sound first.apart leads target
        (endsInSlash_join proper_layout) final draft renamed
      have whole := (first.mono (by simp)).trans second
      refine .inr ⟨last, place, rfl, whole.sound, whole.apart, place?_of_alike whole.alike there,
        ?_, ?_, ?_⟩
      · rw [Array.size_replicate]
        exact ⟨number, text, led, kept.trans content, reads text written⟩
      · intro index entries found
        rw [Array.getElem?_replicate] at found
        split at found
        · cases found
          have foreign : journalName index ∉ [layoutDraft, Layout.fileName] := by
            simp [journalName_ne_layoutDraft index, (layout_ne index).symm]
          refine ⟨[], ⟨List.forall_mem_nil _, fun number file => ?_, fun _ => rfl⟩, .nil⟩
          rw [whole.node foreign] at file
          exact absurd (unused (.refl disk) there file) (journalName_ne_layoutDraft index)
        · cases found
      · intro index entries found
        rw [Array.getElem?_replicate] at found
        split at found
        · cases found
          exact .empty _ index
        · cases found

theorem ensureLayout {count : Nat} (reads : toml.Keeps (.ofCount count)) :
    (∃ fault left, directory.ensureLayout toml disk (.ofCount count) = (.error fault, left) ∧
        left.Sound ∧ directory.Unused left) ∨
      ∃ left place, directory.ensureLayout toml disk (.ofCount count) = (.ok (), left) ∧
        directory.Keeps toml left place (Array.replicate count Table.empty) := by
  unfold DataDirectory.ensureLayout
  rcases unused.loadLayout toml with none | ⟨fault, failed⟩
  · rw [none]
    exact unused.storeLayout sound reads
  · rw [failed]
    exact .inl ⟨_, _, rfl, sound, unused⟩

end Unused

namespace Keeps

variable (keeps : directory.Keeps toml disk place contents)
include keeps

theorem createDirectories : disk.createDirectories directory.path = (.ok (), disk) := by
  obtain ⟨number, text, leads, -⟩ := keeps.records
  exact createDirectories_of_leads leads keeps.there

/-- Writing journals that replay to the same entries keeps them. -/
theorem aside {mine : List String} (aside : disk.Aside place mine after)
    (foreign : Layout.fileName ∉ mine) {contentsToo : Array Entries}
    (size : contentsToo.size = contents.size)
    (journals : ∀ ⦃index entries⦄, contentsToo[index]? = some entries →
      ∃ log, after.Files place index log ∧ Recalls log entries)
    (routed : ∀ ⦃index entries⦄, contentsToo[index]? = some entries →
      Table.Routed entries contentsToo.size index) :
    directory.Keeps toml after place contentsToo where
  sound := aside.sound
  apart := aside.apart
  there := place?_of_alike aside.alike keeps.there
  records := size ▸ keeps.records.aside aside foreign
  journals := journals
  routed := routed

end Keeps

end DataDirectory

end DeliveryQueue
