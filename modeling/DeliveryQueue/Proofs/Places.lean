import DeliveryQueue.Proofs.LogFile
import DeliveryQueue.DataDirectory

/-!
Names in a data directory. All its files are found by their names in one directory of the disk
(`DataDirectory.place?`), and no two of them have the same name. Making a directory that is there
changes nothing.
-/
namespace DeliveryQueue

/-- A name stands where an empty step stood. -/
theorem Path.joinSlashes_concat (front : List String) (name : String) :
    joinSlashes (front ++ [name]) = joinSlashes (front ++ [""]) ++ name.toList := by
  induction front with
  | nil => rfl
  | cons step front ih =>
    rw [List.cons_append, List.cons_append,
      joinSlashes_cons (List.append_ne_nil_of_right_ne_nil front (List.cons_ne_nil name [])),
      joinSlashes_cons (List.append_ne_nil_of_right_ne_nil front (List.cons_ne_nil "" [])), ih,
      List.append_assoc]
    rfl

namespace Disk

variable {disk after : Disk} {path : Path} {trail walked : Trail} {steps front back : List String}

/-! Directories that are there -/

/-- The steps that lead to where a path begins. -/
def origin (disk : Disk) (path : Path) : List String :=
  if path.absolute then [] else disk.workingDirectory

theorem start_cases (disk : Disk) (path : Path) : disk.start path = .ok (disk.origin path) ∨
    ∃ fault, disk.start path = .error fault ∧ (fault = .notFound → path.text = "") := by
  unfold start
  dsimp only
  split
  · exact .inr ⟨_, rfl, fun same => by cases same⟩
  · split
    · rename_i nameless
      exact .inr ⟨_, rfl, fun _ => nameless⟩
    · split
      · exact .inr ⟨_, rfl, fun same => by cases same⟩
      · exact .inl rfl

theorem follow_slash (walk : disk.follow trail steps = .ok (.directory walked)) :
    disk.follow trail (steps ++ [""]) = .ok (.directory walked) := by
  have whole := walk
  rw [← List.append_nil steps] at whole
  obtain ⟨before, slash⟩ := exists_follow_front whole
  have onward := follow_append slash []
  rw [List.append_nil, walk] at onward
  rw [slash, onward]
  rfl

theorem follow_of_slash (walk : disk.follow trail (steps ++ [""]) = .ok (.directory walked)) :
    disk.follow trail steps = .ok (.directory walked) := by
  have onward := follow_append walk []
  rwa [List.append_nil] at onward

theorem exists_follow_of_prefix
    (walk : disk.follow trail (front ++ back) = .ok (.directory walked)) :
    ∃ before, disk.follow trail front = .ok (.directory before) := by
  obtain ⟨before, slash⟩ := exists_follow_front walk
  exact ⟨before, follow_of_slash slash⟩

/-- No directory is made where one is. -/
theorem createDirectory_ne_ok
    (walk : disk.follow [] (disk.origin path ++ path.steps) = .ok (.directory trail)) :
    disk.createDirectory path ≠ .ok after := by
  intro made
  unfold createDirectory at made
  cases ends : disk.ending path with
  | error fault => simp [ends, bind, Except.bind] at made
  | ok found =>
    cases found with
    | none => simp [ends, bind, Except.bind] at made
    | some place =>
      obtain ⟨directory, name⟩ := place
      obtain ⟨first, before, above, begins, last, upTo, notDot, notUp, rfl⟩ :=
        ending_eq_some_iff.mp ends
      obtain rfl : disk.origin path = first := by
        rcases start_cases disk path with same | ⟨fault, failed, -⟩
        · exact Except.ok.inj (same.symm.trans begins)
        · cases failed.symm.trans begins
      have notEmpty : name ≠ "" := by
        intro empty
        have head := List.head?_dropWhile_not (· == "") path.steps.reverse
        rw [last] at head
        simp [empty] at head
      obtain ⟨tail, split⟩ : ∃ tail, path.steps = before.reverse ++ name :: tail := by
        have whole := List.takeWhile_append_dropWhile (p := (· == "")) (l := path.steps.reverse)
        rw [last] at whole
        exact ⟨_, by simpa using (congrArg List.reverse whole).symm⟩
      rw [split, ← List.append_assoc, follow_append upTo] at walk
      obtain ⟨next, enters, -⟩ := exists_enters walk
      have busy : Path.isIdle name = false := by simp [Path.isIdle, notEmpty, notDot]
      cases enters with
      | idle stays => cases busy.symm.trans stays
      | up _ back => exact notUp back
      | down _ _ there => simp [ends, there, bind, Except.bind] at made

theorem ensureDirectory_of_directory
    (walk : disk.follow [] (disk.origin path ++ path.steps) = .ok (.directory trail))
    (begins : disk.start path = .ok (disk.origin path)) :
    disk.ensureDirectory path = (.ok (), disk) := by
  unfold ensureDirectory
  cases made : disk.createDirectory path with
  | ok after => exact absurd made (createDirectory_ne_ok walk)
  | error fault =>
    have there : disk.isDirectory path = true := by
      unfold isDirectory resolve
      rw [begins]
      simp only [bind, Except.bind, walk]
    simp only [there, if_true]

/-- Making a directory that is there does nothing, unless its name is not to be followed. -/
theorem createDirectories_of_start
    (walk : disk.follow [] (disk.origin path ++ path.steps) = .ok (.directory trail))
    (begins : path.text ≠ "" → disk.start path = .ok (disk.origin path)) :
    disk.createDirectories path = (.ok (), disk) := by
  unfold createDirectories
  split
  · rfl
  · rename_i named
    rw [createAlong, ensureDirectory_of_directory walk (begins named)]

/-- Making a directory that is there does nothing, or fails over its name. -/
theorem createDirectories_of_directory
    (walk : disk.follow [] (disk.origin path ++ path.steps) = .ok (.directory trail)) :
    disk.createDirectories path = (.ok (), disk) ∨
      ∃ fault, disk.createDirectories path = (.error fault, disk) := by
  rcases start_cases disk path with begins | ⟨fault, failed, why⟩
  · exact .inl (createDirectories_of_start walk fun _ => begins)
  · unfold createDirectories
    split
    · exact .inl rfl
    · rename_i named
      have refused : disk.createDirectory path = .error fault := by
        unfold createDirectory ending
        rw [failed]
        rfl
      have missing : disk.isDirectory path = false := by
        unfold isDirectory resolve
        rw [failed]
        rfl
      rw [createAlong, ensureDirectory, refused]
      simp only [missing, Bool.false_eq_true, if_false]
      cases fault with
      | notFound => exact absurd (why rfl) named
      | _ => exact .inr ⟨_, rfl⟩

end Disk

/-! Names in a data directory -/

/-- A name of a file, and no step that leads nowhere or back. -/
structure Path.Proper (name : String) : Prop where
  busy : isIdle name = false
  forth : name ≠ ".."

namespace DataDirectory

variable {directory : DataDirectory} {disk after : Disk} {place : Nat} {name : String}

/-- The steps to the directory, without the empty one behind a slash at the end. -/
def front (directory : DataDirectory) : List String :=
  if directory.path.steps.getLast? = some "" then directory.path.steps.dropLast
  else directory.path.steps

theorem join_eq (directory : DataDirectory) (name : String) :
    directory.path.join name = ⟨directory.path.absolute, directory.front ++ [name]⟩ := rfl

/-- Where the directory is on the disk, if it is there. -/
def place? (directory : DataDirectory) (disk : Disk) : Option Nat :=
  match disk.follow [] (disk.origin directory.path ++ directory.front) with
  | .ok (.directory trail) => some trail.last
  | _ => none

theorem place?_eq_some_iff : directory.place? disk = some place ↔
    ∃ trail, disk.follow [] (disk.origin directory.path ++ directory.front) =
      .ok (.directory trail) ∧ trail.last = place := by
  unfold place?
  constructor
  · intro there
    split at there
    · rename_i trail walk
      exact ⟨trail, walk, Option.some.inj there⟩
    · cases there
  · rintro ⟨trail, walk, rfl⟩
    rw [walk]

theorem steps_eq_front (directory : DataDirectory) : directory.path.steps = directory.front ∨
    directory.path.steps = directory.front ++ [""] := by
  unfold front
  split
  · rename_i slash
    obtain ⟨rest, steps⟩ := List.getLast?_eq_some_iff.mp slash
    exact .inr (by rw [steps, List.dropLast_concat])
  · exact .inl rfl

theorem follow_steps {trail : Trail} (walk : disk.follow [] (disk.origin directory.path ++
    directory.front) = .ok (.directory trail)) :
    disk.follow [] (disk.origin directory.path ++ directory.path.steps) =
      .ok (.directory trail) := by
  rcases directory.steps_eq_front with same | slash
  · rw [same]
    exact walk
  · rw [slash, ← List.append_assoc]
    exact Disk.follow_slash walk

theorem text_join (directory : DataDirectory) (name : String) :
    ∃ more, (directory.path.join name).text = directory.path.text ++ more := by
  rcases directory.steps_eq_front with same | slash
  · have steps : (directory.path.join name).steps = directory.path.steps ++ [name] := by
      rw [same]
      rfl
    exact Path.exists_text_append steps
  · refine ⟨name, String.toList_injective ?_⟩
    rw [String.toList_append, Path.text, Path.text, join_eq, slash, String.toList_ofList,
      String.toList_ofList, List.append_assoc, Path.joinSlashes_concat]

/-- The directory of a file that is there need not be made. -/
theorem createDirectories_of_leads {number : Nat} {other : String}
    (leads : disk.Leads (directory.path.join name) place other number)
    (there : directory.place? disk = some place) :
    disk.createDirectories directory.path = (.ok (), disk) := by
  obtain ⟨trail, walk, -⟩ := place?_eq_some_iff.mp there
  refine Disk.createDirectories_of_start (follow_steps walk) fun named => ?_
  obtain ⟨first, -, -, begins, -⟩ := Disk.ending_eq_some_iff.mp leads.ending
  obtain ⟨more, whole⟩ := directory.text_join name
  obtain rfl : disk.origin directory.path = first := by
    rcases disk.start_cases (directory.path.join name) with it | ⟨fault, failed, -⟩
    · exact Except.ok.inj (it.symm.trans begins)
    · cases failed.symm.trans begins
  exact Disk.start_of_text begins whole rfl named

theorem createDirectories_parent (there : directory.place? disk = some place)
    (proper : Path.Proper name) :
    disk.createDirectories (directory.path.join name).parent = (.ok (), disk) ∨
      ∃ fault, disk.createDirectories (directory.path.join name).parent =
        (.error fault, disk) := by
  obtain ⟨trail, walk, -⟩ := place?_eq_some_iff.mp there
  have steps : (directory.path.join name).steps = directory.front ++ [name] := rfl
  rcases Path.parent_cases steps proper.busy with top | ⟨way, last, back, forth, -, parent⟩
  · obtain ⟨before, upTo⟩ := Disk.exists_follow_of_prefix walk
    rw [← List.append_nil (disk.origin directory.path)] at upTo
    rw [top]
    exact Disk.createDirectories_of_directory upTo
  · rw [forth, List.append_cons, ← List.append_assoc] at walk
    obtain ⟨before, upTo⟩ := Disk.exists_follow_of_prefix walk
    rw [parent]
    exact Disk.createDirectories_of_directory upTo

/-- Paths to files of the directory end there, whenever they can be followed. -/
theorem ending_join (proper : Path.Proper name) {other : String} :
    disk.ending (directory.path.join name) = .ok (some (place, other)) ↔
      disk.start (directory.path.join name) = .ok (disk.origin directory.path) ∧
        directory.place? disk = some place ∧ other = name := by
  have notEmpty : name ≠ "" := by
    rintro rfl
    cases proper.busy
  have notDot : name ≠ "." := by
    rintro rfl
    cases proper.busy
  have last : (directory.path.join name).steps.reverse.dropWhile (· == "") =
      name :: directory.front.reverse := by
    rw [join_eq, List.reverse_append, List.reverse_singleton, List.singleton_append,
      List.dropWhile_cons_of_neg (by simpa using notEmpty)]
  rw [Disk.ending_eq_some_iff, last, place?_eq_some_iff]
  constructor
  · rintro ⟨first, before, trail, begins, same, walk, -, -, rfl⟩
    obtain ⟨rfl, rfl⟩ := List.cons.inj same
    rw [List.reverse_reverse] at walk
    obtain rfl : disk.origin directory.path = first := by
      rcases disk.start_cases (directory.path.join name) with it | ⟨fault, failed, -⟩
      · exact Except.ok.inj (it.symm.trans begins)
      · cases failed.symm.trans begins
    exact ⟨begins, ⟨trail, Disk.follow_of_slash walk, rfl⟩, rfl⟩
  · rintro ⟨begins, ⟨trail, walk, rfl⟩, rfl⟩
    refine ⟨_, _, trail, begins, rfl, ?_, notDot, proper.forth, rfl⟩
    rw [List.reverse_reverse]
    exact Disk.follow_slash walk

theorem endsInSlash_join (proper : Path.Proper name) :
    (directory.path.join name).endsInSlash = false := by
  have notEmpty : name ≠ "" := by
    rintro rfl
    cases proper.busy
  simpa [Path.endsInSlash, join_eq] using notEmpty

/-- Whatever file the path to a name leads to, has the name in the directory. -/
theorem leads_join (proper : Path.Proper name) {found : Nat} {other : String} {number : Nat}
    (leads : disk.Leads (directory.path.join name) found other number) :
    directory.place? disk = some found ∧ other = name :=
  ((ending_join proper).mp leads.ending).2

/-- The place stays as long as no directory is moved. -/
theorem place?_of_alike (alike : disk.Alike after) (there : directory.place? disk = some place) :
    directory.place? after = some place := by
  obtain ⟨trail, walk, last⟩ := place?_eq_some_iff.mp there
  have same : after.origin directory.path = disk.origin directory.path := by
    rw [Disk.origin, Disk.origin, alike.workingDirectory]
  exact place?_eq_some_iff.mpr ⟨trail, by rw [same]; exact Disk.follow_of_alike alike walk, last⟩

theorem withExtension_join (directory : DataDirectory) (proper : Path.Proper name)
    (extension : String) : (directory.path.join name).withExtension extension =
      directory.path.join (Path.exchangeExtension name extension) := by
  have last : (directory.path.join name).steps.reverse.dropWhile Path.isIdle =
      name :: directory.front.reverse := by
    rw [join_eq, List.reverse_append, List.reverse_singleton, List.singleton_append,
      List.dropWhile_cons_of_neg (by simpa using proper.busy)]
  rw [Path.withExtension, last]
  simp [join_eq]

/-! The names that are in use -/

def journalName (index : Nat) : String := "bucket-" ++ toString index ++ ".journal"

/-- The name under which a journal is rewritten. -/
def draftName (index : Nat) : String := "bucket-" ++ toString index ++ ".compact"

/-- The name under which a layout is written. -/
def layoutDraft : String := "layout.tmp"

theorem journalPath_eq (directory : DataDirectory) (index : Nat) :
    directory.journalPath index = directory.path.join (journalName index) := rfl

theorem layoutPath_eq (directory : DataDirectory) :
    directory.layoutPath = directory.path.join Layout.fileName := rfl

theorem journalName_inj {index other : Nat} (same : journalName index = journalName other) :
    index = other := by
  have chars := congrArg String.toList same
  simp only [journalName, String.toList_append, List.append_cancel_right_eq,
    List.append_cancel_left_eq, Nat.toString_eq_ofList_toDigits, String.toList_ofList] at chars
  rw [← Nat.ofDigitChars_ten_toDigits (n := index), chars, Nat.ofDigitChars_ten_toDigits]

theorem getLast?_journalName (index : Nat) : (journalName index).toList.getLast? = some 'l' := by
  rw [journalName, String.toList_append, List.getLast?_append]
  rfl

theorem getLast?_draftName (index : Nat) : (draftName index).toList.getLast? = some 't' := by
  rw [draftName, String.toList_append, List.getLast?_append]
  rfl

theorem draftName_ne (index other : Nat) : journalName other ≠ draftName index := by
  intro same
  have last := getLast?_journalName other
  rw [same, getLast?_draftName] at last
  cases last

theorem proper_of_front {first : Char} {rest : List Char} (begins : name.toList = first :: rest)
    (letter : first ≠ '.') : Path.Proper name := by
  constructor
  · have notEmpty : name ≠ "" := by
      rintro rfl
      cases begins
    have notDot : name ≠ "." := by
      rintro rfl
      cases begins
      exact letter rfl
    simp [Path.isIdle, notEmpty, notDot]
  · rintro rfl
    cases begins
    exact letter rfl

theorem toList_journalName (index : Nat) : (journalName index).toList =
    'b' :: ("ucket-".toList ++ (toString index).toList ++ ".journal".toList) := by
  rw [journalName, String.toList_append, String.toList_append]
  rfl

theorem proper_journalName (index : Nat) : Path.Proper (journalName index) :=
  proper_of_front (toList_journalName index) (by decide)

theorem exchangeExtension_journalName (index : Nat) :
    Path.exchangeExtension (journalName index) FileJournal.compactExtension =
      draftName index := by
  have dots : '.' ∈ "ucket-".toList ++ (toString index).toList ++ ".journal".toList := by simp
  have kept : (("ucket-".toList ++ (toString index).toList ++ ".journal".toList).reverse.dropWhile
      (· != '.')).reverse = "ucket-".toList ++ (toString index).toList ++ ['.'] := by
    rw [List.reverse_append]
    have cut : ".journal".toList.reverse = "lanruoj".toList ++ ['.'] := by decide
    rw [cut]
    simp
  rw [Path.exchangeExtension, toList_journalName]
  dsimp only
  rw [if_pos dots, kept, if_neg (by simp)]
  apply String.toList_injective
  simp [draftName, FileJournal.compactExtension]

theorem proper_draftName (index : Nat) : Path.Proper (draftName index) := by
  have begins : (draftName index).toList =
      'b' :: ("ucket-".toList ++ (toString index).toList ++ ".compact".toList) := by
    rw [draftName, String.toList_append, String.toList_append]
    rfl
  exact proper_of_front begins (by decide)

theorem proper_layout : Path.Proper Layout.fileName := ⟨by decide, by decide⟩

theorem proper_layoutDraft : Path.Proper layoutDraft := ⟨by decide, by decide⟩

theorem layoutPath_withExtension (directory : DataDirectory) :
    directory.layoutPath.withExtension "tmp" = directory.path.join layoutDraft := by
  rw [layoutPath_eq, withExtension_join directory proper_layout]
  rfl

theorem journalPath_withExtension (directory : DataDirectory) (index : Nat) :
    (directory.journalPath index).withExtension FileJournal.compactExtension =
      directory.path.join (draftName index) := by
  rw [journalPath_eq, withExtension_join directory (proper_journalName index),
    exchangeExtension_journalName]

/-- No journal has the name of the layout. -/
theorem layout_ne (index : Nat) : Layout.fileName ≠ journalName index := by
  intro same
  have chars := congrArg String.toList same
  rw [toList_journalName] at chars
  cases chars

theorem layout_ne_draftName (index : Nat) : Layout.fileName ≠ draftName index := by
  intro same
  have last := getLast?_draftName index
  rw [← same] at last
  cases last

theorem layout_ne_layoutDraft : Layout.fileName ≠ layoutDraft := by decide

end DataDirectory

end DeliveryQueue
