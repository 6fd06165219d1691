import DeliveryQueue.Disk
import Std.Data.ExtTreeMap.Lemmas

/-!
Names on a disk and the files they lead to. A path that leads to a file (`Disk.Leads`) goes on
leading there as long as no directory is moved and no other file is given its name; whoever opens it
finds the file, and no directories are made on the way.
-/
namespace DeliveryQueue

namespace Path

theorem exists_joinSlashes_append (front back : List String) :
    ∃ more, joinSlashes (front ++ back) = joinSlashes front ++ more := by
  induction front with
  | nil => exact ⟨joinSlashes back, rfl⟩
  | cons step front ih =>
    cases front with
    | nil =>
      cases back with
      | nil => exact ⟨[], by simp [joinSlashes]⟩
      | cons next back => exact ⟨'/' :: joinSlashes (next :: back), rfl⟩
    | cons next front =>
      obtain ⟨more, rest⟩ := ih
      refine ⟨more, ?_⟩
      have further : next :: front ≠ [] := List.cons_ne_nil next front
      rw [List.cons_append, joinSlashes_cons (List.append_ne_nil_of_left_ne_nil further back), rest,
        joinSlashes_cons further, List.append_assoc]
      rfl

/-- The text of a path begins with that of any way along it. -/
theorem exists_text_append {path : Path} {front back : List String}
    (steps : path.steps = front ++ back) :
    ∃ more, path.text = (Path.mk path.absolute front).text ++ more := by
  obtain ⟨more, joined⟩ := exists_joinSlashes_append front back
  refine ⟨String.ofList more, ?_⟩
  rw [text, text, steps, joined, ← String.ofList_append, List.append_assoc]

theorem waysAlong_cases (before : List String) : waysAlong before = [] ∨
    ∃ idles name rest ways, before = idles ++ name :: rest ∧ isIdle name = false ∧
      waysAlong before = (name :: rest).reverse :: ways := by
  induction before with
  | nil => exact .inl rfl
  | cons step before ih =>
    unfold waysAlong
    split
    · rcases ih with none | ⟨idles, name, rest, ways, rfl, busy, first⟩
      · exact .inl none
      · exact .inr ⟨step :: idles, name, rest, ways, rfl, busy, first⟩
    · rename_i busy
      exact .inr ⟨[], step, before, waysAlong before, rfl, by simpa using busy, rfl⟩

/-- The way to the directory that a path ends in stops at the last step that is not idle. -/
theorem parent_cases {path : Path} {front : List String} {name : String}
    (steps : path.steps = front ++ [name]) (busy : isIdle name = false) :
    path.parent = ⟨path.absolute, []⟩ ∨
      ∃ way last back, front = way ++ last :: back ∧ isIdle last = false ∧
        path.parent = ⟨path.absolute, way ++ [last]⟩ := by
  have stages : path.ancestors = (waysAlong front.reverse).map (⟨path.absolute, ·⟩) := by
    rw [ancestors, Path.stages, steps, List.reverse_append, List.reverse_singleton,
      List.singleton_append, waysAlong, if_neg (by simp [busy])]
    rfl
  unfold parent
  rw [stages]
  rcases waysAlong_cases front.reverse with none | ⟨idles, last, rest, ways, before, other, first⟩
  · rw [none]
    exact .inl rfl
  · refine .inr ⟨rest.reverse, last, idles.reverse, ?_, other, ?_⟩
    · have forth := congrArg List.reverse before
      simpa using forth
    · rw [first]
      simp

end Path

namespace Disk

/-- What a name in a directory leads to, if anything. -/
def node? (disk : Disk) (directory : Nat) (name : String) : Option Node :=
  (disk.directory directory)[name]?

/-- Names lead to directories and files that are there. -/
structure Sound (disk : Disk) : Prop where
  root : 0 < disk.directories.size
  directories : ∀ ⦃directory name number⦄,
    disk.node? directory name = some (.directory number) → number < disk.directories.size
  files : ∀ ⦃directory name number⦄,
    disk.node? directory name = some (.file number) → number < disk.files.size

/-- The path names a file in a directory. -/
structure Leads (disk : Disk) (path : Path) (directory : Nat) (name : String) (number : Nat) :
    Prop where
  ending : disk.ending path = .ok (some (directory, name))
  plain : path.endsInSlash = false
  inside : directory < disk.directories.size
  fits : name.utf8ByteSize ≤ maxName
  node : disk.node? directory name = some (.file number)

/-- All directories keep their names. -/
structure Alike (disk after : Disk) : Prop where
  workingDirectory : after.workingDirectory = disk.workingDirectory
  size : after.directories.size = disk.directories.size
  directories : ∀ ⦃directory name number⦄, disk.node? directory name = some (.directory number) →
    after.node? directory name = some (.directory number)

variable {disk after : Disk} {path : Path} {directory number : Nat} {name : String} {node : Node}
variable {trail walked : Trail} {steps front back : List String}

theorem node?_empty (directory : Nat) (name : String) : empty.node? directory name = none := by
  cases directory with
  | zero => exact Std.ExtTreeMap.getElem?_empty
  | succ => exact Std.ExtTreeMap.getElem?_empty

theorem empty_sound : empty.Sound :=
  ⟨Nat.one_pos, fun _ _ _ found => by simp [node?_empty] at found,
    fun _ _ _ found => by simp [node?_empty] at found⟩

theorem Alike.refl (disk : Disk) : disk.Alike disk := ⟨rfl, rfl, fun _ _ _ found => found⟩

theorem Alike.trans {last : Disk} (first : disk.Alike after) (second : after.Alike last) :
    disk.Alike last :=
  ⟨second.workingDirectory.trans first.workingDirectory, second.size.trans first.size,
    fun _ _ _ found => second.directories (first.directories found)⟩

theorem entry_eq_ok_iff {found : Option Node} :
    disk.entry directory name = .ok found ↔
      name.utf8ByteSize ≤ maxName ∧ disk.node? directory name = found := by
  unfold entry node?
  split
  · rename_i long
    simp [Nat.not_le.mpr long]
  · rename_i short
    simp [Nat.le_of_not_lt short]

theorem node?_link (inside : directory < disk.directories.size) (name : String) (node : Node)
    (other : Nat) (otherName : String) :
    (disk.link directory name node).node? other otherName =
      if other = directory ∧ otherName = name then some node
      else disk.node? other otherName := by
  have there := Array.getElem?_eq_getElem inside
  unfold node? Disk.directory link
  rw [Array.getElem?_modify]
  by_cases same : directory = other
  · subst same
    simp only [if_true, there, Option.map_some, Option.getD_some, Std.ExtTreeMap.getElem?_insert,
      Std.compare_eq_iff_eq, true_and]
    simp only [eq_comm]
  · have differs : ¬ (other = directory ∧ otherName = name) := fun h => same h.1.symm
    rw [if_neg same, if_neg differs]

theorem node?_unlink (disk : Disk) (directory : Nat) (name : String) (other : Nat)
    (otherName : String) :
    (disk.unlink directory name).node? other otherName =
      if other = directory ∧ otherName = name then none else disk.node? other otherName := by
  unfold node? Disk.directory unlink
  rw [Array.getElem?_modify]
  by_cases same : directory = other
  · subst same
    cases there : disk.directories[directory]? with
    | none => simp
    | some names =>
      simp only [if_true, Option.map_some, Option.getD_some, Std.ExtTreeMap.getElem?_erase,
        Std.compare_eq_iff_eq, true_and]
      simp only [eq_comm]
  · have differs : ¬ (other = directory ∧ otherName = name) := fun h => same h.1.symm
    rw [if_neg same, if_neg differs]

/-! Walks -/

/-- One step of a walk from directory to directory. -/
inductive Enters (disk : Disk) (trail : Trail) (step : String) : Trail → Prop
  | idle (stays : Path.isIdle step = true) : Enters disk trail step trail
  | up (busy : Path.isIdle step = false) (back : step = "..") : Enters disk trail step trail.tail
  | down {number : Nat} (busy : Path.isIdle step = false) (forth : step ≠ "..")
      (found : disk.entry trail.last step = .ok (some (.directory number))) :
      Enters disk trail step (number :: trail)

theorem Enters.follow {step : String} {next : Trail} (enters : disk.Enters trail step next)
    (rest : List String) : disk.follow trail (step :: rest) = disk.follow next rest := by
  cases enters with
  | idle stays => rw [Disk.follow, if_pos stays]
  | up busy back => rw [Disk.follow, busy, if_neg Bool.false_ne_true, if_pos back]
  | down busy forth found =>
    rw [Disk.follow, busy, if_neg Bool.false_ne_true, if_neg forth, found]

/-- On the way to a directory there are only directories. -/
theorem exists_enters {step : String}
    (walk : disk.follow trail (step :: steps) = .ok (.directory walked)) :
    ∃ next, disk.Enters trail step next ∧ disk.follow next steps = .ok (.directory walked) := by
  unfold follow at walk
  split at walk
  · rename_i stays
    exact ⟨trail, .idle stays, walk⟩
  · rename_i busy
    rw [Bool.not_eq_true] at busy
    split at walk
    · rename_i back
      exact ⟨trail.tail, .up busy back, walk⟩
    · rename_i forth
      split at walk
      · cases walk
      · cases walk
      · rename_i number found
        exact ⟨number :: trail, .down busy forth found, walk⟩
      · split at walk <;> cases walk

theorem Enters.of_alike {step : String} {next : Trail} (alike : disk.Alike after)
    (enters : disk.Enters trail step next) : after.Enters trail step next := by
  cases enters with
  | idle stays => exact .idle stays
  | up busy back => exact .up busy back
  | down busy forth found =>
    obtain ⟨short, there⟩ := entry_eq_ok_iff.mp found
    exact .down busy forth (entry_eq_ok_iff.mpr ⟨short, alike.directories there⟩)

/-- A walk that ends in a directory is the same where the directories have the same names. -/
theorem follow_of_alike (alike : disk.Alike after)
    (walk : disk.follow trail steps = .ok (.directory walked)) :
    after.follow trail steps = .ok (.directory walked) := by
  induction steps generalizing trail with
  | nil => exact walk
  | cons step steps ih =>
    obtain ⟨next, enters, rest⟩ := exists_enters walk
    rw [(enters.of_alike alike).follow]
    exact ih rest

/-- Where the front of a walk leads to a directory, its back goes on from there. -/
theorem follow_append (walk : disk.follow trail (front ++ [""]) = .ok (.directory walked))
    (back : List String) : disk.follow trail (front ++ back) = disk.follow walked back := by
  induction front generalizing trail with
  | nil =>
    cases walk
    rfl
  | cons step front ih =>
    obtain ⟨next, enters, rest⟩ := exists_enters walk
    rw [List.cons_append, enters.follow]
    exact ih rest

theorem exists_follow_front
    (walk : disk.follow trail (front ++ back) = .ok (.directory walked)) :
    ∃ before, disk.follow trail (front ++ [""]) = .ok (.directory before) := by
  induction front generalizing trail with
  | nil => exact ⟨trail, rfl⟩
  | cons step front ih =>
    obtain ⟨next, enters, rest⟩ := exists_enters walk
    rw [List.cons_append, enters.follow]
    exact ih rest

/-- Walks stay among the directories that are there. -/
theorem Sound.follow (sound : disk.Sound) (start : ∀ n ∈ trail, n < disk.directories.size)
    (walk : disk.follow trail steps = .ok (.directory walked)) :
    ∀ n ∈ walked, n < disk.directories.size := by
  induction steps generalizing trail with
  | nil =>
    cases walk
    exact start
  | cons step steps ih =>
    obtain ⟨next, enters, rest⟩ := exists_enters walk
    refine ih ?_ rest
    cases enters with
    | idle => exact start
    | up => exact fun n member => start n (List.mem_of_mem_tail member)
    | down _ _ found =>
      exact List.forall_mem_cons.mpr ⟨sound.directories (entry_eq_ok_iff.mp found).2, start⟩

theorem Sound.last (sound : disk.Sound) (inside : ∀ n ∈ trail, n < disk.directories.size) :
    trail.last < disk.directories.size := by
  cases trail with
  | nil => exact sound.root
  | cons n trail => exact inside n List.mem_cons_self

/-! Endings -/

/-- What it takes for a path to end in a name. -/
theorem ending_eq_some_iff : disk.ending path = .ok (some (directory, name)) ↔
    ∃ first before trail, disk.start path = .ok first ∧
      path.steps.reverse.dropWhile (· == "") = name :: before ∧
      disk.follow [] (first ++ before.reverse ++ [""]) = .ok (.directory trail) ∧
      name ≠ "." ∧ name ≠ ".." ∧ directory = trail.last := by
  unfold ending
  constructor
  · intro ends
    cases begins : disk.start path with
    | error fault => simp [begins, bind, Except.bind] at ends
    | ok first =>
      simp only [begins, bind, Except.bind] at ends
      split at ends
      · cases ends
      · rename_i last before steps
        split at ends
        · cases ends
        · rename_i target walk
          cases target with
          | file => cases ends
          | directory trail =>
            dsimp only [pure, Except.pure] at ends
            split at ends
            · cases ends
            · rename_i proper
              obtain ⟨notDot, notUp⟩ := not_or.mp proper
              cases ends
              exact ⟨first, before, trail, rfl, steps, walk, notDot, notUp, rfl⟩
  · rintro ⟨first, before, trail, begins, steps, walk, notDot, notUp, rfl⟩
    rw [begins]
    simp only [bind, Except.bind, steps, walk, notDot, notUp, or_self, if_false, pure, Except.pure]

theorem ending_of_alike (alike : disk.Alike after)
    (ends : disk.ending path = .ok (some (directory, name))) :
    after.ending path = .ok (some (directory, name)) := by
  obtain ⟨first, before, trail, begins, steps, walk, notDot, notUp, last⟩ :=
    ending_eq_some_iff.mp ends
  refine ending_eq_some_iff.mpr ⟨first, before, trail, ?_, steps, follow_of_alike alike walk,
    notDot, notUp, last⟩
  rw [← begins, start, start, alike.workingDirectory]

theorem Sound.ending (sound : disk.Sound)
    (ends : disk.ending path = .ok (some (directory, name))) :
    directory < disk.directories.size := by
  obtain ⟨first, before, trail, -, -, walk, -, -, rfl⟩ := ending_eq_some_iff.mp ends
  exact sound.last (sound.follow (by simp) walk)

/-- A path that does not end in a slash ends in its last step. -/
theorem steps_eq_of_ending (plain : path.endsInSlash = false)
    (ends : path.steps.reverse.dropWhile (· == "") = name :: front) :
    path.steps = front.reverse ++ [name] ∧ name ≠ "" := by
  cases steps : path.steps.reverse with
  | nil =>
    rw [steps] at ends
    cases ends
  | cons last before =>
    have forth : path.steps = before.reverse ++ [last] := by
      rw [← List.reverse_reverse path.steps, steps, List.reverse_cons]
    have proper : last ≠ "" := by simpa [Path.endsInSlash, forth] using plain
    rw [steps, List.dropWhile_cons_of_neg (by simpa using proper)] at ends
    cases ends
    exact ⟨forth, proper⟩

namespace Leads

theorem of_alike (leads : disk.Leads path directory name number) (alike : disk.Alike after)
    {new : Nat} (node : after.node? directory name = some (.file new)) :
    after.Leads path directory name new :=
  ⟨ending_of_alike alike leads.ending, leads.plain, alike.size ▸ leads.inside, leads.fits, node⟩

theorem resolve (leads : disk.Leads path directory name number) :
    disk.resolve path = .ok (.file directory name number) := by
  obtain ⟨first, before, trail, begins, ends, walk, notDot, notUp, rfl⟩ :=
    ending_eq_some_iff.mp leads.ending
  obtain ⟨steps, notEmpty⟩ := steps_eq_of_ending leads.plain ends
  have busy : Path.isIdle name = false := by simp [Path.isIdle, notEmpty, notDot]
  have found : disk.entry trail.last name = .ok (some (.file number)) :=
    entry_eq_ok_iff.mpr ⟨leads.fits, leads.node⟩
  have rest := follow_append walk [name]
  rw [List.append_assoc, ← steps] at rest
  unfold Disk.resolve
  rw [begins]
  simp only [bind, Except.bind, rest, follow, busy, notUp, found, Bool.false_eq_true, if_false,
    if_true]

theorem openFile (leads : disk.Leads path directory name number) :
    disk.openFile path = .ok number := by
  unfold Disk.openFile findFile
  rw [leads.resolve]
  rfl

theorem findFile (leads : disk.Leads path directory name number) :
    disk.findFile path = .ok (directory, name, number) := by
  unfold Disk.findFile
  rw [leads.resolve]

theorem openOrCreate (leads : disk.Leads path directory name number) :
    disk.openOrCreate path = .ok (number, disk) := by
  have found : disk.entry directory name = .ok (some (.file number)) :=
    entry_eq_ok_iff.mpr ⟨leads.fits, leads.node⟩
  unfold Disk.openOrCreate
  simp only [leads.ending, leads.plain, found, Bool.false_eq_true, if_false]

end Leads

/-! Files -/

theorem file_changeContent (disk : Disk) (number : Nat) (change : FileContent → FileContent)
    (other : Nat) : (disk.changeContent number change).file other =
      if other = number ∧ number < disk.files.size then change (disk.file number)
      else disk.file other := by
  unfold file changeContent
  rw [Array.getElem?_modify]
  by_cases same : number = other
  · subst same
    cases there : disk.files[number]? with
    | none =>
      have outside : ¬ number < disk.files.size :=
        Nat.not_lt.mpr (Array.getElem?_eq_none_iff.mp there)
      simp [outside]
    | some content =>
      have inside : number < disk.files.size := (Array.getElem?_eq_some_iff.mp there).1
      simp [inside]
  · have differs : ¬ (other = number ∧ number < disk.files.size) := fun h => same h.1.symm
    rw [if_neg same, if_neg differs]

theorem changeContent_alike (disk : Disk) (number : Nat) (change : FileContent → FileContent) :
    disk.Alike (disk.changeContent number change) := ⟨rfl, rfl, fun _ _ _ found => found⟩

theorem Leads.changeContent (leads : disk.Leads path directory name number) (other : Nat)
    (change : FileContent → FileContent) :
    (disk.changeContent other change).Leads path directory name number :=
  leads.of_alike (changeContent_alike disk other change) leads.node

theorem Sound.changeContent (sound : disk.Sound) (number : Nat)
    (change : FileContent → FileContent) : (disk.changeContent number change).Sound where
  root := sound.root
  directories := sound.directories
  files _ _ _ found := by
    rw [Disk.changeContent, Array.size_modify]
    exact sound.files found

/-- What opening finds or makes. -/
theorem openOrCreate_cases (opened : disk.openOrCreate path = .ok (number, after)) :
    ∃ directory name, disk.ending path = .ok (some (directory, name)) ∧
      path.endsInSlash = false ∧ name.utf8ByteSize ≤ maxName ∧
      ((disk.node? directory name = some (.file number) ∧ after = disk) ∨
        disk.node? directory name = none ∧ number = disk.files.size ∧
          after = { disk with files := disk.files.push .empty }.link directory name
            (.file number)) := by
  unfold openOrCreate at opened
  split at opened
  · cases opened
  · cases opened
  · rename_i directory name ends
    split at opened
    · cases opened
    · rename_i plain
      rw [Bool.not_eq_true] at plain
      split at opened
      · cases opened
      · cases opened
      · rename_i found
        obtain ⟨fits, there⟩ := entry_eq_ok_iff.mp found
        cases opened
        exact ⟨directory, name, ends, plain, fits, .inl ⟨there, rfl⟩⟩
      · rename_i found
        obtain ⟨fits, there⟩ := entry_eq_ok_iff.mp found
        cases opened
        exact ⟨directory, name, ends, plain, fits, .inr ⟨there, rfl, rfl⟩⟩

/-- The node is a directory or a file that is there. -/
def Holds (disk : Disk) : Node → Prop
  | .directory number => number < disk.directories.size
  | .file number => number < disk.files.size

theorem Sound.holds (sound : disk.Sound) (found : disk.node? directory name = some node) :
    disk.Holds node := by
  cases node with
  | directory => exact sound.directories found
  | file => exact sound.files found

theorem Sound.link (sound : disk.Sound) (inside : directory < disk.directories.size)
    (holds : disk.Holds node) : (disk.link directory name node).Sound := by
  have size : (disk.link directory name node).directories.size = disk.directories.size :=
    Array.size_modify
  have all {other otherName found} (there :
      (disk.link directory name node).node? other otherName = some found) : disk.Holds found := by
    rw [node?_link inside] at there
    split at there
    · cases there
      exact holds
    · exact sound.holds there
  exact ⟨size ▸ sound.root, fun _ _ _ there => size ▸ all there, fun _ _ _ there => all there⟩

theorem Sound.unlink (sound : disk.Sound) (directory : Nat) (name : String) :
    (disk.unlink directory name).Sound := by
  have size : (disk.unlink directory name).directories.size = disk.directories.size :=
    Array.size_modify
  have all {other otherName found} (there :
      (disk.unlink directory name).node? other otherName = some found) : disk.Holds found := by
    rw [node?_unlink] at there
    split at there
    · cases there
    · exact sound.holds there
  exact ⟨size ▸ sound.root, fun _ _ _ there => size ▸ all there, fun _ _ _ there => all there⟩

theorem link_alike (inside : directory < disk.directories.size)
    (free : ∀ number, disk.node? directory name ≠ some (.directory number)) (node : Node) :
    disk.Alike (disk.link directory name node) := by
  refine ⟨rfl, Array.size_modify, fun other otherName number found => ?_⟩
  rw [node?_link inside, if_neg ?_]
  · exact found
  · rintro ⟨rfl, rfl⟩
    exact free number found

theorem unlink_alike (there : disk.node? directory name = some (.file number)) :
    disk.Alike (disk.unlink directory name) := by
  refine ⟨rfl, Array.size_modify, fun other otherName number found => ?_⟩
  rw [node?_unlink, if_neg ?_]
  · exact found
  · rintro ⟨rfl, rfl⟩
    cases found.symm.trans there

/-- After a call that made or changed one file at most, names lead where they led. -/
structure Spares (disk after : Disk) : Prop where
  sound : after.Sound
  alike : disk.Alike after
  leads : ∀ ⦃path directory name number⦄, disk.Leads path directory name number →
    after.Leads path directory name number

theorem openOrCreate_leads (sound : disk.Sound)
    (opened : disk.openOrCreate path = .ok (number, after)) :
    disk.Spares after ∧ number < after.files.size ∧
      ∃ directory name, after.Leads path directory name number := by
  obtain ⟨directory, name, ends, plain, fits, cases⟩ := openOrCreate_cases opened
  have inside := sound.ending ends
  rcases cases with ⟨there, rfl⟩ | ⟨free, rfl, rfl⟩
  · exact ⟨⟨sound, .refl _, fun _ _ _ _ leads => leads⟩, sound.files there, directory, name,
      ⟨ends, plain, inside, fits, there⟩⟩
  · let longer : Disk := { disk with files := disk.files.push .empty }
    have room : disk.files.size < longer.files.size := by
      rw [Array.size_push]
      exact Nat.lt_succ_self _
    have safe : longer.Sound :=
      ⟨sound.root, sound.directories, fun _ _ _ found => Nat.lt_trans (sound.files found) room⟩
    have none : longer.node? directory name = none := free
    have place : directory < longer.directories.size := inside
    have alike : longer.Alike (longer.link directory name (.file disk.files.size)) :=
      link_alike place (fun number found => by cases none.symm.trans found) _
    have same : disk.Alike longer := ⟨rfl, rfl, fun _ _ _ found => found⟩
    have placed := node?_link place name (.file disk.files.size)
    refine ⟨⟨safe.link inside room, same.trans alike, ?_⟩, room, directory, name,
      ⟨ending_of_alike (same.trans alike) ends, plain, ?_, fits, ?_⟩⟩
    · intro other otherDirectory otherName file leads
      refine leads.of_alike (same.trans alike) ?_
      rw [placed, if_neg ?_]
      · exact leads.node
      · rintro ⟨rfl, rfl⟩
        cases free.symm.trans leads.node
    · rw [alike.size]
      exact inside
    · rw [placed, if_pos ⟨rfl, rfl⟩]

/-- A file that was not there before is empty. -/
theorem content_openOrCreate (opened : disk.openOrCreate path = .ok (number, after)) :
    after = disk ∨ after.content number = [] := by
  obtain ⟨directory, name, -, -, -, ⟨-, same⟩ | ⟨-, rfl, rfl⟩⟩ := openOrCreate_cases opened
  · exact .inl same
  · exact .inr (by simp [content, file, Disk.link])

theorem Spares.changeContent (spares : disk.Spares after) (number : Nat)
    (change : FileContent → FileContent) : disk.Spares (after.changeContent number change) where
  sound := spares.sound.changeContent number change
  alike := spares.alike.trans (changeContent_alike after number change)
  leads _ _ _ _ leads := (spares.leads leads).changeContent number change

theorem writeFile_leads (sound : disk.Sound) {bytes : Bytes}
    (written : disk.writeFile path bytes = .ok after) :
    disk.Spares after ∧ ∃ directory name number, after.Leads path directory name number ∧
      after.content number = bytes := by
  unfold writeFile at written
  cases opened : disk.openOrCreate path with
  | error fault => simp [opened, bind, Except.bind] at written
  | ok found =>
    obtain ⟨number, middle⟩ := found
    simp only [opened, bind, Except.bind, pure, Except.pure, Except.ok.injEq] at written
    subst written
    obtain ⟨spares, there, directory, name, leads⟩ := openOrCreate_leads sound opened
    refine ⟨spares.changeContent number _, directory, name, number,
      leads.changeContent number _, ?_⟩
    rw [content, setContent, file_changeContent, if_pos ⟨rfl, there⟩, FileContent.bytes_ofBytes]

/-- A file takes the name of another. -/
theorem renameFile_leads (sound : disk.Sound) {source : Path} {oldDirectory old : Nat}
    {oldName : String} (leads : disk.Leads source oldDirectory oldName number)
    (target : disk.Leads path directory name old) :
    ∃ after, disk.renameFile source path = .ok after ∧ after.Sound ∧
      after.Leads path directory name number ∧ after.files = disk.files := by
  have found : disk.entry directory name = .ok (some (.file old)) :=
    entry_eq_ok_iff.mpr ⟨target.fits, target.node⟩
  have alike := unlink_alike leads.node
  have inside : directory < (disk.unlink oldDirectory oldName).directories.size :=
    alike.size ▸ target.inside
  have free (other : Nat) :
      (disk.unlink oldDirectory oldName).node? directory name ≠ some (.directory other) := by
    intro there
    rw [node?_unlink] at there
    split at there
    · cases there
    · cases target.node.symm.trans there
  refine ⟨(disk.unlink oldDirectory oldName).link directory name (.file number), ?_, ?_, ?_, rfl⟩
  · unfold renameFile
    simp only [leads.findFile, target.ending, target.plain, found, bind, Except.bind, pure,
      Except.pure, Bool.false_eq_true, if_false]
  · exact (sound.unlink oldDirectory oldName).link inside (sound.files leads.node)
  · refine target.of_alike (alike.trans (link_alike inside free _)) ?_
    rw [node?_link inside, if_pos ⟨rfl, rfl⟩]

/-! Directories -/

theorem node?_push (disk : Disk) (other : Nat) (otherName : String) :
    { disk with directories := disk.directories.push ∅ }.node? other otherName =
      disk.node? other otherName := by
  unfold node? Disk.directory
  rw [Array.getElem?_push]
  split
  · rename_i new
    rw [new, Array.getElem?_eq_none (Nat.le_refl _)]
    rfl
  · rfl

/-- A directory is made where nothing has its name. -/
theorem createDirectory_cases (made : disk.createDirectory path = .ok after) :
    ∃ directory name, disk.ending path = .ok (some (directory, name)) ∧
      disk.node? directory name = none ∧
      after = { disk with directories := disk.directories.push ∅ }.link directory name
        (.directory disk.directories.size) := by
  unfold Disk.createDirectory at made
  cases ends : disk.ending path with
  | error fault => simp [ends, bind, Except.bind] at made
  | ok found =>
    cases found with
    | none => simp [ends, bind, Except.bind] at made
    | some place =>
      obtain ⟨directory, name⟩ := place
      simp only [ends, bind, Except.bind] at made
      cases taken : disk.entry directory name with
      | error fault => simp [taken] at made
      | ok node =>
        cases node with
        | some node => simp [taken] at made
        | none =>
          rw [taken] at made
          cases made
          exact ⟨directory, name, rfl, (entry_eq_ok_iff.mp taken).2, rfl⟩

theorem Sound.createDirectory (sound : disk.Sound)
    (made : disk.createDirectory path = .ok after) : after.Sound := by
  obtain ⟨directory, name, ends, -, rfl⟩ := createDirectory_cases made
  let larger : Disk := { disk with directories := disk.directories.push ∅ }
  have size : larger.directories.size = disk.directories.size + 1 := Array.size_push _
  have safe : larger.Sound := by
    refine ⟨by omega, fun other otherName n found => ?_, fun other otherName n found => ?_⟩
    · rw [node?_push] at found
      have inside := sound.directories found
      omega
    · rw [node?_push] at found
      exact sound.files found
  have inside := sound.ending ends
  have room : disk.directories.size < larger.directories.size := by omega
  exact safe.link (Nat.lt_trans inside room) room

theorem Sound.ensureDirectory (sound : disk.Sound) (path : Path) :
    (disk.ensureDirectory path).2.Sound := by
  unfold Disk.ensureDirectory
  split
  · rename_i made
    exact sound.createDirectory made
  · exact sound

theorem Sound.createAlong (sound : disk.Sound) (paths : List Path) :
    (disk.createAlong paths).2.Sound := by
  induction paths generalizing disk with
  | nil => exact sound
  | cons path further ih =>
    have first := sound.ensureDirectory path
    unfold Disk.createAlong
    split
    · rename_i middle missing
      rw [missing] at first
      have rest := ih first
      split
      · rename_i last made
        rw [made] at rest
        exact rest.ensureDirectory path
      · exact rest
    · exact first

theorem Sound.createDirectories (sound : disk.Sound) (path : Path) :
    (disk.createDirectories path).2.Sound := by
  unfold Disk.createDirectories
  split
  · exact sound
  · exact sound.createAlong _

/-- A directory on the way to another is there already. -/
theorem ensureDirectory_of_walk {first : List String} (begins : disk.start path = .ok first)
    (steps : path.steps = front ++ [name]) (busy : Path.isIdle name = false)
    (walk : disk.follow [] (first ++ front ++ name :: back) = .ok (.directory walked)) :
    disk.ensureDirectory path = (.ok (), disk) := by
  obtain ⟨above, upTo⟩ := exists_follow_front walk
  have onward := (follow_append upTo (name :: back)).symm.trans walk
  have whole : first ++ front ++ name :: back = first ++ path.steps ++ back := by
    rw [steps, List.append_assoc, List.append_assoc, List.append_assoc]
    rfl
  rw [whole] at walk
  obtain ⟨it, upToIt⟩ := exists_follow_front walk
  have resolved := follow_append upToIt []
  rw [List.append_nil] at resolved
  have there : disk.isDirectory path = true := by
    unfold isDirectory resolve
    rw [begins]
    simp only [bind, Except.bind, resolved, follow]
  have last : path.steps.reverse.dropWhile (· == "") = name :: front.reverse := by
    have notEmpty : name ≠ "" := by
      rintro rfl
      cases busy
    rw [steps, List.reverse_append, List.reverse_singleton, List.singleton_append,
      List.dropWhile_cons_of_neg (by simpa using notEmpty)]
  have refused : disk.createDirectory path = .error .alreadyExists := by
    obtain ⟨next, enters, -⟩ := exists_enters onward
    unfold Disk.createDirectory ending
    rw [begins]
    simp only [bind, Except.bind, pure, Except.pure, last, List.reverse_reverse, upTo]
    cases enters with
    | idle stays => cases busy.symm.trans stays
    | up _ up => simp only [up, or_true, if_true]
    | down _ forth found =>
      have notDot : name ≠ "." := by
        rintro rfl
        cases busy
      simp only [notDot, forth, or_self, if_false, found]
  unfold Disk.ensureDirectory
  rw [refused]
  simp only [there, if_true]

theorem start_of_text {other : Path} {more : String} {first : List String}
    (begins : disk.start path = .ok first) (whole : path.text = other.text ++ more)
    (same : other.absolute = path.absolute) (named : other.text ≠ "") :
    disk.start other = .ok first := by
  unfold start at begins ⊢
  dsimp only at begins ⊢
  split at begins
  · cases begins
  · rename_i clean
    split at begins
    · cases begins
    · split at begins
      · cases begins
      · rename_i short
        rw [whole, String.toList_append, List.mem_append, not_or] at clean
        rw [whole, String.utf8ByteSize_append] at short
        rw [if_neg clean.1, if_neg named, if_neg (by omega), same]
        exact begins

theorem start_front {first : List String} (begins : disk.start path = .ok first)
    (steps : path.steps = front ++ back) (named : (Path.mk path.absolute front).text ≠ "") :
    disk.start ⟨path.absolute, front⟩ = .ok first := by
  obtain ⟨more, whole⟩ := Path.exists_text_append steps
  exact start_of_text begins whole rfl named

/-- No directories are missing on the way to a file. -/
theorem Leads.createDirectories (leads : disk.Leads path directory name number) :
    disk.createDirectories path.parent = (.ok (), disk) := by
  obtain ⟨first, before, trail, begins, ends, walk, notDot, notUp, -⟩ :=
    ending_eq_some_iff.mp leads.ending
  obtain ⟨steps, notEmpty⟩ := steps_eq_of_ending leads.plain ends
  have busy : Path.isIdle name = false := by simp [Path.isIdle, notEmpty, notDot]
  unfold Disk.createDirectories
  split
  · rfl
  · rename_i named
    have there : disk.ensureDirectory path.parent = (.ok (), disk) := by
      rcases Path.parent_cases steps busy with top | ⟨way, last, back, forth, other, parent⟩
      · rw [top] at named ⊢
        have starts := start_front begins (List.nil_append _).symm named
        rw [List.append_assoc] at walk
        obtain ⟨base, upTo⟩ := exists_follow_front walk
        have resolved := follow_append upTo []
        have stands : disk.isDirectory ⟨path.absolute, []⟩ = true := by
          unfold isDirectory Disk.resolve
          rw [starts]
          simp only [bind, Except.bind, resolved, follow]
        have refused : disk.createDirectory ⟨path.absolute, []⟩ = .error .alreadyExists := by
          unfold Disk.createDirectory Disk.ending
          rw [starts]
          rfl
        unfold ensureDirectory
        rw [refused]
        simp only [stands, if_true]
      · have whole : path.steps = (way ++ [last]) ++ (back ++ [name]) := by simp [steps, forth]
        have starts := start_front begins whole (parent ▸ named)
        have onward : first ++ before.reverse ++ [""] =
            first ++ way ++ last :: (back ++ [""]) := by simp [forth]
        rw [parent]
        exact ensureDirectory_of_walk starts rfl other (onward ▸ walk)
    rw [createAlong, there]

end Disk

end DeliveryQueue
