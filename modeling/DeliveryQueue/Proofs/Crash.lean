import DeliveryQueue.Proofs.LogFile
import DeliveryQueue.Proofs.Recovery

/-!
Crashes. A bucket over a journal file commits transactions and compacts its journal; the changes of
the records in the file are those that were committed since the last compaction, behind a snapshot
(`Desk.Logs`). However a crash cuts the file behind its header, the bucket that is rebuilt from it
holds what the whole records left in it say, and works on from there (`Desk.crash_keeps_prefix`).
-/
namespace DeliveryQueue

/-- A bucket at work, with the budget and the disk that it uses. -/
structure Desk where
  bucket : Bucket
  budget : Budget
  disk : Disk

inductive Task
  | commit (changes : List Change)
  | compact

/-- Entries, and the changes of each record of the journal. -/
abbrev Ledger := Entries × List (List Change)

/-- What a task does. Without changes there is nothing to journal. -/
def Task.write (ledger : Ledger) : Task → Ledger
  | commit changes =>
    (Change.actAll ledger.1 changes, if changes = [] then ledger.2 else ledger.2 ++ [changes])
  | compact => (ledger.1, [snapshot ledger.1])

def Task.writeAll (ledger : Ledger) (tasks : List Task) : Ledger := tasks.foldl write ledger

/-- The entries that records say, as they read after they were written. -/
def Entries.replayed (log : List (List Change)) : Entries :=
  Change.actAll Table.empty (log.flatten.map Change.spelled)

namespace Desk

/-- The desk after a task that succeeds. -/
def step? (desk : Desk) : Task → Option Desk
  | .commit changes =>
    let done := desk.bucket.commit desk.budget desk.disk changes
    match done.answer with
    | .ok _ => some ⟨done.bucket, done.budget, done.disk⟩
    | .error _ => none
  | .compact =>
    match desk.bucket.compact desk.disk with
    | (.ok (), bucket, disk) => some ⟨bucket, desk.budget, disk⟩
    | (.error _, _, _) => none

def run? (desk : Desk) (tasks : List Task) : Option Desk := tasks.foldlM step? desk

/-- A bucket without entries over a journal, ready for work. -/
def ofJournal (index : Nat) (budget : Budget) (journal : FileJournal) (disk : Disk) : Desk :=
  ⟨.ofJournal index (.file journal), budget, disk⟩

/-- The bucket rebuilt from its journal, if that succeeds. -/
def recover? (desk : Desk) : Option Desk :=
  let rebuilt := desk.bucket.recover desk.budget desk.disk
  match rebuilt.answer with
  | .ok _ => some ⟨rebuilt.bucket, rebuilt.budget, rebuilt.disk⟩
  | .error _ => none

/-- The journal of the bucket is a file that holds these records. -/
structure Logs (desk : Desk) (path : Path) (log : List (List Change)) : Prop where
  journal : ∃ journal, desk.bucket.journal = .file journal ∧ journal.path = path ∧
    journal.Holds desk.disk (log.map Batch.bytes)
  fits : ∀ changes ∈ log, Batch.Fits (changes.flatMap Batch.changeTexts)

variable {desk after : Desk} {path : Path} {log : List (List Change)} {task : Task}
variable {tasks : List Task}

theorem Logs.commit (logs : desk.Logs path log) {changes : List Change}
    (done : desk.step? (.commit changes) = some after) :
    after.bucket.entries = Change.actAll desk.bucket.entries changes ∧
      after.Logs path (if changes = [] then log else log ++ [changes]) := by
  obtain ⟨⟨journal, at_, same, holds⟩, fits⟩ := logs
  simp only [step?, Bucket.commit] at done
  by_cases idle : changes = []
  · simp only [idle, List.isEmpty_nil, if_true] at done
    cases done
    rw [if_pos idle, idle]
    exact ⟨rfl, ⟨journal, at_, same, holds⟩, fits⟩
  · have busy : changes.isEmpty = false := by simpa using idle
    rw [if_neg idle]
    cases encoded : Batch.encode changes with
    | error fault => simp [busy, encoded] at done
    | ok batch =>
      obtain ⟨short, rfl⟩ := Batch.encode_eq_ok_iff.mp encoded
      rcases Nat.lt_or_ge (Batch.bytes changes).length UInt32.size with light | heavy
      · obtain ⟨longer, left, appended, next, -, path⟩ := holds.append light
        simp only [busy, encoded, at_, Journal.append, appended, Bool.false_eq_true, if_false,
          Option.some.injEq] at done
        have frame := Bucket.applyAll_frame { desk.bucket with journal := .file longer }
          desk.budget changes
        subst done
        refine ⟨frame.1, ⟨longer, frame.2.1, path.trans same, ?_⟩, ?_⟩
        · rw [List.map_append]
          exact next
        · intro other member
          rcases List.mem_append.mp member with old | new
          · exact fits other old
          · rw [List.mem_singleton.mp new]
            exact short
      · simp [busy, encoded, at_, Journal.append, holds.append_of_heavy heavy] at done

theorem Logs.compact (logs : desk.Logs path log) (done : desk.step? .compact = some after) :
    after.bucket.entries = desk.bucket.entries ∧
      after.Logs path [snapshot desk.bucket.entries] := by
  obtain ⟨⟨journal, at_, same, holds⟩, fits⟩ := logs
  have encoding : Batch.encodeSnapshot desk.bucket.entries.bindings =
      Batch.encode (snapshot desk.bucket.entries) := Batch.encodeSnapshot_eq_encode _
  simp only [step?, Bucket.compact, encoding] at done
  cases encoded : Batch.encode (snapshot desk.bucket.entries) with
  | error fault => simp [encoded] at done
  | ok batch =>
    obtain ⟨short, rfl⟩ := Batch.encode_eq_ok_iff.mp encoded
    simp only [encoded, at_, Journal.replaceAll] at done
    cases replaced : journal.replaceAll desk.disk (Batch.bytes (snapshot desk.bucket.entries)) with
    | mk answer reached =>
      obtain ⟨fresh, left⟩ := reached
      cases answer with
      | error fault => simp [replaced] at done
      | ok =>
        obtain ⟨alone, -, path⟩ := holds.replaceAll replaced
        simp only [replaced, Option.some.injEq] at done
        subst done
        refine ⟨rfl, ⟨fresh, rfl, path.trans same, alone⟩, ?_⟩
        intro other member
        rw [List.mem_singleton.mp member]
        exact short

/-- What is journaled is what tasks write. -/
theorem Logs.step (logs : desk.Logs path log) (done : desk.step? task = some after) :
    after.bucket.entries = (task.write (desk.bucket.entries, log)).1 ∧
      after.Logs path (task.write (desk.bucket.entries, log)).2 := by
  cases task with
  | commit changes => exact logs.commit done
  | compact => exact logs.compact done

theorem Logs.run (logs : desk.Logs path log) (done : desk.run? tasks = some after) :
    after.bucket.entries = (Task.writeAll (desk.bucket.entries, log) tasks).1 ∧
      after.Logs path (Task.writeAll (desk.bucket.entries, log) tasks).2 := by
  induction tasks generalizing desk log with
  | nil =>
    cases done
    exact ⟨rfl, logs⟩
  | cons task tasks ih =>
    rw [run?, List.foldlM_cons] at done
    obtain ⟨next, first, rest⟩ := Option.bind_eq_some_iff.mp done
    obtain ⟨entries, logs⟩ := logs.step first
    have last := ih logs rest
    rw [entries] at last
    exact last

/-! Restarting -/

theorem length_le_bytes (changes : List Change) :
    changes.length ≤ (Batch.bytes changes).length := by
  have each : changes.length ≤ (changes.flatMap Batch.changeBytes).length := by
    induction changes with
    | nil => exact Nat.le_refl _
    | cons change changes ih =>
      have some_ := List.length_pos_iff.mpr (Batch.changeBytes_ne_nil change)
      rw [List.flatMap_cons, List.length_append, List.length_cons]
      omega
  rw [Batch.bytes, List.length_append]
  omega

/-- Records of a journal file can all be read. -/
theorem changes?_bytes (fits : ∀ changes ∈ log, Batch.Fits (changes.flatMap Batch.changeTexts))
    (short : Record.Short (log.map Batch.bytes)) :
    Batch.changes? (log.map Batch.bytes) = some (log.flatten.map Change.spelled) := by
  induction log with
  | nil => rfl
  | cons changes log ih =>
    obtain ⟨first, others⟩ := List.forall_mem_cons.mp fits
    obtain ⟨light, rest⟩ := List.forall_mem_cons.mp short
    have few := Nat.lt_of_le_of_lt (length_le_bytes changes) light
    simp only [List.map_cons, Batch.changes?, Batch.decode_bytes first few, ih others rest,
      List.flatten_cons, List.map_append]

/-- The journal at a path opens, and holds just these records. Whoever rebuilds a bucket from it
gets their entries. -/
structure Restarts (disk : Disk) (path : Path) (log : List (List Change)) (journal : FileJournal)
    (left : Disk) : Prop where
  opened : FileJournal.open disk path = (.ok journal, left)
  content : left.readBytes path = .ok (Record.file (log.map Batch.bytes))
  rebuilt : ∀ index budget, ∃ desk, (ofJournal index budget journal left).recover? = some desk ∧
    desk.bucket.entries = Entries.replayed log

theorem recover?_ofJournal {journal : FileJournal} {left : Disk}
    (holds : journal.Holds left (log.map Batch.bytes))
    (found : journal.recovered = some (log.map Batch.bytes))
    (fits : ∀ changes ∈ log, Batch.Fits (changes.flatMap Batch.changeTexts))
    (index : Nat) (budget : Budget) :
    ∃ desk, (ofJournal index budget journal left).recover? = some desk ∧
      desk.bucket.entries = Entries.replayed log ∧ desk.Logs journal.path log := by
  have read := changes?_bytes fits holds.short
  let fresh : Bucket := .ofJournal index (.file { journal with recovered := none })
  have replayed := Bucket.replayBatches_eq fresh budget none (log.map Batch.bytes)
  rw [read] at replayed
  have frame := Bucket.applyAll_frame fresh budget (log.flatten.map Change.spelled)
  have recovered : (ofJournal index budget journal left).recover? =
      some ⟨(fresh.applyAll budget (log.flatten.map Change.spelled)).1,
        (fresh.applyAll budget (log.flatten.map Change.spelled)).2.1, left⟩ := by
    simp only [recover?, ofJournal, Bucket.recover, Bucket.ofJournal, Journal.replay, holds.replay,
      found, Option.getD_some]
    simp only [fresh, Bucket.ofJournal] at replayed ⊢
    rw [replayed]
  exact ⟨_, recovered, frame.1, ⟨_, frame.2.1, rfl, holds.read⟩, fits⟩

/-- How many records lie wholly before a cut. -/
def whole (log : List (List Change)) (cut : Nat) : Nat :=
  (Record.within (cut - Record.headerLength) (log.map Batch.bytes)).length

theorem within_eq (log : List (List Change)) (cut : Nat) :
    Record.within (cut - Record.headerLength) (log.map Batch.bytes) =
      (log.take (whole log cut)).map Batch.bytes := by
  rw [List.map_take]
  exact List.prefix_iff_eq_take.mp (Record.within_prefix _ _)

/-- The records before a cut lie wholly before it, and the next one does not. -/
theorem whole_maximal (log : List (List Change)) {cut : Nat} (kept : Record.headerLength ≤ cut) :
    (Record.file ((log.take (whole log cut)).map Batch.bytes)).length ≤ cut ∧
      ∀ next ∈ (log.drop (whole log cut)).head?,
        cut < (Record.file ((log.take (whole log cut) ++ [next]).map Batch.bytes)).length := by
  constructor
  · have inside := Record.length_chain_within 1 (cut - Record.headerLength) (log.map Batch.bytes)
    rw [within_eq] at inside
    rw [Record.length_file]
    omega
  · intro next first
    obtain ⟨back, rest⟩ := List.head?_eq_some_iff.mp first
    have split : log.map Batch.bytes =
        Record.within (cut - Record.headerLength) (log.map Batch.bytes) ++
          Batch.bytes next :: back.map Batch.bytes := by
      rw [within_eq, ← List.map_cons, ← rest, ← List.map_append, List.take_append_drop]
    have beyond := Record.within_maximal 1 split
    rw [within_eq] at beyond
    rw [Record.length_file, List.map_append, List.map_singleton]
    omega

/-- A file that was cut restarts with the records before the cut. -/
theorem restarts_of_take {disk : Disk} {directory number cut : Nat} {name : String}
    (sound : disk.Sound) (leads : disk.Leads path directory name number)
    (content : disk.content number = (Record.file (log.map Batch.bytes)).take cut)
    (fits : ∀ changes ∈ log, Batch.Fits (changes.flatMap Batch.changeTexts))
    (short : Record.Short (log.map Batch.bytes)) (kept : Record.headerLength ≤ cut)
    (long : cut ≤ (Record.file (log.map Batch.bytes)).length) :
    ∃ journal left, Restarts disk path (log.take (whole log cut)) journal left ∧
      ∀ index budget desk, (ofJournal index budget journal left).recover? = some desk →
        desk.Logs path (log.take (whole log cut)) := by
  obtain ⟨journal, left, opened, rfl, rfl, found, holds⟩ :=
    FileJournal.open_take sound leads content short kept long
  rw [within_eq] at found holds
  have fit : ∀ changes ∈ log.take (whole log cut), Batch.Fits (changes.flatMap Batch.changeTexts) :=
    fun changes member => fits changes (List.mem_of_mem_take member)
  have rebuilt := recover?_ofJournal holds found fit
  refine ⟨journal, left, ⟨opened, ?_, ?_⟩, ?_⟩
  · obtain ⟨place, called, reads⟩ := holds.leads
    rw [Disk.readBytes, reads.openFile, ← holds.content]
    rfl
  · intro index budget
    obtain ⟨desk, recovered, entries, -⟩ := rebuilt index budget
    exact ⟨desk, recovered, entries⟩
  · intro index budget desk recovered
    obtain ⟨same, again, -, logs⟩ := rebuilt index budget
    cases recovered.symm.trans again
    exact logs

/-- Without a cut, all records are there. -/
theorem Logs.restarts (logs : desk.Logs path log) :
    ∃ journal left, Restarts desk.disk path log journal left := by
  obtain ⟨⟨journal, -, rfl, holds⟩, fits⟩ := logs
  obtain ⟨directory, name, leads⟩ := holds.leads
  have content := holds.content.trans List.take_length.symm
  have kept : Record.headerLength ≤ (Record.file (log.map Batch.bytes)).length := by
    rw [Record.length_file]
    exact Nat.le_add_right _ _
  obtain ⟨again, left, restarts, -⟩ :=
    restarts_of_take holds.sound leads content fits holds.short kept (Nat.le_refl _)
  have all : log.take (whole log (Record.file (log.map Batch.bytes)).length) = log := by
    rw [whole, Record.length_file, Nat.add_sub_cancel_left,
      Record.within_of_length_le 1 (Nat.le_refl _), List.length_map, List.take_length]
  rw [all] at restarts
  exact ⟨again, left, restarts⟩

theorem writeAll_commits (ledger : Ledger) (further : List (List Change)) :
    Task.writeAll ledger (further.map .commit) =
      (Change.actAll ledger.1 further.flatten,
        ledger.2 ++ further.filter fun changes => !changes.isEmpty) := by
  induction further generalizing ledger with
  | nil => simp [Task.writeAll]
  | cons changes further ih =>
    have rest := ih (Task.write ledger (.commit changes))
    rw [Task.writeAll] at rest ⊢
    rw [List.map_cons, List.foldl_cons, rest]
    cases changes with
    | nil => simp [Task.write]
    | cons change changes => simp [Task.write, Change.actAll_append]

/-- Empty batches say nothing. -/
theorem replayed_append (log further : List (List Change)) :
    Entries.replayed (log ++ further.filter fun changes => !changes.isEmpty) =
      Change.actAll (Entries.replayed log) (further.flatten.map Change.spelled) := by
  have same : (further.filter fun changes => !changes.isEmpty).flatten = further.flatten :=
    List.flatten_filter_not_isEmpty
  rw [Entries.replayed, List.flatten_append, same, List.map_append, Change.actAll_append]
  rfl

/-- A bucket that was rebuilt from records committed further batches. It holds what they say, and
so does the next bucket that is rebuilt, up to the spelling of missing packet ids. -/
structure Continues (path : Path) (kept : List (List Change)) (rebuilt : Desk)
    (further : List (List Change)) (worked : Desk) : Prop where
  entries : worked.bucket.entries = Change.actAll rebuilt.bucket.entries further.flatten
  restarts : ∃ journal left, Restarts worked.disk path
    (kept ++ further.filter fun changes => !changes.isEmpty) journal left
  replayed : Entries.replayed (kept ++ further.filter fun changes => !changes.isEmpty) =
    Change.actAll rebuilt.bucket.entries (further.flatten.map Change.spelled)
  plain : (∀ change ∈ further.flatten, change.spelled = change) →
    Entries.replayed (kept ++ further.filter fun changes => !changes.isEmpty) =
      worked.bucket.entries

/-- The records of a log that lie wholly before a cut survive it. -/
structure Survives (torn : Disk) (path : Path) (log : List (List Change)) (cut : Nat)
    (kept lost : List (List Change)) : Prop where
  split : log = kept ++ lost
  inside : (Record.file (kept.map Batch.bytes)).length ≤ cut
  outside : ∀ next ∈ lost.head?, cut < (Record.file ((kept ++ [next]).map Batch.bytes)).length
  resumes : ∃ journal left, Restarts torn path kept journal left ∧
    ∀ index budget rebuilt, (ofJournal index budget journal left).recover? = some rebuilt →
      ∀ further worked, rebuilt.run? (further.map .commit) = some worked →
        Continues path kept rebuilt further worked

/-- Wherever the file of a journal is cut behind its header, the records before the cut survive. -/
def SurvivesCuts (desk : Desk) (path : Path) (log : List (List Change)) : Prop :=
  ∃ number, desk.disk.openFile path = .ok number ∧
    desk.disk.content number = Record.file (log.map Batch.bytes) ∧
    ∀ cut, Record.headerLength ≤ cut → cut ≤ (desk.disk.content number).length →
      ∃ kept lost, Survives (desk.disk.changeContent number (·.resize cut)) path log cut kept lost

theorem Logs.survives (logs : desk.Logs path log) : desk.SurvivesCuts path log := by
  obtain ⟨⟨journal, -, rfl, holds⟩, fits⟩ := logs
  obtain ⟨directory, name, leads⟩ := holds.leads
  refine ⟨journal.file, leads.openFile, holds.content, fun cut kept long => ?_⟩
  rw [holds.content] at long
  have content : (desk.disk.changeContent journal.file (·.resize cut)).content journal.file =
      (Record.file (log.map Batch.bytes)).take cut := by
    rw [Disk.content_changeContent_self holds.inside, FileContent.bytes_resize,
      show (desk.disk.file journal.file).bytes = _ from holds.content, resize,
      Nat.sub_eq_zero_of_le long, List.replicate_zero, List.append_nil]
  obtain ⟨inside, outside⟩ := whole_maximal log kept
  obtain ⟨again, left, restarts, logs⟩ := restarts_of_take (holds.sound.changeContent _ _)
    (leads.changeContent _ _) content fits holds.short kept long
  refine ⟨log.take (whole log cut), log.drop (whole log cut),
    (List.take_append_drop _ _).symm, inside, outside, again, left, restarts, ?_⟩
  intro index budget rebuilt recovered further worked done
  obtain ⟨same, found, entries⟩ := restarts.rebuilt index budget
  cases recovered.symm.trans found
  obtain ⟨committed, longer⟩ := (logs index budget rebuilt recovered).run done
  rw [writeAll_commits] at committed longer
  have replayed := replayed_append (log.take (whole log cut)) further
  rw [← entries] at replayed
  refine ⟨committed, longer.restarts, replayed, fun plain => ?_⟩
  have same : further.flatten.map Change.spelled = further.flatten :=
    (List.map_congr_left plain).trans (List.map_id' _)
  rw [replayed, same, committed]

/-- However a crash cuts the file of a journal that was begun on a missing or an empty file, it
keeps a prefix of what was journaled, each record whole or not at all; the bucket that is rebuilt
from it works on, and what it commits comes behind that prefix. -/
theorem crash_keeps_prefix {disk left : Disk} {journal : FileJournal} (sound : disk.Sound)
    (blank : disk.Blank path) (opened : FileJournal.open disk path = (.ok journal, left))
    (index : Nat) (budget : Budget)
    (worked : (ofJournal index budget journal left).run? tasks = some desk) :
    desk.SurvivesCuts path (Task.writeAll (Table.empty, []) tasks).2 := by
  obtain ⟨holds, -, same⟩ := FileJournal.open_blank sound blank opened
  have first : (ofJournal index budget journal left).Logs path [] :=
    ⟨⟨journal, rfl, same, holds⟩, List.forall_mem_nil _⟩
  exact (first.run worked).2.survives

/-- A message arrives, another takes its place, and the journal is compacted before a third. -/
def sampleTasks : List Task :=
  let arrives (sequence : UInt64) : Change :=
    .insert ⟨⟨"c", false⟩, sequence⟩ (.pubrel sequence.toUInt16)
  [.commit [arrives 1], .commit [.delete ⟨⟨"c", false⟩, 1⟩, arrives 2], .compact,
    .commit [arrives 3]]

theorem crash_keeps_prefix_sample :
    ∃ desk, (ofJournal 0 (.ofLimit 0) .fresh .withJournal).run? sampleTasks = some desk ∧
      desk.SurvivesCuts .log (Task.writeAll (Table.empty, []) sampleTasks).2 := by
  have fine : ((ofJournal 0 (.ofLimit 0) .fresh .withJournal).run? sampleTasks).isSome = true := rfl
  obtain ⟨desk, worked⟩ := Option.isSome_iff_exists.mp fine
  exact ⟨desk, worked,
    crash_keeps_prefix Disk.empty_sound Disk.empty_blank FileJournal.open_fresh 0 _ worked⟩

end Desk

end DeliveryQueue
