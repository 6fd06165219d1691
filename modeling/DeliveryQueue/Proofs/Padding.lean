import DeliveryQueue.Proofs.Crash
import DeliveryQueue.Proofs.Inspection

/-!
Zeros at the end of a journal file, such as a power cut can leave. Sixteen of them are the preface
of a record with an empty batch, whose checksum is zero, so they are taken for records, and only the
zeros behind the last sixteen are cut off (`Record.means_padded`). Opening brings the log back
exactly if there are fewer than sixteen (`FileJournal.open_trims_zeros_iff`).
-/
namespace DeliveryQueue

namespace Record

/-- What zeros are read as. -/
def blank : Frame := ⟨0, 0, [], by decide⟩

theorem blank_intact : blank.Intact := by
  unfold Frame.Intact
  decide +kernel

theorem bytes_blank : blank.bytes = List.replicate prefaceLength 0 := by decide

/-- Blank records are zeros. -/
theorem framed_blanks (count : Nat) :
    framed (List.replicate count blank) = List.replicate (prefaceLength * count) 0 := by
  induction count with
  | zero => rfl
  | succ count ih =>
    rw [List.replicate_succ, framed_cons, bytes_blank, ih, List.replicate_append_replicate,
      Nat.mul_succ, Nat.add_comm]

/-- Zeros are as many blank records as they have room for, and the beginning of one more. -/
theorem zeros_eq (count : Nat) : List.replicate count 0 =
    framed (List.replicate (count / prefaceLength) blank) ++
      List.replicate (count % prefaceLength) 0 := by
  rw [framed_blanks, List.replicate_append_replicate, Nat.div_add_mod]

variable {start : Bytes} {frames : List Frame}

/-- The file is read with blank records at its end. -/
theorem means_padded (headed : Headed start) (intact : ∀ frame ∈ frames, frame.Intact)
    (count : Nat) :
    let all := frames ++ List.replicate (count / prefaceLength) blank
    Means (start ++ framed frames ++ List.replicate count 0) (.ok (start ++ framed all, all)) := by
  intro all
  have sound : ∀ frame ∈ all, frame.Intact := by
    refine List.forall_mem_append.mpr ⟨intact, fun frame member => ?_⟩
    rw [List.eq_of_mem_replicate member]
    exact blank_intact
  have few : (List.replicate (count % prefaceLength) (0 : UInt8)).length < prefaceLength := by
    rw [List.length_replicate]
    exact Nat.mod_lt _ (by decide)
  have whole := Means.whole headed sound (torn_of_few few)
  have parts : start ++ framed all ++ List.replicate (count % prefaceLength) 0 =
      start ++ framed frames ++ List.replicate count 0 := by
    rw [zeros_eq count, framed_append]
    simp only [List.append_assoc]
  rwa [parts] at whole

end Record

namespace Desk

variable {journal : FileJournal} {disk : Disk} {batches : List Bytes}

/-- A bucket is rebuilt from what the first replay shows. -/
theorem recover_of_shows (shows : journal.Shows disk batches) (index : Nat) (budget : Budget) :
    (Bucket.ofJournal index (.file journal)).recover budget disk =
      let rebuilt := (Bucket.ofJournal index (.file (journal.replay disk).2)).replayBatches budget
        none batches
      ⟨rebuilt.1, rebuilt.2.1, rebuilt.2.2, disk⟩ := by
  simp only [Bucket.recover, Bucket.ofJournal, Journal.replay, shows.replayed]

theorem exists_recover? (shows : journal.Shows disk batches) {changes : List Change}
    (read : Batch.changes? batches = some changes) (index : Nat) (budget : Budget) :
    ∃ desk, (ofJournal index budget journal disk).recover? = some desk ∧
      desk.bucket.entries = Change.actAll Table.empty changes := by
  let fresh : Bucket := .ofJournal index (.file (journal.replay disk).2)
  have replayed := fresh.replayBatches_eq budget none batches
  rw [read] at replayed
  dsimp only [fresh] at replayed
  refine ⟨⟨(fresh.applyAll budget changes).1, (fresh.applyAll budget changes).2.1, disk⟩, ?_,
    (Bucket.applyAll_frame fresh budget changes).1⟩
  rw [recover?, ofJournal, recover_of_shows shows, replayed]

theorem recover?_eq_none (shows : journal.Shows disk batches)
    (unread : Batch.changes? batches = none) (index : Nat) (budget : Budget) :
    (ofJournal index budget journal disk).recover? = none := by
  have replayed := Bucket.replayBatches_eq (.ofJournal index (.file (journal.replay disk).2)) budget
    none batches
  rw [unread] at replayed
  obtain ⟨fault, failed⟩ := replayed
  simp only [recover?, ofJournal, recover_of_shows shows, failed]

/-- Batches that were written, and fit into records, can be read. -/
theorem changes?_of_encode {log : List (List Change)}
    (encoded : log.map Batch.encode = batches.map .ok) (short : Record.Short batches) :
    Batch.changes? batches = some (log.flatten.map Change.spelled) := by
  have each : ∀ changes ∈ log, Batch.Fits (changes.flatMap Batch.changeTexts) ∧
      Batch.encode changes = .ok (Batch.bytes changes) := by
    intro changes member
    have there : Batch.encode changes ∈ batches.map .ok := encoded ▸ List.mem_map_of_mem member
    obtain ⟨batch, -, written⟩ := List.mem_map.mp there
    obtain ⟨fits, rfl⟩ := Batch.encode_eq_ok_iff.mp written.symm
    exact ⟨fits, written.symm⟩
  have same : log.map Batch.bytes = batches := by
    have all : (log.map Batch.bytes).map Except.ok =
        batches.map (Except.ok (ε := Batch.Fault)) := by
      rw [← encoded, List.map_map]
      exact List.map_congr_left fun changes member => (each changes member).2.symm
    exact (List.map_inj_right fun _ _ => Except.ok.inj).mp all
  subst same
  exact changes?_bytes (fun changes member => (each changes member).1) short

end Desk

namespace FileJournal

open Record

variable {disk : Disk} {path : Path} {directory number count : Nat} {name : String}
variable {start : Bytes} {frames : List Frame}

/-- Opening brings back these batches and keeps just this much of the file. If they are written
changes, every bucket that is rebuilt from the journal holds what those say. -/
def BringsBack (disk : Disk) (path : Path) (number : Nat) (kept : Bytes) (batches : List Bytes) :
    Prop :=
  ∃ journal after, FileJournal.open disk path = (.ok journal, after) ∧
    journal.Shows after batches ∧ after.content number = kept ∧
    ∀ log, log.map Batch.encode = batches.map .ok → ∀ index budget,
      ∃ desk, (Desk.ofJournal index budget journal after).recover? = some desk ∧
        desk.bucket.entries = Entries.replayed log

theorem short_batches (frames : List Frame) : Short (frames.map Frame.batch) := by
  intro batch member
  obtain ⟨frame, -, rfl⟩ := List.mem_map.mp member
  exact frame.short

section
variable (sound : disk.Sound) (leads : disk.Leads path directory name number)
  (headed : Headed start) (intact : ∀ frame ∈ frames, frame.Intact)
  (content : disk.content number = start ++ framed frames ++ List.replicate count 0)
include sound leads headed intact content

/-- Zeros behind the records are kept as empty batches, sixteen for each. -/
theorem open_padded : ∃ journal after, FileJournal.open disk path = (.ok journal, after) ∧
    journal.Shows after
      (frames.map Frame.batch ++ List.replicate (count / prefaceLength) []) ∧
    after.content number = start ++ framed frames ++
      List.replicate (prefaceLength * (count / prefaceLength)) 0 := by
  have means := means_padded headed intact count
  rw [← content] at means
  have batches : (frames ++ List.replicate (count / prefaceLength) blank).map Frame.batch =
      frames.map Frame.batch ++ List.replicate (count / prefaceLength) [] := by
    rw [List.map_append, List.map_replicate]
    rfl
  have kept : start ++ framed (frames ++ List.replicate (count / prefaceLength) blank) =
      start ++ framed frames ++ List.replicate (prefaceLength * (count / prefaceLength)) 0 := by
    rw [← framed_blanks, framed_append, List.append_assoc]
  refine ⟨_, _, open_of_means sound leads means, ?_, ?_⟩
  · rw [← batches]
    exact shows_ofScan _ _ _ _ _
  · rw [content_of_means sound leads means, kept]

/-- What is taken for a record no bucket can read. -/
theorem recover?_padded (many : prefaceLength ≤ count) {journal : FileJournal} {after : Disk}
    (opened : FileJournal.open disk path = (.ok journal, after)) (index : Nat) (budget : Budget) :
    (Desk.ofJournal index budget journal after).recover? = none := by
  obtain ⟨found, left, again, shows, -⟩ := open_padded sound leads headed intact content
  cases opened.symm.trans again
  obtain ⟨more, blanks⟩ := Nat.exists_eq_add_one_of_ne_zero
    (Nat.ne_of_gt (Nat.div_pos many (by decide)))
  refine Desk.recover?_eq_none shows ?_ index budget
  have unread : Batch.changes? (List.replicate (count / prefaceLength) []) = none := by
    rw [blanks, List.replicate_succ]
    rfl
  rw [Batch.changes?_append, unread]
  cases Batch.changes? (frames.map Frame.batch) <;> rfl

/-- A log with zeros behind it comes back just if the zeros are too few for the preface of a
record. -/
theorem open_trims_zeros_iff :
    BringsBack disk path number (start ++ framed frames) (frames.map Frame.batch) ↔
      count < prefaceLength := by
  obtain ⟨journal, after, opened, shows, bytes⟩ := open_padded sound leads headed intact content
  constructor
  · rintro ⟨found, left, again, only, -⟩
    cases opened.symm.trans again
    have same := Except.ok.inj (shows.replayed.symm.trans only.replayed)
    rw [List.append_right_eq_self, List.replicate_eq_nil_iff] at same
    exact (Nat.div_eq_zero_iff_lt (by decide)).mp same
  · intro few
    rw [Nat.div_eq_of_lt few] at shows bytes
    rw [List.replicate_zero, List.append_nil] at shows
    rw [Nat.mul_zero, List.replicate_zero, List.append_nil] at bytes
    refine ⟨journal, after, opened, shows, bytes, fun log encoded index budget => ?_⟩
    have read := Desk.changes?_of_encode encoded (short_batches frames)
    exact Desk.exists_recover? shows read index budget

end

/-- The record of a batch that forgets a message, with zeros behind it. -/
def forgets : Frame :=
  .ofBatch 1 (Batch.bytes [.delete ⟨⟨"c", false⟩, 1⟩]) (by decide +kernel)

def padded (count : Nat) : Bytes := header ++ framed [forgets] ++ List.replicate count 0

theorem open_trims_zeros_iff_padded :
    BringsBack (holding (padded 15)) .log 0 (header ++ framed [forgets]) [forgets.batch] := by
  obtain ⟨directory, name, holds⟩ := holding_holds
  obtain ⟨sound, leads, bytes⟩ := holds (padded 15)
  have intact : ∀ frame ∈ [forgets], frame.Intact := List.forall_mem_singleton.mpr rfl
  exact (open_trims_zeros_iff sound leads headed_header intact bytes).mpr (by decide)

/-- One zero more is kept with the others, as a batch that no bucket can read. -/
theorem open_keeps_zeros :
    Batch.encode [.delete ⟨⟨"c", false⟩, 1⟩] = .ok forgets.batch ∧
      (∃ journal after, FileJournal.open (holding (padded 16)) .log = (.ok journal, after) ∧
        journal.Shows after [forgets.batch, []] ∧ after.content 0 = padded 16 ∧
        ∀ index budget, (Desk.ofJournal index budget journal after).recover? = none) ∧
      ¬ BringsBack (holding (padded 16)) .log 0 (header ++ framed [forgets]) [forgets.batch] := by
  obtain ⟨directory, name, holds⟩ := holding_holds
  obtain ⟨sound, leads, bytes⟩ := holds (padded 16)
  have intact : ∀ frame ∈ [forgets], frame.Intact := List.forall_mem_singleton.mpr rfl
  obtain ⟨journal, after, opened, shows, kept⟩ :=
    open_padded sound leads headed_header intact bytes
  have rebuilt := recover?_padded sound leads headed_header intact bytes (by decide) opened
  refine ⟨rfl, ⟨journal, after, opened, shows, kept, rebuilt⟩, ?_⟩
  rintro ⟨found, left, again, only, -⟩
  cases opened.symm.trans again
  cases Except.ok.inj (shows.replayed.symm.trans only.replayed)

end FileJournal

end DeliveryQueue
