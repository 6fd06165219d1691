import DeliveryQueue.Proofs.LogFile
import DeliveryQueue.Journal.Basic

/-!
A journal in a file beside one in memory. On a new file the two answer alike, call by call, with one
exception: the first replay shows what was found on opening. Batches that were appended before it
are missing there, unless the journal was rewritten in between (`Journal.answers_eq_iff`).
-/
namespace DeliveryQueue

inductive JournalCall
  | append (batch : Bytes)
  | replaceAll (snapshot : Bytes)
  | replay
  | recordCount
  | sync
  deriving DecidableEq, Repr

inductive JournalAnswer
  | done (result : Except StorageFault Unit)
  | batches (result : Except StorageFault (List Bytes))
  | count (records : Nat)
  deriving Repr

namespace JournalCall

/-- The bytes that a call hands over. -/
def batch? : JournalCall → Option Bytes
  | append batch | replaceAll batch => some batch
  | _ => none

/-- What a call answers over a log, and the log after it. -/
def against (log : List Bytes) : JournalCall → JournalAnswer × List Bytes
  | append batch => (.done (.ok ()), log ++ [batch])
  | replaceAll snapshot => (.done (.ok ()), [snapshot])
  | replay => (.batches (.ok log), log)
  | recordCount => (.count log.length, log)
  | sync => (.done (.ok ()), log)

/-- What calls answer over a log, one after the other. -/
def answersAgainst (log : List Bytes) : List JournalCall → List JournalAnswer
  | [] => []
  | call :: calls => (call.against log).1 :: answersAgainst (call.against log).2 calls

/-- Whether the first replay comes before anything is appended, or after everything was replaced.
`appended` says whether anything was appended before these calls. -/
def timely (appended : Bool) : List JournalCall → Bool
  | [] => true
  | append _ :: calls => timely true calls
  | replaceAll _ :: _ => true
  | replay :: _ => !appended
  | _ :: calls => timely appended calls

end JournalCall

namespace Journal

def serve (journal : Journal) (disk : Disk) : JournalCall → JournalAnswer × Journal × Disk
  | .append batch =>
    let called := journal.append disk batch
    (.done called.answer, called.journal, called.disk)
  | .replaceAll snapshot =>
    let called := journal.replaceAll disk snapshot
    (.done called.answer, called.journal, called.disk)
  | .replay =>
    let called := journal.replay disk
    (.batches called.answer, called.journal, called.disk)
  | .recordCount => (.count journal.recordCount, journal, disk)
  | .sync =>
    let called := journal.sync disk
    (.done called.answer, called.journal, called.disk)

/-- What a journal answers to calls, one after the other. -/
def answers (journal : Journal) (disk : Disk) : List JournalCall → List JournalAnswer
  | [] => []
  | call :: calls =>
    let served := journal.serve disk call
    served.1 :: answers served.2.1 served.2.2 calls

end Journal

/-- A journal in memory that never fails. -/
structure MemoryJournal.Plain (log : MemoryJournal) (batches : List Bytes) : Prop where
  batches : log.batches = batches
  capacity : log.capacity = none
  failAppends : log.failAppends = false
  failReplacements : log.failReplacements = false
  failSyncs : log.failSyncs = 0

theorem MemoryJournal.empty_plain : MemoryJournal.empty.Plain [] := ⟨rfl, rfl, rfl, rfl, rfl⟩

/-- A plain journal in memory answers from its log. -/
theorem MemoryJournal.Plain.serve {memory : MemoryJournal} {log : List Bytes}
    (plain : memory.Plain log) (disk : Disk) (call : JournalCall) :
    ∃ after : MemoryJournal, after.Plain (call.against log).2 ∧
      (Journal.memory memory).serve disk call = ((call.against log).1, .memory after, disk) := by
  obtain ⟨rfl, capacity, failAppends, failReplacements, failSyncs⟩ := plain
  cases call with
  | append batch =>
    refine ⟨{ memory with batches := memory.batches ++ [batch] },
      ⟨rfl, capacity, failAppends, failReplacements, failSyncs⟩, ?_⟩
    simp [Journal.serve, Journal.append, MemoryJournal.append, MemoryJournal.isFull, capacity,
      failAppends, JournalCall.against]
  | replaceAll snapshot =>
    refine ⟨{ memory with batches := [snapshot] },
      ⟨rfl, capacity, failAppends, failReplacements, failSyncs⟩, ?_⟩
    simp [Journal.serve, Journal.replaceAll, MemoryJournal.replaceAll, failReplacements,
      JournalCall.against]
  | replay | recordCount =>
    exact ⟨memory, ⟨rfl, capacity, failAppends, failReplacements, failSyncs⟩, rfl⟩
  | sync =>
    refine ⟨{ memory with syncs := memory.syncs + 1 },
      ⟨rfl, capacity, failAppends, failReplacements, failSyncs⟩, ?_⟩
    simp [Journal.serve, Journal.sync, MemoryJournal.sync, failSyncs, JournalCall.against]
    rfl

theorem MemoryJournal.Plain.answers {memory : MemoryJournal} {log : List Bytes}
    (plain : memory.Plain log) (disk : Disk) (calls : List JournalCall) :
    (Journal.memory memory).answers disk calls = JournalCall.answersAgainst log calls := by
  induction calls generalizing memory log with
  | nil => rfl
  | cons call calls ih =>
    obtain ⟨after, next, served⟩ := plain.serve disk call
    rw [Journal.answers, served, JournalCall.answersAgainst, ih next]

/-- What the first replay answers before it answers from the log. -/
def JournalCall.againstFound (found : Option (List Bytes)) (log : List Bytes) :
    JournalCall → JournalAnswer
  | replay => .batches (.ok (found.getD log))
  | call => (call.against log).1

/-- What is left of what was found on opening. -/
def JournalCall.forgets (found : Option (List Bytes)) : JournalCall → Option (List Bytes)
  | replay | replaceAll _ => none
  | _ => found

namespace FileJournal

variable {journal : FileJournal} {disk : Disk} {log : List Bytes}

theorem Holds.serve (holds : journal.Holds disk log) {call : JournalCall}
    (light : ∀ batch ∈ call.batch?, batch.length < UInt32.size)
    (steady : ∀ fault, ((Journal.file journal).serve disk call).1 ≠ .done (.error (.io fault))) :
    ∃ (after : FileJournal) (left : Disk), after.Holds left (call.against log).2 ∧
      after.recovered = call.forgets journal.recovered ∧
      (Journal.file journal).serve disk call =
        (call.againstFound journal.recovered log, .file after, left) := by
  cases call with
  | append batch =>
    obtain ⟨after, left, appended, longer, same, -⟩ := holds.append (light batch rfl)
    refine ⟨after, left, longer, same, ?_⟩
    simp only [Journal.serve, Journal.append, appended]
    rfl
  | replaceAll snapshot =>
    rcases holds.replaceAll_cases (light snapshot rfl) with
      ⟨fault, left, failed⟩ | ⟨after, left, done⟩
    · refine absurd ?_ (steady fault)
      simp only [Journal.serve, Journal.replaceAll, failed]
    · obtain ⟨alone, gone, -⟩ := holds.replaceAll done
      refine ⟨after, left, alone, gone, ?_⟩
      simp only [Journal.serve, Journal.replaceAll, done]
      rfl
  | replay =>
    refine ⟨_, disk, holds.read, rfl, ?_⟩
    simp only [Journal.serve, Journal.replay, holds.replay]
    rfl
  | recordCount =>
    refine ⟨journal, disk, holds, rfl, ?_⟩
    simp only [Journal.serve, Journal.recordCount, holds.records]
    rfl
  | sync =>
    obtain ⟨after, flushed, same, kept, -⟩ := holds.sync
    refine ⟨after, disk, same, kept, ?_⟩
    simp only [Journal.serve, Journal.sync, flushed]
    rfl

/-- Calls that hand over short batches and meet with no failure of the disk. -/
def Steady (journal : FileJournal) (disk : Disk) (calls : List JournalCall) : Prop :=
  (∀ call ∈ calls, ∀ batch ∈ call.batch?, batch.length < UInt32.size) ∧
    ∀ fault, .done (.error (.io fault)) ∉ (Journal.file journal).answers disk calls

/-- Once nothing is left of what was found on opening, a journal answers from its log. -/
theorem Holds.answers (holds : journal.Holds disk log) (gone : journal.recovered = none)
    {calls : List JournalCall} (steady : journal.Steady disk calls) :
    (Journal.file journal).answers disk calls = JournalCall.answersAgainst log calls := by
  induction calls generalizing journal disk log with
  | nil => rfl
  | cons call calls ih =>
    obtain ⟨light, fine⟩ := steady
    obtain ⟨first, others⟩ := List.forall_mem_cons.mp light
    obtain ⟨after, left, next, forgotten, served⟩ := holds.serve first fun fault failed =>
      fine fault (failed ▸ List.mem_cons_self)
    have none : after.recovered = none := by
      rw [forgotten, gone]
      cases call <;> rfl
    have same : call.againstFound journal.recovered log = (call.against log).1 := by
      rw [gone]
      cases call <;> rfl
    rw [Journal.answers, served] at fine ⊢
    rw [JournalCall.answersAgainst, same, ih next none ⟨others, fun fault member =>
      fine fault (List.mem_cons_of_mem _ member)⟩]

/-- Until then, what was appended is missing from the first replay. -/
theorem Holds.answers_iff {found added : List Bytes} (holds : journal.Holds disk (found ++ added))
    (kept : journal.recovered = some found) {calls : List JournalCall}
    (steady : journal.Steady disk calls) :
    (Journal.file journal).answers disk calls =
        JournalCall.answersAgainst (found ++ added) calls ↔
      JournalCall.timely (!added.isEmpty) calls = true := by
  induction calls generalizing journal disk added with
  | nil => exact ⟨fun _ => rfl, fun _ => rfl⟩
  | cons call calls ih =>
    obtain ⟨light, fine⟩ := steady
    obtain ⟨first, others⟩ := List.forall_mem_cons.mp light
    obtain ⟨after, left, next, forgotten, served⟩ := holds.serve first fun fault failed =>
      fine fault (failed ▸ List.mem_cons_self)
    rw [Journal.answers, served] at fine ⊢
    have rest : after.Steady left calls := ⟨others, fun fault member =>
      fine fault (List.mem_cons_of_mem _ member)⟩
    rw [kept] at forgotten
    rw [JournalCall.answersAgainst, List.cons.injEq, kept]
    cases call with
    | append batch =>
      change after.Holds left (found ++ added ++ [batch]) at next
      rw [List.append_assoc] at next
      have more := ih next forgotten rest
      have appended : (!(added ++ [batch]).isEmpty) = true := by simp
      rw [← List.append_assoc, appended] at more
      exact (and_iff_right rfl).trans more
    | replaceAll snapshot => exact iff_of_true ⟨rfl, next.answers forgotten rest⟩ rfl
    | replay =>
      have more := next.answers forgotten rest
      have shown : JournalAnswer.batches (.ok found) = .batches (.ok (found ++ added)) ↔
          (!(!added.isEmpty)) = true := by simp
      exact (and_iff_left more).trans shown
    | recordCount | sync => exact (and_iff_right rfl).trans (ih next forgotten rest)

end FileJournal

namespace Journal

/-- On a new file, a journal answers as one in memory does just if the first replay comes before
anything is appended, or after everything was replaced. -/
theorem answers_eq_iff {disk left : Disk} {path : Path} {journal : FileJournal}
    (sound : disk.Sound) (blank : disk.Blank path)
    (opened : FileJournal.open disk path = (.ok journal, left)) {calls : List JournalCall}
    (steady : journal.Steady left calls) :
    (file journal).answers left calls = (memory .empty).answers left calls ↔
      JournalCall.timely false calls = true := by
  obtain ⟨holds, recovered, -⟩ := FileJournal.open_blank sound blank opened
  rw [MemoryJournal.empty_plain.answers]
  exact FileJournal.Holds.answers_iff holds recovered steady

theorem answers_eq_iff_fresh :
    let calls : List JournalCall := [.append [1], .replaceAll [2], .replay, .append [3], .replay]
    (file .fresh).answers .withJournal calls = (memory .empty).answers .withJournal calls ↔
      JournalCall.timely false calls = true := by
  intro calls
  have told : (file .fresh).answers .withJournal calls = [.done (.ok ()), .done (.ok ()),
    .batches (.ok [[2]]), .done (.ok ()), .batches (.ok [[2], [3]])] := rfl
  refine answers_eq_iff Disk.empty_sound Disk.empty_blank FileJournal.open_fresh ⟨?_, ?_⟩
  · simp [calls, JournalCall.batch?, UInt32.size]
  · simp [told]

/-- What was appended is in the log, but not in the first replay. -/
theorem first_replay_misses_batch :
    let calls : List JournalCall := [.append [1], .replay]
    Disk.empty.Sound ∧ Disk.empty.Blank .log ∧
      FileJournal.open .empty .log = (.ok .fresh, .withJournal) ∧
      FileJournal.fresh.Steady .withJournal calls ∧
      (file .fresh).answers .withJournal calls = [.done (.ok ()), .batches (.ok [])] ∧
      (memory .empty).answers .withJournal calls = [.done (.ok ()), .batches (.ok [[1]])] := by
  intro calls
  have told : (file .fresh).answers .withJournal calls = [.done (.ok ()), .batches (.ok [])] := rfl
  refine ⟨Disk.empty_sound, Disk.empty_blank, FileJournal.open_fresh, ⟨?_, ?_⟩, told, rfl⟩
  · simp [calls, JournalCall.batch?, UInt32.size]
  · simp [told]

end Journal

end DeliveryQueue
