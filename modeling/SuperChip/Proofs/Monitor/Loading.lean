import SuperChip.Monitor.Monitor
import SuperChip.Proofs.Asm.Safety
import SuperChip.Proofs.Machine.Board

/-!
# Loading and assembling under the monitor

A command that loads or assembles a program can fail in the words of its argument, at the file, in
the source, or at the size of the image. To assemble resets the machine only once the image is made,
and an image always fits; so an error leaves the machine as it was. To load resets it before the
file is read, and only an argument without a file is refused before that
(`machine_of_reportsError`).
-/

set_option autoImplicit false

namespace SuperChip

namespace Monitor

/-- The reply is one line that reports an error. -/
def Reply.ReportsError (r : Reply) : Prop :=
  ∃ cause, r.lines = ["Error: " ++ cause] ∨ r.lines = ["Assembly error: " ++ cause]

/-- Whether an argument can be read and has a word for a file. -/
def namesFile (argument : String) : Bool :=
  match readWords argument with
  | .ok (_ :: _) => true
  | _ => false

variable {m : Monitor} {argument done line : String} {data : Bytes} {reply : Reply}

/-- A line that begins as no error does reports none. -/
theorem not_reportsError (hlines : reply.lines = [line])
    (herror : ¬ "Error: ".toList <+: line.toList)
    (hassembly : ¬ "Assembly error: ".toList <+: line.toList) : ¬ reply.ReportsError := by
  rintro ⟨cause, h | h⟩
  all_goals
    rw [hlines, List.singleton_inj] at h
    subst h
    simp at herror hassembly

/-- A program that fits is installed. -/
theorem install_of_size_le (h : data.size ≤ programSize) :
    (m.install data done).lines = [done] := by
  have hfits : ¬ (memorySize : Int) < programStart + data.size := by
    simp only [programSize, memorySize, programStart] at h ⊢
    omega
  simp only [install, Board.load, Machine.load]
  rw [if_neg hfits]
  rfl

/-- What cannot be installed leaves a machine that was reset. -/
theorem machine_of_install (hdone : (m.install data done).lines ≠ [done]) :
    (m.install data done).monitor.board.machine = m.board.reset.machine := by
  unfold install at hdone ⊢
  dsimp only at hdone ⊢
  split
  · next hload =>
    rw [hload] at hdone
    exact absurd rfl hdone
  · rfl

/-- Where assembling lines reports an error, the machine is as it was. -/
theorem machine_of_assembleLines {lines : List String}
    (h : (m.assembleLines lines).ReportsError) :
    (m.assembleLines lines).monitor.board.machine = m.board.machine := by
  unfold assembleLines at h ⊢
  rcases hassemble : Assembler.assembleLines m.board.config.shiftsVy lines with ⟨notices, e | data⟩
  · rfl
  · rw [hassemble] at h
    have hsize := Assembler.size_of_assembleLines hassemble
    exact absurd h (not_reportsError (install_of_size_le hsize) (by simp [toString])
      (by simp [toString]))

/-- Where `asm` reports an error, the machine is as it was. -/
theorem machine_of_assemble (hreply : m.assemble argument = .ok reply) (h : reply.ReportsError) :
    reply.monitor.board.machine = m.board.machine := by
  simp only [assemble, bind, Except.bind] at hreply
  split at hreply
  · cases hreply
  split at hreply
  · cases hreply
    rfl
  · cases hreply
    exact machine_of_assembleLines h
  · split at hreply
    · cases hreply
      rfl
    · split at hreply
      · cases hreply
      · cases hreply
        exact machine_of_assembleLines h

/-- Where `load` reports an error, a file was named and the machine was reset. -/
theorem machine_of_load (hreply : m.load argument = .ok reply) (h : reply.ReportsError) :
    namesFile argument = true ∧ reply.monitor.board.machine = m.board.reset.machine := by
  simp only [load, bind, Except.bind] at hreply
  split at hreply
  · cases hreply
  next words hwords =>
  split at hreply
  · cases hreply
    exact absurd h (not_reportsError rfl (by simp) (by simp))
  · refine ⟨by rw [namesFile, hwords], ?_⟩
    split at hreply
    · cases hreply
      rfl
    · cases hreply
      refine machine_of_install fun hlines => ?_
      exact not_reportsError hlines (by simp) (by simp) h

/-- Where the words of `load` cannot be read, no file is named. -/
theorem namesFile_of_load_eq_error {complaint : Complaint}
    (h : m.load argument = .error complaint) : namesFile argument = false := by
  simp only [load, bind, Except.bind] at h
  split at h
  · next hwords => rw [namesFile, hwords]
  · split at h
    · cases h
    · split at h <;> cases h

/-- What a failed command leaves. An error in what is assembled, or in an argument without a file,
leaves the machine as it was; an error in a file that is loaded leaves a machine that was reset. -/
theorem machine_of_reportsError {verb : Verb} (hparse : Input.parse line = .command verb argument)
    (hverb : verb = .load ∨ verb = .assemble) (h : (m.answer line).ReportsError) :
    (m.answer line).monitor.board.machine =
      if verb = .load ∧ namesFile argument then m.board.reset.machine else m.board.machine := by
  unfold answer at h ⊢
  rw [hparse] at h ⊢
  dsimp only at h ⊢
  obtain rfl | rfl := hverb
  · simp only [obey, true_and] at h ⊢
    split at h
    · next hreply =>
      obtain ⟨hfile, hmachine⟩ := machine_of_load hreply h
      rw [hmachine, if_pos hfile]
    · next hreply =>
      rw [namesFile_of_load_eq_error hreply]
      rfl
  · rw [if_neg nofun]
    simp only [obey] at h ⊢
    split at h
    · next hreply => exact machine_of_assemble hreply h
    · rfl

/-- A monitor of a machine that has halted, with no files at hand. -/
def ofHalted : Monitor := { board := .untimed { Machine.powerOn 0 with halted := true } }

/-- A file that is missing is reported after the reset. -/
theorem answer_ofHalted : ∃ cause, ofHalted.answer "load x" =
    (ofHalted.withBoard ofHalted.board.reset).tells ("Error: " ++ cause) := by
  have hread : ofHalted.files.read "x" = .error (.refused .notFound "x") := by decide +kernel
  have hparse : Input.parse "load x" = .command .load "x" := by decide +kernel
  have hwords : readWords "x" = .ok ["x"] := by decide +kernel
  have hload : ofHalted.load "x" =
      .ok ((ofHalted.withBoard ofHalted.board.reset).tells
        ("Error: " ++ (FileError.refused .notFound "x").message)) := by
    simp only [load, hwords, bind, Except.bind, hread]
    rfl
  refine ⟨(FileError.refused .notFound "x").message, ?_⟩
  simp only [answer, hparse, obey, hload]

/-- A machine that has halted runs again when a missing file was to be loaded. -/
theorem reportsError_resets : (ofHalted.answer "load x").ReportsError ∧
    ofHalted.board.machine.halted = true ∧
    (ofHalted.answer "load x").monitor.board.machine.halted = false := by
  obtain ⟨cause, hanswer⟩ := answer_ofHalted
  rw [hanswer]
  exact ⟨⟨cause, .inl rfl⟩, rfl, rfl⟩

/-- A file that is missing leaves a machine that was reset. -/
theorem machine_of_reportsError_missingFile :
    Input.parse "load x" = .command .load "x" ∧ (ofHalted.answer "load x").ReportsError ∧
      (ofHalted.answer "load x").monitor.board.machine = ofHalted.board.reset.machine := by
  obtain ⟨cause, hanswer⟩ := answer_ofHalted
  have hparse : Input.parse "load x" = .command .load "x" := by decide +kernel
  have hreports : (ofHalted.answer "load x").ReportsError := ⟨cause, .inl (hanswer ▸ rfl)⟩
  have hmachine := machine_of_reportsError hparse (.inl rfl) hreports
  have hfile : namesFile "x" = true := by decide +kernel
  exact ⟨hparse, hreports, hmachine.trans (if_pos ⟨rfl, hfile⟩)⟩

end Monitor

end SuperChip
