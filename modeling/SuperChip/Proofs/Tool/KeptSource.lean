import SuperChip.Proofs.Files.Write
import SuperChip.Tool.Assemble

/-!
# The assembler tool keeps its source

The tool writes once, after the source is read and assembled (`performs_perform`), so a run that
breaks off, or fails before that, leaves all files as they were. A write may break off itself: then
the output is cut short, and nothing else is changed. Where the tool is told no output, the image
goes to the folder of the source, under a name whose extension is replaced. So the source is kept,
unless the path of the output leads to the source itself (`assemble_keeps_source`): because the
source has the extension of images already, because one file has both names, or through a link
(`assemble_overwrites_source`).
-/

set_option autoImplicit false

namespace SuperChip.Tool

/-! ## The path of the output -/

variable {name : List Char} {files : Files} {path : String}

/-- A path is its folder part and its file name. -/
theorem splitFolder_append (path : List Char) :
    (splitFolder path).1 ++ (splitFolder path).2 = path := by
  rw [splitFolder, ← List.reverse_append, List.takeWhile_append_dropWhile, List.reverse_reverse]

/-- The folder part of a path ends in a slash, if there is one. -/
theorem isFolderPart_splitFolder (path : List Char) : Files.IsFolderPart (splitFolder path).1 := by
  rw [splitFolder]
  cases hback : path.reverse.dropWhile (· != '/') with
  | nil => exact .inl rfl
  | cons c rest =>
    have hslash : c = '/' := by
      have hstop := List.head?_dropWhile_not (· != '/') path.reverse
      rw [hback] at hstop
      simpa using hstop
    exact .inr ⟨rest.reverse, by simp [hslash]⟩

/-- There is no slash in a file name. -/
theorem not_mem_splitFolder (path : List Char) : '/' ∉ (splitFolder path).2 := by
  intro hmem
  have hslash := List.all_eq_true.mp List.all_takeWhile _ (List.mem_reverse.mp hmem)
  simp at hslash

/-- A name without its extension has only characters of the name. -/
theorem mem_of_mem_stem {c : Char} (h : c ∈ stem name) : c ∈ name := by
  rw [stem] at h
  split at h
  · next dot before hback =>
    obtain hfront | hbefore := List.mem_append.mp h
    · exact (List.takeWhile_sublist _).subset hfront
    · have hbehind : c ∈ (name.dropWhile (· == '.')).reverse := by
        apply (List.dropWhile_sublist (· != '.')).subset
        rw [hback]
        exact List.mem_cons_of_mem _ (List.mem_reverse.mp hbefore)
      exact (List.dropWhile_sublist _).subset (List.mem_reverse.mp hbehind)
  · exact h

/-- A folder part in front of a name without a slash is cut off there. -/
theorem splitFolder_eq {folder : List Char} (hfolder : Files.IsFolderPart folder)
    (hname : '/' ∉ name) :
    splitFolder (folder ++ name) = (folder, name) := by
  have hnone : ∀ c ∈ name.reverse, (c != '/') = true := by
    intro c hc
    have hne : c ≠ '/' := fun heq => hname (heq ▸ List.mem_reverse.mp hc)
    simpa using hne
  rw [splitFolder, List.reverse_append, List.dropWhile_append_of_pos hnone,
    List.takeWhile_append_of_pos hnone]
  obtain rfl | ⟨above, rfl⟩ := hfolder <;> simp

/-- The file name at the end of a path. -/
def fileName (path : String) : String := String.ofList (splitFolder path.toList).2

/-- A path with the extension of images leads to the file of the path itself only if the two paths
are equal, or their file names are entwined. -/
theorem entwined_of_sameFile_withExtension
    (hsame : files.SameFile path (withExtension path imageExtension)) :
    withExtension path imageExtension = path ∨
      files.Entwined (fileName path) (fileName (withExtension path imageExtension)) := by
  obtain ⟨folder, name, hsplit⟩ : ∃ folder name, splitFolder path.toList = (folder, name) :=
    ⟨_, _, rfl⟩
  have hfolder : Files.IsFolderPart folder := by
    simpa [hsplit] using isFolderPart_splitFolder path.toList
  have hname : '/' ∉ name := by
    simpa [hsplit] using not_mem_splitFolder path.toList
  have hpath : path = String.ofList (folder ++ name) := by
    have happend := splitFolder_append path.toList
    rw [hsplit] at happend
    rw [happend, String.ofList_toList]
  let named := stem name ++ imageExtension.toList
  have houtput : withExtension path imageExtension = String.ofList (folder ++ named) := by
    rw [withExtension, hsplit, ← List.append_assoc, String.ofList_append, String.ofList_toList]
  have hnamed : '/' ∉ named := by
    intro hmem
    obtain hstem | hextension := List.mem_append.mp hmem
    · exact hname (mem_of_mem_stem hstem)
    · exact absurd hextension (by decide)
  have hne : named ≠ [] := by simp [named, imageExtension]
  rw [houtput, fileName, fileName, hsplit, String.toList_ofList, splitFolder_eq hfolder hnamed]
  rw [houtput, hpath] at hsame
  obtain hequal | hentwined := Files.entwined_of_sameFile hfolder hname hnamed hne hsame
  · exact .inl (by rw [hpath, ← hequal])
  · exact .inr hentwined

/-! ## What a run does to the files -/

variable {s : AssembleSettings} {w after : World} {data : Bytes}

/-- Reading changes nothing: it gives the bytes, the system's refusal, or breaks off. -/
theorem readFile_cases (path : String) (w : World) :
    (∃ data, w.files.read path = .ok data ∧ readFile path w = .ok (.ok data) w) ∨
      (∃ e, readFile path w = .ok (.error e) w) ∨ ∃ crash, readFile path w = .error crash w := by
  rw [readFile, EState.get_bind]
  cases hread : w.files.read path with
  | ok data => exact .inl ⟨data, rfl, rfl⟩
  | error e =>
    cases e with
    | refused error path => exact .inr (.inl ⟨_, rfl⟩)
    | whileWriting error => exact .inr (.inl ⟨_, rfl⟩)
    | holdsNull => exact .inr (.inr ⟨_, rfl⟩)

/-- Reading the source changes nothing, and lines that are not typed are those of a readable
file. -/
theorem source_cases (s : AssembleSettings) (w : World) :
    (∃ lines, s.source w = .ok (.ok lines) w ∧
        (s.file ≠ standardStream → ∃ old, w.files.read s.file = .ok old)) ∨
      (∃ e, s.source w = .ok (.error e) w) ∨ ∃ crash, s.source w = .error crash w := by
  rw [AssembleSettings.source]
  split
  · next htyped => exact .inl ⟨_, rfl, fun hfile => absurd htyped hfile⟩
  · obtain ⟨data, hread, hrun⟩ | ⟨e, hrun⟩ | ⟨crash, hrun⟩ := readFile_cases s.file w
    · rw [EState.bind_of_ok hrun]
      dsimp only
      cases Text.ofUtf8 data.toList with
      | error cause => exact .inr (.inr ⟨_, rfl⟩)
      | ok text => exact .inl ⟨_, rfl, fun _ => ⟨data, hread⟩⟩
    · rw [EState.bind_of_ok hrun]
      exact .inr (.inl ⟨e, rfl⟩)
    · rw [EState.bind_of_error hrun]
      exact .inr (.inr ⟨crash, rfl⟩)

/-- What a run does to the files: nothing, or it writes an image where the settings tell, of a
source that could be read. -/
inductive Performs (s : AssembleSettings) (w : World) :
    EStateM.Result Crash World Outcome → Prop where
  | crashed (crash : Crash) : Performs s w (.error crash w)
  | kept (o : Outcome) : Performs s w (.ok o w)
  | wrote {o : Outcome} {path : String} {image : Bytes} {files : Files}
      (readable : s.file ≠ standardStream → ∃ old, w.files.read s.file = .ok old)
      (target : s.target = some path) (written : Files.write path image w.files = .ok () files)
      (done : o.ending = .done) : Performs s w (.ok o { w with files })
  | broke {o : Outcome} {path : String} {image : Bytes} {files : Files} {e : SystemError}
      (readable : s.file ≠ standardStream → ∃ old, w.files.read s.file = .ok old)
      (target : s.target = some path)
      (written : Files.write path image w.files = .error (.whileWriting e) files) :
      Performs s w (.ok o { w with files })

/-- A file is written, or the writing breaks off, which is reported; or all files stay as they are.
-/
theorem writeFile_cases (path : String) (data : Bytes) (w : World) :
    (∃ files, Files.write path data w.files = .ok () files ∧
        writeFile path data w = .ok (.ok ()) { w with files }) ∨
      (∃ e files, Files.write path data w.files = .error (.whileWriting e) files ∧
        writeFile path data w = .ok (.error (.whileWriting e)) { w with files }) ∨
      (∃ e, writeFile path data w = .ok (.error e) w) ∨
      ∃ crash, writeFile path data w = .error crash w := by
  rw [writeFile, EState.get_bind]
  have hwrites := Files.writes_write path data w.files
  cases hwrite : Files.write path data w.files with
  | ok done files => exact .inl ⟨files, rfl, rfl⟩
  | error e files =>
    rw [hwrite] at hwrites
    cases hwrites with
    | @broken _ cause _ => exact .inr (.inl ⟨cause, files, rfl, rfl⟩)
    | refused =>
      cases e with
      | refused error path => exact .inr (.inr (.inl ⟨_, rfl⟩))
      | whileWriting error => exact .inr (.inr (.inl ⟨_, rfl⟩))
      | holdsNull => exact .inr (.inr (.inr ⟨_, rfl⟩))

/-- An image is written at most once, where the settings tell. -/
theorem performs_deliver (journal : Log.Journal) (image : Bytes)
    (hreadable : s.file ≠ standardStream → ∃ old, w.files.read s.file = .ok old) :
    Performs s w (s.deliver journal image w) := by
  rw [AssembleSettings.deliver]
  cases htarget : s.target with
  | none => exact .kept _
  | some path =>
    dsimp only
    obtain ⟨files, hwrite, hrun⟩ | ⟨e, files, hwrite, hrun⟩ | ⟨e, hrun⟩ | ⟨crash, hrun⟩ :=
      writeFile_cases path image w
    · rw [EState.bind_of_ok hrun]
      exact .wrote hreadable htarget hwrite rfl
    · rw [EState.bind_of_ok hrun]
      exact .broke hreadable htarget hwrite
    · rw [EState.bind_of_ok hrun]
      exact .kept _
    · rw [EState.bind_of_error hrun]
      exact .crashed crash

/-- A run writes at most once, and only when the source is read and assembled. -/
theorem performs_perform (s : AssembleSettings) (w : World) : Performs s w (s.perform w) := by
  rw [AssembleSettings.perform]
  dsimp only
  obtain ⟨lines, hrun, hreadable⟩ | ⟨e, hrun⟩ | ⟨crash, hrun⟩ := source_cases s w
  · rw [EState.bind_of_ok hrun]
    dsimp only
    cases (Assembler.assembleLines s.shiftsVy lines).2 with
    | error e =>
      cases hrefusal : e.cause.isRefusal with
      | true =>
        simp only [hrefusal, if_true]
        exact .kept _
      | false =>
        simp only [hrefusal]
        exact .crashed _
    | ok image => exact performs_deliver _ image hreadable
  · rw [EState.bind_of_ok hrun]
    exact .kept _
  · rw [EState.bind_of_error hrun]
    exact .crashed crash

/-- A source whose image goes beside it is a file. -/
theorem file_ne_of_target (houtput : s.output = none) (htarget : s.target = some path) :
    s.file ≠ standardStream ∧ path = withExtension s.file imageExtension := by
  rw [AssembleSettings.target, houtput] at htarget
  dsimp only at htarget
  split at htarget
  · cases htarget
  · next hfile => exact ⟨hfile, (Option.some.inj htarget).symm⟩

/-- What is written beside a source leaves it as it is, unless it is written over the source. -/
theorem read_source_of_writtenAt (houtput : s.output = none)
    (hreadable : s.file ≠ standardStream → ∃ old, w.files.read s.file = .ok old)
    (htarget : s.target = some path) (h : Files.WrittenAt w.files path data files) :
    files.read s.file = w.files.read s.file ∨
      w.files.SameFile s.file (withExtension s.file imageExtension) ∧
        (withExtension s.file imageExtension = s.file ∨
          w.files.Entwined (fileName s.file) (fileName (withExtension s.file imageExtension))) := by
  obtain ⟨hfile, rfl⟩ := file_ne_of_target houtput htarget
  obtain ⟨old, hread⟩ := hreadable hfile
  rw [hread]
  obtain hkept | hsame := h.read_eq hread
  · exact .inl hkept
  · exact .inr ⟨hsame, entwined_of_sameFile_withExtension hsame⟩

/-! ## Whole runs -/

/-- A run of the assembler tool that breaks off leaves all files as they were. One that fails does
so too, unless it opened its output and the writing broke off: then no other file is changed. A run
that is told no output leaves its source as it was, unless the path of the source with the extension
of images leads to the source: then the two paths are equal, or in some folder the two file names
stand for one file, or one of them is a link. -/
theorem assemble_keeps_source (arguments : List String) (w : World) :
    (∀ crash after, assemble arguments w = .error crash after → after.files = w.files) ∧
      ∀ o after, assemble arguments w = .ok o after →
        (o.ending.status = 1 → after.files = w.files ∨ ∃ s path image e,
          assembleLine.parse {} arguments = .ok s ∧ s.target = some path ∧
            Files.write path image w.files = .error (.whileWriting e) after.files ∧
            w.files.ChangedOnlyAt path after.files) ∧
        ∀ s, assembleLine.parse {} arguments = .ok s → s.output = none →
          after.files.read s.file = w.files.read s.file ∨
            w.files.SameFile s.file (withExtension s.file imageExtension) ∧
              (withExtension s.file imageExtension = s.file ∨
                w.files.Entwined (fileName s.file)
                  (fileName (withExtension s.file imageExtension))) := by
  rw [assemble]
  cases hparse : assembleLine.parse {} arguments with
  | error stop =>
    refine ⟨fun _ _ => nofun, ?_⟩
    rintro _ _ ⟨⟩
    exact ⟨fun _ => .inl rfl, fun _ => nofun⟩
  | ok s =>
    have hperforms := performs_perform s w
    refine ⟨fun crash after h => ?_, fun o after h => ?_⟩
    · dsimp only at h
      rw [h] at hperforms
      cases hperforms
      rfl
    · dsimp only at h
      rw [h] at hperforms
      cases hperforms with
      | kept => exact ⟨fun _ => .inl rfl, fun _ _ _ => .inl rfl⟩
      | @wrote _ path image files readable target written done =>
        have hwrites := Files.writes_write path image w.files
        rw [written] at hwrites
        refine ⟨fun hfailed => ?_, ?_⟩
        · rw [done] at hfailed
          cases hfailed
        · rintro _ ⟨⟩ houtput
          cases hwrites with
          | whole hwritten => exact read_source_of_writtenAt houtput readable target hwritten
      | @broke _ path image files e readable target written =>
        have hwrites := Files.writes_write path image w.files
        rw [written] at hwrites
        cases hwrites with
        | refused => exact ⟨fun _ => .inl rfl, fun _ _ _ => .inl rfl⟩
        | broken _ hwritten =>
          refine ⟨fun _ => .inr ⟨s, path, image, e, rfl, target, written, ?_⟩, ?_⟩
          · exact hwritten.changedOnlyAt
          · rintro _ ⟨⟩ houtput
            exact read_source_of_writtenAt houtput readable target hwritten

/-! ## Some sources -/

/-- A source that clears the display. -/
def clearingSource : Bytes := "CLS".toUTF8.toList.toArray

/-- There is one file, and it holds the source. -/
def holding (path : String) : World := { files := ({} : Files).addFile path clearingSource }

/-- There is one file, which holds the source, and room for one byte. -/
def holdingNearlyFull (path : String) : World :=
  { files := { (holding path).files with breaksOff := some (1, .noSpace) } }

/-- There is one file, which holds the source, and a link to it. -/
def linked (path link : String) : World :=
  { files := (holding path).files.add Files.here link (.link path) }

/-- How a run ends and the files that it leaves, if it comes to an end. -/
def leaves : EStateM.Result Crash World Outcome → Option (Ending × Files)
  | .ok o after => some (o.ending, after.files)
  | .error .. => none

/-- What a run leaves is left by an outcome, with the status of its ending. -/
theorem exists_outcome {run : EStateM.Result Crash World Outcome} {ending : Ending}
    (h : leaves run = some (ending, files)) :
    ∃ o after, run = .ok o after ∧ o.ending.status = ending.status ∧
      ∀ path, after.files.read path = files.read path := by
  cases run with
  | error crash after => cases h
  | ok o after =>
    cases h
    exact ⟨o, after, rfl, rfl, fun _ => rfl⟩

/-- A source is kept when its image is written beside it, all files are kept when there is no
source, and where there is too little room the source is kept and the image is cut short. -/
theorem assemble_keeps_source_clearing :
    (∃ o after, assemble ["a.asm"] (holding "a.asm") = .ok o after ∧
      assembleLine.parse {} ["a.asm"] = .ok { file := "a.asm" } ∧
      ¬ (holding "a.asm").files.SameFile "a.asm" "a.bin" ∧
      after.files.read "a.bin" = .ok #[0x00, 0xE0] ∧
      after.files.read "a.asm" = (holding "a.asm").files.read "a.asm") ∧
    (∃ o after, assemble ["b.asm"] (holding "a.asm") = .ok o after ∧ o.ending.status = 1 ∧
      after.files = (holding "a.asm").files) ∧
    ∃ o after, assemble ["a.asm"] (holdingNearlyFull "a.asm") = .ok o after ∧ o.ending.status = 1 ∧
      after.files.read "a.bin" = .ok #[0x00] ∧
      after.files.read "a.asm" = (holdingNearlyFull "a.asm").files.read "a.asm" := by
  have hparse : assembleLine.parse {} ["a.asm"] = .ok { file := "a.asm" } := by rfl
  have hpath : withExtension "a.asm" imageExtension = "a.bin" := by decide +kernel
  have hdifferent {w : World} (hvacant : w.files.locate true "a.bin" = .ok (.vacant 1 "a.bin")) :
      ¬ w.files.SameFile "a.asm" "a.bin" := by
    rintro ⟨number, -, houtput⟩
    cases hvacant.symm.trans houtput
  refine ⟨?_, ?_, ?_⟩
  · have hwritten : leaves (assemble ["a.asm"] (holding "a.asm")) =
        some (.done, (holding "a.asm").files.addFile "a.bin" #[0x00, 0xE0]) := by
      decide +kernel
    obtain ⟨o, after, hrun, -, hleft⟩ := exists_outcome hwritten
    have hvacant : ¬ (holding "a.asm").files.SameFile "a.asm" "a.bin" :=
      hdifferent (by decide +kernel)
    have himage : after.files.read "a.bin" = .ok #[0x00, 0xE0] :=
      (hleft "a.bin").trans (by decide +kernel)
    have hkept := ((assemble_keeps_source _ _).2 o after hrun).2 _ hparse rfl
    rw [hpath] at hkept
    exact ⟨o, after, hrun, hparse, hvacant, himage,
      hkept.resolve_right fun hsame => hvacant hsame.1⟩
  · have hmissing : leaves (assemble ["b.asm"] (holding "a.asm")) =
        some (.failed, (holding "a.asm").files) := by
      decide +kernel
    obtain ⟨o, after, hrun, hstatus, -⟩ := exists_outcome hmissing
    obtain hkept | ⟨_, _, _, _, -, -, hwrite, -⟩ :=
      ((assemble_keeps_source _ _).2 o after hrun).1 hstatus
    · exact ⟨o, after, hrun, hstatus, hkept⟩
    · exact ⟨o, after, hrun, hstatus, Files.eq_of_write_eq_error rfl hwrite⟩
  · have hcut : leaves (assemble ["a.asm"] (holdingNearlyFull "a.asm")) =
        some (.failed, (holdingNearlyFull "a.asm").files.addFile "a.bin" #[0x00]) := by
      decide +kernel
    obtain ⟨o, after, hrun, hstatus, hleft⟩ := exists_outcome hcut
    have himage : after.files.read "a.bin" = .ok #[0x00] :=
      (hleft "a.bin").trans (by decide +kernel)
    have hvacant : ¬ (holdingNearlyFull "a.asm").files.SameFile "a.asm" "a.bin" :=
      hdifferent (by decide +kernel)
    have hkept := ((assemble_keeps_source _ _).2 o after hrun).2 _ hparse rfl
    rw [hpath] at hkept
    exact ⟨o, after, hrun, hstatus, himage, hkept.resolve_right fun hsame => hvacant hsame.1⟩

/-- A source whose name has the extension of images is lost, since the image is written over it. So
is one for which the name of the image is a link. And where there is too little room a run fails and
leaves an image that is cut short. -/
theorem assemble_overwrites_source :
    (∃ o after, assemble ["x.bin"] (holding "x.bin") = .ok o after ∧
      assembleLine.parse {} ["x.bin"] = .ok { file := "x.bin" } ∧
      (holding "x.bin").files.read "x.bin" = .ok clearingSource ∧
      after.files.read "x.bin" = .ok #[0x00, 0xE0]) ∧
    (∃ o after, assemble ["x.asm"] (linked "x.asm" "x.bin") = .ok o after ∧
      assembleLine.parse {} ["x.asm"] = .ok { file := "x.asm" } ∧ o.ending.status = 0 ∧
      (linked "x.asm" "x.bin").files.read "x.asm" = .ok clearingSource ∧
      after.files.read "x.asm" = .ok #[0x00, 0xE0]) ∧
    ∃ o after, assemble ["x.asm"] (holdingNearlyFull "x.asm") = .ok o after ∧
      o.ending.status = 1 ∧
      (holdingNearlyFull "x.asm").files.read "x.bin" = .error (.refused .notFound "x.bin") ∧
      after.files.read "x.bin" = .ok #[0x00] := by
  refine ⟨?_, ?_, ?_⟩
  · have hwritten : leaves (assemble ["x.bin"] (holding "x.bin")) =
        some (.done, (holding "x.bin").files.hold 2 #[0x00, 0xE0]) := by
      decide +kernel
    obtain ⟨o, after, hrun, -, hleft⟩ := exists_outcome hwritten
    have hbefore : (holding "x.bin").files.read "x.bin" = .ok clearingSource := by decide +kernel
    have himage : after.files.read "x.bin" = .ok #[0x00, 0xE0] :=
      (hleft "x.bin").trans (by decide +kernel)
    exact ⟨o, after, hrun, rfl, hbefore, himage⟩
  · have hwritten : leaves (assemble ["x.asm"] (linked "x.asm" "x.bin")) =
        some (.done, (linked "x.asm" "x.bin").files.hold 2 #[0x00, 0xE0]) := by
      decide +kernel
    obtain ⟨o, after, hrun, hstatus, hleft⟩ := exists_outcome hwritten
    have hbefore : (linked "x.asm" "x.bin").files.read "x.asm" = .ok clearingSource := by
      decide +kernel
    have himage : after.files.read "x.asm" = .ok #[0x00, 0xE0] :=
      (hleft "x.asm").trans (by decide +kernel)
    exact ⟨o, after, hrun, rfl, hstatus, hbefore, himage⟩
  · have hcut : leaves (assemble ["x.asm"] (holdingNearlyFull "x.asm")) =
        some (.failed, (holdingNearlyFull "x.asm").files.addFile "x.bin" #[0x00]) := by
      decide +kernel
    obtain ⟨o, after, hrun, hstatus, hleft⟩ := exists_outcome hcut
    have hbefore : (holdingNearlyFull "x.asm").files.read "x.bin" =
        .error (.refused .notFound "x.bin") := by decide +kernel
    have himage : after.files.read "x.bin" = .ok #[0x00] :=
      (hleft "x.bin").trans (by decide +kernel)
    exact ⟨o, after, hrun, hstatus, hbefore, himage⟩

end SuperChip.Tool
