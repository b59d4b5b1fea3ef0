import SuperChip.Proofs.EState
import SuperChip.Proofs.Files.Walk

/-!
# Writing one file and reading another

A file is opened at one node, which is a file already or is made under a name that stood for nothing
(`opens_openEmpty`), and what is then written goes to that node (`writes_write`). Paths lead where
they led before, except that more of them may lead to a new file. So however the writing ends, only
the file that the path of the output leads to is changed (`WrittenAt.changedOnlyAt`), and another
file that could be read is read as before (`WrittenAt.read_eq`).
-/

set_option autoImplicit false

namespace SuperChip.Files

variable {files after opened : Files} {making : Bool} {links place number inside : Nat}
  {name added path other : String} {names rest : List String} {spot : Spot} {next : Turn}
  {data old : Bytes} {file : File} {folder : Folder}

/-! ## Other bytes in a file -/

/-- A file is given other bytes, and no folder is. -/
@[simp]
theorem folder?_hold : (files.hold number data).folder? place = files.folder? place := by
  by_cases hplace : number = place
  · simp only [folder?, hold, hplace, List.getElem?_modify_eq]
    rcases files.nodes[place]? with _ | _ | _ | _ <;> rfl
  · simp [folder?, hold, hplace]

/-- A file is given other bytes, and no link is. -/
@[simp]
theorem link?_hold : (files.hold number data).link? place = files.link? place := by
  by_cases hplace : number = place
  · simp only [link?, hold, hplace, List.getElem?_modify_eq]
    rcases files.nodes[place]? with _ | _ | _ | _ <;> rfl
  · simp [link?, hold, hplace]

/-- Other files keep their bytes. -/
theorem file?_hold_of_ne (h : number ≠ place) :
    (files.hold number data).file? place = files.file? place := by
  simp [file?, hold, h]

/-- Turns do not depend on the bytes of files. -/
theorem turn_hold : (files.hold number data).turn making place name rest =
    files.turn making place name rest := by
  simp [turn]

/-- Where all turns are taken as elsewhere, names lead where they lead there. -/
theorem Leads.of_turn_eq
    (hturn : ∀ place name rest,
      after.turn making place name rest = files.turn making place name rest)
    (h : Leads files making links place names spot) :
    Leads after making links place names spot := by
  induction h with
  | done => exact .done
  | on turned _ ih => exact .on ((hturn _ _ _).trans turned) ih
  | through turned _ ih => exact .through ((hturn _ _ _).trans turned) ih
  | vacant turned => exact .vacant ((hturn _ _ _).trans turned)

/-- Paths lead where they led, whatever the bytes of files are. -/
theorem locate_hold : (files.hold number data).locate making path = .ok spot ↔
    files.locate making path = .ok spot := by
  rw [locate_eq_ok_iff, locate_eq_ok_iff]
  exact and_congr_right fun _ =>
    ⟨.of_turn_eq fun _ _ _ => turn_hold.symm, .of_turn_eq fun _ _ _ => turn_hold⟩

/-! ## A new file -/

/-- A new file is the last node, and the others are as they were, but for the folder that names
it. -/
theorem getElem?_add : (files.add inside added (.file file)).nodes[place]? =
    if place = files.nodes.length then some (.file file)
    else if place = inside then (files.nodes[place]?).map (·.naming added files.nodes.length)
    else files.nodes[place]? := by
  rcases Nat.lt_trichotomy place files.nodes.length with hlt | rfl | hlt
  · rw [add, List.getElem?_append_left (by simpa using hlt), List.getElem?_modify,
      if_neg (Nat.ne_of_lt hlt)]
    by_cases hplace : place = inside
    · simp [hplace]
    · simp [hplace, Ne.symm hplace]
  · simp [add]
  · have hnone : files.nodes[place]? = none := List.getElem?_eq_none (Nat.le_of_lt hlt)
    rw [if_neg (Nat.ne_of_gt hlt), hnone,
      List.getElem?_eq_none (by simpa [add, Nat.succ_le_iff] using hlt)]
    simp

/-- A new file is no folder, and the folder that names it has one name more. -/
theorem folder?_add : (files.add inside added (.file file)).folder? place =
    if place = inside then (files.folder? place).map fun folder =>
      { folder with entries := (added, files.nodes.length) :: folder.entries }
    else files.folder? place := by
  rw [folder?, getElem?_add]
  by_cases hnew : place = files.nodes.length
  · simp [folder?, hnew]
  by_cases hplace : place = inside
  · rw [if_neg hnew, if_pos hplace, if_pos hplace, folder?]
    rcases files.nodes[place]? with _ | _ | _ | _ <;> rfl
  · rw [if_neg hnew, if_neg hplace, if_neg hplace, folder?]

/-- A new file is no link. -/
@[simp]
theorem link?_add : (files.add inside added (.file file)).link? place = files.link? place := by
  rw [link?, getElem?_add]
  by_cases hnew : place = files.nodes.length
  · simp [link?, hnew]
  by_cases hplace : place = inside
  · rw [if_neg hnew, if_pos hplace, link?]
    rcases files.nodes[place]? with _ | _ | _ | _ <;> rfl
  · rw [if_neg hnew, if_neg hplace, link?]

/-- All files but the new one are as they were. -/
theorem file?_add_of_ne (h : place ≠ files.nodes.length) :
    (files.add inside added (.file file)).file? place = files.file? place := by
  rw [file?, getElem?_add, if_neg h]
  by_cases hplace : place = inside
  · rw [if_pos hplace, file?]
    rcases files.nodes[place]? with _ | _ | _ | _ <;> rfl
  · rw [if_neg hplace, file?]

/-- A name that stands for nothing in a folder is none of those that lead from every folder. -/
theorem ne_of_child?_eq_none (h : folder.child? place added = none) :
    added ≠ "" ∧ added ≠ "." ∧ added ≠ ".." := by
  refine ⟨?_, ?_, ?_⟩ <;> rintro rfl <;> simp [Folder.child?] at h

/-- A new name leads to the new file. -/
theorem child?_cons_self (h : folder.child? place added = none) :
    ({ folder with entries := (added, number) :: folder.entries } : Folder).child? place added =
      some number := by
  obtain ⟨hempty, hdot, hdots⟩ := ne_of_child?_eq_none h
  simp [Folder.child?, hempty, hdot, hdots]

/-- The other names lead where they led. -/
theorem child?_cons_of_ne (h : name ≠ added) :
    ({ folder with entries := (added, number) :: folder.entries } : Folder).child? place name =
      folder.child? place name := by
  have hbeq : (name == added) = false := by simp [h]
  simp [Folder.child?, List.lookup_cons, hbeq]

/-- Turns at other names are as they were. -/
theorem turn_add_of_ne (h : ¬ (place = inside ∧ name = added)) :
    (files.add inside added (.file file)).turn making place name rest =
      files.turn making place name rest := by
  by_cases hplace : place = inside
  · subst hplace
    have hname : name ≠ added := fun hname => h ⟨rfl, hname⟩
    cases hfolder : files.folder? place with
    | none => simp [turn, folder?_add, hfolder]
    | some folder => simp [turn, folder?_add, hfolder, child?_cons_of_ne hname]
  · simp [turn, folder?_add, hplace]

/-- The number of a new node stands for no folder yet. -/
theorem folder?_length : files.folder? files.nodes.length = none := by
  simp [folder?]

/-- The number of a new node stands for no link yet. -/
theorem link?_length : files.link? files.nodes.length = none := by
  simp [link?]

/-- From a new file no walk goes on. -/
theorem Leads.eq_of_add
    (h : Leads (files.add inside added (.file file)) making links files.nodes.length names spot) :
    spot = .node files.nodes.length := by
  have hstuck {name : String} {rest : List String} {next : Turn}
      (h : (files.add inside added (.file file)).turn making files.nodes.length name rest =
        .ok next) :
      False := by
    obtain ⟨folder, hfolder, -⟩ := turn_eq_ok h
    rw [folder?_add, folder?_length] at hfolder
    simp at hfolder
  cases h with
  | done => rfl
  | on turned _ => exact (hstuck turned).elim
  | through turned _ => exact (hstuck turned).elim
  | vacant turned => exact (hstuck turned).elim

section Added

variable (hfolder : files.folder? inside = some folder) (hlacks : folder.child? inside added = none)

include hfolder hlacks

/-- At a name that stands for nothing a walk ends, if it goes on at all. -/
theorem turn_self (h : files.turn making inside added rest = .ok next) :
    next = .vacant ∧ making = true ∧ rest = [] := by
  obtain ⟨folder', hfolder', hturn⟩ := turn_eq_ok h
  cases hfolder.symm.trans hfolder'
  simpa [hlacks] using hturn

/-- A turn that leads on does so also when a file is made. -/
theorem turn_add_of_ok (h : files.turn making place name rest = .ok next) (hnext : next ≠ .vacant) :
    (files.add inside added (.file file)).turn making place name rest = .ok next := by
  by_cases hadded : place = inside ∧ name = added
  · obtain ⟨rfl, rfl⟩ := hadded
    exact absurd (turn_self hfolder hlacks h).1 hnext
  · exact (turn_add_of_ne hadded).trans h

/-- When a file is made, a turn leads to it or is one that was taken before. -/
theorem turn_of_add
    (h : (files.add inside added (.file file)).turn making place name rest = .ok next) :
    next = .on files.nodes.length ∨ files.turn making place name rest = .ok next := by
  by_cases hadded : place = inside ∧ name = added
  · obtain ⟨rfl, rfl⟩ := hadded
    obtain ⟨folder', hfolder', hturn⟩ := turn_eq_ok h
    rw [folder?_add, if_pos rfl, hfolder] at hfolder'
    cases hfolder'
    refine .inl ?_
    simpa [child?_cons_self hlacks, link?_length] using hturn
  · exact .inr ((turn_add_of_ne hadded).symm.trans h)

/-- Where a file could be made, a walk comes to it once it is made. -/
theorem turn_add_of_vacant (h : files.turn true inside added [] = .ok .vacant) :
    (files.add inside added (.file file)).turn true inside added [] =
      .ok (.on files.nodes.length) := by
  rw [turn, hfolder] at h
  dsimp only at h
  rw [turn, folder?_add, if_pos rfl, hfolder]
  dsimp only [Option.map]
  split at h
  · cases h
  · simp [namesFolder, child?_cons_self hlacks, link?_length, *]

/-- Names that lead to a node lead there also when a file is made. -/
theorem Leads.add_node (h : Leads files making links place names (.node number)) :
    Leads (files.add inside added (.file file)) making links place names (.node number) := by
  generalize hspot : Spot.node number = spot at h ⊢
  induction h with
  | done => exact .done
  | on turned _ ih => exact .on (turn_add_of_ok hfolder hlacks turned nofun) (ih hspot)
  | through turned _ ih => exact .through (turn_add_of_ok hfolder hlacks turned nofun) (ih hspot)
  | vacant => cases hspot

/-- Names that lead to the spot where a file is made lead to that file then. -/
theorem Leads.add_vacant (h : Leads files true links place names (.vacant inside added)) :
    Leads (files.add inside added (.file file)) true links place names
      (.node files.nodes.length) := by
  generalize hspot : Spot.vacant inside added = spot at h
  induction h with
  | done => cases hspot
  | on turned _ ih => exact .on (turn_add_of_ok hfolder hlacks turned nofun) (ih hspot)
  | through turned _ ih => exact .through (turn_add_of_ok hfolder hlacks turned nofun) (ih hspot)
  | vacant turned =>
    cases hspot
    obtain ⟨-, -, rfl⟩ := turn_self hfolder hlacks turned
    exact .on (turn_add_of_vacant hfolder hlacks turned) .done

/-- When a file is made, names that lead to another node led there before. -/
theorem Leads.of_add (hnumber : number ≠ files.nodes.length)
    (h : Leads (files.add inside added (.file file)) making links place names (.node number)) :
    Leads files making links place names (.node number) := by
  generalize hspot : Spot.node number = spot at h ⊢
  induction h with
  | done => exact .done
  | on turned onward ih =>
    obtain ⟨⟨⟩⟩ | hturn := turn_of_add hfolder hlacks turned
    · cases hspot.trans onward.eq_of_add
      exact absurd rfl hnumber
    · exact .on hturn (ih hspot)
  | through turned _ ih =>
    obtain ⟨⟨⟩⟩ | hturn := turn_of_add hfolder hlacks turned
    exact .through hturn (ih hspot)
  | vacant => cases hspot

end Added

/-! ## Reading -/

/-- What is read at a path is the bytes of the readable file that it leads to. -/
theorem read_eq_ok_iff : files.read path = .ok data ↔
    ∃ number file, files.locate false path = .ok (.node number) ∧
      files.file? number = some file ∧ file.unreadable = none ∧ file.data = data := by
  unfold read
  cases hlocate : files.locate false path with
  | error e => simp
  | ok spot =>
    cases spot with
    | vacant => simp
    | node number =>
      cases hfile : files.file? number with
      | none => simp [hfile]
      | some file => cases hread : file.unreadable <;> simp [hfile, hread]

/-- Other bytes in a file change nothing that is read elsewhere. -/
theorem read_hold (hne : files.locate false path ≠ .ok (.node number)) :
    (files.hold number data).read path = .ok old ↔ files.read path = .ok old := by
  rw [read_eq_ok_iff, read_eq_ok_iff]
  refine exists_congr fun place => exists_congr fun file => ?_
  rw [locate_hold]
  refine and_congr_right fun hplace => ?_
  have hnumber : number ≠ place := fun heq => hne (heq ▸ hplace)
  rw [file?_hold_of_ne hnumber]

/-! ## Writing -/

/-- How a file is opened: it is there and emptied, it is made under a name that its folder lacks, or
the files are left as they are. -/
inductive Opens (files : Files) (path : String) : EStateM.Result FileError Files Nat → Prop where
  | found {number : Nat} (located : files.locate true path = .ok (.node number)) :
      Opens files path (.ok number (files.hold number #[]))
  | made {inside : Nat} {added : String} {folder : Folder}
      (located : files.locate true path = .ok (.vacant inside added))
      (named : files.folder? inside = some folder) :
      Opens files path (.ok files.nodes.length (files.add inside added (.file {})))
  | refused (e : FileError) : Opens files path (.error e files)

/-- How bytes are written to an open file: all of them, or those up to where it breaks off. -/
inductive Fills (files : Files) (number : Nat) (data : Bytes) :
    EStateM.Result FileError Files Unit → Prop where
  | whole : Fills files number data (.ok () (files.hold number data))
  | broken {count : Nat} {e : SystemError} (breaks : files.breaksOff = some (count, e)) :
      Fills files number data (.error (.whileWriting e) (files.hold number (data.take count)))

/-- Opening a file has one of its three results. -/
theorem opens_openEmpty (path : String) (files : Files) :
    Opens files path (openEmpty path files) := by
  unfold openEmpty
  rw [EState.get_bind]
  rcases hlocate : files.locate true path with e | number | ⟨inside, added⟩
  · exact .refused e
  · dsimp only
    cases hfile : files.file? number with
    | none => exact .refused _
    | some file =>
      rcases file with ⟨_, _, _ | e⟩
      · exact .found hlocate
      · exact .refused _
  · dsimp only
    cases hfolder : files.folder? inside with
    | none => exact .refused _
    | some folder =>
      rcases folder with ⟨_, _, _, _ | e⟩
      · exact .made hlocate hfolder
      · exact .refused _

/-- Writing to an open file has one of its two results. -/
theorem fills_fill (number : Nat) (data : Bytes) (files : Files) :
    Fills files number data (fill number data files) := by
  unfold fill
  rw [EState.get_bind]
  rcases hbreaks : files.breaksOff with _ | ⟨count, e⟩
  · exact .whole
  · by_cases hcount : count ≤ data.size
    · simp only [if_pos hcount]
      exact .broken hbreaks
    · simp only [if_neg hcount]
      exact .whole

/-- A number that stands for a file is not that of a new node. -/
theorem ne_length_of_file? (h : files.file? number = some file) : number ≠ files.nodes.length := by
  rintro rfl
  simp [file?] at h

section Added

variable (hfolder : files.folder? inside = some folder) (hlacks : folder.child? inside added = none)

include hfolder hlacks

/-- When a file is made, paths lead to the other nodes as before. -/
theorem locate_add (hnumber : number ≠ files.nodes.length) :
    (files.add inside added (.file file)).locate making path = .ok (.node number) ↔
      files.locate making path = .ok (.node number) := by
  rw [locate_eq_ok_iff, locate_eq_ok_iff]
  exact and_congr_right fun _ => ⟨.of_add hfolder hlacks hnumber, .add_node hfolder hlacks⟩

omit hfolder hlacks in
/-- A path that leads to where a file can be made leads to that file then. -/
theorem locate_add_vacant (h : files.locate true path = .ok (.vacant inside added))
    (hfolder : files.folder? inside = some folder) (hlacks : folder.child? inside added = none)
    (file : File) :
    (files.add inside added (.file file)).locate true path = .ok (.node files.nodes.length) := by
  obtain ⟨hform, hleads⟩ := locate_eq_ok_iff.mp h
  exact locate_eq_ok_iff.mpr ⟨hform, hleads.add_vacant hfolder hlacks⟩

/-- A new file changes nothing that is read elsewhere. -/
theorem read_add (hne : (files.add inside added (.file file)).locate false path ≠
      .ok (.node files.nodes.length)) :
    (files.add inside added (.file file)).read path = .ok old ↔ files.read path = .ok old := by
  rw [read_eq_ok_iff, read_eq_ok_iff]
  refine exists_congr fun number => exists_congr fun found => ?_
  by_cases hnumber : number = files.nodes.length
  · subst hnumber
    simp [hne, file?]
  · rw [locate_add hfolder hlacks hnumber, file?_add_of_ne hnumber]

end Added

/-- Bytes that are written twice are those that are written last. -/
theorem hold_hold (files : Files) (number : Nat) (old data : Bytes) :
    (files.hold number old).hold number data = files.hold number data := by
  have hnode : (fun node : FileNode => (node.holding old).holding data) = (·.holding data) := by
    funext node
    cases node <;> rfl
  simp [hold, List.modify_modify_eq, Function.comp_def, hnode]

/-- Bytes that are written to a new file are all that it holds. -/
theorem hold_add (files : Files) (inside : Nat) (added : String) (data : Bytes) :
    (files.add inside added (.file {})).hold files.nodes.length data =
      files.add inside added (.file { data }) := by
  have hlast (nodes : List FileNode) :
      (nodes ++ [FileNode.file {}]).modify nodes.length (·.holding data) =
        nodes ++ [.file { data }] := by
    induction nodes with
    | nil => rfl
    | cons first nodes ih => simpa using ih
  have hnamed := hlast (files.nodes.modify inside (·.naming added files.nodes.length))
  rw [List.length_modify] at hnamed
  simp only [hold, add, hnamed]

/-! ## What a write changes -/

/-- The files after bytes are written at a path: to a file that is there, or to one that is made. -/
inductive WrittenAt (files : Files) (path : String) (data : Bytes) : Files → Prop where
  | found {number : Nat} (located : files.locate true path = .ok (.node number)) :
      WrittenAt files path data (files.hold number data)
  | made {inside : Nat} {added : String} {folder : Folder}
      (located : files.locate true path = .ok (.vacant inside added))
      (named : files.folder? inside = some folder) (lacks : folder.child? inside added = none) :
      WrittenAt files path data (files.add inside added (.file { data }))

/-- How bytes are written at a path: all of them, those up to where it breaks off, or none, and the
files are left as they are. -/
inductive Writes (files : Files) (path : String) (data : Bytes) :
    EStateM.Result FileError Files Unit → Prop where
  | whole {after : Files} (written : WrittenAt files path data after) :
      Writes files path data (.ok () after)
  | broken {count : Nat} {e : SystemError} {after : Files}
      (breaks : files.breaksOff = some (count, e))
      (written : WrittenAt files path (data.take count) after) :
      Writes files path data (.error (.whileWriting e) after)
  | refused (e : FileError) : Writes files path data (.error e files)

/-- The files differ at most in the one that a path leads to. -/
def ChangedOnlyAt (files : Files) (path : String) (after : Files) : Prop :=
  ∀ other data, ¬ after.SameFile other path →
    (after.read other = .ok data ↔ files.read other = .ok data)

/-- What is written to an open file is found there. -/
theorem Opens.writtenAt (h : Opens files path (.ok number opened)) (data : Bytes) :
    WrittenAt files path data (opened.hold number data) := by
  cases h with
  | found located =>
    rw [hold_hold]
    exact .found located
  | made located named =>
    obtain ⟨-, hleads⟩ := locate_eq_ok_iff.mp located
    obtain ⟨folder', hfolder', hlacks⟩ := hleads.child?_eq_none
    cases named.symm.trans hfolder'
    rw [hold_add]
    exact .made located named hlacks

/-- Writing at a path has one of its three results. -/
theorem writes_write (path : String) (data : Bytes) (files : Files) :
    Writes files path data (write path data files) := by
  have hopens := opens_openEmpty path files
  cases hopen : openEmpty path files with
  | error e opened =>
    rw [hopen] at hopens
    rw [write, EState.bind_of_error hopen]
    cases hopens
    exact .refused e
  | ok number opened =>
    rw [hopen] at hopens
    rw [write, EState.bind_of_ok hopen]
    have hbreaks : opened.breaksOff = files.breaksOff := by cases hopens <;> rfl
    have hfills := fills_fill number data opened
    cases hfill : fill number data opened with
    | ok done after =>
      rw [hfill] at hfills
      cases hfills
      exact .whole (hopens.writtenAt data)
    | error e after =>
      rw [hfill] at hfills
      cases hfills with
      | broken breaks => exact .broken (hbreaks ▸ breaks) (hopens.writtenAt _)

/-- Where writing does not break off, a write that fails leaves the files as they are. -/
theorem eq_of_write_eq_error {e : FileError} (hroom : files.breaksOff = none)
    (h : write path data files = .error e after) : after = files := by
  have hwrites := writes_write path data files
  rw [h] at hwrites
  cases hwrites with
  | broken breaks => cases hroom.symm.trans breaks
  | refused => rfl

/-- What is written at a path changes no other file. -/
theorem WrittenAt.changedOnlyAt (h : WrittenAt files path data after) :
    files.ChangedOnlyAt path after := by
  intro other old hdifferent
  cases h with
  | @found number located =>
    have hother : files.locate false other ≠ .ok (.node number) := fun hother =>
      hdifferent ⟨number, locate_hold.mpr hother, locate_hold.mpr located⟩
    exact read_hold hother
  | made located named lacks =>
    have hmade := locate_add_vacant located named lacks { data }
    exact read_add named lacks fun hother => hdifferent ⟨_, hother, hmade⟩

/-- A path that could be read leads to the file that is written only if it did so before. -/
theorem WrittenAt.sameFile (h : WrittenAt files path data after)
    (hread : files.read other = .ok old)
    (hsame : after.SameFile other path) : files.SameFile other path := by
  obtain ⟨number, hother, hpath⟩ := hsame
  cases h with
  | found => exact ⟨number, locate_hold.mp hother, locate_hold.mp hpath⟩
  | made located named lacks =>
    -- The file that could be read is there already, so the path cannot lead to the new one.
    obtain ⟨place, file, hplace, hfile, -⟩ := read_eq_ok_iff.mp hread
    have hnew := ne_length_of_file? hfile
    cases hother.symm.trans ((locate_add named lacks hnew).mpr hplace)
    have hmade := locate_add_vacant located named lacks { data }
    cases hpath.symm.trans hmade
    exact absurd rfl hnew

/-- A file that could be read is read as before when bytes are written at a path that does not lead
to it. -/
theorem WrittenAt.read_eq (h : WrittenAt files path data after)
    (hread : files.read other = .ok old) :
    after.read other = .ok old ∨ files.SameFile other path := by
  by_cases hsame : after.SameFile other path
  · exact .inr (h.sameFile hread hsame)
  · exact .inl ((h.changedOnlyAt other old hsame).mpr hread)

end SuperChip.Files
