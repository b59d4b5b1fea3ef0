import Mathlib.Data.List.Basic
import SuperChip.Files

/-!
# Where paths lead

A walk along the names of a path takes one turn after another (`Leads`); it is what `walk` computes
(`walk_eq_ok_iff`). Two paths with the same folder part come to the same folder, with the same
number of links left (`Leads.lastNames`). So if they lead to one file, their last names are equal,
or two names for that file in one folder, or one of them is a link (`entwined_of_sameFile`).
-/

set_option autoImplicit false

namespace SuperChip.Files

variable {files : Files} {making : Bool} {links place number : Nat} {name target path : String}
  {front names rest : List String} {spot : Spot}

/-! ## Turns -/

/-- A turn is taken in a folder that can be searched, with a name that leads to a file or a folder,
to a link, or, at the end of a walk that may make a file, to nothing. -/
theorem turn_eq_ok {next : Turn} (h : files.turn making place name rest = .ok next) :
    ∃ folder, files.folder? place = some folder ∧
      ((∃ number, next = .on number ∧ folder.child? place name = some number) ∨
        (∃ number target, next = .through target ∧ folder.child? place name = some number ∧
          files.link? number = some target) ∨
        next = .vacant ∧ folder.child? place name = none ∧ making = true ∧ rest = []) := by
  unfold turn at h
  split at h
  · cases h
  · next folder hfolder =>
    refine ⟨folder, hfolder, ?_⟩
    split at h
    · cases h
    · split at h
      · cases h
      · split at h
        · next hchild =>
          split at h
          · cases h
          · split at h
            · next hmaking =>
              cases h
              simp only [Bool.and_eq_true, List.isEmpty_iff] at hmaking
              exact .inr (.inr ⟨rfl, hchild, hmaking⟩)
            · cases h
        · next number hchild =>
          split at h
          · next target hlink =>
            cases h
            exact .inr (.inl ⟨number, target, rfl, hchild, hlink⟩)
          · cases h
            exact .inl ⟨number, rfl, hchild⟩

/-- In front of a last name a turn depends neither on that name nor on whether a file may be
made. -/
theorem turn_front (hname : name ≠ "") (first : String) (others : List String) :
    files.turn true place first (front ++ [name]) = files.turn false place first others := by
  have hfolder : namesFolder (front ++ [name]) = false := by simp [namesFolder, hname]
  simp [turn, hfolder]

/-! ## Walks -/

/-- A walk along names leads from a place to a spot, through at most so many links. -/
inductive Leads (files : Files) (making : Bool) : Nat → Nat → List String → Spot → Prop where
  | done {links place : Nat} : Leads files making links place [] (.node place)
  | on {links place number : Nat} {name : String} {rest : List String} {spot : Spot}
      (turned : files.turn making place name rest = .ok (.on number))
      (onward : Leads files making links number rest spot) :
      Leads files making links place (name :: rest) spot
  | through {links place : Nat} {name target : String} {rest : List String} {spot : Spot}
      (turned : files.turn making place name rest = .ok (.through target))
      (onward : Leads files making links (start target place) (pieces target ++ rest) spot) :
      Leads files making (links + 1) place (name :: rest) spot
  | vacant {links place : Nat} {name : String} {rest : List String}
      (turned : files.turn making place name rest = .ok .vacant) :
      Leads files making links place (name :: rest) (.vacant place name)

/-- Up to the first link a walk goes name by name. -/
theorem leads_of_follow {onLink : Nat → List String → Except SystemError Spot}
    (hlink : ∀ {place : Nat} {name target : String} {rest : List String},
      files.turn making place name rest = .ok (.through target) →
      onLink (start target place) (pieces target ++ rest) = .ok spot →
      Leads files making links place (name :: rest) spot)
    (h : files.follow making onLink place names = .ok spot) :
    Leads files making links place names spot := by
  induction names generalizing place with
  | nil =>
    cases h
    exact .done
  | cons name rest ih =>
    rw [follow] at h
    split at h
    · cases h
    · next hturn => exact .on hturn (ih h)
    · next hturn => exact hlink hturn h
    · next hturn =>
      cases h
      exact .vacant hturn

/-- What a walk gives is where the names lead. -/
theorem leads_of_walk (h : files.walk making links place names = .ok spot) :
    Leads files making links place names spot := by
  induction links generalizing place names with
  | zero =>
    refine leads_of_follow (fun _ hstuck => ?_) h
    cases hstuck
  | succ links ih => exact leads_of_follow (fun hturn honward => .through hturn (ih honward)) h

/-- A walk along names finds where they lead. -/
theorem Leads.walk_eq (h : Leads files making links place names spot) :
    files.walk making links place names = .ok spot := by
  induction h with
  | @done links => cases links <;> rfl
  | @on links _ _ _ _ _ turned _ ih => cases links <;> simpa [walk, follow, turned] using ih
  | through turned _ ih => simpa [walk, follow, turned] using ih
  | @vacant links _ _ _ turned => cases links <;> simp [walk, follow, turned]

/-- A walk is a sequence of turns. -/
theorem walk_eq_ok_iff :
    files.walk making links place names = .ok spot ↔ Leads files making links place names spot :=
  ⟨leads_of_walk, Leads.walk_eq⟩

/-- Where a walk ends at a name that stands for nothing, there is a folder without that name. -/
theorem Leads.child?_eq_none (h : Leads files making links place names (.vacant number name)) :
    ∃ folder, files.folder? number = some folder ∧ folder.child? number name = none := by
  generalize hspot : Spot.vacant number name = spot at h
  induction h with
  | done => cases hspot
  | on _ _ ih => exact ih hspot
  | through _ _ ih => exact ih hspot
  | vacant turned =>
    cases hspot
    obtain ⟨folder, hfolder, ⟨_, ⟨⟩, -⟩ | ⟨_, _, ⟨⟩, -⟩ | ⟨-, hchild, -⟩⟩ := turn_eq_ok turned
    exact ⟨folder, hfolder, hchild⟩

/-! ## Paths with the same folder part -/

variable {n n' : Nat} {name' : String}

/-- Behind the same names two walks come to the same folder, whatever the names are that they end
with. -/
theorem Leads.lastNames (hname : name' ≠ "")
    (h : Leads files false links place (front ++ [name]) spot)
    {spot' : Spot} (h' : Leads files true links place (front ++ [name']) spot') :
    ∃ linksLeft inside, Leads files false linksLeft inside [name] spot ∧
      Leads files true linksLeft inside [name'] spot' := by
  generalize hnames : front ++ [name] = names at h
  induction h generalizing front with
  | done => simp at hnames
  | @on links place number first rest spot turned onward ih =>
    cases front with
    | nil =>
      cases hnames
      exact ⟨links, place, .on turned onward, h'⟩
    | cons first front =>
      cases hnames
      cases h' with
      | on turned' onward' =>
        cases turned.symm.trans ((turn_front hname _ _).symm.trans turned')
        exact ih onward' rfl
      | through turned' _ => cases turned.symm.trans ((turn_front hname _ _).symm.trans turned')
      | vacant turned' => cases turned.symm.trans ((turn_front hname _ _).symm.trans turned')
  | @through links place first target rest spot turned onward ih =>
    cases front with
    | nil =>
      cases hnames
      exact ⟨links + 1, place, .through turned onward, h'⟩
    | cons first front =>
      cases hnames
      cases h' with
      | on turned' _ => cases turned.symm.trans ((turn_front hname _ _).symm.trans turned')
      | through turned' onward' =>
        cases turned.symm.trans ((turn_front hname _ _).symm.trans turned')
        have honward := List.append_assoc (pieces target) front [name'] ▸ onward'
        exact ih honward (List.append_assoc ..)
      | vacant turned' => cases turned.symm.trans ((turn_front hname _ _).symm.trans turned')
  | vacant turned =>
    obtain ⟨_, _, ⟨_, ⟨⟩, -⟩ | ⟨_, _, ⟨⟩, -⟩ | ⟨-, -, ⟨⟩, -⟩⟩ := turn_eq_ok turned

/-- Two names in a folder stand for one node, or one of them is a link. -/
def Entwined (files : Files) (name name' : String) : Prop :=
  name ≠ name' ∧ ∃ (place : Nat) (folder : Folder) (number number' : Nat),
    files.folder? place = some folder ∧ folder.child? place name = some number ∧
    folder.child? place name' = some number' ∧
    (number = number' ∨ (files.link? number).isSome ∨ (files.link? number').isSome)

/-- A walk along one name comes to the node that it stands for, unless that is a link. -/
theorem Leads.child?_of_singleton (h : Leads files making links place [name] (.node number)) :
    ∃ folder child, files.folder? place = some folder ∧
      folder.child? place name = some child ∧ (child = number ∨ (files.link? child).isSome) := by
  cases h with
  | on turned onward =>
    cases onward
    obtain ⟨folder, hfolder, ⟨_, ⟨⟩, hchild⟩ | ⟨_, _, ⟨⟩, -⟩ | ⟨⟨⟩, -⟩⟩ := turn_eq_ok turned
    exact ⟨folder, number, hfolder, hchild, .inl rfl⟩
  | through turned _ =>
    obtain ⟨folder, hfolder, ⟨_, ⟨⟩, -⟩ | ⟨child, target, -, hchild, hlink⟩ | ⟨⟨⟩, -⟩⟩ :=
      turn_eq_ok turned
    exact ⟨folder, child, hfolder, hchild, .inr (by simp [hlink])⟩

/-- If two walks behind the same names come to one node, their last names are equal or entwined. -/
theorem Leads.entwined (hname : name' ≠ "")
    (h : Leads files false links place (front ++ [name]) (.node number))
    (h' : Leads files true links place (front ++ [name']) (.node number)) :
    name = name' ∨ files.Entwined name name' := by
  refine or_iff_not_imp_left.mpr fun hne => ⟨hne, ?_⟩
  obtain ⟨_, inside, hlast, hlast'⟩ := h.lastNames hname h'
  obtain ⟨folder, child, hfolder, hchild, hnumber⟩ := hlast.child?_of_singleton
  obtain ⟨folder', child', hfolder', hchild', hnumber'⟩ := hlast'.child?_of_singleton
  cases hfolder.symm.trans hfolder'
  refine ⟨inside, folder, child, child', hfolder, hchild, hchild', ?_⟩
  obtain rfl | hlink := hnumber
  · obtain rfl | hlink' := hnumber'
    · exact .inl rfl
    · exact .inr (.inr hlink')
  · exact .inr (.inl hlink)

/-- A path leads to a node if it has a form that the system takes, and its names lead there. -/
theorem locate_eq_ok_iff : files.locate making path = .ok spot ↔
    ('\x00' ∉ path.toList ∧ path ≠ "" ∧ path.utf8ByteSize ≤ pathLimit) ∧
      Leads files making linkLimit (start path here) (pieces path) spot := by
  rw [← walk_eq_ok_iff]
  unfold locate
  by_cases hnull : '\x00' ∈ path.toList
  · simp [hnull]
  by_cases hempty : path = ""
  · simp [hempty]
  by_cases hlong : pathLimit < path.utf8ByteSize
  · simp [hnull, hempty, hlong, Nat.not_le.mpr hlong]
  cases hwalk : files.walk making linkLimit (start path here) (pieces path) <;>
    simp [hnull, hempty, hlong, Except.mapError, Nat.not_lt.mp hlong]

/-- The path that is read and the path that is written lead to one node. -/
def SameFile (files : Files) (source output : String) : Prop :=
  ∃ number, files.locate false source = .ok (.node number) ∧
    files.locate true output = .ok (.node number)

/-- The characters in front of the name at the end of a path: none, or up to a slash. -/
def IsFolderPart (folder : List Char) : Prop := folder = [] ∨ ∃ above, folder = above ++ ['/']

variable {folder last last' : List Char}

/-- Paths with the same folder part are cut into the same pieces, up to their last names. -/
theorem exists_pieces_eq (h : IsFolderPart folder) : ∃ front, ∀ last, '/' ∉ last →
    pieces (String.ofList (folder ++ last)) = front ++ [String.ofList last] := by
  obtain rfl | ⟨above, rfl⟩ := h
  · refine ⟨[], fun last hlast => ?_⟩
    simp [pieces, List.splitOn_eq_singleton hlast]
  · refine ⟨(above.splitOn '/').map String.ofList, fun last hlast => ?_⟩
    rw [pieces, String.toList_ofList, List.append_assoc, List.singleton_append,
      List.splitOn_append_cons_self, List.splitOn_eq_singleton hlast, List.map_append,
      List.map_singleton]

/-- Paths with the same folder part start in the same folder. -/
theorem start_eq (h : IsFolderPart folder) (hlast : '/' ∉ last) (hlast' : '/' ∉ last') :
    start (String.ofList (folder ++ last)) place =
      start (String.ofList (folder ++ last')) place := by
  have hhead {last : List Char} (hlast : '/' ∉ last) : last.head? ≠ some '/' :=
    fun hslash => hlast (List.mem_of_mem_head? hslash)
  obtain rfl | ⟨above, rfl⟩ := h
  · simp [start, hhead hlast, hhead hlast']
  · cases above <;> simp [start]

/-- Paths with the same folder part lead to one file only if their last names are equal or
entwined. -/
theorem entwined_of_sameFile (h : IsFolderPart folder) (hlast : '/' ∉ last) (hlast' : '/' ∉ last')
    (hnamed : last' ≠ [])
    (hsame : files.SameFile (String.ofList (folder ++ last)) (String.ofList (folder ++ last'))) :
    last = last' ∨ files.Entwined (String.ofList last) (String.ofList last') := by
  obtain ⟨number, hsource, houtput⟩ := hsame
  obtain ⟨front, hfront⟩ := exists_pieces_eq h
  obtain ⟨-, hleads⟩ := locate_eq_ok_iff.mp hsource
  obtain ⟨-, hleads'⟩ := locate_eq_ok_iff.mp houtput
  rw [hfront last hlast] at hleads
  rw [hfront last' hlast', start_eq h hlast' hlast] at hleads'
  have hname : String.ofList last' ≠ "" := by simpa [String.ext_iff] using hnamed
  exact (hleads.entwined hname hleads').imp_left String.ofList_injective

end SuperChip.Files
