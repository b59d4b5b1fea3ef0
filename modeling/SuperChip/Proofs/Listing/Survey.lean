import SuperChip.Listing.Survey
import SuperChip.Proofs.Listing.Order
import SuperChip.Proofs.Listing.Walk

/-!
# What a survey finds

A survey that is not refused has followed exactly the walks from the entry and from the targets of
reached jumps and calls. It holds a resuming boundary where such a walk starts, a leaving one where
it stops, and a label for every offset of the program that an instruction on it refers to. The
invariant of the worklist is `Tells`: what is recorded comes from walks of such starts, and what a
followed walk has to give is recorded or still waits.
-/

set_option autoImplicit false

namespace SuperChip

namespace Survey

open ProgramText

/-- A number that is inserted is there, with those that were. -/
theorem mem_insertNumber {n k : Nat} {l : List Nat} : k ∈ insertNumber n l ↔ k = n ∨ k ∈ l := by
  induction l with
  | nil => simp [insertNumber]
  | cons x rest ih =>
    unfold insertNumber
    split
    · next h => simp [h]
    · split
      · simp
      · rw [List.mem_cons, ih, List.mem_cons]
        constructor
        · rintro (h | h | h) <;> simp [h]
        · rintro (h | h | h) <;> simp [h]

/-- All numbers that are inserted are there, with those that were. -/
theorem mem_foldl_insertNumber {k : Nat} (ns l : List Nat) :
    k ∈ ns.foldl (fun labels n => insertNumber n labels) l ↔ k ∈ ns ∨ k ∈ l := by
  induction ns generalizing l with
  | nil => simp
  | cons n rest ih =>
    rw [List.foldl_cons, ih, mem_insertNumber, List.mem_cons]
    constructor
    · rintro (h | h | h) <;> simp [h]
    · rintro ((h | h) | h) <;> simp [h]

section Path

variable {p : ProgramText} {x : Int}

/-- A path needs labels for the offsets of the program that instructions on its walk refer to. -/
theorem mem_references_start (h : p.AlignedFrom x) (n : Nat) :
    n ∈ (Path.start p x).references p.length ↔
      ∃ o b, p.WalksFrom x o b ∧ (p.opAt o).usesAddress = true ∧ p.targetAt o = n ∧
        n < p.length := by
  unfold Path.references
  rw [List.mem_filterMap]
  constructor
  · rintro ⟨⟨o, i⟩, hmem, hsome⟩
    obtain ⟨rfl, b, hw⟩ := (mem_visited_start h o i).mp hmem
    dsimp only at hsome
    split at hsome
    · next hcond =>
      simp only [Bool.and_eq_true, decide_eq_true_eq] at hcond
      obtain ⟨huses, h0, hlt⟩ := hcond
      have hn := Option.some.inj hsome
      refine ⟨o, b, hw, huses, ?_, by omega⟩
      unfold targetAt
      omega
    · cases hsome
  · rintro ⟨o, b, hw, huses, hn, hlt⟩
    refine ⟨(o, p.instructionAt o), (mem_visited_start h o _).mpr ⟨rfl, b, hw⟩, ?_⟩
    unfold targetAt at hn
    have huses' : (p.instructionAt o).usesAddress = true := huses
    dsimp only
    rw [if_pos (by simp only [huses', Bool.true_and, decide_eq_true_eq]; omega), hn]
    rfl

/-- The offset of a target is that of the address in the instruction. -/
theorem offsetOf_target (p : ProgramText) (o : Nat) (h : (p.instructionAt o).address.toNat %
    memorySize < memorySize) :
    offsetOf ⟨(p.instructionAt o).address.toNat % memorySize, h⟩ = p.targetAt o := by
  have hfits : (p.instructionAt o).Fits := Instruction.fits_decode _ _
  have h0 := hfits.address_nonneg
  have hlt := hfits.address_lt
  simp only [offsetOf, targetAt, memorySize, programStart]
  omega

/-- The targets of a path are those of the jumps and calls on its walk. -/
theorem mem_targets_start (h : p.AlignedFrom x) (y : Int) :
    (∃ a ∈ (Path.start p x).targets, offsetOf a = y) ↔
      ∃ o b, p.WalksFrom x o b ∧ (p.opAt o).startsPath = true ∧ p.targetAt o = y := by
  unfold Path.targets
  constructor
  · rintro ⟨a, ha, rfl⟩
    obtain ⟨⟨o, i⟩, hmem, rfl⟩ := List.mem_map.mp ha
    obtain ⟨hvisited, hstart⟩ := List.mem_filter.mp hmem
    obtain ⟨rfl, b, hw⟩ := (mem_visited_start h o i).mp hvisited
    exact ⟨o, b, hw, hstart, (offsetOf_target p o _).symm⟩
  · rintro ⟨o, b, hw, hstart, rfl⟩
    refine ⟨_, List.mem_map.mpr ⟨(o, p.instructionAt o), List.mem_filter.mpr ⟨?_, hstart⟩, rfl⟩,
      offsetOf_target p o _⟩
    exact (mem_visited_start h o _).mpr ⟨rfl, b, hw⟩

end Path

section Merge

variable (s : Survey) (p : ProgramText) (a : Fin memorySize)

/-- The survey after one more path was followed. -/
def follow (s : Survey) (p : ProgramText) (a : Fin memorySize) : Survey :=
  (s.enter a).merge (Path.start p (offsetOf a)) p.length

/-- Following a path adds the boundary where it starts and no other resuming one. -/
theorem contains_resume_follow (r : Int) :
    (s.follow p a).boundaries.contains ⟨r, .resume⟩ = true ↔
      r = offsetOf a ∨ s.boundaries.contains ⟨r, .resume⟩ = true := by
  unfold follow merge enter
  dsimp only
  split <;> simp [Boundaries.contains_insert]

/-- A path that is followed adds the offsets at which it leaves code. -/
theorem contains_leave_follow (h : p.AlignedFrom (offsetOf a)) (e : Int) :
    (s.follow p a).boundaries.contains ⟨e, .leave⟩ = true ↔
      (∃ (o : Nat) (b : Bool), e = o ∧ p.WalksFrom (offsetOf a) o b ∧ p.Stops o b) ∨
        s.boundaries.contains ⟨e, .leave⟩ = true := by
  have hend := ending_start h
  unfold follow merge enter
  dsimp only
  split
  · next o heq =>
    obtain ⟨b, hw, hstop⟩ := (hend o).mp heq
    simp only [Boundaries.contains_insert, Bool.or_eq_true, beq_iff_eq, Boundary.mk.injEq,
      reduceCtorEq, and_false, false_or, and_true]
    constructor
    · rintro (rfl | hold)
      · exact Or.inl ⟨o, b, rfl, hw, hstop⟩
      · exact Or.inr hold
    · rintro (⟨o', b', rfl, hw', hstop'⟩ | hold)
      · rw [(hend o').mpr ⟨b', hw', hstop'⟩] at heq
        cases heq
        exact Or.inl rfl
      · exact Or.inr hold
  · next hne =>
    simp only [Boundaries.contains_insert, Bool.or_eq_true, beq_iff_eq, Boundary.mk.injEq,
      reduceCtorEq, and_false, false_or]
    constructor
    · exact Or.inr
    · rintro (⟨o, b, rfl, hw, hstop⟩ | hold)
      · exact absurd ((hend o).mpr ⟨b, hw, hstop⟩) (hne o)
      · exact hold

/-- A path that is followed keeps the boundaries in order. -/
theorem sorted_follow {s : Survey} (h : s.boundaries.Sorted) :
    (s.follow p a).boundaries.Sorted := by
  unfold follow merge enter
  dsimp only
  split
  · exact (h.insert _).insert _
  · exact h.insert _

/-- Following a path adds the labels that it needs and no others. -/
theorem mem_labels_follow (n : Nat) :
    n ∈ (s.follow p a).labels ↔
      n ∈ (Path.start p (offsetOf a)).references p.length ∨ n ∈ s.labels := by
  unfold follow merge enter
  exact mem_foldl_insertNumber _ _

end Merge

/-- The invariant of the worklist. What is recorded comes from the walks of starts; and the entry
and the targets on followed walks are followed or still wait. -/
structure Tells (p : ProgramText) (s : Survey) (waiting : List (Fin memorySize)) : Prop where
  sorted : s.boundaries.Sorted
  isStart_waiting : ∀ a ∈ waiting, p.IsStart (offsetOf a)
  isStart_resume : ∀ x, s.boundaries.contains ⟨x, .resume⟩ = true → p.IsStart x
  aligned : ∀ x, s.boundaries.contains ⟨x, .resume⟩ = true → p.AlignedFrom x
  entry : s.boundaries.contains ⟨0, .resume⟩ = true ∨ ∃ a ∈ waiting, offsetOf a = 0
  target : ∀ x o b, s.boundaries.contains ⟨x, .resume⟩ = true → p.WalksFrom x o b →
    (p.opAt o).startsPath = true →
      s.boundaries.contains ⟨p.targetAt o, .resume⟩ = true ∨
        ∃ a ∈ waiting, offsetOf a = p.targetAt o
  leave_iff : ∀ e, s.boundaries.contains ⟨e, .leave⟩ = true ↔
    ∃ x, s.boundaries.contains ⟨x, .resume⟩ = true ∧
      ∃ (o : Nat) (b : Bool), e = o ∧ p.WalksFrom x o b ∧ p.Stops o b
  label_iff : ∀ n, n ∈ s.labels ↔
    ∃ x, s.boundaries.contains ⟨x, .resume⟩ = true ∧
      ∃ o b, p.WalksFrom x o b ∧ (p.opAt o).usesAddress = true ∧ p.targetAt o = n ∧ n < p.length

/-- Before any path is followed, only the entry waits. -/
theorem tells_entry (p : ProgramText) : Tells p {} [Survey.entry] := by
  have hentry : offsetOf Survey.entry = 0 := rfl
  have hnone : ∀ b, Boundaries.contains {} b = false := fun _ => rfl
  constructor
  case sorted => exact Boundaries.sorted_empty
  case isStart_waiting =>
    intro a ha
    rw [List.mem_singleton.mp ha, hentry]
    exact Or.inl rfl
  case entry => exact Or.inr ⟨Survey.entry, List.mem_singleton_self _, hentry⟩
  all_goals simp [hnone]

/-- An address that was followed need not wait any longer. -/
theorem Tells.skip {p : ProgramText} {s : Survey} {a : Fin memorySize}
    {waiting : List (Fin memorySize)} (h : Tells p s (a :: waiting))
    (hfollowed : s.followed a = true) : Tells p s waiting := by
  have hdrop : ∀ x, (∃ b ∈ a :: waiting, offsetOf b = x) →
      s.boundaries.contains ⟨x, .resume⟩ = true ∨ ∃ b ∈ waiting, offsetOf b = x := by
    rintro x ⟨b, hb, rfl⟩
    rcases List.mem_cons.mp hb with rfl | hb
    · exact Or.inl hfollowed
    · exact Or.inr ⟨b, hb, rfl⟩
  exact { h with
    isStart_waiting := fun b hb => h.isStart_waiting b (List.mem_cons_of_mem a hb)
    entry := h.entry.elim Or.inl (hdrop 0)
    target := fun x o b hx hw hstart => (h.target x o b hx hw hstart).elim Or.inl (hdrop _) }

/-- Following a path without odd addresses keeps the invariant; its targets wait from then on. -/
theorem Tells.follow {p : ProgramText} {s : Survey} {a : Fin memorySize}
    {waiting : List (Fin memorySize)} (h : Tells p s (a :: waiting))
    (haligned : p.AlignedFrom (offsetOf a)) :
    Tells p (s.follow p a) ((Path.start p (offsetOf a)).targets.reverse ++ waiting) := by
  have ha := h.isStart_waiting a List.mem_cons_self
  have hresume := contains_resume_follow s p a
  have htargets := mem_targets_start haligned
  -- `a` itself becomes a start; the others go on waiting, behind the targets of its path
  have hwait : ∀ x, (∃ b ∈ a :: waiting, offsetOf b = x) →
      (s.follow p a).boundaries.contains ⟨x, .resume⟩ = true ∨
        ∃ b ∈ (Path.start p (offsetOf a)).targets.reverse ++ waiting, offsetOf b = x := by
    rintro x ⟨b, hb, rfl⟩
    rcases List.mem_cons.mp hb with rfl | hb
    · exact Or.inl ((hresume _).mpr (Or.inl rfl))
    · exact Or.inr ⟨b, List.mem_append_right _ hb, rfl⟩
  have hkeep : ∀ x, s.boundaries.contains ⟨x, .resume⟩ = true →
      (s.follow p a).boundaries.contains ⟨x, .resume⟩ = true :=
    fun x hx => (hresume x).mpr (Or.inr hx)
  constructor
  case sorted => exact sorted_follow p a h.sorted
  case isStart_waiting =>
    intro b hb
    rcases List.mem_append.mp hb with hb | hb
    · obtain ⟨o, b', hw, hstart, heq⟩ := (htargets _).mp ⟨b, List.mem_reverse.mp hb, rfl⟩
      rw [← heq]
      exact ha.target hw hstart
    · exact h.isStart_waiting b (List.mem_cons_of_mem a hb)
  case isStart_resume =>
    intro x hx
    rcases (hresume x).mp hx with rfl | hx
    · exact ha
    · exact h.isStart_resume x hx
  case aligned =>
    intro x hx
    rcases (hresume x).mp hx with rfl | hx
    · exact haligned
    · exact h.aligned x hx
  case entry => exact h.entry.elim (fun h0 => Or.inl (hkeep 0 h0)) (hwait 0)
  case target =>
    intro x o b hx hw hstart
    rcases (hresume x).mp hx with rfl | hx
    · obtain ⟨c, hc, heq⟩ := (htargets (p.targetAt o)).mpr ⟨o, b, hw, hstart, rfl⟩
      exact Or.inr ⟨c, List.mem_append_left _ (List.mem_reverse.mpr hc), heq⟩
    · exact (h.target x o b hx hw hstart).elim (fun hold => Or.inl (hkeep _ hold)) (hwait _)
  case leave_iff =>
    intro e
    rw [contains_leave_follow s p a haligned, h.leave_iff]
    simp only [hresume, or_and_right, exists_or, exists_eq_left]
  case label_iff =>
    intro n
    rw [mem_labels_follow, mem_references_start haligned, h.label_iff]
    simp only [hresume, or_and_right, exists_or, exists_eq_left]

/-- The invariant holds when the worklist is empty, unless the survey is refused. -/
theorem Tells.followAll {p : ProgramText} {s final : Survey} {waiting : List (Fin memorySize)}
    {notices : List PathNotice} (h : Tells p s waiting)
    (hok : Survey.followAll p s waiting = (notices, .ok final)) : Tells p final [] := by
  fun_induction Survey.followAll p s waiting with
  | case1 s =>
    cases hok
    exact h
  | case2 s a waiting hfollowed ih => exact ih (h.skip hfollowed) hok
  | case3 s a waiting hfresh path next cause heq => cases hok
  | case4 s a waiting hfresh path next hne ih =>
    have haligned : p.AlignedFrom (offsetOf a) :=
      (ending_start_ne_misaligned_iff p _).mp fun cause hc => hne cause hc
    exact ih (h.follow haligned) hok

/-- A survey that was not refused has followed the walks of all starts and of nothing else. -/
theorem tells_ofProgram {p : ProgramText} {s : Survey} {notices : List PathNotice}
    (hok : Survey.ofProgram p = (notices, .ok s)) : Tells p s [] := by
  unfold Survey.ofProgram at hok
  split at hok
  · cases hok
  · exact (tells_entry p).followAll hok

/-- An image that is surveyed fits into program memory. -/
theorem length_le_of_ofProgram {p : ProgramText} {s : Survey} {notices : List PathNotice}
    (hok : Survey.ofProgram p = (notices, .ok s)) : p.length ≤ programSize := by
  unfold Survey.ofProgram at hok
  split at hok
  · cases hok
  · next hle => exact Nat.not_lt.mp hle

/-- With an empty worklist, the resuming boundaries are the starts of paths. -/
theorem Tells.resume_iff {p : ProgramText} {s : Survey} (h : Tells p s []) (x : Int) :
    s.boundaries.contains ⟨x, .resume⟩ = true ↔ p.IsStart x := by
  have hentry : s.boundaries.contains ⟨0, .resume⟩ = true :=
    h.entry.elim id (fun ⟨_, ha, _⟩ => by cases ha)
  have htarget : ∀ x o b, s.boundaries.contains ⟨x, .resume⟩ = true → p.WalksFrom x o b →
      (p.opAt o).startsPath = true → s.boundaries.contains ⟨p.targetAt o, .resume⟩ = true :=
    fun x o b hx hw hstart => (h.target x o b hx hw hstart).elim id (fun ⟨_, ha, _⟩ => by cases ha)
  constructor
  · exact h.isStart_resume x
  · rintro (rfl | ⟨o, ho, hlt, hstart, rfl⟩)
    · exact hentry
    · obtain ⟨y, b, hy, hw⟩ := ho.exists_walksFrom hentry htarget o rfl hlt
      exact htarget y o b hy hw hstart

/-- In the end code is left exactly where a walk from a start stops. -/
theorem Tells.leave_iff_stops {p : ProgramText} {s : Survey} (h : Tells p s []) (e : Int) :
    s.boundaries.contains ⟨e, .leave⟩ = true ↔
      ∃ x, p.IsStart x ∧ ∃ (o : Nat) (b : Bool), e = o ∧ p.WalksFrom x o b ∧ p.Stops o b := by
  rw [h.leave_iff]
  simp only [h.resume_iff]

end Survey

end SuperChip
