import SuperChip.Proofs.Listing.ReachedCode
import SuperChip.Proofs.Listing.Words

/-!
# The least set of starts

Where paths start is a least set: the entry, and with each start the targets of the jumps and calls
on the walk from it. A listing records exactly the walks from this set, whatever the order in which
they were followed, and is refused exactly if the program is too large or one of these walks meets a
jump or call to an odd address (`ofBytes_exact`).
-/

set_option autoImplicit false

namespace SuperChip

namespace ProgramText

variable {p : ProgramText}

/-- The least set that holds the entry and, with a start, the targets of the jumps and calls on the
walk from it. -/
inductive PathStart (p : ProgramText) : Int → Prop where
  | entry : PathStart p 0
  | target {s : Int} {o : Nat} {b : Bool} (hs : PathStart p s) (hw : p.WalksFrom s o b)
      (hstart : (p.opAt o).startsPath = true) : PathStart p (p.targetAt o)

/-- The walk from `s` meets a jump or call to an odd address. -/
def MeetsOdd (p : ProgramText) (s : Int) : Prop :=
  ∃ o b, p.WalksFrom s o b ∧ (p.opAt o).startsPath = true ∧ (p.instructionAt o).address % 2 ≠ 0

/-- A start is where some path starts. -/
theorem isStart_iff_pathStart {x : Int} : p.IsStart x ↔ p.PathStart x := by
  constructor
  · rintro (rfl | ⟨o, ho, hlt, hstart, rfl⟩)
    · exact .entry
    · obtain ⟨y, b, hy, hw⟩ :=
        ho.exists_walksFrom PathStart.entry (fun _ _ _ => PathStart.target) o rfl hlt
      exact .target hy hw hstart
  · intro h
    induction h with
    | entry => exact .inl rfl
    | target _ hw hstart ih => exact ih.target hw hstart

/-- A start is aligned exactly if no odd target is met from it. -/
theorem alignedFrom_iff {x : Int} : p.AlignedFrom x ↔ ¬ p.MeetsOdd x := by
  simp only [AlignedFrom, MeetsOdd, misaligned?_eq_none_iff]
  constructor
  · rintro h ⟨o, b, hw, hstart, hodd⟩
    exact hodd (h o b hw hstart)
  · intro h o b hw hstart
    by_cases heven : (p.instructionAt o).address % 2 = 0
    · exact heven
    · exact absurd ⟨o, b, hw, hstart, heven⟩ h

end ProgramText

namespace Survey

open ProgramText

/-- A survey is refused only where the walk from a start meets an odd address. -/
theorem Tells.exists_meetsOdd {p : ProgramText} {s : Survey} {waiting : List (Fin memorySize)}
    {notices : List PathNotice} {cause : ListingError} (h : Tells p s waiting)
    (herror : Survey.followAll p s waiting = (notices, .error cause)) :
    ∃ x, p.IsStart x ∧ p.MeetsOdd x := by
  fun_induction Survey.followAll p s waiting with
  | case1 s => cases herror
  | case2 s a waiting hfollowed ih => exact ih (h.skip hfollowed) herror
  | case3 s a waiting hfresh path next cause' heq =>
    refine ⟨offsetOf a, h.isStart_waiting a List.mem_cons_self, ?_⟩
    by_cases hodd : p.MeetsOdd (offsetOf a)
    · exact hodd
    · exact absurd heq ((ending_start_ne_misaligned_iff p _).mpr (alignedFrom_iff.mpr hodd) cause')
  | case4 s a waiting hfresh path next hne ih =>
    have haligned : p.AlignedFrom (offsetOf a) :=
      (ending_start_ne_misaligned_iff p _).mp fun cause hc => hne cause hc
    exact ih (h.follow haligned) herror

/-- A finished survey has a boundary where each path starts, and one where a walk from a start
stops. -/
theorem Tells.mem_boundaries_iff {p : ProgramText} {s : Survey} (h : Tells p s []) (e : Boundary) :
    e ∈ s.boundaries.toList ↔ (∃ x, p.PathStart x ∧ e = ⟨x, .resume⟩) ∨
      ∃ (x : Int) (o : Nat) (b : Bool), p.PathStart x ∧ p.WalksFrom x o b ∧ p.Stops o b ∧
        e = ⟨o, .leave⟩ := by
  obtain ⟨x, kind⟩ := e
  rw [← Boundaries.contains_iff]
  cases kind with
  | resume =>
    rw [h.resume_iff, isStart_iff_pathStart]
    simp
  | leave =>
    rw [h.leave_iff_stops]
    simp only [isStart_iff_pathStart]
    constructor
    · rintro ⟨y, hy, o, b, rfl, hw, hstops⟩
      exact .inr ⟨y, o, b, hy, hw, hstops, rfl⟩
    · rintro (⟨y, -, heq⟩ | ⟨y, o, b, hy, hw, hstops, heq⟩)
      · cases heq
      · exact ⟨y, hy, o, b, (Boundary.mk.inj heq).1, hw, hstops⟩

/-- A finished survey has the labels that the walks from the starts refer to. -/
theorem Tells.mem_labels_iff {p : ProgramText} {s : Survey} (h : Tells p s []) (n : Nat) :
    n ∈ s.labels ↔ ∃ x o b, p.PathStart x ∧ p.WalksFrom x o b ∧
      (p.opAt o).usesAddress = true ∧ p.targetAt o = n ∧ n < p.length := by
  rw [h.label_iff]
  simp only [h.resume_iff, isStart_iff_pathStart]
  constructor
  · rintro ⟨x, hx, o, b, hw, huses, htarget, hlt⟩
    exact ⟨x, o, b, hx, hw, huses, htarget, hlt⟩
  · rintro ⟨x, o, b, hx, hw, huses, htarget, hlt⟩
    exact ⟨x, hx, o, b, hw, huses, htarget, hlt⟩

/-- A survey is refused exactly if the program is too large or a walk from a start meets an odd
address. -/
theorem ofProgram_error_iff (p : ProgramText) :
    (∃ cause, (Survey.ofProgram p).2 = .error cause) ↔
      programSize < p.length ∨ ∃ x, p.PathStart x ∧ p.MeetsOdd x := by
  by_cases hlarge : programSize < p.length
  · have hrefused : (Survey.ofProgram p).2 = .error .tooLarge := by
      rw [Survey.ofProgram, if_pos hlarge]
    exact ⟨fun _ => .inl hlarge, fun _ => ⟨.tooLarge, hrefused⟩⟩
  · have hfollow : Survey.ofProgram p = Survey.followAll p {} [Survey.entry] := if_neg hlarge
    simp only [hlarge, false_or, ← isStart_iff_pathStart]
    rcases hresult : Survey.ofProgram p with ⟨notices, cause | s⟩
    case error =>
      have hmeets := (tells_entry p).exists_meetsOdd (hfollow.symm.trans hresult)
      exact ⟨fun _ => hmeets, fun _ => ⟨cause, rfl⟩⟩
    case ok =>
      have htells := tells_ofProgram hresult
      constructor
      · rintro ⟨cause, hcause⟩
        cases hcause
      · rintro ⟨x, hx, hodd⟩
        have haligned := htells.aligned x ((htells.resume_iff x).mpr hx)
        exact absurd hodd (alignedFrom_iff.mp haligned)

end Survey

namespace Listing

open ProgramText

/-- An image is refused exactly if its survey is. -/
theorem ofBytes_error_iff (p : ProgramText) :
    (∃ cause, (ofBytes p.data p.shiftsVy).2 = .error cause) ↔
      ∃ cause, (Survey.ofProgram p).2 = .error cause := by
  rcases hresult : Survey.ofProgram p with ⟨notices, cause | s⟩ <;> simp [ofBytes, hresult]

/-- A program has a listing unless it is too large or the walk from some start meets a jump or call
to an odd address. The listing of a program has its boundaries in strict order: one where each path
starts, and one where the walk from a start stops. It has a label for each offset of the program
that an instruction on such a walk refers to. Every instruction on such a walk is a word of the
program, with a zero byte behind it. -/
theorem ofBytes_exact (p : ProgramText) :
    ((∃ cause, (ofBytes p.data p.shiftsVy).2 = .error cause) ↔
      programSize < p.length ∨ ∃ s, p.PathStart s ∧ p.MeetsOdd s) ∧
    (∀ s o b, p.WalksFrom s o b →
      ∃ w, p.word? o = some w ∧ p.instructionAt o = .decode w p.shiftsVy) ∧
    ∀ l, (ofBytes p.data p.shiftsVy).2 = .ok l →
      l.boundaries.Sorted ∧
      (∀ e, e ∈ l.boundaries.toList ↔
        (∃ s, p.PathStart s ∧ e = ⟨s, .resume⟩) ∨
        ∃ (s : Int) (o : Nat) (b : Bool), p.PathStart s ∧ p.WalksFrom s o b ∧ p.Stops o b ∧
          e = ⟨o, .leave⟩) ∧
      ∀ n, n ∈ l.labels ↔
        ∃ s o b, p.PathStart s ∧ p.WalksFrom s o b ∧ (p.opAt o).usesAddress = true ∧
          p.targetAt o = n ∧ n < p.length := by
  refine ⟨(ofBytes_error_iff p).trans (Survey.ofProgram_error_iff p), ?_, ?_⟩
  · rintro s o b ⟨_, -, hw⟩
    exact ⟨p.wordAt o, word?_eq_some hw.lt_length, rfl⟩
  · intro l hl
    obtain ⟨s, hs, rfl⟩ := exists_survey_of_ofBytes (l := l) (Prod.ext rfl hl)
    have htells : Survey.Tells p s [] := Survey.tells_ofProgram hs
    exact ⟨htells.sorted, htells.mem_boundaries_iff, htells.mem_labels_iff⟩

/-- A skip over a jump to the entry, and behind it a jump to that jump: the path of the entry passes
the first jump and leaves with the second, the path that starts at the first jump leaves there. -/
theorem ofBytes_exact_jumpBehindSkip :
    ∃ l, (ofBytes jumpBehindSkip false).2 = .ok l ∧ l.labels = [0, 2] ∧
      l.boundaries.toList = [⟨0, .resume⟩, ⟨2, .resume⟩, ⟨2, .leave⟩, ⟨4, .leave⟩] ∧
      PathStart ⟨jumpBehindSkip, false⟩ 2 ∧
      ¬ ∃ s, PathStart ⟨jumpBehindSkip, false⟩ s ∧ MeetsOdd ⟨jumpBehindSkip, false⟩ s := by
  have heval : (ofBytes jumpBehindSkip false).2.toOption.map (fun l =>
      (l.labels, l.boundaries.toList)) =
      some ([0, 2], [⟨0, .resume⟩, ⟨2, .resume⟩, ⟨2, .leave⟩, ⟨4, .leave⟩]) := by
    cbv
  obtain ⟨notices, l, hl, hvalue⟩ := exists_of_ofBytes heval
  obtain ⟨hlabels, hboundaries⟩ := Prod.mk.inj hvalue
  have hok : (ofBytes jumpBehindSkip false).2 = .ok l := by rw [hl]
  obtain ⟨hrefused, -, hexact⟩ := ofBytes_exact ⟨jumpBehindSkip, false⟩
  obtain ⟨-, hmem, -⟩ := hexact l hok
  refine ⟨l, hok, hlabels, hboundaries, ?_, ?_⟩
  · have hresume : (⟨2, .resume⟩ : Boundary) ∈ l.boundaries.toList := by simp [hboundaries]
    rcases (hmem _).mp hresume with ⟨s, hs, heq⟩ | ⟨s, o, b, -, -, -, heq⟩
    · cases heq
      exact hs
    · cases heq
  · intro hodd
    obtain ⟨cause, hcause⟩ := hrefused.mpr (.inr hodd)
    rw [hok] at hcause
    cases hcause

end Listing

end SuperChip
