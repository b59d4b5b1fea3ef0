import SuperChip.Listing.Path
import SuperChip.Proofs.Instruction.Fields

/-!
# Walks and reached offsets

`Walks` says which offsets a straight walk through a program comes to, and whether a conditional
skip stands before the instruction there; a path that meets no odd address visits exactly these
(`mem_visited_start`) and leaves where the walk stops (`ending_start`). `Reached` says which offsets
control may come to at all. The main statement, `reached_iff_walksFrom`, is that inside the program
the two agree: an offset is reached exactly if a walk from the entry or from the target of a reached
jump or call comes to it.
-/

set_option autoImplicit false

namespace SuperChip

namespace ProgramText

variable {p : ProgramText}

/-- The operation at an offset within the program. -/
def opAt (p : ProgramText) (o : Nat) : Op := (p.instructionAt o).op

/-- The offset that the instruction at an offset refers to. -/
def targetAt (p : ProgramText) (o : Nat) : Int := (p.instructionAt o).address - programStart

/-- A straight walk ends with the instruction at `o`, unless a conditional skip stands before
it. -/
def Stops (p : ProgramText) (o : Nat) (afterSkip : Bool) : Prop :=
  (p.opAt o).endsPath = true ∧ afterSkip = false

/-- The straight walk from `s`, behind a skip if `a` says so, comes to `o`, behind a skip if `b`
says so. -/
inductive Walks (p : ProgramText) : Nat → Bool → Nat → Bool → Prop where
  | here {s : Nat} {a : Bool} (hs : s < p.length) : Walks p s a s a
  | next {s o : Nat} {a b : Bool} (hs : s < p.length) (hgo : ¬ p.Stops s a)
      (rest : Walks p (s + 2) (p.opAt s).isSkip o b) : Walks p s a o b

/-- The offsets that control may come to: the entry, what follows a reached instruction, what a
conditional skip may skip to, and the targets of jumps and calls. -/
inductive Reached (p : ProgramText) : Int → Prop where
  | entry : Reached p 0
  | next {o : Nat} (ho : Reached p o) (hlt : o < p.length) (hgo : (p.opAt o).endsPath = false) :
      Reached p (o + 2)
  | skip {o : Nat} (ho : Reached p o) (hlt : o < p.length) (hskip : (p.opAt o).isSkip = true) :
      Reached p (o + 4)
  | target {o : Nat} (ho : Reached p o) (hlt : o < p.length)
      (hstart : (p.opAt o).startsPath = true) : Reached p (p.targetAt o)

/-- A path starts at an offset: it is the entry or the target of a reached jump or call. -/
def IsStart (p : ProgramText) (s : Int) : Prop :=
  s = 0 ∨ ∃ o : Nat, p.Reached o ∧ o < p.length ∧ (p.opAt o).startsPath = true ∧ s = p.targetAt o

/-- The walk of a path that starts at `x` comes to `o`; outside the program there is none. -/
def WalksFrom (p : ProgramText) (x : Int) (o : Nat) (b : Bool) : Prop :=
  ∃ s : Nat, x = s ∧ p.Walks s false o b

/-- No jump or call on the walk of a path that starts at `x` goes to an odd address. -/
def AlignedFrom (p : ProgramText) (x : Int) : Prop :=
  ∀ o b, p.WalksFrom x o b → Path.misaligned? (p.instructionAt o) = none

/-! ## Walks -/

/-- A walk stands where it is, or goes on from the next word if it does not stop. -/
theorem walks_iff {s o : Nat} {a b : Bool} :
    p.Walks s a o b ↔ s < p.length ∧
      ((o = s ∧ b = a) ∨ (¬ p.Stops s a ∧ p.Walks (s + 2) (p.opAt s).isSkip o b)) := by
  constructor
  · intro h
    cases h with
    | here hs => exact ⟨hs, Or.inl ⟨rfl, rfl⟩⟩
    | next hs hgo rest => exact ⟨hs, Or.inr ⟨hgo, rest⟩⟩
  · rintro ⟨hs, ⟨rfl, rfl⟩ | ⟨hgo, rest⟩⟩
    · exact .here hs
    · exact .next hs hgo rest

/-- A walk that stops comes no further. -/
theorem Walks.eq_of_stops {s o : Nat} {a b : Bool} (h : p.Walks s a o b) (hstops : p.Stops s a) :
    o = s ∧ b = a := by
  rcases (walks_iff.mp h).2 with heq | ⟨hgo, -⟩
  · exact heq
  · exact absurd hstops hgo

/-- A walk stays within the image. -/
theorem Walks.lt_length {s o : Nat} {a b : Bool} (h : p.Walks s a o b) : o < p.length := by
  induction h with
  | here hs => exact hs
  | next _ _ _ ih => exact ih

/-- A walk goes on by whole words. -/
theorem Walks.le_and_even {s o : Nat} {a b : Bool} (h : p.Walks s a o b) :
    s ≤ o ∧ (o - s) % 2 = 0 := by
  induction h with
  | here => omega
  | next _ _ _ ih => omega

/-- A walk that does not stop comes to the next word. -/
theorem Walks.extend {s o : Nat} {a b : Bool} (h : p.Walks s a o b) (hgo : ¬ p.Stops o b)
    (hlt : o + 2 < p.length) : p.Walks s a (o + 2) (p.opAt o).isSkip := by
  induction h with
  | here hs => exact .next hs hgo (.here hlt)
  | next hs hgo' _ ih => exact .next hs hgo' (ih hgo hlt)

/-- Past its first offset, a walk is behind a skip exactly if a skip stands one word before. -/
theorem Walks.afterSkip_eq {s o : Nat} {a b : Bool} (h : p.Walks s a o b) :
    (o = s ∧ b = a) ∨ (s + 2 ≤ o ∧ b = (p.opAt (o - 2)).isSkip) := by
  induction h with
  | here => exact Or.inl ⟨rfl, rfl⟩
  | @next s o a b hs hgo rest ih =>
    have hle := rest.le_and_even.1
    rcases ih with ⟨rfl, rfl⟩ | ⟨-, hb⟩
    · exact Or.inr ⟨hle, by rw [Nat.add_sub_cancel]⟩
    · exact Or.inr ⟨hle, hb⟩

/-- A walk passes every word on its way and does not stop there. -/
theorem Walks.passes {s o e : Nat} {a b : Bool} (h : p.Walks s a o b) (hse : s ≤ e) (heo : e < o)
    (heven : (e - s) % 2 = 0) : ∃ b', p.Walks s a e b' ∧ ¬ p.Stops e b' := by
  induction h with
  | here => omega
  | @next s o a b hs hgo rest ih =>
    by_cases hes : e = s
    · subst hes
      exact ⟨a, .here hs, hgo⟩
    · obtain ⟨b', hw, hstop⟩ := ih (by omega) heo (by omega)
      exact ⟨b', .next hs hgo hw, hstop⟩

/-! ## Paths -/

/-- A target is aligned unless it starts a path at an odd address. -/
theorem misaligned?_eq_none_iff {i : Instruction} :
    Path.misaligned? i = none ↔ (i.op.startsPath = true → i.address % 2 = 0) := by
  unfold Path.misaligned?
  by_cases heven : i.address % 2 = 0
  · simp [heven]
  · rw [if_neg heven]
    cases hop : i.op <;> simp [Op.startsPath, heven]

/-- A path ends with an odd address exactly if a jump or call on the walk goes to one. -/
theorem ending_follow_ne_misaligned_iff (p : ProgramText) (s : Nat) (a : Bool) :
    (∀ cause, (Path.follow p s a).ending ≠ .misaligned cause) ↔
      ∀ o b, p.Walks s a o b → Path.misaligned? (p.instructionAt o) = none := by
  fun_induction Path.follow p s a with
  | case1 s a hlt i cause hmis =>
    constructor
    · intro h
      exact absurd rfl (h cause)
    · intro h
      rw [h s a (.here hlt)] at hmis
      cases hmis
  | case2 s a hlt i hmis hstop =>
    have hstops : p.Stops s a := by simpa [Stops, opAt, i] using hstop
    constructor
    · intro _ o b hw
      obtain ⟨rfl, -⟩ := hw.eq_of_stops hstops
      exact hmis
    · intro _ cause h
      cases h
  | case3 s a hlt i hmis hgo rest ih =>
    have hgoes : ¬ p.Stops s a := by simpa [Stops, opAt, i] using hgo
    show (∀ cause, rest.ending ≠ .misaligned cause) ↔ _
    rw [ih]
    constructor
    · intro h o b hw
      rcases (walks_iff.mp hw).2 with ⟨rfl, -⟩ | ⟨-, hrest⟩
      · exact hmis
      · exact h o b hrest
    · intro h o b hw
      exact h o b (.next hlt hgoes hw)
  | case4 s a hlt =>
    constructor
    · intro _ o b hw
      exact absurd (walks_iff.mp hw).1 hlt
    · intro _ cause h
      cases h

/-- A path without odd addresses visits the offsets of the walk, each with its instruction. -/
theorem mem_visited_follow {s : Nat} {a : Bool}
    (h : ∀ o b, p.Walks s a o b → Path.misaligned? (p.instructionAt o) = none) (o : Nat)
    (i : Instruction) :
    (o, i) ∈ (Path.follow p s a).visited ↔ i = p.instructionAt o ∧ ∃ b, p.Walks s a o b := by
  fun_induction Path.follow p s a with
  | case1 s a hlt j cause hmis =>
    rw [h s a (.here hlt)] at hmis
    cases hmis
  | case2 s a hlt j hmis hstop =>
    have hstops : p.Stops s a := by simpa [Stops, opAt, j] using hstop
    simp only [List.mem_singleton, Prod.mk.injEq]
    constructor
    · rintro ⟨rfl, rfl⟩
      exact ⟨rfl, a, .here hlt⟩
    · rintro ⟨rfl, b, hw⟩
      obtain ⟨rfl, -⟩ := hw.eq_of_stops hstops
      exact ⟨rfl, rfl⟩
  | case3 s a hlt j hmis hgo rest ih =>
    have hgoes : ¬ p.Stops s a := by simpa [Stops, opAt, j] using hgo
    have hrest := ih fun o b hw => h o b (.next hlt hgoes hw)
    show (o, i) ∈ (s, j) :: rest.visited ↔ _
    rw [List.mem_cons, hrest, Prod.mk.injEq]
    constructor
    · rintro (⟨rfl, rfl⟩ | ⟨rfl, b, hw⟩)
      · exact ⟨rfl, a, .here hlt⟩
      · exact ⟨rfl, b, .next hlt hgoes hw⟩
    · rintro ⟨rfl, b, hw⟩
      rcases (walks_iff.mp hw).2 with ⟨rfl, -⟩ | ⟨-, hnext⟩
      · exact Or.inl ⟨rfl, rfl⟩
      · exact Or.inr ⟨rfl, b, hnext⟩
  | case4 s a hlt =>
    simp only [List.not_mem_nil, false_iff]
    rintro ⟨-, b, hw⟩
    exact hlt (walks_iff.mp hw).1

/-- A path without odd addresses leaves where the walk stops. -/
theorem ending_follow {s : Nat} {a : Bool}
    (h : ∀ o b, p.Walks s a o b → Path.misaligned? (p.instructionAt o) = none) (e : Nat) :
    (Path.follow p s a).ending = .leave e ↔ ∃ b, p.Walks s a e b ∧ p.Stops e b := by
  fun_induction Path.follow p s a with
  | case1 s a hlt j cause hmis =>
    rw [h s a (.here hlt)] at hmis
    cases hmis
  | case2 s a hlt j hmis hstop =>
    have hstops : p.Stops s a := by simpa [Stops, opAt, j] using hstop
    simp only [PathEnd.leave.injEq]
    constructor
    · rintro rfl
      exact ⟨a, .here hlt, hstops⟩
    · rintro ⟨b, hw, -⟩
      exact (hw.eq_of_stops hstops).1.symm
  | case3 s a hlt j hmis hgo rest ih =>
    have hgoes : ¬ p.Stops s a := by simpa [Stops, opAt, j] using hgo
    have hrest := ih fun o b hw => h o b (.next hlt hgoes hw)
    show rest.ending = .leave e ↔ _
    rw [hrest]
    constructor
    · rintro ⟨b, hw, hstop⟩
      exact ⟨b, .next hlt hgoes hw, hstop⟩
    · rintro ⟨b, hw, hstop⟩
      rcases (walks_iff.mp hw).2 with ⟨rfl, rfl⟩ | ⟨-, hnext⟩
      · exact absurd hstop hgoes
      · exact ⟨b, hnext, hstop⟩
  | case4 s a hlt =>
    constructor
    · intro h
      cases h
    · rintro ⟨b, hw, -⟩
      exact absurd (walks_iff.mp hw).1 hlt

/-- The walk of a path that starts at a place in or behind the program is the walk from there. -/
theorem walksFrom_natCast {s o : Nat} {b : Bool} : p.WalksFrom s o b ↔ p.Walks s false o b := by
  constructor
  · rintro ⟨s', hs, hw⟩
    obtain rfl : s = s' := by omega
    exact hw
  · intro hw
    exact ⟨s, rfl, hw⟩

/-- No walk starts in front of the image. -/
theorem not_walksFrom_of_neg {x : Int} (h : x < 0) (o : Nat) (b : Bool) : ¬ p.WalksFrom x o b := by
  rintro ⟨s, rfl, -⟩
  omega

/-- A path meets no odd target exactly if its start is aligned. -/
theorem ending_start_ne_misaligned_iff (p : ProgramText) (x : Int) :
    (∀ cause, (Path.start p x).ending ≠ .misaligned cause) ↔ p.AlignedFrom x := by
  unfold Path.start AlignedFrom
  split
  · next hneg =>
    constructor
    · intro _ o b hw
      exact absurd hw (not_walksFrom_of_neg hneg o b)
    · intro _ cause h
      cases h
  · next hneg =>
    obtain ⟨s, rfl⟩ := Int.eq_ofNat_of_zero_le (Int.not_lt.mp hneg)
    simp only [Int.toNat_natCast, walksFrom_natCast]
    exact ending_follow_ne_misaligned_iff p s false

/-- A path visits exactly the instructions that are walked. -/
theorem mem_visited_start {x : Int} (h : p.AlignedFrom x) (o : Nat) (i : Instruction) :
    (o, i) ∈ (Path.start p x).visited ↔ i = p.instructionAt o ∧ ∃ b, p.WalksFrom x o b := by
  unfold Path.start
  split
  · next hneg => simp [not_walksFrom_of_neg hneg]
  · next hneg =>
    obtain ⟨s, rfl⟩ := Int.eq_ofNat_of_zero_le (Int.not_lt.mp hneg)
    simp only [AlignedFrom, walksFrom_natCast] at h ⊢
    exact mem_visited_follow h o i

/-- A path leaves code exactly where the walk stops. -/
theorem ending_start {x : Int} (h : p.AlignedFrom x) (e : Nat) :
    (Path.start p x).ending = .leave e ↔ ∃ b, p.WalksFrom x e b ∧ p.Stops e b := by
  unfold Path.start
  split
  · next hneg => simp [not_walksFrom_of_neg hneg]
  · next hneg =>
    obtain ⟨s, rfl⟩ := Int.eq_ofNat_of_zero_le (Int.not_lt.mp hneg)
    simp only [AlignedFrom, walksFrom_natCast] at h ⊢
    exact ending_follow h e

/-! ## Reached offsets -/

/-- A skip does not end a path. -/
theorem endsPath_of_isSkip {op : Op} (h : op.isSkip = true) : op.endsPath = false := by
  revert h
  cases op <;> decide

/-- Every start is reached. -/
theorem IsStart.reached {s : Int} (h : p.IsStart s) : p.Reached s := by
  rcases h with rfl | ⟨o, ho, hlt, hstart, rfl⟩
  · exact .entry
  · exact .target ho hlt hstart

/-- A walk from a reached offset comes to reached offsets only. Behind a skip, the offset after
next is reached as well, and this is what carries the walk over an instruction that ends paths. -/
theorem Walks.reached {s o : Nat} {a b : Bool} (h : p.Walks s a o b) (hs : p.Reached s)
    (hskip : a = true → p.Reached (s + 2 : Nat)) :
    p.Reached o ∧ (b = true → p.Reached (o + 2 : Nat)) := by
  induction h with
  | here => exact ⟨hs, hskip⟩
  | @next s o a b hlt hgo _ ih =>
    apply ih
    · by_cases hend : (p.opAt s).endsPath = true
      · cases a with
        | true => exact hskip rfl
        | false => exact absurd ⟨hend, rfl⟩ hgo
      · exact .next hs hlt (Bool.not_eq_true _ ▸ hend)
    · intro hisSkip
      exact .skip hs hlt hisSkip

/-- Walks from the starts of paths come to reached offsets only. -/
theorem IsStart.reached_of_walksFrom {x : Int} {o : Nat} {b : Bool} (hx : p.IsStart x)
    (hw : p.WalksFrom x o b) : p.Reached o := by
  obtain ⟨s, rfl, hw⟩ := hw
  exact (hw.reached hx.reached (fun h => by cases h)).1

/-- The targets of jumps and calls on walks from the starts of paths are starts. -/
theorem IsStart.target {x : Int} {o : Nat} {b : Bool} (hx : p.IsStart x) (hw : p.WalksFrom x o b)
    (hstart : (p.opAt o).startsPath = true) : p.IsStart (p.targetAt o) := by
  have hlt : o < p.length := by
    obtain ⟨s, -, hw⟩ := hw
    exact hw.lt_length
  exact Or.inr ⟨o, hx.reached_of_walksFrom hw, hlt, hstart, rfl⟩

/-- Let `S` hold of the entry and be closed under the targets of jumps and calls on walks from it.
Then every reached offset of the program lies on a walk from an offset of `S`. -/
theorem Reached.exists_walksFrom {S : Int → Prop} (hentry : S 0)
    (htarget : ∀ x o b, S x → p.WalksFrom x o b → (p.opAt o).startsPath = true →
      S (p.targetAt o)) {x : Int} (h : p.Reached x) :
    ∀ o : Nat, x = o → o < p.length → ∃ x b, S x ∧ p.WalksFrom x o b := by
  induction h with
  | entry =>
    intro o ho hlt
    obtain rfl : o = 0 := by omega
    exact ⟨0, false, hentry, 0, rfl, .here hlt⟩
  | @next o ho hlt hgo ih =>
    intro o' ho' hlt'
    obtain rfl : o' = o + 2 := by omega
    obtain ⟨x, b, hx, s, rfl, hw⟩ := ih o rfl hlt
    have hstop : ¬ p.Stops o b := fun hstop => by rw [hstop.1] at hgo; cases hgo
    exact ⟨s, _, hx, s, rfl, hw.extend hstop hlt'⟩
  | @skip o ho hlt hskip ih =>
    intro o' ho' hlt'
    obtain rfl : o' = o + 2 + 2 := by omega
    obtain ⟨x, b, hx, s, rfl, hw⟩ := ih o rfl hlt
    have hgo := endsPath_of_isSkip hskip
    have hstop : ¬ p.Stops o b := fun hstop => by rw [hstop.1] at hgo; cases hgo
    have hnext := hw.extend hstop (by omega)
    -- behind the skip the walk does not stop, whatever the instruction
    rw [hskip] at hnext
    exact ⟨s, _, hx, s, rfl, hnext.extend (fun hstop => by cases hstop.2) hlt'⟩
  | @target o ho hlt hstart ih =>
    intro o' ho' hlt'
    obtain ⟨x, b, hx, hw⟩ := ih o rfl hlt
    exact ⟨p.targetAt o, false, htarget x o b hx hw hstart, o', ho', .here hlt'⟩

/-- Inside the program, the reached offsets are those on walks from the starts of paths. -/
theorem reached_iff_walksFrom {o : Nat} (hlt : o < p.length) :
    p.Reached o ↔ ∃ x b, p.IsStart x ∧ p.WalksFrom x o b := by
  constructor
  · intro h
    exact h.exists_walksFrom (Or.inl rfl) (fun x o b hx hw hstart => hx.target hw hstart) o rfl hlt
  · rintro ⟨x, b, hx, hw⟩
    exact hx.reached_of_walksFrom hw

end ProgramText

end SuperChip
