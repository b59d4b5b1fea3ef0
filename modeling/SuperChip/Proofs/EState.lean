/-!
# Changes that may stop

A change of a state that may stop keeps what it changed by then. A sequence of changes is taken
apart by what each part leaves, whether it stops or not.
-/

set_option autoImplicit false

namespace SuperChip.EState

variable {ε σ α β : Type} {f : EStateM ε σ α} {g : α → EStateM ε σ β} {a b c : σ} {v : α} {w : β}
  {cause : ε}

/-- What goes on goes on from the state that is left. -/
theorem bind_of_ok (h : f a = .ok v b) : (f >>= g) a = g v b := by
  change EStateM.bind f g a = g v b
  rw [EStateM.bind, h]

/-- Behind a change that stops nothing is done. -/
theorem bind_of_error (h : f a = .error cause b) : (f >>= g) a = .error cause b := by
  change EStateM.bind f g a = .error cause b
  rw [EStateM.bind, h]

/-- Looking at the state leaves it as it is. -/
theorem get_bind (g : σ → EStateM ε σ β) : (get >>= g : EStateM ε σ β) a = g a a := rfl

/-- A state that is put in place of another is what the rest goes on from. -/
theorem set_bind (g : PUnit → EStateM ε σ β) : (set b >>= g : EStateM ε σ β) a = g ⟨⟩ b := rfl

/-- What a function makes of the state is what the rest goes on from. -/
theorem modify_bind (f : σ → σ) (g : PUnit → EStateM ε σ β) :
    (modify f >>= g : EStateM ε σ β) a = g ⟨⟩ (f a) := rfl

/-- A sequence is completed exactly if both parts are. -/
theorem bind_eq_ok_iff : (f >>= g) a = .ok w c ↔ ∃ v b, f a = .ok v b ∧ g v b = .ok w c := by
  cases hf : f a with
  | ok v b =>
    rw [bind_of_ok hf]
    constructor
    · intro h
      exact ⟨v, b, rfl, h⟩
    · rintro ⟨_, _, ⟨⟩, h⟩
      exact h
  | error cause b => simp [bind_of_error hf]

/-- A sequence stops exactly where one of its parts does. -/
theorem bind_eq_error_iff :
    (f >>= g) a = .error cause c ↔
      f a = .error cause c ∨ ∃ v b, f a = .ok v b ∧ g v b = .error cause c := by
  cases hf : f a with
  | ok v b =>
    rw [bind_of_ok hf]
    constructor
    · intro h
      exact .inr ⟨v, b, rfl, h⟩
    · rintro (⟨⟨⟩⟩ | ⟨_, _, ⟨⟩, h⟩)
      exact h
  | error cause b => simp [bind_of_error hf]

end SuperChip.EState
