import SuperChip.Proofs.Expr.Tree
import SuperChip.Proofs.Text.Scan

/-!
# Reading the lexemes of an expression

The evaluator reads a text token by token and skips the blanks between. Of a text that spaces out
lexemes it reads exactly these (`run_spaced`), as long as no two operands stand side by side: behind
a literal or a name the text then goes on with a blank, an operator or a parenthesis, none of which
could still belong to it.
-/

set_option autoImplicit false

namespace SuperChip.Expr

open Text

/-! ## The numbers that digits write -/

/-- Digits are read as their number in the base, the last one counting least. -/
theorem ofDigits_eq (base : Nat) (digits : List Char) :
    ofDigits base digits = Nat.ofDigits base (digits.reverse.map digitValue) := by
  rw [ofDigits, Nat.ofDigits_eq_foldr, List.foldr_map, List.foldr_reverse]
  simp only [Nat.cast_id, Nat.add_comm]

/-- A binary digit read as zero or one has the value that it has as a digit of its base. -/
theorem digitValue_of_point (c : Char) :
    digitValue (if c == '.' then '0' else c) = Base.binary.digitValue c := by
  unfold Base.digitValue
  by_cases hc : c = '.'
  · subst hc
    decide
  · simp only [beq_iff_eq, hc, if_false]

/-- Binary digits write the number that their values make up. -/
theorem ofBinary_eq (digits : List Char) :
    Token.ofBinary digits = Nat.ofDigits 2 (digits.reverse.map Base.binary.digitValue) := by
  rw [Token.ofBinary, ofDigits_eq, ← List.map_reverse, List.map_map]
  congr 1
  exact List.map_congr_left fun c _ => digitValue_of_point c

/-! ## Words -/

/-- Whether a literal or a name may go on with the character. -/
def isWordChar (c : Char) : Bool := isNameChar c || c == '.'

/-- The characters of words are not blank. -/
theorem isBlank_of_isWordChar {c : Char} (h : isWordChar c = true) : isBlank c = false := by
  simp only [isWordChar, Bool.or_eq_true, beq_iff_eq] at h
  obtain h | h := h
  · exact isBlank_of_isNameChar h
  · rw [h]
    decide

/-- Digits are characters of words. -/
theorem Base.isWordChar_of_isDigit {b : Base} {c : Char} (h : b.isDigit c = true) :
    isWordChar c = true := by
  rw [isWordChar, Bool.or_eq_true]
  cases b with
  | decimal => exact .inl (isNameChar_of_isDigit h)
  | hexadecimal => exact .inl (isNameChar_of_isHexDigit h)
  | binary =>
    simp only [Base.isDigit, Token.isBinaryDigit, Bool.or_eq_true, beq_iff_eq] at h
    obtain (h | h) | h := h
    · exact .inl (by rw [h]; decide)
    · exact .inl (by rw [h]; decide)
    · exact .inr (by rw [h]; decide)

namespace Lexeme

/-- The token that a lexeme is read as. -/
def token : Lexeme → Token
  | .literal l => .number l.value
  | .name n => .name n.text
  | .unary op => .symbol op.toChar
  | .binary op => .symbol op.toChar
  | .openParen => .openParen
  | .closeParen => .closeParen

/-- A lexeme starts with a character that is not blank and, unless it is an operand, that belongs to
no word. -/
theorem exists_chars_eq_cons (x : Lexeme) :
    ∃ c rest, x.chars = c :: rest ∧ isBlank c = false ∧
      (x.isOperand = false → isWordChar c = false) := by
  cases x with
  | literal l =>
    cases hd : l.digits with
    | nil => exact absurd hd l.nonempty
    | cons d digits =>
      have hword := Base.isWordChar_of_isDigit (l.valid d (by rw [hd]; exact .head _))
      cases hb : l.base with
      | decimal =>
        exact ⟨d, digits, by rw [chars, Literal.chars, hb, hd]; rfl, isBlank_of_isWordChar hword,
          nofun⟩
      | hexadecimal =>
        exact ⟨'#', d :: digits, by rw [chars, Literal.chars, hb, hd]; rfl, by decide, nofun⟩
      | binary =>
        exact ⟨'$', d :: digits, by rw [chars, Literal.chars, hb, hd]; rfl, by decide, nofun⟩
  | name n =>
    exact ⟨n.first, n.rest, rfl, isBlank_of_isNameChar (isNameChar_of_isNameStart n.start), nofun⟩
  | unary op => cases op <;> exact ⟨_, [], rfl, by decide, fun _ => by decide⟩
  | binary op => cases op <;> exact ⟨_, [], rfl, by decide, fun _ => by decide⟩
  | openParen => exact ⟨_, [], rfl, by decide, fun _ => by decide⟩
  | closeParen => exact ⟨_, [], rfl, by decide, fun _ => by decide⟩

end Lexeme

/-- A number is read up to what is no digit. -/
theorem takeNumber?_append {isDigit : Char → Bool} (value : List Char → Nat) {w r : List Char}
    (hne : w ≠ []) (hw : ∀ c ∈ w, isDigit c = true) (hr : Stops isDigit r) :
    Token.takeNumber? isDigit value (w ++ r) = some (.number (value w), r) := by
  rw [Token.takeNumber?, takeWhile_append_stops hw hr, dropWhile_append_stops hw hr]
  cases w with
  | nil => exact absurd rfl hne
  | cons c w => rfl

/-- A literal that has no more digits than can be read is read as its number. -/
theorem read_literal {l : Literal} {c : Char} {rest r : List Char} (hreadable : l.Readable)
    (hl : l.chars = c :: rest) (hr : Stops isWordChar r) :
    Token.read c (rest ++ r) = .ok (.number l.value, r) := by
  obtain ⟨base, digits, hne, hvalid⟩ := l
  have hstop := hr.mono fun d => Base.isWordChar_of_isDigit (b := base) (c := d)
  cases base with
  | decimal =>
    cases hl
    have hc : c.isDigit = true := hvalid c (.head _)
    have hrest : ∀ d ∈ rest, d.isDigit = true := fun d hd => hvalid d (.tail _ hd)
    have hhash : c ≠ '#' := by rintro rfl; revert hc; decide
    have hdollar : c ≠ '$' := by rintro rfl; revert hc; decide
    have hlimit : ¬digitLimit < (c :: rest).length := Nat.not_lt.2 (hreadable rfl)
    rw [Token.read, if_neg hhash, if_neg hdollar, if_pos hc, takeWhile_append_stops hrest hstop,
      dropWhile_append_stops hrest hstop]
    dsimp only
    rw [if_neg hlimit, ofDigits_eq]
    rfl
  | hexadecimal =>
    obtain ⟨rfl, rfl⟩ : '#' = c ∧ digits = rest := List.cons.inj hl
    have hhex : ∀ d ∈ digits, isHexDigit d = true := hvalid
    rw [Token.read, if_pos rfl, takeNumber?_append _ hne hhex hstop, ofDigits_eq]
    rfl
  | binary =>
    obtain ⟨rfl, rfl⟩ : '$' = c ∧ digits = rest := List.cons.inj hl
    have hbin : ∀ d ∈ digits, Token.isBinaryDigit d = true := hvalid
    rw [Token.read, if_neg (by decide), if_pos rfl, takeNumber?_append _ hne hbin hstop,
      ofBinary_eq]
    rfl

/-- A name is read up to what is no character of names. -/
theorem Name.takeName?_append (n : Name) {r : List Char} (hr : Stops isNameChar r) :
    takeName? (n.chars ++ r) = some (n.text, r) := by
  rw [chars, List.cons_append, takeName?, if_pos n.start, takeWhile_append_stops n.more hr,
    dropWhile_append_stops n.more hr]
  rfl

/-- A name that is taken from the front of a text ends where the text has no more of it. -/
theorem exists_name_of_takeName? {cs rest : List Char} {name : String}
    (h : takeName? cs = some (name, rest)) :
    ∃ n : Name, name = n.text ∧ cs = n.chars ++ rest := by
  cases cs with
  | nil => simp [takeName?] at h
  | cons c cs =>
    rw [takeName?] at h
    split at h
    · next hstart =>
      simp only [Option.some.injEq, Prod.mk.injEq] at h
      obtain ⟨rfl, rfl⟩ := h
      refine ⟨⟨c, cs.takeWhile isNameChar, hstart, List.all_eq_true.1 List.all_takeWhile⟩, rfl, ?_⟩
      rw [Name.chars, List.cons_append, List.takeWhile_append_dropWhile]
    · cases h

/-- A name does not start with a mark of a base or with a digit. -/
theorem Name.first_ne (n : Name) : n.first ≠ '#' ∧ n.first ≠ '$' ∧ n.first.isDigit = false := by
  have himp := of_ascii
    (p := fun c => !isNameStart c || (c != '#' && c != '$' && !c.isDigit)) (by decide)
    (toNat_lt_of_isNameChar (isNameChar_of_isNameStart n.start))
  simpa [n.start, and_assoc] using himp

/-- A name is read as one token. -/
theorem read_name (n : Name) {r : List Char} (hr : Stops isWordChar r) :
    Token.read n.first (n.rest ++ r) = .ok (.name n.text, r) := by
  obtain ⟨hhash, hdollar, hdigit⟩ := n.first_ne
  have htake := n.takeName?_append (hr.mono fun c hc => by rw [isWordChar, hc]; rfl)
  rw [Name.chars, List.cons_append] at htake
  rw [Token.read, if_neg hhash, if_neg hdollar, if_neg (by rw [hdigit]; decide), htake]

/-- A lexeme is read as its token; what follows an operand has to stop it. -/
theorem Lexeme.read_chars {x : Lexeme} {c : Char} {rest r : List Char} (hreadable : x.Readable)
    (hx : x.chars = c :: rest) (hr : x.isOperand = true → Stops isWordChar r) :
    Token.read c (rest ++ r) = .ok (x.token, r) := by
  cases x with
  | literal l => exact read_literal hreadable hx (hr rfl)
  | name n => cases hx; exact read_name n (hr rfl)
  | unary op => cases op <;> cases hx <;> rfl
  | binary op => cases op <;> cases hx <;> rfl
  | openParen => cases hx; rfl
  | closeParen => cases hx; rfl

/-! ## Texts -/

section Run

variable {labels : Labels} {s : State}

/-- At the end of a text the state is what the text leads to. -/
theorem run_eq_nil {cs : List Char} (h : skipBlanks cs = []) : run labels s cs = .ok s := by
  rw [run]
  split
  · rfl
  · next hcs => rw [h] at hcs; cases hcs

/-- A text is read token by token. -/
theorem run_eq_cons {cs rest r : List Char} {c : Char} {t : Token} (h : skipBlanks cs = c :: rest)
    (ht : Token.read c rest = .ok (t, r)) :
    run labels s cs = s.step labels t >>= fun s => run labels s r := by
  rw [run]
  split
  · next hcs => rw [h] at hcs; cases hcs
  · next hcs =>
    rw [h] at hcs
    cases hcs
    split
    · next hread => rw [ht] at hread; cases hread
    · next hread =>
      rw [ht] at hread
      cases hread
      cases s.step labels t <;> rfl

/-- A text is refused at the first token that cannot be read. -/
theorem run_eq_error {cs rest : List Char} {c : Char} {e : ExprError}
    (h : skipBlanks cs = c :: rest) (hread : Token.read c rest = .error e) :
    run labels s cs = .error e := by
  rw [run]
  split
  · next hcs => rw [h] at hcs; cases hcs
  · next hcs =>
    rw [h] at hcs
    cases hcs
    split
    · next hread' =>
      rw [hread] at hread'
      cases hread'
      rfl
    · next hread' => rw [hread] at hread'; cases hread'

end Run

/-- In front of an operator, of a parenthesis and of the end a text stops a word. -/
theorem Spaced.stops {u : List Lexeme} {cs : List Char} (h : Spaced u cs)
    (hu : ∀ x ∈ u.head?, x.isOperand = false) : Stops isWordChar cs := by
  have blank_stops : ∀ {g r : List Char}, (∀ c ∈ g, isBlank c = true) → Stops isWordChar r →
      Stops isWordChar (g ++ r) := by
    intro g r hg hr
    cases g with
    | nil => exact hr
    | cons b g =>
      intro c hc
      cases hc
      have hb := hg b (.head _)
      cases hw : isWordChar b with
      | false => rfl
      | true => rw [isBlank_of_isWordChar hw] at hb; cases hb
  cases h with
  | nil hg =>
    rw [← List.append_nil cs]
    exact blank_stops hg nofun
  | @cons g cs x u hg h =>
    obtain ⟨c, rest, hchars, -, hword⟩ := x.exists_chars_eq_cons
    refine blank_stops hg fun d hd => ?_
    rw [hchars] at hd
    cases hd
    exact hword (hu x rfl)

/-- Behind blanks a text begins with its first lexeme. -/
theorem Lexeme.skipBlanks_append (x : Lexeme) {g cs : List Char} (hg : ∀ c ∈ g, isBlank c = true) :
    skipBlanks (g ++ (x.chars ++ cs)) = x.chars ++ cs := by
  obtain ⟨c, rest, hchars, hblank, -⟩ := x.exists_chars_eq_cons
  rw [skipBlanks, List.dropWhile_append_of_pos hg, hchars, List.cons_append,
    List.dropWhile_cons_of_neg (by rw [hblank]; decide)]

/-- The first of spaced lexemes is read as its token: a literal or name ends where it should, since
no other stands directly behind it. -/
theorem Spaced.read_first {x : Lexeme} {u : List Lexeme} {c : Char} {rest cs : List Char}
    (h : Spaced u cs) (hu : Separated (x :: u)) (hreadable : x.Readable)
    (hchars : x.chars = c :: rest) : Token.read c (rest ++ cs) = .ok (x.token, cs) := by
  refine x.read_chars hreadable hchars fun hx => h.stops fun y hy => ?_
  obtain hx' | hy' := hu.rel_head? hy
  · rw [hx'] at hx
    cases hx
  · exact hy'

/-- Of a text that spaces out lexemes these are read, one after the other. -/
theorem run_spaced (labels : Labels) {u : List Lexeme} {cs : List Char} (h : Spaced u cs)
    (hu : Separated u) (hreadable : ∀ x ∈ u, x.Readable) (s : State) :
    run labels s cs = u.foldlM (fun s x => s.step labels x.token) s := by
  induction h generalizing s with
  | @nil g hg =>
    refine run_eq_nil ?_
    rw [skipBlanks, ← List.append_nil g, List.dropWhile_append_of_pos hg, List.dropWhile_nil]
  | @cons g cs x u hg h ih =>
    obtain ⟨hx, hrest⟩ := List.forall_mem_cons.1 hreadable
    obtain ⟨c, rest, hchars, -, -⟩ := x.exists_chars_eq_cons
    have hskip : skipBlanks (g ++ (x.chars ++ cs)) = c :: (rest ++ cs) := by
      rw [x.skipBlanks_append hg, hchars, List.cons_append]
    rw [run_eq_cons hskip (h.read_first hu hx hchars), List.foldlM_cons]
    congr 1
    funext s
    exact ih hu.tail hrest s

end SuperChip.Expr
