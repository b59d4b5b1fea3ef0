import SuperChip.Proofs.Asm.Causes
import SuperChip.Proofs.Asm.Emission
import SuperChip.Proofs.Asm.TwoPass
import SuperChip.Proofs.Expr.Range
import SuperChip.Proofs.Instruction.RoundTrip

/-!
# Refusals are documented

Whatever the source is, it is assembled into at most as many bytes as program memory has, or it is
refused at one of its lines, for a cause that is documented (`refusals_documented`), unless the
assembler comes to a decimal number of more digits than can be read. No part of a line stops for
anything else, and every item that waits for an emission has the operands that it needs, which are
operands of a line that was taken (`Accounted`), so that no item stops for anything else either.
-/

set_option autoImplicit false

namespace SuperChip

open EState

/-! ## Refusals and failures -/

/-- The refusal is for a documented cause, at one of the lines that were taken. -/
structure AsmError.Within (taken : List String) (e : AsmError) : Prop where
  first : 1 ≤ e.line
  last : e.line ≤ taken.length
  refusal : e.cause.isRefusal = true
  documented : e.cause ≠ .invalidOperation

/-- The assembler failed at a line that was taken, since it came to a decimal number of `n` digits
in an operand of that line. -/
def AsmError.TooLong (taken : List String) (e : AsmError) : Prop :=
  ∃ (k : Nat) (text operand : String) (n : Nat), taken[k]? = some text ∧ e.line = k + 1 ∧
    operand ∈ (SourceLine.parse text).operandTexts ∧ Expr.MeetsLong operand.toList n ∧
    (e.cause = .expression (.longNumeral n) ∨ e.cause = .operand operand (.longNumeral n))

/-- What stops a line, or an item recorded from it, is explained by the operands of that line. -/
def AsmError.Explained (taken : List String) (e : AsmError) : Prop :=
  ∃ (k : Nat) (text : String), taken[k]? = some text ∧ e.line = k + 1 ∧
    e.cause.Explained (SourceLine.parse text).operandTexts

namespace AsmError

variable {taken : List String} {e : AsmError}

/-- A line that was taken is still one when more are taken. -/
theorem Explained.append (h : e.Explained taken) (more : List String) :
    e.Explained (taken ++ more) := by
  obtain ⟨k, text, htext, hreason⟩ := h
  obtain ⟨hlt, -⟩ := List.getElem?_eq_some_iff.1 htext
  exact ⟨k, text, by rwa [List.getElem?_append_left hlt], hreason⟩

/-- What is explained is a refusal, or a failure at a number that is too long. -/
theorem Explained.within_or_tooLong (h : e.Explained taken) : e.Within taken ∨ e.TooLong taken := by
  obtain ⟨k, text, htext, hline, hcause⟩ := h
  obtain ⟨hlt, -⟩ := List.getElem?_eq_some_iff.1 htext
  obtain ⟨line, cause⟩ := e
  cases hcause with
  | refused documented refusal =>
    have hline' : line = k + 1 := hline
    exact .inl ⟨show 1 ≤ line by omega, show line ≤ taken.length by omega, refusal, documented⟩
  | assigned hmem hmeets => exact .inr ⟨k, text, _, _, htext, hline, hmem, hmeets, .inl rfl⟩
  | recorded hmem hmeets => exact .inr ⟨k, text, _, _, htext, hline, hmem, hmeets, .inr rfl⟩

end AsmError

/-- The item has the operands that it needs, and they are operands of the line that it names. -/
structure Item.Accounted (shiftsVy : Bool) (taken : List String) (item : Item) : Prop where
  complete : item.Complete shiftsVy
  source : ∃ (k : Nat) (text : String), taken[k]? = some text ∧ item.line = k + 1 ∧
    item.operands ⊆ (SourceLine.parse text).operandTexts

namespace Item

variable {labels : Labels} {shiftsVy : Bool} {taken more : List String} {image final : Image}
  {items : List Item}

/-- An item stays accounted for when more lines are taken. -/
theorem Accounted.mono {item : Item} (h : item.Accounted shiftsVy taken) (more : List String) :
    item.Accounted shiftsVy (taken ++ more) := by
  obtain ⟨k, text, htext, hline, hkept⟩ := h.source
  obtain ⟨hlt, -⟩ := List.getElem?_eq_some_iff.1 htext
  exact ⟨h.complete, k, text, by rwa [List.getElem?_append_left hlt], hline, hkept⟩

/-- What an item is not encoded or not written for is refused at its line, or fails there. -/
theorem Accounted.explained {item : Item} {cause : AsmCause}
    (h : item.Accounted shiftsVy taken) (hcause : cause.Explained item.operands) :
    AsmError.Explained taken ⟨item.line, cause⟩ := by
  obtain ⟨k, text, htext, hline, hkept⟩ := h.source
  exact ⟨k, text, htext, hline, hcause.mono hkept⟩

/-- An item that is not written is refused at its line, or fails there. -/
theorem explained_of_write {item : Item} {e : AsmError}
    (hitem : item.Accounted shiftsVy taken) (h : item.write labels shiftsVy image = .error e) :
    e.Explained taken := by
  unfold write at h
  split at h
  · next cause hencode =>
    cases h
    exact hitem.explained (documented_encode hitem.complete cause hencode)
  · split at h
    · next cause hwrite =>
      cases h
      -- the image itself refuses only what leaves program memory
      obtain ⟨rfl, -⟩ := (Image.write_eq_error_iff _ _ _ _).mp hwrite
      exact hitem.explained (.refused nofun rfl)
    · cases h

/-- Items that are not all written are refused at the line of one of them, or fail there. -/
theorem explained_of_writeAll {e : AsmError}
    (hitems : ∀ item ∈ items, item.Accounted shiftsVy taken)
    (h : writeAll labels shiftsVy image items = (final, some e)) :
    e.Explained taken := by
  induction items generalizing image with
  | nil => cases h
  | cons item rest ih =>
    obtain ⟨hitem, hrest⟩ := List.forall_mem_cons.mp hitems
    rw [writeAll] at h
    split at h
    · next hwrite =>
      cases h
      exact explained_of_write hitem hwrite
    · exact ih hrest h

/-- Writing keeps the size of program memory, whether it is refused or not. -/
theorem size_writeAll {result : Option AsmError}
    (h : writeAll labels shiftsVy image items = (final, result)) :
    final.memory.size = image.memory.size := by
  induction items generalizing image with
  | nil =>
    cases h
    rfl
  | cons item rest ih =>
    rw [writeAll] at h
    split at h
    · cases h
      rfl
    · next hwrite =>
      obtain ⟨w, -, rfl⟩ := write_eq_ok_iff.mp hwrite
      exact (ih h).trans (Bytes.size_overwrite _ _ _)

end Item

/-- Program memory has its full size from the start. -/
theorem Image.size_empty : ({} : Image).memory.size = programSize := Array.size_replicate

/-- A program is no longer than program memory. -/
theorem Image.size_toBytes_le {image : Image} (h : image.memory.size = programSize) :
    image.toBytes.size ≤ programSize := by
  rw [toBytes, Array.size_extract, h]
  omega

namespace Assembler

variable {shiftsVy : Bool} {taken : List String} {a b : Assembler} {e : AsmError}
  {said notices : List AsmNotice}

/-- The assembler has taken these lines, and all of its items are accounted for. -/
structure Accounted (shiftsVy : Bool) (taken : List String) (a : Assembler) : Prop where
  shiftsVy_eq : a.shiftsVy = shiftsVy
  line_eq : a.line = taken.length
  items : ∀ item ∈ a.items.toList, item.Accounted shiftsVy taken

/-- An assembler that has taken no lines has no items. -/
theorem accounted_start (shiftsVy : Bool) : Accounted shiftsVy [] { shiftsVy } :=
  ⟨rfl, rfl, nofun⟩

/-- One more line is counted, whatever label waits then. -/
theorem Accounted.start (h : a.Accounted shiftsVy taken) (text : String) (pending : Option String) :
    Accounted shiftsVy (taken ++ [text]) { a with line := a.line + 1, pending } where
  shiftsVy_eq := h.shiftsVy_eq
  line_eq := by rw [h.line_eq, List.length_append, Int.natCast_add, List.length_singleton,
    Int.cast_ofNat_Int]
  items item hitem := (h.items item hitem).mono [text]

/-- What a line does keeps all items accounted for, by this line if it recorded them. -/
theorem Step.accounted {text : String}
    (hstep : Step (SourceLine.parse text).operandTexts a b)
    (h : a.Accounted shiftsVy (taken ++ [text])) : b.Accounted shiftsVy (taken ++ [text]) := by
  cases hstep with
  | rest => exact h
  | named => exact ⟨h.shiftsVy_eq, h.line_eq, h.items⟩
  | moved => exact ⟨h.shiftsVy_eq, h.line_eq, h.items⟩
  | recorded free counted kept =>
    refine ⟨h.shiftsVy_eq, h.line_eq, ?_⟩
    intro item hitem
    rw [Assembler.recorded, Array.toList_push, List.mem_append, List.mem_singleton] at hitem
    obtain hitem | rfl := hitem
    · exact h.items item hitem
    -- the operands of the new item were counted when its form was selected
    · rw [h.shiftsVy_eq] at counted
      have hline : a.line = taken.length + 1 := by
        rw [h.line_eq, List.length_append]
        rfl
      exact ⟨counted, taken.length, text, by simp, hline, kept⟩

/-- A line keeps all items accounted for, whether it is taken or not. -/
theorem Accounted.processLine (h : a.Accounted shiftsVy taken) (text : String) :
    (a.processLine text).1.Accounted shiftsVy (taken ++ [text]) :=
  processLine_keeps a text (h.start text)
    fun pending _ hstep => hstep.accounted (h.start text pending)

/-- A line that is not taken is refused, or fails, at this line. -/
theorem Accounted.explained_of_processLine (h : a.Accounted shiftsVy taken) {text : String}
    (hstopped : (a.processLine text).2 = .error e) :
    e.Explained (taken ++ [text]) := by
  have hline := line_of_processLine hstopped
  rw [h.line_eq] at hline
  have htext : (taken ++ [text])[taken.length]? = some text := by simp
  exact ⟨taken.length, text, htext, hline, explained_processLine hstopped⟩

/-- An emission keeps all items that still wait accounted for. -/
theorem Accounted.emit (h : a.Accounted shiftsVy taken) (image : Image) :
    (a.emit image).assembler.Accounted shiftsVy taken := by
  unfold Assembler.emit
  split
  · exact h
  · exact ⟨h.shiftsVy_eq, h.line_eq, nofun⟩

/-- An emission that is not completed is refused, or fails, at a line that was taken. -/
theorem Accounted.explained_of_emit (h : a.Accounted shiftsVy taken) {image : Image}
    (hstopped : (a.emit image).result = .error e) : e.Explained taken := by
  unfold Assembler.emit at hstopped
  split at hstopped
  · next hwrite =>
    cases hstopped
    rw [h.shiftsVy_eq] at hwrite
    exact Item.explained_of_writeAll h.items hwrite
  · cases hstopped

/-- An emission keeps the size of program memory. -/
theorem size_emit (a : Assembler) (image : Image) :
    (a.emit image).image.memory.size = image.memory.size := by
  unfold Assembler.emit
  split
  · next hwrite => exact Item.size_writeAll hwrite
  · next hwrite => exact Item.size_writeAll hwrite

/-! ## Sources -/

/-- Lines that are taken leave all items accounted for, up to one that is refused or fails. -/
theorem Accounted.processLines {lines : List String} {stopped : Option AsmError}
    (h : a.Accounted shiftsVy taken)
    (hlines : a.processLines said lines = (b, notices, stopped)) :
    (stopped = none → b.Accounted shiftsVy (taken ++ lines)) ∧
      ∀ e ∈ stopped, e.Explained (taken ++ lines) := by
  induction lines generalizing a said taken with
  | nil =>
    cases hlines
    simp [h]
  | cons text rest ih =>
    have hline := h.processLine text
    have hsplit : taken ++ text :: rest = (taken ++ [text]) ++ rest := by simp
    rw [Assembler.processLines] at hlines
    rw [hsplit]
    split at hlines
    · next hstopped =>
      cases hlines
      have hreason := h.explained_of_processLine (congrArg Prod.snd hstopped)
      constructor
      · rintro ⟨⟩
      · rintro e ⟨⟩
        exact hreason.append rest
    · next htext =>
      rw [htext] at hline
      exact ih hline hlines

/-- A source that is not assembled is refused, or fails, at one of its lines. -/
theorem explained_of_assemble {source : String}
    (h : assemble shiftsVy source = (notices, .error e)) :
    e.Explained (Text.lines source) := by
  have hstart := accounted_start shiftsVy
  unfold assemble assembleLines at h
  split at h
  · next hlines =>
    cases h
    exact (hstart.processLines hlines).2 _ rfl
  · next a said hlines =>
    have ha := (hstart.processLines hlines).1 rfl
    dsimp only at h
    split at h
    · next hstopped =>
      cases h
      exact ha.explained_of_emit hstopped
    · cases h

/-- A program is no longer than program memory. -/
theorem size_of_assembleLines {lines : List String} {bytes : Bytes}
    (h : assembleLines shiftsVy lines = (notices, .ok bytes)) : bytes.size ≤ programSize := by
  unfold assembleLines at h
  split at h
  · cases h
  · next a said hlines =>
    dsimp only at h
    split at h
    · cases h
    · cases h
      exact Image.size_toBytes_le ((size_emit a {}).trans Image.size_empty)

/-- So is the program of a source text. -/
theorem size_of_assemble {source : String} {bytes : Bytes}
    (h : assemble shiftsVy source = (notices, .ok bytes)) : bytes.size ≤ programSize :=
  size_of_assembleLines h

end Assembler

/-! ## Calls in any order -/

namespace Assembly

open Assembler

variable {shiftsVy : Bool} {taken : List String} {s : Assembly}

/-- The line that a call takes. -/
def Call.line? : Call → Option String
  | .line text => some text
  | .emit => none

/-- The lines that calls take, in order. -/
def linesOf (calls : List Call) : List String := calls.filterMap Call.line?

/-- The lines of calls are those of the first ones, then those of the others. -/
theorem linesOf_append (calls more : List Call) :
    linesOf (calls ++ more) = linesOf calls ++ linesOf more := List.filterMap_append

/-- A call keeps all items accounted for. -/
theorem accounted_call (h : s.assembler.Accounted shiftsVy taken) (c : Call) :
    (s.call c).1.assembler.Accounted shiftsVy (taken ++ linesOf [c]) := by
  cases c with
  | line text => exact h.processLine text
  | emit =>
    rw [show linesOf [Call.emit] = [] from rfl, List.append_nil]
    exact h.emit s.image

/-- A call that is not completed is refused, or fails, at a line that was taken. -/
theorem explained_of_call (h : s.assembler.Accounted shiftsVy taken) {c : Call}
    {e : AsmError} (hstopped : (s.call c).2 = .error e) :
    e.Explained (taken ++ linesOf [c]) := by
  cases c with
  | line text => exact h.explained_of_processLine hstopped
  | emit =>
    rw [show linesOf [Call.emit] = [] from rfl, List.append_nil]
    exact h.explained_of_emit hstopped

/-- All calls keep all items accounted for. -/
theorem accounted_run (h : s.assembler.Accounted shiftsVy taken) (calls : List Call) :
    (s.run calls).assembler.Accounted shiftsVy (taken ++ linesOf calls) := by
  induction calls generalizing s taken with
  | nil =>
    rw [show linesOf [] = [] from rfl, List.append_nil]
    exact h
  | cons c rest ih =>
    rw [← List.singleton_append, linesOf_append, ← List.append_assoc]
    exact ih (accounted_call h c)

/-- Calls keep the size of program memory. -/
theorem size_run (s : Assembly) (calls : List Call) :
    (s.run calls).image.memory.size = s.image.memory.size := by
  induction calls generalizing s with
  | nil => rfl
  | cons c rest ih =>
    refine (ih (s.call c).1).trans ?_
    cases c with
    | line text => rfl
    | emit => exact size_emit s.assembler s.image

/-- Whatever source is assembled, and whatever lines and emissions are asked for in any order, the
image never outgrows program memory, and what is refused is refused at a line that was taken and for
a documented cause. The assembler fails only where an operand of a line that was taken holds a
decimal number of more digits than can be read. Nothing else can go wrong: all items that wait have
the operands that their layout reads, whatever the labels are by then, expressions have sixteen-bit
values, and instructions have sixteen-bit words. -/
theorem refusals_documented (shiftsVy : Bool) :
    (∀ source, (∃ notices bytes, assemble shiftsVy source = (notices, .ok bytes) ∧
        bytes.size ≤ programSize) ∨
      (∃ notices e, assemble shiftsVy source = (notices, .error e) ∧
        e.Within (Text.lines source)) ∨
      ∃ notices e, assemble shiftsVy source = (notices, .error e) ∧
        e.TooLong (Text.lines source)) ∧
    (∀ calls, (run ⟨{ shiftsVy }, {}⟩ calls).image.toBytes.size ≤ programSize ∧
      (run ⟨{ shiftsVy }, {}⟩ calls).assembler.Accounted shiftsVy (linesOf calls) ∧
      (∀ item ∈ (run ⟨{ shiftsVy }, {}⟩ calls).assembler.items.toList, ∀ labels,
        Documented item.operands (item.encode labels shiftsVy)) ∧
      ∀ c e, ((run ⟨{ shiftsVy }, {}⟩ calls).call c).2 = .error e →
        e.Within (linesOf (calls ++ [c])) ∨ e.TooLong (linesOf (calls ++ [c]))) ∧
    (∀ labels text v, Expr.eval labels text = .ok v → v < wordSize) ∧
    ∀ i : Instruction, i.encode shiftsVy < wordSize := by
  refine ⟨?_, ?_, fun _ _ _ h => Expr.eval_lt h, ?_⟩
  · intro source
    rcases hassemble : assemble shiftsVy source with ⟨notices, e | bytes⟩
    · obtain hwithin | htooLong := (explained_of_assemble hassemble).within_or_tooLong
      · exact .inr (.inl ⟨notices, e, rfl, hwithin⟩)
      · exact .inr (.inr ⟨notices, e, rfl, htooLong⟩)
    · exact .inl ⟨notices, bytes, rfl, size_of_assemble hassemble⟩
  · intro calls
    have hrun := accounted_run (s := ⟨{ shiftsVy }, {}⟩) (accounted_start shiftsVy) calls
    rw [List.nil_append] at hrun
    have hsize := (size_run ⟨{ shiftsVy }, {}⟩ calls).trans Image.size_empty
    refine ⟨Image.size_toBytes_le hsize, hrun, ?_, ?_⟩
    · intro item hitem labels
      exact Item.documented_encode (hrun.items item hitem).complete
    · intro c e hstopped
      rw [linesOf_append]
      exact (explained_of_call hrun hstopped).within_or_tooLong
  · intro i
    rw [wordSize]
    exact i.encode_lt shiftsVy

/-- An emission refused at the second line, for a name that never gets a value. -/
theorem refusals_documented_missingName :
    ((run ⟨{}, {}⟩ [.line "CLS", .line "JP x"]).call .emit).2 =
        .error ⟨2, .operand "x" (.unknownName "x")⟩ ∧
      AsmError.Within ["CLS", "JP x"] ⟨2, .operand "x" (.unknownName "x")⟩ := by
  have hrefused : ((run ⟨{}, {}⟩ [.line "CLS", .line "JP x"]).call .emit).2 =
      .error ⟨2, .operand "x" (.unknownName "x")⟩ := by decide +kernel
  obtain ⟨-, hcalls, -⟩ := refusals_documented false
  obtain ⟨-, -, -, hreason⟩ := hcalls [.line "CLS", .line "JP x"]
  refine ⟨hrefused, (hreason .emit _ hrefused).resolve_right ?_⟩
  rintro ⟨k, text, operand, n, -, -, -, -, hcause | hcause⟩
  · cases hcause
  · cases hcause

end Assembly

end SuperChip
