import SuperChip.Asm.Assembly
import SuperChip.Proofs.Asm.Encoding
import SuperChip.Proofs.Asm.Image
import SuperChip.Proofs.Asm.Step
import SuperChip.Proofs.Asm.Unseen

/-!
# Emissions between the lines

An emission may come before the last line, and it may be refused half way. Neither shows in the
image of a later one that succeeds (`Assembly.call_emit_eq`). What an earlier emission wrote has the
bytes that it would have now, since names keep their values; and what a refused emission wrote is
the front of what the next one writes, so that it is only written again.
-/

set_option autoImplicit false

namespace SuperChip

namespace Item

variable {labels more : Labels} {shiftsVy : Bool} {image mid final : Image} {item : Item}
  {items front back : List Item}

/-! ## Written items -/

/-- The write that an item is emitted by. -/
structure Writes (labels : Labels) (shiftsVy : Bool) (item : Item) (w : Image.Write) : Prop where
  data : item.encode labels shiftsVy = .ok w.data
  offset : item.address - programStart = (w.offset : Nat)
  fits : w.offset + w.data.length ≤ programSize

/-- An item is written where its write is put. -/
theorem write_eq_ok_iff : item.write labels shiftsVy image = .ok final ↔
    ∃ w, item.Writes labels shiftsVy w ∧ final = image.put w := by
  rw [Item.write]
  cases hdata : item.encode labels shiftsVy with
  | error cause =>
    constructor
    · nofun
    · rintro ⟨w, hw, -⟩
      rw [hw.data] at hdata
      cases hdata
  | ok data =>
    constructor
    · intro h
      dsimp only at h
      split at h
      · cases h
      · next hwrite =>
        cases h
        obtain ⟨n, hoffset, hfits, rfl⟩ := Image.write_eq_ok_iff.1 hwrite
        exact ⟨⟨n, data⟩, ⟨hdata, hoffset, hfits⟩, rfl⟩
    · rintro ⟨w, hw, rfl⟩
      cases hdata.symm.trans hw.data
      have hwrite : image.write (item.address - programStart) w.data = .ok (image.put w) :=
        Image.write_eq_ok_iff.2 ⟨w.offset, hw.offset, hw.fits, rfl⟩
      simp only [hwrite]

/-- All items are written exactly when each has a write, and then these are put in order. -/
theorem writeAll_eq_none_iff : writeAll labels shiftsVy image items = (final, none) ↔
    ∃ writes, List.Forall₂ (Writes labels shiftsVy) items writes ∧ final = image.puts writes := by
  induction items generalizing image with
  | nil =>
    constructor
    · intro h
      cases h
      exact ⟨[], .nil, rfl⟩
    · rintro ⟨_, ⟨⟩, rfl⟩
      rfl
  | cons item rest ih =>
    constructor
    · intro h
      rw [writeAll] at h
      split at h
      · cases h
      · next hwrite =>
        obtain ⟨w, hw, rfl⟩ := write_eq_ok_iff.1 hwrite
        obtain ⟨writes, hwrites, rfl⟩ := ih.1 h
        exact ⟨w :: writes, .cons hw hwrites, rfl⟩
    · rintro ⟨_, _ | ⟨hw, hwrites⟩, rfl⟩
      rw [writeAll, write_eq_ok_iff.2 ⟨_, hw, rfl⟩]
      exact ih.2 ⟨_, hwrites, rfl⟩

/-- Items behind others are written to the image that those leave. -/
theorem writeAll_append (h : writeAll labels shiftsVy image front = (mid, none)) :
    writeAll labels shiftsVy image (front ++ back) = writeAll labels shiftsVy mid back := by
  induction front generalizing image with
  | nil =>
    cases h
    rfl
  | cons item rest ih =>
    rw [writeAll] at h
    rw [List.cons_append, writeAll]
    split at h
    · cases h
    · exact ih h

/-- What is written is written again without effect. -/
theorem writeAll_again (h : writeAll labels shiftsVy image items = (final, none)) :
    writeAll labels shiftsVy final items = (final, none) := by
  obtain ⟨writes, hwrites, rfl⟩ := writeAll_eq_none_iff.1 h
  exact writeAll_eq_none_iff.2 ⟨writes, hwrites, (image.puts_puts writes).symm⟩

/-- An emission goes on behind what was written before it. -/
theorem writeAll_resume (h : writeAll labels shiftsVy image front = (mid, none)) :
    writeAll labels shiftsVy mid (front ++ back) = writeAll labels shiftsVy mid back :=
  writeAll_append (writeAll_again h)

/-- Items that were written in two parts, the second of them twice, might have been written at
once. -/
theorem writeAll_parts {emitted : List Item} {start : Image}
    (hemitted : writeAll labels shiftsVy start emitted = (image, none))
    (hfront : writeAll labels shiftsVy image front = (mid, none))
    (h : writeAll labels shiftsVy mid (front ++ back) = (final, none)) :
    writeAll labels shiftsVy start (emitted ++ (front ++ back)) = (final, none) := by
  rw [writeAll_resume hfront] at h
  rw [writeAll_append hemitted, writeAll_append hfront, h]

/-- More names do not change what is written. -/
theorem writeAll_of_extends (hmore : more.Extends labels)
    (h : writeAll labels shiftsVy image items = (final, none)) :
    writeAll more shiftsVy image items = (final, none) := by
  obtain ⟨writes, hwrites, rfl⟩ := writeAll_eq_none_iff.1 h
  refine writeAll_eq_none_iff.2 ⟨writes, hwrites.imp ?_, rfl⟩
  intro item w hw
  exact ⟨kept_encode hmore shiftsVy item _ hw.data, hw.offset, hw.fits⟩

/-- A refused emission wrote the items in front of the one it was refused for. -/
theorem exists_written_of_refused {e : AsmError}
    (h : writeAll labels shiftsVy image items = (final, some e)) :
    ∃ front back, items = front ++ back ∧
      writeAll labels shiftsVy image front = (final, none) := by
  induction items generalizing image with
  | nil => cases h
  | cons item rest ih =>
    rw [writeAll] at h
    split at h
    · cases h
      exact ⟨[], item :: rest, rfl, rfl⟩
    · next next hwrite =>
      obtain ⟨front, back, rfl, hfront⟩ := ih h
      refine ⟨item :: front, back, rfl, ?_⟩
      rw [writeAll, hwrite]
      exact hfront

end Item

namespace Assembly

open Assembler

variable {s : Assembly} {p : Assembler} {notices : List AsmNotice}

/-! ## Names -/

/-- No call takes a value from a name. -/
theorem call_extends (s : Assembly) (c : Call) :
    (s.call c).1.assembler.labels.Extends s.assembler.labels := by
  cases c with
  | line text => exact processLine_extends s.assembler text
  | emit =>
    rw [call, Assembler.emit]
    split <;> exact Labels.extends_refl _

/-- No session takes a value from a name. -/
theorem run_extends (s : Assembly) (calls : List Call) :
    (s.run calls).assembler.labels.Extends s.assembler.labels := by
  induction calls generalizing s with
  | nil => exact Labels.extends_refl _
  | cons c rest ih => exact (ih (s.call c).1).trans (call_extends s c)

/-! ## Emissions -/

/-- An emission that is refused keeps all items. -/
theorem call_emit_of_refused {final : Image} {e : AsmError}
    (h : Item.writeAll s.assembler.labels s.assembler.shiftsVy s.image s.assembler.items.toList =
      (final, some e)) : s.call .emit = ({ s with image := final }, .error e) := by
  rw [call, emit_of_refused h]

/-- An emission that is completed keeps none. -/
theorem call_emit_of_written {final : Image}
    (h : Item.writeAll s.assembler.labels s.assembler.shiftsVy s.image s.assembler.items.toList =
      (final, none)) :
    s.call .emit = (⟨{ s.assembler with items := #[] }, final⟩,
      .ok ((if s.assembler.conditional.depth = 0 then []
        else [.unclosedConditional s.assembler.line]) ++ [.emitted final.length])) := by
  rw [call, emit_of_written h]

/-- An emission that is refused leaves the assembler as it was. -/
theorem assembler_of_refused {e : AsmError} (h : (s.call .emit).2 = .error e) :
    (s.call .emit).1.assembler = s.assembler := by
  generalize hwrite : Item.writeAll s.assembler.labels s.assembler.shiftsVy s.image
    s.assembler.items.toList = written
  obtain ⟨final, result⟩ := written
  cases result with
  | some e => rw [call_emit_of_refused hwrite]
  | none =>
    rw [call_emit_of_written hwrite] at h
    cases h

/-- The assembler `p` took the same lines without emitting. The session has emitted some of its
items, and of the others it has written those in front. -/
def Resumes (p : Assembler) (s : Assembly) : Prop :=
  ∃ (emitted : Array Item) (written rest : List Item) (base : Image),
    p = s.assembler.after emitted ∧ s.assembler.items.toList = written ++ rest ∧
      Item.writeAll p.labels p.shiftsVy {} emitted.toList = (base, none) ∧
      Item.writeAll p.labels p.shiftsVy base written = (s.image, none)

/-- A session that has not emitted resumes from its own assembler. -/
theorem resumes_start (a : Assembler) : Resumes a ⟨a, {}⟩ := by
  refine ⟨#[], [], a.items.toList, {}, ?_, rfl, rfl, rfl⟩
  rw [after, Array.empty_append]

/-- A line is taken alike with and without emissions before it. -/
theorem Resumes.line (h : Resumes p s) (text : String) :
    Resumes (p.processLine text).1 (s.call (.line text)).1 := by
  obtain ⟨emitted, written, rest, base, rfl, hitems, hbase, himage⟩ := h
  have hextends := processLine_extends (s.assembler.after emitted) text
  have hshifts := shiftsVy_processLine (s.assembler.after emitted) text
  obtain ⟨new, hnew⟩ := processLine_isPrefix_items s.assembler text
  rw [hitems, List.append_assoc] at hnew
  refine ⟨emitted, written, rest ++ new, base, ?_, hnew.symm, ?_, ?_⟩
  · rw [processLine_after]
    rfl
  · rw [hshifts]
    exact Item.writeAll_of_extends hextends hbase
  · rw [hshifts]
    exact Item.writeAll_of_extends hextends himage

/-- An emission writes more of the items that the other assembler still holds. -/
theorem Resumes.emit (h : Resumes p s) : Resumes p (s.call .emit).1 := by
  obtain ⟨emitted, written, rest, base, rfl, hitems, hbase, himage⟩ := h
  generalize hwrite : Item.writeAll s.assembler.labels s.assembler.shiftsVy s.image
    s.assembler.items.toList = result
  obtain ⟨final, result⟩ := result
  cases result with
  | some e =>
    rw [call_emit_of_refused hwrite]
    -- the items in front of the refused one are written behind those that were
    rw [hitems] at hwrite
    obtain ⟨front, back, rfl, hfront⟩ :=
      Item.exists_written_of_refused ((Item.writeAll_resume himage).symm.trans hwrite)
    refine ⟨emitted, written ++ front, back, base, rfl, ?_, hbase, ?_⟩
    · rw [hitems, List.append_assoc]
    · exact (Item.writeAll_append himage).trans hfront
  | none =>
    rw [call_emit_of_written hwrite]
    rw [hitems] at hwrite
    refine ⟨emitted ++ s.assembler.items, [], [], final, ?_, rfl, ?_, rfl⟩
    · simp only [after, Array.append_empty]
    · rw [Array.toList_append, hitems]
      exact Item.writeAll_parts hbase himage hwrite

/-- One emission of all items writes what the session has written in parts. -/
theorem Resumes.call_emit_eq (h : Resumes p s) (hok : (s.call .emit).2 = .ok notices) :
    call ⟨p, {}⟩ .emit = s.call .emit := by
  obtain ⟨emitted, written, rest, base, rfl, hitems, hbase, himage⟩ := h
  generalize hwrite : Item.writeAll s.assembler.labels s.assembler.shiftsVy s.image
    s.assembler.items.toList = result
  obtain ⟨final, result⟩ := result
  cases result with
  | some e =>
    rw [call_emit_of_refused hwrite] at hok
    cases hok
  | none =>
    rw [call_emit_of_written hwrite]
    rw [hitems] at hwrite
    have hall : Item.writeAll s.assembler.labels s.assembler.shiftsVy {}
        (s.assembler.after emitted).items.toList = (final, none) := by
      rw [after, Array.toList_append, hitems]
      exact Item.writeAll_parts hbase himage hwrite
    exact call_emit_of_written (s := ⟨s.assembler.after emitted, {}⟩) hall

/-! ## Sessions -/

/-- Any calls are taken alike with and without the emissions among them. -/
theorem Resumes.run (h : Resumes p s) (calls : List Call) :
    ∃ q, run ⟨p, {}⟩ (calls.filter (· ≠ .emit)) = ⟨q, {}⟩ ∧ Resumes q (s.run calls) := by
  induction calls generalizing p s with
  | nil => exact ⟨p, rfl, h⟩
  | cons c rest ih =>
    cases c with
    | line text => exact ih (h.line text)
    | emit => exact ih h.emit

/-- Lines and emissions come in any order, refused or not. A name that has a value keeps it; a
refused emission leaves the assembler as it was; and an emission that succeeds leaves the assembler
and the image as if it were the only one, into an empty image behind the same lines. -/
theorem run_emit_eq (a : Assembler) (calls : List Call) :
    (∀ done rest, calls = done ++ rest →
        (run ⟨a, {}⟩ calls).assembler.labels.Extends (run ⟨a, {}⟩ done).assembler.labels) ∧
      (∀ e, ((run ⟨a, {}⟩ calls).call .emit).2 = .error e →
        ((run ⟨a, {}⟩ calls).call .emit).1.assembler = (run ⟨a, {}⟩ calls).assembler) ∧
      ∀ notices, ((run ⟨a, {}⟩ calls).call .emit).2 = .ok notices →
        (run ⟨a, {}⟩ (calls.filter (· ≠ .emit))).call .emit = (run ⟨a, {}⟩ calls).call .emit := by
  refine ⟨?_, ?_, ?_⟩
  · rintro done rest rfl
    have happend : run ⟨a, {}⟩ (done ++ rest) = run (run ⟨a, {}⟩ done) rest := List.foldl_append
    rw [happend]
    exact run_extends _ rest
  · intro e
    exact assembler_of_refused
  · intro notices hok
    obtain ⟨p, hlines, hresumes⟩ := (resumes_start a).run calls
    rw [hlines]
    exact hresumes.call_emit_eq hok

/-- A second jump is refused at first, for a label that it needs and that is still to come. -/
theorem run_emit_eq_refusedOnce :
    let calls := [.line "a: JP a", .line "JP b", .emit, .line "b: RET"]
    ((run ⟨{}, {}⟩ (calls.take 2)).call .emit).2 =
        .error ⟨2, .operand "b" (.unknownName "b")⟩ ∧
      ((run ⟨{}, {}⟩ calls).call .emit).2 = .ok [.emitted 6] ∧
      (run ⟨{}, {}⟩ [.line "a: JP a", .line "JP b", .line "b: RET"]).call .emit =
        (run ⟨{}, {}⟩ calls).call .emit := by
  intro calls
  have hrefused : ((run ⟨{}, {}⟩ (calls.take 2)).call .emit).2 =
      .error ⟨2, .operand "b" (.unknownName "b")⟩ := by decide +kernel
  have hok : ((run ⟨{}, {}⟩ calls).call .emit).2 = .ok [.emitted 6] := by decide +kernel
  obtain ⟨-, -, hsame⟩ := run_emit_eq {} calls
  exact ⟨hrefused, hok, hsame _ hok⟩

end Assembly

end SuperChip
