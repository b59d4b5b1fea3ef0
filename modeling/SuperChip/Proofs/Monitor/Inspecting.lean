import Mathlib.Data.List.Basic
import SuperChip.Proofs.Bytes
import SuperChip.Proofs.Monitor.Stepping
import SuperChip.Proofs.Text.Digits

/-!
# Looking at a machine under the monitor

The commands that show registers, memory, instructions, keys and breakpoints leave the machine as it
is. The rows of a dump follow one another without a gap, so that what they show, read back row by
row, is the stretch of memory that was asked for (`shownNumbers_dumpLines`). A listing ends at the
end of memory, but nothing stops it from a start too far in front of memory: there it meets no byte
(`fault_listingLines`). The commands fail in no other way (`answer_inspects`).
-/

set_option autoImplicit false

namespace SuperChip

/-- Only the first byte of a word can be missing. -/
theorem Machine.wordAt?_eq_none_iff {m : Machine} (hsize : m.memory.size = memorySize) (a : Int) :
    m.wordAt? a = none ↔ a < -memorySize ∨ (memorySize : Int) ≤ a := by
  have hsecond : m.memory.at? ((a + 1) % memorySize) ≠ none := by
    have hrange : 0 ≤ (a + 1) % memorySize ∧ (a + 1) % memorySize < memorySize := by
      unfold memorySize
      omega
    rw [Ne, Cells.at?_eq_none_iff, hsize]
    omega
  rw [← hsize, ← Cells.at?_eq_none_iff, wordAt?]
  obtain ⟨low, hlow⟩ := Option.ne_none_iff_exists'.mp hsecond
  rw [hlow]
  cases m.memory.at? a <;> simp

namespace Monitor

/-! ## Dumps -/

/-- The numbers that a row of a dump shows: the hexadecimal numerals behind the colon. -/
def shownNumbers (line : String) : List Nat :=
  (((line.toList.dropWhile (· != ':')).drop 2).splitOn ' ').map (Text.ofDigits 16)

variable {memory : Bytes} {a s : Nat}

/-- The rows of a dump of the bytes from `a` on up to `s`. -/
def dumpRows (a s : Nat) : Nat := (s - a + dumpWidth - 1) / dumpWidth

/-- The first elements of a list are those of its rows, one after the other. -/
theorem take_eq_flatMap {α : Type} (xs : List α) (width n : Nat) :
    (List.range n).flatMap (fun k => (xs.drop (width * k)).take width) = xs.take (width * n) := by
  induction n with
  | zero => simp
  | succ n ih =>
    rw [List.range_succ, List.flatMap_append, ih, Nat.mul_succ, List.take_add]
    simp

/-- A row shows the bytes that it is made of, if there are any. -/
theorem shownNumbers_row (row : Nat) {data : List UInt8} (hdata : data ≠ []) :
    shownNumbers
        ("  " ++ Text.hex 3 row ++ ": " ++ String.intercalate " " (data.map Text.hexByte)) =
      data.map UInt8.toNat := by
  have haddress : ∀ c ∈ ' ' :: ' ' :: (Text.hex 3 row).toList, (c != ':') = true := by
    simp only [List.mem_cons]
    rintro c (rfl | rfl | hc)
    · rfl
    · rfl
    · refine bne_iff_ne.mpr fun hcolon => ?_
      rw [hcolon] at hc
      exact absurd (Text.isHexDigit_of_mem_hex hc) (by decide)
  have hspace : ∀ digits ∈ (data.map Text.hexByte).map String.toList, ' ' ∉ digits := by
    simp only [List.map_map, List.mem_map, Function.comp_apply]
    rintro _ ⟨b, -, rfl⟩ hmem
    exact absurd (Text.isHexDigit_of_mem_hexByte hmem) (by decide)
  have hnumbers : ((data.map Text.hexByte).map String.toList).map (Text.ofDigits 16) =
      data.map UInt8.toNat := by
    simp [Text.ofDigits_hexByte]
  have htext : ("  " ++ Text.hex 3 row ++ ": " ++
      String.intercalate " " (data.map Text.hexByte)).toList =
        ' ' :: ' ' :: (Text.hex 3 row).toList ++
          ':' :: ' ' :: [' '].intercalate ((data.map Text.hexByte).map String.toList) := by
    simp [String.toList_intercalate]
  rw [shownNumbers, htext, Text.dropWhile_append_stops haddress (by simp [Text.Stops]),
    List.drop_succ_cons, List.drop_succ_cons, List.drop_zero,
    List.splitOn_intercalate ' ' hspace (by simpa using hdata), hnumbers]

/-- The row of a dump that shows the bytes from `row` on; the dump stops at `s`. -/
theorem dumpLine_eq (hs : s ≤ memory.size) {row : Nat} (hrow : row < s) :
    dumpLine memory row s =
      "  " ++ Text.hex 3 row ++ ": " ++ String.intercalate " "
        (((memory.toList.drop row).take (min dumpWidth (s - row))).map Text.hexByte) := by
  have hstop : min ((row : Int) + dumpWidth) s = (min (row + dumpWidth) s : Nat) := by omega
  have hlength : min (row + dumpWidth) s - row = min dumpWidth (s - row) := by omega
  rw [dumpLine, hstop, Cells.slice, Cells.bound_natCast (by omega), Cells.bound_natCast (by omega),
    Array.toList_extract, List.extract_eq_take_drop, hlength]

/-- A line of a dump shows the bytes of its row, as far as the range goes. -/
theorem shownNumbers_dumpLine (hs : s ≤ memory.size) {row : Nat} (hrow : row < s) :
    shownNumbers (dumpLine memory row s) =
      ((memory.toList.drop row).take (min dumpWidth (s - row))).map UInt8.toNat := by
  have hdata : (memory.toList.drop row).take (min dumpWidth (s - row)) ≠ [] := by
    refine List.ne_nil_of_length_pos ?_
    rw [List.length_take, List.length_drop, Array.length_toList, dumpWidth]
    omega
  rw [dumpLine_eq hs hrow, shownNumbers_row row hdata]

/-- What a dump shows is what there is in memory, from its first address on up to where it stops. -/
theorem shownNumbers_dumpLines (hs : s ≤ memory.size) :
    (dumpLines memory a s).flatMap shownNumbers =
      (memory.extract a s).toList.map UInt8.toNat := by
  have hrows : (((s : Int) - a + dumpWidth - 1) / dumpWidth).toNat = dumpRows a s := by
    unfold dumpRows dumpWidth
    omega
  have hrow : ∀ k ∈ List.range (dumpRows a s),
      shownNumbers (dumpLine memory ((a : Int) + dumpWidth * k) s) =
        (((memory.extract a s).toList.drop (dumpWidth * k)).take dumpWidth).map UInt8.toNat := by
    intro k hk
    have hlt : a + dumpWidth * k < s := by
      rw [List.mem_range, dumpRows] at hk
      unfold dumpWidth at hk ⊢
      omega
    rw [show (a : Int) + dumpWidth * k = (a + dumpWidth * k : Nat) by simp,
      shownNumbers_dumpLine hs hlt, Array.toList_extract, List.extract_eq_take_drop,
      List.drop_take, List.take_take, List.drop_drop, Nat.sub_sub]
  have hall : (memory.extract a s).toList.length ≤ dumpWidth * dumpRows a s := by
    rw [Array.length_toList, Array.size_extract, dumpRows, dumpWidth]
    omega
  rw [dumpLines, hrows, List.flatMap_map, List.flatMap_congr hrow, ← List.map_flatMap,
    take_eq_flatMap, List.take_of_length_le hall]

/-! ## Listings -/

/-- A listing fails when it starts in front of all addresses that are counted from the end. -/
theorem fault_listingLines {b : Board} (hsize : b.machine.memory.size = memorySize) (address : Int)
    (shown : Array String) (n : Nat) :
    (listingLines b address shown n).2 =
      if address < -memorySize ∧ 0 < n then some .noSuchByte else none := by
  induction n generalizing address shown with
  | zero => simp [listingLines]
  | succ n ih =>
    rw [listingLines]
    by_cases hend : (memorySize : Int) ≤ address + 1
    · have hin : ¬(address < -memorySize ∧ 0 < n + 1) := by
        unfold memorySize at hend ⊢
        omega
      rw [if_pos hend, if_neg hin]
    · rw [if_neg hend]
      by_cases hfront : address < -memorySize
      · rw [(Machine.wordAt?_eq_none_iff hsize address).mpr (.inl hfront)]
        simp [hfront]
      · have hword : b.machine.wordAt? address ≠ none := by
          rw [Ne, Machine.wordAt?_eq_none_iff hsize]
          omega
        obtain ⟨word, hword⟩ := Option.ne_none_iff_exists'.mp hword
        -- the listing goes on behind the word, and so does not come in front of memory
        have hnext : ¬(address + 2 < -memorySize ∧ 0 < n) := by omega
        rw [hword, ih, if_neg hnext, if_neg fun h => hfront h.1]

/-! ## What is asked for -/

/-- The address and the number of bytes that an argument asks a dump for. -/
def dumpRange (machine : Machine) (argument : String) : Except Complaint (Option (Int × Int)) := do
  match ← readWords argument with
  | [] => return none
  | first :: rest =>
    let address ← readAddress machine first
    let count ← match rest with
      | text :: _ => readCount text
      | [] => pure defaultDump
    return some (address, count)

/-- The address and the number of instructions that an argument asks a listing for. -/
def listingRange (machine : Machine) (argument : String) : Except Complaint (Int × Int) := do
  let words ← readWords argument
  let address ← match words with
    | text :: _ => readAddress machine text
    | [] => pure machine.pc
  let count ← match words with
    | _ :: text :: _ => readCount text
    | _ => pure defaultListing
  return (address, count)

/-- The commands that only look at the machine. -/
def Inspects : Verb → String → Prop
  | .registers, _ | .dump, _ | .disassemble, _ | .setBreakpoint, _ => True
  | .key, argument => argument = ""
  | _, _ => False

/-- Whether a command asks for a listing from an address that is too far in front of memory. -/
def listsOutside (machine : Machine) (verb : Verb) (argument : String) : Bool :=
  verb = .disassemble && match listingRange machine argument with
    | .ok (address, count) => address < -memorySize && 0 < count
    | .error _ => false

section Command

variable {m : Monitor} {line argument : String} {verb : Verb}

/-- A dump tells its usage, or shows the lines of its range. -/
theorem dump_eq (m : Monitor) (argument : String) :
    m.dump argument = (dumpRange m.board.machine argument).map fun
      | none => m.tells "Usage: dump <address> [count]"
      | some (address, count) =>
        { monitor := m
          lines :=
            dumpLines m.board.machine.memory address (min (address + count) memorySize) } := by
  unfold dump dumpRange
  cases readWords argument with
  | error c => rfl
  | ok words =>
    match words with
    | [] => rfl
    | first :: rest =>
      dsimp only [bind, Except.bind]
      cases readAddress m.board.machine first with
      | error c => rfl
      | ok address =>
        cases rest with
        | nil => rfl
        | cons text rest =>
          dsimp only
          cases readCount text <;> rfl

/-- A listing shows the lines of its range, and ends where memory does. -/
theorem disassemble_eq (m : Monitor) (argument : String) :
    m.disassemble argument = (listingRange m.board.machine argument).map fun (address, count) =>
      let (shown, fault) := listingLines m.board address #[] count.toNat
      { monitor := m
        lines := shown.toList
        verdict := match fault with | some cause => .fault cause | none => .goesOn } := by
  unfold disassemble listingRange
  cases readWords argument with
  | error c => rfl
  | ok words =>
    cases words with
    | nil => rfl
    | cons first rest =>
      dsimp only [bind, Except.bind]
      cases readAddress m.board.machine first with
      | error c => rfl
      | ok address =>
        cases rest with
        | nil => rfl
        | cons text rest =>
          dsimp only
          cases readCount text <;> rfl

/-- A command that is obeyed is answered with its reply. -/
theorem answer_of_ok {reply : Reply} (hparse : Input.parse line = .command verb argument)
    (hobey : m.obey verb argument = .ok reply) : m.answer line = reply := by
  simp only [answer, hparse, hobey]

/-- A command that fails is answered with an error. -/
theorem answer_of_error {complaint : Complaint} (hparse : Input.parse line = .command verb argument)
    (hobey : m.obey verb argument = .error complaint) :
    m.answer line = m.tells ("Error: " ++ complaint.message) := by
  simp only [answer, hparse, hobey]

/-- A listing changes nothing, and fails just when it goes outside memory. -/
theorem answer_disassemble (hsize : m.board.machine.memory.size = memorySize)
    (hparse : Input.parse line = .command .disassemble argument) :
    (m.answer line).monitor = m ∧
      (m.answer line).verdict =
        if listsOutside m.board.machine .disassemble argument then .fault .noSuchByte
        else .goesOn := by
  have hobey : m.obey .disassemble argument = _ := disassemble_eq m argument
  cases hrange : listingRange m.board.machine argument with
  | error complaint =>
    rw [hrange] at hobey
    rw [answer_of_error hparse hobey]
    simp [tells, listsOutside, hrange]
  | ok range =>
    obtain ⟨address, count⟩ := range
    have hfault := fault_listingLines (b := m.board) hsize address #[] count.toNat
    rw [hrange] at hobey
    rw [answer_of_ok hparse hobey]
    simp only [Int.lt_toNat, Int.natCast_zero] at hfault
    by_cases hout : address < -memorySize ∧ 0 < count
    · simp [listsOutside, hrange, hfault, hout]
    · simp [listsOutside, hrange, hfault, hout]

/-- Everything but a listing goes on. -/
theorem answer_of_inspects (hparse : Input.parse line = .command verb argument)
    (hverb : Inspects verb argument) (hlisting : verb ≠ .disassemble) :
    (m.answer line).monitor.board = m.board ∧ (m.answer line).verdict = .goesOn := by
  cases hobey : m.obey verb argument with
  | error complaint =>
    rw [answer_of_error hparse hobey]
    exact ⟨rfl, rfl⟩
  | ok reply =>
    rw [answer_of_ok hparse hobey]
    cases verb with
    | registers =>
      cases hobey
      exact ⟨rfl, rfl⟩
    | dump =>
      rw [obey, dump_eq] at hobey
      rcases hrange : dumpRange m.board.machine argument with complaint | _ | ⟨address, count⟩
      all_goals
        rw [hrange] at hobey
        cases hobey
      all_goals exact ⟨rfl, rfl⟩
    | setBreakpoint =>
      rw [obey, setBreakpoint] at hobey
      by_cases hshows : argument.isEmpty
      · rw [if_pos hshows] at hobey
        cases hobey
        exact ⟨rfl, rfl⟩
      · rw [if_neg hshows] at hobey
        cases haddress : readAddress m.board.machine argument with
        | error complaint =>
          rw [haddress] at hobey
          cases hobey
        | ok address =>
          rw [haddress] at hobey
          cases hobey
          exact ⟨rfl, rfl⟩
    | key =>
      cases hverb
      cases hobey
      exact ⟨rfl, rfl⟩
    | disassemble => exact absurd rfl hlisting
    | load | assemble | reset | step | run | clearBreakpoint | help | quit | endInput => cases hverb

/-- The lines of a dump show the bytes of its range, as far as memory goes. -/
theorem lines_of_dump (hsize : m.board.machine.memory.size = memorySize)
    (hparse : Input.parse line = .command .dump argument) {address count : Int}
    (hrange : dumpRange m.board.machine argument = .ok (some (address, count)))
    (haddress : 0 ≤ address) :
    (m.answer line).lines.flatMap shownNumbers =
      (m.board.machine.memory.extract address.toNat
        (min (address + count) memorySize).toNat).toList.map UInt8.toNat := by
  have hobey : m.obey .dump argument = _ := dump_eq m argument
  rw [hrange] at hobey
  obtain ⟨a, rfl⟩ := Int.eq_ofNat_of_zero_le haddress
  rw [answer_of_ok hparse hobey]
  dsimp only
  by_cases hstop : 0 ≤ min ((a : Int) + count) memorySize
  · obtain ⟨s, hs⟩ := Int.eq_ofNat_of_zero_le hstop
    rw [hs, shownNumbers_dumpLines (by omega), Int.toNat_natCast, Int.toNat_natCast]
  · -- a dump that stops in front of memory has no rows
    have hneg := Int.not_le.mp hstop
    generalize min ((a : Int) + count) memorySize = stop at hneg ⊢
    have hrows : ((stop - a + dumpWidth - 1) / dumpWidth).toNat = 0 := by
      unfold dumpWidth
      omega
    rw [dumpLines, hrows, Int.toNat_eq_zero.mpr (Int.le_of_lt hneg)]
    simp

/-- What a command does that only looks at the machine, whatever its argument. The board stays as it
is. The command goes on, unless it is a listing from an address too far in front of memory; there it
finds no byte, and that is a fault. A dump from an address on shows the bytes of memory from there
on, each once and in order, up to as many as it is told or to the end of memory. -/
theorem answer_inspects (h : m.board.machine.WellFormed)
    (hparse : Input.parse line = .command verb argument) (hverb : Inspects verb argument) :
    (m.answer line).monitor.board = m.board ∧
      (m.answer line).verdict =
        (if listsOutside m.board.machine verb argument then .fault .noSuchByte else .goesOn) ∧
      ∀ address count, verb = .dump →
        dumpRange m.board.machine argument = .ok (some (address, count)) → 0 ≤ address →
          (m.answer line).lines.flatMap shownNumbers =
            (m.board.machine.memory.extract address.toNat
              (min (address + count) memorySize).toNat).toList.map UInt8.toNat := by
  by_cases hlisting : verb = .disassemble
  · subst hlisting
    obtain ⟨hmonitor, hverdict⟩ := answer_disassemble h.memory_size hparse
    exact ⟨congrArg board hmonitor, hverdict, fun _ _ hdump => nomatch hdump⟩
  · obtain ⟨hboard, hverdict⟩ := answer_of_inspects hparse hverb hlisting
    refine ⟨hboard, by simpa [listsOutside, hlisting] using hverdict, ?_⟩
    rintro address count rfl hrange haddress
    exact lines_of_dump h.memory_size hparse hrange haddress

end Command

/-- Two bytes from the start of the program. -/
theorem dumpRange_program (machine : Machine) :
    dumpRange machine "#200 2" = .ok (some (0x200, 2)) := by
  have hwords : readWords "#200 2" = .ok ["#200", "2"] := by cbv
  have hname : Text.lower (trimmed "#200") = "#200" := by decide +kernel
  have hnumeral : readNumeral 16 "200" = .ok 0x200 := by rfl
  have hcount : readCount "2" = .ok 2 := by rfl
  have haddress : readAddress machine "#200" = .ok 0x200 := by
    simp [readAddress, hname, hnumeral]
  simp [dumpRange, hwords, haddress, hcount, bind, Except.bind, pure, Except.pure]

/-- The first two bytes of a program are dumped, and nothing changes. -/
theorem answer_inspects_dump : ∃ m₀,
    (Machine.powerOn 0).load jumpToEnd programStart = .ok m₀ ∧ m₀.WellFormed ∧
      Input.parse "dump #200 2" = .command .dump "#200 2" ∧ Inspects .dump "#200 2" ∧
      dumpRange m₀ "#200 2" = .ok (some (0x200, 2)) ∧
      ((untimed m₀).answer "dump #200 2").monitor.board = (untimed m₀).board ∧
      ((untimed m₀).answer "dump #200 2").verdict = .goesOn ∧
      ((untimed m₀).answer "dump #200 2").lines.flatMap shownNumbers =
        (m₀.memory.extract 0x200 0x202).toList.map UInt8.toNat := by
  obtain ⟨m₀, hload, hm₀⟩ := exists_load_jumpToEnd
  have hparse : Input.parse "dump #200 2" = .command .dump "#200 2" := by decide +kernel
  obtain ⟨hboard, hverdict, hshown⟩ :=
    answer_inspects (m := untimed m₀) hm₀ hparse (show Inspects .dump "#200 2" from trivial)
  have hlisting : listsOutside (untimed m₀).board.machine .dump "#200 2" = false := by
    simp [listsOutside]
  rw [hlisting, if_neg Bool.false_ne_true] at hverdict
  exact ⟨m₀, hload, hm₀, hparse, trivial, dumpRange_program m₀, hboard, hverdict,
    hshown 0x200 2 rfl (dumpRange_program m₀) (by decide)⟩

/-- A listing that starts too far in front of memory is a fault. -/
theorem disassemble_faults : ∃ m₀,
    (Machine.powerOn 0).load jumpToEnd programStart = .ok m₀ ∧
      Input.parse "disasm -5000 1" = .command .disassemble "-5000 1" ∧
      Inspects .disassemble "-5000 1" ∧
      ((untimed m₀).answer "disasm -5000 1").verdict = .fault .noSuchByte := by
  obtain ⟨m₀, hload, hm₀⟩ := exists_load_jumpToEnd
  have hparse : Input.parse "disasm -5000 1" = .command .disassemble "-5000 1" := by
    decide +kernel
  have hwords : readWords "-5000 1" = .ok ["-5000", "1"] := by cbv
  have hname : Text.lower (trimmed "-5000") = "-5000" := by decide +kernel
  have hnumeral : readNumeral 0 "-5000" = .ok (-5000) := by rfl
  have hcount : readCount "1" = .ok 1 := by rfl
  have haddress : readAddress m₀ "-5000" = .ok (-5000) := by simp [readAddress, hname, hnumeral]
  have hrange : listingRange m₀ "-5000 1" = .ok (-5000, 1) := by
    simp [listingRange, hwords, haddress, hcount, bind, Except.bind, pure, Except.pure]
  have houtside : listsOutside m₀ .disassemble "-5000 1" = true := by
    simp [listsOutside, hrange, memorySize]
  obtain ⟨-, hverdict⟩ := answer_disassemble (m := untimed m₀) hm₀.memory_size hparse
  exact ⟨m₀, hload, hparse, trivial, hverdict.trans (if_pos houtside)⟩

end Monitor
end SuperChip
