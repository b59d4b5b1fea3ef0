import Mathlib.Data.List.Nodup
import SuperChip.Asm.Emit
import SuperChip.Proofs.Asm.Change

/-!
# Layout of lines that hold a word each

Where every line of a source puts one word into the program, the word of line `k` stands `2 k` bytes
behind the start, and its label, if it has one, has that address as its value. `laid` is the state
of the assembler after such lines; `processLines_laid` says that it is reached, as long as no label
occurs twice, and `processLines_refused` that a line that is refused stops the assembler.
-/

set_option autoImplicit false

namespace SuperChip

/-- A line that puts a word into the program. -/
structure WordLine where
  text : String
  label : Option String
  /-- What the line puts there, as an item and its operands, or why it is refused. -/
  outcome : Except AsmCause (ItemKind × List String)

namespace WordLine

/-- What a line does to an assembler. -/
def effect (l : WordLine) : Assembler.Change (List AsmNotice) := do
  modify fun a => { a with pending := l.label }
  match l.outcome with
  | .ok (kind, operands) => do
    let a ← get
    Assembler.record kind a.address operands
    return []
  | .error cause => throw cause

/-- The text of a line does what the line is to do wherever lines are processed and no label
waits. -/
structure Reads (shiftsVy : Bool) (l : WordLine) : Prop where
  size : ∀ kind operands, l.outcome = .ok (kind, operands) → kind.size = 2
  take : ∀ a : Assembler, a.shiftsVy = shiftsVy → a.active = true → a.pending = none →
    a.address % 2 = 0 → Assembler.take (.parse l.text) a = l.effect a

/-- The labels of lines. -/
def names (lines : List WordLine) : List String := lines.filterMap label

/-- The address of the word of line `k`. -/
def addressOf (k : Nat) : Int := programStart + 2 * k

/-- The label table of lines, the newest label first. -/
def table (lines : List WordLine) : Labels :=
  ⟨(lines.zipIdx.filterMap fun x => x.1.label.map fun name => (name, addressOf x.2)).reverse⟩

/-- The item of line `k`. -/
def item? (l : WordLine) (k : Nat) : Option Item :=
  match l.outcome with
  | .ok (kind, operands) => some { kind, address := addressOf k, line := (k : Int) + 1, operands }
  | .error _ => none

/-- The items of lines. -/
def items (lines : List WordLine) : List Item := lines.zipIdx.filterMap fun x => x.1.item? x.2

/-- The assembler after lines. -/
def laid (shiftsVy : Bool) (lines : List WordLine) : Assembler where
  shiftsVy := shiftsVy
  labels := table lines
  items := (items lines).toArray
  address := addressOf lines.length
  line := lines.length

section Table

variable {lines : List WordLine}

/-- The label of one more line is bound to the address of that line. -/
theorem table_concat (lines : List WordLine) (l : WordLine) :
    table (lines ++ [l]) = match l.label with
      | none => table lines
      | some name => (table lines).insert name (addressOf lines.length) := by
  unfold table
  rw [List.zipIdx_append, List.filterMap_append, List.reverse_append]
  cases hlabel : l.label with
  | none => simp [hlabel]
  | some name => simp [hlabel, Labels.insert]

/-- One more line leaves one item more, if any. -/
theorem items_concat (lines : List WordLine) (l : WordLine) :
    items (lines ++ [l]) = items lines ++ (l.item? lines.length).toList := by
  unfold items
  rw [List.zipIdx_append, List.filterMap_append]
  cases hitem : l.item? lines.length <;> simp [hitem]

/-- A name is bound exactly to the addresses of the lines that it labels. -/
theorem mem_table_iff {name : String} {v : Int} :
    (name, v) ∈ (table lines).entries ↔
      ∃ (k : Nat) (l : WordLine), lines[k]? = some l ∧ l.label = some name ∧ v = addressOf k := by
  unfold table
  rw [List.mem_reverse, List.mem_filterMap]
  simp only [List.mem_zipIdx_iff_getElem?, Prod.exists, Option.map_eq_some_iff, Prod.mk.injEq]
  constructor
  · rintro ⟨l, k, hl, n, hn, rfl, rfl⟩
    exact ⟨k, l, hl, hn, rfl⟩
  · rintro ⟨k, l, hl, hn, rfl⟩
    exact ⟨l, k, hl, name, hn, rfl, rfl⟩

/-- A name that labels no line has no value. -/
theorem find?_table_eq_none {name : String} (h : name ∉ names lines) :
    (table lines).find? name = none := by
  unfold Labels.find?
  rw [List.lookup_eq_none_iff]
  rintro ⟨n, v⟩ hmem
  obtain ⟨k, l, hl, hn, rfl⟩ := mem_table_iff.1 hmem
  rw [bne_iff_ne]
  rintro rfl
  exact h (List.mem_filterMap.2 ⟨l, List.mem_of_getElem? hl, hn⟩)

/-- The bound names are those of the lines, the last first. -/
theorem map_fst_table (lines : List WordLine) :
    (table lines).entries.map Prod.fst = (names lines).reverse := by
  unfold table names
  rw [List.map_reverse, List.map_filterMap]
  conv_rhs => rw [← List.zipIdx_map_fst 0 lines, List.filterMap_map]
  congr 2
  funext x
  change Option.map Prod.fst (x.1.label.map fun name => (name, addressOf x.2)) = x.1.label
  cases x.1.label <;> rfl

/-- A label has the address of its line as its value, if it occurs only once. -/
theorem find?_table {name : String} {k : Nat} {l : WordLine} (hnodup : (names lines).Nodup)
    (hl : lines[k]? = some l) (hname : l.label = some name) :
    (table lines).find? name = some (addressOf k) := by
  have hmem : (name, addressOf k) ∈ (table lines).entries := mem_table_iff.2 ⟨k, l, hl, hname, rfl⟩
  have hkeys : ((table lines).entries.map Prod.fst).Nodup := by
    rw [map_fst_table, List.nodup_reverse]
    exact hnodup
  unfold Labels.find?
  generalize (table lines).entries = entries at hmem hkeys
  induction entries with
  | nil => cases hmem
  | cons e entries ih =>
    obtain ⟨n, v⟩ := e
    rw [List.map_cons, List.nodup_cons] at hkeys
    obtain heq | htail := List.mem_cons.1 hmem
    · cases heq
      rw [List.lookup_cons_self]
    · have hne : name ≠ n := by
        rintro rfl
        exact hkeys.1 (List.mem_map.2 ⟨_, htail, rfl⟩)
      rw [List.lookup_cons, beq_eq_false_iff_ne.2 hne]
      exact ih htail hkeys.2

end Table

/-! ## Lines one by one -/

section Lines

variable {shiftsVy : Bool} {done : List WordLine} {l : WordLine}

/-- Words stand at even addresses. -/
theorem addressOf_even (k : Nat) : addressOf k % 2 = 0 := by
  simp only [addressOf, programStart]
  omega

/-- The next word stands two bytes further on. -/
theorem addressOf_succ (k : Nat) : addressOf (k + 1) = addressOf k + 2 := by
  simp only [addressOf]
  omega

/-- One more line does its effect on the assembler after the lines before it. -/
theorem Reads.processLine_laid (h : l.Reads shiftsVy) :
    (laid shiftsVy done).processLine l.text =
      match l.effect { laid shiftsVy done with line := done.length + 1 } with
      | .ok notices next => (next, .ok notices)
      | .error cause left =>
        (if cause.isRefusal then { left with pending := none } else left,
          .error ⟨left.line, cause⟩) := by
  unfold Assembler.processLine
  rw [h.take _ rfl rfl rfl (addressOf_even _)]
  rfl

/-- A line with an item and a new label binds the label to the item and records it. -/
theorem effect_ok {kind : ItemKind} {operands : List String}
    (hok : l.outcome = .ok (kind, operands)) {a : Assembler}
    (hfree : ∀ name ∈ l.label, a.labels.contains name = false) :
    l.effect a =
      .ok [] (Assembler.recorded { a with pending := l.label } kind a.address operands) := by
  have hfree' : Assembler.PendingFree { a with pending := l.label } := hfree
  rw [effect, EState.modify_bind, hok]
  exact EState.bind_of_ok (Assembler.record_of_free hfree' kind a.address operands)

/-- A line with a word and a new label is laid behind the others. -/
theorem Reads.processLine_ok (h : l.Reads shiftsVy) {kind : ItemKind} {operands : List String}
    (hok : l.outcome = .ok (kind, operands)) (hfresh : ∀ name ∈ l.label, name ∉ names done) :
    (laid shiftsVy done).processLine l.text = (laid shiftsVy (done ++ [l]), .ok []) := by
  have hsize : kind.size = 2 := h.size kind operands hok
  have hnext : laid shiftsVy (done ++ [l]) =
      { laid shiftsVy done with
        labels := table (done ++ [l])
        items := (laid shiftsVy done).items.push
          { kind, address := addressOf done.length, line := done.length + 1, operands }
        address := addressOf done.length + kind.size
        line := done.length + 1 } := by
    unfold laid
    rw [items_concat, item?, hok, hsize]
    simp [addressOf_succ]
  have hfree : ∀ name ∈ l.label, (table done).contains name = false := by
    intro name hname
    rw [Labels.contains, find?_table_eq_none (hfresh name hname)]
    rfl
  rw [h.processLine_laid, effect_ok hok hfree, hnext, table_concat]
  cases l.label <;> rfl

/-- A line that is refused tells its number and the cause. -/
theorem Reads.processLine_error (h : l.Reads shiftsVy) (done : List WordLine) {cause : AsmCause}
    (herror : l.outcome = .error cause) :
    ((laid shiftsVy done).processLine l.text).2 = .error ⟨done.length + 1, cause⟩ := by
  rw [h.processLine_laid, effect, EState.modify_bind, herror]
  rfl

/-- The names of lines are those of the first ones, then those of the others. -/
theorem names_append (done rest : List WordLine) :
    names (done ++ rest) = names done ++ names rest :=
  List.filterMap_append

/-- The label of the next line is none of the labels before it. -/
theorem fresh_of_nodup {rest : List WordLine} (hnodup : (names (done ++ l :: rest)).Nodup) :
    ∀ name ∈ l.label, name ∉ names done := by
  intro name hname hmem
  rw [names_append] at hnodup
  refine (List.nodup_append.1 hnodup).2.2 name hmem name ?_ rfl
  exact List.mem_filterMap.2 ⟨l, .head _, hname⟩

end Lines

/-! ## All lines -/

section Run

variable {shiftsVy : Bool} {done rest : List WordLine}

/-- Lines that are not refused are laid one behind the other. -/
theorem processLines_laid (hreads : ∀ l ∈ rest, l.Reads shiftsVy)
    (hok : ∀ l ∈ rest, ∃ item, l.outcome = .ok item) (hnodup : (names (done ++ rest)).Nodup) :
    (laid shiftsVy done).processLines [] (rest.map text) =
      (laid shiftsVy (done ++ rest), [], none) := by
  induction rest generalizing done with
  | nil => rw [List.append_nil]; rfl
  | cons l rest ih =>
    obtain ⟨⟨kind, operands⟩, hkind⟩ := hok l (.head _)
    have hline := (hreads l (.head _)).processLine_ok hkind (fresh_of_nodup hnodup)
    have hnodup' : (names ((done ++ [l]) ++ rest)).Nodup := by rwa [List.append_assoc]
    have hrest := ih (fun l h => hreads l (.tail _ h)) (fun l h => hok l (.tail _ h)) hnodup'
    rw [List.map_cons, Assembler.processLines, hline]
    rw [List.append_assoc] at hrest
    exact hrest

/-- If a line is refused, so is the source, with the cause of one of its lines. -/
theorem processLines_refused (hreads : ∀ l ∈ rest, l.Reads shiftsVy)
    (hbad : ∃ l ∈ rest, ∃ cause, l.outcome = .error cause) (hnodup : (names (done ++ rest)).Nodup) :
    ∃ a notices e, (laid shiftsVy done).processLines [] (rest.map text) = (a, notices, some e) ∧
      ∃ l ∈ rest, l.outcome = .error e.cause := by
  induction rest generalizing done with
  | nil =>
    obtain ⟨l, hl, -⟩ := hbad
    cases hl
  | cons l rest ih =>
    have hl := hreads l (.head _)
    rw [List.map_cons, Assembler.processLines]
    cases houtcome : l.outcome with
    | error cause =>
      have herror := hl.processLine_error done houtcome
      generalize (laid shiftsVy done).processLine l.text = result at herror
      obtain ⟨a, result⟩ := result
      cases herror
      exact ⟨a, [], _, rfl, l, .head _, houtcome⟩
    | ok item =>
      have hbad' : ∃ l ∈ rest, ∃ cause, l.outcome = .error cause := by
        obtain ⟨cause, hcause⟩ | hrest := (List.exists_mem_cons_iff _ l rest).1 hbad
        · rw [houtcome] at hcause
          cases hcause
        · exact hrest
      -- the line is laid behind those before it, and the induction goes on from there
      have hnodup' : (names ((done ++ [l]) ++ rest)).Nodup := by rwa [List.append_assoc]
      obtain ⟨a, notices, e, hrun, m, hm, hcause⟩ :=
        ih (fun l h => hreads l (.tail _ h)) hbad' hnodup'
      rw [hl.processLine_ok houtcome (fresh_of_nodup hnodup)]
      exact ⟨a, notices, e, hrun, m, .tail _ hm, hcause⟩

/-- Lines that are not refused have an item each. -/
theorem map_some_items {lines : List WordLine} (hok : ∀ l ∈ lines, ∃ item, l.outcome = .ok item) :
    (items lines).map some = lines.zipIdx.map fun x => x.1.item? x.2 := by
  have hsome : ∀ x ∈ lines.zipIdx, ∃ item, x.1.item? x.2 = some item := by
    intro x hx
    obtain ⟨⟨kind, operands⟩, houtcome⟩ := hok x.1 (List.fst_mem_of_mem_zipIdx hx)
    exact ⟨_, by rw [item?, houtcome]⟩
  unfold items
  generalize lines.zipIdx = pairs at hsome
  induction pairs with
  | nil => rfl
  | cons x pairs ih =>
    obtain ⟨item, hitem⟩ := hsome x (.head _)
    simp only [List.filterMap_cons, List.map_cons, hitem]
    rw [ih fun y hy => hsome y (.tail _ hy)]

end Run

end WordLine

end SuperChip
