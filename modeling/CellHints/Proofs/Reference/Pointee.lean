import CellHints.Hint.Operands
import CellHints.Proofs.Reference.Cut
import CellHints.Proofs.Reference.Interpretation

/-!
# Brackets around a cast

A bracketed cast names the cell that the cast itself points to, on every
machine.  It is found by the shape of what the cast denotes and NOT by reading
memory, so the two sides are compared through the address that one of them names
and the other one holds.
-/

namespace CellHints

/-- Whether a fault says that a reference means nothing there, whatever the memory holds. -/
def Fault.IsUnresolvable : Fault → Prop
  | noAddress _ | unsupportedOperands _ => True
  | _ => False

/-- A shift by a 16-bit distance is a shift by its residue. -/
theorem Address.addFelt_eq_shift {x : Felt} {w : Int16} (h : x.toInt16? = some w) (a : Address) :
    a.addFelt x = a.shift w.toInt := by
  have hsigned : w.toInt = x.signed := Narrow.toInt16?_eq_some_iff.1 h
  have hlo := w.le_toInt
  have hhi := w.toInt_lt
  have hword : (Int64.ofInt x.signed).toInt = x.signed :=
    Int64.toInt_ofInt_of_le (by omega) (by omega)
  have hnarrow : x.toInt64? = some (Int64.ofInt x.signed) :=
    Narrow.toInt64?_eq_some_iff.2 hword
  unfold addFelt
  rw [hnarrow]
  dsimp only
  rw [hword, hsigned]

namespace Reference

variable (m : Machine)

/-- Whether a reference names a cell and denotes its content. -/
def IsContent : Reference → Prop
  | deref _ | doubleDeref _ _ => True
  | _ => False

/-- Whether `r` names, on the machine, exactly the cell that `pointer` points to. -/
structure NamesPointee (r pointer : Reference) : Prop where
  address_iff : ∀ a, r.address m = .ok a ↔ pointer.resolveAddress m = .ok a
  resolvable : ∀ e, r.address m = .error e → ¬e.IsUnresolvable
  resolve_iff : ∀ v, r.resolve m = .ok v ↔
    ∃ a, pointer.resolveAddress m = .ok a ∧ m.memory.peek a = some v

theorem toOption_resolveAddress (r : Reference) :
    (r.resolveAddress m).toOption = (r.resolve m).toOption.bind fun v => v.asAddress.toOption := by
  simp [resolveAddress]

theorem toOption_address_deref (c : Cell) :
    ((deref c).address m).toOption = ((cell c).resolveAddress m).toOption := by
  rw [toOption_resolveAddress, toOption_resolve_cell]
  show (m.cellAddress c).toOption = _
  cases m.cellAddress c <;> rfl

theorem toOption_address_doubleDeref (c : Cell) (w : Int16) :
    ((doubleDeref c w).address m).toOption =
      ((deref c).resolveAddress m).toOption.bind fun a => (a.shift w.toInt).toOption := by
  rw [toOption_resolveAddress, toOption_resolve_deref]
  simp [address, Option.bind_assoc]

theorem toOption_resolveAddress_add {c : Cell} {x : Felt} {w : Int16} (hw : x.toInt16? = some w) :
    ((binary .add (deref c) (immediate x)).resolveAddress m).toOption =
      ((deref c).resolveAddress m).toOption.bind fun a => (a.shift w.toInt).toOption := by
  simp only [toOption_resolveAddress, toOption_resolve_binary, Option.bind_assoc]
  apply Option.bind_congr
  intro v _
  -- Only a stored address can be shifted; the sum of two field elements is none.
  cases v with
  | felt y => rfl
  | address a =>
      show (((a.addFelt x).mapError Fault.value).map Value.address).toOption.bind _ =
        (a.shift w.toInt).toOption
      rw [Address.addFelt_eq_shift hw]
      cases a.shift w.toInt <;> rfl

theorem toOption_resolve_of_isContent {r : Reference} (h : r.IsContent) :
    (r.resolve m).toOption = (r.address m).toOption.bind m.memory.peek := by
  cases r with
  | deref c => simp [resolve]
  | doubleDeref c w => simp [resolve]
  | _ => exact h.elim

theorem not_isUnresolvable_of_isContent {r : Reference} (h : r.IsContent) {e : Fault}
    (he : r.address m = .error e) : ¬e.IsUnresolvable := by
  have hcell : ∀ c e, m.cellAddress c = .error e → ¬e.IsUnresolvable := by
    intro c e he
    obtain ⟨_, -, rfl⟩ := Except.mapError_eq_error_iff.1 he
    exact not_false
  cases r with
  | deref c => exact hcell c e he
  | doubleDeref c w =>
      -- The cell, the pointer in it and the shift can each fail, in this order.
      rcases Except.bind_eq_error_iff.1 he with he | ⟨a, -, he⟩
      · exact hcell c e he
      · rcases Except.bind_eq_error_iff.1 he with he | ⟨pointer, -, he⟩
        · obtain ⟨_, -, rfl⟩ := Except.mapError_eq_error_iff.1 he
          exact not_false
        · obtain ⟨_, -, rfl⟩ := Except.mapError_eq_error_iff.1 he
          exact not_false
  | _ => exact h.elim

theorem cell?_eq_none_of_isContent {r : Reference} (h : r.IsContent) : r.cell? = none := by
  cases r with
  | cell c => exact h.elim
  | _ => rfl

theorem ofText_eq_ok_iff {s : String} {r : Reference} :
    ofText s = .ok r ↔ ∃ t, Tree.ofText s = .ok t ∧ t.reference = .ok r := by
  unfold ofText ofTypedText
  cases Tree.ofText s with
  | error e => simp [Except.map]
  | ok t =>
      dsimp only
      cases ht : t.reference <;> simp [Except.map, ht]

end Reference

/-- What is not a bare cell is found as a value under each of its names. -/
theorem Operands.findValue_of_find {t : Operands} {name : String} {r : Reference}
    (h : t.find name = .ok r) (hr : r.cell? = none) : t.findValue name = .ok r := by
  simp only [findValue, h, bind, Except.bind, hr]
  rfl

namespace Tree

/-- Brackets turn a cell into its content, and a pointer, moved or not, into what it points to. -/
theorem pointee_eq_ok {pointer r : Reference} (h : pointee pointer = .ok r) :
    (∃ c, pointer = .cell c ∧ r = .deref c) ∨
    (∃ c, pointer = .deref c ∧ r = .doubleDeref c 0) ∨
    ∃ c x w, pointer = .binary .add (.deref c) (.immediate x) ∧ x.toInt16? = some w ∧
      r = .doubleDeref c w := by
  unfold pointee at h
  split at h
  · next c =>
      cases h
      exact Or.inl ⟨c, rfl, rfl⟩
  · next c =>
      cases h
      exact Or.inr (Or.inl ⟨c, rfl, rfl⟩)
  · next c x =>
      split at h
      · next w hw =>
          cases h
          exact Or.inr (Or.inr ⟨c, x, w, rfl, hw, rfl⟩)
      · contradiction
  all_goals contradiction

theorem isContent_of_pointee {pointer r : Reference} (h : pointee pointer = .ok r) :
    r.IsContent := by
  rcases pointee_eq_ok h with ⟨c, -, rfl⟩ | ⟨c, -, rfl⟩ | ⟨c, x, w, -, -, rfl⟩
  · exact trivial
  · exact trivial
  · exact trivial

/-- The brackets cost one more look into memory and nothing else. -/
theorem toOption_address_pointee {pointer r : Reference} (h : pointee pointer = .ok r)
    (m : Machine) : (r.address m).toOption = (pointer.resolveAddress m).toOption := by
  rcases pointee_eq_ok h with ⟨c, rfl, rfl⟩ | ⟨c, rfl, rfl⟩ | ⟨c, x, w, rfl, hw, rfl⟩
  · exact Reference.toOption_address_deref m c
  · rw [Reference.toOption_address_doubleDeref]
    show (((Reference.deref c).resolveAddress m).toOption.bind fun a => (a.shift 0).toOption) = _
    simp only [Address.shift_zero, Except.toOption_ok, Option.bind_fun_some]
  · rw [Reference.toOption_address_doubleDeref, Reference.toOption_resolveAddress_add m hw]

theorem namesPointee_of_pointee {pointer r : Reference} (h : pointee pointer = .ok r)
    (m : Machine) : r.NamesPointee m pointer where
  address_iff := by
    intro a
    rw [← Except.toOption_eq_some_iff, toOption_address_pointee h, Except.toOption_eq_some_iff]
  resolvable := fun _ he => Reference.not_isUnresolvable_of_isContent m (isContent_of_pointee h) he
  resolve_iff := by
    intro v
    rw [← Except.toOption_eq_some_iff,
      Reference.toOption_resolve_of_isContent m (isContent_of_pointee h),
      toOption_address_pointee h, Option.bind_eq_some_iff]
    simp only [Except.toOption_eq_some_iff]

/-- If a bracketed text denotes a reference, then so does the cast in it, and the one
names the cell that the other points to, on every machine. -/
theorem bracketed_namesPointee {s : String} {c : Cast} {r : Reference}
    (htree : ofText s = .ok (.bracketed c)) (hr : Reference.ofText s = .ok r) :
    ∃ pointer, (Tree.plain c).reference = .ok pointer ∧
      (∀ inner, s = "[" ++ inner ++ "]" → Reference.ofText inner = .ok pointer) ∧
      r.IsContent ∧
      (∀ (t : Operands) name, t.find name = .ok r → t.findValue name = .ok r) ∧
      ∀ m, r.NamesPointee m pointer := by
  obtain ⟨t, ht, hr⟩ := Reference.ofText_eq_ok_iff.1 hr
  rw [htree] at ht
  cases ht
  obtain ⟨pointer, hpointer, hpointee⟩ := Except.bind_eq_ok_iff.1 hr
  have hcontent := isContent_of_pointee hpointee
  refine ⟨pointer, hpointer, ?_, hcontent, ?_, namesPointee_of_pointee hpointee⟩
  · intro inner hs
    rw [hs, ofText_bracketed_iff] at htree
    obtain ⟨_, ⟨⟩, hinner⟩ := htree
    exact Reference.ofText_eq_ok_iff.2 ⟨_, hinner, hpointer⟩
  · intro t name hfind
    exact Operands.findValue_of_find hfind (Reference.cell?_eq_none_of_isContent hcontent)

/-- The text `[cast([fp] + 2, felt*)]` and the one between its brackets. -/
theorem bracketed_namesPointee_moved_pointer :
    let s := "[cast([fp] + 2, felt*)]"
    let c : Cast :=
      ⟨⟨.factor (.deref (.bare .fp)), [(.plus, .factor (.integer (.plain 2)))]⟩, ⟨"felt", [], 1⟩⟩
    let r : Reference := .doubleDeref ⟨.fp, 0⟩ 2
    ofText s = .ok (.bracketed c) ∧ Reference.ofText s = .ok r ∧
      ∃ pointer, Reference.ofText "cast([fp] + 2, felt*)" = .ok pointer ∧ r.IsContent ∧
        ∀ m, r.NamesPointee m pointer := by
  intro s c r
  have htree : ofText s = .ok (.bracketed c) := by decide +kernel
  have hr : Reference.ofText s = .ok r := by decide +kernel
  obtain ⟨pointer, -, hinner, hcontent, -, hnames⟩ := bracketed_namesPointee htree hr
  exact ⟨htree, hr, pointer, hinner _ (by decide), hcontent, hnames⟩

end Tree

end CellHints
