import CellHints.Proofs.Reference.Distance
import CellHints.Proofs.Success

/-!
# References denote what their trees say

A tree that denotes a reference says the same value on every machine as the
reference resolves to, and each is without a value exactly if the other is.  The
faults of a reference that does not resolve are NOT compared: the tree has none.
-/

namespace CellHints

theorem Address.shift_zero (a : Address) : a.shift 0 = .ok a :=
  Address.shift_eq_ok_iff.2 ⟨rfl, by simp⟩

@[simp] theorem Machine.toOption_cellAddress (m : Machine) (c : Cell) :
    (m.cellAddress c).toOption = ((m.register c.register).shift c.offset.toInt).toOption := by
  simp [cellAddress]

theorem Address.toOption_addFelt (a : Address) (x : Felt) :
    (a.addFelt x).toOption =
      (Narrow.toInt64? x.signed).bind fun distance => (a.shift distance.toInt).toOption := by
  unfold addFelt Felt.toInt64?
  cases Narrow.toInt64? x.signed <;> rfl

namespace Reference

variable (m : Machine)

theorem toOption_resolve_cell (c : Cell) :
    ((cell c).resolve m).toOption = (m.cellAddress c).toOption.map .address := by
  simp [resolve]

theorem toOption_resolve_deref (c : Cell) :
    ((deref c).resolve m).toOption = (m.cellAddress c).toOption.bind m.memory.peek := by
  simp [resolve, address]

theorem toOption_resolve_doubleDeref (c : Cell) (offset : Int16) :
    ((doubleDeref c offset).resolve m).toOption =
      ((m.cellAddress c).toOption.bind fun a => (m.memory.readAddress a).toOption).bind
        fun pointer => (pointer.shift offset.toInt).toOption.bind m.memory.peek := by
  simp [resolve, address, Option.bind_assoc]

theorem toOption_resolve_binary (op : Operator) (lhs rhs : Reference) :
    ((binary op lhs rhs).resolve m).toOption =
      (lhs.resolve m).toOption.bind fun x => (rhs.resolve m).toOption.bind fun y =>
        (combine (binary op lhs rhs) op x y).toOption := by
  simp [resolve]

end Reference

namespace Tree

variable {m : Machine}

theorem Place.toOption_cellAddress {p : Place} {c : Cell} (h : p.cell = .ok c) :
    (m.cellAddress c).toOption = p.address m := by
  cases p with
  | bare r =>
      cases h
      rw [Machine.toOption_cellAddress]
      exact congrArg Except.toOption (Address.shift_zero (m.register r))
  | shifted r s n =>
      obtain ⟨w, hw, rfl⟩ := Except.map_eq_ok_iff.1 h
      rw [Machine.toOption_cellAddress, (Sign.distance_eq_ok_iff.1 hw).2]
      rfl

/-- The pointer that a double dereference follows. -/
theorem Place.toOption_readAddress {p : Place} {c : Cell} (h : p.cell = .ok c) :
    ((m.cellAddress c).toOption.bind fun a => (m.memory.readAddress a).toOption) =
      p.pointer m := by
  rw [toOption_cellAddress h]
  simp [pointer]

theorem Factor.toOption_resolve {f : Factor} {r : Reference} (h : f.reference = .ok r) :
    (r.resolve m).toOption = f.value m := by
  cases f with
  | doubleDeref p =>
      obtain ⟨c, hc, rfl⟩ := Except.map_eq_ok_iff.1 h
      rw [Reference.toOption_resolve_doubleDeref, Place.toOption_readAddress hc]
      apply Option.bind_congr
      intro pointer _
      -- A double dereference without a distance still shifts, by zero.
      show (pointer.shift 0).toOption.bind m.memory.peek = m.memory.peek pointer
      rw [Address.shift_zero]
      rfl
  | doubleDerefShifted p s n =>
      obtain ⟨c, hc, h⟩ := Except.bind_eq_ok_iff.1 h
      obtain ⟨w, hw, h⟩ := Except.bind_eq_ok_iff.1 h
      cases h
      rw [Reference.toOption_resolve_doubleDeref, Place.toOption_readAddress hc,
        (Sign.distance_eq_ok_iff.1 hw).2]
      rfl
  | deref p =>
      obtain ⟨c, hc, rfl⟩ := Except.map_eq_ok_iff.1 h
      rw [Reference.toOption_resolve_deref, Place.toOption_cellAddress hc]
      rfl
  | place p =>
      obtain ⟨b, hb, rfl⟩ := Except.map_eq_ok_iff.1 h
      rw [Reference.toOption_resolve_cell, Place.toOption_cellAddress hb]
      exact Option.map_eq_bind
  | integer n =>
      cases h
      rfl

/-- Only field elements can be multiplied. -/
theorem toOption_combine_mul (r : Reference) (x y : Value) :
    (Reference.combine r .mul x y).toOption =
      x.asFelt.toOption.bind fun x => y.asFelt.toOption.map fun y => .felt (x * y) := by
  cases x <;> cases y <;> rfl

theorem Term.toOption_resolve {t : Term} {r : Reference} (h : t.reference = .ok r) :
    (r.resolve m).toOption = t.value m := by
  cases t with
  | factor f => exact Factor.toOption_resolve h
  | product lhs rhs =>
      obtain ⟨a, ha, h⟩ := Except.bind_eq_ok_iff.1 h
      obtain ⟨b, hb, h⟩ := Except.bind_eq_ok_iff.1 h
      cases h
      rw [Reference.toOption_resolve_binary, Factor.toOption_resolve ha, Factor.toOption_resolve hb]
      simp only [toOption_combine_mul, value, Factor.felt]
      -- Each side is without a value, an address or a field element.
      rcases lhs.value m with _ | (_ | _) <;> rcases rhs.value m with _ | (_ | _) <;> rfl

/-- A negated reference denotes the negative of a field element, and nothing else. -/
theorem toOption_resolve_negate (r : Reference) :
    ((negate r).resolve m).toOption =
      (r.resolve m).toOption.bind fun y => y.asFelt.toOption.map fun y => .felt (-y) := by
  -- Only a constant is negated ahead; anything else is multiplied when it is resolved.
  by_cases hconstant : ∃ x, r = .immediate x
  · obtain ⟨x, rfl⟩ := hconstant
    rfl
  · have hnegate : negate r = .binary .mul r (.immediate (Felt.ofInt (-1))) := by
      cases r with
      | immediate x => exact absurd ⟨x, rfl⟩ hconstant
      | _ => rfl
    rw [hnegate, Reference.toOption_resolve_binary]
    apply Option.bind_congr
    intro y _
    cases y with
    | felt y => exact congrArg (fun z => some (Value.felt z)) (Felt.mul_ofInt_neg_one y)
    | address a => rfl

theorem toOption_combine_add (r : Reference) (v y : Value) :
    (Reference.combine r .add v y).toOption = y.asFelt.toOption.bind (Sign.plus.combine v) := by
  cases y with
  | address b => cases v <;> rfl
  | felt y =>
      cases v with
      | felt x => rfl
      | address a =>
          show (((a.addFelt y).mapError _).map Value.address).toOption =
            Sign.plus.combine (.address a) y
          rw [Except.toOption_map, Except.toOption_mapError, Address.toOption_addFelt,
            Option.map_bind]
          apply Option.bind_congr
          intro distance _
          exact Option.map_eq_bind

theorem toOption_combine_add_neg (r : Reference) (v : Value) (y : Felt) :
    (Reference.combine r .add v (.felt (-y))).toOption = Sign.minus.combine v y := by
  rw [toOption_combine_add]
  cases v with
  | felt x => exact congrArg (fun z => some (Value.felt z)) (Felt.sub_eq_add_neg x y).symm
  | address a =>
      show Sign.plus.combine (.address a) (-y) = _
      simp only [Sign.combine, Sign.times, Felt.signed_neg]

/-- Adding what stands behind a sign is adding or taking away. -/
theorem Sign.toOption_resolve_add (s : Sign) (r b : Reference) :
    ((Reference.binary .add r (s.apply b)).resolve m).toOption =
      (r.resolve m).toOption.bind fun v =>
        (b.resolve m).toOption.bind fun y => y.asFelt.toOption.bind (s.combine v) := by
  rw [Reference.toOption_resolve_binary]
  apply Option.bind_congr
  intro v _
  cases s with
  | plus =>
      apply Option.bind_congr
      intro y _
      exact toOption_combine_add _ v y
  | minus =>
      show ((negate b).resolve m).toOption.bind _ = _
      rw [toOption_resolve_negate, Option.bind_assoc]
      apply Option.bind_congr
      intro y _
      cases y with
      | felt y => exact toOption_combine_add_neg _ v y
      | address a => rfl

/-- A sum without a cell in front denotes its terms added from the left. -/
theorem Chain.toOption_resolve_addTerms {others : List (Sign × Term)} {r q : Reference}
    (h : addTerms r others = .ok q) :
    (q.resolve m).toOption = (r.resolve m).toOption.bind fun v => plusAll m v others := by
  -- The reference so far denotes the value so far, so the first one is arbitrary.
  induction others generalizing r with
  | nil =>
      cases h
      exact (Option.bind_fun_some _).symm
  | cons summand rest ih =>
      obtain ⟨s, t⟩ := summand
      obtain ⟨b, hb, h⟩ := Except.bind_eq_ok_iff.1 h
      rw [ih h, Sign.toOption_resolve_add, Term.toOption_resolve hb, Option.bind_assoc]
      apply Option.bind_congr
      intro v _
      simp only [plusAll, Term.felt]
      rcases t.value m with _ | (_ | _) <;> rfl

/-- A cell that moves along a sum goes the total of the distances. -/
theorem Chain.totalDistance_of_moveCell {others : List (Sign × Term)} {c d : Cell}
    (h : moveCell c others = .ok d) :
    ∃ z, totalDistance m others = some z ∧ d.register = c.register ∧
      d.offset.toInt = c.offset.toInt + z := by
  -- The cell so far has gone the distances so far.
  induction others generalizing c with
  | nil =>
      cases h
      exact ⟨0, rfl, rfl, (Int.add_zero _).symm⟩
  | cons summand rest ih =>
      obtain ⟨s, t⟩ := summand
      obtain ⟨x, w, e, ht, hw, he, h⟩ := moveCell_cons_eq_ok_iff.1 h
      obtain ⟨z, hz, hregister, hoffset⟩ := ih h
      obtain ⟨hstep, hmoved⟩ := Cell.shift?_eq_some_iff.1 he
      have hfelt : t.felt m = some x := by
        rw [Term.felt, ← Term.toOption_resolve ht]
        rfl
      refine ⟨s.times x.signed + z, ?_, hregister.trans hstep, ?_⟩
      · simp only [totalDistance, hfelt, hz]
        rfl
      · rw [hoffset, hmoved, (Sign.distance_eq_ok_iff.1 hw).2]
        omega

/-- A term denotes a cell exactly if it is a register cell. -/
theorem Term.place?_of_reference {t : Term} {r : Reference} (h : t.reference = .ok r) :
    t.place? = r.cell?.map fun c => (c.register, c.offset.toInt) := by
  cases t with
  | product lhs rhs =>
      obtain ⟨a, -, h⟩ := Except.bind_eq_ok_iff.1 h
      obtain ⟨b, -, h⟩ := Except.bind_eq_ok_iff.1 h
      cases h
      rfl
  | factor f =>
      cases f with
      | place p =>
          obtain ⟨c, hc, rfl⟩ := Except.map_eq_ok_iff.1 h
          cases p with
          | bare r =>
              cases hc
              rfl
          | shifted r s n =>
              obtain ⟨w, hw, rfl⟩ := Except.map_eq_ok_iff.1 hc
              show some (r, s.times n.value) = some (r, w.toInt)
              rw [(Sign.distance_eq_ok_iff.1 hw).2]
      | integer n =>
          cases h
          rfl
      | doubleDerefShifted p s n =>
          obtain ⟨c, -, h⟩ := Except.bind_eq_ok_iff.1 h
          obtain ⟨w, -, h⟩ := Except.bind_eq_ok_iff.1 h
          cases h
          rfl
      | _ =>
          obtain ⟨c, -, rfl⟩ := Except.map_eq_ok_iff.1 h
          rfl

theorem Chain.toOption_resolve {c : Chain} {r : Reference} (h : c.reference = .ok r) :
    (r.resolve m).toOption = c.value m := by
  obtain ⟨first, hfirst, -⟩ := Except.bind_eq_ok_iff.1 h
  -- Tree and reference take the same way, by whether the first term is a cell.
  have hplace := Term.place?_of_reference hfirst
  cases hcell : first.cell? with
  | some start =>
      have hstart : first = .cell start := by
        cases first <;> simp_all [Reference.cell?]
      rw [hstart] at hfirst
      rw [reference_of_cell hfirst] at h
      obtain ⟨d, hd, rfl⟩ := Except.map_eq_ok_iff.1 h
      obtain ⟨z, hz, hregister, hoffset⟩ := totalDistance_of_moveCell (m := m) hd
      rw [Reference.toOption_resolve_cell, Machine.toOption_cellAddress, hregister, hoffset]
      simp only [value, hplace, hcell, Option.map_some, hz]
      exact Option.map_eq_bind
  | none =>
      rw [reference_of_no_cell hfirst hcell] at h
      rw [toOption_resolve_addTerms h, Term.toOption_resolve hfirst]
      simp only [value, hplace, hcell, Option.map_none]
      rfl

/-- A cast that denotes a reference says on every machine exactly the value that
the reference resolves to. -/
theorem resolve_eq_ok_iff_value {c : Cast} {r : Reference} (h : (Tree.plain c).reference = .ok r)
    (m : Machine) (v : Value) : r.resolve m = .ok v ↔ c.value.value m = some v := by
  rw [← Chain.toOption_resolve (m := m) h, Except.toOption_eq_some_iff]

/-- `[ap] - 5 + [ap] * 2` where the cell at `ap` holds 7. -/
theorem resolve_eq_ok_iff_value_sum_of_product :
    let c : Cast :=
      ⟨⟨.factor (.deref (.bare .ap)),
        [(.minus, .factor (.integer (.plain 5))),
          (.plus, .product (.deref (.bare .ap)) (.integer (.plain 2)))]⟩, ⟨"felt", [], 0⟩⟩
    let m : Machine :=
      ⟨(⟨#[.empty], 1⟩ : Memory).put .origin (.felt (Felt.ofNat 7)),
        ⟨.origin, .origin, .origin⟩, .default⟩
    ∃ r, (Tree.plain c).reference = .ok r ∧ r.resolve m = .ok (.felt (Felt.ofNat 16)) ∧
      c.value.value m = some (.felt (Felt.ofNat 16)) := by
  intro c m
  have hresolve : (Reference.binary .add
      (.binary .add (.deref ⟨.ap, 0⟩) (.immediate (-Felt.ofInt 5)))
      (.binary .mul (.deref ⟨.ap, 0⟩) (.immediate (Felt.ofInt 2)))).resolve m =
        .ok (.felt (Felt.ofNat 16)) := by
    decide +kernel
  exact ⟨_, rfl, hresolve, (resolve_eq_ok_iff_value rfl m _).1 hresolve⟩

end Tree

end CellHints
