import CellHints.Document.Form
import CellHints.Proofs.Document.HintTable
import Mathlib.Data.Nat.Digits.Lemmas

/-!
# Values read back

Each form of a value is faithful: what it writes has a text, and is read where there is
room for its arrays and objects.  So a value is read from its own text unless it nests
too deeply.  For field elements the documents that can be read are known exactly: they
list any digits in base `2 ^ 32`, few or many, and zeros at the end, and what they make up
by their places counts by its residue.
-/

namespace CellHints

namespace Felt

/-! ### Digits -/

/-- Digits are written as in any positional system: the least first, none behind the last
that is not zero. -/
theorem map_toNat_digitsOf (n : Nat) : (digitsOf n).map UInt32.toNat = Nat.digits (2 ^ 32) n := by
  induction n using Nat.strongRecOn with
  | ind n ih =>
      rw [digitsOf]
      split
      · next h => rw [h, Nat.digits_zero, List.map_nil]
      · next h =>
          have hpos := Nat.pos_of_ne_zero h
          have hlt : n / UInt32.size < n := Nat.div_lt_self hpos (by decide)
          have hdigit : (UInt32.ofNat (n % UInt32.size)).toNat = n % UInt32.size :=
            UInt32.toNat_ofNat_of_lt' (Nat.mod_lt n (by decide))
          rw [List.map_cons, ih _ hlt, hdigit, Nat.digits_def' (by decide) hpos]
          rfl

/-- Digits make up a number by their places. -/
theorem ofDigitsNat_eq_sum (ds : List UInt32) :
    ofDigitsNat ds = (ds.mapIdx fun i d => d.toNat * 2 ^ (32 * i)).sum := by
  have hplaces : ofDigitsNat ds = Nat.ofDigits (2 ^ 32) (ds.map UInt32.toNat) := by
    induction ds with
    | nil => rfl
    | cons d ds ih =>
        rw [ofDigitsNat, ih, List.map_cons, Nat.ofDigits_cons]
        rfl
  rw [hplaces, Nat.ofDigits_eq_sum_mapIdx]
  congr 1
  exact List.ext_getElem (by simp) fun i _ _ => by simp [pow_mul]

theorem val_ofDigits (ds : List UInt32) :
    (ofDigits ds).val = (ds.mapIdx fun i d => d.toNat * 2 ^ (32 * i)).sum % prime := by
  rw [← ofDigitsNat_eq_sum]
  rfl

@[simp] theorem ofDigits_digits (x : Felt) : ofDigits x.digits = x := by
  unfold ofDigits digits
  rw [ofDigitsNat_digitsOf, ofNat_val]

end Felt

namespace Document

/-! ### Nesting -/

theorem nestingItems_le_iff {items : List Document} {k : Nat} :
    nestingItems items ≤ k ↔ ∀ d ∈ items, d.nesting ≤ k := by
  induction items with
  | nil => simp [nestingItems]
  | cons d items ih => rw [nestingItems, Nat.max_le, ih, List.forall_mem_cons]

theorem nestingMembers_le_iff {members : List (List Char × Document)} {k : Nat} :
    nestingMembers members ≤ k ↔ ∀ m ∈ members, m.2.nesting ≤ k := by
  induction members with
  | nil => simp [nestingMembers]
  | cons m members ih => rw [nestingMembers, Nat.max_le, ih, List.forall_mem_cons]

theorem add_one_le_iff_exists {n depth : Nat} : n + 1 ≤ depth ↔ ∃ k, depth = k + 1 ∧ n ≤ k := by
  constructor
  · intro h
    obtain ⟨k, rfl⟩ := Nat.exists_eq_add_of_le' (Nat.le_trans (Nat.le_add_left 1 n) h)
    exact ⟨k, rfl, Nat.le_of_succ_le_succ h⟩
  · rintro ⟨k, rfl, h⟩
    exact Nat.succ_le_succ h

/-- An array opens itself, and then its items. -/
theorem nesting_array_le_iff {items : List Document} {depth : Nat} :
    (array items).nesting ≤ depth ↔ ∃ k, depth = k + 1 ∧ ∀ d ∈ items, d.nesting ≤ k := by
  simp only [nesting, add_one_le_iff_exists, nestingItems_le_iff]

/-- An object opens itself, and then the values of its fields. -/
theorem nesting_ofFields_le_iff {fields : List (String × Document)} {depth : Nat} :
    (ofFields fields).nesting ≤ depth ↔ ∃ k, depth = k + 1 ∧ ∀ f ∈ fields, f.2.nesting ≤ k := by
  simp only [ofFields, nesting, add_one_le_iff_exists, nestingMembers_le_iff, List.forall_mem_map]

theorem nesting_ofChoice_le_iff {name : String} {d : Document} {depth : Nat} :
    (ofChoice name d).nesting ≤ depth ↔ ∃ k, depth = k + 1 ∧ d.nesting ≤ k := by
  unfold ofChoice
  simp only [nesting_ofFields_le_iff, List.forall_mem_singleton]

/-! ### Faithful forms -/

theorem Plain.ofChoice {name : String} {d : Document} (h : Plain d) : Plain (ofChoice name d) :=
  .object (List.forall_mem_singleton.2 h)

/-- Whether a form writes what has a text, and reads what it writes where there is room. -/
structure Form.Faithful {α : Type} (F : Form α) : Prop where
  plain : ∀ v, Plain (F.write v)
  read_write : ∀ {depth v}, (F.write v).nesting ≤ depth → F.read depth (F.write v) = some v

theorem Form.Faithful.readsBack {α : Type} {F : Form α} (h : F.Faithful) (v : α) :
    F.ReadsBack v := by
  intro hnesting
  have hread : F.read maxDepth (F.write v) = some v := h.read_write (Nat.le_of_lt_succ hnesting)
  unfold readAs
  rw [(h.plain v).read_compactText, (h.plain v).read_spreadText]
  exact ⟨hread, hread⟩

end Document

open Document (Form Plain)

/-! ### Field elements -/

namespace Felt

theorem toDocument_eq (x : Felt) :
    x.toDocument = .array ((Nat.digits (2 ^ 32) x.val).map .ofNat) := by
  unfold toDocument digits
  rw [← map_toNat_digitsOf, List.map_map]
  rfl

theorem plain_digitsDocument (ds : List UInt32) : Plain (digitsDocument ds) := .array fun d hd => by
  obtain ⟨w, -, rfl⟩ := List.mem_map.1 hd
  exact .integer _

theorem nesting_digitsDocument_le (ds : List UInt32) : (digitsDocument ds).nesting ≤ 1 :=
  Document.nesting_array_le_iff.2 ⟨0, rfl, fun d hd => by
    obtain ⟨w, -, rfl⟩ := List.mem_map.1 hd
    exact Nat.le_refl 0⟩

/-- A field element is read from lists of digits and from nothing else. -/
theorem ofDocument?_eq_some_iff {k : Nat} {d : Document} {x : Felt} :
    ofDocument? (k + 1) d = some x ↔ ∃ ds, d = digitsDocument ds ∧ ofDigits ds = x := by
  have hlist : ∀ ds : List UInt32,
      d.list? (fun _ => Document.uint32?) (k + 1) = some ds ↔ d = digitsDocument ds := fun ds =>
    Document.list?_eq_some_iff Document.uint32?_eq_some_iff
  unfold ofDocument?
  simp only [Option.bind_eq_bind, Option.bind_eq_some_iff, Option.pure_def, Option.some.injEq,
    hlist]

theorem readAs_eq_some_iff {s : String} {x : Felt} :
    Document.readAs ofDocument? s = some x ↔
      ∃ ds, Document.read s = some (digitsDocument ds) ∧ ofDigits ds = x := by
  unfold Document.readAs
  simp only [Option.bind_eq_bind, Option.bind_eq_some_iff, Document.maxDepth,
    ofDocument?_eq_some_iff]
  constructor
  · rintro ⟨_, hread, ds, rfl, hx⟩
    exact ⟨ds, hread, hx⟩
  · rintro ⟨ds, hread, hx⟩
    exact ⟨_, hread, ds, rfl, hx⟩

theorem faithful : form.Faithful where
  plain x := plain_digitsDocument x.digits
  read_write {depth x} h := by
    obtain ⟨k, rfl, -⟩ := Document.nesting_array_le_iff.1 h
    exact ofDocument?_eq_some_iff.2 ⟨x.digits, rfl, ofDigits_digits x⟩

end Felt

/-! ### Addresses and values -/

theorem Address.faithful : Address.form.Faithful where
  plain a := .object (List.forall_mem_cons.2 ⟨.integer _, List.forall_mem_singleton.2 (.integer _)⟩)
  read_write {depth a} h := by
    obtain ⟨k, rfl, -⟩ := Document.nesting_ofFields_le_iff.1 h
    have hfields : a.toDocument.fields? ["segment_index", "offset"] =
        some [some (.ofNat a.segment.toNat), some (.ofNat a.offset.toNat)] :=
      Document.fields?_ofFields [_, _] (show ["segment_index", "offset"].Nodup by decide)
    change Address.ofDocument? (k + 1) a.toDocument = some a
    rw [Address.ofDocument?, hfields]
    simp only [Option.bind_eq_bind, Option.bind_some, Document.uint64?_eq_some_iff.2 rfl]
    rfl

theorem Value.faithful : Value.form.Faithful where
  plain v := by
    cases v with
    | felt x => exact .ofChoice (Felt.faithful.plain x)
    | address a => exact .ofChoice (Address.faithful.plain a)
  read_write {depth v} h := by
    change Value.ofDocument? depth v.toDocument = some v
    cases v with
    | felt x =>
        obtain ⟨k, rfl, hx⟩ := Document.nesting_ofChoice_le_iff.1 h
        have hread : Felt.ofDocument? k x.toDocument = some x := Felt.faithful.read_write hx
        rw [Value.ofDocument?, Value.toDocument, Document.choice?_ofChoice]
        simp only [Option.bind_eq_bind, Option.bind_some, hread]
        rfl
    | address a =>
        obtain ⟨k, rfl, ha⟩ := Document.nesting_ofChoice_le_iff.1 h
        have hread : Address.ofDocument? k a.toDocument = some a := Address.faithful.read_write ha
        rw [Value.ofDocument?, Value.toDocument, Document.choice?_ofChoice]
        simp only [Option.bind_eq_bind, Option.bind_some, hread]
        rfl

/-! ### Cells and references -/

theorem Register.faithful : Register.form.Faithful where
  plain r := by cases r <;> exact .text _
  read_write {depth r} _ := by
    change Register.ofDocument? depth r.toDocument = some r
    unfold Register.ofDocument? Register.toDocument
    cases r <;> simp

theorem Operator.faithful : Operator.form.Faithful where
  plain op := by cases op <;> exact .text _
  read_write {depth op} _ := by
    change Operator.ofDocument? depth op.toDocument = some op
    unfold Operator.ofDocument? Operator.toDocument
    cases op <;> simp

theorem Cell.faithful : Cell.form.Faithful where
  plain c := .object (List.forall_mem_cons.2
    ⟨Register.faithful.plain c.register, List.forall_mem_singleton.2 (.integer _)⟩)
  read_write {depth c} h := by
    obtain ⟨k, rfl, hfit⟩ := Document.nesting_ofFields_le_iff.1 h
    have hregister : Register.ofDocument? k c.register.toDocument = some c.register :=
      Register.faithful.read_write (hfit _ List.mem_cons_self)
    have hfields : c.toDocument.fields? ["register", "offset"] =
        some [some c.register.toDocument, some (.integer c.offset.toInt)] :=
      Document.fields?_ofFields [_, _] (show ["register", "offset"].Nodup by decide)
    change Cell.ofDocument? (k + 1) c.toDocument = some c
    rw [Cell.ofDocument?, hfields]
    simp only [Option.bind_eq_bind, Option.bind_some, hregister,
      Document.int16?_eq_some_iff.2 rfl]
    rfl

namespace Reference

theorem derefForm_faithful : derefForm.Faithful where
  plain c := .object (List.forall_mem_singleton.2 (Cell.faithful.plain c))
  read_write {depth c} h := by
    obtain ⟨k, rfl, hfit⟩ := Document.nesting_ofFields_le_iff.1 h
    have hcell : Cell.ofDocument? k c.toDocument = some c :=
      Cell.faithful.read_write (hfit _ List.mem_cons_self)
    have hfields : (derefDocument c).fields? ["cell"] = some [some c.toDocument] :=
      Document.fields?_ofFields [_] (show ["cell"].Nodup by decide)
    change derefOfDocument? (k + 1) (derefDocument c) = some c
    rw [derefOfDocument?, hfields]
    exact hcell

theorem doubleDerefForm_faithful : doubleDerefForm.Faithful where
  plain p := .object (List.forall_mem_cons.2
    ⟨derefForm_faithful.plain p.1, List.forall_mem_singleton.2 (.integer _)⟩)
  read_write {depth p} h := by
    obtain ⟨c, w⟩ := p
    obtain ⟨k, rfl, hfit⟩ := Document.nesting_ofFields_le_iff.1 h
    have hinner : derefOfDocument? k (derefDocument c) = some c :=
      derefForm_faithful.read_write (hfit _ List.mem_cons_self)
    have hfields : (doubleDerefDocument c w).fields? ["deref", "offset"] =
        some [some (derefDocument c), some (.integer w.toInt)] :=
      Document.fields?_ofFields [_, _] (show ["deref", "offset"].Nodup by decide)
    change doubleDerefOfDocument? (k + 1) (doubleDerefDocument c w) = some (c, w)
    rw [doubleDerefOfDocument?, hfields]
    simp only [Option.bind_eq_bind, Option.bind_some, hinner, Document.int16?_eq_some_iff.2 rfl]
    rfl

/-- An operation has a text if its sides have. -/
theorem plain_sidesDocument (op : Operator) {lhs rhs : Document} (hl : Plain lhs)
    (hr : Plain rhs) : Plain (sidesDocument op lhs rhs) :=
  .object (List.forall_mem_cons.2 ⟨Operator.faithful.plain op,
    List.forall_mem_cons.2 ⟨hl, List.forall_mem_singleton.2 hr⟩⟩)

/-- An operation is read back where there is room for it, if its sides are. -/
theorem binaryOfDocument?_binaryDocument {op : Operator} {lhs rhs : Reference}
    (hl : ∀ {k}, lhs.toDocument.nesting ≤ k → ofDocument? k lhs.toDocument = some lhs)
    (hr : ∀ {k}, rhs.toDocument.nesting ≤ k → ofDocument? k rhs.toDocument = some rhs)
    {depth : Nat} (h : (binaryDocument op lhs rhs).nesting ≤ depth) :
    binaryOfDocument? depth (binaryDocument op lhs rhs) = some (op, lhs, rhs) := by
  obtain ⟨k, rfl, hfit⟩ := Document.nesting_ofFields_le_iff.1 h
  have hop : Operator.ofDocument? k op.toDocument = some op :=
    Operator.faithful.read_write (hfit _ List.mem_cons_self)
  have hlhs := hl (hfit ("lhs", lhs.toDocument) (by simp))
  have hrhs := hr (hfit ("rhs", rhs.toDocument) (by simp))
  have hfields : (binaryDocument op lhs rhs).fields? ["operator", "lhs", "rhs"] =
      some [some op.toDocument, some lhs.toDocument, some rhs.toDocument] :=
    Document.fields?_ofFields [_, _, _] (show ["operator", "lhs", "rhs"].Nodup by decide)
  rw [binaryOfDocument?, hfields]
  simp only [Option.bind_eq_bind, Option.bind_some, hop, hlhs, hrhs]
  rfl

theorem faithful : form.Faithful where
  plain r := by
    change Plain r.toDocument
    induction r with
    | cell c =>
        obtain ⟨register, offset⟩ := c
        cases register <;> exact .ofChoice (.integer _)
    | deref c => exact .ofChoice (derefForm_faithful.plain c)
    | doubleDeref c w => exact .ofChoice (doubleDerefForm_faithful.plain (c, w))
    | immediate x => exact .ofChoice (Felt.faithful.plain x)
    | binary op lhs rhs ihl ihr => exact .ofChoice (plain_sidesDocument op ihl ihr)
  read_write {depth r} h := by
    change r.toDocument.nesting ≤ depth at h
    change ofDocument? depth r.toDocument = some r
    induction r generalizing depth with
    | cell c =>
        obtain ⟨register, offset⟩ := c
        -- A cell is named for its register, which leaves two alternatives of one shape.
        cases register
        all_goals
          obtain ⟨k, rfl, -⟩ := Document.nesting_ofChoice_le_iff.1 h
          rw [ofDocument?, toDocument, Document.choice?_ofChoice]
          simp only [Option.bind_eq_bind, Option.bind_some, Document.int16?_eq_some_iff.2 rfl]
          rfl
    | deref c =>
        obtain ⟨k, rfl, hc⟩ := Document.nesting_ofChoice_le_iff.1 h
        have hread : derefOfDocument? k (derefDocument c) = some c :=
          derefForm_faithful.read_write hc
        rw [ofDocument?, toDocument, Document.choice?_ofChoice]
        simp only [Option.bind_eq_bind, Option.bind_some, hread]
        rfl
    | doubleDeref c w =>
        obtain ⟨k, rfl, hc⟩ := Document.nesting_ofChoice_le_iff.1 h
        have hread : doubleDerefOfDocument? k (doubleDerefDocument c w) = some (c, w) :=
          doubleDerefForm_faithful.read_write (v := (c, w)) hc
        rw [ofDocument?, toDocument, Document.choice?_ofChoice]
        simp only [Option.bind_eq_bind, Option.bind_some, hread]
        rfl
    | immediate x =>
        obtain ⟨k, rfl, hx⟩ := Document.nesting_ofChoice_le_iff.1 h
        have hread : Felt.ofDocument? k x.toDocument = some x := Felt.faithful.read_write hx
        rw [ofDocument?, toDocument, Document.choice?_ofChoice]
        simp only [Option.bind_eq_bind, Option.bind_some, hread]
        rfl
    | binary op lhs rhs ihl ihr =>
        obtain ⟨k, rfl, hsides⟩ := Document.nesting_ofChoice_le_iff.1 h
        have hread := binaryOfDocument?_binaryDocument ihl ihr hsides
        rw [ofDocument?, toDocument, Document.choice?_ofChoice]
        simp only [Option.bind_eq_bind, Option.bind_some]
        change (binaryOfDocument? k (binaryDocument op lhs rhs)).bind _ = _
        rw [hread]
        rfl

theorem binaryForm_faithful : binaryForm.Faithful where
  plain p := plain_sidesDocument p.1 (faithful.plain p.2.1) (faithful.plain p.2.2)
  read_write h := binaryOfDocument?_binaryDocument faithful.read_write faithful.read_write h

end Reference

/-! ### Hint descriptors -/

theorem HintDescriptor.faithful : HintDescriptor.form.Faithful where
  plain d := d.plain_toDocument
  read_write {depth d} h := by
    -- The table of operands is an object inside of the object of the hint.
    obtain ⟨k, rfl, hfit⟩ := Document.nesting_ofFields_le_iff.1 h
    have htable := hfit ("references", HintDescriptor.referencesDocument d.references) (by simp)
    obtain ⟨k, rfl, -⟩ := Document.nesting_ofFields_le_iff.1 htable
    exact d.ofDocument?_toDocument k

namespace Document

/-- A field element is written by its digits and read from every list of digits, and from
those alone, by the residue of the number that they make up.  Values of each type are read
from their own texts. -/
theorem values_read_back :
    (∀ x : Felt, x.toDocument = .array ((Nat.digits (2 ^ 32) x.val).map .ofNat)) ∧
    (∀ ds, readAs Felt.ofDocument? (Felt.digitsDocument ds).compactText = some (Felt.ofDigits ds) ∧
      (Felt.ofDigits ds).val = (ds.mapIdx fun i w => w.toNat * 2 ^ (32 * i)).sum % prime) ∧
    (∀ s x, readAs Felt.ofDocument? s = some x ↔
      ∃ ds, read s = some (Felt.digitsDocument ds) ∧ Felt.ofDigits ds = x) ∧
    (∀ x : Felt, readAs Felt.ofDocument? x.toDocument.compactText = some x ∧
      readAs Felt.ofDocument? x.toDocument.spreadText = some x) ∧
    (∀ c, Cell.form.ReadsBack c) ∧ (∀ c, Reference.derefForm.ReadsBack c) ∧
    (∀ p, Reference.doubleDerefForm.ReadsBack p) ∧ (∀ p, Reference.binaryForm.ReadsBack p) ∧
    (∀ r, Reference.form.ReadsBack r) ∧ (∀ a, Address.form.ReadsBack a) ∧
    (∀ v, Value.form.ReadsBack v) ∧ ∀ d, HintDescriptor.form.ReadsBack d := by
  refine ⟨Felt.toDocument_eq, fun ds => ⟨?_, Felt.val_ofDigits ds⟩,
    fun s x => Felt.readAs_eq_some_iff, fun x => ?_, Cell.faithful.readsBack,
    Reference.derefForm_faithful.readsBack, Reference.doubleDerefForm_faithful.readsBack,
    Reference.binaryForm_faithful.readsBack, Reference.faithful.readsBack,
    Address.faithful.readsBack, Value.faithful.readsBack, HintDescriptor.faithful.readsBack⟩
  · have hread := (Felt.plain_digitsDocument ds).read_compactText
    exact Felt.readAs_eq_some_iff.2 ⟨ds, hread, rfl⟩
  · have hnesting := Felt.nesting_digitsDocument_le x.digits
    exact Felt.faithful.readsBack x (Nat.lt_of_le_of_lt hnesting (by decide))

/-- A sum of a content and a product, whose text nests eight arrays and objects. -/
theorem values_read_back_product_in_sum :
    let r : Reference := .binary .add (.deref ⟨.ap, -1⟩)
      (.binary .mul (.doubleDeref ⟨.fp, 2⟩ (-3)) (.immediate (Felt.ofInt (-1))))
    r.toDocument.nesting < 128 ∧ readAs Reference.ofDocument? r.toDocument.compactText = some r := by
  intro r
  have hnesting : r.toDocument.nesting < 128 := by decide +kernel
  obtain ⟨-, -, -, -, -, -, -, -, hreference, -⟩ := values_read_back
  exact ⟨hnesting, (hreference r hnesting).1⟩

end Document

end CellHints
