import CellHints.Proofs.Reference.Cut
import CellHints.Proofs.Reference.OffsetNotation
import Mathlib.Data.List.TakeWhile

/-!
# References read back from their text

The text of a reference in a cast to a type is read as that reference and that type,
and brackets around it read the cell that it points to.  A cell is written as a sum,
such as `ap + 3`, and read by moving its register along.  Negative constants and
operations have texts too, but those are NOT reference text.
-/

namespace CellHints

namespace Token

/-- Whether a text is a name: a letter or an underscore, and digits too behind it. -/
def IsName (s : String) : Prop :=
  ∃ c cs, s.toList = c :: cs ∧ isNameStart c = true ∧ cs.all isNamePart = true

theorem isMark_openParen : IsMark '(' .openParen := by
  constructor <;> decide

theorem isMark_closeParen : IsMark ')' .closeParen := by
  constructor <;> decide

theorem isMark_plus : IsMark '+' .plus := by
  constructor <;> decide

theorem isMark_minus : IsMark '-' .minus := by
  constructor <;> decide

theorem isMark_star : IsMark '*' .star := by
  constructor <;> decide

theorem isMark_comma : IsMark ',' .comma := by
  constructor <;> decide

theorem isMark_dot : IsMark '.' .dot := by
  constructor <;> decide

theorem not_isSeparator_of_isDigit {c : Char} (h : c.isDigit = true) : isSeparator c = false := by
  simp only [isSeparator, Bool.or_eq_false_iff, decide_eq_false_iff_not]
  constructor
  · rintro rfl
    contradiction
  · rintro rfl
    contradiction

theorem not_isSeparator_of_isNameStart {c : Char} (h : isNameStart c = true) :
    isSeparator c = false := by
  simp only [isSeparator, Bool.or_eq_false_iff, decide_eq_false_iff_not]
  constructor
  · rintro rfl
    contradiction
  · rintro rfl
    contradiction

/-- Letters stand behind the digits in the order of characters. -/
theorem le_toNat_of_isAlpha {c : Char} (h : c.isAlpha = true) : 'A'.toNat ≤ c.toNat := by
  have hbelow : 'A'.toNat ≤ 'a'.toNat := by decide
  rcases Bool.or_eq_true_iff.1 h with hupper | hlower
  · exact (of_decide_eq_true hupper).1
  · exact hbelow.trans (of_decide_eq_true (Bool.and_eq_true_iff.1 hlower).1)

/-- No name starts with a digit. -/
theorem not_isDigit_of_isNameStart {c : Char} (h : isNameStart c = true) : c.isDigit = false := by
  simp only [isNameStart, Bool.or_eq_true, decide_eq_true_eq] at h
  rcases h with h | rfl
  · rw [Bool.eq_false_iff]
    intro hdigit
    have hle := (le_toNat_of_isAlpha h).trans (Char.isDigit_iff_toNat.1 hdigit).2
    exact absurd hle (by decide)
  · decide

theorem cuts_name {s : String} (h : IsName s) : Cuts s.toList [.ident s] := by
  obtain ⟨c, cs, hs, hc, hcs⟩ := h
  rw [List.all_eq_true] at hcs
  have hrun : cs.takeWhile isNamePart = cs := List.takeWhile_eq_self_iff.2 hcs
  have hrest : Cuts (cs.dropWhile isNamePart) [] := by
    rw [List.dropWhile_eq_nil_iff.2 hcs]
    exact .nil
  have hcut := Cuts.ident (not_isSeparator_of_isNameStart hc) (not_isDigit_of_isNameStart hc) hc
    hrest
  rwa [hrun, ← hs, String.ofList_toList] at hcut

theorem cuts_number (n : Nat) : Cuts (Decimal.ofNat n).toList [.number (Decimal.ofNat n)] := by
  obtain ⟨c, cs, hs, hc⟩ := Decimal.exists_cons_ofNat n
  have hcs : ∀ d ∈ cs, d.isDigit = true := fun d hd =>
    Decimal.isDigit_of_mem_ofNat (hs ▸ List.mem_cons_of_mem c hd)
  have hrun : cs.takeWhile Char.isDigit = cs := List.takeWhile_eq_self_iff.2 hcs
  have hrest : Cuts (cs.dropWhile Char.isDigit) [] := by
    rw [List.dropWhile_eq_nil_iff.2 hcs]
    exact .nil
  have hcut := Cuts.number (not_isSeparator_of_isDigit hc) hc hrest
  rwa [hrun, ← hs, String.ofList_toList] at hcut

end Token

/-- Whether the text of a reference is reference text: it is a cell, the content of one,
or a constant whose signed reading is not negative. -/
def Reference.IsLegible : Reference → Prop
  | .cell _ | .deref _ | .doubleDeref _ _ => True
  | .immediate x => 0 ≤ x.signed
  | .binary _ _ _ => False

namespace Tree

open Token (Cuts)

variable {α : Type}

/-- Whether a text is cut into a phrase of `L` that denotes `a`. -/
def Writes (L : List Lexeme → α → Prop) (cs : List Char) (a : α) : Prop :=
  ∃ w, L w a ∧ Cuts cs (w.map (·.token))

/-! ### Cells -/

theorem cuts_registerName (r : Register) : Cuts r.name.toList [(Lexeme.register r).token] := by
  cases r with
  | ap => exact Token.cuts_name ⟨'a', ['p'], rfl, by decide, by decide⟩
  | fp => exact Token.cuts_name ⟨'f', ['p'], rfl, by decide, by decide⟩

theorem cuts_brackets {cs : List Char} {ts : List Token} (h : Cuts cs ts) :
    Cuts ('[' :: cs ++ [']']) (.openBracket :: ts ++ [.closeBracket]) :=
  Token.isMark_openBracket.cuts (h.append_mark Token.isMark_closeBracket .nil)

/-- A plus sign between blanks ends the token in front of it. -/
theorem cuts_plus {cs rest : List Char} {ts us : List Token} (h : Cuts cs ts)
    (hrest : Cuts rest us) : Cuts (cs ++ ' ' :: '+' :: ' ' :: rest) (ts ++ .plus :: us) := by
  have hbehind : Cuts (' ' :: rest) us := .separator (by decide) hrest
  have hsign : Cuts (' ' :: '+' :: ' ' :: rest) (.plus :: us) :=
    .separator (by decide) (Token.isMark_plus.cuts hbehind)
  exact h.append_cons (by decide) hsign

/-- A distance other than zero is written as a plus sign and a literal, behind any text. -/
theorem exists_spells_shift {w : Int16} (hw : w.toInt ≠ 0) :
    ∃ n u, n.value = w.toInt ∧ Literal.Spells u n ∧ ∀ {cs ts}, Cuts cs ts →
      Cuts (cs ++ (shiftText w).toList) (ts ++ .plus :: u.map (·.token)) := by
  unfold shiftText
  rw [if_neg hw]
  -- The sign of the distance decides whether its literal stands in parentheses.
  cases hz : w.toInt with
  | ofNat k =>
      have hspells := Literal.Spells.plain (Decimal.ofNat k)
      rw [Decimal.value_ofNat] at hspells
      have hliteral := Token.cuts_number k
      refine ⟨.plain k, _, rfl, hspells, fun h => ?_⟩
      have hnonneg : ¬Int.ofNat k < 0 := Int.not_lt.2 (Int.natCast_nonneg k)
      rw [if_neg hnonneg]
      simpa [Decimal.ofInt, Lexeme.number] using cuts_plus h hliteral
  | negSucc k =>
      have hspells := Literal.Spells.negated (Decimal.ofNat (k + 1))
      rw [Decimal.value_ofNat] at hspells
      have hliteral := Token.isMark_openParen.cuts (Token.isMark_minus.cuts
        ((Token.cuts_number (k + 1)).append_mark Token.isMark_closeParen .nil))
      refine ⟨.negated (k + 1), _, rfl, hspells, fun h => ?_⟩
      rw [if_pos (Int.negSucc_lt_zero k)]
      simpa [Decimal.ofInt, Lexeme.openParen, Lexeme.minus, Lexeme.number, Lexeme.closeParen]
        using cuts_plus h hliteral

theorem shiftText_of_eq_zero {w : Int16} (hw : w.toInt = 0) : shiftText w = "" := if_pos hw

/-- A distance is its own distance behind a plus sign. -/
theorem Sign.distance_plus (w : Int16) : Sign.plus.distance w.toInt = .ok w :=
  Sign.distance_eq_ok_iff.2 ⟨⟨⟨w.le_toInt, w.toInt_lt⟩, w.le_toInt, w.toInt_lt⟩, rfl⟩

/-- The text of a cell is that of a place between brackets. -/
theorem exists_writes_place (c : Cell) :
    ∃ p, Writes Place.Spells c.text.toList p ∧ p.cell = .ok c := by
  have hname := cuts_registerName c.register
  unfold Cell.text
  by_cases hw : c.offset.toInt = 0
  · refine ⟨.bare c.register, ⟨_, .bare c.register, ?_⟩, ?_⟩
    · rwa [shiftText_of_eq_zero hw, String.append_empty]
    · have hzero : c.offset = 0 := Int16.toInt_inj.1 hw
      rw [Place.cell, ← hzero]
  · obtain ⟨n, u, hn, hspells, hcuts⟩ := exists_spells_shift hw
    refine ⟨.shifted c.register .plus n, ⟨_, .shifted c.register .plus hspells, ?_⟩, ?_⟩
    · rw [String.toList_append]
      exact hcuts hname
    · rw [Place.cell, hn, Sign.distance_plus]
      rfl

/-! ### References -/

theorem exists_writes_cell (c : Cell) : ∃ v : Chain,
    Writes Chain.Spells (Reference.cell c).text.toList v ∧ v.reference = .ok (.cell c) := by
  have hname := cuts_registerName c.register
  have hfirst := Term.Spells.factor (.register c.register)
  change ∃ v, Writes _ c.text.toList v ∧ _
  unfold Cell.text
  by_cases hw : c.offset.toInt = 0
  · refine ⟨⟨_, []⟩, ⟨_, .mk hfirst .nil, ?_⟩, ?_⟩
    · rwa [shiftText_of_eq_zero hw, String.append_empty]
    · have hzero : c.offset = 0 := Int16.toInt_inj.1 hw
      rw [Chain.reference_of_cell rfl, ← hzero]
      rfl
  · -- The distance is a summand of its own, so it is read through the field.
    obtain ⟨n, u, hn, hspells, hcuts⟩ := exists_spells_shift hw
    refine ⟨⟨_, [(.plus, .factor (.integer n))]⟩,
      ⟨_, .mk hfirst (.cons .plus (.factor (.integer hspells)) .nil), ?_⟩, ?_⟩
    · rw [String.toList_append]
      simpa [Lexeme.sign] using hcuts hname
    · have hread := reference_summed c.register .plus n ⟨"", [], 0⟩
      have hdistance := Sign.distance_plus c.offset
      rw [hn, (Sign.distance_eq_ok_iff.1 hdistance).1.signed_ofInt, hdistance] at hread
      exact hread

/-- A factor on its own is a whole sum. -/
theorem exists_writes_factor {cs : List Char} {f : Factor} {r : Reference}
    (hf : Writes Factor.Spells cs f) (hr : f.reference = .ok r) (hcell : r.cell? = none) :
    ∃ v, Writes Chain.Spells cs v ∧ v.reference = .ok r := by
  obtain ⟨w, hw, hcuts⟩ := hf
  refine ⟨⟨.factor f, []⟩, ⟨_, .mk (.factor hw) .nil, ?_⟩, ?_⟩
  · rwa [List.append_nil]
  · exact Chain.reference_of_no_cell (c := ⟨.factor f, []⟩) hr hcell

theorem exists_writes_deref (c : Cell) : ∃ v : Chain,
    Writes Chain.Spells (Reference.deref c).text.toList v ∧ v.reference = .ok (.deref c) := by
  obtain ⟨p, ⟨w, hw, hcuts⟩, hp⟩ := exists_writes_place c
  have hwrites : Writes Factor.Spells (Reference.deref c).text.toList (.deref p) := by
    refine ⟨_, .deref hw, ?_⟩
    simpa [Reference.text, Lexeme.openBracket, Lexeme.closeBracket] using cuts_brackets hcuts
  exact exists_writes_factor hwrites (by rw [Factor.reference, hp]; rfl) rfl

theorem exists_writes_doubleDeref (c : Cell) (w : Int16) : ∃ v : Chain,
    Writes Chain.Spells (Reference.doubleDeref c w).text.toList v ∧
      v.reference = .ok (.doubleDeref c w) := by
  obtain ⟨p, ⟨u, hu, hcuts⟩, hp⟩ := exists_writes_place c
  have hinner := cuts_brackets hcuts
  by_cases hw : w.toInt = 0
  · have hwrites : Writes Factor.Spells (Reference.doubleDeref c w).text.toList
        (.doubleDeref p) := by
      refine ⟨_, .doubleDeref hu, ?_⟩
      simpa [Reference.text, shiftText_of_eq_zero hw, Lexeme.openBracket, Lexeme.closeBracket]
        using cuts_brackets hinner
    have hzero : w = 0 := Int16.toInt_inj.1 hw
    exact exists_writes_factor hwrites (by rw [Factor.reference, hp, hzero]; rfl) rfl
  · obtain ⟨n, v, hn, hv, hshift⟩ := exists_spells_shift hw
    have hwrites : Writes Factor.Spells (Reference.doubleDeref c w).text.toList
        (.doubleDerefShifted p .plus n) := by
      refine ⟨_, .doubleDerefShifted .plus hu hv, ?_⟩
      simpa [Reference.text, Lexeme.openBracket, Lexeme.closeBracket, Lexeme.sign]
        using cuts_brackets (hshift hinner)
    refine exists_writes_factor hwrites ?_ rfl
    rw [Factor.reference, hp, hn, Sign.distance_plus]
    rfl

theorem exists_writes_immediate {x : Felt} (hx : 0 ≤ x.signed) : ∃ v : Chain,
    Writes Chain.Spells (Reference.immediate x).text.toList v ∧
      v.reference = .ok (.immediate x) := by
  obtain ⟨k, hk⟩ := Int.eq_ofNat_of_zero_le hx
  have hwrites : Writes Factor.Spells (Reference.immediate x).text.toList
      (.integer (.plain k)) := by
    have hspells := Literal.Spells.plain (Decimal.ofNat k)
    rw [Decimal.value_ofNat] at hspells
    refine ⟨_, .integer hspells, ?_⟩
    rw [Reference.text, Felt.signedText, hk]
    exact Token.cuts_number k
  refine exists_writes_factor hwrites ?_ rfl
  rw [Factor.reference, Literal.value, ← hk, Felt.ofInt_signed]

theorem exists_writes_reference {r : Reference} (h : r.IsLegible) :
    ∃ v, Writes Chain.Spells r.text.toList v ∧ v.reference = .ok r := by
  cases r with
  | cell c => exact exists_writes_cell c
  | deref c => exact exists_writes_deref c
  | doubleDeref c w => exact exists_writes_doubleDeref c w
  | immediate x => exact exists_writes_immediate h
  | binary => exact h.elim

/-! ### Types -/

/-- Whether a type can be written: its path is made of names, and it has two stars at most. -/
structure TypeName.IsWellFormed (T : TypeName) : Prop where
  isName : ∀ s ∈ T.path, Token.IsName s
  pointers_le : T.pointers ≤ 2

theorem toList_text_typeName (T : TypeName) :
    T.text.toList = T.head.toList ++
      (T.tail.flatMap (fun s => '.' :: s.toList) ++ List.replicate T.pointers '*') := by
  have hpath : ∀ head (tail : List String), ['.'].intercalate ((head :: tail).map String.toList) =
      head.toList ++ tail.flatMap fun s => '.' :: s.toList := by
    intro head tail
    induction tail generalizing head with
    | nil => simp
    | cons s tail ih =>
        rw [List.map_cons, List.map_cons, List.intercalate_cons_cons, ← List.map_cons, ih]
        simp
  have hdot : ".".toList = ['.'] := rfl
  unfold TypeName.text TypeName.path
  rw [String.toList_append, String.toList_intercalate, hdot, hpath, String.toList_ofList,
    List.append_assoc]

theorem cuts_stars (k : Nat) :
    Cuts (List.replicate k '*') ((List.replicate k Lexeme.star).map (·.token)) := by
  induction k with
  | zero => exact .nil
  | succ k ih => exact Token.isMark_star.cuts ih

/-- Behind a name stand dots and stars, which end it. -/
theorem cuts_names {tail : List String} (h : ∀ s ∈ tail, Token.IsName s) (k : Nat)
    {cs : List Char} {ts : List Token} (hcs : Cuts cs ts) :
    Cuts (cs ++ (tail.flatMap (fun s => '.' :: s.toList) ++ List.replicate k '*'))
      (ts ++ (tail.flatMap (fun s => [Lexeme.dot, .typeName s]) ++
        List.replicate k Lexeme.star).map (·.token)) := by
  induction tail generalizing cs ts with
  | nil =>
      cases k with
      | zero => simpa using hcs
      | succ k => exact hcs.append_mark Token.isMark_star (cuts_stars k)
  | cons s tail ih =>
      obtain ⟨hs, htail⟩ := List.forall_mem_cons.1 h
      have hrest := ih htail (Token.cuts_name hs)
      simpa [Lexeme.dot, Lexeme.typeName] using hcs.append_mark Token.isMark_dot hrest

theorem writes_typeName {T : TypeName} (h : T.IsWellFormed) :
    Writes TypeName.Spells T.text.toList T := by
  obtain ⟨hhead, htail⟩ := List.forall_mem_cons.1 h.isName
  refine ⟨_, .mk T.head T.tail T.pointers h.pointers_le, ?_⟩
  rw [toList_text_typeName]
  exact cuts_names htail T.pointers (Token.cuts_name hhead)

/-! ### Casts -/

/-- A sum and a type that can each be read are read as a cast. -/
theorem ofText_cast {s u : String} {v : Chain} {T : TypeName}
    (hv : Writes Chain.Spells s.toList v) (hT : Writes TypeName.Spells u.toList T) :
    ofText ("cast(" ++ s ++ ", " ++ u ++ ")") = .ok (.plain ⟨v, T⟩) := by
  obtain ⟨w, hw, hcuts⟩ := hv
  obtain ⟨w', hw', hcuts'⟩ := hT
  have hword : Cuts "cast".toList [.ident "cast"] :=
    Token.cuts_name ⟨'c', ['a', 's', 't'], rfl, by decide, by decide⟩
  have htype := hcuts'.append_mark Token.isMark_closeParen .nil
  have hbehind := hcuts.append_mark Token.isMark_comma (.separator (c := ' ') (by decide) htype)
  have hcast := hword.append_mark Token.isMark_openParen hbehind
  refine ofText_eq_ok_iff_cuts.2 ⟨_, ?_, _, .plain (.mk hw hw'), rfl⟩
  simpa [Lexeme.castWord, Lexeme.openParen, Lexeme.comma, Lexeme.closeParen] using hcast

end Tree

namespace Reference

open CellHints.Tree (TypeName)

/-- The text of a reference in a cast is read as that reference and the type of the cast.
In brackets it is read as what the reference points to: a cell becomes its content, a
content becomes that of the cell it leads to, and the others have no cell to lead to. -/
theorem ofTypedText_text {r : Reference} {T : TypeName} (hr : r.IsLegible) (hT : T.IsWellFormed) :
    let s := "cast(" ++ r.text ++ ", " ++ T.text ++ ")"
    ofTypedText s = .ok (r, T) ∧
      ofTypedText ("[" ++ s ++ "]") = match r with
        | .cell c => .ok (.deref c, T)
        | .deref c => .ok (.doubleDeref c 0, T)
        | _ => .error (.meaningless .unexpectedDeref) := by
  intro s
  obtain ⟨v, hwrites, hv⟩ := Tree.exists_writes_reference hr
  have hs : Tree.ofText s = .ok (.plain ⟨v, T⟩) :=
    Tree.ofText_cast hwrites (Tree.writes_typeName hT)
  have hbracketed := Tree.ofText_bracketed_iff.2 ⟨_, rfl, hs⟩
  constructor
  · rw [ofTypedText, hs]
    simp only [Tree.reference, hv]
    rfl
  · rw [ofTypedText, hbracketed]
    simp only [Tree.reference, hv, bind, Except.bind]
    cases r with
    | cell c => rfl
    | deref c => rfl
    | doubleDeref c w => rfl
    | immediate x => rfl
    | binary => exact hr.elim

/-- The least distances, and a type whose names are a keyword and a register. -/
theorem ofTypedText_text_least_distances :
    let r : Reference := .doubleDeref ⟨.fp, -32768⟩ (-3)
    let T : TypeName := ⟨"cast", ["ap", "_1"], 2⟩
    r.IsLegible ∧ T.IsWellFormed ∧
      ofTypedText "cast([[fp + (-32768)] + (-3)], cast.ap._1**)" = .ok (r, T) ∧
      ofTypedText "[cast([[fp + (-32768)] + (-3)], cast.ap._1**)]" =
        .error (.meaningless .unexpectedDeref) := by
  intro r T
  have hT : T.IsWellFormed := by
    refine ⟨?_, le_rfl⟩
    intro s hs
    simp only [TypeName.path, T, List.mem_cons, List.not_mem_nil, or_false] at hs
    rcases hs with rfl | rfl | rfl
    · exact ⟨_, _, rfl, by decide, by decide⟩
    · exact ⟨_, _, rfl, by decide, by decide⟩
    · exact ⟨_, _, rfl, by decide, by decide⟩
  have htext : "cast(" ++ r.text ++ ", " ++ T.text ++ ")" =
      "cast([[fp + (-32768)] + (-3)], cast.ap._1**)" := by decide +kernel
  have hread := ofTypedText_text (r := r) trivial hT
  rw [htext] at hread
  exact ⟨trivial, hT, hread⟩

end Reference

end CellHints
