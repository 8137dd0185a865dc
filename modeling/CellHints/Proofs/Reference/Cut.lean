import CellHints.Proofs.Reference.Grammar
import CellHints.Proofs.Success

/-!
# How a text is cut

Which tokens a text is cut into, said without the places that they stand on.
The tokens do not depend on where the text stands, and a mark behind it ends
whatever token was open, so the tokens of a text in brackets are its own tokens
in brackets.  Texts are NOT put side by side without a mark between them: two
names would become one.
-/

namespace CellHints

namespace Token

/-- Whether a text is cut into these tokens, each as long as it can be. -/
inductive Cuts : List Char → List Token → Prop
  | nil : Cuts [] []
  | separator {c : Char} {rest : List Char} {ts : List Token} (hc : isSeparator c = true)
      (hrest : Cuts rest ts) : Cuts (c :: rest) ts
  | number {c : Char} {rest : List Char} {ts : List Token} (hseparator : isSeparator c = false)
      (hc : c.isDigit = true) (hrest : Cuts (rest.dropWhile Char.isDigit) ts) :
      Cuts (c :: rest) (number (String.ofList (c :: rest.takeWhile Char.isDigit)) :: ts)
  | ident {c : Char} {rest : List Char} {ts : List Token} (hseparator : isSeparator c = false)
      (hdigit : c.isDigit = false) (hc : isNameStart c = true)
      (hrest : Cuts (rest.dropWhile isNamePart) ts) :
      Cuts (c :: rest) (ident (String.ofList (c :: rest.takeWhile isNamePart)) :: ts)
  | mark {c : Char} {rest : List Char} {t : Token} {ts : List Token}
      (hseparator : isSeparator c = false) (hdigit : c.isDigit = false)
      (hname : isNameStart c = false) (hc : ofMark? c = some t) (hrest : Cuts rest ts) :
      Cuts (c :: rest) (t :: ts)

theorem cuts_of_scan {pos : Nat} {cs : List Char} {placed : List PlacedToken}
    (h : scan pos cs = .ok placed) : Cuts cs (placed.map (·.token)) := by
  fun_induction scan pos cs generalizing placed with
  | case1 pos =>
      cases h
      exact .nil
  | case2 pos c rest hseparator ih => exact .separator hseparator (ih h)
  | @case3 pos c rest hseparator hdigit tail stop ih =>
      obtain ⟨behind, hbehind, rfl⟩ := Except.map_eq_ok_iff.1 h
      exact .number (eq_false_of_ne_true hseparator) hdigit (ih hbehind)
  | @case4 pos c rest hseparator hdigit hname tail stop ih =>
      obtain ⟨behind, hbehind, rfl⟩ := Except.map_eq_ok_iff.1 h
      exact .ident (eq_false_of_ne_true hseparator) (eq_false_of_ne_true hdigit) hname
        (ih hbehind)
  | case5 pos c rest hseparator hdigit hname t hmark ih =>
      obtain ⟨behind, hbehind, rfl⟩ := Except.map_eq_ok_iff.1 h
      exact .mark (eq_false_of_ne_true hseparator) (eq_false_of_ne_true hdigit)
        (eq_false_of_ne_true hname) hmark (ih hbehind)
  | case6 => contradiction

/-- The cuts are found wherever the text starts. -/
theorem Cuts.exists_scan {cs : List Char} {ts : List Token} (h : Cuts cs ts) (pos : Nat) :
    ∃ placed, scan pos cs = .ok placed ∧ placed.map (·.token) = ts := by
  induction h generalizing pos with
  | nil => exact ⟨[], by rw [scan], rfl⟩
  | separator hc _ ih =>
      obtain ⟨placed, hscan, rfl⟩ := ih (pos + 1)
      exact ⟨placed, by rw [scan, if_pos hc, hscan], rfl⟩
  | @number c rest _ hseparator hc _ ih =>
      obtain ⟨placed, hscan, rfl⟩ := ih (pos + 1 + (rest.takeWhile Char.isDigit).length)
      simp only [scan, hseparator, hc, hscan, Bool.false_eq_true, if_false, if_true]
      exact ⟨_, rfl, rfl⟩
  | @ident c rest _ hseparator hdigit hc _ ih =>
      obtain ⟨placed, hscan, rfl⟩ := ih (pos + 1 + (rest.takeWhile isNamePart).length)
      simp only [scan, hseparator, hdigit, hc, hscan, Bool.false_eq_true, if_false, if_true]
      exact ⟨_, rfl, rfl⟩
  | mark hseparator hdigit hname hc _ ih =>
      obtain ⟨placed, hscan, rfl⟩ := ih (pos + 1)
      simp only [scan, hseparator, hdigit, hname, hc, hscan, Bool.false_eq_true, if_false]
      exact ⟨_, rfl, rfl⟩

theorem tokenize_eq_ok_iff_cuts {s : String} {ts : List Token} :
    (∃ placed, tokenize s = .ok placed ∧ placed.map (·.token) = ts) ↔ Cuts s.toList ts := by
  constructor
  · rintro ⟨placed, hcut, rfl⟩
    exact cuts_of_scan hcut
  · intro h
    exact h.exists_scan 0

/-- Whether a character is a token of its own, wherever it stands. -/
structure IsMark (c : Char) (t : Token) : Prop where
  not_separator : isSeparator c = false
  not_digit : c.isDigit = false
  not_namePart : isNamePart c = false
  not_nameStart : isNameStart c = false
  ofMark?_eq : ofMark? c = some t

theorem isMark_openBracket : IsMark '[' .openBracket := by
  constructor <;> decide

theorem isMark_closeBracket : IsMark ']' .closeBracket := by
  constructor <;> decide

theorem IsMark.cuts {c : Char} {t : Token} (h : IsMark c t) {rest : List Char} {ts : List Token}
    (hrest : Cuts rest ts) : Cuts (c :: rest) (t :: ts) :=
  .mark h.not_separator h.not_digit h.not_nameStart h.ofMark?_eq hrest

/-- A run of characters is as long as it was if the one behind does not belong to it. -/
theorem takeWhile_append_cons {p : Char → Bool} {c : Char} (hc : p c = false)
    (cs rest : List Char) : (cs ++ c :: rest).takeWhile p = cs.takeWhile p := by
  induction cs with
  | nil => simp [hc]
  | cons d cs ih => cases hd : p d <;> simp [hd, ih]

theorem dropWhile_append_cons {p : Char → Bool} {c : Char} (hc : p c = false)
    (cs rest : List Char) :
    (cs ++ c :: rest).dropWhile p = cs.dropWhile p ++ c :: rest := by
  induction cs with
  | nil => simp [hc]
  | cons d cs ih => cases hd : p d <;> simp [hd, ih]

/-- A character that is no part of a name ends the token in front of it. -/
theorem Cuts.append_cons {cs rest : List Char} {ts us : List Token} {c : Char} (h : Cuts cs ts)
    (hc : isNamePart c = false) (hrest : Cuts (c :: rest) us) :
    Cuts (cs ++ c :: rest) (ts ++ us) := by
  have hdigit : c.isDigit = false := by
    unfold isNamePart at hc
    simp only [Bool.or_eq_false_iff] at hc
    exact hc.1.2
  induction h with
  | nil => exact hrest
  | separator hd _ ih => exact .separator hd ih
  | @number d cs _ hseparator hd _ ih =>
      rw [← dropWhile_append_cons hdigit] at ih
      have hrun := takeWhile_append_cons hdigit cs rest
      rw [← hrun]
      exact .number hseparator hd ih
  | @ident d cs _ hseparator hnumber hd _ ih =>
      rw [← dropWhile_append_cons hc] at ih
      have hrun := takeWhile_append_cons hc cs rest
      rw [← hrun]
      exact .ident hseparator hnumber hd ih
  | mark hseparator hnumber hname hd _ ih => exact .mark hseparator hnumber hname hd ih

theorem Cuts.append_mark {cs rest : List Char} {ts us : List Token} {c : Char} {t : Token}
    (h : Cuts cs ts) (hc : IsMark c t) (hrest : Cuts rest us) :
    Cuts (cs ++ c :: rest) (ts ++ t :: us) :=
  h.append_cons hc.not_namePart (hc.cuts hrest)

/-- A mark ends a token wherever it stands, so both sides of it are cut on their own. -/
theorem cuts_append_mark_iff {cs rest : List Char} {vs : List Token} {c : Char} {t : Token}
    (hc : IsMark c t) :
    Cuts (cs ++ c :: rest) vs ↔ ∃ ts us, Cuts cs ts ∧ Cuts rest us ∧ vs = ts ++ t :: us := by
  constructor
  · intro h
    generalize htext : cs ++ c :: rest = text at h
    induction h generalizing cs with
    | nil => simp at htext
    | separator hd hrest ih =>
        rcases List.append_eq_cons_iff.1 htext with ⟨-, hmark⟩ | ⟨before, rfl, rfl⟩
        · cases hmark
          simp [hc.not_separator] at hd
        · obtain ⟨ts, us, hts, hus, rfl⟩ := ih rfl
          exact ⟨ts, us, .separator hd hts, hus, rfl⟩
    | number hseparator hd hrest ih =>
        rcases List.append_eq_cons_iff.1 htext with ⟨-, hmark⟩ | ⟨before, rfl, rfl⟩
        · cases hmark
          simp [hc.not_digit] at hd
        · obtain ⟨ts, us, hts, hus, rfl⟩ := ih (dropWhile_append_cons hc.not_digit ..).symm
          rw [takeWhile_append_cons hc.not_digit]
          exact ⟨_, us, .number hseparator hd hts, hus, rfl⟩
    | ident hseparator hdigit hd hrest ih =>
        rcases List.append_eq_cons_iff.1 htext with ⟨-, hmark⟩ | ⟨before, rfl, rfl⟩
        · cases hmark
          simp [hc.not_nameStart] at hd
        · obtain ⟨ts, us, hts, hus, rfl⟩ := ih (dropWhile_append_cons hc.not_namePart ..).symm
          rw [takeWhile_append_cons hc.not_namePart]
          exact ⟨_, us, .ident hseparator hdigit hd hts, hus, rfl⟩
    | mark hseparator hdigit hname hd hrest ih =>
        rcases List.append_eq_cons_iff.1 htext with ⟨rfl, hmark⟩ | ⟨before, rfl, rfl⟩
        · cases hmark
          obtain rfl := Option.some.inj (hc.ofMark?_eq.symm.trans hd)
          exact ⟨[], _, .nil, hrest, rfl⟩
        · obtain ⟨ts, us, hts, hus, rfl⟩ := ih rfl
          exact ⟨_, us, .mark hseparator hdigit hname hd hts, hus, rfl⟩
  · rintro ⟨ts, us, hcs, hrest, rfl⟩
    exact hcs.append_mark hc hrest

end Token

namespace Tree

theorem ofText_eq_ok_iff_cuts {s : String} {t : Tree} :
    ofText s = .ok t ↔ ∃ ts, Token.Cuts s.toList ts ∧ Derives ts t := by
  simp only [← Token.tokenize_eq_ok_iff_cuts, ← Parser.complete_eq_ok_iff]
  unfold ofText
  cases hcut : Token.tokenize s with
  | error stray => simp
  | ok placed =>
      dsimp only
      cases hparse : Parser.complete (placed.map (·.token)) <;> simp [hparse]

/-- The text of a cast in brackets is the text of the cast with brackets around it. -/
theorem ofText_bracketed_iff {s : String} {t : Tree} :
    ofText ("[" ++ s ++ "]") = .ok t ↔ ∃ c, t = .bracketed c ∧ ofText s = .ok (.plain c) := by
  have hlist : ("[" ++ s ++ "]").toList = [] ++ '[' :: (s.toList ++ ']' :: []) := by simp
  constructor
  · intro h
    obtain ⟨ts, hcuts, w, hw, htokens⟩ := ofText_eq_ok_iff_cuts.1 h
    rw [hlist, Token.cuts_append_mark_iff Token.isMark_openBracket] at hcuts
    obtain ⟨_, inside, ⟨⟩, hinside, rfl⟩ := hcuts
    rw [Token.cuts_append_mark_iff Token.isMark_closeBracket] at hinside
    obtain ⟨us, _, hus, ⟨⟩, rfl⟩ := hinside
    cases hw with
    | plain hc =>
        cases hc
        simp [Lexeme.castWord] at htokens
    | @bracketed u c hc =>
        refine ⟨c, rfl, ofText_eq_ok_iff_cuts.2 ⟨us, hus, u, .plain hc, ?_⟩⟩
        simpa [Lexeme.openBracket, Lexeme.closeBracket] using htokens
  · intro h
    obtain ⟨c, rfl, h⟩ := h
    obtain ⟨ts, hcuts, w, hw, rfl⟩ := ofText_eq_ok_iff_cuts.1 h
    cases hw with
    | plain hc =>
        have hclosed := hcuts.append_mark Token.isMark_closeBracket .nil
        refine ofText_eq_ok_iff_cuts.2 ⟨_, ?_, _, .bracketed hc, rfl⟩
        rw [hlist]
        simpa [Lexeme.openBracket, Lexeme.closeBracket] using
          Token.isMark_openBracket.cuts hclosed

end Tree

end CellHints
