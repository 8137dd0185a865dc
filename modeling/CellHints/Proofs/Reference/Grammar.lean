import CellHints.Proofs.Reference.Misses

/-!
# The parser accepts its grammar

Each parser reads exactly the phrases of its kind, so the tree of a row of tokens
is the only one that the grammar derives from it, and each one explains where it
stops.  The alternatives are tried in order, but the order does NOT matter: no
phrase of a later one starts like a phrase of an earlier one, as long as what
follows is what can follow there.
-/

namespace CellHints.Parser

theorem explains_number :
    Explains number (fun w n => ∃ ds, w = [.number ds] ∧ n = Decimal.value ds.toList) [] := by
  apply (Explains.accept ?found).congr
  · intro w n
    constructor
    · intro h
      obtain ⟨t, rfl, ht⟩ := h
      -- All other tokens are refused.
      cases t <;> simp only [reduceCtorEq, Option.some.injEq] at ht
      exact ⟨_, rfl, ht.symm⟩
    · intro h
      obtain ⟨ds, rfl, rfl⟩ := h
      exact ⟨_, rfl, rfl⟩
  case found => exact ⟨.number "0", _, rfl⟩

theorem explains_sign : Explains sign (fun w s => w = [.sign s]) [] := by
  apply (Explains.accept ?found).congr
  · intro w s
    constructor
    · intro h
      obtain ⟨t, rfl, ht⟩ := h
      cases t <;> simp only [reduceCtorEq, Option.some.injEq] at ht
      · exact ht ▸ rfl
      · exact ht ▸ rfl
    · rintro rfl
      cases s
      · exact ⟨_, rfl, rfl⟩
      · exact ⟨_, rfl, rfl⟩
  case found => exact ⟨.plus, _, rfl⟩

theorem sign_token_mem (s : Tree.Sign) : (Lexeme.sign s).token ∈ [Token.plus, .minus] := by
  cases s with
  | plus => simp [Lexeme.sign]
  | minus => simp [Lexeme.sign]

theorem explains_register : Explains register (fun w r => w = [.register r]) [] := by
  apply (Explains.accept ?found).congr
  · intro w r
    constructor
    · intro h
      obtain ⟨t, rfl, ht⟩ := h
      -- Among names, only those of registers are left.
      cases t <;> simp only [reduceCtorEq] at ht
      rw [Register.eq_name_of_ofName? ht]
      rfl
    · rintro rfl
      exact ⟨_, rfl, Register.ofName?_name r⟩
  case found => exact ⟨.ident Register.ap.name, _, Register.ofName?_name .ap⟩

theorem explains_name : Explains name (fun w s => w = [.typeName s]) [] := by
  apply (Explains.accept ?found).congr
  · intro w s
    constructor
    · intro h
      obtain ⟨t, rfl, ht⟩ := h
      cases t <;> simp only [reduceCtorEq, Option.some.injEq] at ht
      exact ht ▸ rfl
    · rintro rfl
      exact ⟨_, rfl, rfl⟩
  case found => exact ⟨.ident "a", _, rfl⟩

theorem explains_literal : Explains literal Tree.Literal.Spells [] := by
  have hplain := Explains.map explains_number Tree.Literal.plain
  have hnegated := (Explains.enclosed explains_number .minus .closeParen Tree.Literal.negated
    (by simp)).behind .openParen
  apply (hplain.orElse hnegated ?_).congr
  · intro w n
    constructor
    · intro h
      rcases h with ⟨_, ⟨ds, rfl, rfl⟩, rfl⟩ | ⟨_, ⟨_, _, ⟨ds, rfl, rfl⟩, rfl, rfl⟩, rfl⟩
      · exact .plain ds
      · exact .negated ds
    · intro h
      cases h with
      | plain ds => exact Or.inl ⟨_, ⟨ds, rfl, rfl⟩, rfl⟩
      | negated ds => exact Or.inr ⟨_, ⟨_, _, ⟨ds, rfl, rfl⟩, rfl, rfl⟩, rfl⟩
  · -- Digits are no parenthesis.
    intro v n rest hv _
    obtain ⟨u, -, rfl⟩ := hv
    intro w m rest' hw h
    obtain ⟨_, ⟨ds, rfl, -⟩, -⟩ := hw
    cases h

/-- The phrases of a register with a distance. -/
def SpellsShifted (w : List Lexeme) (p : Tree.Place) : Prop :=
  ∃ r s n, Tree.Place.Spells w p ∧ p = .shifted r s n

theorem explains_shifted : Explains shifted SpellsShifted [] := by
  apply (Explains.bind' explains_register fun r => Explains.bind' explains_sign fun s =>
    Explains.map explains_literal fun n => Tree.Place.shifted r s n).congr
  intro w p
  constructor
  · intro h
    obtain ⟨r, _, _, rfl, ⟨s, _, u, rfl, ⟨n, hn, rfl⟩, rfl⟩, rfl⟩ := h
    exact ⟨r, s, n, .shifted r s hn, rfl⟩
  · intro h
    obtain ⟨r, s, n, hp, rfl⟩ := h
    cases hp with
    | shifted _ _ hn => exact ⟨r, [_], _, rfl, ⟨s, [_], _, rfl, ⟨n, hn, rfl⟩, rfl⟩, rfl⟩

theorem explains_bare : Explains bare (fun w p => ∃ r, w = [.register r] ∧ p = .bare r) [] :=
  (Explains.map explains_register Tree.Place.bare).congr fun _ _ => Iff.rfl

/-- Between brackets a register stands alone only if no sign follows. -/
theorem explains_innerPlace : Explains (shifted <|> bare) Tree.Place.Spells [.plus, .minus] := by
  have hshifted := Explains.mono explains_shifted (List.nil_subset [.plus, .minus])
  have hbare := Explains.mono explains_bare (List.nil_subset [.plus, .minus])
  apply (hshifted.orElse hbare ?_).congr
  · intro w p
    constructor
    · intro h
      rcases h with ⟨r, s, n, hp, -⟩ | ⟨r, rfl, rfl⟩
      · exact hp
      · exact .bare r
    · intro hp
      cases hp with
      | bare r => exact Or.inr ⟨r, rfl, rfl⟩
      | shifted r s hn => exact Or.inl ⟨r, s, _, .shifted r s hn, rfl⟩
  · intro v p rest hv hrest
    obtain ⟨r, rfl, rfl⟩ := hv
    intro w q rest' hw h
    obtain ⟨r', s, n, hq, rfl⟩ := hw
    cases hq with
    | shifted _ _ hn =>
        -- The sign would be the first token that follows.
        obtain ⟨-, rfl⟩ := List.cons.inj h
        exact startsNot_cons_iff.1 hrest (sign_token_mem s)

/-- The phrases of a place in brackets. -/
def SpellsDeref (w : List Lexeme) (p : Tree.Place) : Prop :=
  ∃ u, Tree.Place.Spells u p ∧ w = .openBracket :: u ++ [.closeBracket]

theorem explains_deref : Explains deref SpellsDeref [] := by
  have hplace := Explains.enclosed explains_innerPlace .openBracket .closeBracket id
    (by simp [Lexeme.closeBracket])
  apply hplace.congr
  intro w p
  constructor
  · intro h
    obtain ⟨p, u, hp, rfl, rfl⟩ := h
    exact ⟨u, hp, rfl⟩
  · intro h
    obtain ⟨u, hp, rfl⟩ := h
    exact ⟨p, u, hp, rfl, rfl⟩

/-- A place in brackets starts with a bracket and a register. -/
theorem SpellsDeref.starts {w : List Lexeme} {p : Tree.Place} (h : SpellsDeref w p) :
    ∃ r u, w = .openBracket :: .register r :: u := by
  obtain ⟨u, hp, rfl⟩ := h
  cases hp with
  | bare r => exact ⟨r, _, rfl⟩
  | shifted r s hn => exact ⟨r, _, rfl⟩

/-- The phrases of double brackets, with a distance or without. -/
inductive SpellsDouble : List Lexeme → Tree.Factor → Prop
  | far {w u : List Lexeme} {p : Tree.Place} {n : Tree.Literal} (s : Tree.Sign)
      (hp : SpellsDeref w p) (hn : Tree.Literal.Spells u n) :
      SpellsDouble (.openBracket :: w ++ .sign s :: u ++ [.closeBracket])
        (.doubleDerefShifted p s n)
  | near {w : List Lexeme} {p : Tree.Place} (hp : SpellsDeref w p) :
      SpellsDouble (.openBracket :: w ++ [.closeBracket]) (.doubleDeref p)

theorem SpellsDouble.starts {w : List Lexeme} {f : Tree.Factor} (h : SpellsDouble w f) :
    ∃ u, w = .openBracket :: .openBracket :: u := by
  cases h with
  | far s hp hn =>
      obtain ⟨r, u, rfl⟩ := hp.starts
      exact ⟨_, rfl⟩
  | near hp =>
      obtain ⟨r, u, rfl⟩ := hp.starts
      exact ⟨_, rfl⟩

theorem explains_doubleDeref : Explains doubleDeref SpellsDouble [] := by
  have hfar := (Explains.bind' explains_deref fun p => Explains.bind' explains_sign fun s =>
    Explains.closed explains_literal .closeBracket (Tree.Factor.doubleDerefShifted p s)
      (by simp)).behind .openBracket
  have hnear := Explains.enclosed explains_deref .openBracket .closeBracket
    Tree.Factor.doubleDeref (by simp)
  apply (hfar.orElse hnear ?_).congr
  · intro w f
    constructor
    · intro h
      rcases h with ⟨_, ⟨p, u, _, hp, ⟨s, _, _, rfl, ⟨n, v, hn, rfl, rfl⟩, rfl⟩, rfl⟩, rfl⟩ |
        ⟨p, u, hp, rfl, rfl⟩
      · have hspells := SpellsDouble.far s hp hn
        simpa using hspells
      · exact .near hp
    · intro h
      cases h with
      | @far u v p n s hp hn =>
          refine Or.inl ⟨u ++ ([.sign s] ++ (v ++ [.closeBracket])), ?_, by simp⟩
          exact ⟨p, u, _, hp, ⟨s, [_], _, rfl, ⟨n, v, hn, rfl, rfl⟩, rfl⟩, rfl⟩
      | near hp => exact Or.inr ⟨_, _, hp, rfl, rfl⟩
  · intro v f rest hv _
    obtain ⟨p, u, hp, rfl, rfl⟩ := hv
    intro w f' rest' hw h
    obtain ⟨_, ⟨p', u', _, hp', ⟨s, _, _, rfl, -, rfl⟩, rfl⟩, rfl⟩ := hw
    -- Behind the inner brackets stands a sign in one reading and `]` in the other.
    simp only [List.map_cons, List.map_append, List.cons_append, List.append_assoc,
      List.cons.injEq, true_and] at h
    obtain ⟨-, hnext⟩ := Reads.unique (Explains.toReads explains_deref) hp' hp h
    have hsign := sign_token_mem s
    rw [(List.cons.inj hnext).1] at hsign
    simp [Lexeme.closeBracket] at hsign

/-- The phrases of a place outside brackets. -/
inductive SpellsPlace : List Lexeme → Tree.Place → Prop
  | shifted {w : List Lexeme} {p : Tree.Place} (hp : SpellsShifted w p) :
      SpellsPlace (.openParen :: w ++ [.closeParen]) p
  | bare (r : Register) : SpellsPlace [.register r] (.bare r)

theorem explains_place : Explains place SpellsPlace [] := by
  have hshifted := Explains.enclosed explains_shifted .openParen .closeParen id (by simp)
  apply (hshifted.orElse explains_bare ?_).congr
  · intro w p
    constructor
    · intro h
      rcases h with ⟨p, u, hp, rfl, rfl⟩ | ⟨r, rfl, rfl⟩
      · exact .shifted hp
      · exact .bare r
    · intro h
      cases h with
      | shifted hp => exact Or.inl ⟨p, _, hp, rfl, rfl⟩
      | bare r => exact Or.inr ⟨r, rfl, rfl⟩
  · -- A register is no parenthesis.
    intro v p rest hv _
    obtain ⟨r, rfl, rfl⟩ := hv
    intro w q rest' hw h
    obtain ⟨_, u, -, rfl, -⟩ := hw
    cases h

/-- The phrases of a factor by the parser that is to read them. -/
theorem factor_spells_iff {w : List Lexeme} {f : Tree.Factor} :
    Tree.Factor.Spells w f ↔ SpellsDouble w f ∨ (∃ p, SpellsDeref w p ∧ f = .deref p) ∨
      (∃ p, SpellsPlace w p ∧ f = .place p) ∨ ∃ n, Tree.Literal.Spells w n ∧ f = .integer n := by
  constructor
  · intro h
    cases h with
    | doubleDeref hp =>
        have h := SpellsDouble.near ⟨_, hp, rfl⟩
        exact Or.inl (by simpa using h)
    | doubleDerefShifted s hp hn =>
        have h := SpellsDouble.far s ⟨_, hp, rfl⟩ hn
        exact Or.inl (by simpa using h)
    | deref hp => exact Or.inr (Or.inl ⟨_, ⟨_, hp, rfl⟩, rfl⟩)
    | register r => exact Or.inr (Or.inr (Or.inl ⟨_, .bare r, rfl⟩))
    | shiftedRegister hp =>
        exact Or.inr (Or.inr (Or.inl ⟨_, .shifted ⟨_, _, _, hp, rfl⟩, rfl⟩))
    | integer hn => exact Or.inr (Or.inr (Or.inr ⟨_, hn, rfl⟩))
  · intro h
    rcases h with h | ⟨p, ⟨u, hp, rfl⟩, rfl⟩ | ⟨p, h, rfl⟩ | ⟨n, hn, rfl⟩
    · cases h with
      | far s hp hn =>
          obtain ⟨u, hp, rfl⟩ := hp
          have h := Tree.Factor.Spells.doubleDerefShifted s hp hn
          simpa using h
      | near hp =>
          obtain ⟨u, hp, rfl⟩ := hp
          have h := Tree.Factor.Spells.doubleDeref hp
          simpa using h
    · exact .deref hp
    · cases h with
      | shifted hp =>
          obtain ⟨r, s, n, hp, rfl⟩ := hp
          exact .shiftedRegister hp
      | bare r => exact .register r
    · exact .integer hn

/-- Which factor a phrase is shows in its first two tokens. -/
theorem explains_factor : Explains factor Tree.Factor.Spells [] := by
  have hplain := Explains.map explains_literal Tree.Factor.integer
  have hplace := Explains.map explains_place Tree.Factor.place
  have hderef := Explains.map explains_deref Tree.Factor.deref
  have hrest := hderef.orElse (hplace.orElse hplain ?placeFails) ?derefFails
  apply (Explains.orElse explains_doubleDeref hrest ?doubleFails).congr
  · intro w f
    exact factor_spells_iff.symm
  case placeFails =>
    intro v f rest hv _
    obtain ⟨n, hn, rfl⟩ := hv
    intro w g rest' hw h
    obtain ⟨p, hp, rfl⟩ := hw
    cases hp with
    | shifted hp =>
        obtain ⟨r, s, m, hp, rfl⟩ := hp
        cases hp
        cases hn <;> simp [Lexeme.openParen, Lexeme.register, Lexeme.number, Lexeme.minus] at h
    | bare r => cases hn <;> simp [Lexeme.openParen, Lexeme.register, Lexeme.number] at h
  case derefFails =>
    -- Neither a place nor a literal starts with a bracket.
    intro v f rest hv _ w g rest' hw h
    obtain ⟨p, hp, rfl⟩ := hw
    obtain ⟨r, u, rfl⟩ := hp.starts
    rcases hv with ⟨q, hq, rfl⟩ | ⟨n, hn, rfl⟩
    · cases hq <;> simp [Lexeme.openBracket, Lexeme.openParen, Lexeme.register] at h
    · cases hn <;> simp [Lexeme.openBracket, Lexeme.openParen, Lexeme.number] at h
  case doubleFails =>
    -- No other factor starts with two brackets.
    intro v f rest hv _ w g rest' hw h
    obtain ⟨u, rfl⟩ := hw.starts
    rcases hv with ⟨p, hp, rfl⟩ | ⟨q, hq, rfl⟩ | ⟨n, hn, rfl⟩
    · obtain ⟨r, u', rfl⟩ := hp.starts
      simp [Lexeme.openBracket, Lexeme.register] at h
    · cases hq <;> simp [Lexeme.openBracket, Lexeme.openParen, Lexeme.register] at h
    · cases hn <;> simp [Lexeme.openBracket, Lexeme.openParen, Lexeme.number] at h

/-- A factor is a whole term only if no `*` follows. -/
theorem explains_term : Explains term Tree.Term.Spells [.star] := by
  have hproduct := (Explains.bind' explains_factor fun lhs =>
    (Explains.map explains_factor (Tree.Term.product lhs)).behind .star).mono
      (List.nil_subset [.star])
  have hfactor := (Explains.map explains_factor Tree.Term.factor).mono (List.nil_subset [.star])
  apply (hproduct.orElse hfactor ?_).congr
  · intro w t
    constructor
    · intro h
      rcases h with ⟨lhs, u, _, hl, ⟨v, ⟨rhs, hr, rfl⟩, rfl⟩, rfl⟩ | ⟨f, hf, rfl⟩
      · exact .product hl hr
      · exact .factor hf
    · intro h
      cases h with
      | product hl hr => exact Or.inl ⟨_, _, _, hl, ⟨_, ⟨_, hr, rfl⟩, rfl⟩, rfl⟩
      | factor hf => exact Or.inr ⟨_, hf, rfl⟩
  · intro v t rest hv hrest
    obtain ⟨f, hf, rfl⟩ := hv
    intro w t' rest' hw h
    obtain ⟨lhs, u, _, hl, ⟨u', -, rfl⟩, rfl⟩ := hw
    -- A factor ends in one place only, so the star would have to follow it.
    simp only [List.map_append, List.map_cons, List.append_assoc, List.cons_append] at h
    obtain ⟨-, rfl⟩ := Reads.unique (Explains.toReads explains_factor) hl hf h
    simp [Lexeme.star] at hrest

/-- The phrases of one summand. -/
def SpellsSummand (w : List Lexeme) (x : Tree.Sign × Tree.Term) : Prop :=
  ∃ s u t, Tree.Term.Spells u t ∧ w = .sign s :: u ∧ x = (s, t)

theorem explains_summand : Explains summand SpellsSummand [.star] := by
  apply (Explains.bind' explains_sign fun s => Explains.map explains_term fun t => (s, t)).congr
  intro w x
  constructor
  · intro h
    obtain ⟨s, _, u, rfl, ⟨t, ht, rfl⟩, rfl⟩ := h
    exact ⟨s, u, t, ht, rfl, rfl⟩
  · intro h
    obtain ⟨s, u, t, ht, rfl, rfl⟩ := h
    exact ⟨s, [_], u, rfl, ⟨t, ht, rfl⟩, rfl⟩

theorem repeated_spellsSummand_iff {w : List Lexeme} {rest : List (Tree.Sign × Tree.Term)} :
    Repeated SpellsSummand w rest ↔ Tree.SpellSummands w rest := by
  constructor
  · intro h
    induction h with
    | nil => exact .nil
    | cons hx _ ih =>
        obtain ⟨s, u, t, ht, rfl, rfl⟩ := hx
        exact .cons s ht ih
  · intro h
    induction h with
    | nil => exact .nil
    | cons s ht _ ih => exact .cons ⟨s, _, _, ht, rfl, rfl⟩ ih

/-- A summand starts with a sign, and so with nothing else. -/
theorem SpellsSummand.startsNot {w : List Lexeme} {x : Tree.Sign × Tree.Term}
    (h : SpellsSummand w x) (rest : List Token) :
    StartsNot [.star] (w.map (·.token) ++ rest) := by
  obtain ⟨s, u, t, -, rfl, -⟩ := h
  cases s with
  | plus => simp [Lexeme.sign]
  | minus => simp [Lexeme.sign]

theorem explains_summands : Explains (many summand) Tree.SpellSummands [.star, .plus, .minus] := by
  have hmany : Explains (many summand) (Repeated SpellsSummand) [.star, .plus, .minus] := by
    apply Explains.many explains_summand
    · intro w x hw
      obtain ⟨s, u, t, -, rfl, -⟩ := hw
      exact List.cons_ne_nil _ _
    · intro w x rest hx
      exact hx.startsNot rest
    · intro rest hrest
      -- The row ends where no sign follows.
      refine ⟨hrest.mono (by simp), Reads.eq_none (Explains.toReads explains_summand) ?_⟩
      rintro w x rest' ⟨s, u, t, -, rfl, -⟩ rfl
      exact startsNot_cons_iff.1 hrest (List.mem_cons_of_mem _ (sign_token_mem s))
  exact hmany.congr fun _ _ => repeated_spellsSummand_iff

theorem explains_chain : Explains chain Tree.Chain.Spells [.star, .plus, .minus] := by
  have hsum := Explains.bind explains_term
    (fun first => Explains.map explains_summands fun others => Tree.Chain.mk first others) ?_
  · apply hsum.congr
    intro w c
    constructor
    · intro h
      obtain ⟨first, u, v, hfirst, ⟨others, hothers, rfl⟩, rfl⟩ := h
      exact ⟨hfirst, hothers⟩
    · intro h
      obtain ⟨hfirst, hothers⟩ := h
      exact ⟨_, _, _, hfirst, ⟨_, hothers, rfl⟩, rfl⟩
  · intro first v c rest hv hrest
    obtain ⟨others, hothers, rfl⟩ := hv
    cases hothers with
    | nil => exact hrest.mono (by simp)
    | cons s ht _ =>
        rw [List.map_append, List.append_assoc]
        exact SpellsSummand.startsNot ⟨s, _, _, ht, rfl, rfl⟩ _

/-- The phrases of the further parts of a dotted name. -/
theorem repeated_names_iff {w : List Lexeme} {tail : List String} :
    Repeated (Behind .dot fun u s => u = [.typeName s]) w tail ↔
      w = tail.flatMap fun s => [.dot, .typeName s] := by
  constructor
  · intro h
    induction h with
    | nil => rfl
    | cons hs _ ih =>
        obtain ⟨_, rfl, rfl⟩ := hs
        simp [ih]
  · rintro rfl
    induction tail with
    | nil => exact .nil
    | cons s tail ih => exact .cons ⟨_, rfl, rfl⟩ ih

theorem explains_names : Explains (many (token .dot .dot >>= fun _ => name))
    (fun w tail => w = tail.flatMap fun s => [.dot, .typeName s]) [.dot] := by
  have hname := Explains.behind explains_name .dot
  have hmany : Explains (many (token .dot .dot >>= fun _ => name))
      (Repeated (Behind .dot fun u s => u = [.typeName s])) [.dot] := by
    apply hname.many
    · intro w s hw
      obtain ⟨_, rfl, rfl⟩ := hw
      exact List.cons_ne_nil _ _
    · intro w s rest _
      exact startsNot_nil _
    · intro rest hrest
      -- The row ends where no dot follows, with or without stars.
      refine ⟨startsNot_nil rest, hname.eq_none ?_⟩
      rintro w s rest' ⟨_, rfl, rfl⟩ rfl
      simp [Lexeme.dot] at hrest
  exact hmany.congr fun _ _ => repeated_names_iff

/-- A third `*` would be left over. -/
theorem explains_typeName : Explains typeName Tree.TypeName.Spells [.dot, .star] := by
  have hstars := (Explains.atMost .star .star 2).mono (List.subset_cons_self Token.dot [.star])
  have hpath := fun head => Explains.bind explains_names
    (fun tail => hstars.map fun pointers => Tree.TypeName.mk head tail pointers) ?_
  · apply (Explains.bind' explains_name hpath).congr
    intro w t
    constructor
    · intro h
      obtain ⟨head, _, _, rfl, ⟨tail, _, _, rfl, ⟨k, ⟨hk, rfl⟩, rfl⟩, rfl⟩, rfl⟩ := h
      exact .mk head tail k hk
    · intro h
      obtain ⟨head, tail, k, hk⟩ := h
      exact ⟨head, [_], _, rfl, ⟨tail, _, _, rfl, ⟨k, ⟨hk, rfl⟩, rfl⟩, rfl⟩, rfl⟩
  · intro tail v t rest hv hrest
    obtain ⟨k, ⟨-, rfl⟩, rfl⟩ := hv
    cases k with
    | zero => exact hrest.mono (by simp)
    | succ k => simp [List.replicate_succ]

theorem explains_cast : Explains cast Tree.Cast.Spells [] := by
  have htype := fun value => (Explains.closed explains_typeName .closeParen (Tree.Cast.mk value)
    (by simp [Lexeme.closeParen])).behind .comma
  have hvalue := Explains.bind explains_chain htype ?_
  · apply ((hvalue.behind .openParen).behind .castWord).congr
    intro w c
    constructor
    · intro h
      obtain ⟨_, ⟨_, ⟨value, u, _, hu, ⟨_, ⟨type, v, hv, rfl, rfl⟩, rfl⟩, rfl⟩, rfl⟩, rfl⟩ := h
      have hspells := Tree.Cast.Spells.mk hu hv
      simpa using hspells
    · intro h
      cases h with
      | mk hu hv =>
          refine ⟨_, ⟨_, ⟨_, _, _, hu, ⟨_, ⟨_, _, hv, rfl, rfl⟩, rfl⟩, rfl⟩, rfl⟩, ?_⟩
          simp
  · -- The comma goes on neither with a term nor with a sum.
    intro value v c rest hv _
    obtain ⟨u, -, rfl⟩ := hv
    simp [Lexeme.comma]

theorem explains_tree : Explains tree Tree.Spells [] := by
  have hbracketed := Explains.enclosed explains_cast .openBracket .closeBracket Tree.bracketed
    (by simp)
  have hplain := Explains.map explains_cast Tree.plain
  apply (hbracketed.orElse hplain ?_).congr
  · intro w t
    constructor
    · intro h
      rcases h with ⟨c, u, hc, rfl, rfl⟩ | ⟨c, hc, rfl⟩
      · exact .bracketed hc
      · exact .plain hc
    · intro h
      cases h with
      | bracketed hc => exact Or.inl ⟨_, _, hc, rfl, rfl⟩
      | plain hc => exact Or.inr ⟨_, hc, rfl⟩
  · intro v t rest hv _
    obtain ⟨c, ⟨_, _⟩, rfl⟩ := hv
    intro w t' rest' hw h
    obtain ⟨_, u, -, rfl, -⟩ := hw
    simp [Lexeme.openBracket, Lexeme.castWord] at h

theorem reads_tree : Reads tree Tree.Spells [] :=
  Explains.toReads explains_tree

/-- The parser finds a tree exactly if the whole row of tokens spells it. -/
theorem complete_eq_ok_iff {ts : List Token} {t : Tree} :
    complete ts = .ok t ↔ Tree.Derives ts t := by
  constructor
  · intro h
    unfold complete at h
    split at h
    · next u misses hread =>
        -- No token is left over, so the phrase is the whole row.
        obtain ⟨w, hw, hts⟩ := Reads.sound reads_tree (congrArg Prod.fst hread)
        cases h
        exact ⟨w, hw, by simpa using hts⟩
    · contradiction
    · contradiction
  · intro h
    obtain ⟨w, hw, rfl⟩ := h
    have hread := Reads.complete reads_tree hw (startsNot_nil [])
    rw [List.append_nil] at hread
    rcases htree : tree (w.map (·.token)) with ⟨found, misses⟩
    rw [htree] at hread
    cases hread
    simp [complete, htree]

end CellHints.Parser

namespace CellHints.Tree

/-- No row of tokens spells two trees. -/
theorem Derives.unique {ts : List Token} {t u : Tree} (ht : Derives ts t) (hu : Derives ts u) :
    t = u := by
  have hparse := Parser.complete_eq_ok_iff.2 ht
  rw [Parser.complete_eq_ok_iff.2 hu] at hparse
  cases hparse
  rfl

/-- A text that can be cut into tokens has a tree exactly if the grammar derives it
from them, and from no tokens does the grammar derive two. -/
theorem ofText_eq_ok_iff_derives :
    (∀ s placed, Token.tokenize s = .ok placed →
      ∀ t, ofText s = .ok t ↔ Derives (placed.map (·.token)) t) ∧
    ∀ ts t u, Derives ts t → Derives ts u → t = u := by
  refine ⟨?_, fun ts t u => Derives.unique⟩
  intro s placed hcut t
  rw [← Parser.complete_eq_ok_iff]
  unfold ofText
  simp only [hcut]
  cases Parser.complete (placed.map (·.token)) with
  | ok u => simp
  | error misses => simp

/-- The text `[cast([fp + (-3)] * 2, a.b*)]`. -/
theorem ofText_eq_ok_iff_derives_product :
    let s := "[cast([fp + (-3)] * 2, a.b*)]"
    let placed : List PlacedToken :=
      [⟨.openBracket, 0, 1⟩, ⟨.ident "cast", 1, 5⟩, ⟨.openParen, 5, 6⟩, ⟨.openBracket, 6, 7⟩,
        ⟨.ident "fp", 7, 9⟩, ⟨.plus, 10, 11⟩, ⟨.openParen, 12, 13⟩, ⟨.minus, 13, 14⟩,
        ⟨.number "3", 14, 15⟩, ⟨.closeParen, 15, 16⟩, ⟨.closeBracket, 16, 17⟩, ⟨.star, 18, 19⟩,
        ⟨.number "2", 20, 21⟩, ⟨.comma, 21, 22⟩, ⟨.ident "a", 23, 24⟩, ⟨.dot, 24, 25⟩,
        ⟨.ident "b", 25, 26⟩, ⟨.star, 26, 27⟩, ⟨.closeParen, 27, 28⟩, ⟨.closeBracket, 28, 29⟩]
    let t : Tree :=
      .bracketed ⟨⟨.product (.deref (.shifted .fp .plus (.negated 3))) (.integer (.plain 2)), []⟩,
        ⟨"a", ["b"], 1⟩⟩
    Token.tokenize s = .ok placed ∧ Derives (placed.map (·.token)) t ∧ ofText s = .ok t ∧
      ∀ u, Derives (placed.map (·.token)) u → u = t := by
  intro s placed t
  have hcut : Token.tokenize s = .ok placed := by
    simp [s, placed, Token.tokenize, Token.scan, Token.isSeparator, Token.isNameStart,
      Token.isNamePart, Token.ofMark?, Except.map]
  have hfactor := Factor.Spells.deref (.shifted .fp .plus (.negated "3"))
  have hvalue := Chain.Spells.mk (.product hfactor (.integer (.plain "2"))) .nil
  have hderives : Derives (placed.map (·.token)) t :=
    ⟨_, .bracketed (.mk hvalue (.mk "a" ["b"] 1 (by decide))), rfl⟩
  refine ⟨hcut, hderives, (ofText_eq_ok_iff_derives.1 s placed hcut t).2 hderives, ?_⟩
  intro u hu
  exact ofText_eq_ok_iff_derives.2 _ u t hu hderives

end CellHints.Tree
