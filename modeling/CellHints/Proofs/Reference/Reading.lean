import CellHints.Reference.Grammar
import CellHints.Reference.Parser

/-!
# What a parser reads

A parser reads a language if it takes phrases of the language, and nothing else,
from the front of a row of tokens.  It need NOT take a phrase that goes on: each
language comes with the tokens that must not follow, such as `*` behind a
factor that is to be a whole term.  Sequences, alternatives and repetitions of
parsers read the corresponding languages.
-/

namespace CellHints.Parser

variable {α β : Type} {p q : Parser α} {f : α → Parser β}

/-- Whether a row of tokens starts with none of `stops`. -/
def StartsNot (stops ts : List Token) : Prop := ∀ t ∈ stops, ts.head? ≠ some t

/-- Whether `p` reads the phrases of `L` that are not followed by one of `stops`. -/
structure Reads (p : Parser α) (L : List Lexeme → α → Prop) (stops : List Token) : Prop where
  sound : ∀ {ts a rest}, (p ts).1 = some (a, rest) → ∃ w, L w a ∧ w.map (·.token) ++ rest = ts
  complete : ∀ {w a rest}, L w a → StartsNot stops rest →
    (p (w.map (·.token) ++ rest)).1 = some (a, rest)

/-- The language of the empty phrase, which denotes `a`. -/
def Nothing (a : α) : List Lexeme → α → Prop := fun w b => w = [] ∧ b = a

/-- The language of two phrases one behind the other. -/
def Sequence (L : List Lexeme → α → Prop) (M : α → List Lexeme → β → Prop) :
    List Lexeme → β → Prop :=
  fun w b => ∃ a u v, L u a ∧ M a v b ∧ w = u ++ v

/-- The language of phrases behind one fixed token. -/
def Behind (l : Lexeme) (M : List Lexeme → β → Prop) : List Lexeme → β → Prop :=
  fun w b => ∃ u, M u b ∧ w = l :: u

/-- The language of any number of phrases one behind the other. -/
inductive Repeated (L : List Lexeme → α → Prop) : List Lexeme → List α → Prop
  | nil : Repeated L [] []
  | cons {w u : List Lexeme} {a : α} {as : List α} (ha : L w a) (has : Repeated L u as) :
      Repeated L (w ++ u) (a :: as)

@[simp] theorem startsNot_nil (ts : List Token) : StartsNot [] ts := by
  intro t ht
  contradiction

@[simp] theorem startsNot_cons_iff {stops rest : List Token} {t : Token} :
    StartsNot stops (t :: rest) ↔ t ∉ stops := by
  constructor
  · intro h ht
    exact h t ht rfl
  · rintro h u hu heq
    cases heq
    exact h hu

theorem StartsNot.mono {stops more ts : List Token} (h : StartsNot more ts)
    (hsub : stops ⊆ more) : StartsNot stops ts :=
  fun t ht => h t (hsub ht)

/-- A sequence answers exactly if both parts do. -/
theorem bind_eq_some_iff {ts rest : List Token} {b : β} :
    ((p >>= f) ts).1 = some (b, rest) ↔
      ∃ a mid, (p ts).1 = some (a, mid) ∧ (f a mid).1 = some (b, rest) := by
  rcases hp : p ts with ⟨_ | ⟨a, mid⟩, misses⟩
  · have hbind : ((p >>= f) ts).1 = none := by simp only [Bind.bind, hp]
    simp [hbind]
  · have hbind : ((p >>= f) ts).1 = (f a mid).1 := by simp only [Bind.bind, hp]
    rw [hbind]
    constructor
    · intro h
      exact ⟨a, mid, rfl, h⟩
    · intro h
      obtain ⟨_, _, ⟨⟩, h⟩ := h
      exact h

theorem orElse_fst (ts : List Token) :
    ((p <|> q) ts).1 = ((p ts).1.or (q ts).1) := by
  show (orElse p q ts).1 = _
  unfold orElse
  rcases p ts with ⟨_ | found, misses⟩
  · rfl
  · rfl

/-- A repetition ends where no phrase can be read. -/
theorem many_eq_of_eq_none {ts : List Token} (h : (p ts).1 = none) :
    (many p ts).1 = some ([], ts) := by
  rw [many]
  rcases hread : p ts with ⟨_ | found, misses⟩
  · rfl
  · rw [hread] at h
    contradiction

/-- A repetition goes on behind a phrase that takes tokens. -/
theorem many_eq_of_eq_some {ts mid rest : List Token} {a : α} {as : List α}
    (h : (p ts).1 = some (a, mid)) (hlt : mid.length < ts.length)
    (hmany : (many p mid).1 = some (as, rest)) : (many p ts).1 = some (a :: as, rest) := by
  rw [many]
  rcases hread : p ts with ⟨found, misses⟩
  rcases hnext : many p mid with ⟨found, more⟩
  rw [hread] at h
  rw [hnext] at hmany
  cases h
  cases hmany
  simp [hnext, hlt]

namespace Reads

variable {L L' : List Lexeme → α → Prop} {M : α → List Lexeme → β → Prop}
  {stops more : List Token}

theorem mono (hp : Reads p L stops) (hsub : stops ⊆ more) : Reads p L more where
  sound := hp.sound
  complete := fun hw hstop => hp.complete hw (hstop.mono hsub)

/-- No phrase of a language that can be read without regard to what follows is the
beginning of another, so the front of a row of tokens spells at most one. -/
theorem unique (hp : Reads p L []) {w u : List Lexeme} {a b : α} {rest rest' : List Token}
    (hw : L w a) (hu : L u b) (h : w.map (·.token) ++ rest = u.map (·.token) ++ rest') :
    a = b ∧ rest = rest' := by
  -- The parser has one answer at each row of tokens, and both are that answer.
  have hread := hp.complete hw (startsNot_nil rest)
  rw [h, hp.complete hu (startsNot_nil rest')] at hread
  cases hread
  exact ⟨rfl, rfl⟩

theorem pure (a : α) : Reads (pure a) (Nothing a) [] where
  sound := by
    intro ts b rest h
    cases h
    exact ⟨[], ⟨rfl, rfl⟩, rfl⟩
  complete := by
    intro w b rest hw _
    obtain ⟨rfl, rfl⟩ := hw
    rfl

/-- One token with a value; the value belongs to no other token. -/
theorem accept {wanted : Expectation} {g : Token → Option α} :
    Reads (accept wanted g) (fun w a => ∃ t, w = [⟨wanted, t⟩] ∧ g t = some a) [] where
  sound := by
    intro ts a rest h
    cases ts with
    | nil => contradiction
    | cons t ts =>
        unfold Parser.accept at h
        cases hg : g t with
        | none =>
            simp [hg] at h
        | some b =>
            simp only [hg, Option.some.injEq, Prod.mk.injEq] at h
            obtain ⟨rfl, rfl⟩ := h
            exact ⟨[⟨wanted, t⟩], ⟨t, rfl, hg⟩, rfl⟩
  complete := by
    intro w a rest hw _
    obtain ⟨t, rfl, hg⟩ := hw
    simp [Parser.accept, hg]

/-- A sequence reads a sequence, if what may follow the first part does. -/
theorem bind (hp : Reads p L stops) (hf : ∀ a, Reads (f a) (M a) more)
    (hstop : ∀ a v b rest, M a v b → StartsNot more rest →
      StartsNot stops (v.map (·.token) ++ rest)) :
    Reads (p >>= f) (Sequence L M) more where
  sound := by
    intro ts b rest h
    obtain ⟨a, mid, ha, hb⟩ := bind_eq_some_iff.1 h
    obtain ⟨u, hu, rfl⟩ := hp.sound ha
    obtain ⟨v, hv, rfl⟩ := (hf a).sound hb
    exact ⟨u ++ v, ⟨a, u, v, hu, hv, rfl⟩, by simp⟩
  complete := by
    intro w b rest hw hrest
    obtain ⟨a, u, v, hu, hv, rfl⟩ := hw
    have hfirst := hp.complete hu (hstop a v b rest hv hrest)
    rw [List.map_append, List.append_assoc]
    exact bind_eq_some_iff.2 ⟨a, _, hfirst, (hf a).complete hv hrest⟩

/-- Ordered alternatives read either language, if the first one fails on the
phrases of the second. -/
theorem orElse (hp : Reads p L stops) (hq : Reads q L' stops)
    (hfail : ∀ v b rest, L' v b → StartsNot stops rest →
      (p (v.map (·.token) ++ rest)).1 = none) :
    Reads (p <|> q) (fun w a => L w a ∨ L' w a) stops where
  sound := by
    intro ts a rest h
    rw [orElse_fst, Option.or_eq_some_iff] at h
    rcases h with h | ⟨-, h⟩
    · obtain ⟨w, hw, hts⟩ := hp.sound h
      exact ⟨w, Or.inl hw, hts⟩
    · obtain ⟨w, hw, hts⟩ := hq.sound h
      exact ⟨w, Or.inr hw, hts⟩
  complete := by
    intro w a rest hw hrest
    rcases hw with hw | hw
    · rw [orElse_fst, hp.complete hw hrest]
      rfl
    · rw [orElse_fst, hfail w a rest hw hrest, hq.complete hw hrest]
      rfl

/-- A parser fails on tokens that do not start with a phrase of its language. -/
theorem eq_none (hp : Reads p L stops) {ts : List Token}
    (h : ∀ w a rest, L w a → w.map (·.token) ++ rest ≠ ts) : (p ts).1 = none := by
  rw [Option.eq_none_iff_forall_ne_some]
  intro h hread
  obtain ⟨a, rest⟩ := h
  obtain ⟨w, hw, hts⟩ := hp.sound hread
  exact h w a rest hw hts

/-- A row of phrases without tokens is read as far as it goes. -/
theorem sound_many (hp : Reads p L stops) {ts rest : List Token} {as : List α}
    (h : (many p ts).1 = some (as, rest)) :
    ∃ w, Repeated L w as ∧ w.map (·.token) ++ rest = ts := by
  -- The induction is on the number of tokens, as the repetition itself is.
  induction hlen : ts.length using Nat.strongRecOn generalizing ts as rest with
  | ind n ih =>
      rw [many] at h
      rcases hread : p ts with ⟨_ | ⟨a, mid⟩, misses⟩
      · simp only [hread] at h
        cases h
        exact ⟨[], .nil, rfl⟩
      · simp only [hread] at h
        split at h
        · next hlt =>
            obtain ⟨w, hw, hts⟩ := hp.sound (by rw [hread])
            rcases hmany : many p mid with ⟨_ | ⟨bs, last⟩, more⟩
            · simp only [hmany] at h
              contradiction
            · simp only [hmany] at h
              cases h
              obtain ⟨u, hu, hmid⟩ := ih mid.length (by omega) (by rw [hmany]) rfl
              exact ⟨w ++ u, .cons hw hu, by simp [hmid, hts]⟩
        · -- A phrase without tokens ends the row and does not count.
          cases h
          exact ⟨[], .nil, rfl⟩

/-- A repetition reads a row of phrases, if none is empty, if each may be followed by
the next, and if no phrase starts where the row is to end. -/
theorem many (hp : Reads p L stops) (hne : ∀ w a, L w a → w ≠ [])
    (hnext : ∀ w a rest, L w a → StartsNot stops (w.map (·.token) ++ rest))
    (hend : ∀ rest, StartsNot more rest → StartsNot stops rest ∧ (p rest).1 = none) :
    Reads (many p) (Repeated L) more where
  sound := hp.sound_many
  complete := by
    intro w as rest hw hrest
    induction hw with
    | nil => exact many_eq_of_eq_none (hend rest hrest).2
    | @cons w u a as ha has ih =>
        -- Behind a phrase stands the next one, or the end of the row.
        have hstop : StartsNot stops (u.map (·.token) ++ rest) := by
          cases has with
          | nil => exact (hend rest hrest).1
          | cons hb hbs =>
              rw [List.map_append, List.append_assoc]
              exact hnext _ _ _ hb
        have hread := hp.complete ha hstop
        have hpos := List.length_pos_iff.2 (hne w a ha)
        rw [List.map_append, List.append_assoc]
        exact many_eq_of_eq_some hread (by simp [hpos]) ih

end Reads

end CellHints.Parser
