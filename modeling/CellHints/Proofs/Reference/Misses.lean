import CellHints.Proofs.Reference.Reading

/-!
# What a parser misses

A parser explains where a row of tokens stops if its misses there are exactly
the roles that could come next.  Misses are kept on the way to success as well,
since the parser behind may fail at the same place; a repetition, for one, ends
with a miss.  Misses further in front are NOT forgotten: it is left to the
report to take the ones furthest on.
-/

namespace CellHints.Parser

variable {α β : Type} {p q : Parser α} {f : α → Parser β}
  {L L' : List Lexeme → α → Prop} {M : α → List Lexeme → β → Prop} {stops more : List Token}

/-- Whether a phrase goes on with this lexeme behind the tokens of `front`. -/
def Next (L : List Lexeme → α → Prop) (front : List Token) (l : Lexeme) : Prop :=
  ∃ w rest a, L (w ++ l :: rest) a ∧ w.map (·.token) = front

/-- Whether no phrase goes on behind `front` with the first token of `back`. -/
def Stuck (L : List Lexeme → α → Prop) (front back : List Token) : Prop :=
  ∀ l, Next L front l → back.head? ≠ some l.token

/-- Whether `p` reads the phrases of `L`, takes each of them where it cannot go on, and
misses exactly what could come next where a row of tokens is stuck. -/
structure Explains (p : Parser α) (L : List Lexeme → α → Prop) (stops : List Token) : Prop
    extends Reads p L stops where
  inhabited : ∃ w a, L w a
  takes : ∀ {w a rest}, L w a → Stuck L (w.map (·.token)) rest →
    (p (w.map (·.token) ++ rest)).1 = some (a, rest)
  wanted : ∀ {ts miss}, miss ∈ (p ts).2 →
    ∃ front back l, front ++ back = ts ∧ Next L front l ∧ miss = ⟨back.length, l.role⟩
  missed : ∀ {front back l}, Next L front l → Stuck L front back →
    ⟨back.length, l.role⟩ ∈ (p (front ++ back)).2

/-- A row with a marked place is cut in front of the mark or behind it. -/
theorem append_cons_eq_append_iff {w rest u v : List α} {l : α} :
    w ++ l :: rest = u ++ v ↔
      (∃ mid, u = w ++ l :: mid ∧ rest = mid ++ v) ∨
        ∃ mid, w = u ++ mid ∧ v = mid ++ l :: rest := by
  rw [List.append_eq_append_iff]
  constructor
  · rintro (⟨mid, rfl, h⟩ | ⟨mid, rfl, rfl⟩)
    · cases mid with
      | nil => exact Or.inr ⟨[], by simp, h.symm⟩
      | cons m mid =>
          obtain ⟨rfl, rfl⟩ := List.cons.inj h
          exact Or.inl ⟨mid, rfl, rfl⟩
    · exact Or.inr ⟨mid, rfl, rfl⟩
  · rintro (⟨mid, rfl, rfl⟩ | ⟨mid, rfl, rfl⟩)
    · exact Or.inl ⟨l :: mid, rfl, rfl⟩
    · exact Or.inr ⟨mid, rfl, rfl⟩

theorem mem_misses_bind_iff {ts : List Token} {miss : Miss} :
    miss ∈ ((p >>= f) ts).2 ↔
      miss ∈ (p ts).2 ∨ ∃ a mid, (p ts).1 = some (a, mid) ∧ miss ∈ (f a mid).2 := by
  rcases hp : p ts with ⟨_ | ⟨a, mid⟩, misses⟩
  · have hbind : ((p >>= f) ts).2 = misses := by simp only [Bind.bind, hp]
    simp [hbind]
  · have hbind : ((p >>= f) ts).2 = misses ++ (f a mid).2 := by simp only [Bind.bind, hp]
    rw [hbind, List.mem_append]
    constructor
    · rintro (h | h)
      · exact Or.inl h
      · exact Or.inr ⟨a, mid, rfl, h⟩
    · rintro (h | ⟨_, _, ⟨⟩, h⟩)
      · exact Or.inl h
      · exact Or.inr h

theorem mem_misses_orElse_iff {ts : List Token} {miss : Miss} :
    miss ∈ ((p <|> q) ts).2 ↔ miss ∈ (p ts).2 ∨ (p ts).1 = none ∧ miss ∈ (q ts).2 := by
  change miss ∈ (orElse p q ts).2 ↔ _
  unfold orElse
  rcases p ts with ⟨_ | found, misses⟩
  · simp
  · simp

theorem mem_misses_many_iff {ts : List Token} {miss : Miss} :
    miss ∈ (many p ts).2 ↔ miss ∈ (p ts).2 ∨
      ∃ a mid, (p ts).1 = some (a, mid) ∧ mid.length < ts.length ∧ miss ∈ (many p mid).2 := by
  rw [many]
  rcases p ts with ⟨_ | ⟨a, mid⟩, misses⟩
  · simp
  · dsimp only
    split
    · next hlt =>
        have hmore : (∃ b row, some (a, mid) = some (b, row) ∧ row.length < ts.length ∧
            miss ∈ (many p row).2) ↔ miss ∈ (many p mid).2 := by
          constructor
          · intro h
            obtain ⟨_, _, ⟨⟩, -, h⟩ := h
            exact h
          · intro h
            exact ⟨a, mid, rfl, hlt, h⟩
        rw [hmore]
        rcases many p mid with ⟨_ | found, more⟩
        · simp
        · simp
    · next hge => simp [hge]

theorem Next.of_imp {front : List Token} {l : Lexeme} {N : List Lexeme → β → Prop}
    (h : Next L front l) (himp : ∀ w a, L w a → ∃ b, N w b) : Next N front l := by
  obtain ⟨w, rest, a, hw, hfront⟩ := h
  obtain ⟨b, hb⟩ := himp _ a hw
  exact ⟨w, rest, b, hb, hfront⟩

theorem Stuck.of_imp {front back : List Token} {N : List Lexeme → β → Prop}
    (h : Stuck N front back) (himp : ∀ l, Next L front l → Next N front l) : Stuck L front back :=
  fun l hl => h l (himp l hl)

theorem Next.left_choice {front : List Token} {l : Lexeme} (h : Next L front l) :
    Next (fun w a => L w a ∨ L' w a) front l :=
  h.of_imp fun _ a hw => ⟨a, Or.inl hw⟩

theorem Next.right_choice {front : List Token} {l : Lexeme} (h : Next L' front l) :
    Next (fun w a => L w a ∨ L' w a) front l :=
  h.of_imp fun _ a hw => ⟨a, Or.inr hw⟩

/-- The first phrase of a sequence goes on as it does alone. -/
theorem Next.in_first {front : List Token} {l : Lexeme} (h : Next L front l)
    (hM : ∀ a, ∃ v b, M a v b) : Next (Sequence L M) front l := by
  obtain ⟨w, rest, a, hw, hfront⟩ := h
  obtain ⟨v, b, hv⟩ := hM a
  exact ⟨w, rest ++ v, b, ⟨a, _, v, hw, hv, by simp⟩, hfront⟩

/-- Behind a first phrase, a sequence goes on as the second phrase does alone. -/
theorem Next.in_second {u : List Lexeme} {a : α} {front : List Token} {l : Lexeme}
    (hu : L u a) (h : Next (M a) front l) :
    Next (Sequence L M) (u.map (·.token) ++ front) l := by
  obtain ⟨w, rest, b, hw, rfl⟩ := h
  exact ⟨u ++ w, rest, b, ⟨a, u, _, hu, hw, by simp⟩, by simp⟩

/-- A row of phrases goes on as its first phrase and the row behind it do. -/
theorem Next.in_row {front : List Token} {l : Lexeme}
    (h : Next (Sequence L fun _ => Repeated L) front l) : Next (Repeated L) front l :=
  h.of_imp fun _ as hw => by
    obtain ⟨a, u, v, hu, hv, rfl⟩ := hw
    exact ⟨a :: as, .cons hu hv⟩

/-- A parser stops behind a phrase only in front of what could go on with it. -/
theorem Reads.mem_stops (hp : Reads p L stops) {w : List Lexeme} {a : α} {l : Lexeme}
    (hw : L w a) (h : Next L (w.map (·.token)) l) : l.token ∈ stops := by
  obtain ⟨u, rest, b, hlong, hfront⟩ := h
  apply Decidable.byContradiction
  intro hnot
  -- The parser would have to stop behind the short phrase and to read the long one.
  have hread := hp.complete hw
    (startsNot_cons_iff.2 hnot : StartsNot stops (l.token :: rest.map (·.token)))
  have hreadLong := hp.complete hlong (nofun : StartsNot stops [])
  rw [← hfront] at hread
  rw [List.append_nil, List.map_append, List.map_cons, hread] at hreadLong
  cases hreadLong

/-- In a sequence that is stuck in its second phrase or behind it, the first one was
stuck where it ends. -/
theorem Reads.stuck_first (hp : Reads p L stops) (hM : ∀ a, ∃ v b, M a v b)
    {u v : List Lexeme} {a : α} {tail back : List Token} (hu : L u a)
    (hstart : StartsNot stops (v.map (·.token) ++ tail))
    (hstuck : Stuck (Sequence L M) (u.map (·.token) ++ v.map (·.token)) back) :
    Stuck L (u.map (·.token)) (v.map (·.token) ++ back) := by
  intro l hl
  cases v with
  | nil =>
      rw [List.map_nil, List.append_nil] at hstuck
      exact hstuck l (hl.in_first hM)
  | cons m v =>
      intro hm
      have htoken : m.token = l.token := Option.some.inj hm
      have hnot : m.token ∉ stops := startsNot_cons_iff.1 hstart
      rw [htoken] at hnot
      exact hnot (hp.mem_stops hu hl)

/-- A parser fails in front of a place that a phrase apart from its own leads to. -/
theorem Reads.eq_none_of_stuck (hp : Reads p L stops) {v tail : List Lexeme} {back : List Token}
    (hapart : ∀ w a rest, L w a → w.map (·.token) ++ rest ≠ (v ++ tail).map (·.token))
    (hstuck : Stuck L (v.map (·.token)) back) : (p (v.map (·.token) ++ back)).1 = none := by
  apply hp.eq_none
  intro w a rest hw h
  rw [List.append_eq_append_iff] at h
  rcases h with ⟨mid, hmid, rfl⟩ | ⟨mid, hw', hback⟩
  · apply hapart w a (mid ++ tail.map (·.token)) hw
    rw [List.map_append, hmid, List.append_assoc]
  · cases mid with
    | nil =>
        apply hapart w a (tail.map (·.token)) hw
        rw [List.map_append, hw', List.append_nil]
    | cons t mid =>
        -- The phrase would go on behind `v` with the token that stands there.
        obtain ⟨x, y, rfl, hx, hy⟩ := List.map_eq_append_iff.1 hw'
        obtain ⟨l, y, rfl, rfl, -⟩ := List.map_eq_cons_iff.1 hy
        subst hback
        exact hstuck l ⟨x, y, a, hw, hx⟩ rfl

namespace Explains

theorem congr (hp : Explains p L stops) (h : ∀ w a, L w a ↔ L' w a) : Explains p L' stops := by
  have heq : L = L' := by
    funext w a
    exact propext (h w a)
  exact heq ▸ hp

theorem mono (hp : Explains p L stops) (hsub : stops ⊆ more) : Explains p L more where
  toReads := hp.toReads.mono hsub
  inhabited := hp.inhabited
  takes := hp.takes
  wanted := hp.wanted
  missed := hp.missed

theorem pure (a : α) : Explains (pure a) (Nothing a) [] where
  toReads := .pure a
  inhabited := ⟨[], a, rfl, rfl⟩
  takes := fun hw _ => (Reads.pure a).complete hw (startsNot_nil _)
  wanted := nofun
  missed := by
    intro front back l hnext _
    obtain ⟨w, rest, b, ⟨hw, -⟩, -⟩ := hnext
    simp at hw

theorem accept {role : Expectation} {g : Token → Option α} (hg : ∃ t a, g t = some a) :
    Explains (accept role g) (fun w a => ∃ t, w = [⟨role, t⟩] ∧ g t = some a) [] where
  toReads := .accept
  inhabited := by
    obtain ⟨t, a, ha⟩ := hg
    exact ⟨_, a, t, rfl, ha⟩
  takes := fun hw _ => Reads.accept.complete hw (startsNot_nil _)
  wanted := by
    obtain ⟨t, a, ha⟩ := hg
    intro ts miss hmiss
    have hnext : Next (fun w a => ∃ t, w = [⟨role, t⟩] ∧ g t = some a) [] ⟨role, t⟩ :=
      ⟨[], [], a, ⟨t, rfl, ha⟩, rfl⟩
    refine ⟨[], ts, _, rfl, hnext, ?_⟩
    cases ts with
    | nil => simpa [Parser.accept] using hmiss
    | cons u ts =>
        unfold Parser.accept at hmiss
        cases hu : g u with
        | none => simpa [hu] using hmiss
        | some b => simp [hu] at hmiss
  missed := by
    intro front back l hnext hstuck
    obtain ⟨w, rest, a, ⟨t, hw, ht⟩, rfl⟩ := hnext
    -- A phrase is one token, and nothing is in front of it.
    cases w with
    | cons m w => simp at hw
    | nil =>
        obtain ⟨rfl, -⟩ := List.cons.inj hw
        cases back with
        | nil => simp [Parser.accept]
        | cons v back =>
            cases hv : g v with
            | none => simp [Parser.accept, hv]
            | some b => exact absurd rfl (hstuck ⟨role, v⟩ ⟨[], [], b, ⟨v, rfl, hv⟩, rfl⟩)

theorem token (t : Token) (role : Expectation) :
    Explains (token t role) (fun w _ => w = [⟨role, t⟩]) [] := by
  apply (accept ⟨t, (), if_pos rfl⟩).congr
  intro w a
  simp

/-- A sequence explains a sequence, if what may follow the first part does. -/
theorem bind (hp : Explains p L stops) (hf : ∀ a, Explains (f a) (M a) more)
    (hstop : ∀ a v b rest, M a v b → StartsNot more rest →
      StartsNot stops (v.map (·.token) ++ rest)) :
    Explains (p >>= f) (Sequence L M) more where
  toReads := hp.toReads.bind (fun a => (hf a).toReads) hstop
  inhabited := by
    obtain ⟨u, a, hu⟩ := hp.inhabited
    obtain ⟨v, b, hv⟩ := (hf a).inhabited
    exact ⟨u ++ v, b, a, u, v, hu, hv, rfl⟩
  takes := by
    intro w b rest hw hstuck
    obtain ⟨a, u, v, hu, hv, rfl⟩ := hw
    rw [List.map_append] at hstuck
    have hstart := hstop a v b [] hv nofun
    have hfirst := hp.takes hu (hp.stuck_first (fun a => (hf a).inhabited) hu hstart hstuck)
    have hsecond : (f a (v.map (·.token) ++ rest)).1 = some (b, rest) :=
      (hf a).takes hv fun l hl => hstuck l (hl.in_second hu)
    rw [List.map_append, List.append_assoc]
    exact bind_eq_some_iff.2 ⟨a, _, hfirst, hsecond⟩
  wanted := by
    intro ts miss hmiss
    rcases mem_misses_bind_iff.1 hmiss with hfirst | ⟨a, mid, hread, hsecond⟩
    · obtain ⟨front, back, l, hts, hnext, rfl⟩ := hp.wanted hfirst
      exact ⟨front, back, l, hts, hnext.in_first fun a => (hf a).inhabited, rfl⟩
    · obtain ⟨u, hu, rfl⟩ := hp.sound hread
      obtain ⟨front, back, l, rfl, hnext, rfl⟩ := (hf a).wanted hsecond
      exact ⟨_, back, l, List.append_assoc .., hnext.in_second hu, rfl⟩
  missed := by
    intro front back l hnext hstuck
    obtain ⟨w, rest, b, ⟨a, u, v, hu, hv, hcut⟩, rfl⟩ := hnext
    rw [mem_misses_bind_iff]
    rcases append_cons_eq_append_iff.1 hcut with ⟨mid, rfl, -⟩ | ⟨mid, rfl, rfl⟩
    · -- The first phrase is not over.
      exact Or.inl (hp.missed ⟨w, mid, a, hu, rfl⟩
        (hstuck.of_imp fun l hl => hl.in_first fun a => (hf a).inhabited))
    · rw [List.map_append] at hstuck ⊢
      have hstart := hstop a _ b [] hv nofun
      rw [List.map_append, List.append_assoc] at hstart
      have hfirst := hp.takes hu (hp.stuck_first (fun a => (hf a).inhabited) hu hstart hstuck)
      have hsecond : ⟨back.length, l.role⟩ ∈ (f a (mid.map (·.token) ++ back)).2 :=
        (hf a).missed ⟨mid, rest, b, hv, rfl⟩ fun l hl => hstuck l (hl.in_second hu)
      rw [List.append_assoc]
      exact Or.inr ⟨a, _, hfirst, hsecond⟩

/-- The first part can be read without regard to what follows. -/
theorem bind' (hp : Explains p L []) (hf : ∀ a, Explains (f a) (M a) more) :
    Explains (p >>= f) (Sequence L M) more :=
  hp.bind hf fun _ _ _ _ _ _ => startsNot_nil _

theorem behind {q : Parser β} {M : List Lexeme → β → Prop} (hq : Explains q M more)
    (l : Lexeme) : Explains (Parser.token l.token l.role >>= fun _ => q) (Behind l M) more := by
  apply ((Explains.token l.token l.role).bind' fun _ => hq).congr
  intro w b
  constructor
  · intro h
    obtain ⟨-, _, u, rfl, hu, rfl⟩ := h
    exact ⟨u, hu, rfl⟩
  · intro h
    obtain ⟨u, hu, rfl⟩ := h
    exact ⟨(), _, u, rfl, hu, rfl⟩

theorem map (hp : Explains p L stops) (g : α → β) :
    Explains (p >>= fun a => Pure.pure (g a)) (fun w b => ∃ a, L w a ∧ b = g a) stops := by
  apply (hp.bind (fun a => (Explains.pure (g a)).mono (List.nil_subset stops)) ?_).congr
  · intro w b
    constructor
    · intro h
      obtain ⟨a, u, v, hu, ⟨rfl, rfl⟩, rfl⟩ := h
      exact ⟨a, by simpa using hu, rfl⟩
    · intro h
      obtain ⟨a, hw, rfl⟩ := h
      exact ⟨a, w, [], hw, ⟨rfl, rfl⟩, by simp⟩
  · intro a v b rest hv hrest
    obtain ⟨rfl, rfl⟩ := hv
    exact hrest

/-- A phrase behind which one fixed token stands.  That token settles where the phrase
ends, so nothing is asked of what follows the whole. -/
theorem closed (hp : Explains p L stops) (l : Lexeme) (g : α → β) (hl : l.token ∉ stops) :
    Explains (p >>= fun a => Parser.token l.token l.role >>= fun _ => Pure.pure (g a))
      (fun w b => ∃ a u, L u a ∧ w = u ++ [l] ∧ b = g a) [] := by
  apply (hp.bind (fun a => (Explains.pure (g a)).behind l) ?_).congr
  · intro w b
    constructor
    · intro h
      obtain ⟨a, u, _, hu, ⟨_, ⟨rfl, rfl⟩, rfl⟩, rfl⟩ := h
      exact ⟨a, u, hu, rfl, rfl⟩
    · intro h
      obtain ⟨a, u, hu, rfl, rfl⟩ := h
      exact ⟨a, u, [l], hu, ⟨[], ⟨rfl, rfl⟩, rfl⟩, rfl⟩
  · intro a v b rest hv _
    obtain ⟨u, -, rfl⟩ := hv
    exact startsNot_cons_iff.2 hl

/-- A phrase between two fixed tokens. -/
theorem enclosed (hp : Explains p L stops) (left right : Lexeme) (g : α → β)
    (hright : right.token ∉ stops) :
    Explains (Parser.token left.token left.role >>= fun _ => p >>= fun a =>
        Parser.token right.token right.role >>= fun _ => Pure.pure (g a))
      (fun w b => ∃ a u, L u a ∧ w = left :: u ++ [right] ∧ b = g a) [] := by
  apply ((hp.closed right g hright).behind left).congr
  intro w b
  constructor
  · intro h
    obtain ⟨_, ⟨a, u, hu, rfl, rfl⟩, rfl⟩ := h
    exact ⟨a, u, hu, rfl, rfl⟩
  · intro h
    obtain ⟨a, u, hu, rfl, rfl⟩ := h
    exact ⟨_, ⟨a, u, hu, rfl, rfl⟩, rfl⟩

/-- Ordered alternatives explain either language, if no phrase of the second starts
like one of the first. -/
theorem orElse (hp : Explains p L stops) (hq : Explains q L' stops)
    (hapart : ∀ v b rest, L' v b → StartsNot stops rest → ∀ w a rest', L w a →
      w.map (·.token) ++ rest' ≠ v.map (·.token) ++ rest) :
    Explains (p <|> q) (fun w a => L w a ∨ L' w a) stops := by
  have hnone : ∀ {v tail : List Lexeme} {b back}, L' (v ++ tail) b →
      Stuck (fun w a => L w a ∨ L' w a) (v.map (·.token)) back →
        (p (v.map (·.token) ++ back)).1 = none := by
    intro v tail b back hv hstuck
    apply hp.eq_none_of_stuck
    · intro w a rest hw
      simpa using hapart (v ++ tail) b [] hv nofun w a rest hw
    · exact hstuck.of_imp fun _ hl => hl.left_choice
  constructor
  case toReads =>
    exact hp.toReads.orElse hq.toReads fun v b rest hv hrest =>
      hp.eq_none (hapart v b rest hv hrest)
  case inhabited =>
    obtain ⟨w, a, hw⟩ := hp.inhabited
    exact ⟨w, a, Or.inl hw⟩
  case takes =>
    intro w a rest hw hstuck
    rw [orElse_fst]
    rcases hw with hw | hw
    · rw [hp.takes hw (hstuck.of_imp fun _ hl => hl.left_choice)]
      rfl
    · rw [hnone (show L' (w ++ []) a by simpa using hw) hstuck,
        hq.takes hw (hstuck.of_imp fun _ hl => hl.right_choice)]
      rfl
  case wanted =>
    intro ts miss hmiss
    rcases mem_misses_orElse_iff.1 hmiss with hmiss | ⟨-, hmiss⟩
    · obtain ⟨front, back, l, hts, hnext, rfl⟩ := hp.wanted hmiss
      exact ⟨front, back, l, hts, hnext.left_choice, rfl⟩
    · obtain ⟨front, back, l, hts, hnext, rfl⟩ := hq.wanted hmiss
      exact ⟨front, back, l, hts, hnext.right_choice, rfl⟩
  case missed =>
    intro front back l hnext hstuck
    obtain ⟨w, rest, a, hw, rfl⟩ := hnext
    rw [mem_misses_orElse_iff]
    rcases hw with hw | hw
    · exact Or.inl (hp.missed ⟨w, rest, a, hw, rfl⟩
        (hstuck.of_imp fun _ hl => hl.left_choice))
    · exact Or.inr ⟨hnone hw hstuck, hq.missed ⟨w, rest, a, hw, rfl⟩
        (hstuck.of_imp fun _ hl => hl.right_choice)⟩

/-- A repetition explains a row of phrases, if none is empty, if each may be followed by
the next, and if no phrase starts where the row is to end. -/
theorem many (hp : Explains p L stops) (hne : ∀ w a, L w a → w ≠ [])
    (hnext : ∀ w a rest, L w a → StartsNot stops (w.map (·.token) ++ rest))
    (hend : ∀ rest, StartsNot more rest → StartsNot stops rest ∧ (p rest).1 = none) :
    Explains (many p) (Repeated L) more := by
  have hinhabited : ∀ _ : α, ∃ v as, Repeated L v as := fun _ => ⟨[], [], .nil⟩
  have hstart : ∀ {v : List Lexeme} {as}, Repeated L v as →
      StartsNot stops (v.map (·.token) ++ []) := by
    intro v as hv
    cases hv with
    | nil => exact nofun
    | cons hu _ =>
        rw [List.map_append, List.append_assoc]
        exact hnext _ _ _ hu
  constructor
  case toReads => exact hp.toReads.many hne hnext hend
  case inhabited => exact ⟨[], [], .nil⟩
  case takes =>
    intro w as rest hw hstuck
    induction hw with
    | nil =>
        apply many_eq_of_eq_none
        apply hp.eq_none
        intro w a rest' hw hts
        obtain ⟨l, w, rfl⟩ := List.exists_cons_of_ne_nil (hne w a hw)
        have hl : Next L [] l := ⟨[], w, a, hw, rfl⟩
        subst hts
        exact hstuck l (hl.in_first hinhabited).in_row rfl
    | @cons w u a as ha has ih =>
        rw [List.map_append] at hstuck
        have hfirst := hp.takes ha (hp.stuck_first hinhabited ha (hstart has)
          (hstuck.of_imp fun l hl => hl.in_row))
        have hrest := ih fun l hl => hstuck l (Next.in_second ha hl).in_row
        have hpos := List.length_pos_iff.2 (hne w a ha)
        rw [List.map_append, List.append_assoc]
        exact many_eq_of_eq_some hfirst (by simp [hpos]) hrest
  case wanted =>
    intro ts miss hmiss
    induction hlen : ts.length using Nat.strongRecOn generalizing ts with
    | ind n ih =>
        rcases mem_misses_many_iff.1 hmiss with hfirst | ⟨a, mid, hread, hlt, hrest⟩
        · obtain ⟨front, back, l, hts, hl, rfl⟩ := hp.wanted hfirst
          exact ⟨front, back, l, hts, (hl.in_first hinhabited).in_row, rfl⟩
        · obtain ⟨u, hu, rfl⟩ := hp.sound hread
          obtain ⟨front, back, l, rfl, hl, rfl⟩ := ih mid.length (by omega) hrest rfl
          exact ⟨_, back, l, List.append_assoc .., (Next.in_second hu hl).in_row, rfl⟩
  case missed =>
    intro front back l hl hstuck
    obtain ⟨w, rest, as, hw, rfl⟩ := hl
    generalize hrow : w ++ l :: rest = row at hw
    induction hw generalizing w with
    | nil => simp at hrow
    | @cons u v a as hu hv ih =>
        rw [mem_misses_many_iff]
        rcases append_cons_eq_append_iff.1 hrow with ⟨mid, rfl, -⟩ | ⟨mid, rfl, rfl⟩
        · -- The first phrase of the row is not over.
          exact Or.inl (hp.missed ⟨w, mid, a, hu, rfl⟩
            (hstuck.of_imp fun l hl => (hl.in_first hinhabited).in_row))
        · have hnextPhrase := hstart hv
          rw [List.map_append] at hstuck ⊢
          rw [List.map_append, List.append_assoc] at hnextPhrase
          have hfirst := hp.takes hu (hp.stuck_first hinhabited hu hnextPhrase
            (hstuck.of_imp fun l hl => hl.in_row))
          have hrest := ih mid (fun l hl => hstuck l (Next.in_second hu hl).in_row) rfl
          have hpos := List.length_pos_iff.2 (hne u a hu)
          rw [List.append_assoc]
          exact Or.inr ⟨a, _, hfirst, by simp [hpos], hrest⟩

/-- Up to `n` equal tokens are read if no other one follows. -/
theorem atMost (t : Token) (role : Expectation) (n : Nat) :
    Explains (atMost (Parser.token t role) n)
      (fun w k => k ≤ n ∧ w = List.replicate k ⟨role, t⟩) [t] := by
  induction n with
  | zero =>
      apply ((Explains.pure 0).mono (List.nil_subset _)).congr
      intro w k
      constructor
      · intro h
        obtain ⟨rfl, rfl⟩ := h
        exact ⟨Nat.le_refl 0, rfl⟩
      · intro h
        obtain ⟨hk, rfl⟩ := h
        obtain rfl : k = 0 := Nat.le_zero.1 hk
        exact ⟨rfl, rfl⟩
  | succ n ih =>
      have hnone := (Explains.pure (0 : Nat)).mono (List.nil_subset [t])
      have hone := (ih.map (· + 1)).behind ⟨role, t⟩
      apply (hone.orElse hnone ?_).congr
      · intro w k
        constructor
        · intro h
          rcases h with ⟨_, ⟨k, ⟨hk, rfl⟩, rfl⟩, rfl⟩ | ⟨rfl, rfl⟩
          · exact ⟨Nat.succ_le_succ hk, rfl⟩
          · exact ⟨Nat.zero_le _, rfl⟩
        · intro h
          obtain ⟨hk, rfl⟩ := h
          cases k with
          | zero => exact Or.inr ⟨rfl, rfl⟩
          | succ k =>
              exact Or.inl ⟨_, ⟨k, ⟨Nat.le_of_succ_le_succ hk, rfl⟩, rfl⟩, rfl⟩
      · intro v b rest hv hrest
        obtain ⟨rfl, rfl⟩ := hv
        rintro w k rest' ⟨u, -, rfl⟩ rfl
        exact hrest t (List.mem_singleton_self t) rfl

end Explains

end CellHints.Parser
