import CellHints.Proofs.Reference.Lexing
import CellHints.Reference.Evaluation
import Mathlib.Logic.Relation

/-!
# Blanks between tokens

Spaces and tabs are put into a text or taken out of it, and its tokens stay what they were
if no name and no run of digits is cut and no two of them become one.  What a text is read
as depends on its tokens alone: the tree that they make up and what it denotes, or what
was expected instead and at which of the tokens.  The places that the tokens stand on do
NOT stay what they were, so the same refusal is reported elsewhere.

Places count the characters in front of them, which are bytes in a text that is split.  An
edit is followed from the end of the text to its front, so when a blank is put in or taken
out, the tokens in front of it are still those of the text before the edit.
-/

namespace CellHints

namespace Token

/-- Whether a token is a run of characters. -/
def isRun : Token → Bool
  | number _ | ident _ => true
  | _ => false

/-- Whether a token is lengthened by the one behind it if no blank is between them. -/
def staysApart : Token → Token → Bool
  | ident _, ident _ | ident _, number _ | number _, number _ => true
  | _, _ => false

/-- Whether a place among the characters of a text is not inside a name or a run of digits. -/
def OutsideRuns (placed : List PlacedToken) (place : Nat) : Prop :=
  ∀ t ∈ placed, t.token.isRun = true → ¬(t.start < place ∧ place < t.stop)

/-- Whether the second text is the first with blanks put in at some of the allowed places, where
so many characters stand in front of it. -/
inductive Inserts (allowed : Nat → Prop) : Nat → List Char → List Char → Prop
  | nil (place : Nat) : Inserts allowed place [] []
  | keep {place : Nat} {c : Char} {cs cs' : List Char}
      (hrest : Inserts allowed (place + 1) cs cs') : Inserts allowed place (c :: cs) (c :: cs')
  | insert {place : Nat} {c : Char} {cs cs' : List Char} (hc : isSeparator c = true)
      (hplace : allowed place) (hrest : Inserts allowed place cs cs') :
      Inserts allowed place cs (c :: cs')

/-- Whether the second text is the first without the blanks at the removed places, where so many
characters stand in front of it. -/
inductive Removes (removed : Nat → Prop) : Nat → List Char → List Char → Prop
  | nil (place : Nat) : Removes removed place [] []
  | keep {place : Nat} {c : Char} {cs cs' : List Char} (hplace : ¬removed place)
      (hrest : Removes removed (place + 1) cs cs') : Removes removed place (c :: cs) (c :: cs')
  | remove {place : Nat} {c : Char} {cs cs' : List Char} (hc : isSeparator c = true)
      (hplace : removed place) (hrest : Removes removed (place + 1) cs cs') :
      Removes removed place (c :: cs) cs'

/-- Whether between two tokens that stay apart there is always a place that is not removed: that
of a blank, or that of a token if they are not neighbours. -/
def KeepsApart (removed : Nat → Prop) (placed : List PlacedToken) : Prop :=
  ∀ t ∈ placed, ∀ u ∈ placed, t.token.staysApart u.token = true → t.stop < u.start →
    ∃ i, t.stop ≤ i ∧ i < u.start ∧ ¬removed i

/-- An edit of the blanks in a text: some are put in, none of them inside a name or a run of
digits, or some are taken out, but not all that are between two tokens that stay apart. -/
inductive Respaces (s s' : String) : Prop
  | insert {placed : List PlacedToken} (hplaced : tokenize s = .ok placed)
      (hedit : Inserts (OutsideRuns placed) 0 s.toList s'.toList)
  | remove {placed : List PlacedToken} {removed : Nat → Prop}
      (hplaced : tokenize s = .ok placed) (hedit : Removes removed 0 s.toList s'.toList)
      (hapart : KeepsApart removed placed)

variable {s s' : String} {pos place : Nat} {c : Char} {cs cs' front back : List Char}
  {removed : Nat → Prop} {t u : PlacedToken} {placed placed' ts us : List PlacedToken}

/-! ### Single tokens -/

theorem WellSpelled.length_text {t : Token} (h : t.WellSpelled) (hrun : t.isRun = false) :
    t.text.toList.length = 1 := by
  rcases h.cases with ⟨c, cs, rfl, -⟩ | ⟨c, cs, rfl, -⟩ | ⟨c, hc, -⟩
  · contradiction
  · contradiction
  · rw [hc, List.length_singleton]

theorem lengthenedBy_of_isSeparator {t : Token} (hc : isSeparator c = true) :
    t.lengthenedBy c = false := by
  rw [← Bool.not_eq_true]
  intro h
  have hnot := not_isSeparator_of_isNamePart (isNamePart_of_lengthenedBy h)
  rw [hc] at hnot
  contradiction

/-- Only a name or a run of digits lengthens a token, and not every one does. -/
theorem staysApart_of_lengthenedBy {t u : Token} {tail : List Char} (hu : u.WellSpelled)
    (htext : u.text.toList = c :: tail) (h : t.lengthenedBy c = true) :
    t.staysApart u = true := by
  rcases hu.cases with ⟨d, ds, rfl, -⟩ | ⟨d, ds, rfl, hd, -⟩ | ⟨d, hd, hmark⟩
  · cases t with
    | number digits => rfl
    | ident name => rfl
    | _ => contradiction
  · rw [text, String.toList_ofList] at htext
    obtain ⟨rfl, -⟩ := List.cons.inj htext
    cases t with
    | number digits =>
        have hnot := not_isDigit_of_isNameStart hd
        rw [show d.isDigit = true from h] at hnot
        contradiction
    | ident name => rfl
    | _ => contradiction
  · rw [hd] at htext
    obtain ⟨rfl, -⟩ := List.cons.inj htext
    have hpart := isNamePart_of_lengthenedBy h
    rw [hmark.not_namePart] at hpart
    contradiction

/-! ### One blank -/

theorem map_token_moveOn (us : List PlacedToken) (count : Nat) :
    (us.map (·.moveOn count)).map (·.token) = us.map (·.token) := by
  rw [List.map_map]
  rfl

namespace Splits

/-- A mark has no inside, so a place that is inside no run is inside no token. -/
theorem not_across (h : Splits pos cs placed) (hplace : OutsideRuns placed place) :
    ∀ t ∈ placed, ¬(t.start < place ∧ place < t.stop) := by
  intro t ht
  cases hrun : t.token.isRun with
  | true => exact hplace t ht hrun
  | false =>
      obtain ⟨-, -, -, -, hstop, hspelled, -⟩ := h.exists_around ht
      rw [hspelled.length_text hrun] at hstop
      omega

/-- A text does not lengthen a token that its own first token need not stay apart from. -/
theorem lengthenedBy_head?_eq_false (hback : Splits pos back us) {t : Token}
    (hapart : ∀ u ∈ us, u.start = pos → t.staysApart u.token = false) :
    ∀ c ∈ back.head?, t.lengthenedBy c = false := by
  intro c hc
  rw [← Bool.not_eq_true]
  intro hlonger
  obtain ⟨tail, rfl⟩ := List.head?_eq_some_iff.1 hc
  have hseparator := not_isSeparator_of_isNamePart (isNamePart_of_lengthenedBy hlonger)
  obtain ⟨u, hu, hstart, hspelled, rest, htext⟩ := hback.exists_first hseparator
  have hnot := hapart u hu hstart
  rw [staysApart_of_lengthenedBy hspelled htext hlonger] at hnot
  contradiction

/-- A blank that is put in outside the runs moves the tokens behind it on. -/
theorem exists_insert (h : Splits pos (front ++ back) placed) (hc : isSeparator c = true)
    (hplace : OutsideRuns placed (pos + front.length)) :
    ∃ ts us, placed = ts ++ us ∧ (∀ u ∈ us, pos + front.length ≤ u.start) ∧
      Splits pos (front ++ c :: back) (ts ++ us.map (·.moveOn 1)) := by
  obtain ⟨ts, us, rfl, hfront, hback⟩ := h.exists_of_append (h.not_across hplace)
  refine ⟨ts, us, rfl, fun u => hback.le_start, ?_⟩
  apply hfront.append ((separator_cons_iff hc).2 (hback.moveOn 1))
  intro t _ _ d hd
  obtain rfl : c = d := Option.some.inj hd
  exact lengthenedBy_of_isSeparator hc

/-- A blank that is taken out moves the tokens behind it back, unless it was all that kept two
of them apart. -/
theorem exists_remove (h : Splits pos (front ++ c :: back) placed) (hc : isSeparator c = true)
    (hapart : ∀ t ∈ placed, ∀ u ∈ placed, t.stop = pos + front.length →
      u.start = pos + front.length + 1 → t.token.staysApart u.token = false) :
    ∃ ts us, placed = ts ++ us.map (·.moveOn 1) ∧ (∀ u ∈ us, pos + front.length ≤ u.start) ∧
      Splits pos (front ++ back) (ts ++ us) := by
  -- A token across the place would contain the blank.
  have hplace : ∀ t ∈ placed, ¬(t.start < pos + front.length ∧ pos + front.length < t.stop) := by
    rintro t ht ⟨hstart, hstop⟩
    have hnot := h.not_isSeparator_of_inside ht (Nat.le_of_lt hstart) hstop
    rw [hc] at hnot
    contradiction
  obtain ⟨ts, behind, rfl, hfront, hbehind⟩ := h.exists_of_append hplace
  obtain ⟨us, hback, rfl⟩ := ((separator_cons_iff hc).1 hbehind).exists_moveOn
  refine ⟨ts, us, rfl, fun u => hback.le_start, hfront.append hback ?_⟩
  intro t ht hstop
  apply hback.lengthenedBy_head?_eq_false
  intro u hu hstart
  refine hapart t (List.mem_append_left _ ht) (u.moveOn 1) ?_ hstop (congrArg (· + 1) hstart)
  exact List.mem_append_right ts (List.mem_map_of_mem hu)

end Splits

/-! ### Blanks at many places -/

theorem succ_place (hplace : place = pos + front.length) (c : Char) :
    place + 1 = pos + (front ++ [c]).length := by
  rw [hplace, List.length_append, List.length_singleton, Nat.add_assoc]

theorem Inserts.exists_splits (hedit : Inserts (OutsideRuns placed) place cs cs')
    (hplace : place = pos + front.length) (h : Splits pos (front ++ cs) placed) :
    ∃ placed', Splits pos (front ++ cs') placed' ∧
      placed'.map (·.token) = placed.map (·.token) ∧
      ∀ t ∈ placed', t ∈ placed ∨ place ≤ t.start := by
  induction hedit generalizing front with
  | nil place => exact ⟨placed, h, rfl, fun t ht => Or.inl ht⟩
  | @keep place c cs cs' _ ih =>
      rw [List.append_cons] at h ⊢
      obtain ⟨placed', hplaced', htokens, hstems⟩ := ih (succ_place hplace c) h
      refine ⟨placed', hplaced', htokens, ?_⟩
      intro t ht
      exact (hstems t ht).imp_right Nat.le_of_succ_le
  | @insert place c cs cs' hc hallowed _ ih =>
      obtain ⟨between, hbetween, htokens, hstems⟩ := ih hplace h
      -- A token that starts in front of the place is one of the text before the edit.
      have houtside : OutsideRuns between (pos + front.length) := by
        rw [← hplace]
        rintro t ht hrun ⟨hstart, hstop⟩
        rcases hstems t ht with hold | hle
        · exact hallowed t hold hrun ⟨hstart, hstop⟩
        · omega
      obtain ⟨ts, us, rfl, hus, hedited⟩ := hbetween.exists_insert hc houtside
      refine ⟨_, hedited, ?_, ?_⟩
      · rw [← htokens, List.map_append, List.map_append, map_token_moveOn]
      · intro t ht
        rcases List.mem_append.1 ht with ht | ht
        · exact hstems t (List.mem_append_left us ht)
        · obtain ⟨u, hu, rfl⟩ := List.mem_map.1 ht
          have hle := hus u hu
          refine Or.inr ?_
          simp only [PlacedToken.moveOn]
          omega

/-- Whether a token stems from one of those in `placed` by an edit of the text from a place on:
in front of the place it is that token, and at the place it has come there because all that
was between is removed. -/
def StemsFrom (removed : Nat → Prop) (placed : List PlacedToken) (place : Nat)
    (t : PlacedToken) : Prop :=
  t ∈ placed ∧ t.start < place ∨
    place ≤ t.start ∧ ∃ u ∈ placed, u.token = t.token ∧ place ≤ u.start ∧
      (t.start = place → ∀ i, place ≤ i → i < u.start → removed i)

theorem stemsFrom_of_mem (ht : t ∈ placed) : StemsFrom removed placed place t := by
  by_cases hstart : t.start < place
  · exact Or.inl ⟨ht, hstart⟩
  · exact Or.inr ⟨Nat.le_of_not_lt hstart, t, ht, rfl, Nat.le_of_not_lt hstart, by omega⟩

theorem StemsFrom.of_succ (h : StemsFrom removed placed (place + 1) t) :
    StemsFrom removed placed place t := by
  rcases h with ⟨ht, -⟩ | ⟨hstart, u, hu, htoken, hle, -⟩
  · exact stemsFrom_of_mem ht
  · exact Or.inr ⟨Nat.le_of_succ_le hstart, u, hu, htoken, Nat.le_of_succ_le hle, by omega⟩

/-- A token is moved back when the blank at the place is removed as well. -/
theorem StemsFrom.of_moveOn (h : StemsFrom removed placed (place + 1) (t.moveOn 1))
    (hplace : removed place) (hstart : place ≤ t.start) : StemsFrom removed placed place t := by
  rcases h with ⟨-, hlt⟩ | ⟨-, u, hu, htoken, hle, hremoved⟩
  · simp only [PlacedToken.moveOn] at hlt
    omega
  · refine Or.inr ⟨hstart, u, hu, htoken, Nat.le_of_succ_le hle, ?_⟩
    intro hat i hi hlt
    rcases Nat.eq_or_lt_of_le hi with rfl | hi
    · exact hplace
    · exact hremoved (congrArg (· + 1) hat) i hi hlt

/-- If two tokens that stay apart keep something between them, they are not brought together. -/
theorem KeepsApart.staysApart_eq_false (hapart : KeepsApart removed placed)
    (hplace : removed place) (ht : StemsFrom removed placed (place + 1) t)
    (hu : StemsFrom removed placed (place + 1) u) (hlt : t.start < t.stop)
    (hstop : t.stop = place) (hstart : u.start = place + 1) :
    t.token.staysApart u.token = false := by
  rw [← Bool.not_eq_true]
  intro hkept
  rcases ht with ⟨ht, -⟩ | ⟨hle, -⟩
  · rcases hu with ⟨-, hlt⟩ | ⟨-, v, hv, htoken, hle, hremoved⟩
    · omega
    · rw [← htoken] at hkept
      obtain ⟨i, hi, hiv, hnot⟩ := hapart t ht v hv hkept (by omega)
      -- All places up to the second token are removed, the one at hand included.
      rcases Nat.eq_or_lt_of_le (hstop ▸ hi) with rfl | hi
      · exact hnot hplace
      · exact hnot (hremoved hstart i hi hiv)
  · omega

theorem Removes.exists_splits (hedit : Removes removed place cs cs')
    (hplace : place = pos + front.length) (h : Splits pos (front ++ cs) placed)
    (hapart : KeepsApart removed placed) :
    ∃ placed', Splits pos (front ++ cs') placed' ∧
      placed'.map (·.token) = placed.map (·.token) ∧
      ∀ t ∈ placed', StemsFrom removed placed place t := by
  induction hedit generalizing front with
  | nil place => exact ⟨placed, h, rfl, fun t ht => stemsFrom_of_mem ht⟩
  | @keep place c cs cs' _ _ ih =>
      rw [List.append_cons] at h ⊢
      obtain ⟨placed', hplaced', htokens, hstems⟩ := ih (succ_place hplace c) h
      exact ⟨placed', hplaced', htokens, fun t ht => (hstems t ht).of_succ⟩
  | @remove place c cs cs' hc hremoved _ ih =>
      rw [List.append_cons] at h
      obtain ⟨between, hbetween, htokens, hstems⟩ := ih (succ_place hplace c) h
      rw [← List.append_cons] at hbetween
      have hjoin : ∀ t ∈ between, ∀ u ∈ between, t.stop = pos + front.length →
          u.start = pos + front.length + 1 → t.token.staysApart u.token = false := by
        rw [← hplace]
        intro t ht u hu
        exact hapart.staysApart_eq_false hremoved (hstems t ht) (hstems u hu)
          (hbetween.start_lt_stop ht)
      obtain ⟨ts, us, rfl, hus, hedited⟩ := hbetween.exists_remove hc hjoin
      refine ⟨_, hedited, ?_, ?_⟩
      · rw [← htokens, List.map_append, List.map_append, map_token_moveOn]
      · intro t ht
        rcases List.mem_append.1 ht with ht | ht
        · exact (hstems t (List.mem_append_left _ ht)).of_succ
        · have hmoved := hstems (t.moveOn 1) (List.mem_append_right ts (List.mem_map_of_mem ht))
          exact hmoved.of_moveOn hremoved (hplace ▸ hus t ht)

/-! ### Edits of a text -/

/-- An edit keeps the tokens of a text. -/
theorem Respaces.exists_tokenize (h : Respaces s s') : ∃ placed placed',
    tokenize s = .ok placed ∧ tokenize s' = .ok placed' ∧
      placed'.map (·.token) = placed.map (·.token) := by
  cases h with
  | @insert placed hplaced hedit =>
      have hsplit : Splits 0 ([] ++ s.toList) placed := splits_of_scan hplaced
      obtain ⟨placed', hplaced', htokens, -⟩ := hedit.exists_splits rfl hsplit
      exact ⟨placed, placed', hplaced, hplaced'.scan_eq, htokens⟩
  | @remove placed removed hplaced hedit hapart =>
      have hsplit : Splits 0 ([] ++ s.toList) placed := splits_of_scan hplaced
      obtain ⟨placed', hplaced', htokens, -⟩ := hedit.exists_splits rfl hsplit hapart
      exact ⟨placed, placed', hplaced, hplaced'.scan_eq, htokens⟩

/-- Edits keep the tokens of a text. -/
theorem exists_tokenize_of_respaces (hs : tokenize s = .ok placed)
    (h : Relation.ReflTransGen Respaces s s') : ∃ placed',
    tokenize s' = .ok placed' ∧ placed'.map (·.token) = placed.map (·.token) := by
  induction h with
  | refl => exact ⟨placed, hs, rfl⟩
  | tail _ hstep ih =>
      obtain ⟨before, hbefore, htokens⟩ := ih
      obtain ⟨before', after, hbefore', hafter, htokens'⟩ := hstep.exists_tokenize
      obtain rfl : before = before' := Except.ok.inj (hbefore.symm.trans hbefore')
      exact ⟨after, hafter, htokens'.trans htokens⟩

end Token

/-! ### What is read off the tokens -/

/-- The byte that the token with this index starts at, or the end of the text behind the last. -/
def Token.startOf (placed : List PlacedToken) (size index : Nat) : Nat :=
  (placed[index]?.map (·.start)).getD size

/-- Whether two texts of the same tokens are read alike: as one tree and what it denotes, or
as neither for one reason and at one of the tokens, or at the end of both. -/
def Reference.ReadAlike (s s' : String) : Prop :=
  ∃ placed placed', Token.tokenize s = .ok placed ∧ Token.tokenize s' = .ok placed' ∧
    placed'.map (·.token) = placed.map (·.token) ∧
    ((∃ t, Tree.ofText s = .ok t ∧ Tree.ofText s' = .ok t ∧
        Reference.ofTypedText s' = Reference.ofTypedText s) ∨
      ∃ e e' index, Tree.ofText s = .error e ∧ Tree.ofText s' = .error e' ∧
        Reference.ofTypedText s = .error (.malformed e) ∧
        Reference.ofTypedText s' = .error (.malformed e') ∧ e'.reason = e.reason ∧
        e.position = Token.startOf placed s.utf8ByteSize index ∧
        e'.position = Token.startOf placed' s'.utf8ByteSize index)

/-- A text is read as its tokens are. -/
theorem Tree.ofText_of_tokenize {s : String} {placed : List PlacedToken}
    (hs : Token.tokenize s = .ok placed) :
    ofText s = (Parser.complete (placed.map (·.token))).mapError
      (Miss.report s.utf8ByteSize placed) := by
  unfold ofText
  rw [hs]
  dsimp only
  cases Parser.complete (placed.map (·.token)) <;> rfl

namespace Miss

/-- The index of the token that is reported. -/
def indexOfReport (total : Nat) (misses : List Miss) : Nat := total - leastLeft total misses

theorem report_eq_at_index (size : Nat) (placed : List PlacedToken) (misses : List Miss) :
    report size placed misses =
      .unexpected (Token.startOf placed size (indexOfReport placed.length misses))
        (furthest (leastLeft placed.length misses) misses)
        ((placed.map (·.token))[indexOfReport placed.length misses]?) := by
  rw [List.getElem?_map]
  unfold report Token.startOf indexOfReport
  dsimp only
  cases placed[placed.length - leastLeft placed.length misses]? <;> rfl

/-- The same misses over the same tokens are reported alike, wherever the tokens stand. -/
theorem exists_report {placed placed' : List PlacedToken}
    (h : placed'.map (·.token) = placed.map (·.token)) (size size' : Nat) (misses : List Miss) :
    ∃ index, (report size' placed' misses).reason = (report size placed misses).reason ∧
      (report size placed misses).position = Token.startOf placed size index ∧
      (report size' placed' misses).position = Token.startOf placed' size' index := by
  have hlen : placed'.length = placed.length := by simpa using congrArg List.length h
  refine ⟨indexOfReport placed.length misses, ?_⟩
  rw [report_eq_at_index, report_eq_at_index, hlen, h]
  refine ⟨?_, rfl, rfl⟩
  -- What is said does not mention the position.
  cases (placed.map (·.token))[indexOfReport placed.length misses]? <;> rfl

end Miss

/-- Blanks between tokens are insignificant: a text that is split and one that comes of it by
putting blanks in or taking them out, once or again and again, are read alike. -/
theorem Reference.readAlike_of_respaces {s s' : String} {placed : List PlacedToken}
    (hs : Token.tokenize s = .ok placed) (h : Relation.ReflTransGen Token.Respaces s s') :
    ReadAlike s s' := by
  obtain ⟨placed', hs', htokens⟩ := Token.exists_tokenize_of_respaces hs h
  refine ⟨placed, placed', hs, hs', htokens, ?_⟩
  have htree := Tree.ofText_of_tokenize hs
  have htree' := Tree.ofText_of_tokenize hs'
  rw [htokens] at htree'
  unfold ofTypedText
  rw [htree, htree']
  cases Parser.complete (placed.map (·.token)) with
  | ok t => exact Or.inl ⟨t, rfl, rfl, rfl⟩
  | error misses =>
      obtain ⟨index, hreport⟩ := Miss.exists_report htokens s.utf8ByteSize s'.utf8ByteSize misses
      exact Or.inr ⟨_, _, index, rfl, rfl, rfl, rfl, hreport⟩

/-- A tab is put in front of the register and one of two blanks behind it is taken out: both texts
are refused at the register, which stands one byte further on. -/
theorem Reference.readAlike_around_register :
    let s := "ap  1"
    let s' := "\tap 1"
    let placed : List PlacedToken := [⟨.ident "ap", 0, 2⟩, ⟨.number "1", 4, 5⟩]
    Token.tokenize s = .ok placed ∧ Relation.ReflTransGen Token.Respaces s s' ∧
      ReadAlike s s' := by
  intro s s' placed
  let between := "\tap  1"
  let moved : List PlacedToken := [⟨.ident "ap", 1, 3⟩, ⟨.number "1", 5, 6⟩]
  have hs : Token.tokenize s = .ok placed := by decide +kernel
  have hbetween : Token.tokenize between = .ok moved := by decide +kernel
  have htext : s.toList = ['a', 'p', ' ', ' ', '1'] := by decide +kernel
  have htext' : between.toList = ['\t', 'a', 'p', ' ', ' ', '1'] := by decide +kernel
  have htext'' : s'.toList = ['\t', 'a', 'p', ' ', '1'] := by decide +kernel
  have hinsert : Token.Respaces s between := by
    refine .insert hs ?_
    rw [htext, htext']
    refine .insert rfl ?_ (.keep (.keep (.keep (.keep (.keep (.nil 5))))))
    rintro t - - ⟨hlt, -⟩
    exact absurd hlt (Nat.not_lt_zero t.start)
  have hremove : Token.Respaces between s' := by
    have hedit : Token.Removes (· = 3) 0 between.toList s'.toList := by
      rw [htext', htext'']
      exact .keep (by decide) (.keep (by decide) (.keep (by decide) (.remove rfl rfl
        (.keep (by decide) (.keep (by decide) (.nil 6))))))
    refine .remove hbetween hedit ?_
    -- The second of the two blanks stays.
    intro t ht u hu _ hlt
    refine ⟨4, ?_⟩
    simp only [moved, List.mem_cons, List.not_mem_nil, or_false] at ht hu
    rcases ht with rfl | rfl <;> rcases hu with rfl | rfl <;> simp_all
  have hedits := (Relation.ReflTransGen.single hinsert).tail hremove
  exact ⟨hs, hedits, readAlike_of_respaces hs hedits⟩

end CellHints
