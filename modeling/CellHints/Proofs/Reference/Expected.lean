import CellHints.Proofs.Reference.Grammar
import CellHints.Proofs.Reference.Wording
import Mathlib.Data.List.Nodup
import Mathlib.Data.Nat.Find
import Mathlib.Order.Bounds.Basic

/-!
# Where and why reference text is refused

A text that can be cut into tokens but has no tree is refused at the end of its
longest beginning that can be completed to a reference, and the message lists the
labels of exactly the roles that a token can have there.  What an alternative missed
further in front is NOT reported, and no alternative looks further than the grammar
allows.
-/

namespace CellHints.Tree

/-- The lengths of the beginnings of a row that can be completed to a reference. -/
def viableLengths (ts : List Token) : Set Nat := {j | j ≤ ts.length ∧ Viable (ts.take j)}

/-- What is expected behind a row of tokens: nothing more if it spells a whole reference,
or else every role that the next token can have. -/
def Expects (ts : List Token) (role : Expectation) : Prop :=
  (∃ t, Derives ts t) ∧ role = .endOfInput ∨ (¬∃ t, Derives ts t) ∧ CanFollow ts role

theorem canFollow_iff {ts : List Token} {role : Expectation} :
    CanFollow ts role ↔ ∃ token, Parser.Next Spells ts ⟨role, token⟩ := by
  constructor
  · intro h
    obtain ⟨w, token, rest, t, hw, hts⟩ := h
    exact ⟨token, w, rest, t, hw, hts⟩
  · intro h
    obtain ⟨token, w, rest, t, hw, hts⟩ := h
    exact ⟨w, token, rest, t, hw, hts⟩

/-- A reference cannot go on. -/
theorem Derives.not_next {ts : List Token} {t : Tree} {l : Lexeme} (h : Derives ts t) :
    ¬Parser.Next Spells ts l := by
  obtain ⟨w, hw, rfl⟩ := h
  intro hl
  exact List.not_mem_nil (Parser.Reads.mem_stops Parser.reads_tree hw hl)

/-- Behind a reference, only the end of the text is expected. -/
theorem Derives.expects_iff {ts : List Token} {t : Tree} {role : Expectation}
    (h : Derives ts t) : Expects ts role ↔ role = .endOfInput := by
  constructor
  · rintro (⟨-, hrole⟩ | ⟨hnot, -⟩)
    · exact hrole
    · exact absurd ⟨t, h⟩ hnot
  · intro hrole
    exact Or.inl ⟨⟨t, h⟩, hrole⟩

theorem expects_iff_of_not_derives {ts : List Token} {role : Expectation}
    (h : ¬∃ t, Derives ts t) : Expects ts role ↔ CanFollow ts role := by
  simp [Expects, h]

theorem Derives.exists_next {ts more : List Token} {token : Token} {t : Tree}
    (h : Derives (ts ++ token :: more) t) : ∃ l, Parser.Next Spells ts l := by
  obtain ⟨w, hw, hts⟩ := h
  obtain ⟨u, v, rfl, hu, hv⟩ := List.map_eq_append_iff.1 hts
  obtain ⟨l, v, rfl, -, -⟩ := List.map_eq_cons_iff.1 hv
  exact ⟨l, u, v, t, hw, hu⟩

theorem viable_of_next {ts : List Token} {l : Lexeme} (h : Parser.Next Spells ts l) :
    Viable (ts ++ [l.token]) := by
  obtain ⟨w, rest, t, hw, rfl⟩ := h
  exact ⟨rest.map (·.token), t, _, hw, by simp⟩

theorem Viable.of_append {ts more : List Token} (h : Viable (ts ++ more)) : Viable ts := by
  obtain ⟨rest, t, ht⟩ := h
  rw [List.append_assoc] at ht
  exact ⟨more ++ rest, t, ht⟩

theorem viable_nil : Viable [] := by
  obtain ⟨w, t, hw⟩ := Parser.Explains.inhabited Parser.explains_tree
  exact ⟨w.map (·.token), t, w, hw, rfl⟩

/-- Something is expected behind every beginning of a reference. -/
theorem Viable.exists_expects {ts : List Token} (h : Viable ts) : ∃ role, Expects ts role := by
  by_cases hderives : ∃ t, Derives ts t
  · exact ⟨.endOfInput, Or.inl ⟨hderives, rfl⟩⟩
  · obtain ⟨more, t, ht⟩ := h
    cases more with
    | nil => exact absurd ⟨t, by simpa using ht⟩ hderives
    | cons token more =>
        obtain ⟨l, hl⟩ := ht.exists_next
        exact ⟨l.role, Or.inr ⟨hderives, canFollow_iff.2 ⟨l.token, hl⟩⟩⟩

theorem exists_longest_viable (ts : List Token) :
    ∃ k, IsGreatest (viableLengths ts) k := by
  classical
  refine ⟨Nat.findGreatest (fun j => Viable (ts.take j)) ts.length, ⟨?_, ?_⟩, ?_⟩
  · exact Nat.findGreatest_le _
  · exact Nat.findGreatest_spec (P := fun j => Viable (ts.take j)) (Nat.zero_le _) viable_nil
  · intro j hj
    exact Nat.le_findGreatest hj.1 hj.2

end CellHints.Tree

namespace CellHints.Parser

open CellHints.Tree

variable {ts : List Token} {k : Nat}

/-- A longest viable beginning is stuck. -/
theorem stuck_longest (hk : IsGreatest (viableLengths ts) k) :
    Stuck Spells (ts.take k) (ts.drop k) := by
  intro l hl hhead
  obtain ⟨rest, hrest⟩ : ∃ rest, ts.drop k = l.token :: rest := List.head?_eq_some_iff.1 hhead
  have hlt : k < ts.length := by
    have hlen := congrArg List.length hrest
    simp only [List.length_drop, List.length_cons] at hlen
    omega
  have hnext : ts.take (k + 1) = ts.take k ++ [l.token] := by
    rw [List.head?_drop] at hhead
    rw [List.take_add_one, hhead]
    rfl
  -- One more token would be viable as well.
  have hle := hk.2 ⟨hlt, hnext ▸ viable_of_next hl⟩
  omega

/-- The tree parser misses nothing behind a longest viable beginning. -/
theorem le_left_of_mem_misses (hk : IsGreatest (viableLengths ts) k)
    {miss : Miss} (hmiss : miss ∈ (tree ts).2) : ts.length - k ≤ miss.left := by
  obtain ⟨front, back, l, rfl, hl, rfl⟩ := Explains.wanted explains_tree hmiss
  have hle : front.length ≤ k := hk.2 ⟨by simp, by simpa using (viable_of_next hl).of_append⟩
  simp only [List.length_append]
  omega

/-- At the end of a longest viable beginning, the tree parser misses what can follow. -/
theorem mem_misses_longest_iff (hk : IsGreatest (viableLengths ts) k)
    {role : Expectation} :
    ⟨ts.length - k, role⟩ ∈ (tree ts).2 ↔ CanFollow (ts.take k) role := by
  constructor
  · intro h
    obtain ⟨front, back, l, rfl, hl, hmiss⟩ := Explains.wanted explains_tree h
    obtain ⟨hlen, rfl⟩ := Miss.mk.inj hmiss
    have hk' : k = front.length := by
      have hle := hk.1.1
      simp only [List.length_append] at hlen hle
      omega
    rw [hk', List.take_left']
    · exact canFollow_iff.2 ⟨l.token, hl⟩
    · rfl
  · intro h
    obtain ⟨token, hnext⟩ := canFollow_iff.1 h
    have hmiss := Explains.missed explains_tree hnext (stuck_longest hk)
    rwa [List.take_append_drop, List.length_drop] at hmiss

/-- A whole reference in front of other tokens is a longest viable beginning. -/
theorem longest_eq_length_of_derives {front back : List Token} {t : Tree}
    (ht : Derives front t)
    (hk : IsGreatest (viableLengths (front ++ back)) k) : k = front.length := by
  have hle : front.length ≤ k := hk.2 ⟨by simp, [], t, by simpa using ht⟩
  obtain ⟨more, u, hu⟩ := hk.1.2
  rw [List.take_append, List.take_of_length_le hle, List.append_assoc] at hu
  cases hlonger : back.take (k - front.length) ++ more with
  | cons token rest =>
      rw [hlonger] at hu
      obtain ⟨l, hl⟩ := hu.exists_next
      exact absurd hl ht.not_next
  | nil =>
      have hlen := congrArg List.length (List.append_eq_nil_iff.1 hlonger).1
      have hk' := hk.1.1
      simp only [List.length_take, List.length_append, List.length_nil] at hlen hk'
      omega

/-- Tokens that spell no tree leave misses at the end of their longest viable beginning,
namely for what is expected there, and none behind it. -/
theorem complete_eq_error {misses : List Miss} (h : complete ts = .error misses)
    (hk : IsGreatest (viableLengths ts) k) :
    (∀ miss ∈ misses, ts.length - k ≤ miss.left) ∧
      ∀ role, ⟨ts.length - k, role⟩ ∈ misses ↔ Expects (ts.take k) role := by
  have hleft : ∀ miss ∈ (tree ts).2, ts.length - k ≤ miss.left :=
    fun miss hmiss => le_left_of_mem_misses hk hmiss
  have hmem := @mem_misses_longest_iff ts k hk
  unfold complete at h
  split at h
  · contradiction
  · next t rest found _ hread =>
      -- The tree ends in front of the other tokens, and nothing goes on with it.
      cases h
      obtain ⟨w, hw, rfl⟩ := Reads.sound reads_tree (congrArg Prod.fst hread)
      have hderives : Derives (w.map (·.token)) t := ⟨w, hw, rfl⟩
      obtain rfl := longest_eq_length_of_derives hderives hk
      have hlen : (w.map (·.token) ++ rest).length - (w.map (·.token)).length = rest.length := by
        simp
      simp only [hread, hlen, List.take_left] at hleft hmem ⊢
      constructor
      · intro miss hmiss
        rcases List.mem_append.1 hmiss with hmiss | hmiss
        · exact hleft miss hmiss
        · rw [List.mem_singleton.1 hmiss]
      · intro role
        have hcannot : ¬CanFollow (w.map (·.token)) role := by
          rw [canFollow_iff]
          rintro ⟨token, hnext⟩
          exact hderives.not_next hnext
        rw [hderives.expects_iff, List.mem_append, hmem]
        simp [hcannot]
  · next found hread =>
      cases h
      -- A tree in front of the other tokens would have been found.
      have hnot : ¬∃ t, Derives (ts.take k) t := by
        rintro ⟨t, w, hw, hfront⟩
        have hfound := Reads.complete reads_tree hw (startsNot_nil (ts.drop k))
        rw [hfront, List.take_append_drop, hread] at hfound
        contradiction
      rw [hread] at hleft hmem
      refine ⟨hleft, ?_⟩
      intro role
      rw [hmem, expects_iff_of_not_derives hnot]

end CellHints.Parser

namespace CellHints

theorem nodup_eraseDups {α : Type} [DecidableEq α] (as : List α) : as.eraseDups.Nodup := by
  -- Behind its first element, the list goes on without it.
  induction hlen : as.length using Nat.strongRecOn generalizing as with
  | ind n ih =>
      cases as with
      | nil => simp
      | cons a as =>
          have hle := List.length_filter_le (fun b => !b == a) as
          rw [List.length_cons] at hlen
          rw [List.eraseDups_cons, List.nodup_cons]
          exact ⟨by simp [List.mem_eraseDups], ih _ (by omega) _ rfl⟩

end CellHints

namespace CellHints.Miss

theorem le_leastLeft_iff {misses : List Miss} {n total : Nat} :
    n ≤ leastLeft total misses ↔ n ≤ total ∧ ∀ miss ∈ misses, n ≤ miss.left := by
  unfold leastLeft
  induction misses generalizing total with
  | nil => simp
  | cons miss misses ih =>
      rw [List.foldl_cons, ih, Nat.le_min, List.forall_mem_cons, and_assoc]

theorem leastLeft_eq {misses : List Miss} {miss : Miss} {n total : Nat} (htotal : n ≤ total)
    (hle : ∀ miss ∈ misses, n ≤ miss.left) (hmem : miss ∈ misses) (hleft : miss.left = n) :
    leastLeft total misses = n := by
  apply Nat.le_antisymm
  · have hleast := (le_leastLeft_iff.1 (Nat.le_refl (leastLeft total misses))).2 miss hmem
    omega
  · exact le_leastLeft_iff.2 ⟨htotal, hle⟩

theorem mem_furthest_iff {misses : List Miss} {least : Nat} {role : Expectation} :
    role ∈ furthest least misses ↔ ⟨least, role⟩ ∈ misses := by
  simp only [furthest, List.mem_eraseDups, List.mem_map, List.mem_filter, decide_eq_true_eq]
  constructor
  · rintro ⟨miss, ⟨hmiss, rfl⟩, rfl⟩
    exact hmiss
  · intro h
    exact ⟨_, ⟨h, rfl⟩, rfl⟩

theorem nodup_furthest (least : Nat) (misses : List Miss) : (furthest least misses).Nodup :=
  nodup_eraseDups _

/-- A report on misses that reach as far as the token `k`, or the end, and no further. -/
theorem report_eq {size k : Nat} {placed : List PlacedToken} {misses : List Miss}
    {role : Expectation} (hk : k ≤ placed.length)
    (hle : ∀ miss ∈ misses, placed.length - k ≤ miss.left)
    (hmem : ⟨placed.length - k, role⟩ ∈ misses) :
    report size placed misses =
      .unexpected ((placed[k]?.map (·.start)).getD size) (furthest (placed.length - k) misses)
        (placed[k]?.map (·.token)) := by
  have hleast := leastLeft_eq (Nat.sub_le placed.length k) hle hmem rfl
  have hplace : placed.length - (placed.length - k) = k := Nat.sub_sub_self hk
  simp only [report, hleast, hplace]
  cases placed[k]? with
  | some found => rfl
  | none => rfl

end CellHints.Miss

namespace CellHints.Tree

/-- Behind a reference, the end of the text is all that is listed. -/
theorem Derives.eq_singleton {ts : List Token} {t : Tree} {expected : List Expectation}
    (h : Derives ts t) (hnodup : expected.Nodup)
    (hmem : ∀ role, role ∈ expected ↔ Expects ts role) : expected = [.endOfInput] := by
  simp only [h.expects_iff] at hmem
  obtain ⟨n, rfl⟩ : ∃ n, expected = List.replicate n .endOfInput :=
    ⟨expected.length, List.eq_replicate_iff.2 ⟨rfl, fun role hrole => (hmem role).1 hrole⟩⟩
  have hle := List.nodup_replicate.1 hnodup
  have hpos : n ≠ 0 := (List.mem_replicate.1 ((hmem .endOfInput).2 rfl)).1
  obtain rfl : n = 1 := by omega
  rfl

/-- A text whose tokens spell no tree is refused behind the longest beginning of them that
can be completed, over what is expected there. -/
theorem exists_expected_of_ofText {s : String} {placed : List PlacedToken} {e : SyntaxError}
    {k : Nat} (hcut : Token.tokenize s = .ok placed) (herror : ofText s = .error e)
    (hk : IsGreatest (viableLengths (placed.map (·.token))) k) :
    ∃ expected : List Expectation,
      e = .unexpected ((placed[k]?.map (·.start)).getD s.utf8ByteSize) expected
        (placed.map (·.token))[k]? ∧
      expected.Nodup ∧
      ∀ role, role ∈ expected ↔ Expects ((placed.map (·.token)).take k) role := by
  simp only [ofText, hcut] at herror
  cases hcomplete : Parser.complete (placed.map (·.token)) with
  | ok t =>
      rw [hcomplete] at herror
      contradiction
  | error misses =>
      rw [hcomplete] at herror
      cases herror
      obtain ⟨hle, hmem⟩ := Parser.complete_eq_error hcomplete hk
      obtain ⟨role, hrole⟩ := hk.1.2.exists_expects
      have hmiss := (hmem role).2 hrole
      have hk' := hk.1.1
      rw [List.length_map] at hle hmem hmiss hk'
      refine ⟨Miss.furthest (placed.length - k) misses, ?_, Miss.nodup_furthest _ _, ?_⟩
      · rw [Miss.report_eq hk' hle hmiss, List.getElem?_map]
      · intro role
        rw [Miss.mem_furthest_iff, hmem]

/-- A text whose tokens spell no tree is refused at the first token behind the longest
beginning that can be completed to a reference, or at the end of the text.  The message
gives that place and what was found there, and lists the labels of all that is expected
there, each once, and no other; behind a whole reference that is the end of the text. -/
theorem ofText_eq_error_at_longest {s : String} {placed : List PlacedToken} {e : SyntaxError}
    (hcut : Token.tokenize s = .ok placed) (herror : ofText s = .error e) :
    let ts := placed.map (·.token)
    ∃ k position expected labels, IsGreatest (viableLengths ts) k ∧
      position = (placed[k]?.map (·.start)).getD s.utf8ByteSize ∧
      e = .unexpected position expected ts[k]? ∧
      expected.Nodup ∧ (∀ role, role ∈ expected ↔ Expects (ts.take k) role) ∧
      Wording.Reports e position labels ts[k]? ∧ labels.Nodup ∧
      (∀ label, label ∈ labels ↔
        ∃ role, Expects (ts.take k) role ∧ (role, label) ∈ Wording.labels) ∧
      ((∃ t, Derives (ts.take k) t) → labels = ["end of input"]) ∧
      "a hint reference" ∉ labels := by
  intro ts
  obtain ⟨k, hk⟩ := exists_longest_viable ts
  obtain ⟨expected, rfl, hnodup, hexpected⟩ := exists_expected_of_ofText hcut herror hk
  have hne : expected ≠ [] := by
    obtain ⟨role, hrole⟩ := hk.1.2.exists_expects
    exact List.ne_nil_of_mem ((hexpected role).2 hrole)
  refine ⟨k, _, expected, expected.map (·.text), hk, rfl, rfl, hnodup, hexpected,
    Wording.reports_unexpected hne _, hnodup.map Wording.text_injective, ?_, ?_, ?_⟩
  · intro label
    simp only [List.mem_map, hexpected, Wording.mem_labels_iff, eq_comm, ts]
  · rintro ⟨t, ht⟩
    rw [ht.eq_singleton hnodup hexpected]
    rfl
  · rw [List.mem_map]
    rintro ⟨role, -, hrole⟩
    exact Wording.text_ne_fallback role hrole

/-- The text `cast(ap + 1 felt)` is refused at its word `felt`. -/
theorem ofText_eq_error_at_longest_without_comma :
    let s := "cast(ap + 1 felt)"
    let placed : List PlacedToken :=
      [⟨.ident "cast", 0, 4⟩, ⟨.openParen, 4, 5⟩, ⟨.ident "ap", 5, 7⟩, ⟨.plus, 8, 9⟩,
        ⟨.number "1", 10, 11⟩, ⟨.ident "felt", 12, 16⟩, ⟨.closeParen, 16, 17⟩]
    let ts := placed.map (·.token)
    let e : SyntaxError := .unexpected 12 [.star, .sign, .comma] (some (.ident "felt"))
    Token.tokenize s = .ok placed ∧ ofText s = .error e ∧ IsGreatest (viableLengths ts) 5 ∧
      e.message =
        "Syntax error at position 12: expected one of '*', '+' or '-', ',', found 'felt'" ∧
      ∀ label, label ∈ ["'*'", "'+' or '-'", "','"] ↔
        ∃ role, Expects (ts.take 5) role ∧ (role, label) ∈ Wording.labels := by
  intro s placed ts e
  have hcut : Token.tokenize s = .ok placed := by decide +kernel
  have herror : ofText s = .error e := by decide +kernel
  obtain ⟨k, position, expected, labels, hk, -, hsame, -, -, hreports, -, hlabels, -, -⟩ :=
    ofText_eq_error_at_longest hcut herror
  obtain ⟨rfl, rfl, hfound⟩ := SyntaxError.unexpected.inj hsame
  -- The word `felt` stands in one place only.
  obtain rfl : k = 5 := by
    have hplaces : ∀ j < 8, some (.ident "felt") = ts[j]? → j = 5 := by decide
    exact hplaces k (Nat.lt_succ_of_le hk.1.1) hfound
  -- The words of the message can be read only one way.
  obtain rfl : ["'*'", "'+' or '-'", "','"] = labels :=
    hreports.eq_of_reason _ "'felt'" (by decide +kernel) (by decide +kernel)
  exact ⟨hcut, herror, hk, by decide +kernel, hlabels⟩

end CellHints.Tree
