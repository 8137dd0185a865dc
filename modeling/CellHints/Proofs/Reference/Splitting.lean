import CellHints.Proofs.Reference.Printing

/-!
# How a text is split

Which placed tokens a text is split into, said about what stands in front of and behind
each of them.  A token is as long as it can be, so what follows a text decides whether its
last token ends there: two texts that follow each other are split on their own exactly
if no token lies across the place between them.  A text moved elsewhere is split alike.
It is NOT said here what the bytes of the text are.
-/

/-- A token as many bytes further on. -/
def CellHints.PlacedToken.moveOn (count : Nat) (t : PlacedToken) : PlacedToken :=
  ⟨t.token, t.start + count, t.stop + count⟩

namespace CellHints.Token

/-- Whether a character would lengthen a token that it stood right behind. -/
def lengthenedBy : Token → Char → Bool
  | number _, c => c.isDigit
  | ident _, c => isNamePart c
  | _, _ => false

/-- Whether a token is spelled as its kind asks: by digits, as a name, or as a single mark. -/
def WellSpelled : Token → Prop
  | number digits => digits.toList ≠ [] ∧ ∀ c ∈ digits.toList, c.isDigit = true
  | ident name => IsName name
  | mark c => c ∈ strayMarks
  | _ => True

/-- Whether a text that starts at `pos` is split into these tokens: blanks stand between
them, and each of them ends where it could not be longer. -/
inductive Splits : Nat → List Char → List PlacedToken → Prop
  | nil (pos : Nat) : Splits pos [] []
  | separator {pos : Nat} {c : Char} {rest : List Char} {placed : List PlacedToken}
      (hc : isSeparator c = true) (hrest : Splits (pos + 1) rest placed) :
      Splits pos (c :: rest) placed
  | token {pos stop : Nat} {run rest : List Char} {t : Token} {placed : List PlacedToken}
      (hrun : t.text.toList = run) (hstop : stop = pos + run.length) (ht : t.WellSpelled)
      (hend : ∀ c ∈ rest.head?, t.lengthenedBy c = false) (hrest : Splits stop rest placed) :
      Splits pos (run ++ rest) (⟨t, pos, stop⟩ :: placed)

/-! ### Single tokens -/

theorem wellSpelled_number {c : Char} {cs : List Char} (hc : c.isDigit = true)
    (hcs : ∀ d ∈ cs, d.isDigit = true) : WellSpelled (number (String.ofList (c :: cs))) := by
  simp only [WellSpelled, String.toList_ofList]
  exact ⟨List.cons_ne_nil c cs, List.forall_mem_cons.2 ⟨hc, hcs⟩⟩

theorem wellSpelled_ident {c : Char} {cs : List Char} (hc : isNameStart c = true)
    (hcs : ∀ d ∈ cs, isNamePart d = true) : WellSpelled (ident (String.ofList (c :: cs))) :=
  ⟨c, cs, String.toList_ofList, hc, List.all_eq_true.2 hcs⟩

/-- A mark is spelled by itself, and nothing lengthens it. -/
theorem of_ofMark? {c : Char} {t : Token} (h : ofMark? c = some t) :
    t.text.toList = [c] ∧ t.WellSpelled ∧ ∀ d, t.lengthenedBy d = false := by
  unfold ofMark? at h
  split at h
  all_goals try (cases h; exact ⟨rfl, trivial, fun _ => rfl⟩)
  split at h
  · next hc =>
      cases h
      exact ⟨String.toList_ofList, List.contains_iff_mem.1 hc, fun _ => rfl⟩
  · contradiction

theorem isMark_of_mem_strayMarks {c : Char} (hc : c ∈ strayMarks) : IsMark c (.mark c) := by
  have hall : strayMarks.all (fun d => decide (isSeparator d = false ∧ d.isDigit = false ∧
      isNamePart d = false ∧ isNameStart d = false ∧ ofMark? d = some (.mark d))) = true := by
    decide
  obtain ⟨hseparator, hdigit, hpart, hstart, hmark⟩ :=
    of_decide_eq_true (List.all_eq_true.1 hall c hc)
  exact ⟨hseparator, hdigit, hpart, hstart, hmark⟩

/-- A token is a run of digits, a name, or a mark. -/
theorem WellSpelled.cases {t : Token} (h : t.WellSpelled) :
    (∃ c cs, t = number (String.ofList (c :: cs)) ∧ c.isDigit = true ∧
      ∀ d ∈ cs, d.isDigit = true) ∨
    (∃ c cs, t = ident (String.ofList (c :: cs)) ∧ isNameStart c = true ∧
      ∀ d ∈ cs, isNamePart d = true) ∨
    ∃ c, t.text.toList = [c] ∧ IsMark c t := by
  cases t with
  | number digits =>
      obtain ⟨hne, hdigits⟩ := h
      obtain ⟨c, cs, hcs⟩ := List.exists_cons_of_ne_nil hne
      rw [hcs] at hdigits
      obtain ⟨hc, hall⟩ := List.forall_mem_cons.1 hdigits
      exact Or.inl ⟨c, cs, by rw [← hcs, String.ofList_toList], hc, hall⟩
  | ident name =>
      obtain ⟨c, cs, hcs, hc, hall⟩ := h
      exact Or.inr (Or.inl ⟨c, cs, by rw [← hcs, String.ofList_toList], hc,
        List.all_eq_true.1 hall⟩)
  | openBracket => exact Or.inr (Or.inr ⟨'[', rfl, isMark_openBracket⟩)
  | closeBracket => exact Or.inr (Or.inr ⟨']', rfl, isMark_closeBracket⟩)
  | openParen => exact Or.inr (Or.inr ⟨'(', rfl, isMark_openParen⟩)
  | closeParen => exact Or.inr (Or.inr ⟨')', rfl, isMark_closeParen⟩)
  | plus => exact Or.inr (Or.inr ⟨'+', rfl, isMark_plus⟩)
  | minus => exact Or.inr (Or.inr ⟨'-', rfl, isMark_minus⟩)
  | star => exact Or.inr (Or.inr ⟨'*', rfl, isMark_star⟩)
  | comma => exact Or.inr (Or.inr ⟨',', rfl, isMark_comma⟩)
  | dot => exact Or.inr (Or.inr ⟨'.', rfl, isMark_dot⟩)
  | mark c => exact Or.inr (Or.inr ⟨c, String.toList_ofList, isMark_of_mem_strayMarks h⟩)

theorem WellSpelled.text_ne_nil {t : Token} (h : t.WellSpelled) : t.text.toList ≠ [] := by
  rcases h.cases with ⟨c, cs, rfl, -⟩ | ⟨c, cs, rfl, -⟩ | ⟨c, hc, -⟩
  · simp [text]
  · simp [text]
  · simp [hc]

theorem isNamePart_of_isDigit {c : Char} (h : c.isDigit = true) : isNamePart c = true := by
  simp [isNamePart, h]

theorem not_isSeparator_of_isNamePart {c : Char} (h : isNamePart c = true) :
    isSeparator c = false := by
  simp only [isSeparator, Bool.or_eq_false_iff, decide_eq_false_iff_not]
  constructor
  · rintro rfl
    contradiction
  · rintro rfl
    contradiction

theorem isNamePart_of_lengthenedBy {t : Token} {c : Char} (h : t.lengthenedBy c = true) :
    isNamePart c = true := by
  cases t with
  | number digits => exact isNamePart_of_isDigit h
  | ident name => exact h
  | _ => contradiction

/-- No token contains a separator. -/
theorem WellSpelled.not_isSeparator {t : Token} (h : t.WellSpelled) :
    ∀ c ∈ t.text.toList, isSeparator c = false := by
  rcases h.cases with ⟨c, cs, rfl, hc, hcs⟩ | ⟨c, cs, rfl, hc, hcs⟩ | ⟨c, hc, hmark⟩
  · rw [text, String.toList_ofList]
    exact List.forall_mem_cons.2 ⟨not_isSeparator_of_isDigit hc,
      fun d hd => not_isSeparator_of_isDigit (hcs d hd)⟩
  · rw [text, String.toList_ofList]
    exact List.forall_mem_cons.2 ⟨not_isSeparator_of_isNameStart hc,
      fun d hd => not_isSeparator_of_isNamePart (hcs d hd)⟩
  · rw [hc, List.forall_mem_singleton]
    exact hmark.not_separator

/-! ### Runs -/

/-- A run of characters ends in front of the first that does not belong to it. -/
theorem takeWhile_append_of_head? {p : Char → Bool} {run rest : List Char}
    (hrun : ∀ c ∈ run, p c = true) (hend : ∀ c ∈ rest.head?, p c = false) :
    (run ++ rest).takeWhile p = run ∧ (run ++ rest).dropWhile p = rest := by
  rw [List.takeWhile_append_of_pos hrun, List.dropWhile_append_of_pos hrun]
  cases rest with
  | nil => simp
  | cons c rest =>
      have hc := hend c rfl
      simp [hc]

theorem eq_false_of_mem_head?_dropWhile {p : Char → Bool} {cs : List Char} {c : Char}
    (h : c ∈ (cs.dropWhile p).head?) : p c = false := by
  have hhead := List.head?_dropWhile_not p cs
  rw [Option.mem_def.1 h] at hhead
  simpa using hhead

/-- A front part of a text that is longer than another one contains it. -/
theorem exists_between_of_append_eq {front back run rest : List Char}
    (h : front ++ back = run ++ rest) (hle : run.length ≤ front.length) :
    ∃ mid, front = run ++ mid ∧ rest = mid ++ back := by
  have hrun : run <+: front ++ back := ⟨rest, h.symm⟩
  obtain ⟨mid, rfl⟩ := List.prefix_of_prefix_length_le hrun (List.prefix_append front back) hle
  rw [List.append_assoc] at h
  exact ⟨mid, rfl, (List.append_cancel_left h).symm⟩

/-! ### The relation is what the scanner computes -/

/-- A token that starts with `c` and takes up a whole run. -/
theorem Splits.run {p : Char → Bool} {t : Token} {pos : Nat} {c : Char} {rest : List Char}
    {placed : List PlacedToken} (htext : t.text.toList = c :: rest.takeWhile p)
    (ht : t.WellSpelled) (hend : ∀ d, p d = false → t.lengthenedBy d = false)
    (hrest : Splits (pos + 1 + (rest.takeWhile p).length) (rest.dropWhile p) placed) :
    Splits pos (c :: rest) (⟨t, pos, pos + 1 + (rest.takeWhile p).length⟩ :: placed) := by
  have hstop : pos + 1 + (rest.takeWhile p).length = pos + (c :: rest.takeWhile p).length := by
    rw [List.length_cons]
    omega
  have hcs : c :: rest.takeWhile p ++ rest.dropWhile p = c :: rest := by
    rw [List.cons_append, List.takeWhile_append_dropWhile]
  have hsplit := Splits.token htext hstop ht
    (fun d hd => hend d (eq_false_of_mem_head?_dropWhile hd)) hrest
  rwa [hcs] at hsplit

theorem splits_of_scan {pos : Nat} {cs : List Char} {placed : List PlacedToken}
    (h : scan pos cs = .ok placed) : Splits pos cs placed := by
  fun_induction scan pos cs generalizing placed with
  | case1 pos =>
      cases h
      exact .nil pos
  | case2 pos c rest hseparator ih => exact .separator hseparator (ih h)
  | @case3 pos c rest hseparator hdigit tail stop ih =>
      obtain ⟨behind, hbehind, rfl⟩ := Except.map_eq_ok_iff.1 h
      exact .run String.toList_ofList (wellSpelled_number hdigit fun d => List.mem_takeWhile_imp)
        (fun d hd => hd) (ih hbehind)
  | @case4 pos c rest hseparator hdigit hname tail stop ih =>
      obtain ⟨behind, hbehind, rfl⟩ := Except.map_eq_ok_iff.1 h
      exact .run String.toList_ofList (wellSpelled_ident hname fun d => List.mem_takeWhile_imp)
        (fun d hd => hd) (ih hbehind)
  | case5 pos c rest hseparator hdigit hname t hmark ih =>
      obtain ⟨behind, hbehind, rfl⟩ := Except.map_eq_ok_iff.1 h
      obtain ⟨htext, hspelled, hend⟩ := of_ofMark? hmark
      exact .token htext rfl hspelled (fun d _ => hend d) (ih hbehind)
  | case6 => contradiction

theorem Splits.scan_eq {pos : Nat} {cs : List Char} {placed : List PlacedToken}
    (h : Splits pos cs placed) : scan pos cs = .ok placed := by
  induction h with
  | nil pos => rw [scan]
  | separator hc _ ih => rw [scan, if_pos hc, ih]
  | @token pos stop run rest t placed hrun hstop ht hend _ ih =>
      subst hrun hstop
      rcases ht.cases with ⟨c, cs, rfl, hc, hcs⟩ | ⟨c, cs, rfl, hc, hcs⟩ | ⟨c, hc, hmark⟩
      · obtain ⟨htake, hdrop⟩ := takeWhile_append_of_head? hcs hend
        have hseparator := not_isSeparator_of_isDigit hc
        simp only [text, String.toList_ofList, List.cons_append, List.length_cons] at ih ⊢
        simp only [scan, hseparator, hc, htake, hdrop, Bool.false_eq_true, if_false, if_true]
        rw [Nat.add_assoc, Nat.add_comm 1, ih]
        rfl
      · obtain ⟨htake, hdrop⟩ := takeWhile_append_of_head? hcs hend
        have hseparator := not_isSeparator_of_isNameStart hc
        have hdigit := not_isDigit_of_isNameStart hc
        simp only [text, String.toList_ofList, List.cons_append, List.length_cons] at ih ⊢
        simp only [scan, hseparator, hdigit, hc, htake, hdrop, Bool.false_eq_true, if_false,
          if_true]
        rw [Nat.add_assoc, Nat.add_comm 1, ih]
        rfl
      · rw [hc] at ih ⊢
        simp only [List.cons_append, List.nil_append, List.length_cons, List.length_nil] at ih ⊢
        simp only [scan, hmark.not_separator, hmark.not_digit, hmark.not_nameStart,
          hmark.ofMark?_eq, Bool.false_eq_true, if_false, ih]
        rfl

theorem scan_eq_ok_iff {pos : Nat} {cs : List Char} {placed : List PlacedToken} :
    scan pos cs = .ok placed ↔ Splits pos cs placed :=
  ⟨splits_of_scan, Splits.scan_eq⟩

/-! ### Where the tokens stand -/

variable {pos : Nat} {cs front back : List Char} {c : Char} {t : PlacedToken}
  {placed ts us : List PlacedToken}

namespace Splits

/-- Each token stands on its own text, which could not be longer. -/
theorem exists_around (h : Splits pos cs placed) (ht : t ∈ placed) :
    ∃ front back, cs = front ++ (t.token.text.toList ++ back) ∧ t.start = pos + front.length ∧
      t.stop = t.start + t.token.text.toList.length ∧ t.token.WellSpelled ∧
      ∀ c ∈ back.head?, t.token.lengthenedBy c = false := by
  induction h with
  | nil => contradiction
  | @separator pos c rest _ _ _ ih =>
      obtain ⟨front, back, rfl, hstart, hrest⟩ := ih ht
      refine ⟨c :: front, back, rfl, ?_, hrest⟩
      rw [hstart, List.length_cons]
      omega
  | @token pos stop run rest u _ hrun hstop hu hend _ ih =>
      rcases List.mem_cons.1 ht with rfl | ht
      · subst hrun
        exact ⟨[], rest, rfl, rfl, hstop, hu, hend⟩
      · obtain ⟨front, back, rfl, hstart, hrest⟩ := ih ht
        refine ⟨run ++ front, back, (List.append_assoc ..).symm, ?_, hrest⟩
        rw [hstart, hstop, List.length_append]
        omega

theorem le_start (h : Splits pos cs placed) (ht : t ∈ placed) : pos ≤ t.start := by
  obtain ⟨front, -, -, hstart, -⟩ := h.exists_around ht
  omega

theorem start_lt_stop (h : Splits pos cs placed) (ht : t ∈ placed) : t.start < t.stop := by
  obtain ⟨-, -, -, -, hstop, hspelled, -⟩ := h.exists_around ht
  have hlen := List.length_pos_iff.2 hspelled.text_ne_nil
  omega

theorem stop_le (h : Splits pos cs placed) (ht : t ∈ placed) : t.stop ≤ pos + cs.length := by
  obtain ⟨front, back, rfl, hstart, hstop, -⟩ := h.exists_around ht
  simp only [List.length_append]
  omega

/-- The tokens follow each other. -/
theorem ordered (h : Splits pos cs placed) :
    placed.Pairwise fun t u => t.stop ≤ u.start := by
  induction h with
  | nil => exact .nil
  | separator _ _ ih => exact ih
  | token _ _ _ _ hrest ih => exact List.pairwise_cons.2 ⟨fun u hu => hrest.le_start hu, ih⟩

/-- What stands on no token is a separator. -/
theorem isSeparator_of_outside (h : Splits pos (front ++ c :: back) placed)
    (hout : ∀ t ∈ placed, ¬(t.start ≤ pos + front.length ∧ pos + front.length < t.stop)) :
    isSeparator c = true := by
  generalize hcs : front ++ c :: back = cs at h
  induction h generalizing front with
  | nil => simp at hcs
  | separator hd _ ih =>
      rcases List.append_eq_cons_iff.1 hcs with ⟨-, hhead⟩ | ⟨front, rfl, rfl⟩
      · cases hhead
        exact hd
      · apply ih _ rfl
        intro t ht
        have hat := hout t ht
        rw [List.length_cons] at hat
        omega
  | @token pos stop run rest u _ hrun hstop hu _ _ ih =>
      have hfirst := hout ⟨u, pos, stop⟩ List.mem_cons_self
      simp only [Nat.le_add_right, true_and] at hfirst
      obtain ⟨mid, rfl, rfl⟩ := exists_between_of_append_eq hcs (by omega)
      apply ih _ rfl
      intro t ht
      have hat := hout t (List.mem_cons_of_mem _ ht)
      rw [List.length_append] at hat
      omega

/-- What stands on a token is no separator. -/
theorem not_isSeparator_of_inside (h : Splits pos (front ++ c :: back) placed) (ht : t ∈ placed)
    (hstart : t.start ≤ pos + front.length) (hstop : pos + front.length < t.stop) :
    isSeparator c = false := by
  obtain ⟨before, behind, hcs, htstart, htstop, hspelled, -⟩ := h.exists_around ht
  obtain ⟨mid, rfl, hmid⟩ := exists_between_of_append_eq hcs (by omega)
  rw [List.length_append] at hstop
  have hlen : (mid ++ [c]).length ≤ t.token.text.toList.length := by
    rw [List.length_append, List.length_singleton]
    omega
  rw [List.append_cons] at hmid
  obtain ⟨tail, htext, -⟩ := exists_between_of_append_eq hmid hlen
  apply hspelled.not_isSeparator
  simp [htext]

/-- Two texts that follow each other are split on their own if no token lies across the
place between them. -/
theorem exists_of_append (h : Splits pos (front ++ back) placed)
    (hplace : ∀ t ∈ placed, ¬(t.start < pos + front.length ∧ pos + front.length < t.stop)) :
    ∃ ts us, placed = ts ++ us ∧ Splits pos front ts ∧ Splits (pos + front.length) back us := by
  generalize hcs : front ++ back = cs at h
  induction h generalizing front with
  | nil pos =>
      obtain ⟨rfl, rfl⟩ := List.append_eq_nil_iff.1 hcs
      exact ⟨[], [], rfl, .nil pos, .nil pos⟩
  | @separator pos c rest placed hc hrest ih =>
      cases front with
      | nil =>
          obtain rfl : back = c :: rest := hcs
          exact ⟨[], placed, rfl, .nil pos, .separator hc hrest⟩
      | cons d front =>
          obtain ⟨rfl, rfl⟩ := List.cons.inj hcs
          have hlen : pos + (d :: front).length = pos + 1 + front.length := by
            rw [List.length_cons]
            omega
          rw [hlen] at hplace ⊢
          obtain ⟨ts, us, rfl, hfront, hback⟩ := ih hplace rfl
          exact ⟨ts, us, rfl, .separator hc hfront, hback⟩
  | @token pos stop run rest t placed hrun hstop ht hend hrest ih =>
      cases front with
      | nil =>
          obtain rfl : back = run ++ rest := hcs
          exact ⟨[], _, rfl, .nil pos, .token hrun hstop ht hend hrest⟩
      | cons d front =>
          -- The first token starts in front of the place, so it ends there or before.
          have hfirst : ¬(pos < pos + (d :: front).length ∧ pos + (d :: front).length < stop) :=
            hplace ⟨t, pos, stop⟩ List.mem_cons_self
          have hlen : 0 < (d :: front).length := Nat.succ_pos _
          obtain ⟨mid, hfront, rfl⟩ := exists_between_of_append_eq hcs (by omega)
          rw [hfront] at hplace ⊢
          have hmid : pos + (run ++ mid).length = stop + mid.length := by
            rw [List.length_append]
            omega
          rw [hmid] at hplace ⊢
          obtain ⟨ts, us, rfl, hmidsplit, hback⟩ :=
            ih (fun u hu => hplace u (List.mem_cons_of_mem _ hu)) rfl
          refine ⟨_ :: ts, us, rfl, .token hrun hstop ht ?_ hmidsplit, hback⟩
          intro c hc
          apply hend
          cases mid with
          | nil => contradiction
          | cons e mid => exact hc

/-- Two texts are split as before when the second is put behind the first, if it does not
lengthen the token that the first ends with. -/
theorem append (h : Splits pos front ts) (h' : Splits (pos + front.length) back us)
    (hjoin : ∀ t ∈ ts, t.stop = pos + front.length → ∀ c ∈ back.head?,
      t.token.lengthenedBy c = false) :
    Splits pos (front ++ back) (ts ++ us) := by
  induction h with
  | nil => exact h'
  | @separator pos c rest placed hc hrest ih =>
      have hlen : pos + (c :: rest).length = pos + 1 + rest.length := by
        rw [List.length_cons]
        omega
      rw [hlen] at h' hjoin
      exact .separator hc (ih h' hjoin)
  | @token pos stop run rest t placed hrun hstop ht hend hrest ih =>
      have hlen : pos + (run ++ rest).length = stop + rest.length := by
        rw [List.length_append]
        omega
      rw [hlen] at h' hjoin
      rw [List.append_assoc]
      refine .token hrun hstop ht ?_ (ih h' fun u hu => hjoin u (List.mem_cons_of_mem _ hu))
      intro c hc
      cases rest with
      | nil => exact hjoin _ List.mem_cons_self rfl c hc
      | cons d rest => exact hend c hc

/-- The tokens of a text move on with it. -/
theorem moveOn (h : Splits pos cs placed) (count : Nat) :
    Splits (pos + count) cs (placed.map (·.moveOn count)) := by
  induction h with
  | nil pos => exact .nil _
  | @separator pos _ _ _ hc _ ih =>
      rw [Nat.add_right_comm] at ih
      exact .separator hc ih
  | @token pos stop run _ _ _ hrun hstop ht hend _ ih =>
      refine .token hrun ?_ ht hend ih
      rw [hstop, Nat.add_right_comm]

/-- The tokens of a text that stands further on have moved on with it. -/
theorem exists_moveOn {count : Nat} (h : Splits (pos + count) cs placed) :
    ∃ ts, Splits pos cs ts ∧ placed = ts.map (·.moveOn count) := by
  generalize hplace : pos + count = place at h
  induction h generalizing pos with
  | nil => exact ⟨[], .nil pos, rfl⟩
  | separator hc _ ih =>
      obtain ⟨ts, hts, rfl⟩ := ih (by rw [← hplace, Nat.add_right_comm])
      exact ⟨ts, .separator hc hts, rfl⟩
  | @token place stop run _ t _ hrun hstop ht hend _ ih =>
      have hbehind : pos + run.length + count = stop := by omega
      obtain ⟨ts, hts, rfl⟩ := ih hbehind
      refine ⟨⟨t, pos, pos + run.length⟩ :: ts, .token hrun rfl ht hend hts, ?_⟩
      rw [List.map_cons, PlacedToken.moveOn, hplace, hbehind]

/-- A separator in front of a text moves it on and is nothing else to it. -/
theorem separator_cons_iff (hc : isSeparator c = true) :
    Splits pos (c :: cs) placed ↔ Splits (pos + 1) cs placed := by
  rw [← scan_eq_ok_iff, ← scan_eq_ok_iff, scan, if_pos hc]

/-- A text that starts with no separator starts with a token. -/
theorem exists_first (h : Splits pos (c :: cs) placed) (hc : isSeparator c = false) :
    ∃ t ∈ placed, t.start = pos ∧ t.token.WellSpelled ∧
      ∃ tail, t.token.text.toList = c :: tail := by
  generalize hcs : c :: cs = text at h
  cases h with
  | nil => contradiction
  | separator hd _ =>
      obtain ⟨rfl, -⟩ := List.cons.inj hcs
      simp [hc] at hd
  | token hrun _ ht _ _ =>
      subst hrun
      refine ⟨_, List.mem_cons_self, rfl, ht, ?_⟩
      rcases List.append_eq_cons_iff.1 hcs.symm with ⟨hnil, -⟩ | ⟨tail, htail, -⟩
      · exact absurd hnil ht.text_ne_nil
      · exact ⟨tail, htail⟩

end Splits

end CellHints.Token
