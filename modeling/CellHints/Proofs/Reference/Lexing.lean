import CellHints.Proofs.Reference.Splitting
import CellHints.Proofs.Success

/-!
# Tokens and the bytes they stand on

A text is split into tokens exactly if it is made of the characters that tokens and the
blanks between them are made of.  Each of these takes one byte, so a place among the
characters of such a text is a place among its bytes.  The other characters may take
more, and the first of them is where a text is refused; what stands behind it is NOT
looked at.
-/

namespace CellHints.Token

/-- The marks that are tokens of their own. -/
def marks : List Char := ['[', ']', '(', ')', '+', '-', '*', ',', '.'] ++ strayMarks

/-- Whether a character can stand in a text that is split into tokens. -/
def IsTextChar (c : Char) : Prop :=
  c = ' ' ∨ c = '\t' ∨ c.isAlpha = true ∨ c.isDigit = true ∨ c = '_' ∨ c ∈ marks

/-- The bytes of a text. -/
def bytes (s : String) : List UInt8 := s.toUTF8.data.toList

/-- Whether a text is split into these tokens byte by byte: they follow each other, each
is spelled as its kind asks by the bytes that it stands on and could not be longer, and
every byte that none of them stands on is a space or a tab. -/
structure SplitsBytes (s : String) (placed : List PlacedToken) : Prop where
  ordered : placed.Pairwise fun t u => t.stop ≤ u.start
  inside : ∀ t ∈ placed, t.start < t.stop ∧ t.stop ≤ (bytes s).length
  slice : ∀ t ∈ placed, (bytes s).extract t.start t.stop = bytes t.token.text
  spelled : ∀ t ∈ placed, t.token.WellSpelled
  between : ∀ (i : Nat) b, (bytes s)[i]? = some b →
    (∀ t ∈ placed, ¬(t.start ≤ i ∧ i < t.stop)) → b = 0x20 ∨ b = 0x09
  maximal : ∀ t ∈ placed, ∀ b, (bytes s)[t.stop]? = some b →
    t.token.lengthenedBy (Char.ofNat b.toNat) = false

/-- Whether this is the first character that no text that is split can have, where `pos`
bytes stand in front of the text. -/
def FirstStray (pos : Nat) (cs : List Char) (stray : StrayChar) : Prop :=
  ∃ front back, cs = front ++ stray.char :: back ∧ stray.position = pos + front.length ∧
    (∀ c ∈ front, IsTextChar c) ∧ ¬IsTextChar stray.char

variable {c : Char} {s : String} {pos : Nat} {cs run rest : List Char} {t : PlacedToken}
  {stray : StrayChar} {placed : List PlacedToken}

/-! ### Characters of one byte -/

theorem isSome_ofMark?_iff : (ofMark? c).isSome = true ↔ c ∈ marks := by
  unfold ofMark?
  split
  all_goals try exact ⟨fun _ => by decide, fun _ => rfl⟩
  split
  · next hc => simp [marks, List.contains_iff_mem.1 hc]
  · next hc => simp_all [marks]

/-- The characters of a text are those that the scanner has a case for. -/
theorem isTextChar_iff : IsTextChar c ↔ isSeparator c = true ∨ c.isDigit = true ∨
    isNameStart c = true ∨ (ofMark? c).isSome = true := by
  rw [isSome_ofMark?_iff]
  simp only [IsTextChar, isSeparator, isNameStart, Bool.or_eq_true, decide_eq_true_eq]
  tauto

theorem isTextChar_of_isNamePart (h : isNamePart c = true) : IsTextChar c := by
  simp only [isNamePart, Bool.or_eq_true, decide_eq_true_eq] at h
  unfold IsTextChar
  tauto

theorem isTextChar_of_isSeparator (h : isSeparator c = true) : IsTextChar c :=
  isTextChar_iff.2 (Or.inl h)

theorem isTextChar_of_isDigit (h : c.isDigit = true) : IsTextChar c :=
  isTextChar_iff.2 (Or.inr (Or.inl h))

theorem isTextChar_of_isNameStart (h : isNameStart c = true) : IsTextChar c :=
  isTextChar_iff.2 (Or.inr (Or.inr (Or.inl h)))

theorem isTextChar_of_ofMark? {t : Token} (h : ofMark? c = some t) : IsTextChar c :=
  isTextChar_iff.2 (Or.inr (Or.inr (Or.inr (by rw [h]; rfl))))

theorem IsTextChar.val_le (h : IsTextChar c) : c.val ≤ 127 := by
  have hmarks : marks.all (fun d => decide (d.val ≤ 127)) = true := by decide
  rcases h with rfl | rfl | h | h | rfl | h
  · decide
  · decide
  · rcases Bool.or_eq_true_iff.1 h with hupper | hlower
    · have hrange : c.val ≥ 'A'.val ∧ c.val ≤ 'Z'.val := of_decide_eq_true hupper
      exact UInt32.le_trans hrange.2 (by decide)
    · exact UInt32.le_trans (of_decide_eq_true (Bool.and_eq_true_iff.1 hlower).2) (by decide)
  · exact UInt32.le_trans (of_decide_eq_true (Bool.and_eq_true_iff.1 h).2) (by decide)
  · decide
  · exact of_decide_eq_true (List.all_eq_true.1 hmarks c h)

theorem ofNat_toNat_val (hc : c.val ≤ 127) : Char.ofNat c.val.toUInt8.toNat = c := by
  have hlt : c.val.toNat < 2 ^ 8 := Nat.lt_of_le_of_lt (UInt32.le_iff_toNat_le.1 hc) (by decide)
  rw [UInt32.toNat_toUInt8, Nat.mod_eq_of_lt hlt]
  exact Char.ofNat_toNat c

theorem bytes_ofList (h : ∀ c ∈ cs, IsTextChar c) :
    bytes (String.ofList cs) = cs.map (·.val.toUInt8) := by
  rw [bytes, String.toUTF8, String.toByteArray_ofList, List.utf8Encode,
    List.toList_data_toByteArray]
  induction cs with
  | nil => rfl
  | cons c cs ih =>
      obtain ⟨hc, hcs⟩ := List.forall_mem_cons.1 h
      have hsingle := String.utf8EncodeChar_eq_singleton (Char.utf8Size_eq_one_iff.2 hc.val_le)
      rw [List.flatMap_cons, hsingle, ih hcs, List.map_cons, List.singleton_append]

theorem utf8ByteSize_ofList (h : ∀ c ∈ cs, IsTextChar c) :
    (String.ofList cs).utf8ByteSize = cs.length := by
  have hlen := congrArg List.length (bytes_ofList h)
  rwa [List.length_map, bytes, Array.length_toList] at hlen

/-! ### The texts that are split -/

theorem WellSpelled.isTextChar {t : Token} (h : t.WellSpelled) :
    ∀ c ∈ t.text.toList, IsTextChar c := by
  rcases h.cases with ⟨d, ds, rfl, hd, hds⟩ | ⟨d, ds, rfl, hd, hds⟩ | ⟨d, hd, hmark⟩
  · rw [text, String.toList_ofList]
    exact List.forall_mem_cons.2 ⟨isTextChar_of_isDigit hd,
      fun e he => isTextChar_of_isDigit (hds e he)⟩
  · rw [text, String.toList_ofList]
    exact List.forall_mem_cons.2 ⟨isTextChar_of_isNameStart hd,
      fun e he => isTextChar_of_isNamePart (hds e he)⟩
  · rw [hd, List.forall_mem_singleton]
    exact isTextChar_of_ofMark? hmark.ofMark?_eq

theorem Splits.isTextChar (h : Splits pos cs placed) : ∀ c ∈ cs, IsTextChar c := by
  induction h with
  | nil => simp
  | separator hc _ ih => exact List.forall_mem_cons.2 ⟨isTextChar_of_isSeparator hc, ih⟩
  | token hrun _ ht _ _ ih =>
      subst hrun
      exact List.forall_mem_append.2 ⟨ht.isTextChar, ih⟩

theorem FirstStray.append (h : FirstStray (pos + run.length) rest stray)
    (hrun : ∀ c ∈ run, IsTextChar c) : FirstStray pos (run ++ rest) stray := by
  obtain ⟨front, back, rfl, hposition, hfront, hchar⟩ := h
  refine ⟨run ++ front, back, (List.append_assoc ..).symm, ?_, ?_, hchar⟩
  · rw [hposition, List.length_append, Nat.add_assoc]
  · exact List.forall_mem_append.2 ⟨hrun, hfront⟩

/-- A row of characters behind a first one is passed over as a whole. -/
theorem FirstStray.cons {p : Char → Bool}
    (h : FirstStray (pos + 1 + (rest.takeWhile p).length) (rest.dropWhile p) stray)
    (hc : IsTextChar c) (hp : ∀ d, p d = true → IsTextChar d) :
    FirstStray pos (c :: rest) stray := by
  have hrun : ∀ d ∈ c :: rest.takeWhile p, IsTextChar d :=
    List.forall_mem_cons.2 ⟨hc, fun d hd => hp d (List.mem_takeWhile_imp hd)⟩
  rw [Nat.add_assoc, Nat.add_comm 1, ← List.length_cons] at h
  have happend := h.append hrun
  rwa [List.cons_append, List.takeWhile_append_dropWhile] at happend

/-- A text that is refused is refused at the first character that it cannot have. -/
theorem firstStray_of_scan (h : scan pos cs = .error stray) : FirstStray pos cs stray := by
  fun_induction scan pos cs with
  | case1 => contradiction
  | case2 pos c rest hseparator ih =>
      have hrest : FirstStray (pos + [c].length) rest stray := ih h
      exact hrest.append (List.forall_mem_singleton.2 (isTextChar_of_isSeparator hseparator))
  | @case3 pos c rest hseparator hdigit tail stop ih =>
      exact (ih (Except.map_eq_error_iff.1 h)).cons (isTextChar_of_isDigit hdigit)
        fun d => isTextChar_of_isDigit
  | @case4 pos c rest hseparator hdigit hname tail stop ih =>
      exact (ih (Except.map_eq_error_iff.1 h)).cons (isTextChar_of_isNameStart hname)
        fun d => isTextChar_of_isNamePart
  | case5 pos c rest hseparator hdigit hname t hmark ih =>
      have hrest : FirstStray (pos + [c].length) rest stray := ih (Except.map_eq_error_iff.1 h)
      exact hrest.append (List.forall_mem_singleton.2 (isTextChar_of_ofMark? hmark))
  | case6 pos c rest hseparator hdigit hname hmark =>
      cases h
      refine ⟨[], rest, rfl, rfl, List.forall_mem_nil _, ?_⟩
      rw [isTextChar_iff]
      simp [hseparator, hdigit, hname, hmark]

/-! ### The bytes that the tokens stand on -/

theorem getElem?_bytes_ofList {i : Nat} {b : UInt8} (h : ∀ c ∈ cs, IsTextChar c)
    (hb : (bytes (String.ofList cs))[i]? = some b) :
    ∃ c, cs[i]? = some c ∧ b = c.val.toUInt8 ∧ Char.ofNat b.toNat = c := by
  rw [bytes_ofList h, List.getElem?_map, Option.map_eq_some_iff] at hb
  obtain ⟨c, hc, rfl⟩ := hb
  exact ⟨c, hc, rfl, ofNat_toNat_val (h c (List.mem_of_getElem? hc)).val_le⟩

theorem Splits.slice_bytes (h : Splits 0 cs placed) (ht : t ∈ placed) :
    (bytes (String.ofList cs)).extract t.start t.stop = bytes t.token.text := by
  have hcs := h.isTextChar
  obtain ⟨front, back, rfl, hstart, hstop, hspelled, -⟩ := h.exists_around ht
  have htext := bytes_ofList hspelled.isTextChar
  rw [String.ofList_toList] at htext
  rw [bytes_ofList hcs, htext, List.extract_eq_take_drop, hstop, hstart]
  simp

theorem Splits.splitsBytes (h : Splits 0 cs placed) : SplitsBytes (String.ofList cs) placed where
  ordered := h.ordered
  inside := by
    intro t ht
    have hstop := h.stop_le ht
    rw [bytes_ofList h.isTextChar, List.length_map]
    exact ⟨h.start_lt_stop ht, by omega⟩
  slice := fun t ht => h.slice_bytes ht
  spelled := by
    intro t ht
    obtain ⟨-, -, -, -, -, hspelled, -⟩ := h.exists_around ht
    exact hspelled
  between := by
    intro i b hb hout
    -- The byte stands for the character with the same index.
    obtain ⟨c, hc, rfl, -⟩ := getElem?_bytes_ofList h.isTextChar hb
    obtain ⟨hi, rfl⟩ := List.getElem?_eq_some_iff.1 hc
    have hsplit := h
    rw [← List.take_append_drop i cs, List.drop_eq_getElem_cons hi] at hsplit
    have hseparator := hsplit.isSeparator_of_outside (by simpa [Nat.le_of_lt hi] using hout)
    simp only [isSeparator, Bool.or_eq_true, decide_eq_true_eq] at hseparator
    rcases hseparator with hblank | htab
    · rw [hblank]
      exact Or.inl rfl
    · rw [htab]
      exact Or.inr rfl
  maximal := by
    intro t ht b hb
    obtain ⟨c, hc, -, hchar⟩ := getElem?_bytes_ofList h.isTextChar hb
    obtain ⟨front, back, rfl, hstart, hstop, -, hend⟩ := h.exists_around ht
    rw [hchar]
    apply hend
    rw [hstop, hstart] at hc
    simpa [List.getElem?_append_right, ← List.head?_eq_getElem?] using hc

/-- A text is split exactly if it is made of the characters of tokens and blanks, and then
its tokens account for every byte; else it is refused at the first other character. -/
theorem tokenize_splits_exactly (s : String) :
    ((∃ placed, tokenize s = .ok placed) ↔ ∀ c ∈ s.toList, IsTextChar c) ∧
    (∀ placed, tokenize s = .ok placed → SplitsBytes s placed) ∧
    ∀ stray, tokenize s = .error stray → ∃ front back,
      s = front ++ String.singleton stray.char ++ back ∧ (∀ c ∈ front.toList, IsTextChar c) ∧
      ¬IsTextChar stray.char ∧ stray.position = front.utf8ByteSize := by
  refine ⟨⟨?_, ?_⟩, ?_, ?_⟩
  · rintro ⟨placed, hplaced⟩
    exact (splits_of_scan hplaced).isTextChar
  · intro hall
    cases hcut : tokenize s with
    | ok placed => exact ⟨placed, rfl⟩
    | error stray =>
        obtain ⟨front, back, hs, -, -, hchar⟩ := firstStray_of_scan hcut
        exact absurd (hall stray.char (by simp [hs])) hchar
  · intro placed hplaced
    have hbytes := (splits_of_scan hplaced).splitsBytes
    rwa [String.ofList_toList] at hbytes
  · intro stray hstray
    obtain ⟨front, back, hs, hposition, hfront, hchar⟩ := firstStray_of_scan hstray
    refine ⟨String.ofList front, String.ofList back, ?_, ?_, hchar, ?_⟩
    · rw [← String.toList_inj]
      simp [hs]
    · rwa [String.toList_ofList]
    · rw [utf8ByteSize_ofList hfront, hposition, Nat.zero_add]

end CellHints.Token
