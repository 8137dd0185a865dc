import CellHints.Document.Rendering
import CellHints.Proofs.Document.Leaf
import Mathlib.Data.List.DropRight

/-!
# Reading what was written

The reader reads every text of a document, however blanks are set, and both writers
write such a text.  So what is written without blanks and what is spread over lines
is read as the same document.
-/

namespace CellHints.Document

/-! ### Blanks -/

theorem skip_blanks {w : List Char} (hw : Blanks w) (s : List Char) : skip (w ++ s) = skip s :=
  List.dropWhile_append_of_pos hw

theorem skip_cons {c : Char} (hc : isBlank c = false) (s : List Char) : skip (c :: s) = c :: s :=
  List.dropWhile_cons_of_neg (by rw [hc]; decide)

@[simp] theorem skip_skip (s : List Char) : skip (skip s) = skip s := List.dropWhile_idempotent _ s

theorem breaksNumber_of_isBlank {b : Char} (hb : isBlank b = true) : BreaksNumber b := by
  simp only [isBlank, Bool.or_eq_true, decide_eq_true_eq] at hb
  rcases hb with ((rfl | rfl) | rfl) | rfl <;> decide

/-- Behind blanks stands what is not part of a number. -/
theorem EndsNumber.blanks {w : List Char} (hw : Blanks w) {c : Char} (h : BreaksNumber c)
    (rest : List Char) : EndsNumber (w ++ c :: rest) := by
  cases w with
  | nil => exact .cons h rest
  | cons b w => exact .cons (breaksNumber_of_isBlank (hw b List.mem_cons_self)) _

/-- Whether a text begins with a mark that closes nothing, behind its blanks. -/
def Opens (s : List Char) : Prop := ∃ c cs, skip s = c :: cs ∧ c ≠ ']' ∧ c ≠ '\x7d'

theorem Opens.append {s : List Char} (h : Opens s) (rest : List Char) : Opens (s ++ rest) := by
  obtain ⟨c, cs, hskip, hc⟩ := h
  refine ⟨c, cs ++ rest, ?_, hc⟩
  unfold skip at hskip ⊢
  rw [List.dropWhile_append, hskip]
  rfl

theorem Opens.cons {c : Char} (hblank : isBlank c = false) (hc : c ≠ ']' ∧ c ≠ '\x7d')
    (s : List Char) : Opens (c :: s) :=
  ⟨c, s, skip_cons hblank s, hc⟩

/-- Whether a character can begin an integer. -/
def StartsNumber (c : Char) : Prop := c.isDigit = true ∨ c = '-'

theorem StartsNumber.ne {c x : Char} (h : StartsNumber c) (hx : x.isDigit = false)
    (hminus : x ≠ '-') : c ≠ x := by
  rcases h with h | rfl
  · exact ne_of_isDigit h hx
  · exact hminus.symm

theorem StartsNumber.not_blank {c : Char} (h : StartsNumber c) : isBlank c = false := by
  simp only [isBlank, Bool.or_eq_false_iff, decide_eq_false_iff_not]
  exact ⟨⟨⟨h.ne (by decide) (by decide), h.ne (by decide) (by decide)⟩,
    h.ne (by decide) (by decide)⟩, h.ne (by decide) (by decide)⟩

theorem exists_cons_ofInt (z : Int) :
    ∃ c cs, (Decimal.ofInt z).toList = c :: cs ∧ StartsNumber c := by
  cases z with
  | ofNat n =>
      obtain ⟨c, cs, hds, hc⟩ := Decimal.exists_cons_ofNat n
      exact ⟨c, cs, hds, Or.inl hc⟩
  | negSucc n =>
      refine ⟨'-', (Decimal.ofNat (n + 1)).toList, ?_, Or.inr rfl⟩
      unfold Decimal.ofInt
      rw [String.toList_append]
      rfl

/-! ### The reader, step by step -/

section Steps

variable {n : Nat} {s w rest : List Char} {d : Document} {ds : List Document}
  {ms : List (List Char × Document)}

@[simp] theorem take_skip (n : Nat) (s : List Char) : take n (skip s) = take n s := by
  cases n with
  | zero => rfl
  | succ n => rw [take, skip_skip, take]

@[simp] theorem takeItems_skip (n : Nat) (s : List Char) :
    takeItems n (skip s) = takeItems n s := by
  cases n with
  | zero => rfl
  | succ n => rw [takeItems, take_skip, takeItems]

@[simp] theorem takeMembers_skip (n : Nat) (s : List Char) :
    takeMembers n (skip s) = takeMembers n s := by
  cases n with
  | zero => rfl
  | succ n => rw [takeMembers, skip_skip, takeMembers]

theorem take_integer (z : Int) (hrest : EndsNumber rest) :
    take (n + 1) ((Decimal.ofInt z).toList ++ rest) = some (.integer z, rest) := by
  have hnumber := hrest.takeNumber_append z
  obtain ⟨c, cs, hds, hc⟩ := exists_cons_ofInt z
  rw [hds, List.cons_append] at hnumber ⊢
  have hatom : takeAtom (c :: (cs ++ rest)) = takeNumber (c :: (cs ++ rest)) := by
    rw [takeAtom]
    all_goals
      intro behind heq
      exact hc.ne (by decide) (by decide) (List.cons.inj heq).1
  rw [take, skip_cons hc.not_blank, ← hnumber, ← hatom]
  split
  · next heq => exact absurd (List.cons.inj heq).1 (hc.ne (by decide) (by decide))
  · next heq => exact absurd (List.cons.inj heq).1 (hc.ne (by decide) (by decide))
  · next heq => exact absurd (List.cons.inj heq).1 (hc.ne (by decide) (by decide))
  · rfl

theorem take_text (s : String) (rest : List Char) :
    take (n + 1) (quoted (spell s) ++ rest) = some (.ofText s, rest) := by
  have hbody := takeBody_spell s rest
  unfold quoted
  rw [take, List.append_assoc, List.cons_append, skip_cons (by decide)]
  simp only [List.singleton_append, hbody]
  rfl

theorem take_emptyArray (hw : Blanks w) :
    take (n + 1) ('[' :: w ++ ']' :: rest) = some (.array [], rest) := by
  rw [take, List.cons_append, skip_cons (by decide)]
  simp only [skip_blanks hw, skip_cons (c := ']') (by decide)]

theorem take_array (hs : Opens s) (h : takeItems n s = some (ds, rest)) :
    take (n + 1) ('[' :: s) = some (.array ds, rest) := by
  obtain ⟨c, cs, hskip, hc, -⟩ := hs
  rw [← takeItems_skip, hskip] at h
  rw [take, skip_cons (by decide)]
  simp only [hskip]
  split
  · next heq => exact absurd (List.cons.inj heq).1 hc
  · rw [h]
    rfl

theorem takeItems_last (h : take n s = some (d, w ++ ']' :: rest)) (hw : Blanks w) :
    takeItems (n + 1) s = some ([d], rest) := by
  rw [takeItems, h]
  simp only [Option.bind_eq_bind, Option.bind_some, skip_blanks hw,
    skip_cons (c := ']') (by decide)]
  rfl

theorem takeItems_cons {r : List Char} (h : take n s = some (d, w ++ ',' :: r)) (hw : Blanks w)
    (hr : takeItems n r = some (ds, rest)) : takeItems (n + 1) s = some (d :: ds, rest) := by
  rw [takeItems, h]
  simp only [Option.bind_eq_bind, Option.bind_some, skip_blanks hw,
    skip_cons (c := ',') (by decide), hr]
  rfl

theorem take_emptyObject (hw : Blanks w) :
    take (n + 1) ('\x7b' :: w ++ '\x7d' :: rest) = some (.object [], rest) := by
  rw [take, List.cons_append, skip_cons (by decide)]
  simp only [skip_blanks hw, skip_cons (c := '\x7d') (by decide)]

theorem take_object (hs : Opens s) (h : takeMembers n s = some (ms, rest)) :
    take (n + 1) ('\x7b' :: s) = some (.object ms, rest) := by
  obtain ⟨c, cs, hskip, -, hc⟩ := hs
  rw [← takeMembers_skip, hskip] at h
  rw [take, skip_cons (by decide)]
  simp only [hskip]
  split
  · next heq => exact absurd (List.cons.inj heq).1 hc
  · rw [h]
    rfl

theorem takeMembers_last (name : String) {v : List Char} (hv : Blanks v)
    (h : take n s = some (d, w ++ '\x7d' :: rest)) (hw : Blanks w) :
    takeMembers (n + 1) (quoted (spell name) ++ v ++ ':' :: s) =
      some ([(spell name, d)], rest) := by
  have hbody := takeBody_spell name (v ++ ':' :: s)
  unfold quoted
  rw [takeMembers, List.append_assoc, List.append_assoc, List.cons_append, skip_cons (by decide)]
  simp only [List.singleton_append, hbody, Option.bind_eq_bind, Option.bind_some, skip_blanks hv,
    skip_cons (c := ':') (by decide), h, skip_blanks hw, skip_cons (c := '\x7d') (by decide)]
  rfl

theorem takeMembers_cons (name : String) {v r : List Char} (hv : Blanks v)
    (h : take n s = some (d, w ++ ',' :: r)) (hw : Blanks w)
    (hr : takeMembers n r = some (ms, rest)) :
    takeMembers (n + 1) (quoted (spell name) ++ v ++ ':' :: s) =
      some ((spell name, d) :: ms, rest) := by
  have hbody := takeBody_spell name (v ++ ':' :: s)
  unfold quoted
  rw [takeMembers, List.append_assoc, List.append_assoc, List.cons_append, skip_cons (by decide)]
  simp only [List.singleton_append, hbody, Option.bind_eq_bind, Option.bind_some, skip_blanks hv,
    skip_cons (c := ':') (by decide), h, skip_blanks hw, skip_cons (c := ',') (by decide), hr]
  rfl

end Steps

/-! ### Every text of a document -/

/-- Whether the reader of a piece takes it from a text and leaves the rest. -/
def Piece.TakenFrom (n : Nat) (s rest : List Char) : Piece → Prop
  | value d => take n s = some (d, rest)
  | items ds => takeItems n s = some (ds, rest)
  | fields fs =>
      takeMembers n s = some (fs.map fun field => (spell field.1, field.2), rest)

variable {p : Piece} {s : List Char}

theorem Piece.takenFrom_blanks {n : Nat} {w rest : List Char} (hw : Blanks w) :
    p.TakenFrom n (w ++ s) rest ↔ p.TakenFrom n s rest := by
  cases p with
  | value d =>
      unfold TakenFrom
      rw [← take_skip, skip_blanks hw, take_skip]
  | items ds =>
      unfold TakenFrom
      rw [← takeItems_skip, skip_blanks hw, takeItems_skip]
  | fields fs =>
      unfold TakenFrom
      rw [← takeMembers_skip, skip_blanks hw, takeMembers_skip]

theorem Renders.opens (h : Renders p s) : Opens s := by
  induction h with
  | null | true | false | text | emptyArray | array | emptyObject | object =>
      exact .cons (by decide) (by decide) _
  | integer z =>
      obtain ⟨c, cs, hds, hc⟩ := exists_cons_ofInt z
      rw [hds]
      exact .cons hc.not_blank ⟨hc.ne (by decide) (by decide), hc.ne (by decide) (by decide)⟩ cs
  | @blanks p w s hw _ ih =>
      unfold Opens
      rwa [skip_blanks hw]
  | lastItem _ _ ih | item _ _ _ ih =>
      rw [List.append_assoc]
      exact ih.append _
  | lastField | field =>
      rw [List.append_assoc]
      exact .cons (by decide) (by decide) _

/-- Every text of a document is read, if the reader may go on for as long as the text is. -/
theorem Renders.takenFrom (h : Renders p s) {n : Nat} (hn : s.length < n) {rest : List Char}
    (hrest : EndsNumber rest) : p.TakenFrom n (s ++ rest) rest := by
  -- The bound shrinks by one with each call, and the text by at least one character.
  induction h generalizing n rest with
  | blanks hw _ ih =>
      rw [List.length_append] at hn
      rw [List.append_assoc, Piece.takenFrom_blanks hw]
      exact ih (by omega) hrest
  | null | true | false =>
      obtain ⟨n, rfl⟩ := Nat.exists_eq_add_one.2 (Nat.zero_lt_of_lt hn)
      rfl
  | integer z =>
      obtain ⟨n, rfl⟩ := Nat.exists_eq_add_one.2 (Nat.zero_lt_of_lt hn)
      exact take_integer z hrest
  | text s =>
      obtain ⟨n, rfl⟩ := Nat.exists_eq_add_one.2 (Nat.zero_lt_of_lt hn)
      exact take_text s rest
  | emptyArray hw =>
      obtain ⟨n, rfl⟩ := Nat.exists_eq_add_one.2 (Nat.zero_lt_of_lt hn)
      rw [List.append_assoc]
      exact take_emptyArray hw
  | array h ih =>
      obtain ⟨n, rfl⟩ := Nat.exists_eq_add_one.2 (Nat.zero_lt_of_lt hn)
      rw [List.length_cons] at hn
      exact take_array (h.opens.append rest) (ih (by omega) hrest)
  | lastItem _ hw ih =>
      obtain ⟨n, rfl⟩ := Nat.exists_eq_add_one.2 (Nat.zero_lt_of_lt hn)
      simp only [List.length_append, List.length_singleton] at hn
      simp only [List.append_assoc, List.singleton_append]
      exact takeItems_last (ih (by omega) (.blanks hw (by decide) rest)) hw
  | @item d ds s w r _ hw _ ih ihr =>
      obtain ⟨n, rfl⟩ := Nat.exists_eq_add_one.2 (Nat.zero_lt_of_lt hn)
      simp only [List.length_append, List.length_cons] at hn
      simp only [List.append_assoc, List.cons_append]
      exact takeItems_cons (ih (by omega) (.blanks hw (by decide) _)) hw (ihr (by omega) hrest)
  | emptyObject hw =>
      obtain ⟨n, rfl⟩ := Nat.exists_eq_add_one.2 (Nat.zero_lt_of_lt hn)
      rw [List.append_assoc]
      exact take_emptyObject hw
  | object h ih =>
      obtain ⟨n, rfl⟩ := Nat.exists_eq_add_one.2 (Nat.zero_lt_of_lt hn)
      rw [List.length_cons] at hn
      exact take_object (h.opens.append rest) (ih (by omega) hrest)
  | lastField name hv _ hw ih =>
      obtain ⟨n, rfl⟩ := Nat.exists_eq_add_one.2 (Nat.zero_lt_of_lt hn)
      simp only [List.length_append, List.length_cons] at hn
      simp only [List.append_assoc, List.cons_append, List.nil_append]
      rw [← List.append_assoc]
      exact takeMembers_last name hv (ih (by omega) (.blanks hw (by decide) rest)) hw
  | field name hv _ hw _ ih ihr =>
      obtain ⟨n, rfl⟩ := Nat.exists_eq_add_one.2 (Nat.zero_lt_of_lt hn)
      simp only [List.length_append, List.length_cons] at hn
      simp only [List.append_assoc, List.cons_append]
      rw [← List.append_assoc]
      exact takeMembers_cons name hv (ih (by omega) (.blanks hw (by decide) _)) hw
        (ihr (by omega) hrest)

/-- Every text of a document is read as that document, blanks behind it as well. -/
theorem read_of_renders {d : Document} {w : List Char} (h : Renders (.value d) s) (hw : Blanks w) :
    read (String.ofList (s ++ w)) = some d := by
  have hrest : EndsNumber w := by
    cases w with
    | nil => exact .nil
    | cons b w => exact .cons (breaksNumber_of_isBlank (hw b List.mem_cons_self)) w
  have htake : take ((s ++ w).length + 1) (s ++ w) = some (d, w) :=
    h.takenFrom (by rw [List.length_append]; omega) hrest
  have hskip : skip w = [] := by
    rw [← List.append_nil w, skip_blanks hw]
    rfl
  unfold read
  rw [String.length_ofList, String.toList_ofList, htake]
  simp only [Option.bind_eq_bind, Option.bind_some, hskip, if_true]
  rfl

/-! ### Both writers -/

theorem blanks_newline (level : Nat) : Blanks (newline level) := by
  intro c hc
  unfold newline at hc
  rcases List.mem_cons.1 hc with rfl | hc
  · decide
  · obtain ⟨-, rfl⟩ := List.mem_replicate.1 hc
    decide

theorem renders_spreadItems {level : Nat} {w : List Char} (hw : Blanks w) {items : List Document}
    (hne : items ≠ []) (h : ∀ d ∈ items, Renders (.value d) (spread level d)) :
    Renders (.items items) (spreadItems level items ++ w ++ [']']) := by
  induction items with
  | nil => contradiction
  | cons d items ih =>
      obtain ⟨hd, hitems⟩ := List.forall_mem_cons.1 h
      have hvalue := hd.blanks (blanks_newline level)
      cases items with
      | nil =>
          rw [spreadItems]
          exact .lastItem hvalue hw
      | cons next items =>
          rw [spreadItems]
          · have hitem := Renders.item hvalue (w := []) nofun (ih (List.cons_ne_nil _ _) hitems)
            simpa only [List.append_assoc, List.cons_append, List.nil_append] using hitem
          · exact List.cons_ne_nil _ _

theorem renders_spreadMembers {level : Nat} {w : List Char} (hw : Blanks w)
    {fields : List (String × Document)} (hne : fields ≠ [])
    (h : ∀ field ∈ fields, Renders (.value field.2) (spread level field.2)) :
    Renders (.fields fields)
      (spreadMembers level (fields.map fun field => (spell field.1, field.2)) ++ w ++
        ['\x7d']) := by
  induction fields with
  | nil => contradiction
  | cons field fields ih =>
      obtain ⟨name, d⟩ := field
      obtain ⟨hd, hfields⟩ := List.forall_mem_cons.1 h
      have hspace : Blanks [' '] := by
        intro c hc
        obtain rfl := List.mem_singleton.1 hc
        decide
      have hvalue := hd.blanks hspace
      cases fields with
      | nil =>
          have hfield := Renders.lastField name (v := []) nofun hvalue hw
          simpa [spreadMembers] using hfield.blanks (blanks_newline level)
      | cons next fields =>
          have hrest := ih (List.cons_ne_nil _ _) hfields
          have hfield := Renders.field name (v := []) nofun hvalue (w := []) nofun hrest
          simpa [spreadMembers] using hfield.blanks (blanks_newline level)

/-- A document spread over lines is a text of it. -/
theorem Plain.renders_spread {d : Document} (h : Plain d) (level : Nat) :
    Renders (.value d) (d.spread level) := by
  induction h generalizing level with
  | null =>
      rw [spread]
      exact .null
  | bool b =>
      cases b with
      | false =>
          rw [spread]
          exact .false
      | true =>
          rw [spread]
          exact .true
  | integer z =>
      rw [spread]
      exact .integer z
  | text s =>
      unfold ofText
      rw [spread]
      exact .text s
  | @array items _ ih =>
      cases items with
      | nil =>
          rw [spread]
          exact .emptyArray (w := []) nofun
      | cons d items =>
          rw [spread, List.append_assoc, List.cons_append, ← List.append_assoc]
          · exact .array (renders_spreadItems (blanks_newline level) (List.cons_ne_nil _ _)
              fun d hd => ih d hd _)
          · exact List.cons_ne_nil _ _
  | @object fields _ ih =>
      cases fields with
      | nil =>
          unfold ofFields
          rw [List.map_nil, spread]
          exact .emptyObject (w := []) nofun
      | cons field fields =>
          unfold ofFields
          rw [spread, List.append_assoc, List.cons_append, ← List.append_assoc]
          · exact .object (renders_spreadMembers (blanks_newline level) (List.cons_ne_nil _ _)
              fun field hfield => ih field hfield _)
          · exact List.cons_ne_nil _ _

theorem renders_compactItems {items : List Document} (hne : items ≠ [])
    (h : ∀ d ∈ items, Renders (.value d) (compact d)) :
    Renders (.items items) (compactItems items ++ [']']) := by
  induction items with
  | nil => contradiction
  | cons d items ih =>
      obtain ⟨hd, hitems⟩ := List.forall_mem_cons.1 h
      cases items with
      | nil => simpa [compactItems] using Renders.lastItem hd (w := []) nofun
      | cons next items =>
          simpa [compactItems] using
            Renders.item hd (w := []) nofun (ih (List.cons_ne_nil _ _) hitems)

theorem renders_compactMembers {fields : List (String × Document)} (hne : fields ≠ [])
    (h : ∀ field ∈ fields, Renders (.value field.2) (compact field.2)) :
    Renders (.fields fields)
      (compactMembers (fields.map fun field => (spell field.1, field.2)) ++ ['\x7d']) := by
  induction fields with
  | nil => contradiction
  | cons field fields ih =>
      obtain ⟨name, d⟩ := field
      obtain ⟨hd, hfields⟩ := List.forall_mem_cons.1 h
      cases fields with
      | nil =>
          simpa [compactMembers] using
            Renders.lastField name (v := []) nofun hd (w := []) nofun
      | cons next fields =>
          simpa [compactMembers] using Renders.field name (v := []) nofun hd (w := [])
            nofun (ih (List.cons_ne_nil _ _) hfields)

/-- A document without blanks is a text of it. -/
theorem Plain.renders_compact {d : Document} (h : Plain d) : Renders (.value d) d.compact := by
  induction h with
  | null =>
      rw [compact]
      exact .null
  | bool b =>
      cases b with
      | false =>
          rw [compact]
          exact .false
      | true =>
          rw [compact]
          exact .true
  | integer z =>
      rw [compact]
      exact .integer z
  | text s =>
      unfold ofText
      rw [compact]
      exact .text s
  | @array items _ ih =>
      rw [compact, List.cons_append]
      cases items with
      | nil => exact .emptyArray nofun
      | cons d items => exact .array (renders_compactItems (List.cons_ne_nil _ _) ih)
  | @object fields _ ih =>
      unfold ofFields
      rw [compact, List.cons_append]
      cases fields with
      | nil => exact .emptyObject nofun
      | cons field fields => exact .object (renders_compactMembers (List.cons_ne_nil _ _) ih)

/-- What is spread over lines is read back. -/
theorem Plain.read_spreadText {d : Document} (h : Plain d) : read d.spreadText = some d := by
  have hread := read_of_renders (h.renders_spread 0) (w := []) nofun
  rwa [List.append_nil] at hread

/-- What is written without blanks is read back. -/
theorem Plain.read_compactText {d : Document} (h : Plain d) : read d.compactText = some d := by
  have hread := read_of_renders h.renders_compact (w := []) nofun
  rwa [List.append_nil] at hread

end CellHints.Document
