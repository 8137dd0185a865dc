import CellHints.Reference.Expectation

/-!
# How a report is worded

A report on a text says where the text goes wrong, which classes of tokens could stand
there, each by its label, and what stands there instead.  Nothing of this is lost in the
words: labels are told apart by their first two characters, and so a report can be read
only one way.  That holds of the labels of reference text and NOT of any labels.
-/

namespace CellHints.Wording

/-- The label of each class of tokens. -/
def labels : List (Expectation × String) :=
  [(.openBracket, "'['"), (.closeBracket, "']'"), (.openParen, "'('"), (.closeParen, "')'"),
   (.comma, "','"), (.dot, "'.'"), (.star, "'*'"), (.minus, "'-'"), (.sign, "'+' or '-'"),
   (.castWord, "cast"), (.typeName, "type name"), (.register, "'ap' or 'fp'"),
   (.number, "number"), (.endOfInput, "end of input")]

/-- What a report could list: the labels, and what it would say if there were none. -/
def vocabulary : List String := "a hint reference" :: labels.map (·.2)

/-- Labels, each with a comma and a blank behind it, and what was found. -/
def listing : List String → String → String
  | [], found => "found " ++ found
  | label :: labels, found => label ++ ", " ++ listing labels found

/-- What a report says, its position apart.  Several labels are announced and a single one
is not. -/
def reason (labels : List String) (found : String) : String :=
  "expected " ++ (if labels.length = 1 then "" else "one of ") ++ listing labels found

/-- A token in quotes, or the end of the text. -/
def foundText : Option Token → String
  | some token => "'" ++ token.text ++ "'"
  | none => "end of input"

/-- Whether a failure is reported at `position`, with these labels and no others that could
be read from its words, against the token that was found. -/
structure Reports (e : SyntaxError) (position : Nat) (labels : List String)
    (found : Option Token) : Prop where
  position_eq : e.position = position
  reason_eq : e.reason = reason labels (foundText found)
  message_eq : e.message =
    "Syntax error at position " ++ Decimal.ofNat position ++ ": " ++ e.reason
  eq_of_reason : ∀ others other, (∀ label ∈ others, label ∈ vocabulary) →
    e.reason = reason others other → others = labels

/-! ### Reading a report -/

/-- What can stand at the beginning of a listing or behind a comma. -/
def openings : List String := "one of " :: "found " :: vocabulary

/-- What opens a text is known by its first two characters. -/
theorem eq_of_append_eq {a b x y : String} (ha : a ∈ openings) (hb : b ∈ openings)
    (h : a ++ x = b ++ y) : a = b ∧ x = y := by
  have hlong : ∀ c ∈ openings, 2 ≤ c.toList.length := by decide +kernel
  have hapart : ∀ c ∈ openings, ∀ d ∈ openings, c.toList.take 2 = d.toList.take 2 → c = d := by
    decide +kernel
  have htake := congrArg (·.toList.take 2) h
  simp only [String.toList_append] at htake
  rw [List.take_append_of_le_length (hlong a ha), List.take_append_of_le_length (hlong b hb)]
    at htake
  obtain rfl := hapart a ha b hb htake
  exact ⟨rfl, (String.append_right_inj a).1 h⟩

theorem mem_openings {label : String} (h : label ∈ vocabulary) : label ∈ openings :=
  List.mem_cons_of_mem _ (List.mem_cons_of_mem _ h)

/-- What opens a text and is no label begins as no label does. -/
theorem append_ne {opening label x y : String} (hopening : opening ∈ openings)
    (hnot : opening ∉ vocabulary) (hlabel : label ∈ vocabulary) : opening ++ x ≠ label ++ y := by
  intro heq
  obtain ⟨rfl, -⟩ := eq_of_append_eq hopening (mem_openings hlabel) heq
  exact hnot hlabel

/-- No label begins as the part that names what was found. -/
theorem found_append_ne {label x y : String} (h : label ∈ vocabulary) :
    "found " ++ x ≠ label ++ y :=
  append_ne (by simp [openings]) (by decide +kernel) h

theorem listing_inj {ls ms : List String} {found other : String}
    (hls : ∀ label ∈ ls, label ∈ vocabulary) (hms : ∀ label ∈ ms, label ∈ vocabulary)
    (h : listing ls found = listing ms other) : ls = ms := by
  induction ls generalizing ms with
  | nil =>
      cases ms with
      | nil => rfl
      | cons m ms =>
          rw [listing, listing, String.append_assoc] at h
          exact absurd h (found_append_ne (hms m List.mem_cons_self))
  | cons l ls ih =>
      rw [List.forall_mem_cons] at hls
      cases ms with
      | nil =>
          rw [listing, listing, String.append_assoc] at h
          exact absurd h.symm (found_append_ne hls.1)
      | cons m ms =>
          rw [List.forall_mem_cons] at hms
          rw [listing, listing, String.append_assoc, String.append_assoc] at h
          obtain ⟨rfl, hrest⟩ := eq_of_append_eq (mem_openings hls.1) (mem_openings hms.1) h
          rw [ih hls.2 hms.2 ((String.append_right_inj _).1 hrest)]

/-- A single label is not taken for the words in front of several. -/
theorem listing_single_ne {ls : List String} {label found other : String}
    (h : label ∈ vocabulary) : listing [label] found ≠ "one of " ++ listing ls other := by
  rw [listing, String.append_assoc]
  exact (append_ne (by simp [openings]) (by decide +kernel) h).symm

/-- The labels can be read back from the words for them. -/
theorem reason_inj {ls ms : List String} {found other : String}
    (hls : ∀ label ∈ ls, label ∈ vocabulary) (hms : ∀ label ∈ ms, label ∈ vocabulary)
    (h : reason ls found = reason ms other) : ls = ms := by
  unfold reason at h
  rw [String.append_assoc, String.append_assoc, String.append_right_inj] at h
  by_cases hl : ls.length = 1
  · by_cases hm : ms.length = 1
    · rw [if_pos hl, if_pos hm, String.append_right_inj] at h
      exact listing_inj hls hms h
    · obtain ⟨l, rfl⟩ := List.length_eq_one_iff.1 hl
      rw [if_pos hl, if_neg hm, String.empty_append] at h
      exact absurd h (listing_single_ne (hls l List.mem_cons_self))
  · by_cases hm : ms.length = 1
    · obtain ⟨m, rfl⟩ := List.length_eq_one_iff.1 hm
      rw [if_neg hl, if_pos hm, String.empty_append] at h
      exact absurd h.symm (listing_single_ne (hms m List.mem_cons_self))
    · rw [if_neg hl, if_neg hm, String.append_right_inj] at h
      exact listing_inj hls hms h

/-! ### What is reported -/

theorem mem_labels_iff {role : Expectation} {label : String} :
    (role, label) ∈ labels ↔ label = role.text := by
  cases role <;> simp [labels, Expectation.text]

theorem text_injective : Function.Injective Expectation.text := by
  intro a b h
  cases a <;> cases b <;> simp_all [Expectation.text]

/-- A class of tokens has a label of its own. -/
theorem text_ne_fallback (role : Expectation) : role.text ≠ "a hint reference" := by
  cases role <;> simp [Expectation.text]

theorem text_mem_vocabulary (role : Expectation) : role.text ∈ vocabulary :=
  List.mem_cons_of_mem _ (List.mem_map_of_mem (mem_labels_iff.2 rfl))

theorem listing_eq (role : Expectation) (roles : List Expectation) (found : String) :
    listing ((role :: roles).map (·.text)) found =
      ", ".intercalate ((role :: roles).map (·.text)) ++ ", found " ++ found := by
  induction roles generalizing role with
  | nil =>
      rw [List.map_singleton, listing, listing, String.intercalate_singleton]
      simp only [String.append_assoc]
      rfl
  | cons next roles ih =>
      rw [List.map_cons, listing, ih, List.map_cons, String.intercalate_cons_cons]
      simp only [String.append_assoc]

/-- The wording of several expectations, with what was found behind it. -/
theorem listText_found_eq {expected : List Expectation} (h : expected ≠ []) (found : String) :
    "expected " ++ Expectation.listText expected ++ ", found " ++ found =
      reason (expected.map (·.text)) found := by
  obtain ⟨role, roles, rfl⟩ := List.exists_cons_of_ne_nil h
  rw [reason, listing_eq, List.length_map]
  cases roles with
  | nil =>
      rw [if_pos (List.length_singleton), List.map_singleton, String.intercalate_singleton]
      simp only [Expectation.listText, String.append_assoc, String.empty_append]
  | cons next roles =>
      rw [if_neg (by simp)]
      simp only [Expectation.listText, String.append_assoc]

theorem reason_unexpected {position : Nat} {expected : List Expectation} (h : expected ≠ [])
    (found : Option Token) :
    (SyntaxError.unexpected position expected found).reason =
      reason (expected.map (·.text)) (foundText found) := by
  have hend : ", found end of input" = ", found " ++ "end of input" := by decide +kernel
  have hquote : ", found '" = ", found " ++ "'" := by decide +kernel
  rw [← listText_found_eq h]
  cases found with
  | none =>
      change "expected " ++ Expectation.listText expected ++ ", found end of input" = _
      exact (congrArg _ hend).trans String.append_assoc.symm
  | some token =>
      change "expected " ++ Expectation.listText expected ++ ", found '" ++ token.text ++ "'" =
        "expected " ++ Expectation.listText expected ++ ", found " ++ ("'" ++ token.text ++ "'")
      rw [hquote]
      simp only [String.append_assoc]

/-- A failure over something expected is reported under the labels of all of it. -/
theorem reports_unexpected {position : Nat} {expected : List Expectation} (h : expected ≠ [])
    (found : Option Token) :
    Reports (.unexpected position expected found) position (expected.map (·.text)) found where
  position_eq := rfl
  reason_eq := reason_unexpected h found
  message_eq := rfl
  eq_of_reason := by
    intro others other hothers heq
    rw [reason_unexpected h] at heq
    refine (reason_inj ?_ hothers heq).symm
    rw [List.forall_mem_map]
    exact fun role _ => text_mem_vocabulary role

end CellHints.Wording
