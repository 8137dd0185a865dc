import Mathlib.Order.Basic

/-!
# The order of texts is the order of their bytes

Texts are compared by code points.  The bytes of a code point grow with it: of two code
points that take different numbers of bytes the larger one has the larger first byte, and
otherwise the bytes hold groups of six bits, the highest first.  So texts are ordered as
their bytes are.  This holds of UTF-8 and NOT of every encoding.
-/

namespace CellHints.ByteOrder

/-- Whether a text comes before another byte by byte; it comes before all that go on from it. -/
def Before (s t : String) : Prop := s.toUTF8.data.toList < t.toUTF8.data.toList

/-- How many bytes follow the first one of a code point. -/
def following (v : Nat) : Nat :=
  if v ≤ 0x7f then 0 else if v ≤ 0x7ff then 1 else if v ≤ 0xffff then 2 else 3

/-- What marks a first byte that others follow. -/
def mark : Nat → Nat
  | 0 => 0
  | 1 => 0xc0
  | 2 => 0xe0
  | _ => 0xf0

/-- The lowest `k` groups of six bits, one in each byte. -/
def groups (v : Nat) : Nat → List UInt8
  | 0 => []
  | k + 1 => groups (v / 64) k ++ [UInt8.ofNat (v % 64 + 128)]

/-- What `k` groups of six bits leave of `v`. -/
def lead (v : Nat) : Nat → Nat
  | 0 => v
  | k + 1 => lead (v / 64) k

/-- A first byte with what is left of `v` and a mark, and the groups that follow it. -/
def marked (mark v k : Nat) : List UInt8 := UInt8.ofNat (lead v k + mark) :: groups v k

variable {v w k : Nat} {c d : Char} {cs ds : List Char} {s t : String}

theorem ofNat_lt_ofNat (h : v < w) (hw : w < 256) : UInt8.ofNat v < UInt8.ofNat w := by
  have hv : v < 256 := Nat.lt_trans h hw
  rwa [UInt8.lt_iff_toNat_lt, UInt8.toNat_ofNat_of_lt' hv, UInt8.toNat_ofNat_of_lt' hw]

theorem marked_succ_append (mark v k : Nat) (xs : List UInt8) :
    marked mark v (k + 1) ++ xs =
      marked mark (v / 64) k ++ UInt8.ofNat (v % 64 + 128) :: xs := by
  simp [marked, groups, lead]

/-- Numbers in the same number of bytes are ordered as their bytes, whatever follows. -/
theorem marked_append_lt {mark : Nat} (h : v < w) (hw : lead w k + mark < 256)
    (xs ys : List UInt8) : marked mark v k ++ xs < marked mark w k ++ ys := by
  induction k generalizing v w xs ys with
  | zero =>
      apply List.cons_lt_cons_iff.2
      exact Or.inl (ofNat_lt_ofNat (Nat.add_lt_add_right h mark) hw)
  | succ k ih =>
      rw [marked_succ_append, marked_succ_append]
      have hle : v / 64 ≤ w / 64 := Nat.div_le_div_right (Nat.le_of_lt h)
      rcases Nat.lt_or_eq_of_le hle with hlt | heq
      · exact ih hlt hw _ _
      · -- The numbers differ in the lowest group alone.
        rw [heq]
        apply List.append_left_lt
        apply List.cons_lt_cons_iff.2
        exact Or.inl (ofNat_lt_ofNat (by omega) (by omega))

theorem toNat_val_lt (c : Char) : c.val.toNat < 0x110000 := by
  rcases c.valid with h | h <;> omega

theorem utf8EncodeChar_eq (c : Char) : String.utf8EncodeChar c =
    marked (mark (following c.val.toNat)) c.val.toNat (following c.val.toNat) := by
  have hbound := toNat_val_lt c
  unfold String.utf8EncodeChar following
  generalize c.val.toNat = v at hbound ⊢
  dsimp only
  split_ifs
  · rfl
  all_goals
    simp only [marked, groups, lead, mark, List.nil_append, List.cons_append,
      Nat.div_div_eq_div_mul, Nat.reduceMul]
    rw [Nat.mod_eq_of_lt (by omega)]

theorem following_mono (h : v < w) : following v ≤ following w := by
  unfold following
  split_ifs <;> omega

theorem first_lt_256 (h : v < 0x110000) : lead v (following v) + mark (following v) < 256 := by
  unfold following
  split_ifs <;> simp only [lead, mark] <;> omega

/-- The number of bytes can be told from the first one. -/
theorem first_lt_first (h : following v < following w) :
    lead v (following v) + mark (following v) < lead w (following w) + mark (following w) := by
  unfold following at h ⊢
  split_ifs at h ⊢ <;> simp only [lead, mark] <;> omega

theorem utf8EncodeChar_append_lt (h : c < d) (xs ys : List UInt8) :
    String.utf8EncodeChar c ++ xs < String.utf8EncodeChar d ++ ys := by
  have hlt : c.val.toNat < d.val.toNat := h
  have hfirst := first_lt_256 (toNat_val_lt d)
  rw [utf8EncodeChar_eq, utf8EncodeChar_eq]
  rcases Nat.lt_or_eq_of_le (following_mono hlt) with hmore | hsame
  · apply List.cons_lt_cons_iff.2
    exact Or.inl (ofNat_lt_ofNat (first_lt_first hmore) hfirst)
  · rw [hsame]
    exact marked_append_lt hlt hfirst xs ys

theorem flatMap_utf8EncodeChar_lt (h : cs < ds) :
    cs.flatMap String.utf8EncodeChar < ds.flatMap String.utf8EncodeChar := by
  induction h with
  | @nil d ds =>
      rw [List.flatMap_cons, utf8EncodeChar_eq]
      exact List.nil_lt_cons _ _
  | @rel c cs d ds hlt => exact utf8EncodeChar_append_lt hlt _ _
  | cons _ ih => exact List.append_left_lt ih

theorem toUTF8_eq_flatMap (s : String) :
    s.toUTF8.data.toList = s.toList.flatMap String.utf8EncodeChar := by
  obtain ⟨cs, rfl⟩ : ∃ cs, s = String.ofList cs := ⟨s.toList, String.ofList_toList.symm⟩
  rw [String.toUTF8, String.toByteArray_ofList, List.utf8Encode, List.toList_data_toByteArray,
    String.toList_ofList]

theorem before_of_lt (h : s < t) : Before s t := by
  unfold Before
  rw [toUTF8_eq_flatMap, toUTF8_eq_flatMap]
  exact flatMap_utf8EncodeChar_lt (String.lt_iff.1 h)

end CellHints.ByteOrder
