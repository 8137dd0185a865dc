/-!
# Numbers in text

Numbers are written with the fewest decimal digits, a negative one with a minus
sign in front.  Reading a digit run back gives the number: leading zeros are
allowed when reading and NOT produced when writing.

So there are more ways to write an integer than the shortest: a numeral has its
digits, the highest first, with any zeros in front of them and any blanks around
the whole.  What its digits amount to is given by their places, and NOT by the
way in which they are read.
-/

namespace CellHints.Decimal

def ofNat (n : Nat) : String := String.ofList (Nat.toDigits 10 n)

def ofInt : Int → String
  | .ofNat n => ofNat n
  | .negSucc n => "-" ++ ofNat (n + 1)

/-- The number that a run of digits denotes. -/
def value (ds : List Char) : Nat := Nat.ofDigitChars 10 ds 0

theorem value_ofNat (n : Nat) : value (ofNat n).toList = n := by
  rw [ofNat, String.toList_ofList]
  exact Nat.ofDigitChars_toDigits (by decide) (by decide)

theorem isDigit_of_mem_ofNat {n : Nat} {c : Char} (h : c ∈ (ofNat n).toList) :
    c.isDigit = true := by
  rw [ofNat, String.toList_ofList] at h
  exact Nat.isDigit_of_mem_toDigits (by decide) (by decide) h

theorem toList_ofNat_ne_nil (n : Nat) : (ofNat n).toList ≠ [] := by
  rw [ofNat, String.toList_ofList]
  exact Nat.toDigits_ne_nil

theorem exists_cons_ofNat (n : Nat) :
    ∃ c cs, (ofNat n).toList = c :: cs ∧ c.isDigit = true := by
  cases hds : (ofNat n).toList with
  | nil => exact absurd hds (toList_ofNat_ne_nil n)
  | cons c cs => exact ⟨c, cs, rfl, isDigit_of_mem_ofNat (hds ▸ List.mem_cons_self)⟩

/-- Only zero is written with a zero in front. -/
theorem eq_zero_of_head?_ofNat {n : Nat} (h : (ofNat n).toList.head? = some '0') : n = 0 := by
  rw [ofNat, String.toList_ofList] at h
  induction n using Nat.strongRecOn with
  | ind n ih =>
      by_cases hn : n < 10
      · rw [Nat.toDigits_of_lt_base hn, List.head?_cons] at h
        have hdigit : ∀ d < 10, d.digitChar = '0' → d = 0 := by decide
        exact hdigit n hn (Option.some.inj h)
      · have hhead := List.head?_eq_some_head (l := Nat.toDigits 10 (n / 10)) Nat.toDigits_ne_nil
        rw [Nat.toDigits_of_base_le (by decide) (Nat.le_of_not_lt hn), List.head?_append, hhead,
          Option.some_or] at h
        have hfront := ih (n / 10) (by omega) (hhead.trans h)
        omega

/-- Numbers are written without zeros in front. -/
theorem length_ofNat_of_head? {n : Nat} (h : (ofNat n).toList.head? = some '0') :
    (ofNat n).toList.length = 1 := by
  rw [eq_zero_of_head?_ofNat h]
  rfl

end CellHints.Decimal

namespace CellHints.Blank

/-- The code points with the white-space property. -/
def codePoints : List Nat :=
  [0x9, 0xa, 0xb, 0xc, 0xd, 0x20, 0x85, 0xa0, 0x1680, 0x2000, 0x2001, 0x2002, 0x2003, 0x2004,
   0x2005, 0x2006, 0x2007, 0x2008, 0x2009, 0x200a, 0x2028, 0x2029, 0x202f, 0x205f, 0x3000]

/-- Whether `c` has the white-space property. -/
def isBlank (c : Char) : Bool := codePoints.contains c.toNat

/-- The characters between the first and the last one that is not blank. -/
def trim (cs : List Char) : List Char :=
  ((cs.dropWhile isBlank).reverse.dropWhile isBlank).reverse

/-- A run of blanks. -/
structure Run where
  toList : List Char
  isBlank : ∀ c ∈ toList, Blank.isBlank c = true

def Run.nil : Run := ⟨[], by simp⟩

/-- Blanks are cut as far as text that has none. -/
theorem dropWhile_run {run cs rest : List Char} (hrun : ∀ c ∈ run, isBlank c = true)
    (hne : cs ≠ []) (hcs : ∀ c ∈ cs, isBlank c = false) :
    (run ++ (cs ++ rest)).dropWhile isBlank = cs ++ rest := by
  obtain ⟨c, cs, rfl⟩ := List.exists_cons_of_ne_nil hne
  rw [List.dropWhile_append_of_pos hrun, List.cons_append,
    List.dropWhile_cons_of_neg (by simp [hcs c])]

/-- Of text between runs of blanks the text is left. -/
theorem trim_between (before after : Run) {cs : List Char} (hne : cs ≠ [])
    (hcs : ∀ c ∈ cs, isBlank c = false) : trim (before.toList ++ cs ++ after.toList) = cs := by
  have hfront : (before.toList ++ cs ++ after.toList).dropWhile isBlank =
      cs ++ after.toList := by
    rw [List.append_assoc]
    exact dropWhile_run before.isBlank hne hcs
  have hback : (cs ++ after.toList).reverse.dropWhile isBlank = cs.reverse := by
    have hcut : (after.toList.reverse ++ (cs.reverse ++ [])).dropWhile isBlank =
        cs.reverse ++ [] :=
      dropWhile_run (by simpa using after.isBlank) (by simpa using hne) (by simpa using hcs)
    simpa using hcut
  rw [trim, hfront, hback, List.reverse_reverse]

end CellHints.Blank

namespace CellHints

/-- A way to write an integer.  Zero can have a minus sign as well. -/
structure Numeral where
  before : Blank.Run
  negative : Bool
  digits : List (Fin 10)
  after : Blank.Run
  digits_ne_nil : digits ≠ []

namespace Numeral

def digitChars (ds : List (Fin 10)) : List Char := ds.map fun d => d.val.digitChar

/-- What stands between the blanks. -/
def spelling (n : Numeral) : List Char :=
  if n.negative then '-' :: digitChars n.digits else digitChars n.digits

def text (n : Numeral) : String :=
  String.ofList (n.before.toList ++ n.spelling ++ n.after.toList)

/-- What digits amount to.  Each counts by its place, that is by how many digits follow it. -/
def placeValue : List (Fin 10) → Nat
  | [] => 0
  | d :: ds => d.val * Nat.pow 10 ds.length + placeValue ds

/-- The integer that is written. -/
def value (n : Numeral) : Int :=
  if n.negative then -(placeValue n.digits : Int) else placeValue n.digits

/-- The numeral with other blanks around it, and with zeros in front of its digits. -/
def pad (n : Numeral) (before after : Blank.Run) (zeros : Nat) : Numeral :=
  ⟨before, n.negative, List.replicate zeros 0 ++ n.digits, after, by simp [n.digits_ne_nil]⟩

end Numeral

end CellHints
