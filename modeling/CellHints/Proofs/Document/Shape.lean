import CellHints.Document.Shape
import CellHints.Proofs.Document.Leaf
import Std.Data.ExtTreeMap

/-!
# Shapes read back

A structure, a choice, a list and a table that were put in a document come out of it
again.  A structure gives its fields in the order of their names, which must differ.
A table is read entry by entry, so it must be one that its own entries make up.
-/

namespace CellHints.Document

variable {α β γ κ : Type}

/-- What was mapped is read back if each of its members is. -/
theorem mapM_map_eq_some {f : α → β} {g : β → Option γ} {k : α → γ} {xs : List α}
    (h : ∀ x ∈ xs, g (f x) = some (k x)) : (xs.map f).mapM g = some (xs.map k) := by
  induction xs with
  | nil => rfl
  | cons x xs ih =>
      obtain ⟨hx, hxs⟩ := List.forall_mem_cons.1 h
      rw [List.map_cons, List.mapM_cons, hx, ih hxs]
      rfl

/-- What a writer writes, and nothing else, is read row by row if it is member by member. -/
theorem mapM_eq_some_iff {f : β → Option α} {w : α → β} (h : ∀ {b a}, f b = some a ↔ b = w a)
    {bs : List β} {as : List α} : bs.mapM f = some as ↔ bs = as.map w := by
  constructor
  · intro hread
    induction bs generalizing as with
    | nil =>
        cases hread
        rfl
    | cons b bs ih =>
        rw [List.mapM_cons] at hread
        obtain ⟨a, ha, hread⟩ := Option.bind_eq_some_iff.1 hread
        obtain ⟨rest, hrest, ⟨⟩⟩ := Option.bind_eq_some_iff.1 hread
        rw [h.1 ha, ih hrest, List.map_cons]
  · rintro rfl
    have hread : ∀ a ∈ as, f (w a) = some (id a) := fun _ _ => h.2 rfl
    rw [mapM_map_eq_some hread, List.map_id]

/-! ### Numbers -/

variable {d : Document}

theorem integer?_eq_some_iff {z : Int} : d.integer? = some z ↔ d = .integer z := by
  cases d <;> simp [integer?]

theorem natural?_eq_some_iff {n : Nat} : d.natural? = some n ↔ d = .ofNat n := by
  unfold natural?
  simp only [Option.bind_eq_bind, Option.bind_eq_some_iff, integer?_eq_some_iff]
  constructor
  · rintro ⟨z, rfl, hz⟩
    split at hz
    · next hnonneg =>
        cases hz
        rw [ofNat, Int.toNat_of_nonneg hnonneg]
    · contradiction
  · rintro rfl
    exact ⟨n, rfl, if_pos (Int.natCast_nonneg n)⟩

theorem int16?_eq_some_iff {w : Int16} : d.int16? = some w ↔ d = .integer w.toInt := by
  unfold int16?
  simp only [Option.bind_eq_bind, Option.bind_eq_some_iff, integer?_eq_some_iff,
    Narrow.toInt16?_eq_some_iff, exists_eq_right']

theorem uint32?_eq_some_iff {w : UInt32} : d.uint32? = some w ↔ d = .ofNat w.toNat := by
  unfold uint32?
  simp only [Option.bind_eq_bind, Option.bind_eq_some_iff, natural?_eq_some_iff,
    Narrow.toUInt32?_eq_some_iff, exists_eq_right']

theorem uint64?_eq_some_iff {w : UInt64} : d.uint64? = some w ↔ d = .ofNat w.toNat := by
  unfold uint64?
  simp only [Option.bind_eq_bind, Option.bind_eq_some_iff, natural?_eq_some_iff,
    Narrow.toUInt64?_eq_some_iff, exists_eq_right']

/-! ### Texts and choices -/

@[simp] theorem text?_ofText (s : String) : (ofText s).text? = some s := spoken?_spell s

@[simp] theorem choice?_ofText (name : String) : (ofText name).choice? = some (name, none) := by
  unfold ofText
  rw [choice?, spoken?_spell]
  rfl

@[simp] theorem choice?_ofChoice (name : String) (content : Document) :
    (ofChoice name content).choice? = some (name, some content) := by
  unfold ofChoice ofFields
  rw [List.map_singleton, choice?, spoken?_spell]
  rfl

@[simp] theorem bareChoice?_ofText (depth : Nat) (name : String) :
    (ofText name).bareChoice? depth = some name := by
  unfold bareChoice?
  rw [choice?_ofText]

/-! ### Lists and structures -/

theorem list?_array {reader : Nat → Document → Option α} {write : α → Document} {depth : Nat}
    {xs : List α} (h : ∀ x ∈ xs, reader depth (write x) = some x) :
    list? reader (depth + 1) (.array (xs.map write)) = some xs := by
  rw [list?, mapM_map_eq_some (k := id) h, List.map_id]

/-- An array is read exactly if each of its items is one that was written. -/
theorem list?_eq_some_iff {reader : Nat → Document → Option α} {write : α → Document} {depth : Nat}
    {xs : List α} (h : ∀ {d a}, reader depth d = some a ↔ d = write a) :
    list? reader (depth + 1) d = some xs ↔ d = .array (xs.map write) := by
  cases d with
  | array items => rw [list?, mapM_eq_some_iff h, array.injEq]
  | _ => exact ⟨nofun, nofun⟩

/-- A value is found under its name, if no other value has that name. -/
theorem single?_of_mem {fields : List (String × Document)} {name : String} {d : Document}
    (hdistinct : (fields.map (·.1)).Nodup) (hmem : (name, d) ∈ fields) :
    single? name fields = some (some d) := by
  have hfilter : fields.filter (·.1 = name) = [(name, d)] := by
    induction fields with
    | nil => exact absurd hmem List.not_mem_nil
    | cons field fields ih =>
        obtain ⟨hnew, hdistinct⟩ := List.nodup_cons.1 hdistinct
        rcases List.mem_cons.1 hmem with rfl | hmem
        · have hnone : fields.filter (·.1 = name) = [] := by
            rw [List.filter_eq_nil_iff]
            intro other hother heq
            exact hnew (List.mem_map.2 ⟨other, hother, of_decide_eq_true heq⟩)
          rw [List.filter_cons_of_pos (by simp), hnone]
        · have hne : field.1 ≠ name := by
            rintro rfl
            exact hnew (List.mem_map.2 ⟨_, hmem, rfl⟩)
          rw [List.filter_cons_of_neg (by simpa using hne), ih hdistinct hmem]
  unfold single?
  rw [hfilter]

/-- The fields of a structure come out in order. -/
theorem fields?_ofFields (fields : List (String × Document))
    (hdistinct : (fields.map (·.1)).Nodup) :
    (ofFields fields).fields? (fields.map (·.1)) = some (fields.map fun field => some field.2) := by
  have hmembers : (fields.map fun field => (spell field.1, field.2)).mapM
      (fun m => do return (← spoken? m.1, m.2)) = some fields := by
    rw [mapM_map_eq_some (k := id), List.map_id]
    intro field _
    simp only [spoken?_spell]
    rfl
  have hnames : (fields.map (·.1)).mapM (single? · fields) =
      some (fields.map fun field => some field.2) :=
    mapM_map_eq_some fun _ hfield => single?_of_mem hdistinct hfield
  unfold ofFields
  rw [fields?, hmembers]
  exact hnames

/-! ### Tables -/

/-- The entries of a table come out in order. -/
theorem members?_ofFields {key : List Char → Option κ} {reader : Nat → Document → Option α}
    (name : κ → String) (write : α → Document) {depth : Nat} {entries : List (κ × α)}
    (hkey : ∀ entry ∈ entries, key (spell (name entry.1)) = some entry.1)
    (hvalue : ∀ entry ∈ entries, reader depth (write entry.2) = some entry.2) :
    members? key reader (depth + 1)
      (.ofFields (entries.map fun entry => (name entry.1, write entry.2))) = some entries := by
  unfold ofFields
  rw [members?, List.map_map, mapM_map_eq_some (k := id), List.map_id]
  intro entry hentry
  simp only [Function.comp_apply, hkey entry hentry, hvalue entry hentry]
  rfl

/-- A table is made up of its own entries. -/
theorem foldl_insert_toList [Ord κ] [Std.TransOrd κ] [Std.LawfulEqOrd κ] [DecidableEq κ]
    (t : Std.ExtTreeMap κ α) :
    t.toList.foldl (fun t entry => t.insert entry.1 entry.2) ∅ = t := by
  rw [← Std.ExtTreeMap.ofList_eq_foldl]
  apply Std.ExtTreeMap.ext_getElem?
  intro key
  cases hentry : t[key]? with
  | some value =>
      exact Std.ExtTreeMap.getElem?_ofList_of_mem (Std.LawfulEqCmp.compare_eq_iff_eq.2 rfl)
        t.distinct_keys_toList (Std.ExtTreeMap.mem_toList_iff_getElem?_eq_some.2 hentry)
  | none =>
      have habsent : key ∉ t.toList.map Prod.fst := by
        rw [Std.ExtTreeMap.map_fst_toList_eq_keys, Std.ExtTreeMap.mem_keys,
          Std.ExtTreeMap.mem_iff_isSome_getElem?, hentry]
        exact nofun
      exact Std.ExtTreeMap.getElem?_ofList_of_contains_eq_false
        (Bool.eq_false_iff.2 fun h => habsent (List.contains_iff_mem.1 h))

end CellHints.Document
