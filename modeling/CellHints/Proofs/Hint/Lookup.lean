import CellHints.Hint.Operands
import Mathlib.Data.List.Sort

/-!
# Looking operands up

What a name means among named operands, said without the search: the operand of
exactly that name, or else the only one that the name is short for.  The search
finds that and nothing else.  Names are compared as texts, so the empty name and
names with dots in them are names like any other.
-/

namespace CellHints.Operands

/-- Whether a full name is a path, a dot and the short name. -/
def ShortFor (name full : String) : Prop := ∃ path, full = path ++ "." ++ name

/-- What a name means among operands. -/
inductive Finds (t : Operands) (name : String) : Except Fault Reference → Prop
  | exact {r : Reference} (found : t[name]? = some r) : Finds t name (.ok r)
  | short {full : String} {r : Reference} (absent : name ∉ t) (found : t[full]? = some r)
      (short : ShortFor name full) (only : ∀ other ∈ t, ShortFor name other → other = full) :
      Finds t name (.ok r)
  | unknown (absent : name ∉ t) (none : ∀ other ∈ t, ¬ShortFor name other) :
      Finds t name (.error (.unknownOperand name))
  | ambiguous {names : List String} (absent : name ∉ t) (several : 2 ≤ names.length)
      (ascending : names.Pairwise (· < ·))
      (mem : ∀ full, full ∈ names ↔ full ∈ t ∧ ShortFor name full) :
      Finds t name (.error (.ambiguousOperand name names))

/-- What a name means where a bare cell is not enough. -/
inductive FindsValue (t : Operands) (name : String) : Except Fault Reference → Prop
  | value {r : Reference} (found : t.Finds name (.ok r)) (value : r.cell? = none) :
      FindsValue t name (.ok r)
  | cell {r : Reference} {c : Cell} (found : t.Finds name (.ok r)) (cell : r.cell? = some c) :
      FindsValue t name (.error (.operandIsCell name))
  | missing {e : Fault} (missing : t.Finds name (.error e)) : FindsValue t name (.error e)

variable {t : Operands} {name full : String} {r : Reference}

theorem isShortFor_iff : isShortFor name full = true ↔ ShortFor name full := by
  unfold isShortFor ShortFor
  rw [List.isSuffixOf_iff_suffix]
  constructor
  · rintro ⟨path, hpath⟩
    refine ⟨String.ofList path, String.ext ?_⟩
    simp [← hpath]
  · rintro ⟨path, rfl⟩
    exact ⟨path.toList, by simp⟩

theorem mem_candidates_iff {entry : String × Reference} :
    entry ∈ t.candidates name ↔ t[entry.1]? = some entry.2 ∧ ShortFor name entry.1 := by
  unfold candidates
  rw [List.mem_filter, isShortFor_iff]
  rw [Std.ExtTreeMap.mem_toList_iff_getElem?_eq_some]

/-- The full names of candidates come in ascending order, each once. -/
theorem pairwise_candidates (t : Operands) (name : String) :
    ((t.candidates name).map (·.1)).Pairwise (· < ·) := by
  have hordered : t.toList.Pairwise fun a b => a.1 < b.1 :=
    t.ordered_keys_toList.imp fun hlt => compareOfLessAndEq_eq_lt.1 hlt
  rw [List.pairwise_map]
  exact hordered.filter _

theorem mem_names_candidates_iff :
    full ∈ (t.candidates name).map (·.1) ↔ full ∈ t ∧ ShortFor name full := by
  rw [List.mem_map]
  constructor
  · rintro ⟨entry, hentry, rfl⟩
    obtain ⟨hfound, hshort⟩ := mem_candidates_iff.1 hentry
    exact ⟨Std.ExtTreeMap.mem_iff_isSome_getElem?.2 (by rw [hfound]; rfl), hshort⟩
  · rintro ⟨hmem, hshort⟩
    obtain ⟨r, hr⟩ := Option.isSome_iff_exists.1 (Std.ExtTreeMap.mem_iff_isSome_getElem?.1 hmem)
    exact ⟨(full, r), mem_candidates_iff.2 ⟨hr, hshort⟩, rfl⟩

/-- The full names of candidates are settled by which names they are. -/
theorem names_candidates_eq {names : List String} (hascending : names.Pairwise (· < ·))
    (hmem : ∀ full, full ∈ names ↔ full ∈ t ∧ ShortFor name full) :
    (t.candidates name).map (·.1) = names :=
  (t.pairwise_candidates name).eq_of_mem_iff hascending fun full =>
    mem_names_candidates_iff.trans (hmem full).symm

/-- The search ends with what the name means. -/
theorem finds_find (t : Operands) (name : String) : t.Finds name (t.find name) := by
  unfold find
  cases hexact : t[name]? with
  | some r => exact .exact hexact
  | none =>
      have habsent : name ∉ t := by
        rw [Std.ExtTreeMap.mem_iff_isSome_getElem?, hexact]
        exact nofun
      have hnames := fun full => @mem_names_candidates_iff t name full
      have hascending := t.pairwise_candidates name
      rcases hcandidates : t.candidates name with _ | ⟨⟨full, r⟩, _ | ⟨second, more⟩⟩
      · refine .unknown habsent ?_
        intro other hother hshort
        have hmem := (hnames other).2 ⟨hother, hshort⟩
        rw [hcandidates] at hmem
        exact absurd hmem List.not_mem_nil
      · have hentry : (full, r) ∈ t.candidates name := hcandidates ▸ List.mem_singleton_self _
        obtain ⟨hfound, hshort⟩ := mem_candidates_iff.1 hentry
        refine .short habsent hfound hshort ?_
        intro other hother hshort
        have hmem := (hnames other).2 ⟨hother, hshort⟩
        rw [hcandidates] at hmem
        exact List.mem_singleton.1 hmem
      · rw [hcandidates] at hascending hnames
        exact .ambiguous habsent (by simp) hascending fun full => hnames full

/-- What a name means is what the search ends with. -/
theorem Finds.find_eq {result : Except Fault Reference} (h : t.Finds name result) :
    t.find name = result := by
  unfold find
  cases h with
  | exact found => rw [found]
  | @short full r absent found short only =>
      have hnames : (t.candidates name).map (·.1) = [full] := by
        refine names_candidates_eq (List.pairwise_singleton _ _) fun other => ?_
        rw [List.mem_singleton]
        refine ⟨?_, fun h => only other h.1 h.2⟩
        rintro rfl
        exact ⟨Std.ExtTreeMap.mem_iff_isSome_getElem?.2 (by rw [found]; rfl), short⟩
      obtain ⟨⟨key, r'⟩, hcandidates, hkey⟩ := List.map_eq_singleton_iff.1 hnames
      obtain ⟨hfound, -⟩ := mem_candidates_iff.1 (hcandidates ▸ List.mem_singleton_self _)
      rw [hkey, found] at hfound
      rw [Std.ExtTreeMap.getElem?_eq_none absent, hcandidates, Option.some.inj hfound]
  | unknown absent none =>
      have hnames : (t.candidates name).map (·.1) = [] := by
        refine names_candidates_eq .nil fun other => ?_
        exact ⟨nofun, fun h => absurd h.2 (none other h.1)⟩
      rw [Std.ExtTreeMap.getElem?_eq_none absent, List.map_eq_nil_iff.1 hnames]
  | ambiguous absent several ascending mem =>
      rw [Std.ExtTreeMap.getElem?_eq_none absent, ← names_candidates_eq ascending mem]
      rw [← names_candidates_eq ascending mem, List.length_map] at several
      rcases hcandidates : t.candidates name with _ | ⟨first, _ | ⟨second, more⟩⟩
      · rw [hcandidates] at several
        contradiction
      · rw [hcandidates] at several
        exact absurd several (by simp)
      · rfl

theorem find_eq_iff {result : Except Fault Reference} :
    t.find name = result ↔ t.Finds name result :=
  ⟨fun h => h ▸ t.finds_find name, Finds.find_eq⟩

/-- The search for a value ends with what the name means where a bare cell is not enough. -/
theorem findValue_eq_iff {result : Except Fault Reference} :
    t.findValue name = result ↔ t.FindsValue name result := by
  constructor
  · rintro rfl
    unfold findValue
    cases hfind : t.find name with
    | error e => exact .missing (find_eq_iff.1 hfind)
    | ok r =>
        cases hcell : r.cell? with
        | some c =>
            simp only [bind, Except.bind, hcell]
            exact .cell (find_eq_iff.1 hfind) hcell
        | none =>
            simp only [bind, Except.bind, hcell]
            exact .value (find_eq_iff.1 hfind) hcell
  · intro h
    unfold findValue
    cases h with
    | value found value =>
        rw [found.find_eq]
        simp only [bind, Except.bind, value]
        rfl
    | cell found cell =>
        rw [found.find_eq]
        simp only [bind, Except.bind, cell]
        rfl
    | missing missing =>
        rw [missing.find_eq]
        rfl

end CellHints.Operands
