import CellHints.Hint.Runner
import Mathlib.Data.List.Induction

/-!
# Lists by counter

Things that are added one by one under counters are kept in a list for each counter.
Listing them all again, by counter and then as they were added, sorts the row in
which they were added and keeps the order of those under one counter.
-/

namespace CellHints

open Std (ExtTreeMap)

variable {α : Type}

/-- A row of things by counter, those of one counter in the order of the row. -/
def grouped (row : List (UInt64 × α)) : ExtTreeMap UInt64 (List α) :=
  row.foldl (fun t entry => t.insert entry.1 (t[entry.1]?.getD [] ++ [entry.2])) ∅

/-- All things of all counters, one by one. -/
def listed (t : ExtTreeMap UInt64 (List α)) : List (UInt64 × α) :=
  t.toList.flatMap fun entry => entry.2.map fun x => (entry.1, x)

/-- The members of a row that are under a counter. -/
def under (pc : UInt64) (row : List (UInt64 × α)) : List (UInt64 × α) :=
  row.filter fun entry => entry.1 = pc

theorem grouped_concat (row : List (UInt64 × α)) (entry : UInt64 × α) :
    grouped (row ++ [entry]) =
      (grouped row).insert entry.1 ((grouped row)[entry.1]?.getD [] ++ [entry.2]) := by
  unfold grouped
  rw [List.foldl_append]
  rfl

/-- A counter has the things of the row that are under it, and is there if there are any. -/
theorem getElem?_grouped (row : List (UInt64 × α)) (pc : UInt64) :
    (grouped row)[pc]? = if under pc row = [] then none else some ((under pc row).map (·.2)) := by
  induction row using List.reverseRecOn with
  | nil => exact ExtTreeMap.getElem?_empty
  | append_singleton row entry ih =>
      rw [grouped_concat, ExtTreeMap.getElem?_insert]
      simp only [Std.LawfulEqCmp.compare_eq_iff_eq]
      unfold under at ih ⊢
      rw [List.filter_append]
      by_cases hpc : entry.1 = pc
      · subst hpc
        have hfound : (grouped row)[entry.1]?.getD [] =
            (row.filter fun other => other.1 = entry.1).map (·.2) := by
          rw [ih]
          split
          · next hnone => rw [hnone]; rfl
          · rfl
        simp [hfound]
      · have hnone : [entry].filter (fun other => other.1 = pc) = [] := by simp [hpc]
        rw [if_neg hpc, hnone, List.append_nil, ih]

theorem getD_grouped (row : List (UInt64 × α)) (pc : UInt64) :
    (grouped row)[pc]?.getD [] = (under pc row).map (·.2) := by
  rw [getElem?_grouped]
  split
  · next hnone => rw [hnone]; rfl
  · rfl

theorem contains_grouped_iff {row : List (UInt64 × α)} {pc : UInt64} :
    (grouped row).contains pc = true ↔ ∃ x, (pc, x) ∈ row := by
  rw [ExtTreeMap.contains_eq_isSome_getElem?, getElem?_grouped]
  constructor
  · intro h
    obtain ⟨entry, hentry⟩ : ∃ entry, entry ∈ under pc row := by
      apply List.exists_mem_of_ne_nil
      intro hnone
      rw [if_pos hnone] at h
      contradiction
    obtain ⟨hrow, hpc⟩ := List.mem_filter.1 hentry
    obtain rfl := of_decide_eq_true hpc
    exact ⟨entry.2, hrow⟩
  · rintro ⟨x, hx⟩
    have hentry : (pc, x) ∈ under pc row := List.mem_filter.2 ⟨hx, decide_eq_true rfl⟩
    rw [if_neg (List.ne_nil_of_mem hentry)]
    rfl

/-- Listing goes by counter. -/
theorem pairwise_listed (t : ExtTreeMap UInt64 (List α)) :
    (listed t).Pairwise fun a b => a.1 ≤ b.1 := by
  have hordered : t.toList.Pairwise fun a b => a.1 < b.1 :=
    t.ordered_keys_toList.imp fun hlt => Std.compare_eq_lt.1 hlt
  unfold listed
  rw [List.pairwise_flatMap]
  constructor
  · intro entry _
    rw [List.pairwise_map]
    exact List.pairwise_of_forall fun _ _ => UInt64.le_refl _
  · refine hordered.imp fun {a b} hlt x hx y hy => ?_
    obtain ⟨_, -, rfl⟩ := List.mem_map.1 hx
    obtain ⟨_, -, rfl⟩ := List.mem_map.1 hy
    exact UInt64.le_of_lt hlt

/-- What is listed under a counter is what the counter has, in that order. -/
theorem under_listed (t : ExtTreeMap UInt64 (List α)) (pc : UInt64) :
    under pc (listed t) = (t[pc]?.getD []).map fun x => (pc, x) := by
  have hother : ∀ entries : List (UInt64 × List α), (∀ entry ∈ entries, entry.1 ≠ pc) →
      under pc (entries.flatMap fun entry => entry.2.map fun x => (entry.1, x)) = [] := by
    intro entries hne
    unfold under
    rw [List.filter_eq_nil_iff]
    intro x hx
    obtain ⟨entry, hentry, hx⟩ := List.mem_flatMap.1 hx
    obtain ⟨_, -, rfl⟩ := List.mem_map.1 hx
    simpa using hne entry hentry
  cases hpc : t[pc]? with
  | none =>
      refine hother _ fun entry hentry heq => ?_
      have hfound : t[entry.1]? = some entry.2 :=
        ExtTreeMap.mem_toList_iff_getElem?_eq_some.1 hentry
      rw [heq, hpc] at hfound
      contradiction
  | some xs =>
      obtain ⟨front, behind, hsplit⟩ :=
        List.append_of_mem (ExtTreeMap.mem_toList_iff_getElem?_eq_some.2 hpc)
      have hdistinct : t.toList.Pairwise fun a b => a.1 ≠ b.1 :=
        t.distinct_keys_toList.imp fun h heq => h (Std.LawfulEqCmp.compare_eq_iff_eq.2 heq)
      rw [hsplit, List.pairwise_append, List.pairwise_cons] at hdistinct
      obtain ⟨-, ⟨hbehind, -⟩, hfront⟩ := hdistinct
      have hself : under pc (xs.map fun x => (pc, x)) = xs.map fun x => (pc, x) := by
        unfold under
        rw [List.filter_eq_self]
        intro x hx
        obtain ⟨_, -, rfl⟩ := List.mem_map.1 hx
        exact decide_eq_true rfl
      have hnone := hother front fun entry hentry => hfront entry hentry _ List.mem_cons_self
      have hnone' := hother behind fun entry hentry => (hbehind entry hentry).symm
      unfold listed
      unfold under at hself hnone hnone' ⊢
      rw [hsplit, List.flatMap_append, List.flatMap_cons, List.filter_append, List.filter_append,
        hnone, hself, hnone', List.nil_append, List.append_nil]
      rfl

theorem under_listed_grouped (row : List (UInt64 × α)) (pc : UInt64) :
    under pc (listed (grouped row)) = under pc row := by
  rw [under_listed, getD_grouped, List.map_map]
  refine (List.map_congr_left fun entry hentry => ?_).trans (List.map_id _)
  obtain ⟨-, hpc⟩ := List.mem_filter.1 hentry
  obtain rfl := of_decide_eq_true hpc
  rfl

theorem mem_listed_grouped_iff {row : List (UInt64 × α)} {entry : UInt64 × α} :
    entry ∈ listed (grouped row) ↔ entry ∈ row := by
  have hunder := under_listed_grouped row entry.1
  have hmem : ∀ row : List (UInt64 × α), entry ∈ under entry.1 row ↔ entry ∈ row := by
    intro row
    unfold under
    simp
  rw [← hmem, hunder, hmem]

/-- Nothing is lost and nothing is listed twice. -/
theorem length_listed_grouped (row : List (UInt64 × α)) :
    (listed (grouped row)).length = row.length := by
  have hcounters : ((listed (grouped row)).map (·.1)).Perm (row.map (·.1)) := by
    rw [List.perm_iff_count]
    intro pc
    have hcount : ∀ row : List (UInt64 × α), (row.map (·.1)).count pc = (under pc row).length := by
      intro row
      unfold under
      rw [List.count_eq_countP, List.countP_map, List.countP_eq_length_filter]
      rfl
    rw [hcount, hcount, under_listed_grouped]
  simpa using hcounters.length_eq

end CellHints
