import CellHints.Hint.Operands
import CellHints.Proofs.Hint.Lookup
import CellHints.Proofs.Success
import CellHints.Proofs.Text.ByteOrder

/-!
# Operands by request

A table of operands is settled by the first request for each name that can be read; the
others change nothing, and what they were refused for is read off the table and the text.
What a name means among the operands, and whether it serves as a value or as a cell, then
depends on the table alone.  It does NOT depend on the order of requests for different
names.
-/

namespace CellHints.Operands

/-- The first reference that the requests for a name come with; a text that cannot be read
is passed over. -/
def firstReference (requests : List Request) (name : String) : Option Reference :=
  requests.findSome? fun q => if q.name = name then q.reference.toOption else none

/-- What a name serves as, where the search for it ends with `result`: as a cell or as a
value, and never as both. -/
inductive Serves (t : Operands) (name : String) : Except Fault Reference → Prop
  | cell {c : Cell} (asCell : t.findCell name = .ok c)
      (noValue : t.findValue name = .error (.operandIsCell name)) : Serves t name (.ok (.cell c))
  | value {r : Reference} (bare : ∀ c, r ≠ .cell c) (asValue : t.findValue name = .ok r)
      (noCell : t.findCell name = .error (.operandIsNoCell name)) : Serves t name (.ok r)
  | nothing {e : Fault} (noValue : t.findValue name = .error e)
      (noCell : t.findCell name = .error e) : Serves t name (.error e)

variable {t : Operands} {q : Request} {requests : List Request} {name : String} {r : Reference}

/-! ### Requests -/

/-- A request is read first; then its name has to be new. -/
theorem addTo_eq (q : Request) (t : Operands) : q.addTo t =
    q.reference.bind fun r =>
      if q.name ∈ t then .error (.duplicateOperand q.name) else .ok (t.insert q.name r) := by
  cases q <;> rfl

theorem act_eq_error_iff {e : Fault} : (q.act t).1 = .error e ↔ q.reference = .error e ∨
    (∃ r, q.reference = .ok r) ∧ q.name ∈ t ∧ e = .duplicateOperand q.name := by
  unfold Request.act
  rw [addTo_eq]
  cases q.reference with
  | error e' => simp [Except.bind]
  | ok r =>
      by_cases h : q.name ∈ t
      · simp [Except.bind, h, eq_comm]
      · simp [Except.bind, h]

/-- A request that is refused changes nothing. -/
theorem act_of_error {e : Fault} (h : (q.act t).1 = .error e) : (q.act t).2 = t := by
  unfold Request.act at h ⊢
  cases hadd : q.addTo t with
  | error e' => rfl
  | ok u =>
      rw [hadd] at h
      contradiction

/-- What a name stands for behind a request: what it stood for, or else what it now comes
with. -/
theorem getElem?_act (q : Request) (t : Operands) (name : String) :
    (q.act t).2[name]? =
      t[name]?.or (if q.name = name then q.reference.toOption else none) := by
  unfold Request.act
  rw [addTo_eq]
  cases q.reference with
  | error e => simp [Except.bind]
  | ok r =>
      by_cases htaken : q.name ∈ t
      · obtain ⟨r', hr'⟩ :=
          Option.isSome_iff_exists.1 (Std.ExtTreeMap.mem_iff_isSome_getElem?.1 htaken)
        by_cases hname : q.name = name
        · rw [hname] at hr'
          simp [Except.bind, htaken, hr']
        · simp [Except.bind, htaken, hname]
      · by_cases hname : q.name = name
        · subst hname
          simp [Except.bind, htaken]
        · simp [Except.bind, htaken, hname, Std.ExtTreeMap.getElem?_insert]

theorem firstReference_cons (q : Request) (requests : List Request) (name : String) :
    firstReference (q :: requests) name =
      (if q.name = name then q.reference.toOption else none).or
        (firstReference requests name) := by
  unfold firstReference
  rw [List.findSome?_cons]
  cases (if q.name = name then q.reference.toOption else none) <;> rfl

theorem getElem?_after (requests : List Request) (t : Operands) (name : String) :
    (t.after requests)[name]? = t[name]?.or (firstReference requests name) := by
  induction requests generalizing t with
  | nil => simp [after, firstReference]
  | cons q requests ih =>
      show ((q.act t).2.after requests)[name]? = _
      rw [ih, getElem?_act, Option.or_assoc, firstReference_cons]

theorem getElem?_ofRequests (requests : List Request) (name : String) :
    (ofRequests requests)[name]? = firstReference requests name := by
  rw [ofRequests, getElem?_after, Std.ExtTreeMap.getElem?_empty, Option.none_or]

/-- Requests for different names each leave what they come with. -/
theorem firstReference_eq_some_iff (h : (requests.map Request.name).Nodup) :
    firstReference requests name = some r ↔
      ∃ q ∈ requests, q.name = name ∧ q.reference = .ok r := by
  induction requests generalizing r with
  | nil => simp [firstReference]
  | cons q requests ih =>
      rw [List.map_cons, List.nodup_cons] at h
      rw [firstReference_cons, List.exists_mem_cons_iff, ← ih h.2]
      by_cases hname : q.name = name
      · -- No other request is for this name.
        have hnone : firstReference requests name = none := by
          rw [Option.eq_none_iff_forall_ne_some]
          intro r' hr'
          obtain ⟨p, hp, hpname, -⟩ := (ih h.2).1 hr'
          exact h.1 (List.mem_map.2 ⟨p, hp, hpname.trans hname.symm⟩)
        rw [if_pos hname, hnone, Option.or_none, Except.toOption_eq_some_iff]
        simp [hname]
      · simp [hname]

theorem ofRequests_perm {other : List Request} (h : other.Perm requests)
    (hnames : (requests.map Request.name).Nodup) : ofRequests other = ofRequests requests := by
  have hother : (other.map Request.name).Nodup := (h.map _).nodup_iff.2 hnames
  apply Std.ExtTreeMap.ext_getElem?
  intro name
  rw [getElem?_ofRequests, getElem?_ofRequests]
  ext r
  rw [firstReference_eq_some_iff hother, firstReference_eq_some_iff hnames]
  simp only [h.mem_iff]

/-! ### Values and cells -/

theorem serves_find (t : Operands) (name : String) : t.Serves name (t.find name) := by
  cases hfind : t.find name with
  | error e =>
      refine .nothing ?_ ?_
      · rw [findValue, hfind]
        rfl
      · rw [findCell, hfind]
        rfl
  | ok r =>
      cases hcell : r.cell? with
      | some c =>
          obtain rfl : r = .cell c := by
            cases r <;> simp_all [Reference.cell?]
          refine .cell ?_ ?_
          · rw [findCell, hfind]
            rfl
          · rw [findValue, hfind]
            rfl
      | none =>
          refine .value ?_ ?_ ?_
          · rintro c rfl
            contradiction
          · simp only [findValue, hfind, bind, Except.bind, hcell]
            rfl
          · simp only [findCell, hfind, bind, Except.bind, hcell]
            rfl

/-- Behind any row of requests, a further one is refused for its text or else for its name,
and then changes nothing, so each name has the first reference that was read for it.  What a
name means is the operand of that name or the only one that it is short for; the candidates
of a name that is short for several come in the order of their bytes.  It serves as a value
or as a cell.  Requests for different names may come in any order. -/
theorem find_among_requested (requests : List Request) :
    let t := ofRequests requests
    (∀ (q : Request) e, ((q.act t).1 = .error e ↔ q.reference = .error e ∨
      (∃ r, q.reference = .ok r) ∧ q.name ∈ t ∧ e = .duplicateOperand q.name) ∧
      ((q.act t).1 = .error e → (q.act t).2 = t)) ∧
    (∀ name, t[name]? = firstReference requests name) ∧
    (∀ name result, t.find name = result ↔ t.Finds name result) ∧
    (∀ name names, t.find name = .error (.ambiguousOperand name names) →
      names.Pairwise ByteOrder.Before) ∧
    (∀ name, t.Serves name (t.find name)) ∧
    ∀ other, other.Perm requests → (requests.map Request.name).Nodup →
      ofRequests other = t := by
  intro t
  refine ⟨fun q e => ⟨act_eq_error_iff, act_of_error⟩, getElem?_ofRequests requests,
    fun name result => find_eq_iff, ?_, t.serves_find, fun other => ofRequests_perm⟩
  intro name names h
  cases find_eq_iff.1 h with
  | ambiguous _ _ ascending _ => exact ascending.imp ByteOrder.before_of_lt

/-- Two operands with one short name, asked for in either order; a third one may not have
the name of the first. -/
theorem find_among_requested_two_paths :
    let requests : List Request := [.ofText "b.n" "[cast(fp, felt*)]", .ofReference "a.n"
      (.cell ⟨.ap, 0⟩)]
    let t := ofRequests requests
    let again : Request := .ofText "b.n" "cast(1, felt)"
    t.find "n" = .error (.ambiguousOperand "n" ["a.n", "b.n"]) ∧
      ["a.n", "b.n"].Pairwise ByteOrder.Before ∧
      (again.act t).1 = .error (.duplicateOperand "b.n") ∧ (again.act t).2 = t ∧
      ofRequests requests.reverse = t := by
  intro requests t again
  have hfind : t.find "n" = .error (.ambiguousOperand "n" ["a.n", "b.n"]) := by decide +kernel
  have hrefused : (again.act t).1 = .error (.duplicateOperand "b.n") := by decide +kernel
  obtain ⟨hact, -, -, horder, -, hperm⟩ := find_among_requested requests
  exact ⟨hfind, horder _ _ hfind, hrefused, (hact again _).2 hrefused,
    hperm _ (List.reverse_perm _) (by decide)⟩

end CellHints.Operands
