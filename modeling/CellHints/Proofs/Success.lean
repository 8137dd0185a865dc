import CellHints.Machine
import Mathlib.Data.List.Forall2

/-!
# Successful results

`Except.toOption` keeps the result of a computation and forgets why it failed.
It respects sequencing, so two computations with different faults are compared
by what they give when they succeed.  A sequence fails where its first failing
step does, and with the fault of that step.
-/

namespace CellHints

variable {ε ε' α β : Type}

@[simp] theorem Except.toOption_ok (a : α) : (Except.ok a : Except ε α).toOption = some a := rfl

@[simp] theorem Except.toOption_error (e : ε) : (Except.error e : Except ε α).toOption = none := rfl

theorem Except.toOption_eq_some_iff {x : Except ε α} {a : α} :
    x.toOption = some a ↔ x = .ok a := by
  cases x <;> simp

@[simp] theorem Except.toOption_bind (x : Except ε α) (f : α → Except ε β) :
    (x >>= f).toOption = x.toOption.bind fun a => (f a).toOption := by
  cases x <;> rfl

@[simp] theorem Except.toOption_map (x : Except ε α) (f : α → β) :
    (x.map f).toOption = x.toOption.map f := by
  cases x <;> rfl

@[simp] theorem Except.toOption_mapError (x : Except ε α) (f : ε → ε') :
    (x.mapError f).toOption = x.toOption := by
  cases x <;> rfl

/-- A sequence succeeds exactly if both steps do. -/
theorem Except.bind_eq_ok_iff {x : Except ε α} {f : α → Except ε β} {b : β} :
    x >>= f = .ok b ↔ ∃ a, x = .ok a ∧ f a = .ok b := by
  cases x with
  | error e => exact ⟨nofun, fun ⟨_, h, _⟩ => nomatch h⟩
  | ok a =>
      constructor
      · intro h
        exact ⟨a, rfl, h⟩
      · rintro ⟨_, ⟨⟩, h⟩
        exact h

theorem Except.map_eq_ok_iff {x : Except ε α} {f : α → β} {b : β} :
    x.map f = .ok b ↔ ∃ a, x = .ok a ∧ f a = b := by
  cases x <;> simp [Except.map]

theorem Except.map_eq_error_iff {x : Except ε α} {f : α → β} {e : ε} :
    x.map f = .error e ↔ x = .error e := by
  cases x <;> simp [Except.map]

/-- A sequence fails exactly if one of the steps does, the second behind a first one
that succeeds. -/
theorem Except.bind_eq_error_iff {x : Except ε α} {f : α → Except ε β} {e : ε} :
    x >>= f = .error e ↔ x = .error e ∨ ∃ a, x = .ok a ∧ f a = .error e := by
  cases x with
  | error e' => simp [bind, Except.bind]
  | ok a => simp [bind, Except.bind]

theorem Except.mapError_eq_ok_iff {x : Except ε α} {f : ε → ε'} {a : α} :
    x.mapError f = .ok a ↔ x = .ok a := by
  cases x with
  | error e => exact ⟨nofun, nofun⟩
  | ok b =>
      change (Except.ok b : Except ε' α) = .ok a ↔ _
      simp

theorem Except.mapError_eq_error_iff {x : Except ε α} {f : ε → ε'} {e : ε'} :
    x.mapError f = .error e ↔ ∃ e', x = .error e' ∧ f e' = e := by
  cases x with
  | ok a => exact ⟨nofun, fun ⟨_, h, _⟩ => nomatch h⟩
  | error e' =>
      change Except.error (f e') = .error e ↔ _
      simp

/-- A row of steps succeeds exactly if each of them does. -/
theorem Except.mapM_eq_ok_iff {f : α → Except ε β} {xs : List α} {ys : List β} :
    xs.mapM f = .ok ys ↔ List.Forall₂ (fun x y => f x = .ok y) xs ys := by
  induction xs generalizing ys with
  | nil =>
      rw [List.mapM_nil, List.forall₂_nil_left_iff]
      exact ⟨fun h => (Except.ok.inj h).symm, fun h => h ▸ rfl⟩
  | cons x xs ih =>
      rw [List.mapM_cons, Except.bind_eq_ok_iff, List.forall₂_cons_left_iff]
      constructor
      · rintro ⟨y, hy, h⟩
        obtain ⟨rest, hrest, ⟨⟩⟩ := Except.bind_eq_ok_iff.1 h
        exact ⟨y, rest, hy, ih.1 hrest, rfl⟩
      · rintro ⟨y, rest, hy, hrest, rfl⟩
        exact ⟨y, hy, Except.bind_eq_ok_iff.2 ⟨rest, ih.2 hrest, rfl⟩⟩

/-- A row of steps fails exactly if one of them does behind others that succeed. -/
theorem Except.mapM_eq_error_iff {f : α → Except ε β} {xs : List α} {e : ε} :
    xs.mapM f = .error e ↔ ∃ front x behind, xs = front ++ x :: behind ∧
      (∀ y ∈ front, ∃ b, f y = .ok b) ∧ f x = .error e := by
  induction xs with
  | nil => exact ⟨nofun, fun ⟨front, _, _, h, _⟩ => absurd h.symm (by simp)⟩
  | cons x xs ih =>
      rw [List.mapM_cons, Except.bind_eq_error_iff]
      constructor
      · rintro (hx | ⟨b, hb, h⟩)
        · exact ⟨[], x, xs, rfl, nofun, hx⟩
        · rcases Except.bind_eq_error_iff.1 h with h | ⟨_, _, ⟨⟩⟩
          obtain ⟨front, y, behind, rfl, hfront, hy⟩ := ih.1 h
          exact ⟨x :: front, y, behind, rfl, List.forall_mem_cons.2 ⟨⟨b, hb⟩, hfront⟩, hy⟩
      · rintro ⟨front, y, behind, hsplit, hfront, hy⟩
        cases front with
        | nil =>
            obtain ⟨rfl, rfl⟩ := List.cons.inj hsplit
            exact Or.inl hy
        | cons first front =>
            obtain ⟨rfl, rfl⟩ := List.cons.inj hsplit
            obtain ⟨⟨b, hb⟩, hfront⟩ := List.forall_mem_cons.1 hfront
            exact Or.inr ⟨b, hb, Except.bind_eq_error_iff.2
              (Or.inl (ih.2 ⟨front, y, behind, rfl, hfront, hy⟩))⟩

/-- In a row that is related to another each has what it is related to. -/
theorem exists_of_forall₂ {R : α → β → Prop} {xs : List α} {ys : List β}
    (h : List.Forall₂ R xs ys) : ∀ x ∈ xs, ∃ y, R x y := by
  induction h with
  | nil => exact nofun
  | cons hx _ ih => exact List.forall_mem_cons.2 ⟨⟨_, hx⟩, ih⟩

theorem Except.exists_mapM_eq_ok_iff {f : α → Except ε β} {xs : List α} :
    (∃ ys, xs.mapM f = .ok ys) ↔ ∀ x ∈ xs, ∃ y, f x = .ok y := by
  constructor
  · rintro ⟨ys, hys⟩
    exact exists_of_forall₂ (Except.mapM_eq_ok_iff.1 hys)
  · intro hall
    cases hmap : xs.mapM f with
    | ok ys => exact ⟨ys, rfl⟩
    | error e =>
        obtain ⟨front, x, behind, rfl, -, hx⟩ := Except.mapM_eq_error_iff.1 hmap
        obtain ⟨y, hy⟩ := hall x (List.mem_append_right _ List.mem_cons_self)
        rw [hx] at hy
        contradiction

theorem Value.asFelt_eq_ok_iff {v : Value} {x : Felt} : v.asFelt = .ok x ↔ v = .felt x := by
  cases v <;> simp [asFelt]

namespace Memory

variable (m : Memory) (a : Address)

@[simp] theorem toOption_read : (m.read a).toOption = m.peek a := by
  ext v
  rw [Except.toOption_eq_some_iff, read_eq_ok_iff]

@[simp] theorem toOption_readAddress :
    (m.readAddress a).toOption = (m.peek a).bind fun v => v.asAddress.toOption := by
  simp [readAddress]

end Memory

end CellHints
