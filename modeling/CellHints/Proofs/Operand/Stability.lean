import CellHints.Proofs.Hint.Reach
import CellHints.Proofs.Success

/-!
# Operands do not change

Memory only grows and registers stand still between two hints, so what a
reference stands for is settled as soon as every cell on the way is written.
This holds for the faults as well: the only ones that can go away are those of a
segment or a cell that is not there yet.  It is NOT said that these do go away.
-/

namespace CellHints

/-- Whether a fault is that a segment or a cell is not there yet. -/
def Fault.IsMissing : Fault → Prop
  | memory (.unknownSegment _) | memory (.unsetCell _) => True
  | _ => False

variable {α β : Type}

/-- Whether a result stays what it is: a value always, a fault unless something was
missing. -/
structure Lasts (now later : Except Fault α) : Prop where
  value : ∀ a, now = .ok a → later = .ok a
  fault : ∀ e, now = .error e → ¬e.IsMissing → later = .error e

namespace Lasts

theorem refl (x : Except Fault α) : Lasts x x := ⟨fun _ h => h, fun _ h _ => h⟩

/-- What is missing may become anything. -/
theorem of_isMissing {e : Fault} (he : e.IsMissing) (x : Except Fault α) :
    Lasts (.error e) x where
  value := nofun
  fault := by
    intro e' h hstays
    cases h
    exact absurd he hstays

/-- A sequence lasts if its steps do. -/
theorem bind {x y : Except Fault α} {f g : α → Except Fault β} (h : Lasts x y)
    (hf : ∀ a, Lasts (f a) (g a)) : Lasts (x >>= f) (y >>= g) where
  value := by
    intro b hb
    obtain ⟨a, ha, hb⟩ := Except.bind_eq_ok_iff.1 hb
    exact Except.bind_eq_ok_iff.2 ⟨a, h.value a ha, (hf a).value b hb⟩
  fault := by
    intro e he hstays
    -- The first step that fails now is the first one that fails later.
    rcases Except.bind_eq_error_iff.1 he with he | ⟨a, ha, he⟩
    · exact Except.bind_eq_error_iff.2 (Or.inl (h.fault e he hstays))
    · exact Except.bind_eq_error_iff.2
        (Or.inr ⟨a, h.value a ha, (hf a).fault e he hstays⟩)

end Lasts

/-- Reading fails only where something is missing. -/
theorem Memory.isMissing_of_read {m : Memory} {a : Address} {e : MemoryError}
    (h : m.read a = .error e) : (Fault.memory e).IsMissing := by
  rcases read_eq_error_iff.1 h with ⟨-, rfl⟩ | ⟨-, -, rfl⟩
  · exact trivial
  · exact trivial

theorem Memory.Grows.lasts_read {m n : Memory} (h : m.Grows n) (a : Address) :
    Lasts ((m.read a).mapError .memory) ((n.read a).mapError .memory) := by
  cases hread : m.read a with
  | ok v =>
      rw [read_eq_ok_iff.2 (h.peek a v (read_eq_ok_iff.1 hread))]
      exact .refl _
  | error e => exact .of_isMissing (isMissing_of_read hread) _

/-- What is read lasts, whatever it is then taken for. -/
theorem Memory.Grows.lasts_readAs {m n : Memory} (h : m.Grows n) (a : Address)
    (kind : Value → Except ValueError α) :
    Lasts ((m.read a >>= fun v => (kind v).mapError .value).mapError .memory)
      ((n.read a >>= fun v => (kind v).mapError .value).mapError .memory) := by
  have hsplit : ∀ k : Memory,
      (k.read a >>= fun v => (kind v).mapError .value).mapError Fault.memory =
        (k.read a).mapError Fault.memory >>= fun v =>
          ((kind v).mapError MemoryError.value).mapError Fault.memory := by
    intro k
    cases k.read a <;> rfl
  rw [hsplit m, hsplit n]
  exact (h.lasts_read a).bind fun _ => .refl _

theorem Memory.Grows.lasts_readAddress {m n : Memory} (h : m.Grows n) (a : Address) :
    Lasts ((m.readAddress a).mapError .memory) ((n.readAddress a).mapError .memory) :=
  h.lasts_readAs a Value.asAddress

namespace Machine.Leads

variable {m n : Machine}

theorem cellAddress_eq (h : m.Leads n) (c : Cell) : n.cellAddress c = m.cellAddress c := by
  unfold cellAddress register
  rw [h.registers_eq]

theorem lasts_address (h : m.Leads n) (r : Reference) : Lasts (r.address m) (r.address n) := by
  cases r with
  | cell c =>
      simp only [Reference.address, h.cellAddress_eq]
      exact .refl _
  | deref c =>
      simp only [Reference.address, h.cellAddress_eq]
      exact .refl _
  | doubleDeref c offset =>
      simp only [Reference.address, h.cellAddress_eq]
      apply (Lasts.refl _).bind
      intro a
      exact (h.memory.grows.lasts_readAddress a).bind fun _ => .refl _
  | immediate x => exact .refl _
  | binary op lhs rhs => exact .refl _

theorem lasts_resolve (h : m.Leads n) (r : Reference) : Lasts (r.resolve m) (r.resolve n) := by
  induction r with
  | cell c =>
      simp only [Reference.resolve, h.cellAddress_eq]
      exact .refl _
  | deref c =>
      exact (h.lasts_address (.deref c)).bind fun a => h.memory.grows.lasts_read a
  | doubleDeref c offset =>
      exact (h.lasts_address (.doubleDeref c offset)).bind fun a => h.memory.grows.lasts_read a
  | immediate x => exact .refl _
  | binary op lhs rhs ihl ihr => exact ihl.bind fun x => ihr.bind fun y => .refl _

end Machine.Leads

/-- Whatever a program does to memory and scopes, directly or through hints, the
registers and the settings stay, and what a reference stands for lasts. -/
theorem resolution_lasts {s t : HintState} (h : s.Reaches t) (r : Reference) :
    t.machine.registers = s.machine.registers ∧ t.machine.config = s.machine.config ∧
    Lasts (r.resolve s.machine) (r.resolve t.machine) ∧
    Lasts (r.address s.machine) (r.address t.machine) := by
  have hleads := h.leads
  exact ⟨hleads.registers_eq, hleads.config_eq, hleads.lasts_resolve r, hleads.lasts_address r⟩

/-- `[ap] * 2` where the cell at `ap` holds 7, before and behind two hints that fail.  The
second of them leaves a new segment. -/
theorem resolution_lasts_behind_refusals :
    let s : HintState :=
      ⟨⟨(⟨#[.empty], 2⟩ : Memory).put .origin (.felt (Felt.ofNat 7)),
        ⟨.origin, .origin, .origin⟩, .default⟩, .root⟩
    let t := s.after [.hint .exitScope, .hint .allocSegment]
    let r : Reference := .binary .mul (.deref ⟨.ap, 0⟩) (.immediate (Felt.ofNat 2))
    s.Reaches t ∧ t.machine.memory.segments.size = 2 ∧
      r.resolve s.machine = .ok (.felt (Felt.ofNat 14)) ∧
      r.resolve t.machine = .ok (.felt (Felt.ofNat 14)) ∧
      r.address s.machine = .error (.noAddress r) ∧
      r.address t.machine = .error (.noAddress r) := by
  intro s t r
  have hreaches : s.Reaches t := (HintState.Reaches.refl.event (.hint .exitScope)).event _
  obtain ⟨-, -, hresolve, haddress⟩ := resolution_lasts hreaches r
  have hnow : r.resolve s.machine = .ok (.felt (Felt.ofNat 14)) :=
    Except.toOption_eq_some_iff.1 (by decide +kernel)
  exact ⟨hreaches, by decide +kernel, hnow, hresolve.value _ hnow, rfl,
    haddress.fault _ rfl not_false⟩

end CellHints
