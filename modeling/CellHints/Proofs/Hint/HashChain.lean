import CellHints.Proofs.Hint.Frame
import CellHints.Proofs.Hint.Inputs
import CellHints.Proofs.Memory.Access

/-!
# Chains of hashes

A message of several blocks is hashed by a chain of hints: the first starts from
the initial state, and each of the others reads the state that the one before it
wrote, through memory.  A chain whose blocks are there and whose outputs find
room never fails, and each of its windows holds, and goes on holding, the state
behind all the blocks so far.  How a message becomes blocks is NOT said here.
-/

namespace CellHints

namespace Builtin

variable {s : HintState} {m : Machine}

/-- A window of words that a reference points to can be read. -/
theorem readWords_of_holdsAt (hm : m.memory.Coherent) {r : Reference} {k : Nat}
    {ws : Vector UInt32 k} (h : m.HoldsAt r ws.toList) :
    ∃ a b, r.resolveAddress m = .ok a ∧ m.memory.readWords a k = .ok (ws, b) := by
  obtain ⟨a, ha, hholds⟩ := h
  obtain ⟨b, hb⟩ := hm.readWords_of_holds hholds
  exact ⟨a, b, ha, hb⟩

theorem readBlock_of_holdsAt (hm : m.memory.Coherent) {start : Reference} {block : Sha256.Block}
    (h : m.HoldsAt start block.toList) : readBlock m start = .ok block := by
  obtain ⟨a, b, ha, hb⟩ := readWords_of_holdsAt hm h
  apply Except.bind_eq_ok_iff.2
  refine ⟨a, ha, ?_⟩
  apply Except.bind_eq_ok_iff.2
  exact ⟨_, hb, rfl⟩

theorem readState_of_holdsAt (hm : m.memory.Coherent) {state : Reference} {before : Sha256.State}
    (h : m.HoldsAt state before.toList) : readState m state = .ok before := by
  obtain ⟨a, b, ha, hb⟩ := readWords_of_holdsAt hm h
  apply Except.bind_eq_ok_iff.2
  refine ⟨a, ha, ?_⟩
  apply Except.bind_eq_ok_iff.2
  exact ⟨_, hb, rfl⟩

theorem packedOutput_of_holdsAt (hm : m.memory.Coherent) {start output : Reference}
    {block : Sha256.Block} {dst : Address} (hblock : m.HoldsAt start block.toList)
    (hdst : output.resolveAddress m = .ok dst) :
    packedOutput m start output = .ok (dst, (Sha256.compress Sha256.initial block).toList) := by
  apply Except.bind_eq_ok_iff.2
  refine ⟨block, readBlock_of_holdsAt hm hblock, ?_⟩
  apply Except.bind_eq_ok_iff.2
  exact ⟨dst, hdst, rfl⟩

theorem chunkOutput_of_holdsAt (hm : m.memory.Coherent) {start state output : Reference}
    {block : Sha256.Block} {before : Sha256.State} {dst : Address}
    (hblock : m.HoldsAt start block.toList) (hbefore : m.HoldsAt state before.toList)
    (hdst : output.resolveAddress m = .ok dst) :
    chunkOutput m start state output = .ok (dst, (Sha256.compress before block).toList) := by
  apply Except.bind_eq_ok_iff.2
  refine ⟨block, readBlock_of_holdsAt hm hblock, ?_⟩
  apply Except.bind_eq_ok_iff.2
  refine ⟨before, readState_of_holdsAt hm hbefore, ?_⟩
  apply Except.bind_eq_ok_iff.2
  exact ⟨dst, hdst, rfl⟩

/-- Words that find room are written, and are there then. -/
theorem writeWords_of_vacant {dst : Address} {ws : List UInt32}
    (h : s.machine.memory.VacantRow dst ws.length) :
    (writeWords (.ok (dst, ws)) s).1 = .ok () ∧
      (writeWords (.ok (dst, ws)) s).2.machine.memory.Holds dst (ws.map Value.ofWord) := by
  have hrow : s.machine.memory.VacantRow dst (ws.map Value.ofWord).length := by
    rwa [List.length_map]
  obtain ⟨b, n, hrange, hwrites⟩ := hrow.writeRange
  unfold writeWords HintState.writeRange
  simp only [hrange, true_and]
  exact hwrites.holds

/-- A block of a chain, and where the state behind it goes. -/
structure Link where
  block : Sha256.Block
  dst : Address

/-- Whether a called hint finds the block of a link where `start` points, and room for a
state where `output` points. -/
structure Link.Ready (link : Link) (m : Machine) (start output : Reference) : Prop where
  block : m.HoldsAt start link.block.toList
  address : output.resolveAddress m = .ok link.dst
  vacant : m.memory.VacantRow link.dst Sha256.stateWords

/-- Whether calls go on with a chain whose last state is in the window at `previous`. -/
inductive Continues : HintState → Address → List Call → List Link → Prop
  | nil (s : HintState) (previous : Address) : Continues s previous [] []
  | cons {s : HintState} {previous : Address} {c : Call} {link : Link} {calls : List Call}
      {links : List Link} {start state output : Reference}
      (hint : c.hint = .sha256Chunk start state output)
      (ready : link.Ready (s.meets c).machine start output)
      (state : state.resolveAddress (s.meets c).machine = .ok previous)
      (rest : Continues (s.call c).2 link.dst calls links) :
      Continues s previous (c :: calls) (link :: links)

/-- Whether calls are a chain: the first takes the first block, and the others go on. -/
inductive Chains (s : HintState) : List Call → List Link → Prop
  | packed {c : Call} {link : Link} {calls : List Call} {links : List Link}
      {start output : Reference} (hint : c.hint = .packedSha256 start output)
      (ready : link.Ready (s.meets c).machine start output)
      (rest : Continues (s.call c).2 link.dst calls links) :
      Chains s (c :: calls) (link :: links)

/-- The state that the blocks of a chain lead to. -/
def stateBehind (before : Sha256.State) (links : List Link) : Sha256.State :=
  (links.map (·.block)).foldl Sha256.compress before

/-- Whether the windows of a chain hold the states behind their blocks. -/
def WindowsHold (m : Memory) (before : Sha256.State) (links : List Link) : Prop :=
  ∀ i link, links[i]? = some link →
    m.Holds link.dst ((stateBehind before (links.take (i + 1))).toList.map Value.ofWord)

variable {c : Call} {link : Link} {before : Sha256.State} {previous : Address}
  {calls : List Call} {links : List Link}

theorem WindowsHold.cons {m : Memory}
    (hfirst : m.Holds link.dst ((Sha256.compress before link.block).toList.map Value.ofWord))
    (hrest : WindowsHold m (Sha256.compress before link.block) links) :
    WindowsHold m before (link :: links) := by
  intro i l hl
  cases i with
  | zero =>
      obtain rfl : link = l := by simpa using hl
      exact hfirst
  | succ i => exact hrest i l (by simpa using hl)

/-- A call that fills the first window of a chain, and the calls behind it that fill the
others. -/
theorem windowsHold_callAll_cons
    (hcall : (s.call c).1 = .ok () ∧ (s.call c).2.machine.memory.Holds link.dst
      ((Sha256.compress before link.block).toList.map Value.ofWord))
    (hcalls : (∀ r ∈ ((s.call c).2.callAll calls).1, r = .ok ()) ∧
      WindowsHold ((s.call c).2.callAll calls).2.machine.memory
        (Sha256.compress before link.block) links) :
    (∀ r ∈ (s.callAll (c :: calls)).1, r = .ok ()) ∧
      WindowsHold (s.callAll (c :: calls)).2.machine.memory before (link :: links) := by
  rw [HintState.callAll_cons]
  refine ⟨List.forall_mem_cons.2 ⟨hcall.1, hcalls.1⟩, .cons ?_ hcalls.2⟩
  exact hcall.2.of_grows ((s.call c).2.leads_callAll calls).grows

/-- The first hint of a chain. -/
theorem call_packedSha256 {start output : Reference} (hs : s.machine.memory.Coherent)
    (hc : c.hint = .packedSha256 start output)
    (hready : link.Ready (s.meets c).machine start output) :
    (s.call c).1 = .ok () ∧ (s.call c).2.machine.memory.Holds link.dst
      ((Sha256.compress Sha256.initial link.block).toList.map Value.ofWord) := by
  have hcoherent := (s.leads_meets c).coherent hs
  unfold HintState.call
  rw [hc]
  simp only [run, packedOutput_of_holdsAt hcoherent hready.block hready.address]
  exact writeWords_of_vacant (Vector.length_toList.symm ▸ hready.vacant)

/-- A hint that goes on from the window of a state. -/
theorem call_sha256Chunk {start state output : Reference} (hs : s.machine.memory.Coherent)
    (hprevious : s.machine.memory.Holds previous (before.toList.map Value.ofWord))
    (hc : c.hint = .sha256Chunk start state output)
    (hready : link.Ready (s.meets c).machine start output)
    (hstate : state.resolveAddress (s.meets c).machine = .ok previous) :
    (s.call c).1 = .ok () ∧ (s.call c).2.machine.memory.Holds link.dst
      ((Sha256.compress before link.block).toList.map Value.ofWord) := by
  have hcoherent := (s.leads_meets c).coherent hs
  have hbefore : (s.meets c).machine.HoldsAt state before.toList :=
    ⟨previous, hstate, hprevious.of_grows (s.leads_meets c).grows⟩
  unfold HintState.call
  rw [hc]
  simp only [run, chunkOutput_of_holdsAt hcoherent hready.block hbefore hready.address]
  exact writeWords_of_vacant (Vector.length_toList.symm ▸ hready.vacant)

/-- The rest of a chain, from the state that its last window holds. -/
theorem Continues.windowsHold (h : Continues s previous calls links)
    (hs : s.machine.memory.Coherent)
    (hprevious : s.machine.memory.Holds previous (before.toList.map Value.ofWord)) :
    (∀ r ∈ (s.callAll calls).1, r = .ok ()) ∧
      WindowsHold (s.callAll calls).2.machine.memory before links := by
  induction h generalizing before with
  | nil s previous => exact ⟨nofun, nofun⟩
  | @cons s previous c link calls links start state output hint ready state rest ih =>
      have hcall := call_sha256Chunk hs hprevious hint ready state
      exact windowsHold_callAll_cons hcall (ih ((s.leads_call c).coherent hs) hcall.2)

theorem Chains.windowsHold (h : Chains s calls links) (hs : s.machine.memory.Coherent) :
    (∀ r ∈ (s.callAll calls).1, r = .ok ()) ∧
      WindowsHold (s.callAll calls).2.machine.memory Sha256.initial links := by
  cases h with
  | @packed c link calls links start output hint ready rest =>
      have hcall := call_packedSha256 hs hint ready
      exact windowsHold_callAll_cons hcall
        (rest.windowsHold ((s.leads_call c).coherent hs) hcall.2)

theorem Continues.take (h : Continues s previous calls links) (k : Nat) :
    Continues s previous (calls.take k) (links.take k) := by
  induction h generalizing k with
  | nil s previous => simpa using .nil s previous
  | cons hint ready state _ ih =>
      cases k with
      | zero => exact .nil _ _
      | succ k => exact .cons hint ready state (ih k)

/-- A chain that stops early is a chain. -/
theorem Chains.take (h : Chains s calls links) (k : Nat) :
    Chains s (calls.take (k + 1)) (links.take (k + 1)) := by
  cases h with
  | packed hint ready rest => exact .packed hint ready (rest.take k)

/-- In every run that starts without segments, a chain of hashes never fails.  From the
hint that writes it on, and whatever else happens, each window of the chain holds the left
fold of the compression over the blocks so far, from the initial state. -/
theorem hashChain_holds {limit : UInt64} {registers : Registers} {config : Config}
    {scopes : Scopes} {lead : List Turn}
    (hs : s = (⟨⟨.empty limit, registers, config⟩, scopes⟩ : HintState).afterTurns lead)
    (h : Chains s calls links) :
    (∀ r ∈ (s.callAll calls).1, r = .ok ()) ∧
    ∀ (i k : Nat) (link : Link) (behind : List Turn), i ≤ k → links[i]? = some link →
      ((s.callAll (calls.take (k + 1))).2.afterTurns behind).machine.memory.Holds link.dst
        ((((links.take (i + 1)).map (·.block)).foldl Sha256.compress
          Sha256.initial).toList.map Value.ofWord) := by
  have hcoherent : s.machine.memory.Coherent := by
    rw [hs]
    exact (HintState.leads_afterTurns _ lead).coherent (Memory.coherent_empty limit)
  refine ⟨(h.windowsHold hcoherent).1, ?_⟩
  intro i k link behind hik hlink
  -- The calls up to any hint are a chain of their own.
  have hwindows := ((h.take k).windowsHold hcoherent).2 i link
    (by rw [List.getElem?_take_of_lt (by omega), hlink])
  rw [List.take_take, Nat.min_eq_left (by omega)] at hwindows
  exact hwindows.of_grows (HintState.leads_afterTurns _ behind).grows

/-- A block of zeros, twice, with a segment allocated behind the chain. -/
theorem hashChain_holds_two_blocks :
    let zeros : Sha256.Block := Vector.replicate 16 0
    let registers : Registers := ⟨.origin, .origin, .origin⟩
    let cells : List Value := zeros.toList.map Value.ofWord ++
      [.address .origin, .address ⟨0, 30⟩, .address ⟨0, 40⟩]
    let s := (⟨⟨.empty 1, registers, .default⟩, .root⟩ : HintState).afterTurns
      [⟨registers, .allocate⟩, ⟨registers, .writeRange .origin cells⟩]
    let start : Reference := .deref ⟨.ap, 16⟩
    let first : Call := ⟨[], registers, .packedSha256 start (.deref ⟨.ap, 17⟩)⟩
    let second : Call :=
      ⟨[], registers, .sha256Chunk start (.deref ⟨.ap, 17⟩) (.deref ⟨.ap, 18⟩)⟩
    let behind : List Turn := [⟨registers, .hint .allocSegment⟩]
    (∀ r ∈ (s.callAll [first, second]).1, r = .ok ()) ∧
      ((s.callAll [first, second]).2.afterTurns behind).machine.memory.Holds ⟨0, 40⟩
        ((Sha256.compress (Sha256.compress Sha256.initial zeros) zeros).toList.map
          Value.ofWord) := by
  intro zeros registers cells s start first second behind
  have hstart : Link.Ready ⟨zeros, ⟨0, 30⟩⟩ (s.meets first).machine start (.deref ⟨.ap, 17⟩) :=
    ⟨holdsAt_of_readBlock (by decide +kernel), by decide +kernel, by decide +kernel⟩
  have hnext : Link.Ready ⟨zeros, ⟨0, 40⟩⟩ ((s.call first).2.meets second).machine start
      (.deref ⟨.ap, 18⟩) :=
    ⟨holdsAt_of_readBlock (by decide +kernel), by decide +kernel, by decide +kernel⟩
  have hstate : (Reference.deref ⟨.ap, 17⟩).resolveAddress
      ((s.call first).2.meets second).machine = .ok ⟨0, 30⟩ := by
    decide +kernel
  have hchain : Chains s [first, second] [⟨zeros, ⟨0, 30⟩⟩, ⟨zeros, ⟨0, 40⟩⟩] :=
    .packed rfl hstart (.cons rfl hnext hstate (.nil _ _))
  have hs : s = (⟨⟨.empty 1, registers, .default⟩, .root⟩ : HintState).afterTurns
      [⟨registers, .allocate⟩, ⟨registers, .writeRange .origin cells⟩] := rfl
  obtain ⟨hresults, hwindows⟩ := hashChain_holds hs hchain
  have hlast := hwindows 1 1 ⟨zeros, ⟨0, 40⟩⟩ behind (Nat.le_refl 1) rfl
  simp only [List.take_succ_cons, List.take_zero, List.map_cons, List.map_nil, List.foldl_cons,
    List.foldl_nil] at hlast
  exact ⟨hresults, hlast⟩

end Builtin

end CellHints
