import CellHints.Proofs.Hint.HashChain

/-!
# The windows of a hash

A hash hint reads its words, finds out where its output goes, and writes.  It succeeds
exactly if the windows that it reads hold words and the window that it writes is vacant,
which no window is that shares a cell with something that is written.  The three windows
are looked at where their operands point; it is NOT asked where these operands stand.
-/

namespace CellHints

namespace Machine

/-- Whether a reference points to a window of `n` words. -/
def WordsAt (m : Machine) (r : Reference) (n : Nat) : Prop :=
  ∃ a, r.resolveAddress m = .ok a ∧ m.memory.WordRow a n

/-- Whether a reference points to a window of `n` cells that can be written. -/
def RoomAt (m : Machine) (r : Reference) (n : Nat) : Prop :=
  ∃ a, r.resolveAddress m = .ok a ∧ m.memory.VacantRow a n

/-- Whether a cell is one of the `n` in the window that a reference points to. -/
def InWindow (m : Machine) (r : Reference) (n : Nat) (c : Address) : Prop :=
  ∃ a i, r.resolveAddress m = .ok a ∧ i < n ∧ a.shift (i : Nat) = .ok c

variable {m : Machine} {r : Reference} {n : Nat} {c : Address}

theorem wordsAt_iff : m.WordsAt r n ↔ ∃ ws : Vector UInt32 n, m.HoldsAt r ws.toList := by
  simp only [WordsAt, Memory.wordRow_iff, HoldsAt]
  constructor
  · rintro ⟨a, ha, ws, hws⟩
    exact ⟨ws, a, ha, hws⟩
  · rintro ⟨ws, a, ha, hws⟩
    exact ⟨a, ha, ws, hws⟩

theorem inWindow_first {a : Address} (ha : r.resolveAddress m = .ok a) (hn : 0 < n) :
    m.InWindow r n a :=
  ⟨a, 0, ha, hn, Address.shift_eq_ok_iff.2 ⟨rfl, by simp⟩⟩

/-- The cells of a window of words are written. -/
theorem WordsAt.written (h : m.WordsAt r n) (hc : m.InWindow r n c) : m.memory.peek c ≠ none := by
  obtain ⟨a, ha, hwords⟩ := h
  obtain ⟨a', i, ha', hi, hshift⟩ := hc
  obtain rfl : a = a' := Except.ok.inj (ha.symm.trans ha')
  obtain ⟨b, x, hb, hx, -⟩ := hwords i hi
  obtain rfl : b = c := Except.ok.inj (hb.symm.trans hshift)
  rw [hx]
  exact nofun

theorem RoomAt.unset (h : m.RoomAt r n) (hc : m.InWindow r n c) : m.memory.peek c = none := by
  obtain ⟨a, ha, hrow⟩ := h
  obtain ⟨a', i, ha', hi, hshift⟩ := hc
  obtain rfl : a = a' := Except.ok.inj (ha.symm.trans ha')
  obtain ⟨b, hb, hvacant⟩ := hrow i hi
  obtain rfl : b = c := Except.ok.inj (hb.symm.trans hshift)
  exact hvacant.unset

end Machine

/-- Whether `t` is `s` with the words written where `output` points, and with nothing else
changed but the length of their segment. -/
def HintState.WritesAt (s : HintState) (output : Reference) (ws : List UInt32) (t : HintState) :
    Prop :=
  ∃ dst n, output.resolveAddress s.machine = .ok dst ∧
    s.machine.memory.Writes dst (ws.map Value.ofWord) n ∧ t = s.withMemory n

namespace Builtin

variable {s t : HintState} {m : Machine} {b : Builtin} {dst : Address} {ws : List UInt32}
  {find : Machine → Except Fault (Address × List UInt32)} {start state output : Reference}

/-- What a hint is to write is what it works out. -/
theorem WritesWords.eq_ok_iff (h : b.WritesWords find) (hm : m.memory.Coherent) :
    find m = .ok (dst, ws) ↔ b.Output m dst ws := by
  refine ⟨fun hfind => (h.output hfind).1, ?_⟩
  intro houtput
  cases h with
  | packedSha256 start output =>
      cases houtput with
      | packedSha256 hblock hdst => exact packedOutput_of_holdsAt hm hblock hdst
  | sha256Chunk start state output =>
      cases houtput with
      | sha256Chunk hblock hbefore hdst => exact chunkOutput_of_holdsAt hm hblock hbefore hdst
  | finalizeSha256 ptrEnd =>
      cases houtput with
      | finalizeSha256 hdst => exact Except.bind_eq_ok_iff.2 ⟨dst, hdst, rfl⟩

/-- What a hint that writes words leaves when it succeeds. -/
theorem WritesWords.writes (h : b.WritesWords find) (hrun : b.run s = (.ok (), t)) :
    ∃ dst ws n, b.Output s.machine dst ws ∧
      s.machine.memory.Writes dst (ws.map Value.ofWord) n ∧ t = s.withMemory n := by
  rw [h.run_eq] at hrun
  obtain ⟨dst, ws, b', n, hfind, hrange, rfl⟩ := writeWords_eq_ok_iff.1 hrun
  refine ⟨dst, ws, n, (h.output hfind).1, ?_, rfl⟩
  rcases s.machine.memory.writeRange_writes_or_stops dst (ws.map Value.ofWord) with
    ⟨_, -, hwrites⟩ | ⟨e, herror, -⟩
  · rwa [hrange] at hwrites
  · rw [hrange] at herror
    contradiction

/-- A hint that writes words succeeds exactly if there is room for what it is to write. -/
theorem WritesWords.run_eq_ok_iff (h : b.WritesWords find) (hs : s.machine.memory.Coherent) :
    (b.run s).1 = .ok () ↔
      ∃ dst ws, b.Output s.machine dst ws ∧ s.machine.memory.VacantRow dst ws.length := by
  constructor
  · intro hok
    have hleads := leads_run b s
    rcases hrun : b.run s with ⟨result, t⟩
    rw [hrun] at hok hleads
    obtain rfl : result = .ok () := hok
    obtain ⟨dst, ws, n, houtput, hwrites, rfl⟩ := h.writes hrun
    have hrow := hwrites.vacantRow (hleads.memory.coherent hs)
    rw [List.length_map] at hrow
    exact ⟨dst, ws, houtput, hrow⟩
  · rintro ⟨dst, ws, houtput, hrow⟩
    rw [h.run_eq, (h.eq_ok_iff hs).2 houtput]
    exact (writeWords_of_vacant hrow).1

theorem output_sha256Chunk_iff : (sha256Chunk start state output).Output m dst ws ↔
    ∃ (block : Sha256.Block) (before : Sha256.State), m.HoldsAt start block.toList ∧
      m.HoldsAt state before.toList ∧ output.resolveAddress m = .ok dst ∧
      ws = (Sha256.compress before block).toList := by
  constructor
  · intro h
    cases h with
    | sha256Chunk hblock hbefore hdst => exact ⟨_, _, hblock, hbefore, hdst, rfl⟩
  · rintro ⟨block, before, hblock, hbefore, hdst, rfl⟩
    exact .sha256Chunk hblock hbefore hdst

theorem output_packedSha256_iff : (packedSha256 start output).Output m dst ws ↔
    ∃ block : Sha256.Block, m.HoldsAt start block.toList ∧
      output.resolveAddress m = .ok dst ∧
      ws = (Sha256.compress Sha256.initial block).toList := by
  constructor
  · intro h
    cases h with
    | packedSha256 hblock hdst => exact ⟨_, hblock, hdst, rfl⟩
  · rintro ⟨block, hblock, hdst, rfl⟩
    exact .packedSha256 hblock hdst

theorem run_sha256Chunk_eq_ok_iff (hs : s.machine.memory.Coherent) :
    ((sha256Chunk start state output).run s).1 = .ok () ↔
      s.machine.WordsAt start 16 ∧ s.machine.WordsAt state 8 ∧ s.machine.RoomAt output 8 := by
  simp only [(WritesWords.sha256Chunk start state output).run_eq_ok_iff hs,
    output_sha256Chunk_iff, Machine.wordsAt_iff]
  constructor
  · rintro ⟨dst, _, ⟨block, before, hblock, hbefore, hdst, rfl⟩, hrow⟩
    rw [Vector.length_toList] at hrow
    exact ⟨⟨block, hblock⟩, ⟨before, hbefore⟩, dst, hdst, hrow⟩
  · rintro ⟨⟨block, hblock⟩, ⟨before, hbefore⟩, dst, hdst, hrow⟩
    exact ⟨dst, _, ⟨block, before, hblock, hbefore, hdst, rfl⟩, by rwa [Vector.length_toList]⟩

theorem run_packedSha256_eq_ok_iff (hs : s.machine.memory.Coherent) :
    ((packedSha256 start output).run s).1 = .ok () ↔
      s.machine.WordsAt start 16 ∧ s.machine.RoomAt output 8 := by
  simp only [(WritesWords.packedSha256 start output).run_eq_ok_iff hs,
    output_packedSha256_iff, Machine.wordsAt_iff]
  constructor
  · rintro ⟨dst, _, ⟨block, hblock, hdst, rfl⟩, hrow⟩
    rw [Vector.length_toList] at hrow
    exact ⟨⟨block, hblock⟩, dst, hdst, hrow⟩
  · rintro ⟨⟨block, hblock⟩, dst, hdst, hrow⟩
    exact ⟨dst, _, ⟨block, hblock, hdst, rfl⟩, by rwa [Vector.length_toList]⟩

theorem writesAt_of_run_sha256Chunk
    (hrun : (sha256Chunk start state output).run s = (.ok (), t)) :
    ∃ (block : Sha256.Block) (before : Sha256.State), s.machine.HoldsAt start block.toList ∧
      s.machine.HoldsAt state before.toList ∧
      s.WritesAt output (Sha256.compress before block).toList t := by
  obtain ⟨dst, ws, n, houtput, hwrites, hn⟩ :=
    (WritesWords.sha256Chunk start state output).writes hrun
  obtain ⟨block, before, hblock, hbefore, hdst, rfl⟩ := output_sha256Chunk_iff.1 houtput
  exact ⟨block, before, hblock, hbefore, dst, n, hdst, hwrites, hn⟩

theorem writesAt_of_run_packedSha256 (hrun : (packedSha256 start output).run s = (.ok (), t)) :
    ∃ block : Sha256.Block, s.machine.HoldsAt start block.toList ∧
      s.WritesAt output (Sha256.compress Sha256.initial block).toList t := by
  obtain ⟨dst, ws, n, houtput, hwrites, hn⟩ :=
    (WritesWords.packedSha256 start output).writes hrun
  obtain ⟨block, hblock, hdst, rfl⟩ := output_packedSha256_iff.1 houtput
  exact ⟨block, hblock, dst, n, hdst, hwrites, hn⟩

/-- A chunk hint that goes on from the initial state is a packed hint. -/
theorem run_packedSha256_eq (hs : s.machine.memory.Coherent)
    (hstate : s.machine.HoldsAt state Sha256.initial.toList) :
    (packedSha256 start output).run s = (sha256Chunk start state output).run s := by
  have houtput : packedOutput s.machine start output =
      chunkOutput s.machine start state output := by
    unfold packedOutput chunkOutput
    rw [readState_of_holdsAt hs hstate]
    rfl
  simp only [run, houtput]

/-- In every run that starts without segments, a chunk hint succeeds exactly if its three
operands point to a block of words, a state of words and room for a state, and a packed hint
exactly if its two do.  Each then leaves the compression of what it read in its output
window and all else as it was, so it fails if that window shares a cell with a window that
it reads or with anything written, such as the cells that its operands are read from.  On
the initial state the two are the same. -/
theorem hashes_exactly {limit : UInt64} {registers : Registers} {config : Config}
    {scopes : Scopes} {lead : List Turn}
    (hs : s.machine.memory = ((⟨⟨.empty limit, registers, config⟩, scopes⟩ :
      HintState).afterTurns lead).machine.memory) (start state output : Reference) :
    let m := s.machine
    let chunk := (sha256Chunk start state output).run s
    let packed := (packedSha256 start output).run s
    (chunk.1 = .ok () ↔ m.WordsAt start 16 ∧ m.WordsAt state 8 ∧ m.RoomAt output 8) ∧
    (packed.1 = .ok () ↔ m.WordsAt start 16 ∧ m.RoomAt output 8) ∧
    (chunk.1 = .ok () → ∃ (block : Sha256.Block) (before : Sha256.State),
      m.HoldsAt start block.toList ∧ m.HoldsAt state before.toList ∧
      s.WritesAt output (Sha256.compress before block).toList chunk.2) ∧
    (packed.1 = .ok () → ∃ block : Sha256.Block, m.HoldsAt start block.toList ∧
      s.WritesAt output (Sha256.compress Sha256.initial block).toList packed.2) ∧
    (∀ c, m.InWindow output 8 c →
      (m.InWindow start 16 c ∨ m.InWindow state 8 c ∨ m.memory.peek c ≠ none →
        chunk.1 ≠ .ok ()) ∧
      (m.InWindow start 16 c ∨ m.memory.peek c ≠ none → packed.1 ≠ .ok ())) ∧
    (m.HoldsAt state Sha256.initial.toList → packed = chunk) := by
  intro m chunk packed
  have hcoherent : s.machine.memory.Coherent := by
    rw [hs]
    exact (HintState.leads_afterTurns _ lead).coherent (Memory.coherent_empty limit)
  have hchunk : chunk.1 = .ok () ↔
      m.WordsAt start 16 ∧ m.WordsAt state 8 ∧ m.RoomAt output 8 :=
    run_sha256Chunk_eq_ok_iff hcoherent
  have hpacked : packed.1 = .ok () ↔ m.WordsAt start 16 ∧ m.RoomAt output 8 :=
    run_packedSha256_eq_ok_iff hcoherent
  refine ⟨hchunk, hpacked, fun hok => ?_, fun hok => ?_, fun c hc => ⟨?_, ?_⟩, fun hstate => ?_⟩
  · exact writesAt_of_run_sha256Chunk (Prod.ext hok rfl)
  · exact writesAt_of_run_packedSha256 (Prod.ext hok rfl)
  · intro hshared hok
    obtain ⟨hstart, hstate, hroom⟩ := hchunk.1 hok
    rcases hshared with hread | hread | hset
    · exact hstart.written hread (hroom.unset hc)
    · exact hstate.written hread (hroom.unset hc)
    · exact hset (hroom.unset hc)
  · intro hshared hok
    obtain ⟨hstart, hroom⟩ := hpacked.1 hok
    rcases hshared with hread | hset
    · exact hstart.written hread (hroom.unset hc)
    · exact hset (hroom.unset hc)
  · exact run_packedSha256_eq hcoherent hstate

/-- A block of zeros and the initial state, hashed into vacant cells and then, in vain, into
the block itself. -/
theorem hashes_exactly_zeros :
    let zeros : Sha256.Block := Vector.replicate 16 0
    let registers : Registers := ⟨.origin, .origin, .origin⟩
    let cells : List Value := zeros.toList.map Value.ofWord ++
      [.address .origin, .address ⟨0, 30⟩, .address ⟨0, 40⟩]
    let s := (⟨⟨.empty 1, registers, .default⟩, .root⟩ : HintState).afterTurns
      [⟨registers, .allocate⟩, ⟨registers, .writeRange .origin cells⟩,
        ⟨registers, .writeRange ⟨0, 30⟩ (Sha256.initial.toList.map Value.ofWord)⟩]
    let start : Reference := .deref ⟨.ap, 16⟩
    let state : Reference := .deref ⟨.ap, 17⟩
    let output : Reference := .deref ⟨.ap, 18⟩
    let chunk := (sha256Chunk start state output).run s
    chunk.1 = .ok () ∧ (packedSha256 start output).run s = chunk ∧
      (∃ (block : Sha256.Block) (before : Sha256.State), s.machine.HoldsAt start block.toList ∧
        s.machine.HoldsAt state before.toList ∧
        s.WritesAt output (Sha256.compress before block).toList chunk.2) ∧
      ((sha256Chunk start state start).run s).1 ≠ .ok () := by
  intro zeros registers cells s start state output chunk
  have hok : chunk.1 = .ok () := by decide +kernel
  have hstate : s.machine.HoldsAt state Sha256.initial.toList :=
    holdsAt_of_readState (by decide +kernel)
  have hstart : start.resolveAddress s.machine = .ok .origin := by decide +kernel
  have hs : s = (⟨⟨.empty 1, registers, .default⟩, .root⟩ : HintState).afterTurns
      [⟨registers, .allocate⟩, ⟨registers, .writeRange .origin cells⟩,
        ⟨registers, .writeRange ⟨0, 30⟩ (Sha256.initial.toList.map Value.ofWord)⟩] := rfl
  have hmemory := congrArg (fun u : HintState => u.machine.memory) hs
  obtain ⟨-, -, hwrites, -, -, hsame⟩ := hashes_exactly hmemory start state output
  obtain ⟨-, -, -, -, hfails, -⟩ := hashes_exactly hmemory start state start
  have hwritten : s.machine.InWindow start 8 .origin :=
    Machine.inWindow_first hstart (by decide)
  have hread : s.machine.InWindow start 16 .origin :=
    Machine.inWindow_first hstart (by decide)
  exact ⟨hok, hsame hstate, hwrites hok, (hfails .origin hwritten).1 (.inl hread)⟩

end Builtin

end CellHints
