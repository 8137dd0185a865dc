import CellHints.Proofs.Hint.Grouping
import CellHints.Proofs.Hint.Lookup
import CellHints.Proofs.Success

/-!
# Loading hints

All hints of a table load or none does.  A hint loads if all its texts read, those
that it does not use as well, and the operands that its code needs are found and are
no bare cells.  Otherwise the first hint by counter, and then as they were added,
that does not load is named, with its first bad text or else its first bad look-up.
That two operands had one name is never the reason: a descriptor has one text for
each name.
-/

namespace CellHints

open Std (ExtTreeMap)

namespace HintDescriptor

/-- Whether the operands are what the texts say, name by name. -/
def Reads (d : HintDescriptor) (t : Operands) : Prop :=
  ∀ name : String, (d.references[name]?).map Reference.ofText = (t[name]?).map .ok

/-- Whether every text of a descriptor reads, and the operands that its code needs are found
and are no bare cells. -/
def Loads (d : HintDescriptor) : Prop :=
  ∃ t, d.Reads t ∧ ∀ name ∈ d.code.operandNames, ∃ r, t.FindsValue name (.ok r)

/-- Whether a hint is what a descriptor asks for: every text reads as an operand, and the
operands that the code needs are found. -/
def LoadsAs (d : HintDescriptor) (b : Builtin) : Prop :=
  b.code = d.code ∧ ∃ t, d.Reads t ∧
    List.Forall₂ (fun name r => t.FindsValue name (.ok r)) d.code.operandNames b.operands

/-- Why a descriptor does not load: its first bad text, or if there is none its first bad
look-up. -/
inductive FailsWith (d : HintDescriptor) : Fault → Prop
  | text {name text : String} {e : ReferenceError} (found : d.references[name]? = some text)
      (bad : Reference.ofText text = .error e)
      (first : ∀ other text, other < name → d.references[other]? = some text →
        ∃ r, Reference.ofText text = .ok r) :
      FailsWith d (.reference e)
  | operand {t : Operands} {front behind : List String} {name : String} {e : Fault}
      (reads : d.Reads t) (names : d.code.operandNames = front ++ name :: behind)
      (found : ∀ other ∈ front, ∃ r, t.FindsValue other (.ok r))
      (bad : t.FindsValue name (.error e)) :
      FailsWith d e

end HintDescriptor

/-! ### Texts into operands -/

namespace Operands

variable {t : Operands} {entries : List (String × String)} {last : String × String}

/-- Whether operands are what a row of texts says: every text reads, and a name has what
its text says. -/
structure Hold (t : Operands) (entries : List (String × String)) : Prop where
  read : ∀ entry ∈ entries, ∃ r, Reference.ofText entry.2 = .ok r
  found_iff : ∀ (name : String) (r : Reference), t[name]? = some r ↔
    ∃ text, (name, text) ∈ entries ∧ Reference.ofText text = .ok r

theorem hold_nil : Hold ∅ [] where
  read := nofun
  found_iff := by
    intro name r
    rw [ExtTreeMap.getElem?_empty]
    exact ⟨nofun, fun ⟨_, h, _⟩ => absurd h List.not_mem_nil⟩

theorem Hold.absent (h : t.Hold entries) (hnew : ∀ entry ∈ entries, entry.1 ≠ last.1) :
    last.1 ∉ t := by
  intro hmem
  obtain ⟨r, hr⟩ := Option.isSome_iff_exists.1 (ExtTreeMap.mem_iff_isSome_getElem?.1 hmem)
  obtain ⟨text, htext, -⟩ := (h.found_iff _ r).1 hr
  exact hnew _ htext rfl

/-- One more text, under a name that is new. -/
theorem Hold.insert (h : t.Hold entries) (hnew : ∀ entry ∈ entries, entry.1 ≠ last.1)
    {r : Reference} (hr : Reference.ofText last.2 = .ok r) :
    Hold (t.insert last.1 r) (entries ++ [last]) where
  read := by
    intro entry hentry
    rcases List.mem_append.1 hentry with hentry | hentry
    · exact h.read entry hentry
    · obtain rfl := List.mem_singleton.1 hentry
      exact ⟨r, hr⟩
  found_iff := by
    intro name r'
    rw [ExtTreeMap.getElem?_insert]
    simp only [Std.LawfulEqCmp.compare_eq_iff_eq, List.mem_append, List.mem_singleton]
    by_cases hname : last.1 = name
    · subst hname
      rw [if_pos rfl]
      constructor
      · rintro ⟨⟩
        exact ⟨last.2, Or.inr rfl, hr⟩
      · rintro ⟨text, htext | htext, hr'⟩
        · exact absurd rfl (hnew (last.1, text) htext)
        · obtain rfl : text = last.2 := congrArg Prod.snd htext
          rw [hr] at hr'
          exact congrArg some (Except.ok.inj hr')
    · rw [if_neg hname, h.found_iff]
      constructor
      · rintro ⟨text, htext, hr'⟩
        exact ⟨text, Or.inl htext, hr'⟩
      · rintro ⟨text, htext | htext, hr'⟩
        · exact ⟨text, htext, hr'⟩
        · exact absurd (congrArg Prod.fst htext).symm hname

theorem ofTexts_concat (entries : List (String × String)) (last : String × String) :
    ofTexts (entries ++ [last]) = ofTexts entries >>= fun t => t.addText last.1 last.2 := by
  unfold ofTexts
  rw [List.foldlM_append]
  simp only [List.foldlM_cons, List.foldlM_nil, bind_pure]

theorem addText_of_error {name text : String} {e : ReferenceError}
    (h : Reference.ofText text = .error e) : t.addText name text = .error (.reference e) := by
  unfold addText
  rw [h]
  rfl

theorem addText_of_ok {name text : String} {r : Reference} (h : Reference.ofText text = .ok r)
    (hnew : name ∉ t) : t.addText name text = .ok (t.insert name r) := by
  unfold addText add
  rw [h]
  simp only [bind, Except.bind, Except.mapError, if_neg hnew]

/-- Texts under different names are read up to the first bad one. -/
theorem ofTexts_cases (hdistinct : entries.Pairwise fun a b => a.1 ≠ b.1) :
    (∃ t, ofTexts entries = .ok t ∧ t.Hold entries) ∨
    ∃ front entry behind e, entries = front ++ entry :: behind ∧
      (∀ other ∈ front, ∃ r, Reference.ofText other.2 = .ok r) ∧
      Reference.ofText entry.2 = .error e ∧ ofTexts entries = .error (.reference e) := by
  induction entries using List.reverseRecOn with
  | nil => exact Or.inl ⟨∅, rfl, hold_nil⟩
  | append_singleton entries last ih =>
      rw [List.pairwise_append] at hdistinct
      obtain ⟨hdistinct, -, hlast⟩ := hdistinct
      have hnew : ∀ entry ∈ entries, entry.1 ≠ last.1 := fun entry hentry =>
        hlast entry hentry last (List.mem_singleton_self last)
      rw [ofTexts_concat]
      rcases ih hdistinct with ⟨t, ht, hhold⟩ | ⟨front, entry, behind, e, rfl, hfront, hbad, he⟩
      · rw [ht]
        cases hread : Reference.ofText last.2 with
        | error e => exact Or.inr ⟨entries, last, [], e, rfl, hhold.read, hread,
            addText_of_error hread⟩
        | ok r => exact Or.inl ⟨t.insert last.1 r, addText_of_ok hread (hhold.absent hnew),
            hhold.insert hnew hread⟩
      · refine Or.inr ⟨front, entry, behind ++ [last], e, by simp, hfront, hbad, ?_⟩
        rw [he]
        rfl

end Operands

namespace HintDescriptor

variable {d : HintDescriptor} {t : Operands}

theorem Reads.unique {u : Operands} (ht : d.Reads t) (hu : d.Reads u) : t = u := by
  apply ExtTreeMap.ext_getElem?
  intro name
  have hsame := (ht name).symm.trans (hu name)
  exact Option.map_injective (fun _ _ h => Except.ok.inj h) hsame

/-- The texts of a descriptor all read, or the first bad one is the reason why not. -/
theorem operands_cases (d : HintDescriptor) :
    (∃ t, d.operands = .ok t ∧ d.Reads t) ∨
    ∃ (name text : String) (e : ReferenceError),
      d.operands = .error (.reference e) ∧ d.references[name]? = some text ∧
      Reference.ofText text = .error e ∧ d.FailsWith (.reference e) := by
  have hdistinct : d.references.toList.Pairwise fun a b => a.1 ≠ b.1 :=
    d.references.distinct_keys_toList.imp fun h heq =>
      h (Std.LawfulEqCmp.compare_eq_iff_eq.2 heq)
  have hordered : d.references.toList.Pairwise fun a b => a.1 < b.1 :=
    d.references.ordered_keys_toList.imp fun hlt => compareOfLessAndEq_eq_lt.1 hlt
  have hmem : ∀ {name text}, (name, text) ∈ d.references.toList ↔ d.references[name]? = some text :=
    ExtTreeMap.mem_toList_iff_getElem?_eq_some
  unfold operands
  rcases Operands.ofTexts_cases hdistinct with
    ⟨t, ht, hhold⟩ | ⟨front, ⟨name, text⟩, behind, e, hsplit, hfront, hbad, he⟩
  · refine Or.inl ⟨t, ht, fun name => ?_⟩
    cases htext : d.references[name]? with
    | some text =>
        obtain ⟨r, hr⟩ := hhold.read _ (hmem.2 htext)
        rw [(hhold.found_iff name r).2 ⟨text, hmem.2 htext, hr⟩, Option.map_some, Option.map_some,
          hr]
    | none =>
        cases hr : t[name]? with
        | none => rfl
        | some r =>
            obtain ⟨text, hentry, -⟩ := (hhold.found_iff name r).1 hr
            rw [hmem.1 hentry] at htext
            contradiction
  · have hentry : (name, text) ∈ d.references.toList := by
      rw [hsplit]
      exact List.mem_append_right _ List.mem_cons_self
    refine Or.inr ⟨name, text, e, he, hmem.1 hentry, hbad, .text (hmem.1 hentry) hbad ?_⟩
    intro other text' hlt htext'
    -- A smaller name stands in front.
    rw [hsplit, List.pairwise_append, List.pairwise_cons] at hordered
    obtain ⟨-, ⟨hbehind, -⟩, -⟩ := hordered
    have hother := hmem.2 htext'
    rw [hsplit, List.mem_append, List.mem_cons] at hother
    rcases hother with hother | ⟨⟨⟩⟩ | hother
    · exact hfront _ hother
    · exact absurd hlt (String.lt_irrefl _)
    · exact absurd (String.lt_trans hlt (hbehind _ hother)) (String.lt_irrefl _)

theorem operands_eq_ok_iff : d.operands = .ok t ↔ d.Reads t := by
  rcases d.operands_cases with ⟨u, hu, hreads⟩ | ⟨name, text, e, he, hfound, hbad, -⟩
  · rw [hu]
    exact ⟨fun h => Except.ok.inj h ▸ hreads, fun h => congrArg _ (hreads.unique h)⟩
  · rw [he]
    refine ⟨nofun, fun h => ?_⟩
    have hname := h name
    rw [hfound, Option.map_some, hbad] at hname
    cases hr : t[name]? with
    | none =>
        rw [hr] at hname
        contradiction
    | some r =>
        rw [hr] at hname
        exact absurd (Option.some.inj hname) nofun

end HintDescriptor

/-! ### Operands of a code -/

namespace Builtin

variable {t : Operands} {code : HintCode} {b : Builtin} {e : Fault}

theorem eq_of_operands {a b : Builtin} (hcode : a.code = b.code)
    (hoperands : a.operands = b.operands) : a = b := by
  cases a <;> cases b <;> simp_all [code, operands]

theorem code_of_ofCode (h : ofCode t code = .ok b) : b.code = code := by
  cases code with
  | allocSegment | enterScope | exitScope =>
      cases h
      rfl
  | memcpyEnterScope | memcpyContinueCopying | finalizeSha256 =>
      obtain ⟨r, -, rfl⟩ := Except.map_eq_ok_iff.1 h
      rfl
  | packedSha256 =>
      obtain ⟨start, -, h⟩ := Except.bind_eq_ok_iff.1 h
      obtain ⟨output, -, ⟨⟩⟩ := Except.bind_eq_ok_iff.1 h
      rfl
  | sha256Chunk =>
      obtain ⟨start, -, h⟩ := Except.bind_eq_ok_iff.1 h
      obtain ⟨state, -, h⟩ := Except.bind_eq_ok_iff.1 h
      obtain ⟨output, -, ⟨⟩⟩ := Except.bind_eq_ok_iff.1 h
      rfl

/-- The operands of a hint are looked up in the order of their names. -/
theorem map_operands_ofCode (t : Operands) (code : HintCode) :
    (ofCode t code).map operands = code.operandNames.mapM t.findValue := by
  cases code with
  | allocSegment | enterScope | exitScope => rfl
  | memcpyEnterScope =>
      simp only [ofCode, HintCode.operandNames, List.mapM_cons, List.mapM_nil]
      cases t.findValue "len" <;> rfl
  | memcpyContinueCopying =>
      simp only [ofCode, HintCode.operandNames, List.mapM_cons, List.mapM_nil]
      cases t.findValue "output" <;> rfl
  | finalizeSha256 =>
      simp only [ofCode, HintCode.operandNames, List.mapM_cons, List.mapM_nil]
      cases t.findValue "sha256_ptr_end" <;> rfl
  | packedSha256 =>
      simp only [ofCode, HintCode.operandNames, List.mapM_cons, List.mapM_nil]
      cases t.findValue "sha256_start" with
      | error e => rfl
      | ok start => cases t.findValue "output" <;> rfl
  | sha256Chunk =>
      simp only [ofCode, HintCode.operandNames, List.mapM_cons, List.mapM_nil]
      cases t.findValue "sha256_start" with
      | error e => rfl
      | ok start =>
          cases t.findValue "state" with
          | error e => rfl
          | ok state => cases t.findValue "output" <;> rfl

theorem ofCode_eq_ok_iff : ofCode t code = .ok b ↔
    b.code = code ∧ code.operandNames.mapM t.findValue = .ok b.operands := by
  rw [← map_operands_ofCode, Except.map_eq_ok_iff]
  constructor
  · intro h
    exact ⟨code_of_ofCode h, b, h, rfl⟩
  · rintro ⟨hcode, a, ha, hoperands⟩
    rwa [eq_of_operands (hcode.trans (code_of_ofCode ha).symm) hoperands.symm]

theorem mapM_eq_error_of_ofCode (h : ofCode t code = .error e) :
    code.operandNames.mapM t.findValue = .error e := by
  rw [← map_operands_ofCode, h]
  rfl

end Builtin

namespace HintDescriptor

variable {d : HintDescriptor} {b : Builtin} {f : Fault}

theorem load_eq_ok_iff : d.load = .ok b ↔ d.LoadsAs b := by
  unfold load LoadsAs
  rw [Except.mapError_eq_ok_iff]
  change d.operands >>= _ = _ ↔ _
  rw [Except.bind_eq_ok_iff]
  simp only [operands_eq_ok_iff, Builtin.ofCode_eq_ok_iff, Except.mapM_eq_ok_iff,
    Operands.findValue_eq_iff]
  constructor
  · rintro ⟨t, ht, hcode, hoperands⟩
    exact ⟨hcode, t, ht, hoperands⟩
  · rintro ⟨hcode, t, ht, hoperands⟩
    exact ⟨t, ht, hcode, hoperands⟩

/-- A descriptor that does not load fails for its reason, under the name of its hint. -/
theorem failsWith_of_load (h : d.load = .error f) :
    ∃ e, f = .inHint d.code.name e ∧ d.FailsWith e := by
  unfold load at h
  obtain ⟨e, he, rfl⟩ := Except.mapError_eq_error_iff.1 h
  refine ⟨e, rfl, ?_⟩
  change d.operands >>= _ = _ at he
  rcases Except.bind_eq_error_iff.1 he with he | ⟨t, ht, he⟩
  · rcases d.operands_cases with ⟨t, ht, -⟩ | ⟨-, -, e', he', -, -, hfails⟩
    · rw [ht] at he
      contradiction
    · rw [he'] at he
      obtain rfl := Except.error.inj he
      exact hfails
  · obtain ⟨front, name, behind, hnames, hfront, hbad⟩ :=
      Except.mapM_eq_error_iff.1 (Builtin.mapM_eq_error_of_ofCode he)
    refine .operand (operands_eq_ok_iff.1 ht) hnames ?_ (Operands.findValue_eq_iff.1 hbad)
    intro other hother
    obtain ⟨r, hr⟩ := hfront other hother
    exact ⟨r, Operands.findValue_eq_iff.1 hr⟩

theorem exists_load_eq_ok_iff : (∃ b, d.load = .ok b) ↔ d.Loads := by
  constructor
  · rintro ⟨b, hb⟩
    obtain ⟨-, t, ht, hoperands⟩ := load_eq_ok_iff.1 hb
    exact ⟨t, ht, exists_of_forall₂ hoperands⟩
  · rintro ⟨t, ht, hfound⟩
    obtain ⟨rs, hrs⟩ : ∃ rs, d.code.operandNames.mapM t.findValue = .ok rs := by
      rw [Except.exists_mapM_eq_ok_iff]
      simpa only [Operands.findValue_eq_iff] using hfound
    rw [← Builtin.map_operands_ofCode] at hrs
    obtain ⟨b, hb, -⟩ := Except.map_eq_ok_iff.1 hrs
    refine ⟨b, Except.mapError_eq_ok_iff.2 ?_⟩
    exact Except.bind_eq_ok_iff.2 ⟨t, operands_eq_ok_iff.2 ht, hb⟩

/-- Operands that come from texts by name never share a name. -/
theorem FailsWith.ne_duplicateOperand {e : Fault} (h : d.FailsWith e) (name : String) :
    e ≠ .duplicateOperand name := by
  cases h with
  | text => exact nofun
  | operand reads names found bad =>
      cases bad with
      | cell => exact nofun
      | missing missing => cases missing <;> exact nofun

end HintDescriptor

/-! ### Tables -/

/-- Why a row of adds does not load: a descriptor that fails, though all under lower
counters and all that were added before it under its own load. -/
inductive HintTable.FirstFails (adds : List (UInt64 × HintDescriptor)) : Fault → Prop
  | intro {before behind : List (UInt64 × HintDescriptor)} {pc : UInt64} {d : HintDescriptor}
      {e : Fault} (split : adds = before ++ (pc, d) :: behind) (fails : d.FailsWith e)
      (earlier : ∀ a ∈ before, a.1 = pc → a.2.Loads) (lower : ∀ a ∈ adds, a.1 < pc → a.2.Loads) :
      FirstFails adds (.inHint d.code.name e)

/-- Whether a runner holds the hints of a row of adds, and no others. -/
structure Runner.Holds (r : Runner) (adds : List (UInt64 × HintDescriptor)) : Prop where
  size_eq : r.size = adds.length
  hasHints_iff : ∀ pc, r.hasHints pc = true ↔ ∃ d, (pc, d) ∈ adds
  hintsAt_eq : ∀ pc, ∃ bs, List.Forall₂ HintDescriptor.LoadsAs ((under pc adds).map (·.2)) bs ∧
    r.hintsAt pc = bs.map fun b => ⟨b.code.name, b.run⟩

namespace HintTable

theorem hints_ofAdds (adds : List (UInt64 × HintDescriptor)) :
    (ofAdds adds).hints = grouped adds := by
  induction adds using List.reverseRecOn with
  | nil => rfl
  | append_singleton adds a ih =>
      rw [grouped_concat, ← ih]
      unfold ofAdds
      rw [List.foldl_append]
      rfl

theorem entries_ofAdds (adds : List (UInt64 × HintDescriptor)) :
    (ofAdds adds).entries = listed (grouped adds) := by
  rw [← hints_ofAdds]
  rfl

/-- The first descriptor that fails in the row of a table is the first that fails by counter
and then as they were added. -/
theorem firstFails_of_split {adds front behind : List (UInt64 × HintDescriptor)} {pc : UInt64}
    {d : HintDescriptor} {e : Fault} (hsplit : listed (grouped adds) = front ++ (pc, d) :: behind)
    (hfront : ∀ a ∈ front, a.2.Loads) (hfails : d.FailsWith e) :
    FirstFails adds (.inHint d.code.name e) := by
  have hunder : under pc front ++ (pc, d) :: under pc behind = under pc adds := by
    rw [← under_listed_grouped adds pc, hsplit]
    unfold under
    simp
  obtain ⟨before, rest, rfl, hbefore, hrest⟩ := List.filter_eq_append_iff.1 hunder.symm
  obtain ⟨skipped, behind', rfl, hskipped, -, -⟩ := List.filter_eq_cons_iff.1 hrest
  have hsplit' : before ++ (skipped ++ (pc, d) :: behind') =
      (before ++ skipped) ++ (pc, d) :: behind' := (List.append_assoc ..).symm
  refine .intro hsplit' hfails ?_ ?_
  · intro a ha hpc
    rcases List.mem_append.1 ha with ha | ha
    · have hmem : a ∈ under pc front := by
        rw [← hbefore]
        exact List.mem_filter.2 ⟨ha, decide_eq_true hpc⟩
      exact hfront a (List.mem_of_mem_filter hmem)
    · exact absurd (decide_eq_true hpc) (hskipped a ha)
  · intro a ha hlt
    -- What is listed behind has no lower counter.
    have hordered := pairwise_listed (grouped (before ++ (skipped ++ (pc, d) :: behind')))
    rw [← mem_listed_grouped_iff, hsplit, List.mem_append, List.mem_cons] at ha
    rw [hsplit, List.pairwise_append, List.pairwise_cons] at hordered
    obtain ⟨-, ⟨hbehind, -⟩, -⟩ := hordered
    rcases ha with ha | rfl | ha
    · exact hfront a ha
    · exact absurd hlt (UInt64.lt_irrefl _)
    · exact absurd (hbehind a ha) (UInt64.not_le.2 hlt)

end HintTable

namespace Runner

/-- Whether an entry of a runner is what an entry of a table asks for. -/
def Became (entry : UInt64 × HintDescriptor) (x : UInt64 × Hint) : Prop :=
  ∃ b, entry.2.LoadsAs b ∧ x = (entry.1, b.hint)

variable {t : HintTable} {entries : List (UInt64 × HintDescriptor)} {loaded : List (UInt64 × Hint)}

theorem load_eq_ok_iff_became {entry : UInt64 × HintDescriptor} {x : UInt64 × Hint} :
    (entry.2.load.map fun b => (entry.1, b.hint)) = .ok x ↔ Became entry x := by
  rw [Except.map_eq_ok_iff]
  constructor
  · rintro ⟨b, hb, rfl⟩
    exact ⟨b, HintDescriptor.load_eq_ok_iff.1 hb, rfl⟩
  · rintro ⟨b, hb, rfl⟩
    exact ⟨b, HintDescriptor.load_eq_ok_iff.2 hb, rfl⟩

theorem ofTable_eq_ok_iff {r : Runner} : ofTable t = .ok r ↔
    ∃ loaded, List.Forall₂ Became t.entries loaded ∧ r = ofHints loaded := by
  unfold ofTable
  rw [Except.bind_eq_ok_iff]
  simp only [Except.mapM_eq_ok_iff, load_eq_ok_iff_became]
  constructor
  · rintro ⟨loaded, hloaded, ⟨⟩⟩
    exact ⟨loaded, hloaded, rfl⟩
  · rintro ⟨loaded, hloaded, rfl⟩
    exact ⟨loaded, hloaded, rfl⟩

/-- What is under a counter comes from what was under that counter. -/
theorem became_under (h : List.Forall₂ Became entries loaded) (pc : UInt64) :
    List.Forall₂ Became (under pc entries) (under pc loaded) := by
  unfold under
  refine List.rel_filter (R := Became) ?_ h
  rintro entry x ⟨b, -, rfl⟩
  rfl

theorem exists_hints_of_became (h : List.Forall₂ Became entries loaded) :
    ∃ bs, List.Forall₂ HintDescriptor.LoadsAs (entries.map (·.2)) bs ∧
      loaded.map (·.2) = bs.map fun b => ⟨b.code.name, b.run⟩ := by
  induction h with
  | nil => exact ⟨[], .nil, rfl⟩
  | cons hentry _ ih =>
      obtain ⟨b, hb, rfl⟩ := hentry
      obtain ⟨bs, hbs, hloaded⟩ := ih
      exact ⟨b :: bs, .cons hb hbs, congrArg (b.hint :: ·) hloaded⟩

theorem counters_of_became (h : List.Forall₂ Became entries loaded) :
    loaded.map (·.1) = entries.map (·.1) := by
  induction h with
  | nil => rfl
  | cons hentry _ ih =>
      obtain ⟨b, -, rfl⟩ := hentry
      exact congrArg (_ :: ·) ih

theorem holds_ofHints {adds : List (UInt64 × HintDescriptor)}
    (h : List.Forall₂ Became (HintTable.ofAdds adds).entries loaded) :
    (ofHints loaded).Holds adds where
  size_eq := by
    have hsize : (ofHints loaded).size = (listed (grouped loaded)).length := by
      show ((grouped loaded).toList.flatMap fun entry => entry.2).length = _
      simp [listed, List.length_flatMap]
    rw [hsize, length_listed_grouped, ← h.length_eq, HintTable.entries_ofAdds,
      length_listed_grouped]
  hasHints_iff := by
    intro pc
    have hcounters := counters_of_became h
    show (grouped loaded).contains pc = true ↔ _
    rw [contains_grouped_iff]
    have hmem : ∀ {α : Type} {row : List (UInt64 × α)},
        (∃ x, (pc, x) ∈ row) ↔ pc ∈ row.map (·.1) := by
      intro α row
      simp
    rw [hmem, hcounters, ← hmem, HintTable.entries_ofAdds]
    simp only [mem_listed_grouped_iff]
  hintsAt_eq := by
    intro pc
    obtain ⟨bs, hbs, hhints⟩ := exists_hints_of_became (became_under h pc)
    rw [HintTable.entries_ofAdds, under_listed_grouped] at hbs
    exact ⟨bs, hbs, (getD_grouped loaded pc).trans hhints⟩

theorem exists_ofTable_eq_ok_iff :
    (∃ r, ofTable t = .ok r) ↔ ∀ entry ∈ t.entries, entry.2.Loads := by
  simp only [← HintDescriptor.exists_load_eq_ok_iff]
  have hload : ∀ entry : UInt64 × HintDescriptor, (∃ b, entry.2.load = .ok b) ↔
      ∃ x, (entry.2.load.map fun b => (entry.1, b.hint)) = .ok x := by
    intro entry
    cases entry.2.load <;> simp [Except.map]
  simp only [hload]
  rw [← Except.exists_mapM_eq_ok_iff]
  unfold ofTable
  cases t.entries.mapM fun entry => entry.2.load.map fun b => (entry.1, b.hint) <;>
    simp [bind, Except.bind, pure, Except.pure]

/-- A table that is not loaded has a first descriptor that fails. -/
theorem exists_split_of_ofTable {f : Fault} (h : ofTable t = .error f) :
    ∃ front entry behind e, t.entries = front ++ entry :: behind ∧
      (∀ other ∈ front, other.2.Loads) ∧ f = .inHint entry.2.code.name e ∧ entry.2.FailsWith e := by
  unfold ofTable at h
  rcases Except.bind_eq_error_iff.1 h with h | ⟨_, _, ⟨⟩⟩
  obtain ⟨front, entry, behind, hsplit, hfront, hbad⟩ := Except.mapM_eq_error_iff.1 h
  have hload : entry.2.load = .error f := by
    cases hentry : entry.2.load with
    | ok b =>
        rw [hentry] at hbad
        contradiction
    | error f' =>
        rw [hentry] at hbad
        cases hbad
        rfl
  obtain ⟨e, rfl, hfails⟩ := HintDescriptor.failsWith_of_load hload
  refine ⟨front, entry, behind, e, hsplit, fun other hother => ?_, rfl, hfails⟩
  obtain ⟨x, hx⟩ := hfront other hother
  obtain ⟨b, hb, -⟩ := Except.map_eq_ok_iff.1 hx
  exact HintDescriptor.exists_load_eq_ok_iff.1 ⟨b, hb⟩

/-- A table loads exactly if each of its descriptors does, and then the runner holds their
hints and no others.  Otherwise the fault is that of the first descriptor that fails, and
never that two operands had one name. -/
theorem ofTable_ofAdds (adds : List (UInt64 × HintDescriptor)) :
    ((∃ r, ofTable (.ofAdds adds) = .ok r) ↔ ∀ a ∈ adds, a.2.Loads) ∧
    (∀ r, ofTable (.ofAdds adds) = .ok r → r.Holds adds) ∧
    ∀ f, ofTable (.ofAdds adds) = .error f → HintTable.FirstFails adds f ∧
      ∀ hint name, f ≠ .inHint hint (.duplicateOperand name) := by
  refine ⟨?_, ?_, ?_⟩
  · rw [exists_ofTable_eq_ok_iff, HintTable.entries_ofAdds]
    simp only [mem_listed_grouped_iff]
  · intro r hr
    obtain ⟨loaded, hloaded, rfl⟩ := ofTable_eq_ok_iff.1 hr
    exact holds_ofHints hloaded
  · intro f hf
    obtain ⟨front, ⟨pc, d⟩, behind, e, hsplit, hfront, rfl, hfails⟩ := exists_split_of_ofTable hf
    rw [HintTable.entries_ofAdds] at hsplit
    refine ⟨HintTable.firstFails_of_split hsplit hfront hfails, ?_⟩
    intro hint name heq
    exact hfails.ne_duplicateOperand name (Fault.inHint.inj heq).2

/-- The hint that fails under the lower counter is the one that is named, though it was
added last. -/
theorem ofTable_ofAdds_lower_counter :
    let loop := HintDescriptor.ofCode .memcpyEnterScope
    let copy := loop.withReference "main.len" "cast([fp], felt)"
    let bare := loop.withReference "main.len" "cast(fp, felt)"
    let good := [(9, .ofCode .exitScope), (4, copy), (9, copy)]
    let bad := good ++ [(7, .ofCode .finalizeSha256), (4, bare)]
    (∃ r, ofTable (.ofAdds good) = .ok r ∧ r.Holds good) ∧
    HintTable.FirstFails bad (.inHint "MemcpyEnterScope" (.operandIsCell "len")) := by
  intro loop copy bare good bad
  constructor
  · have hok : (ofTable (.ofAdds good)).isOk = true := by decide +kernel
    obtain ⟨-, hholds, -⟩ := ofTable_ofAdds good
    cases hload : ofTable (.ofAdds good) with
    | error e =>
        rw [hload] at hok
        contradiction
    | ok r => exact ⟨r, rfl, hholds r hload⟩
  · have herror : (ofTable (.ofAdds bad)).map (fun _ => ()) =
        .error (.inHint "MemcpyEnterScope" (.operandIsCell "len")) := by decide +kernel
    obtain ⟨-, -, hfails⟩ := ofTable_ofAdds bad
    cases hload : ofTable (.ofAdds bad) with
    | error e =>
        rw [hload] at herror
        cases herror
        exact (hfails _ hload).1
    | ok r =>
        rw [hload] at herror
        contradiction

end Runner

end CellHints
