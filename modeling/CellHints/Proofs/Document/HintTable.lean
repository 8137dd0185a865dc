import CellHints.Document.HintTable
import CellHints.Proofs.Document.Reading
import CellHints.Proofs.Document.Shape

/-!
# Hint tables read back

The text of a hint table is read as that table: counters of any size, counters without
hints, operands and texts of any characters.  How blanks are set in the text does not
matter.  A table nests five arrays and objects, so the reader is never too deep in it.
-/

namespace CellHints

open Document (Blanks Plain Renders)

namespace HintCode

theorem ofDocument?_toDocument (depth : Nat) (code : HintCode) :
    ofDocument? depth code.toDocument = some code := by
  unfold ofDocument? toDocument
  rw [Document.bareChoice?_ofText]
  cases code <;> rfl

end HintCode

namespace HintDescriptor

variable (d : HintDescriptor) (references : Std.ExtTreeMap String String)

theorem plain_referencesDocument : Plain (referencesDocument references) := by
  refine .object fun field hfield => ?_
  obtain ⟨entry, -, rfl⟩ := List.mem_map.1 hfield
  exact .text entry.2

theorem plain_toDocument : Plain d.toDocument :=
  .object (List.forall_mem_cons.2 ⟨.text _,
    List.forall_mem_cons.2 ⟨plain_referencesDocument d.references, nofun⟩⟩)

theorem referencesOfDocument?_referencesDocument (depth : Nat) :
    referencesOfDocument? (depth + 1) (referencesDocument references) = some references := by
  have hentries : (referencesDocument references).members? Document.spoken?
      (fun _ => Document.text?) (depth + 1) = some references.toList :=
    Document.members?_ofFields id Document.ofText (fun _ _ => Document.spoken?_spell _)
      fun _ _ => Document.text?_ofText _
  unfold referencesOfDocument?
  rw [hentries]
  exact congrArg some (Document.foldl_insert_toList references)

theorem ofDocument?_toDocument (depth : Nat) : ofDocument? (depth + 2) d.toDocument = some d := by
  have hfields : d.toDocument.fields? ["code", "references"] =
      some [some d.code.toDocument, some (referencesDocument d.references)] :=
    Document.fields?_ofFields [_, _] (show ["code", "references"].Nodup by decide)
  rw [ofDocument?, hfields]
  simp only [Option.bind_eq_bind, Option.bind_some, HintCode.ofDocument?_toDocument,
    referencesOfDocument?_referencesDocument]
  rfl

end HintDescriptor

namespace HintTable

variable (t : HintTable) (hints : Std.ExtTreeMap UInt64 (List HintDescriptor))

/-- A counter is read back from its key. -/
theorem counterOfKey?_spell (pc : UInt64) :
    counterOfKey? (Document.spell (Decimal.ofNat pc.toNat)) = some pc := by
  have hdigits : (Decimal.ofNat pc.toNat).toList.all Char.isDigit = true :=
    List.all_eq_true.2 fun c hc => Decimal.isDigit_of_mem_ofNat hc
  rw [Document.spell_ofNat]
  unfold counterOfKey?
  rw [if_pos ⟨hdigits, Decimal.toList_ofNat_ne_nil _, Decimal.length_ofNat_of_head?⟩,
    Decimal.value_ofNat, Narrow.toUInt64?_eq_some_iff]

theorem plain_toDocument : Plain t.toDocument := by
  refine .object (List.forall_mem_cons.2 ⟨.object fun field hfield => ?_, nofun⟩)
  obtain ⟨entry, -, rfl⟩ := List.mem_map.1 hfield
  refine .array fun item hitem => ?_
  obtain ⟨d, -, rfl⟩ := List.mem_map.1 hitem
  exact d.plain_toDocument

theorem hintsOfDocument?_hintsDocument (depth : Nat) :
    hintsOfDocument? (depth + 4) (hintsDocument hints) = some hints := by
  have hkey : ∀ entry ∈ hints.toList,
      counterOfKey? (Document.spell (Decimal.ofNat entry.1.toNat)) = some entry.1 := fun entry _ =>
    counterOfKey?_spell entry.1
  have hrow : ∀ entry ∈ hints.toList, Document.list? HintDescriptor.ofDocument? (depth + 3)
      (.array (entry.2.map HintDescriptor.toDocument)) = some entry.2 := fun _ _ =>
    Document.list?_array fun d _ => d.ofDocument?_toDocument depth
  have hentries : (hintsDocument hints).members? counterOfKey?
      (Document.list? HintDescriptor.ofDocument?) (depth + 4) = some hints.toList := by
    unfold hintsDocument
    exact Document.members?_ofFields (fun pc : UInt64 => Decimal.ofNat pc.toNat)
      (fun ds : List HintDescriptor => .array (ds.map HintDescriptor.toDocument)) hkey hrow
  unfold hintsOfDocument?
  rw [hentries]
  exact congrArg some (Document.foldl_insert_toList hints)

theorem ofDocument?_toDocument (depth : Nat) : ofDocument? (depth + 5) t.toDocument = some t := by
  have hfields : t.toDocument.fields? ["hints"] = some [some (hintsDocument t.hints)] :=
    Document.fields?_ofFields [_] (show ["hints"].Nodup by decide)
  rw [ofDocument?, hfields]
  simp only [Option.bind_eq_bind, Option.bind_some, hintsOfDocument?_hintsDocument]
  rfl

/-- Every text of the document of a table is read as that table. -/
theorem ofJson?_of_renders {s w : List Char} (h : Renders (.value t.toDocument) s) (hw : Blanks w) :
    ofJson? (String.ofList (s ++ w)) = some t := by
  unfold ofJson? Document.readAs
  rw [Document.read_of_renders h hw]
  exact t.ofDocument?_toDocument 122

/-- A table that was written is read back. -/
theorem reads_back_toJson : ofJson? t.toJson = some t := by
  have hread := t.ofJson?_of_renders (t.plain_toDocument.renders_spread 0) (w := []) nofun
  rwa [List.append_nil] at hread

end HintTable

end CellHints
