import Mathlib.Logic.Function.Iterate
import TexStatements.Proofs.Macro.Constant
import TexStatements.Proofs.Macro.Resolution

/-!
# Resolution and repeated expansion

For macros without parameters whose bodies join nothing around their calls, expansion by a resolved
table is what repeated expansion by the unresolved one comes to. A settled order bounds the number
of passes: each pass takes the last of its names out of the text (`absent_iterate`), and none of
them changes what the resolved table makes of the text (`expand_resolve_iterate`).
-/
namespace TexStatements
namespace MacroTable

open ControlSequence Token Relation

/-- A table of constant macros whose bodies do not start with letters. -/
structure Gentle (table : MacroTable) : Prop extends Constants table where
  /-- No body starts with a letter. -/
  gentle : ∀ definition ∈ table.values, endsControlWord definition.body = true

instance (table : MacroTable) : Decidable table.Gentle :=
  decidable_of_iff
    (table.Constants ∧ ∀ definition ∈ table.values, endsControlWord definition.body = true)
    ⟨fun ⟨constants, gentle⟩ => ⟨constants, gentle⟩, fun all => ⟨all.toConstants, all.gentle⟩⟩

variable {table : MacroTable} {name text : Text}

/-- Without parameters there are no defaults. -/
theorem Constants.plainDefaults (constants : table.Constants) : table.PlainDefaults := by
  intro definition mem parameter inParameters
  rw [(constants.constant definition mem).parameters] at inParameters
  cases inParameters

/-- What a gentle table puts in is read back. -/
theorem Gentle.ofText_expand (gentle : table.Gentle) (text : Text) :
    ofText (table.expand text) = (ofText text).flatMap table.becomes := by
  have apart := gentle.toConstants.apart_of_gentle gentle.gentle text
  rw [gentle.toConstants.expand_eq, (gentle.toConstants.legible_flatMap apart).ofText_spell]

/-- A gentle table replaces the control sequences of a text one by one. -/
theorem Gentle.names_expand (gentle : table.Gentle) (text : Text) :
    ControlSequence.names (table.expand text) =
      (ControlSequence.names text).flatMap table.namesFor := by
  rw [← names_ofText, gentle.ofText_expand, names_flatMap_becomes, names_ofText]

/-- Expansion brings in only characters of bodies. -/
theorem Constants.mem_expand (constants : table.Constants) {c : Char}
    (mem : c ∈ table.expand text) :
    c ∈ text ∨ ∃ definition ∈ table.values, c ∈ definition.body := by
  rw [constants.expand_eq] at mem
  obtain ⟨token, inRow, mem⟩ := List.mem_flatMap.1 mem
  obtain ⟨source, inText, inRow⟩ := List.mem_flatMap.1 inRow
  have kept (same : token = source) : c ∈ text := by
    rw [← spell_ofText text]
    exact List.mem_flatMap.2 ⟨source, inText, same ▸ mem⟩
  cases source with
  | character d => exact .inl (kept (List.mem_singleton.1 inRow))
  | sequence name =>
    cases found : NameMap.find? table name with
    | none =>
      rw [becomes_of_absent found] at inRow
      exact .inl (kept (List.mem_singleton.1 inRow))
    | some definition =>
      rw [becomes_of_find? found] at inRow
      refine .inr ⟨definition, NameMap.mem_values_of_find? found, ?_⟩
      rw [← spell_ofText definition.body]
      exact List.mem_flatMap.2 ⟨token, inRow, mem⟩

/-- Expanding the body of a macro of a gentle table keeps it constant. -/
theorem Gentle.constant_expand (gentle : table.Gentle) {definition : Macro}
    (constant : definition.Constant) :
    Macro.Constant { definition with body := table.expand definition.body } where
  parameters := constant.parameters
  word := constant.word
  literal mem := by
    rcases gentle.toConstants.mem_expand mem with inBody | ⟨other, inTable, inOther⟩
    · exact constant.literal inBody
    · exact (gentle.constant other inTable).literal inOther
  paired unpaired := by
    rw [endsUnpaired_iff, gentle.ofText_expand] at unpaired
    exact constant.paired (endsUnpaired_iff.2 (gentle.toConstants.backslash_mem unpaired))

/-- A gentle table stays gentle when a body is expanded. -/
theorem Gentle.resolveBody (gentle : table.Gentle) (name : Text) :
    (table.resolveBody name).Gentle := by
  have each : ∀ other definition, NameMap.find? (table.resolveBody name) other = some definition →
      definition.Constant ∧ endsControlWord definition.body = true := by
    intro other definition found
    rw [find?_resolveBody gentle.keyed] at found
    split at found
    · obtain ⟨original, inTable, rfl⟩ := Option.map_eq_some_iff.1 found
      refine ⟨gentle.constant_expand (gentle.of_find? inTable), ?_⟩
      rw [gentle.toConstants.expand_eq]
      exact gentle.toConstants.endsControlWord_spell gentle.gentle
        (gentle.gentle original (NameMap.mem_values_of_find? inTable))
    · exact ⟨gentle.of_find? found, gentle.gentle definition (NameMap.mem_values_of_find? found)⟩
  exact ⟨⟨gentle.keyed.resolveBody name,
      NameMap.forall_mem_values.2 fun other definition found => (each other definition found).1⟩,
    NameMap.forall_mem_values.2 fun other definition found => (each other definition found).2⟩

/-- The kept macros of a gentle table are gentle. -/
theorem Gentle.kept (gentle : table.Gentle) : table.kept.Gentle := by
  refine ⟨⟨gentle.keyed.eraseAll _, ?_⟩, ?_⟩
  · exact NameMap.forall_mem_values.2 fun name definition found =>
      gentle.of_find? (of_find?_kept found).2
  · exact NameMap.forall_mem_values.2 fun name definition found =>
      gentle.gentle definition (NameMap.mem_values_of_find? (of_find?_kept found).2)

/-- A resolved gentle table is gentle. -/
theorem Gentle.resolve (gentle : table.Gentle) : table.resolve.1.Gentle := by
  have steps : ∀ (names : List Text) (current : MacroTable), current.Gentle →
      (names.foldl MacroTable.resolveBody current).Gentle := by
    intro names
    induction names with
    | nil => exact fun _ gentle => gentle
    | cons name names ih => exact fun current gentle => ih _ (gentle.resolveBody name)
  exact steps _ _ gentle.kept

/-- As many passes as names are listed take these names out of a text that calls no others. -/
theorem Gentle.absent_iterate (gentle : table.Gentle) {listed : List Text}
    (settled : Settled table.callees listed) (only : ∀ name ∈ ControlSequence.names text,
      NameMap.contains table name = true → name ∈ listed) :
    ∀ name ∈ ControlSequence.names (table.expand^[listed.length] text),
      NameMap.find? table name = none := by
  induction settled generalizing text with
  | nil =>
    intro name mem
    rw [NameMap.find?_eq_none_iff, Bool.eq_false_iff]
    exact fun inside => List.not_mem_nil (only name mem inside)
  | @concat listed last before fresh behind ih =>
    rw [List.length_append, List.length_singleton, Function.iterate_succ_apply]
    -- After the first pass the text calls only what is listed before the last name.
    refine ih fun callee mem inside => ?_
    rw [gentle.names_expand, List.mem_flatMap] at mem
    obtain ⟨name, called, mem⟩ := mem
    unfold namesFor at mem
    cases found : NameMap.find? table name with
    | none =>
      simp only [found, List.mem_singleton] at mem
      rw [mem, NameMap.contains, found] at inside
      cases inside
    | some definition =>
      simp only [found] at mem
      have calls : callee ∈ table.callees name := mem_callees.2 ⟨definition, found, mem, inside⟩
      rcases List.mem_append.1 (only name called (NameMap.contains_of_find? found)) with
        earlier | isLast
      · exact before.closed earlier calls
      · exact behind callee (List.mem_singleton.1 isLast ▸ calls)

/-- Repeated expansion by the kept macros ends with a text that calls none of them. -/
theorem Gentle.exists_absent (gentle : table.Gentle) (text : Text) :
    ∃ passes, ∀ name ∈ ControlSequence.names (table.kept.expand^[passes] text),
      NameMap.find? table.kept name = none := by
  refine ⟨table.kept.resolutionOrder.length,
    gentle.kept.absent_iterate (resolutionOrder_settled (kept_acyclic table)) ?_⟩
  exact fun name _ inside =>
    (mem_resolutionOrder (kept_acyclic table)).2 (NameMap.contains_iff.1 inside)

/-- A resolved body is what the resolved table puts in for the unresolved one. -/
theorem Gentle.flatMap_becomes (gentle : table.Gentle) (token : Token) :
    (table.kept.becomes token).flatMap table.resolve.1.becomes = table.resolve.1.becomes token := by
  have stays (same : table.kept.becomes token = [token]) :
      (table.kept.becomes token).flatMap table.resolve.1.becomes =
        table.resolve.1.becomes token := by
    rw [same, List.flatMap_singleton]
  cases token with
  | character c => exact stays rfl
  | sequence name =>
    have final := find?_resolve gentle.keyed gentle.toConstants.plainDefaults name
    cases found : NameMap.find? table.kept name with
    | none => exact stays (becomes_of_absent found)
    | some original =>
      rw [found, Option.map_some] at final
      rw [becomes_of_find? found, becomes_of_find? final, gentle.resolve.ofText_expand]

/-- A pass by the unresolved macros changes nothing for the resolved ones. -/
theorem Gentle.expand_resolve (gentle : table.Gentle) (text : Text) :
    table.resolve.1.expand (table.kept.expand text) = table.resolve.1.expand text := by
  rw [gentle.resolve.toConstants.expand_eq, gentle.resolve.toConstants.expand_eq text,
    gentle.kept.ofText_expand, List.flatMap_assoc]
  simp only [gentle.flatMap_becomes]

/-- No number of passes by the unresolved macros changes anything for the resolved ones. -/
theorem Gentle.expand_resolve_iterate (gentle : table.Gentle) (passes : Nat) (text : Text) :
    table.resolve.1.expand (table.kept.expand^[passes] text) = table.resolve.1.expand text := by
  induction passes generalizing text with
  | zero => rfl
  | succ passes ih => rw [Function.iterate_succ_apply, ih, gentle.expand_resolve]

/-- A text without calls of kept macros is expanded to itself, by the resolved macros as well. -/
theorem Gentle.expand_of_absent (gentle : table.Gentle)
    (absent : ∀ name ∈ ControlSequence.names text, NameMap.find? table.kept name = none) :
    table.kept.expand text = text ∧ table.resolve.1.expand text = text := by
  refine ⟨MacroTable.expand_of_absent gentle.kept.toConstants.plainDefaults absent,
    MacroTable.expand_of_absent gentle.resolve.toConstants.plainDefaults fun name mem => ?_⟩
  rw [find?_resolve gentle.keyed gentle.toConstants.plainDefaults, absent name mem,
    Option.map_none]

/-- One pass by a resolved table is repeated expansion by the unresolved macros that survive. The
text that it makes calls no surviving macro and is left as it is by a second pass; repeated
expansion stops changing the text after finitely many passes, and then has made the same text. -/
theorem expand_resolve_eq_iterate (gentle : table.Gentle) (text : Text) :
    (∀ name, NameMap.find? table.kept name =
      if NameMap.contains table.resolve.1 name then NameMap.find? table name else none) ∧
    (∀ name ∈ ControlSequence.names (table.resolve.1.expand text),
      NameMap.contains table.resolve.1 name = false) ∧
    table.resolve.1.expand (table.resolve.1.expand text) = table.resolve.1.expand text ∧
    (∃ passes, table.kept.expand^[passes + 1] text = table.kept.expand^[passes] text) ∧
    ∀ passes, table.kept.expand^[passes + 1] text = table.kept.expand^[passes] text →
      table.kept.expand^[passes] text = table.resolve.1.expand text := by
  have survives := contains_resolve gentle.keyed gentle.toConstants.plainDefaults
  obtain ⟨passes, absent⟩ := gentle.exists_absent text
  obtain ⟨fixed, resolved⟩ := gentle.expand_of_absent absent
  have reached : table.resolve.1.expand text = table.kept.expand^[passes] text := by
    rw [← gentle.expand_resolve_iterate passes, resolved]
  refine ⟨fun name => ?_, fun name mem => ?_, ?_, ⟨passes, ?_⟩, fun other still => ?_⟩
  · rw [survives, NameMap.contains]
    have kept := find?_kept table name
    split at kept
    · simp [kept]
    · rw [kept]
      cases NameMap.find? table name <;> rfl
  · rw [reached] at mem
    rw [survives, ← NameMap.find?_eq_none_iff]
    exact absent name mem
  · rw [reached, resolved]
  · rw [Function.iterate_succ_apply', fixed]
  · rw [Function.iterate_succ_apply'] at still
    obtain ⟨more, absentLater⟩ := gentle.exists_absent (table.kept.expand^[other] text)
    rw [Function.iterate_fixed still] at absentLater
    rw [← gentle.expand_resolve_iterate other, (gentle.expand_of_absent absentLater).2]

/-- Macros that call each other in a row, the middle one twice. -/
def chained : MacroTable := ofMacros
  [.plain "a".toList "(\\b\\b)".toList, .plain "b".toList "-\\c".toList,
    .plain "c".toList "\\mathbf".toList]

/-- Three passes by these macros, or one by the resolved ones, make this of a text. -/
theorem expand_resolve_eq_iterate_chained : chained.Gentle ∧
    chained.resolve.1.expand "\\a x".toList = "(-\\mathbf-\\mathbf) x".toList := by
  have gentle : chained.Gentle := by decide +kernel
  have all : chained.kept = chained := by
    refine kept_eq_self (selfReferential_eq_nil
      (acyclic_of_upwards chained (fun name => (name.headD 'a').toNat) ?_))
    decide +kernel
  obtain ⟨-, -, -, -, same⟩ := expand_resolve_eq_iterate gentle "\\a x".toList
  rw [all] at same
  have still : chained.expand^[3 + 1] "\\a x".toList = chained.expand^[3] "\\a x".toList := by
    decide +kernel
  refine ⟨gentle, (same 3 still).symm.trans ?_⟩
  decide +kernel

end MacroTable
end TexStatements
