import TexStatements.Extraction
import TexStatements.Proofs.Macro.Depth

/-!
# When extraction ends

Normalization expands the bodies of macros and, family by family, the text. Extraction has a result
exactly if the recursion into arguments ends for each of these expansions (`extract?_isSome_iff`).
It does where no macro reaches itself through defaults (`Document.ends_of_acyclic`).
-/
namespace TexStatements

open Relation

variable {raw : Text} {options : Options} {extraction : Extraction}

/-- A family at last expands the text without its definitions, by its resolved table. -/
theorem DefinitionFamily.text_mem_expansions (family : DefinitionFamily) (text : Text) :
    ((MacroTable.collect NameMap.empty family text).2.1.resolve.1,
      (MacroTable.collect NameMap.empty family text).1) ∈ family.expansions text :=
  List.mem_append_right _ (List.mem_singleton_self _)

namespace Document

/-- What the last family expands over the text that the others leave is expanded. -/
theorem mem_expansions_of_command {text : Text} {expansion : MacroTable × Text}
    (left : (DefinitionFamily.operator.expand
      (DefinitionFamily.primitive.expand (Comment.strip raw)).text).text = text)
    (mem : expansion ∈ DefinitionFamily.command.expansions text) : expansion ∈ expansions raw := by
  subst left
  exact List.mem_append_right _ mem

/-- Normalization ends if and only if the recursion into arguments does for each text that is
expanded. -/
theorem ends_iff : ends raw = true ↔
    ∀ expansion ∈ expansions raw, Acc expansion.1.Enters expansion.2 := by
  simp only [ends, List.all_eq_true, MacroTable.expand?_isSome_iff]

/-- Normalization ends where no macro reaches itself through defaults. -/
theorem ends_of_acyclic (acyclic : ∀ expansion ∈ expansions raw, ∀ name,
    ¬TransGen expansion.1.DefaultCalls name name) : ends raw = true :=
  ends_iff.2 fun expansion mem => MacroTable.acc_of_acyclic (acyclic expansion mem) expansion.2

end Document

/-- Extraction has a result where normalization ends. -/
theorem extract?_of_ends (ends : Document.ends raw = true) (options : Options) :
    extract? raw options = some (extract raw options) := if_pos ends

/-- What extraction returns are the statements of the text. -/
theorem eq_extract_of_mem (returned : extraction ∈ extract? raw options) :
    extraction = extract raw options := by
  rw [extract?, Option.mem_def, Option.ite_none_right_eq_some, Option.some.injEq] at returned
  exact returned.2.symm

/-- Extraction has a result exactly if the recursion into arguments ends for each text that is
expanded. -/
theorem extract?_isSome_iff : (extract? raw options).isSome = true ↔
    ∀ expansion ∈ Document.expansions raw, Acc expansion.1.Enters expansion.2 := by
  rw [← Document.ends_iff, extract?]
  cases Document.ends raw <;> simp

end TexStatements
