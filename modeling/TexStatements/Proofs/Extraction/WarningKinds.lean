import TexStatements.Extraction
import TexStatements.Proofs.Counter.Replay

/-!
# Kinds of warnings

Every pass warns of its own kinds of problems only: definitions that are not closed or lead back to
themselves, declarations that repeat or contradict one another, and refused counter edges. A number
of bodies that differs from that of the headings is noticed by the last pass alone.
-/
namespace TexStatements

/-- Warnings of the listed kinds only. -/
def Warning.OfKinds (kinds : List WarningKind) (warnings : List Warning) : Prop :=
  ∀ warning ∈ warnings, warning.kind ∈ kinds

namespace Warning.OfKinds

variable {kinds more : List WarningKind} {warnings others : List Warning}

/-- No warning is of any kind. -/
theorem nil : Warning.OfKinds kinds [] := fun _ mem => absurd mem List.not_mem_nil

/-- Warnings in a row are of the kinds of both. -/
theorem append (first : Warning.OfKinds kinds warnings) (second : Warning.OfKinds kinds others) :
    Warning.OfKinds kinds (warnings ++ others) := by
  intro warning mem
  rcases List.mem_append.1 mem with isFirst | isSecond
  · exact first warning isFirst
  · exact second warning isSecond

/-- One more warning of a listed kind. -/
theorem cons {warning : Warning} (listed : warning.kind ∈ kinds)
    (rest : Warning.OfKinds kinds warnings) : Warning.OfKinds kinds (warning :: warnings) := by
  intro other mem
  rcases List.mem_cons.1 mem with rfl | isRest
  · exact listed
  · exact rest other isRest

/-- More kinds may be listed. -/
theorem mono (holds : Warning.OfKinds kinds warnings) (listed : kinds ⊆ more) :
    Warning.OfKinds more warnings := fun warning mem => listed (holds warning mem)

end Warning.OfKinds

open Warning (OfKinds)

/-- Kinds of warnings about macro definitions. -/
def macroKinds : List WarningKind := [.unterminatedDefinition, .selfReferentialMacro]

/-- Kinds of warnings about declarations. -/
def declarationKinds : List WarningKind :=
  [.unterminatedDefinition, .duplicateDeclaration, .conflictingCounter]

/-- Kinds of warnings that the normalization of a document gives. -/
def documentKinds : List WarningKind := macroKinds ++ declarationKinds

/-- A step of a collection pass warns of definitions that are not closed. -/
theorem Collection.step_warnings (family : DefinitionFamily) {state : Collection}
    (found : Found Keyword) (holds : OfKinds macroKinds state.warnings) :
    OfKinds macroKinds (state.step family found).warnings := by
  unfold Collection.step
  split
  · exact holds
  · split
    · exact holds
    · exact holds.cons (by simp [Warning.kind, macroKinds])
    · exact holds

/-- Carrying out a family of definitions warns of macro definitions. -/
theorem DefinitionFamily.expand_warnings (family : DefinitionFamily) (text : Text) :
    OfKinds macroKinds (family.expand text).warnings := by
  refine .append ?_ ?_
  · intro warning mem
    have run : OfKinds macroKinds (((keyword family.words.contains).occurrences text).foldl
        (Collection.step family) ⟨text, [], NameMap.empty, []⟩).warnings :=
      List.foldlRecOn (motive := fun state : Collection => OfKinds macroKinds state.warnings)
        _ _ .nil fun _ holds found _ => Collection.step_warnings family found holds
    exact run warning (List.mem_reverse.1 mem)
  · intro warning mem
    obtain ⟨name, -, rfl⟩ := List.mem_map.1 mem
    simp [Warning.kind, macroKinds]

namespace DeclarationTable

/-- Entering a declaration warns of a repeated name or of contradictory counters. -/
theorem declare_warnings (table : DeclarationTable) (declaration : Declaration) :
    OfKinds declarationKinds (table.declare declaration).2 := by
  unfold declare
  split
  · exact .nil
  · split
    · exact .cons (by simp [Warning.kind, declarationKinds]) .nil
    · split
      · exact .cons (by simp [Warning.kind, declarationKinds]) .nil
      · exact .nil

/-- Entering declarations warns of declarations. -/
theorem declareAll_warnings (table : DeclarationTable) (declarations : List Declaration) :
    OfKinds declarationKinds (table.declareAll declarations).2 := by
  induction declarations generalizing table with
  | nil => exact .nil
  | cons declaration more ih => exact (declare_warnings table declaration).append (ih _)

/-- Entering the declaration of a wrapper warns of declarations. -/
theorem enter_warnings (wrapper : Wrapper) (table : DeclarationTable) :
    OfKinds declarationKinds (wrapper.enter table).2 := by
  unfold Wrapper.enter
  split
  · exact declare_warnings table _
  · exact .nil

/-- A step of the removal of environment definitions warns of declarations. -/
theorem step_warnings {state : WrapperRemoval} (found : Found Keyword)
    (holds : OfKinds declarationKinds state.warnings) :
    OfKinds declarationKinds (state.step found).warnings := by
  unfold WrapperRemoval.step
  split
  · exact holds
  · split
    · exact holds
    · exact holds.append (.cons (by simp [Warning.kind, declarationKinds]) .nil)
    · exact holds.append (enter_warnings _ _)

/-- Resolving wrappers warns of declarations. -/
theorem resolveWrappers_warnings (table : DeclarationTable) (text : Text) :
    OfKinds declarationKinds (table.resolveWrappers text).2.2 :=
  List.foldlRecOn (motive := fun state : WrapperRemoval => OfKinds declarationKinds state.warnings)
    _ _ .nil fun _ holds found _ => step_warnings found holds

end DeclarationTable

/-- Normalizing a document warns of definitions and declarations. -/
theorem Document.ofText_warnings (raw : Text) : OfKinds documentKinds (ofText raw).warnings := by
  have macros : macroKinds ⊆ documentKinds := List.subset_append_left _ _
  have declarations : declarationKinds ⊆ documentKinds := List.subset_append_right _ _
  refine ((((DefinitionFamily.expand_warnings _ _).mono macros).append
    ((DefinitionFamily.expand_warnings _ _).mono macros)).append
    ((DefinitionFamily.expand_warnings _ _).mono macros)).append ?_ |>.append ?_
  · exact (DeclarationTable.declareAll_warnings _ _).mono declarations
  · exact (DeclarationTable.resolveWrappers_warnings _ _).mono declarations

namespace CounterForest

/-- A refused edge is a cycle of counters. -/
theorem numberWithin_warnings {forest : CounterForest}
    (holds : OfKinds [.counterCycle] forest.warnings) (child parent : Text) :
    OfKinds [.counterCycle] (forest.numberWithin child parent).1.warnings := by
  unfold numberWithin
  dsimp only
  split
  · simp only [warnings_ensure]
    exact holds.append (.cons (List.mem_cons_self ..) .nil)
  · simpa only [warnings_ensure] using holds

/-- Registering an environment warns of cycles of counters. -/
theorem define_warnings {forest : CounterForest}
    (holds : OfKinds [.counterCycle] forest.warnings) (declaration : Declaration) :
    OfKinds [.counterCycle] (forest.define declaration).warnings := by
  rw [← warnings_ensure forest declaration.counter] at holds
  unfold define
  dsimp only
  split
  · exact numberWithin_warnings holds _ _
  · exact holds

end CounterForest

namespace NumberingPlan

/-- Numbering a part of a document warns of cycles of counters. -/
theorem number_warnings (plan : NumberingPlan) (occurrences : List Occurrence)
    (markers : List SectionMarker) (appendix : Bool) :
    OfKinds [.counterCycle] (plan.number occurrences markers appendix).2 :=
  forest_induction (motive := fun forest => OfKinds [.counterCycle] forest.warnings) plan appendix
    .nil (fun _ child parent holds => CounterForest.numberWithin_warnings holds child parent)
    (fun _ declaration _ holds => CounterForest.define_warnings holds declaration)

/-- Every occurrence has a heading. -/
theorem length_headings (forest : CounterForest) (markers : List SectionMarker)
    (occurrences : List Occurrence) :
    (headings forest markers occurrences).length = occurrences.length := by
  induction occurrences generalizing forest markers with
  | nil => rfl
  | cons occurrence occurrences ih => rw [headings, List.length_cons, ih, List.length_cons]

/-- Numbering a part of a document gives one heading for each occurrence. -/
@[simp] theorem length_number (plan : NumberingPlan) (occurrences : List Occurrence)
    (markers : List SectionMarker) (appendix : Bool) :
    (plan.number occurrences markers appendix).1.length = occurrences.length :=
  length_headings _ _ occurrences

end NumberingPlan

end TexStatements
