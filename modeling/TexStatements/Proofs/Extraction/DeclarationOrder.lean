import TexStatements.Extraction
import TexStatements.Proofs.Counter.Registration
import TexStatements.Proofs.Declaration.Table
import TexStatements.Proofs.Statement.Permuted

/-!
# The order of declarations

Three passes go through the declared environments in order: the search for occurrences, the
rewriting of tags, and the registration of counters. Where the declarations are coherent their order
has no influence on any of them (`Coherent.order_irrelevant`).
-/
namespace TexStatements

open Declaration (IsDeclarable)

/-- A document with these declarations in place of its own. -/
def Document.declaring (document : Document) (declarations : List Declaration) : Document :=
  { document with declarations := (DeclarationTable.declareAll NameMap.empty declarations).1 }

/-- The declarations under names that can be declared. -/
def declarable (declarations : List Declaration) : List Declaration :=
  declarations.filter fun declaration => decide (IsDeclarable declaration.name)

/-- Declarations under names that cannot be declared are passed over. -/
theorem DeclarationTable.declareAll_declarable (table : DeclarationTable)
    (declarations : List Declaration) :
    (table.declareAll declarations).1 = (table.declareAll (declarable declarations)).1 := by
  induction declarations generalizing table with
  | nil => rfl
  | cons declaration more ih =>
    by_cases isDeclarable : IsDeclarable declaration.name
    · have kept : declarable (declaration :: more) = declaration :: declarable more :=
        List.filter_cons_of_pos (decide_eq_true isDeclarable)
      rw [kept]
      exact ih (table.declare declaration).1
    · have passed : declarable (declaration :: more) = declarable more :=
        List.filter_cons_of_neg (by simpa using isDeclarable)
      rw [passed, ← ih, declareAll, declare_of_undeclarable table isDeclarable]

section Coherent

variable {declarations : List Declaration}

/-- The declarations that can be declared are coherent as all are. -/
theorem Coherent.declarable (coherent : Coherent declarations) :
    Coherent (declarable declarations) :=
  coherent.of_subset (List.filter_subset_self _)
    ((List.filter_sublist.map Declaration.name).nodup coherent.distinct)

/-- Coherent declarations are entered as they are and in their order, those that can be. -/
theorem Coherent.values_declaring (coherent : Coherent declarations) (document : Document) :
    (document.declaring declarations).declarations.values =
      TexStatements.declarable declarations := by
  have regular : ∀ declaration ∈ TexStatements.declarable declarations, declaration.Regular := by
    intro declaration mem
    obtain ⟨declared, isDeclarable⟩ := List.mem_filter.1 mem
    rw [decide_eq_true_eq] at isDeclarable
    exact ⟨isDeclarable.1, isDeclarable.2, coherent.single declaration declared⟩
  have fresh : ∀ declaration ∈ TexStatements.declarable declarations,
      declaration.name ∉ (NameMap.empty : DeclarationTable).keys := fun _ _ => List.not_mem_nil
  obtain ⟨-, entries⟩ :=
    DeclarationTable.declareAll_of_fresh regular coherent.declarable.distinct fresh
  rw [Document.declaring, DeclarationTable.declareAll_declarable, NameMap.values, entries]
  simp [NameMap.empty, Function.comp_def]

end Coherent

/-- The order of coherent declarations is irrelevant: the same occurrences are found in the same
order, the tags of a text are rewritten to the same text, and every part of a document is numbered
by the same titles, with the same warnings about refused edges. -/
theorem Coherent.order_irrelevant {declarations permuted : List Declaration}
    (coherent : Coherent declarations) (perm : declarations.Perm permuted) :
    (∀ text,
      (locate text (declarations.map Declaration.name)).main =
          (locate text (permuted.map Declaration.name)).main ∧
        (locate text (declarations.map Declaration.name)).appendix =
          (locate text (permuted.map Declaration.name)).appendix) ∧
    (∀ text, canonicalize text (declarations.map Declaration.name) =
      canonicalize text (permuted.map Declaration.name)) ∧
    ∀ (document : Document) (markers : List SectionMarker) (options : Options)
      (occurrences : List Occurrence) (commands : List SectionMarker) (appendix : Bool),
      (NumberingPlan.new (document.declaring declarations) markers options).number occurrences
          commands appendix =
        (NumberingPlan.new (document.declaring permuted) markers options).number occurrences
          commands appendix := by
  have names := perm.map Declaration.name
  have spellable : ∀ name ∈ declarations.map Declaration.name, Environment.Spellable name :=
    List.forall_mem_map.2 coherent.readable
  refine ⟨locate_perm names coherent.distinct spellable,
    Environment.canonicalize_perm names spellable, ?_⟩
  intro document markers options occurrences commands appendix
  have kept := coherent.declarable
  have entered := coherent.values_declaring document
  have otherEntered := (coherent.perm perm).values_declaring document
  have same : (document.declaring declarations).declarations.values.Perm
      (document.declaring permuted).declarations.values := by
    rw [entered, otherEntered]
    exact perm.filter _
  rw [← entered] at kept
  let plan := NumberingPlan.new (document.declaring declarations) markers options
  exact NumberingPlan.number_eq_of_alike (plan.alike_forest kept same appendix) occurrences commands

/-- Declarations of which one is numbered within sections, one shares its counter, and one is
numbered within it. -/
def relatedDeclarations : List Declaration :=
  [{ Declaration.new "thm".toList [] false with within? := some "section".toList },
    { Declaration.new "lem".toList [] false with shared? := some "thm".toList },
    { Declaration.new "cor".toList [] false with within? := some "thm".toList }]

/-- These declarations are coherent. -/
theorem coherent_relatedDeclarations : Coherent relatedDeclarations where
  distinct := by decide
  readable := by decide
  ordinary := by
    intro declaration mem level
    cases level <;> revert declaration <;> decide
  single := by decide
  acyclic := by
    refine acyclic_of_rank (fun name =>
      if name = "cor".toList then 5 else if name = "thm".toList then 4
      else if name = "subsubsection".toList then 3 else if name = "subsection".toList then 2
      else if name = "section".toList then 1 else 0) ?_
    rintro child parent (⟨declaration, mem, rfl, within⟩ | ⟨level, high, up, rfl, rfl⟩)
    · simp only [relatedDeclarations, List.mem_cons, List.not_mem_nil, or_false] at mem
      rcases mem with rfl | rfl | rfl <;> cases within <;> decide
    · revert up
      cases level <;> cases high <;> decide

/-- Three related declarations may be given in the opposite order, so that a parent and a shared
counter are declared after they are named: a section with one statement of each is numbered in the
same way. -/
theorem Coherent.order_irrelevant_reverse :
    let statements : List Occurrence := [⟨"thm".toList, 20, 30, [], .main, 0⟩,
      ⟨"lem".toList, 40, 50, [], .main, 1⟩, ⟨"cor".toList, 60, 70, [], .main, 2⟩]
    let commands : List SectionMarker := [⟨.section, 10, false⟩]
    let titles := ["Theorem 1.1.", "Lemma 1.2.", "Corollary 1.2.1."].map String.toList
    let plan (declarations : List Declaration) :=
      NumberingPlan.new ((Document.ofText []).declaring declarations) commands Options.default
    Coherent relatedDeclarations ∧ relatedDeclarations.Perm relatedDeclarations.reverse ∧
      (plan relatedDeclarations).number statements commands false = (titles, []) ∧
      (plan relatedDeclarations.reverse).number statements commands false = (titles, []) := by
  intro statements commands titles plan
  have perm := relatedDeclarations.reverse_perm.symm
  have numbered : (plan relatedDeclarations).number statements commands false = (titles, []) := by
    decide +kernel
  have same := (coherent_relatedDeclarations.order_irrelevant perm).2.2
    (Document.ofText []) commands Options.default statements commands false
  exact ⟨coherent_relatedDeclarations, perm, numbered, same.symm.trans numbered⟩

end TexStatements
