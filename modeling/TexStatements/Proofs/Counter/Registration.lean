import Mathlib.Data.List.Induction
import TexStatements.Proofs.Counter.Alike
import TexStatements.Proofs.Counter.Replay
import TexStatements.Proofs.Statement.Outline

/-!
# The order of registration

Declarations are registered in a forest one after another, and each may give its counter a parent.
Where the names are distinct and no parent leads back to where it came from, no edge is refused or
replaced by a later one, and the forest has the edges that the declarations say. These are the same
in whatever order they come, so the forests count alike.
-/
namespace TexStatements

/-- A declaration gives its counter this parent. -/
def DeclaredParent (declarations : List Declaration) (child parent : Text) : Prop :=
  ∃ declaration ∈ declarations, declaration.counter = child ∧ declaration.within? = some parent

/-- Two sectioning levels of which one is numbered within the other. Chapters are included also
where a document has none; they have no parent, so no counter comes back to itself through them. -/
def LevelParent (child parent : Text) : Prop :=
  ∃ level high : SectionLevel, level.parent? true = some high ∧ level.counter = child ∧
    high.counter = parent

/-- One counter is numbered within another, by a declaration or as sectioning levels are. -/
def NumberedWithin (declarations : List Declaration) (child parent : Text) : Prop :=
  DeclaredParent declarations child parent ∨ LevelParent child parent

/-- Declarations that agree with each other and with the sectioning levels. -/
structure Coherent (declarations : List Declaration) : Prop where
  /-- No name is declared twice. -/
  distinct : (declarations.map Declaration.name).Nodup
  /-- Names leave the tags around them readable. -/
  readable : ∀ declaration ∈ declarations, Environment.Spellable declaration.name
  /-- No name is that of a sectioning counter. -/
  ordinary : ∀ declaration ∈ declarations, ∀ level : SectionLevel,
    declaration.name ≠ level.counter
  /-- No declaration both shares a counter and names a parent. -/
  single : ∀ declaration ∈ declarations,
    declaration.shared? = none ∨ declaration.within? = none
  /-- No counter is numbered within itself, directly or through others. -/
  acyclic : ∀ counter, ¬Relation.TransGen (NumberedWithin declarations) counter counter

section Coherent

variable {declarations fewer : List Declaration} {declaration : Declaration}

/-- One declaration more gives one parent more. -/
theorem declaredParent_concat {child parent : Text} :
    DeclaredParent (declarations ++ [declaration]) child parent ↔
      DeclaredParent declarations child parent ∨
        declaration.counter = child ∧ declaration.within? = some parent := by
  simp [DeclaredParent, or_and_right, exists_or]

/-- Some of the declarations give some of the parents. -/
theorem NumberedWithin.mono (subset : fewer ⊆ declarations) {child parent : Text}
    (edge : NumberedWithin fewer child parent) : NumberedWithin declarations child parent := by
  rcases edge with ⟨declaration, mem, given⟩ | levels
  · exact .inl ⟨declaration, subset mem, given⟩
  · exact .inr levels

/-- Where every counter ranks below its parent no counter is numbered within itself. -/
theorem acyclic_of_rank (rank : Text → Nat)
    (lower : ∀ child parent, NumberedWithin declarations child parent → rank parent < rank child)
    (counter : Text) : ¬Relation.TransGen (NumberedWithin declarations) counter counter := by
  have below {low high : Text} (path : Relation.TransGen (NumberedWithin declarations) low high) :
      rank high < rank low := by
    induction path with
    | single edge => exact lower _ _ edge
    | tail _ edge ih => exact Nat.lt_trans (lower _ _ edge) ih
  intro cycle
  exact Nat.lt_irrefl _ (below cycle)

/-- Some of the declarations, in any order, are coherent as all are. -/
theorem Coherent.of_subset (coherent : Coherent declarations) (subset : fewer ⊆ declarations)
    (distinct : (fewer.map Declaration.name).Nodup) : Coherent fewer where
  distinct := distinct
  readable declaration mem := coherent.readable declaration (subset mem)
  ordinary declaration mem := coherent.ordinary declaration (subset mem)
  single declaration mem := coherent.single declaration (subset mem)
  acyclic counter below :=
    coherent.acyclic counter (Relation.TransGen.mono (fun _ _ edge => edge.mono subset) _ _ below)

/-- Coherence does not depend on the order. -/
theorem Coherent.perm (coherent : Coherent declarations) (perm : declarations.Perm fewer) :
    Coherent fewer :=
  coherent.of_subset perm.symm.subset ((perm.map Declaration.name).nodup_iff.1 coherent.distinct)

/-- A declaration that names a parent has a counter of its own. -/
theorem Coherent.counter_eq_name (coherent : Coherent declarations)
    (mem : declaration ∈ declarations) {parent : Text}
    (within : declaration.within? = some parent) :
    declaration.counter = declaration.name := by
  rcases coherent.single declaration mem with own | none
  · rw [Declaration.counter, own]
    rfl
  · rw [none] at within
    cases within

/-- A declaration is found by its name wherever it stands. -/
theorem Coherent.find?_reverse_eq (coherent : Coherent declarations)
    (perm : declarations.Perm fewer) (environment : Text) :
    (declarations.reverse.find? fun declaration => declaration.name == environment) =
      fewer.reverse.find? fun declaration => declaration.name == environment := by
  have found (elements : List Declaration) (same : declarations.Perm elements)
      (declaration : Declaration) :
      (elements.reverse.find? fun other => other.name == environment) = some declaration ↔
        declaration ∈ declarations ∧ declaration.name = environment := by
    have distinct := ((same.trans elements.reverse_perm.symm).map Declaration.name).nodup_iff.1
      coherent.distinct
    constructor
    · intro isFound
      have mem := List.mem_of_find?_eq_some isFound
      exact ⟨same.mem_iff.2 (List.mem_reverse.1 mem), by simpa using List.find?_some isFound⟩
    · rintro ⟨mem, rfl⟩
      exact find?_of_nodup Declaration.name distinct (List.mem_reverse.2 (same.mem_iff.1 mem))
  exact Option.ext fun declaration =>
    (found declarations (.refl _) declaration).trans (found fewer perm declaration).symm

end Coherent

namespace CounterForest

variable {base forest : CounterForest} {declarations permuted : List Declaration}
  {declaration : Declaration}

/-- Where no declared edge is refused or replaces another, a declaration adds the edge that it
says, if it says one, and no warning. -/
theorem hasParent_define
    (isOpen : ∀ parent, declaration.within? = some parent →
      declaration.counter ≠ parent ∧ declaration.counter ∉ forest.ancestors parent)
    (fresh : ∀ parent, declaration.within? = some parent →
      forest.parents.find? declaration.counter = none) :
    (∀ low high, (forest.define declaration).HasParent low high ↔
      forest.HasParent low high ∨
        declaration.counter = low ∧ declaration.within? = some high) ∧
    (forest.define declaration).warnings = forest.warnings := by
  cases within : declaration.within? with
  | none =>
    rw [define_of_none forest within]
    exact ⟨fun low high => by simp [HasParent], warnings_ensure ..⟩
  | some parent =>
    obtain ⟨apart, notAbove⟩ := isOpen parent within
    obtain ⟨taken, quiet⟩ := numberWithin_of_open apart notAbove
    rw [define_of_within forest within]
    refine ⟨fun low high => (hasParent_insert taken).trans ?_, quiet⟩
    split
    · rename_i same
      simp [HasParent, ← same, fresh parent within]
    · rename_i other
      simp [other]

/-- No edge that a coherent declaration says closes a cycle of edges that are said. -/
theorem isOpen_of_coherent (coherent : Coherent declarations) (mem : declaration ∈ declarations)
    (acyclic : forest.Acyclic)
    (said : ∀ child parent, forest.HasParent child parent →
      NumberedWithin declarations child parent)
    {parent : Text} (within : declaration.within? = some parent) :
    declaration.counter ≠ parent ∧ declaration.counter ∉ forest.ancestors parent := by
  have edge : NumberedWithin declarations declaration.counter parent :=
    .inl ⟨declaration, mem, rfl, within⟩
  constructor
  · intro same
    exact coherent.acyclic declaration.counter (.single (same ▸ edge))
  · rw [acyclic.mem_ancestors_iff]
    intro above
    exact coherent.acyclic declaration.counter
      (.head edge (Relation.TransGen.mono said _ _ above))

/-- Registering coherent declarations gives their counters the parents that they say, and no edge
is refused. -/
theorem foldl_define_coherent (linked : base.WellLinked)
    (levels : ∀ child parent, base.HasParent child parent → LevelParent child parent)
    (coherent : Coherent declarations) :
    (declarations.foldl CounterForest.define base).WellLinked ∧
    (∀ child parent, (declarations.foldl CounterForest.define base).HasParent child parent ↔
      DeclaredParent declarations child parent ∨ base.HasParent child parent) ∧
    (declarations.foldl CounterForest.define base).warnings = base.warnings := by
  induction declarations using List.reverseRecOn with
  | nil => simp [linked, DeclaredParent]
  | append_singleton before last ih =>
    have isLast : last ∈ before ++ [last] := List.mem_append_right _ (List.mem_singleton_self _)
    have earlier : before ⊆ before ++ [last] := List.subset_append_left _ _
    have distinct := coherent.distinct
    rw [List.map_append, List.nodup_append] at distinct
    obtain ⟨kept, edges, quiet⟩ := ih (coherent.of_subset earlier distinct.1)
    rw [List.foldl_concat]
    generalize before.foldl CounterForest.define base = forest at kept edges quiet
    have said : ∀ child parent, forest.HasParent child parent →
        NumberedWithin (before ++ [last]) child parent := by
      intro child parent edge
      rcases (edges child parent).1 edge with declared | rooted
      · exact .inl (declaredParent_concat.2 (.inl declared))
      · exact .inr (levels child parent rooted)
    have fresh : ∀ parent, last.within? = some parent →
        forest.parents.find? last.counter = none := by
      intro parent within
      by_contra known
      obtain ⟨other, known⟩ := Option.ne_none_iff_exists'.1 known
      rw [coherent.counter_eq_name isLast within] at known
      -- Names are distinct, and none is that of a level.
      rcases (edges last.name other).1 known with ⟨declaration, mem, same, given⟩ | rooted
      · rw [coherent.counter_eq_name (earlier mem) given] at same
        exact distinct.2.2 _ (List.mem_map_of_mem mem) last.name (by simp) same
      · obtain ⟨level, -, -, same, -⟩ := levels last.name other rooted
        exact coherent.ordinary last isLast level same.symm
    obtain ⟨added, silent⟩ := hasParent_define
      (fun parent within => isOpen_of_coherent coherent isLast kept.acyclic said within) fresh
    refine ⟨kept.define last, fun child parent => ?_, silent.trans quiet⟩
    rw [added, edges, declaredParent_concat, or_right_comm]

/-- Coherent declarations may be registered in any order. -/
theorem alike_foldl_define (linked : base.WellLinked)
    (levels : ∀ child parent, base.HasParent child parent → LevelParent child parent)
    (coherent : Coherent declarations) (perm : declarations.Perm permuted) :
    (declarations.foldl CounterForest.define base).Alike
      (permuted.foldl CounterForest.define base) := by
  obtain ⟨kept, edges, quiet⟩ := foldl_define_coherent linked levels coherent
  obtain ⟨otherKept, otherEdges, otherQuiet⟩ :=
    foldl_define_coherent linked levels (coherent.perm perm)
  have values (elements : List Declaration) (counter : Text) :
      (elements.foldl CounterForest.define base).value counter = base.value counter :=
    List.foldlRecOn elements _
      (motive := fun forest : CounterForest => forest.value counter = base.value counter)
      rfl fun forest same declaration _ => (value_define forest declaration counter).trans same
  have flags (elements : List Declaration) :
      (elements.foldl CounterForest.define base).flags = base.flags :=
    List.foldlRecOn elements _ (motive := fun forest : CounterForest => forest.flags = base.flags)
      rfl fun forest same declaration _ => (flags_define forest declaration).trans same
  constructor
  · exact kept
  · exact otherKept
  · intro child
    refine Option.ext fun parent => (edges child parent).trans ?_
    refine Iff.trans ?_ (otherEdges child parent).symm
    simp only [DeclaredParent, perm.mem_iff]
  · intro counter
    rw [values, values]
  · intro environment
    rw [NumberingPlan.find?_environments_foldl_define,
      NumberingPlan.find?_environments_foldl_define, coherent.find?_reverse_eq perm]
  · rw [flags, flags]
  · rw [quiet, otherQuiet]

end CounterForest

namespace NumberingPlan

open CounterForest

/-- The forest of a plan: the levels, the declarations and the other edges, in this order. -/
theorem forest_eq (plan : NumberingPlan) (appendix : Bool) : plan.forest appendix =
    plan.counterEdges.foldl (fun forest edge => (forest.numberWithin edge.1 edge.2).1)
      (plan.declarations.values.foldl CounterForest.define (plan.levels appendix)) := rfl

/-- Only levels have parents before declarations are registered. -/
theorem levelParent_of_levels (plan : NumberingPlan) (appendix : Bool) (child parent : Text)
    (edge : (plan.levels appendix).HasParent child parent) : LevelParent child parent := by
  rw [HasParent, (plan.parents_levels appendix).1] at edge
  by_cases isLevel : ∃ level : SectionLevel, child = level.counter
  · obtain ⟨level, rfl⟩ := isLevel
    rw [find?_levelParents, Option.map_eq_some_iff] at edge
    obtain ⟨high, up, rfl⟩ := edge
    refine ⟨level, high, ?_, rfl, rfl⟩
    cases level <;> cases chapters : plan.hasChapters <;> simp_all [SectionLevel.parent?]
  · rw [not_exists] at isLevel
    rw [find?_levelParents_of_ne _ isLevel] at edge
    cases edge

/-- The links of the levels are kept well. -/
theorem wellLinked_levels (plan : NumberingPlan) (appendix : Bool) :
    (plan.levels appendix).WellLinked :=
  wellLinked_forest { plan with declarations := NameMap.empty, counterEdges := [] } appendix

/-- A plan numbers alike in whatever order its declarations come. -/
theorem alike_forest {plan : NumberingPlan} {other : DeclarationTable}
    (coherent : Coherent plan.declarations.values)
    (perm : plan.declarations.values.Perm other.values) (appendix : Bool) :
    (plan.forest appendix).Alike ({ plan with declarations := other }.forest appendix) := by
  rw [forest_eq, forest_eq]
  exact (alike_foldl_define (plan.wellLinked_levels appendix) (plan.levelParent_of_levels appendix)
    coherent perm).foldl_numberWithin plan.counterEdges

end NumberingPlan
end TexStatements
