import TexStatements.Proofs.Declaration.Reading

/-!
# Tables of declarations

A table grows by declarations only, and only the first one of a name is entered. Reading a text and
resolving wrappers hand declarations to the table one after another, and aliases change counters
and nothing else. So, however a table has come about, its names stand in the order in which they
were declared first, and what is declared stays (`run_keeps_first_declarations`).
-/
namespace TexStatements

namespace Declaration

/-- Names under which a declaration may be entered. -/
def IsDeclarable (name : Text) : Prop := name ≠ [] ∧ name ≠ canonicalEnvironment

instance (name : Text) : Decidable (IsDeclarable name) := inferInstanceAs (Decidable (_ ∧ _))

/-- A declaration as it is entered: a shared counter excludes a parent. -/
def entered (declaration : Declaration) : Declaration :=
  if declaration.shared?.isSome && declaration.within?.isSome then
    { declaration with within? := none }
  else declaration

/-- A declaration after a table was rewritten for aliases. -/
def underAliases (declaration : Declaration) (aliases : AliasMap) : Declaration :=
  if aliases.entries.isEmpty then declaration else declaration.resolveAliases aliases

variable {declaration : Declaration}

/-- A declaration is entered under its own name. -/
@[simp] theorem name_entered (declaration : Declaration) :
    declaration.entered.name = declaration.name := by
  unfold entered
  split <;> rfl

/-- What is entered is regular. -/
theorem regular_entered (declarable : IsDeclarable declaration.name) :
    declaration.entered.Regular := by
  refine ⟨?_, ?_, ?_⟩
  · rw [name_entered]
    exact declarable.1
  · rw [name_entered]
    exact declarable.2
  · unfold entered
    split
    · exact .inr rfl
    · rename_i exclusive
      rw [Bool.not_eq_true, Bool.and_eq_false_iff] at exclusive
      rcases exclusive with own | unbound
      · exact .inl (by simpa using own)
      · exact .inr (by simpa using unbound)

/-- Aliases change counters and nothing else. -/
theorem kept_underAliases (declaration : Declaration) (aliases : AliasMap) :
    (declaration.underAliases aliases).name = declaration.name ∧
      (declaration.underAliases aliases).caption = declaration.caption ∧
      (declaration.underAliases aliases).starred = declaration.starred := by
  unfold underAliases
  split <;> exact ⟨rfl, rfl, rfl⟩

/-- A regular declaration stays regular under aliases. -/
theorem Regular.underAliases (regular : declaration.Regular) (aliases : AliasMap) :
    (declaration.underAliases aliases).Regular := by
  have kept := kept_underAliases declaration aliases
  refine ⟨?_, ?_, ?_⟩
  · rw [kept.1]
    exact regular.named
  · rw [kept.1]
    exact regular.ordinary
  · unfold Declaration.underAliases
    split
    · exact regular.single
    · rcases regular.single with own | unbound
      · exact .inl (by simp [resolveAliases, own])
      · exact .inr (by simp [resolveAliases, unbound])

/-- However often aliases are applied, they change counters and nothing else. -/
theorem kept_underAll (applied : List AliasMap) (declaration : Declaration) :
    (applied.foldl underAliases declaration).name = declaration.name ∧
      (applied.foldl underAliases declaration).caption = declaration.caption ∧
      (applied.foldl underAliases declaration).starred = declaration.starred := by
  induction applied generalizing declaration with
  | nil => exact ⟨rfl, rfl, rfl⟩
  | cons aliases more ih =>
    obtain ⟨name, caption, starred⟩ := ih (declaration.underAliases aliases)
    obtain ⟨sameName, sameCaption, sameStarred⟩ := kept_underAliases declaration aliases
    exact ⟨name.trans sameName, caption.trans sameCaption, starred.trans sameStarred⟩

/-- A regular declaration stays regular however often aliases are applied. -/
theorem Regular.underAll (regular : declaration.Regular) (applied : List AliasMap) :
    (applied.foldl Declaration.underAliases declaration).Regular := by
  induction applied generalizing declaration with
  | nil => exact regular
  | cons aliases more ih => exact ih (regular.underAliases aliases)

end Declaration

namespace DeclarationTable

open Declaration

variable {table : DeclarationTable} {declaration : Declaration}

section Declare

/-- The names that are refused silently. -/
theorem refused_eq_false_iff {name : Text} :
    (name.isEmpty || name == canonicalEnvironment) = false ↔ IsDeclarable name := by
  simp [IsDeclarable]

/-- A name that cannot be declared is refused silently. -/
theorem declare_of_undeclarable (table : DeclarationTable)
    (undeclarable : ¬IsDeclarable declaration.name) : table.declare declaration = (table, []) := by
  rw [← refused_eq_false_iff, Bool.not_eq_false] at undeclarable
  rw [declare, if_pos undeclarable]

/-- A name that is entered is refused with a warning. -/
theorem declare_of_mem (declarable : IsDeclarable declaration.name)
    (mem : declaration.name ∈ table.keys) :
    table.declare declaration = (table, [.repeatedDeclaration declaration.name]) := by
  have goesOn := refused_eq_false_iff.2 declarable
  rw [declare, if_neg (Bool.eq_false_iff.1 goesOn), if_pos (NameMap.contains_iff.2 mem)]

/-- A new name is entered. -/
theorem declare_of_not_mem (declarable : IsDeclarable declaration.name)
    (fresh : declaration.name ∉ table.keys) :
    (table.declare declaration).1 =
      NameMap.insert table declaration.name declaration.entered := by
  have goesOn := refused_eq_false_iff.2 declarable
  have absent : ¬NameMap.contains table declaration.name = true := by
    rw [NameMap.contains_iff]
    exact fresh
  rw [declare, if_neg (Bool.eq_false_iff.1 goesOn), if_neg absent, entered]
  split <;> rfl

/-- The names after a declaration. -/
theorem keys_declare (table : DeclarationTable) (declaration : Declaration) :
    (table.declare declaration).1.keys =
      if IsDeclarable declaration.name ∧ declaration.name ∉ table.keys then
        table.keys ++ [declaration.name]
      else table.keys := by
  by_cases declarable : IsDeclarable declaration.name
  · by_cases mem : declaration.name ∈ table.keys
    · rw [declare_of_mem declarable mem, if_neg fun new => new.2 mem]
    · rw [declare_of_not_mem declarable mem, NameMap.keys_insert, if_neg mem,
        if_pos ⟨declarable, mem⟩]
  · rw [declare_of_undeclarable table declarable, if_neg fun new => declarable new.1]

/-- What is found after a declaration: what was found before, or else the declaration itself under
its name. -/
theorem find?_declare (table : DeclarationTable) (declaration : Declaration) (name : Text) :
    (table.declare declaration).1.find? name = (table.find? name).or
      (if IsDeclarable declaration.name ∧ declaration.name = name then some declaration.entered
        else none) := by
  by_cases declarable : IsDeclarable declaration.name
  · by_cases mem : declaration.name ∈ table.keys
    · rw [declare_of_mem declarable mem]
      by_cases same : declaration.name = name
      · rw [same, ← NameMap.contains_iff] at mem
        rw [Option.or_of_isSome mem]
      · rw [if_neg fun both => same both.2, Option.or_none]
    · rw [declare_of_not_mem declarable mem, NameMap.find?_insert]
      by_cases same : declaration.name = name
      · rw [same, ← NameMap.contains_iff, Bool.not_eq_true, ← NameMap.find?_eq_none_iff] at mem
        rw [if_pos same, if_pos ⟨declarable, same⟩, mem, Option.none_or]
      · rw [if_neg same, if_neg fun both => same both.2, Option.or_none]
  · rw [declare_of_undeclarable table declarable, if_neg fun both => declarable both.1,
      Option.or_none]

/-- Two lists of declarations are entered one after the other. -/
theorem declareAll_append (table : DeclarationTable) (first second : List Declaration) :
    (table.declareAll (first ++ second)).1 =
      ((table.declareAll first).1.declareAll second).1 := by
  induction first generalizing table with
  | nil => rfl
  | cons declaration more ih =>
    rw [List.cons_append, declareAll, declareAll]
    exact ih (table.declare declaration).1

end Declare

section Names

variable {before : List Declaration}

/-- The names under which declarations are entered, each where it is declared first. -/
def firstNames (declarations : List Declaration) : List Text :=
  ((declarations.map Declaration.name).filter fun name => decide (IsDeclarable name)).eraseDups

/-- One more element comes last where duplicates are erased, if it is new. -/
theorem eraseDups_concat {names : List Text} {name : Text} :
    (names ++ [name]).eraseDups =
      if name ∈ names.eraseDups then names.eraseDups else names.eraseDups ++ [name] := by
  rw [List.eraseDups_append]
  by_cases mem : name ∈ names
  · rw [if_pos (List.mem_eraseDups.2 mem)]
    simp [List.removeAll, mem]
  · rw [if_neg (List.mem_eraseDups.not.2 mem)]
    simp [List.removeAll, mem, List.eraseDups_cons]

/-- The name of one more declaration comes last, if it is new. -/
theorem firstNames_concat (before : List Declaration) (declaration : Declaration) :
    firstNames (before ++ [declaration]) =
      if IsDeclarable declaration.name ∧ declaration.name ∉ firstNames before then
        firstNames before ++ [declaration.name]
      else firstNames before := by
  by_cases declarable : IsDeclarable declaration.name
  · have last : firstNames (before ++ [declaration]) =
        (((before.map Declaration.name).filter fun name => decide (IsDeclarable name)) ++
          [declaration.name]).eraseDups := by
      simp [firstNames, declarable]
    rw [last, eraseDups_concat, ← firstNames]
    by_cases mem : declaration.name ∈ firstNames before
    · rw [if_pos mem, if_neg fun new => new.2 mem]
    · rw [if_neg mem, if_pos ⟨declarable, mem⟩]
  · rw [if_neg fun new => declarable new.1]
    simp [firstNames, declarable]

/-- A name that can be declared is among the first names exactly if it was declared. -/
theorem mem_firstNames {name : Text} :
    name ∈ firstNames before ↔ IsDeclarable name ∧ ∃ first ∈ before, first.name = name := by
  rw [firstNames, List.mem_eraseDups, List.mem_filter, List.mem_map, decide_eq_true_eq, and_comm]

/-- Aliases leave the names alone. -/
theorem keys_applyAliases (table : DeclarationTable) (aliases : AliasMap) :
    (table.applyAliases aliases).keys = table.keys := by
  unfold applyAliases
  split
  · rfl
  · exact NameMap.keys_mapValues table _

end Names

section Values

variable {name : Text}

/-- What is found stays when more is declared. -/
theorem find?_declareAll_of_find? (found : table.find? name = some declaration)
    (declarations : List Declaration) :
    (table.declareAll declarations).1.find? name = some declaration := by
  induction declarations generalizing table with
  | nil => exact found
  | cons other more ih =>
    have entered : (table.declare other).1.find? name = some declaration := by
      rw [find?_declare, found, Option.some_or]
    exact ih entered

/-- What is found after aliases were applied. -/
theorem find?_applyAliases (table : DeclarationTable) (aliases : AliasMap) (name : Text) :
    (table.applyAliases aliases).find? name =
      (table.find? name).map fun declaration => declaration.underAliases aliases := by
  unfold applyAliases underAliases
  split
  · exact Option.map_id'.symm
  · exact NameMap.find?_mapValues table _ name

end Values

/-- Every declaration of a table is regular and stands under its own name. -/
structure Sound (table : DeclarationTable) : Prop where
  /-- Declarations stand under their names. -/
  named : ∀ {name declaration}, table.find? name = some declaration → declaration.name = name
  /-- They are regular. -/
  regular : ∀ {name declaration}, table.find? name = some declaration → declaration.Regular

/-- How a table has come about: from declarations, of which the first of each name was entered, and
from aliases, of which those that came later were applied to it. -/
structure Grown (table : DeclarationTable) (before : List Declaration)
    (applied : List AliasMap) : Prop where
  /-- The names stand in the order in which they were declared first. -/
  keys : table.keys = firstNames before
  /-- A declaration is the first one of its name, up to aliases. -/
  first : ∀ {name declaration}, table.find? name = some declaration →
    ∃ first aliases, before.find? (fun other => other.name == name) = some first ∧
      aliases <:+ applied ∧ declaration = aliases.foldl underAliases first.entered

section Grown

variable {before : List Declaration} {applied : List AliasMap}

/-- Nothing was declared in the empty table. -/
theorem grown_empty : Grown NameMap.empty [] [] := ⟨rfl, nofun⟩

/-- A declaration comes last. -/
theorem Grown.declare (grown : table.Grown before applied) (declaration : Declaration) :
    (table.declare declaration).1.Grown (before ++ [declaration]) applied := by
  constructor
  · rw [firstNames_concat, ← grown.keys]
    exact keys_declare table declaration
  · intro name found isFound
    rw [find?_declare, Option.or_eq_some_iff] at isFound
    rcases isFound with old | ⟨absent, new⟩
    · obtain ⟨first, aliases, declared, later, same⟩ := grown.first old
      refine ⟨first, aliases, ?_, later, same⟩
      rw [List.find?_append, declared, Option.some_or]
    · rw [Option.ite_none_right_eq_some] at new
      obtain ⟨⟨declarable, rfl⟩, entered⟩ := new
      have fresh : before.find? (fun other => other.name == declaration.name) = none := by
        rw [List.find?_eq_none]
        intro other mem same
        have known : declaration.name ∈ table.keys := by
          rw [grown.keys]
          exact mem_firstNames.2 ⟨declarable, other, mem, eq_of_beq same⟩
        rw [← NameMap.contains_iff, NameMap.contains, absent] at known
        cases known
      refine ⟨declaration, [], ?_, List.nil_suffix, (Option.some.inj entered).symm⟩
      rw [List.find?_append, fresh, Option.none_or, List.find?_singleton, beq_self_eq_true,
        if_pos rfl]

/-- Declarations come last, in their order. -/
theorem Grown.declareAll (grown : table.Grown before applied) (declarations : List Declaration) :
    (table.declareAll declarations).1.Grown (before ++ declarations) applied := by
  induction declarations generalizing table before with
  | nil =>
    rw [List.append_nil]
    exact grown
  | cons declaration more ih =>
    have later := ih (grown.declare declaration)
    rw [List.append_assoc] at later
    exact later

/-- Aliases are applied to all that is there. -/
theorem Grown.applyAliases (grown : table.Grown before applied) (aliases : AliasMap) :
    (table.applyAliases aliases).Grown before (applied ++ [aliases]) := by
  constructor
  · rw [keys_applyAliases]
    exact grown.keys
  · intro name found isFound
    rw [find?_applyAliases, Option.map_eq_some_iff] at isFound
    obtain ⟨declaration, old, rfl⟩ := isFound
    obtain ⟨first, earlier, declared, ⟨front, rfl⟩, same⟩ := grown.first old
    refine ⟨first, earlier ++ [aliases], declared, ⟨front, ?_⟩, ?_⟩
    · exact (List.append_assoc front earlier [aliases]).symm
    · rw [List.foldl_concat, ← same]

/-- A table that has come about in this way is sound. -/
theorem Grown.sound (grown : table.Grown before applied) : table.Sound := by
  have declared : ∀ {name found}, table.find? name = some found →
      ∃ (first : Declaration) (aliases : List AliasMap), first.name = name ∧
        IsDeclarable first.name ∧ found = aliases.foldl underAliases first.entered := by
    intro name found isFound
    obtain ⟨first, aliases, isFirst, -, same⟩ := grown.first isFound
    have own : first.name = name := by simpa using List.find?_some isFirst
    have known : name ∈ firstNames before := by
      rw [← grown.keys, ← NameMap.contains_iff]
      exact NameMap.contains_of_find? isFound
    rw [← own] at known
    exact ⟨first, aliases, own, (mem_firstNames.1 known).1, same⟩
  constructor
  · intro name found isFound
    obtain ⟨first, aliases, own, -, rfl⟩ := declared isFound
    rw [(kept_underAll aliases first.entered).1, name_entered]
    exact own
  · intro name found isFound
    obtain ⟨first, aliases, -, declarable, rfl⟩ := declared isFound
    exact (regular_entered declarable).underAll aliases

end Grown

end DeclarationTable

section Wrappers

/-- The declaration of a wrapper, if its code opens a declared environment. -/
def Wrapper.declared (wrapper : Wrapper) (table : DeclarationTable) : List Declaration :=
  ((Wrapper.wrapped? wrapper.opening table).map wrapper.declaration).toList

/-- A wrapper is entered by declaring it. -/
theorem Wrapper.enter_table (wrapper : Wrapper) (table : DeclarationTable) :
    (wrapper.enter table).1 = (table.declareAll (wrapper.declared table)).1 := by
  unfold Wrapper.enter Wrapper.declared
  cases Wrapper.wrapped? wrapper.opening table <;> rfl

namespace WrapperRemoval

/-- What a keyword declares where the removal of environment definitions has come to it. -/
def declared (state : WrapperRemoval) (found : Found Keyword) : List Declaration :=
  if state.pending.length < found.place.length then []
  else match WrapperReading.ofText (Wrapper.behindStar found.value.after) with
    | .found wrapper _ => wrapper.declared state.table
    | _ => []

/-- What keywords declare one after another. -/
def declaredAlong (state : WrapperRemoval) : List (Found Keyword) → List Declaration
  | [] => []
  | found :: more => state.declared found ++ (state.step found).declaredAlong more

/-- A keyword changes the table by what it declares. -/
theorem step_table (state : WrapperRemoval) (found : Found Keyword) :
    (state.step found).table = (state.table.declareAll (state.declared found)).1 := by
  unfold step declared
  split
  · rfl
  · cases WrapperReading.ofText (Wrapper.behindStar found.value.after) with
    | absent => rfl
    | unterminated => rfl
    | found wrapper rest => exact wrapper.enter_table state.table

/-- Keywords change the table by what they declare. -/
theorem foldl_step_table (state : WrapperRemoval) (founds : List (Found Keyword)) :
    (founds.foldl step state).table =
      (state.table.declareAll (state.declaredAlong founds)).1 := by
  induction founds generalizing state with
  | nil => rfl
  | cons found more ih =>
    rw [List.foldl_cons, ih, step_table, declaredAlong, DeclarationTable.declareAll_append]

end WrapperRemoval

end Wrappers

namespace DeclarationTable

open Declaration

/-- An operation on a table. -/
inductive Operation where
  /-- Enter a declaration. -/
  | declare (declaration : Declaration)
  /-- Enter the declarations of a text. -/
  | collect (text : Text)
  /-- Enter the wrappers that a text defines. -/
  | resolveWrappers (text : Text)
  /-- Put counters in place of their aliases. -/
  | applyAliases (aliases : AliasMap)

namespace Operation

/-- The table after an operation. -/
def apply (table : DeclarationTable) : Operation → DeclarationTable
  | declare declaration => (table.declare declaration).1
  | collect text => (table.collect text).1
  | resolveWrappers text => (table.resolveWrappers text).2.1
  | applyAliases aliases => table.applyAliases aliases

/-- The declarations that an operation hands to the table, entered or not, in order. -/
def declared (table : DeclarationTable) : Operation → List Declaration
  | declare declaration => [declaration]
  | collect text =>
    (Declaration.command.occurrences text).flatMap fun found => ofCommand found.value
  | resolveWrappers text => WrapperRemoval.declaredAlong ⟨text, [], table, []⟩
      ((keyword Wrapper.words.contains).occurrences text)
  | applyAliases _ => []

/-- The aliases that an operation applies. -/
def aliases? : Operation → Option AliasMap
  | applyAliases aliases => some aliases
  | _ => none

/-- An operation applies aliases, or it enters what it declares. -/
theorem apply_cases (table : DeclarationTable) (operation : Operation) :
    (∃ aliases, operation = applyAliases aliases) ∨ (operation.aliases? = none ∧
      operation.apply table = (table.declareAll (operation.declared table)).1) := by
  cases operation with
  | declare declaration => exact .inr ⟨rfl, rfl⟩
  | collect text => exact .inr ⟨rfl, rfl⟩
  | resolveWrappers text => exact .inr ⟨rfl, WrapperRemoval.foldl_step_table _ _⟩
  | applyAliases aliases => exact .inl ⟨aliases, rfl⟩

end Operation

/-- The table after operations, one after another. -/
def runFrom (table : DeclarationTable) (operations : List Operation) : DeclarationTable :=
  operations.foldl Operation.apply table

/-- The table that operations make of the empty one. -/
def run (operations : List Operation) : DeclarationTable := runFrom NameMap.empty operations

/-- All declarations that operations hand to a table, in order. -/
def declaredFrom (table : DeclarationTable) : List Operation → List Declaration
  | [] => []
  | operation :: more =>
    operation.declared table ++ declaredFrom (operation.apply table) more

/-- The aliases that operations apply, in order. -/
def appliedBy (operations : List Operation) : List AliasMap :=
  operations.filterMap Operation.aliases?

section Run

variable {table : DeclarationTable} {declaration : Declaration}

/-- Operations declare and apply aliases, in order. -/
theorem Grown.runFrom {before : List Declaration} {applied : List AliasMap}
    (grown : table.Grown before applied) (operations : List Operation) :
    (table.runFrom operations).Grown (before ++ declaredFrom table operations)
      (applied ++ appliedBy operations) := by
  induction operations generalizing table before applied with
  | nil =>
    rw [declaredFrom, appliedBy, List.filterMap_nil, List.append_nil, List.append_nil]
    exact grown
  | cons operation more ih =>
    rw [declaredFrom, ← List.append_assoc]
    rcases Operation.apply_cases table operation with ⟨aliases, rfl⟩ | ⟨silent, entered⟩
    · have later := ih (grown.applyAliases aliases)
      rw [List.append_assoc] at later
      rw [Operation.declared, List.append_nil]
      exact later
    · have same : appliedBy (operation :: more) = appliedBy more := by
        rw [appliedBy, List.filterMap_cons, silent, appliedBy]
      have next : (operation.apply table).Grown (before ++ operation.declared table) applied := by
        rw [entered]
        exact grown.declareAll _
      rw [same]
      exact ih next

/-- What is found stays, up to the aliases that operations apply. -/
theorem find?_runFrom {name : Text} (found : table.find? name = some declaration)
    (operations : List Operation) :
    (table.runFrom operations).find? name =
      some ((appliedBy operations).foldl underAliases declaration) := by
  induction operations generalizing table declaration with
  | nil => exact found
  | cons operation more ih =>
    rcases Operation.apply_cases table operation with ⟨aliases, rfl⟩ | ⟨silent, entered⟩
    · have next : ((Operation.applyAliases aliases).apply table).find? name =
          some (declaration.underAliases aliases) := by
        rw [Operation.apply, find?_applyAliases, found, Option.map_some]
      exact ih next
    · have same : appliedBy (operation :: more) = appliedBy more := by
        rw [appliedBy, List.filterMap_cons, silent, appliedBy]
      have next : (operation.apply table).find? name = some declaration := by
        rw [entered]
        exact find?_declareAll_of_find? found _
      rw [same]
      exact ih next

end Run

/-- However a table has come about, its declarations are regular and stand under their own names, in
the order in which these were declared first; each is the first one of its name, up to aliases that
were applied later. Whatever follows, a declaration keeps its name, its caption and its star, and
only aliases change its counters. A second declaration of a name changes nothing and is warned
about, and one of the empty or the canonical name changes nothing. -/
theorem run_keeps_first_declarations (operations : List Operation) :
    (run operations).Sound ∧
      (run operations).keys.Nodup ∧
      (run operations).keys = firstNames (declaredFrom NameMap.empty operations) ∧
      (∀ name declaration, (run operations).find? name = some declaration →
        ∃ first applied, (declaredFrom NameMap.empty operations).find?
            (fun other => other.name == name) = some first ∧
          applied <:+ appliedBy operations ∧
          declaration = applied.foldl underAliases first.entered) ∧
      (∀ later name declaration, (run operations).find? name = some declaration →
        ∃ kept, (run (operations ++ later)).find? name = some kept ∧
          kept.name = declaration.name ∧ kept.caption = declaration.caption ∧
          kept.starred = declaration.starred ∧
          kept = (appliedBy later).foldl underAliases declaration) ∧
      (∀ declaration, declaration.name ∈ (run operations).keys →
        (run operations).declare declaration =
          (run operations, [.repeatedDeclaration declaration.name])) ∧
      (∀ declaration, declaration.name = [] ∨ declaration.name = canonicalEnvironment →
        (run operations).declare declaration = (run operations, [])) := by
  have grown : (run operations).Grown (declaredFrom NameMap.empty operations)
      (appliedBy operations) := grown_empty.runFrom operations
  refine ⟨grown.sound, (run operations).distinct, grown.keys, ?_, ?_, ?_, ?_⟩
  · intro name declaration found
    exact grown.first found
  · intro later name declaration found
    have whole : run (operations ++ later) = (run operations).runFrom later := List.foldl_append
    obtain ⟨sameName, sameCaption, sameStarred⟩ := kept_underAll (appliedBy later) declaration
    refine ⟨_, ?_, sameName, sameCaption, sameStarred, rfl⟩
    rw [whole]
    exact find?_runFrom found later
  · intro declaration mem
    have declarable : IsDeclarable declaration.name := by
      rw [grown.keys] at mem
      exact (mem_firstNames.1 mem).1
    exact declare_of_mem declarable mem
  · intro declaration undeclarable
    apply declare_of_undeclarable
    rintro ⟨named, ordinary⟩
    exact undeclarable.elim named ordinary

/-- Of two declarations of a name the first is entered. Once its counter is put in place of an alias
it is declared in vain again. -/
theorem run_keeps_first_declarations_aliased :
    let text : Text := "\\newtheorem\x7ba\x7d[c]\x7bA\x7d\\newtheorem*\x7ba\x7d\x7bB\x7d".toList
    let conflicting : Declaration := ⟨"b".toList, "B".toList, true, some "c".toList, some []⟩
    let operations : List Operation := [.collect text, .declare conflicting,
      .applyAliases (NameMap.ofList [("c".toList, "s".toList)])]
    let again : Declaration := .new "a".toList "C".toList true
    (run operations).values = [⟨"a".toList, "A".toList, false, some "s".toList, none⟩,
        ⟨"b".toList, "B".toList, true, some "s".toList, none⟩] ∧
      again.name ∈ (run operations).keys ∧
      (run operations).declare again = (run operations, [.repeatedDeclaration "a".toList]) := by
  intro text conflicting operations again
  have values : (run operations).values = [⟨"a".toList, "A".toList, false, some "s".toList, none⟩,
      ⟨"b".toList, "B".toList, true, some "s".toList, none⟩] := by decide +kernel
  have present : again.name ∈ (run operations).keys := by decide +kernel
  have invariant := run_keeps_first_declarations operations
  have refused := invariant.2.2.2.2.2.1 again present
  exact ⟨values, present, refused⟩

end DeclarationTable
end TexStatements
