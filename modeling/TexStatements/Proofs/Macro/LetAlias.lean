import Mathlib.Data.List.Infix
import TexStatements.Proofs.Macro.Absence
import TexStatements.Proofs.Macro.CallSite
import TexStatements.Proofs.Macro.Resolution

/-!
# Aliases of macros

An alias is a macro without parameters whose body is a call of its target without arguments. The
body is expanded when the table is resolved, where no arguments follow it, and what a call of the
alias puts into the document is not read again. So an alias of a macro without parameters is
expanded like its target, while an alias of any other macro puts in a call that stays
(`alias_text`).
-/
namespace TexStatements

open ControlSequence TexStatements.Group

/-- Reading a keyword in front of a closing brace takes at most the brace. -/
theorem keyword_read_brace {accepts : Text → Bool} {first : Char} {front tail rest : Text}
    {value : Keyword}
    (read : (keyword accepts).read (first :: (front ++ '}' :: tail)) = some (value, rest)) :
    rest = tail ∨ ∃ more, more.length ≤ front.length ∧ rest = more ++ '}' :: tail := by
  simp only [keyword, Option.bind_eq_bind, Option.bind_eq_some_iff, Option.some.injEq,
    Prod.mk.injEq] at read
  obtain ⟨⟨word, after⟩, isWord, -, rfl⟩ := read
  have isBackslash : first = '\\' := by
    by_contra other
    rw [Reader.controlWord_readsCommands accepts first _ other] at isWord
    cases isWord
  have behind : after = front.dropWhile isControlLetter ++ '}' :: tail := by
    have stops : ∀ first ∈ ('}' :: tail).head?, isControlLetter first = false := by
      simp only [List.head?_cons, Option.mem_some_iff, forall_eq']
      decide
    rw [isBackslash] at isWord
    simp only [controlWord, dropWhile_append_of_stop front stops] at isWord
    split at isWord
    · cases isWord
      rfl
    · cases isWord
  cases left : front.dropWhile isControlLetter with
  | nil => exact .inl (by rw [behind, left, List.nil_append, List.drop_one, List.tail_cons])
  | cons next more =>
    refine .inr ⟨more, ?_, by rw [behind, left, List.cons_append, List.drop_one, List.tail_cons]⟩
    have shorter := (List.dropWhile_suffix isControlLetter (l := front)).length_le
    rw [left, List.length_cons] at shorter
    exact Nat.le_of_succ_le shorter

/-- The keywords in a text that goes on behind a closing brace are those before the brace and those
behind it: reading a keyword takes at most the brace that follows it. -/
theorem keyword_occurrences_brace (accepts : Text → Bool) (front tail : Text) :
    ∃ inner, (keyword accepts).occurrences (front ++ '}' :: tail) =
        inner ++ (keyword accepts).occurrences tail ∧
      ∀ found ∈ inner, tail.length < found.place.length := by
  induction size : front.length using Nat.strongRecOn generalizing front with
  | ind length ih =>
    subst size
    cases front with
    | nil =>
      have passed : (keyword accepts).SilentOver ['}'] tail :=
        ((Reader.guarded_keyword accepts).readsCommands).silentOver tail (by decide)
      exact ⟨[], Reader.occurrences_append passed, nofun⟩
    | cons first front =>
      rw [List.cons_append]
      cases read : (keyword accepts).read (first :: (front ++ '}' :: tail)) with
      | none =>
        have passed : (keyword accepts).SilentOver [first] (front ++ '}' :: tail) :=
          Reader.silentOver_cons.2 ⟨read, Reader.silentOver_nil _ _⟩
        have same := Reader.occurrences_append passed
        rw [List.singleton_append] at same
        rw [same]
        exact ih front.length (Nat.lt_succ_self _) front rfl
      | some found =>
        obtain ⟨value, rest⟩ := found
        have here : tail.length < (first :: (front ++ '}' :: tail)).length := by
          simp only [List.length_cons, List.length_append]
          omega
        rw [Reader.occurrences_of_read read]
        rcases keyword_read_brace read with rfl | ⟨more, shorter, rfl⟩
        · refine ⟨[_], rfl, fun found mem => ?_⟩
          rw [List.mem_singleton.1 mem]
          exact here
        · obtain ⟨inner, split, behind⟩ := ih more.length (Nat.lt_succ_of_le shorter) more rfl
          refine ⟨_ :: inner, by rw [split, List.cons_append], ?_⟩
          exact List.forall_mem_cons.2 ⟨here, behind⟩

/-- Keywords inside a definition that is removed are passed over. -/
theorem Collection.foldl_step_of_passed {family : DefinitionFamily} {state : Collection}
    {places : List (Found Keyword)}
    (passed : ∀ found ∈ places, state.pending.length < found.place.length) :
    places.foldl (step family) state = state := by
  induction places with
  | nil => rfl
  | cons first places ih =>
    rw [List.forall_mem_cons] at passed
    have skipped : step family state first = state := by rw [step, if_pos passed.1]
    rw [List.foldl_cons, skipped, ih passed.2]

/-- A definition at the start of what is not yet decided about is removed, and nothing is copied. -/
theorem Collection.step_of_found {family : DefinitionFamily} {place after rest tail word : Text}
    {definition : Macro} (read : DefinitionReading.ofKeyword family ⟨word, after⟩ =
      .found definition rest) (replaces : word ≠ "providecommand".toList) (copied : List Text)
    (table : MacroTable) (warnings : List Warning) :
    step family ⟨place, copied, table, warnings⟩ ⟨place, ⟨word, after⟩, tail⟩ =
      ⟨rest, [] :: copied, table.define definition, warnings⟩ := by
  have nothing : place.before place = [] := by simp [Text.before]
  have overwrites : yields word table definition = false := by
    rw [yields, beq_eq_false_iff_ne.2 replaces, Bool.false_and]
  rw [step, if_neg (Nat.lt_irrefl _), read]
  simp only [nothing, overwrites, Bool.false_eq_true, if_false]

/-- The parameter text of a primitive definition: the numbers of its parameters in order. -/
def parameterText (arity : Nat) : Text :=
  (List.range arity).flatMap fun index => '#' :: numeral (index + 1)

/-- Parameter text is read up to the body, and it has a number sign for each parameter. -/
theorem parameterText_plain : ∀ arity ≤ maxArity,
    (∀ c ∈ parameterText arity, c ≠ '{' ∧ DefinitionReading.isParameterText c = true) ∧
    (∀ first ∈ (parameterText arity).head?, isControlLetter first = false) ∧
    (parameterText arity).count '#' = arity := by decide +kernel

/-- Arguments of a call, each in braces. -/
def groupsOf (arguments : List Text) : Text :=
  arguments.flatMap fun argument => '{' :: (argument ++ ['}'])

/-- Groups have no backslash but those of the arguments. -/
theorem backslash_not_mem_groupsOf {arguments : List Text}
    (plain : ∀ argument ∈ arguments, '\\' ∉ argument) : '\\' ∉ groupsOf arguments := by
  simp only [groupsOf, List.mem_flatMap, not_exists, not_and]
  intro argument mem
  simp [plain argument mem]

/-- A control word ends at groups. -/
theorem endsControlWord_groupsOf (arguments : List Text) :
    endsControlWord (groupsOf arguments) = true := by
  cases arguments <;> rfl

/-- A document that defines a macro, makes an alias of it, and calls the one or the other. -/
def aliasDocument (arity : Nat) (body called : Text) (arguments : List Text) : Text :=
  "\\def\\b".toList ++ (parameterText arity ++ '{' :: (body ++ '}' ::
    ("\\let\\a\\b ".toList ++ '\\' :: (called ++ groupsOf arguments))))

/-- The macro of such a document. -/
def targetMacro (arity : Nat) (body : Text) : Macro := .withRequired "b".toList arity body

/-- The alias of such a document, a macro without parameters that calls the other one. -/
def aliasMacro : Macro := .plain "a".toList "\\b".toList

/-- A primitive definition with numbered parameters is read. -/
theorem primitive_target {arity : Nat} {body : Text} (few : arity ≤ maxArity)
    (balanced : BraceInside body) (rest : Text) :
    DefinitionReading.primitive
        ("\\b".toList ++ (parameterText arity ++ '{' :: (body ++ '}' :: rest))) =
      .found (targetMacro arity body) rest := by
  obtain ⟨plain, stops, count⟩ := parameterText_plain arity few
  have ends : endsControlWord (parameterText arity ++ '{' :: (body ++ '}' :: rest)) = true := by
    refine endsControlWord_iff.2 fun first isFirst => ?_
    cases text : parameterText arity with
    | nil =>
      rw [text, List.nil_append, List.head?_cons, Option.mem_some_iff] at isFirst
      subst isFirst
      decide
    | cons c more =>
      rw [text, List.cons_append] at isFirst
      exact stops first (text ▸ isFirst)
  have name : DefinitionReading.name?
      ("\\b".toList ++ (parameterText arity ++ '{' :: (body ++ '}' :: rest))) =
        some ("b".toList, parameterText arity ++ '{' :: (body ++ '}' :: rest)) :=
    read?_append (.inl (by decide)) fun _ => ends
  have accepted : ∀ c ∈ parameterText arity, (c != '{') = true := fun c mem =>
    bne_iff_ne.2 (plain c mem).1
  have stop : ∀ first ∈ ('{' :: (body ++ '}' :: rest)).head?, (first != '{') = false := by simp
  have all : (parameterText arity).all DefinitionReading.isParameterText = true :=
    List.all_eq_true.2 fun c mem => (plain c mem).2
  rw [DefinitionReading.primitive, name]
  simp [takeWhile_run accepted stop, dropWhile_run accepted stop, all, DefinitionReading.body,
    readGroup_inside .braces rest balanced, count, targetMacro]

/-- No definition is read behind an alias and in its call. -/
theorem occurrences_aliasCall {called : Text} {arguments : List Text}
    (isCall : called = "a".toList ∨ called = "b".toList)
    (plain : ∀ argument ∈ arguments, '\\' ∉ argument) :
    (keyword DefinitionFamily.primitive.words.contains).occurrences
      ("a\\b ".toList ++ '\\' :: (called ++ groupsOf arguments)) = [] := by
  have commands := (Reader.guarded_keyword DefinitionFamily.primitive.words.contains).readsCommands
  have free := backslash_not_mem_groupsOf plain
  have stops := endsControlWord_iff.1 (endsControlWord_groupsOf arguments)
  have word : IsWord called ∧ DefinitionFamily.primitive.words.contains called = false := by
    rcases isCall with rfl | rfl <;> decide
  have unread : (keyword DefinitionFamily.primitive.words.contains).read
      ('\\' :: (called ++ groupsOf arguments ++ [])) = none := by
    apply Reader.guarded_keyword
    rw [List.append_nil, Reader.controlWord_read _ word.1.2 stops, word.2]
    rfl
  have freeCalled : '\\' ∉ called := fun mem => absurd (word.1.2 _ mem) (by decide)
  have call : (keyword DefinitionFamily.primitive.words.contains).SilentOver
      ('\\' :: (called ++ groupsOf arguments)) [] :=
    commands.silentOver_command (by simp [freeCalled, free]) unread
  have behind : (keyword DefinitionFamily.primitive.words.contains).SilentOver "\\b ".toList
      ('\\' :: (called ++ groupsOf arguments) ++ []) :=
    commands.silentOver_command (by decide) rfl
  have letter : (keyword DefinitionFamily.primitive.words.contains).SilentOver "a".toList
      ("\\b ".toList ++ '\\' :: (called ++ groupsOf arguments) ++ []) :=
    commands.silentOver _ (by decide)
  exact Reader.occurrences_of_silent (letter.append (behind.append call))

/-- The definition and the alias are collected, and the document is left with the call. -/
theorem collect_aliasDocument {arity : Nat} {body called : Text} {arguments : List Text}
    (few : arity ≤ maxArity) (balanced : BraceInside body)
    (isCall : called = "a".toList ∨ called = "b".toList)
    (plain : ∀ argument ∈ arguments, '\\' ∉ argument) :
    MacroTable.collect NameMap.empty .primitive (aliasDocument arity body called arguments) =
      (' ' :: '\\' :: (called ++ groupsOf arguments),
        MacroTable.ofMacros [targetMacro arity body, aliasMacro], []) := by
  have readLet : (keyword DefinitionFamily.primitive.words.contains).read
      ("\\let\\a\\b ".toList ++ '\\' :: (called ++ groupsOf arguments)) = some
        (⟨"let".toList, "\\a\\b ".toList ++ '\\' :: (called ++ groupsOf arguments)⟩,
          "a\\b ".toList ++ '\\' :: (called ++ groupsOf arguments)) := rfl
  generalize isLet : "\\let\\a\\b ".toList ++ '\\' :: (called ++ groupsOf arguments) = letText
    at readLet
  have readDef : (keyword DefinitionFamily.primitive.words.contains).read
      (aliasDocument arity body called arguments) = some
        (⟨"def".toList, "\\b".toList ++ (parameterText arity ++ '{' :: (body ++ '}' :: letText))⟩,
          'b' :: (parameterText arity ++ '{' :: body) ++ '}' :: letText) := by
    -- Rewriting with the definition would decode the spelled commands, which takes seconds.
    delta aliasDocument
    rw [isLet, List.cons_append, List.append_assoc, List.cons_append]
    rfl
  obtain ⟨inner, split, passed⟩ := keyword_occurrences_brace
    DefinitionFamily.primitive.words.contains ('b' :: (parameterText arity ++ '{' :: body)) letText
  have isDefinition : DefinitionReading.ofKeyword .primitive ⟨"def".toList,
      "\\b".toList ++ (parameterText arity ++ '{' :: (body ++ '}' :: letText))⟩ =
        .found (targetMacro arity body) letText := primitive_target few balanced letText
  have isAlias : DefinitionReading.ofKeyword .primitive ⟨"let".toList,
      "\\a\\b ".toList ++ '\\' :: (called ++ groupsOf arguments)⟩ =
        .found aliasMacro (' ' :: '\\' :: (called ++ groupsOf arguments)) := rfl
  have final : ((keyword DefinitionFamily.primitive.words.contains).occurrences
      (aliasDocument arity body called arguments)).foldl (Collection.step .primitive)
        ⟨aliasDocument arity body called arguments, [], NameMap.empty, []⟩ =
      ⟨' ' :: '\\' :: (called ++ groupsOf arguments), [[], []],
        MacroTable.ofMacros [targetMacro arity body, aliasMacro], []⟩ := by
    rw [Reader.occurrences_of_read readDef, split, Reader.occurrences_of_read readLet,
      occurrences_aliasCall isCall plain, List.foldl_cons, List.foldl_append, List.foldl_cons,
      List.foldl_nil, Collection.step_of_found isDefinition (by decide),
      Collection.foldl_step_of_passed passed, Collection.step_of_found isAlias (by decide)]
    rfl
  rw [MacroTable.collect, final]
  rfl

/-- A body of a macro that can be made an alias of in such a document: every number sign stands for
an argument, and the body calls neither the macro nor the alias. -/
structure Aliased (arity : Nat) (body : Text) : Prop where
  /-- There are at most nine parameters. -/
  few : arity ≤ maxArity
  /-- The body is what stands inside a brace group. -/
  balanced : BraceInside body
  /-- A number sign is followed by the number of a parameter. -/
  numbered : ∀ place ∈ body.tails, place.head? = some '#' →
    ∃ digit ∈ place.tail.head?, '1' ≤ digit ∧ digit.toNat < '1'.toNat + arity
  /-- The alias is not called. -/
  noAlias : "a".toList ∉ names body
  /-- The macro is not called. -/
  noTarget : "b".toList ∉ names body

/-- The macros of such a document. -/
def aliasTable (arity : Nat) (body : Text) : MacroTable :=
  .ofMacros [targetMacro arity body, aliasMacro]

namespace Aliased

variable {arity : Nat} {body : Text} {arguments : List Text}

/-- Without parameters there are no number signs in the body. -/
theorem sign_not_mem (aliased : Aliased 0 body) : '#' ∉ body := by
  intro mem
  obtain ⟨front, rest, whole⟩ := List.append_of_mem mem
  have isPlace : '#' :: rest ∈ body.tails := (List.mem_tails _ _).2 ⟨front, whole.symm⟩
  obtain ⟨digit, -, low, high⟩ := aliased.numbered _ isPlace rfl
  exact absurd (Char.le_def.1 low) (by
    rw [UInt32.le_iff_toNat_le, Nat.not_le]
    exact high)

/-- The macro has its parameters, all of them required. -/
theorem parameters_target (aliased : Aliased arity body) :
    (targetMacro arity body).parameters = List.replicate arity .required := by
  rw [targetMacro, Macro.withRequired, Nat.min_eq_left aliased.few]

/-- The entries of the table. -/
theorem entries_table (arity : Nat) (body : Text) : (aliasTable arity body).entries =
    [("b".toList, targetMacro arity body), ("a".toList, aliasMacro)] := rfl

/-- What is found in the table. -/
theorem find?_table (arity : Nat) (body name : Text) :
    NameMap.find? (aliasTable arity body) name =
      if "b".toList = name then some (targetMacro arity body)
      else if "a".toList = name then some aliasMacro else none := by
  rw [NameMap.find?, entries_table]
  rfl

/-- Macros are entered under their names. -/
theorem keyed_table (arity : Nat) (body : Text) : (aliasTable arity body).Keyed :=
  (MacroTable.keyed_empty.define _).define _

/-- All parameters are required. -/
theorem plain_table (arity : Nat) (body : Text) : (aliasTable arity body).PlainDefaults := by
  intro definition mem parameter inParameters callee called
  have required : parameter = .required := by
    rw [NameMap.values, entries_table] at mem
    simp only [List.map_cons, List.map_nil, List.mem_cons, List.not_mem_nil, or_false] at mem
    rcases mem with rfl | rfl <;> exact List.eq_of_mem_replicate inParameters
  rw [required] at called
  cases called

/-- The body of the macro calls nothing of the table. -/
theorem find?_eq_none (aliased : Aliased arity body) {name : Text} (called : name ∈ names body) :
    NameMap.find? (aliasTable arity body) name = none := by
  have notTarget : "b".toList ≠ name := fun same => aliased.noTarget (same ▸ called)
  have notAlias : "a".toList ≠ name := fun same => aliased.noAlias (same ▸ called)
  rw [find?_table, if_neg notTarget, if_neg notAlias]

/-- The alias calls the macro, and the macro calls neither. -/
theorem selfReferential_eq_nil (aliased : Aliased arity body) :
    (aliasTable arity body).selfReferential = [] := by
  refine MacroTable.selfReferential_eq_nil (MacroTable.acyclic_of_upwards _
    (fun name => if name = "a".toList then 0 else 1) ?_)
  rw [entries_table]
  refine List.forall_mem_cons.2 ⟨fun callee called inside => ?_, List.forall_mem_singleton.2 ?_⟩
  · rw [NameMap.contains, aliased.find?_eq_none called] at inside
    cases inside
  · intro callee called _
    have calls : names aliasMacro.body = ["b".toList] := by decide +kernel
    rw [calls, List.mem_singleton] at called
    rw [called]
    decide

/-- Resolution expands the bodies of both macros and drops none. -/
theorem find?_resolve (aliased : Aliased arity body) (name : Text) :
    NameMap.find? (aliasTable arity body).resolve.1 name =
      (NameMap.find? (aliasTable arity body) name).map fun original =>
        { original with body := (aliasTable arity body).resolve.1.expand original.body } := by
  rw [MacroTable.find?_resolve (keyed_table arity body) (plain_table arity body),
    MacroTable.kept_eq_self aliased.selfReferential_eq_nil]

/-- Defaults of the resolved table call nothing. -/
theorem plain_resolve (arity : Nat) (body : Text) :
    (aliasTable arity body).resolve.1.PlainDefaults :=
  MacroTable.plain_resolve (keyed_table arity body) (plain_table arity body)

/-- The macro keeps its body when the table is resolved. -/
theorem find?_resolve_target (aliased : Aliased arity body) :
    NameMap.find? (aliasTable arity body).resolve.1 "b".toList =
      some (targetMacro arity body) := by
  have unchanged : (aliasTable arity body).resolve.1.expand body = body := by
    refine MacroTable.expand_of_absent (plain_resolve arity body) fun name called => ?_
    rw [aliased.find?_resolve, aliased.find?_eq_none called, Option.map_none]
  have sameBody : (targetMacro arity body).body = body := rfl
  rw [aliased.find?_resolve, find?_table, if_pos rfl, Option.map_some, sameBody, unchanged]
  rfl

/-- The body of the alias is the body of the macro if that has no parameters, and otherwise a call
of it without arguments. -/
theorem find?_resolve_alias (aliased : Aliased arity body) :
    NameMap.find? (aliasTable arity body).resolve.1 "a".toList =
      some (.plain "a".toList (if arity = 0 then body else "\\b".toList)) := by
  have acyclic := (plain_resolve arity body).acyclic
  have isWord : IsWord "b".toList := by decide
  have expanded : (aliasTable arity body).resolve.1.expand "\\b".toList =
      if arity = 0 then body else "\\b".toList := by
    cases arity with
    | zero =>
      have read := MacroTable.item_read_written isWord aliased.find?_resolve_target
        (.nil : MacroTable.Written [] _ _ []) fun _ => rfl
      have kept : (targetMacro 0 body).instantiate [] = body :=
        Macro.substitute_of_not_mem aliased.sign_not_mem
      rw [if_pos rfl]
      calc
        _ = (targetMacro 0 body).instantiate [] ++
            (aliasTable 0 body).resolve.1.expand [] := MacroTable.expand_of_read acyclic read
        _ = body := by
          rw [kept, MacroTable.expand_of_not_mem (plain_resolve 0 body) List.not_mem_nil,
            List.append_nil]
    | succ arity =>
      have unread : MacroTable.arguments? (targetMacro (arity + 1) body).parameters [] = none := by
        rw [aliased.parameters_target, List.replicate_succ]
        rfl
      have read := (aliasTable (arity + 1) body).resolve.1.item_read (.inl isWord)
        fun _ => (rfl : endsControlWord [] = true)
      rw [MacroTable.itemAfter_of_unread aliased.find?_resolve_target unread] at read
      rw [if_neg (Nat.succ_ne_zero arity)]
      calc
        _ = '\\' :: "b".toList ++ (aliasTable (arity + 1) body).resolve.1.expand [] :=
          MacroTable.expand_of_read acyclic read
        _ = "\\b".toList := by
          rw [MacroTable.expand_of_not_mem (plain_resolve _ body) List.not_mem_nil]
          rfl
  have notTarget : "b".toList ≠ "a".toList := by decide
  have isCall : aliasMacro.body = "\\b".toList := rfl
  rw [aliased.find?_resolve, find?_table, if_neg notTarget, if_pos rfl, Option.map_some, isCall,
    expanded]
  rfl

/-- Arguments in braces are written for required parameters. -/
theorem written_groupsOf (inside : ∀ argument ∈ arguments, BraceInside argument) :
    MacroTable.Written [] (List.replicate arguments.length .required) arguments
      (groupsOf arguments) := by
  induction arguments with
  | nil => exact .nil
  | cons first arguments ih =>
    rw [List.forall_mem_cons] at inside
    have more := MacroTable.Written.required inside.1 (ih inside.2)
    simpa [groupsOf, List.replicate_succ] using more

/-- A call of the macro takes the arguments into its body. -/
theorem text_target (aliased : Aliased arity body) (count : arguments.length = arity)
    (inside : ∀ argument ∈ arguments, BraceInside argument)
    (plain : ∀ argument ∈ arguments, '\\' ∉ argument) :
    (DefinitionFamily.primitive.expand (aliasDocument arity body "b".toList arguments)).text =
      ' ' :: (targetMacro arity body).instantiate arguments := by
  have acyclic := (plain_resolve arity body).acyclic
  have written : MacroTable.Written [] (targetMacro arity body).parameters arguments
      (groupsOf arguments) := by
    rw [aliased.parameters_target, ← count]
    exact written_groupsOf inside
  have read := MacroTable.item_read_written (by decide : IsWord "b".toList)
    aliased.find?_resolve_target written fun _ => rfl
  rw [List.append_nil] at read
  have kept : arguments.map (aliasTable arity body).resolve.1.expand = arguments :=
    (List.map_congr_left fun argument mem =>
      MacroTable.expand_of_not_mem (plain_resolve arity body) (plain argument mem)).trans
        (List.map_id _)
  simp only [DefinitionFamily.expand,
    collect_aliasDocument aliased.few aliased.balanced (.inr rfl) plain]
  change (aliasTable arity body).resolve.1.expand _ = _
  calc
    _ = ' ' :: (aliasTable arity body).resolve.1.expand
        ('\\' :: ("b".toList ++ groupsOf arguments)) :=
      MacroTable.expand_character acyclic fun same => absurd same (by decide)
    _ = ' ' :: ((targetMacro arity body).instantiate
        (arguments.map (aliasTable arity body).resolve.1.expand) ++
          (aliasTable arity body).resolve.1.expand []) :=
      congrArg _ (MacroTable.expand_of_read acyclic read)
    _ = ' ' :: (targetMacro arity body).instantiate arguments := by
      rw [kept, MacroTable.expand_of_not_mem (plain_resolve arity body) List.not_mem_nil,
        List.append_nil]

/-- A call of the alias takes no arguments. They stay behind the body of the alias. -/
theorem text_alias (aliased : Aliased arity body) (count : arguments.length = arity)
    (plain : ∀ argument ∈ arguments, '\\' ∉ argument) :
    (DefinitionFamily.primitive.expand (aliasDocument arity body "a".toList arguments)).text =
      ' ' :: if arity = 0 then body else "\\b".toList ++ groupsOf arguments := by
  have acyclic := (plain_resolve arity body).acyclic
  have read := MacroTable.item_read_written (by decide : IsWord "a".toList)
    aliased.find?_resolve_alias (.nil : MacroTable.Written (groupsOf arguments) _ _ [])
    fun _ => endsControlWord_groupsOf arguments
  have stays : '#' ∉ if arity = 0 then body else "\\b".toList := by
    by_cases none : arity = 0
    · subst none
      rw [if_pos rfl]
      exact aliased.sign_not_mem
    · rw [if_neg none]
      decide
  simp only [DefinitionFamily.expand,
    collect_aliasDocument aliased.few aliased.balanced (.inl rfl) plain]
  change (aliasTable arity body).resolve.1.expand _ = _
  calc
    _ = ' ' :: (aliasTable arity body).resolve.1.expand
        ('\\' :: ("a".toList ++ groupsOf arguments)) :=
      MacroTable.expand_character acyclic fun same => absurd same (by decide)
    _ = ' ' :: (Macro.substitute 0 [] (if arity = 0 then body else "\\b".toList) ++
        (aliasTable arity body).resolve.1.expand (groupsOf arguments)) :=
      congrArg _ (MacroTable.expand_of_read acyclic read)
    _ = ' ' :: ((if arity = 0 then body else "\\b".toList) ++ groupsOf arguments) := by
      rw [Macro.substitute_of_not_mem stays, MacroTable.expand_of_not_mem
        (plain_resolve arity body) (backslash_not_mem_groupsOf plain)]
    _ = ' ' :: if arity = 0 then body else "\\b".toList ++ groupsOf arguments := by
      by_cases none : arity = 0
      · rw [if_pos none, if_pos none, List.eq_nil_of_length_eq_zero (count.trans none)]
        simp [groupsOf]
      · rw [if_neg none, if_neg none]

end Aliased

/-- An alias of a macro without parameters is expanded like the macro. An alias of any other macro
puts in a call of the macro that is not expanded, so that the two documents differ unless the
expansion of the macro spells that call. -/
theorem alias_text {arity : Nat} {body : Text} {arguments : List Text}
    (aliased : Aliased arity body) (count : arguments.length = arity)
    (inside : ∀ argument ∈ arguments, BraceInside argument ∧ '\\' ∉ argument) :
    (DefinitionFamily.primitive.expand (aliasDocument arity body "b".toList arguments)).text =
      ' ' :: (targetMacro arity body).instantiate arguments ∧
    (DefinitionFamily.primitive.expand (aliasDocument arity body "a".toList arguments)).text =
      ' ' :: (if arity = 0 then body else "\\b".toList ++ groupsOf arguments) ∧
    ((DefinitionFamily.primitive.expand (aliasDocument arity body "a".toList arguments)).text =
        (DefinitionFamily.primitive.expand (aliasDocument arity body "b".toList arguments)).text ↔
      arity = 0 ∨
        (targetMacro arity body).instantiate arguments = "\\b".toList ++ groupsOf arguments) := by
  have ofTarget := aliased.text_target count (fun argument mem => (inside argument mem).1)
    fun argument mem => (inside argument mem).2
  have ofAlias := aliased.text_alias count fun argument mem => (inside argument mem).2
  refine ⟨ofTarget, ofAlias, ?_⟩
  rw [ofTarget, ofAlias, List.cons.injEq, and_iff_right rfl]
  by_cases none : arity = 0
  · subst none
    have kept : (targetMacro 0 body).instantiate arguments = body := by
      rw [List.eq_nil_of_length_eq_zero count]
      exact Macro.substitute_of_not_mem aliased.sign_not_mem
    simp [kept]
  · rw [if_neg none, or_iff_right none, eq_comm]

/-- An alias of a macro with two parameters. The body of the macro names a keyword, but nothing is
defined there. -/
theorem alias_text_two : Aliased 2 "[#2]\\let\x7b#1\x7d".toList ∧
    (DefinitionFamily.primitive.expand (aliasDocument 2 "[#2]\\let\x7b#1\x7d".toList "b".toList
      ["x".toList, "\x7by\x7d".toList])).text = " [\x7by\x7d]\\let\x7bx\x7d".toList ∧
    (DefinitionFamily.primitive.expand (aliasDocument 2 "[#2]\\let\x7b#1\x7d".toList "a".toList
      ["x".toList, "\x7by\x7d".toList])).text = " \\b\x7bx\x7d\x7b\x7by\x7d\x7d".toList := by
  have aliased : Aliased 2 "[#2]\\let\x7b#1\x7d".toList :=
    ⟨by decide, inside_of_close? .braces (by decide +kernel), by decide +kernel, by decide +kernel,
      by decide +kernel⟩
  have inside : ∀ argument ∈ ["x".toList, "\x7by\x7d".toList],
      BraceInside argument ∧ '\\' ∉ argument := by
    refine List.forall_mem_cons.2 ⟨⟨inside_of_close? .braces (by decide +kernel), by decide⟩, ?_⟩
    exact List.forall_mem_singleton.2 ⟨inside_of_close? .braces (by decide +kernel), by decide⟩
  obtain ⟨target, other, -⟩ := alias_text aliased rfl inside
  refine ⟨aliased, target.trans (by decide +kernel), other.trans (by decide +kernel)⟩

/-- An alias of a macro with one parameter is not expanded like the macro: the call of the macro
that it puts in stays, although the macro is in force and its argument follows. -/
theorem alias_text_one : Aliased 1 "(#1)".toList ∧ BraceInside "x".toList ∧
    (DefinitionFamily.primitive.expand
      "\\def\\b#1\x7b(#1)\x7d\\let\\a\\b \\b\x7bx\x7d".toList).text = " (x)".toList ∧
    (DefinitionFamily.primitive.expand
      "\\def\\b#1\x7b(#1)\x7d\\let\\a\\b \\a\x7bx\x7d".toList).text = " \\b\x7bx\x7d".toList ∧
    " (x)".toList ≠ " \\b\x7bx\x7d".toList := by
  have aliased : Aliased 1 "(#1)".toList :=
    ⟨by decide, inside_of_close? .braces (by decide +kernel), by decide +kernel, by decide +kernel,
      by decide +kernel⟩
  have inside : ∀ argument ∈ ["x".toList], BraceInside argument :=
    List.forall_mem_singleton.2 (inside_of_close? .braces (by decide +kernel))
  have plain : ∀ argument ∈ ["x".toList], '\\' ∉ argument := by decide
  have target := aliased.text_target rfl inside plain
  have other := aliased.text_alias rfl plain
  refine ⟨aliased, inside _ (List.mem_singleton_self _), ?_, ?_, by decide⟩
  · exact target.trans (by decide +kernel)
  · exact other.trans (by decide +kernel)

end TexStatements
