import Mathlib.Data.Fintype.Card
import Mathlib.Data.Fintype.EquivFin
import Mathlib.Data.Fintype.Sets
import Mathlib.Logic.Relation
import TexStatements.Proofs.Macro.Row

/-!
# How deep expansion goes

Expansion goes into the arguments of the calls that it finds, and a default stands for an argument
that is not given. A given argument is shorter than the text it is in, but a default is no part of
that text, and where a default leads back to itself the recursion into arguments has no end.

Where it has an end, no default is entered inside itself. So the recursion goes no deeper than
`MacroTable.depthBound`, `MacroTable.ends` tells whether it ends (`ends_iff_acc`), a text has an
expansion exactly if it does (`expand?_isSome_iff`), and `MacroTable.expand` is then the recursion
without any bound (`expand_eq_of_acc`). It ends for every text where no macro reaches itself through
defaults, whatever the bodies call (`expansion_terminates`).
-/
namespace TexStatements

open ControlSequence

namespace MacroTable

open Relation

variable {table : MacroTable} {caller callee name text argument : Text} {definition : Macro}
  {levels more : Nat}

/-- A default of one macro contains a control sequence that names another one of the table. -/
def DefaultCalls (table : MacroTable) (caller callee : Text) : Prop :=
  ∃ definition, NameMap.find? table caller = some definition ∧
    (∃ parameter ∈ definition.parameters, callee ∈ parameter.callees) ∧
    NameMap.contains table callee = true

/-- Where defaults lead upwards no macro reaches itself through them. -/
theorem defaults_acyclic_of_upwards (table : MacroTable) (rank : Text → Nat)
    (upwards : ∀ entry ∈ table.entries, ∀ parameter ∈ entry.2.parameters,
      ∀ callee ∈ parameter.callees, NameMap.contains table callee = true →
        rank entry.1 < rank callee) (name : Text) :
    ¬TransGen table.DefaultCalls name name := by
  intro reaches
  have rises : TransGen (· < ·) (rank name) (rank name) := by
    refine reaches.lift rank fun caller callee calls => ?_
    obtain ⟨definition, found, ⟨parameter, inParameters, called⟩, inside⟩ := calls
    exact upwards _ (NameMap.find?_eq_some_iff.1 found) parameter inParameters callee called inside
  rw [transGen_eq_self] at rises
  exact Nat.lt_irrefl _ rises

/-- Plain defaults lead nowhere. -/
theorem PlainDefaults.acyclic (plain : table.PlainDefaults) (name : Text) :
    ¬TransGen table.DefaultCalls name name := by
  intro reaches
  obtain ⟨callee, ⟨definition, found, ⟨parameter, inParameters, called⟩, inside⟩, -⟩ :=
    TransGen.head'_iff.1 reaches
  have absent := plain definition (NameMap.mem_values_of_find? found) parameter inParameters
    callee called
  rw [inside] at absent
  cases absent

/-- Expansion of a text goes into an argument: the text has a call with that argument, which is
given or a default. -/
def Enters (table : MacroTable) (argument text : Text) : Prop :=
  ∃ found ∈ table.item.occurrences text, ∃ call,
    found.value = .call call ∧ argument ∈ call.arguments

/-- A text that expansion may go into: a shorter one with control sequences of the text alone, or
a default of a macro that the text calls. -/
def Arises (table : MacroTable) (argument text : Text) : Prop :=
  (argument.length < text.length ∧ names argument ⊆ names text) ∨
    ∃ name ∈ names text, ∃ definition, NameMap.find? table name = some definition ∧
      .optional argument ∈ definition.parameters

/-- What arises of a shorter text, with control sequences of the text alone, arises of the text. -/
theorem Arises.mono {rest : Text} (arises : table.Arises argument rest)
    (short : rest.length ≤ text.length) (known : names rest ⊆ names text) :
    table.Arises argument text := by
  rcases arises with ⟨less, inside⟩ | ⟨name, named, definition, isMacro, default⟩
  · exact .inl ⟨Nat.lt_of_lt_of_le less short, fun _ mem => known (inside mem)⟩
  · exact .inr ⟨name, known named, definition, isMacro, default⟩

/-- What is read as an item is a control sequence and, if it is a call, its arguments. -/
theorem item_read_cases {rest : Text} {value : Item}
    (read : table.item.read text = some (value, rest)) :
    ∃ name tail, text = '\\' :: (name ++ tail) ∧ IsName name ∧
      (IsWord name → endsControlWord tail = true) ∧ table.itemAfter name tail = (value, rest) := by
  simp only [item, Reader.andThen, Option.bind_eq_bind, Option.bind_eq_some_iff,
    Option.some.injEq] at read
  obtain ⟨⟨name, tail⟩, isSequence, after⟩ := read
  obtain ⟨valid, ends⟩ := read?_valid isSequence
  exact ⟨name, tail, read?_eq_append isSequence, valid, ends, after⟩

/-- Where no item is read no control sequence starts. -/
theorem plain_of_item_unread {first : Char} {tail : Text}
    (unread : table.item.read (first :: tail) = none) : first = '\\' → tail = [] := by
  rw [← read?_eq_none_iff]
  cases read : read? (first :: tail) with
  | none => rfl
  | some found =>
    have isSequence : reader.read (first :: tail) = some found := read
    simp [item, Reader.andThen, isSequence] at unread

/-- A call has the arguments of its macro. -/
theorem itemAfter_cases {tail rest : Text} {value : Item}
    (after : table.itemAfter name tail = (value, rest)) :
    (value = .kept name ∧ rest = tail) ∨
      ∃ definition arguments, NameMap.find? table name = some definition ∧
        arguments? definition.parameters tail = some (arguments, rest) ∧
        value = .call ⟨definition, arguments⟩ := by
  cases found : NameMap.find? table name with
  | none =>
    rw [itemAfter_of_absent found, Prod.mk.injEq] at after
    exact .inl ⟨after.1.symm, after.2.symm⟩
  | some definition =>
    cases read : arguments? definition.parameters tail with
    | none =>
      rw [itemAfter_of_unread found read, Prod.mk.injEq] at after
      exact .inl ⟨after.1.symm, after.2.symm⟩
    | some result =>
      obtain ⟨arguments, behind⟩ := result
      rw [itemAfter_of_read found read, Prod.mk.injEq] at after
      exact .inr ⟨definition, arguments, rfl, after.2 ▸ read, after.1.symm⟩

/-- What is entered arises of the text. -/
theorem Enters.arises (enters : table.Enters argument text) : table.Arises argument text := by
  obtain ⟨found, occurs, call, isCall, inCall⟩ := enters
  fun_induction table.item.occurrences text with
  | case1 => cases occurs
  | case2 first tail value rest read ih =>
    obtain ⟨name, behind, whole, valid, ends, after⟩ := item_read_cases read
    have short : behind.length < (first :: tail).length := by
      rw [whole, List.length_cons, List.length_append]
      omega
    have namesText : names (first :: tail) = name :: names behind := by
      rw [whole, names_of_sequence valid ends]
    have known : names behind ⊆ names (first :: tail) :=
      namesText ▸ List.subset_cons_self name (names behind)
    rcases itemAfter_cases after with
      ⟨isKept, rfl⟩ | ⟨definition, arguments, isMacro, readAll, isRead⟩
    · rcases List.mem_cons.1 occurs with rfl | later
      · rw [isKept] at isCall
        cases isCall
      · exact (ih later).mono (Nat.le_of_lt short) known
    · obtain ⟨inArguments, inRest⟩ := names_of_arguments? readAll
      rcases List.mem_cons.1 occurs with rfl | later
      · rw [isRead, Item.call.injEq] at isCall
        rw [← isCall] at inCall
        rcases inArguments argument inCall with ⟨inside, less⟩ | default
        · exact .inl ⟨Nat.lt_trans less short, fun _ mem => known (inside mem)⟩
        · exact .inr ⟨name, namesText ▸ List.mem_cons_self .., definition, isMacro, default⟩
      · exact (ih later).mono (Nat.le_of_lt (Nat.lt_of_le_of_lt
          (arguments?_suffix readAll).length_le short)) fun _ mem => known (inRest mem)
  | case3 first tail unread ih =>
    have plain := names_of_character (plain_of_item_unread unread)
    exact (ih occurs).mono (Nat.le_succ _) (plain ▸ List.Subset.refl _)

/-- One pass over a text depends on how the arguments are expanded that it goes into. -/
theorem replaceAll_congr_of_enters {expandArgument other : Text → Text}
    (same : ∀ argument, table.Enters argument text → expandArgument argument = other argument) :
    table.item.replaceAll (Item.replacement expandArgument) text =
      table.item.replaceAll (Item.replacement other) text := by
  refine Reader.replaceAll_congr fun found occurs => ?_
  cases isItem : found.value with
  | kept name => rfl
  | call call =>
    have arguments : call.arguments.map expandArgument = call.arguments.map other :=
      List.map_congr_left fun argument mem => same argument ⟨found, occurs, call, isItem, mem⟩
    rw [Item.replacement, Item.replacement, arguments]

/-- Expansion of a text goes fewer than so many levels into arguments. -/
inductive ExpandsWithin (table : MacroTable) : Nat → Text → Prop
  /-- Each argument that is entered leaves one level less. -/
  | intro {levels : Nat} {text : Text}
      (inside : ∀ argument, table.Enters argument text → ExpandsWithin table levels argument) :
      ExpandsWithin table (levels + 1) text

namespace ExpandsWithin

/-- Levels may be left over. -/
theorem mono (within : table.ExpandsWithin levels text) (le : levels ≤ more) :
    table.ExpandsWithin more text := by
  induction within generalizing more with
  | intro inside ih =>
    obtain ⟨less, rfl⟩ := Nat.exists_eq_add_of_le' (Nat.le_trans (Nat.le_add_left 1 _) le)
    exact .intro fun argument enters => ih argument enters (Nat.le_of_succ_le_succ le)

/-- Where levels are left over, one more changes nothing. -/
theorem expandWithin_eq (within : table.ExpandsWithin levels text) (le : levels ≤ more) :
    table.expandWithin more text = table.expandWithin levels text := by
  induction within generalizing more with
  | @intro levels text inside ih =>
    obtain ⟨less, rfl⟩ := Nat.exists_eq_add_of_le' (Nat.le_trans (Nat.le_add_left 1 _) le)
    exact replaceAll_congr_of_enters fun argument enters =>
      ih argument enters (Nat.le_of_succ_le_succ le)

/-- All numbers of levels that suffice give the same. -/
theorem expandWithin_unique (within : table.ExpandsWithin levels text)
    (other : table.ExpandsWithin more text) :
    table.expandWithin levels text = table.expandWithin more text := by
  calc
    table.expandWithin levels text = table.expandWithin (max levels more) text :=
      (within.expandWithin_eq (Nat.le_max_left _ _)).symm
    _ = table.expandWithin more text := other.expandWithin_eq (Nat.le_max_right _ _)

/-- Texts are entered one in another only so far. -/
theorem acc (within : table.ExpandsWithin levels text) : Acc table.Enters text := by
  induction within with
  | intro inside ih => exact ⟨_, ih⟩

/-- A row of texts, each entered in the one before, is shorter than the number of levels. -/
theorem length_lt (within : table.ExpandsWithin levels text) {entered : List Text}
    (chain : (text :: entered).IsChain fun outer inner => table.Enters inner outer) :
    entered.length < levels := by
  induction within generalizing entered with
  | intro inside ih =>
    cases entered with
    | nil => exact Nat.succ_pos _
    | cons first entered =>
      rw [List.isChain_cons_cons] at chain
      exact Nat.succ_lt_succ (ih first chain.1 chain.2)

end ExpandsWithin

/-- What expansion goes into is what the text has as arguments of its calls. -/
@[simp] theorem mem_entered : argument ∈ table.entered text ↔ table.Enters argument text := by
  unfold entered Enters
  rw [List.mem_flatMap]
  refine exists_congr fun found => and_congr_right fun _ => ?_
  cases found.value with
  | kept name => simp [Item.arguments]
  | call call => simp [Item.arguments]

/-- The levels are counted as expansion goes into arguments. -/
theorem endsWithin_iff : table.endsWithin levels text = true ↔ table.ExpandsWithin levels text := by
  induction levels generalizing text with
  | zero => exact ⟨nofun, nofun⟩
  | succ levels ih =>
    simp only [endsWithin, List.all_eq_true, mem_entered, ih]
    constructor
    · exact .intro
    · intro within
      cases within with
      | intro inside => exact inside

section Total

variable {α β : Type} {depth : α → Nat} {elements : List α}

/-- The levels of two lists add up. -/
theorem totalDepth_append (more : List α) :
    totalDepth depth (elements ++ more) = totalDepth depth elements + totalDepth depth more := by
  induction elements with
  | nil => exact (Nat.zero_add _).symm
  | cons first rest ih =>
    change depth first + totalDepth depth (rest ++ more) =
      depth first + totalDepth depth rest + totalDepth depth more
    rw [ih, Nat.add_assoc]

/-- The levels of the parts of some elements add up to those of the elements. -/
theorem totalDepth_flatMap (depth : β → Nat) (parts : α → List β)
    (elements : List α) : totalDepth depth (elements.flatMap parts) =
      totalDepth (fun element => totalDepth depth (parts element)) elements := by
  induction elements with
  | nil => rfl
  | cons first more ih =>
    change _ = totalDepth depth (parts first) + totalDepth _ more
    rw [List.flatMap_cons, totalDepth_append, ih]

/-- The order of the elements does not matter. -/
theorem totalDepth_perm {permuted : List α} (perm : elements.Perm permuted) :
    totalDepth depth elements = totalDepth depth permuted :=
  perm.foldr_eq' (fun one _ other _ total =>
    Nat.add_left_comm (depth other) (depth one) total) 0

end Total

/-- The parameters of all macros of a table. -/
def allParameters (table : MacroTable) : List Parameter :=
  table.values.flatMap Macro.parameters

/-- A parameter of a macro is one of the table. -/
theorem mem_allParameters {name : Text} {definition : Macro} {parameter : Parameter}
    (found : NameMap.find? table name = some definition) (mem : parameter ∈ definition.parameters) :
    parameter ∈ table.allParameters :=
  List.mem_flatMap.2 ⟨definition, NameMap.mem_values_of_find? found, mem⟩

/-- All parameters of a table together add the levels of its macros. -/
theorem totalDepth_allParameters (table : MacroTable) :
    totalDepth parameterDepth table.allParameters = totalDepth defaultDepth table.values :=
  totalDepth_flatMap parameterDepth Macro.parameters table.values

/-- Where the recursion ends, no text is entered inside itself. -/
theorem not_entered_of_acc (ends : Acc table.Enters text) : ¬TransGen table.Enters text text := by
  have all := ends.transGen
  induction all with
  | intro text _ ih => exact fun entered => ih text entered ends entered

/-- From a text at which the recursion ends, expansion goes no deeper than the length of the text
and the levels of the parameters whose defaults it enters at any depth. -/
theorem expandsWithin_of_acc (ends : Acc table.Enters text) {parameters : List Parameter}
    (all : ∀ default, .optional default ∈ table.allParameters →
      TransGen table.Enters default text → .optional default ∈ parameters) :
    table.ExpandsWithin (text.length + 1 + totalDepth parameterDepth parameters) text := by
  induction ends generalizing parameters with
  | intro text inside ih =>
    rw [Nat.add_right_comm]
    refine .intro fun argument enters => ?_
    rcases enters.arises with ⟨shorter, -⟩ | ⟨name, -, definition, isMacro, isDefault⟩
    · have within := ih argument enters fun default mem entered =>
        all default mem (entered.tail enters)
      exact within.mono (by omega)
    · have mem : .optional argument ∈ parameters :=
        all argument (mem_allParameters isMacro isDefault) (.single enters)
      -- Inside this default it is not entered again, so that the other parameters suffice.
      have others (default : Text) (isParameter : .optional default ∈ table.allParameters)
          (entered : TransGen table.Enters default argument) :
          .optional default ∈ parameters.erase (.optional argument) := by
        have different : default ≠ argument := by
          rintro rfl
          exact not_entered_of_acc (inside default enters) entered
        exact (List.mem_erase_of_ne (by simpa using different)).2
          (all default isParameter (entered.tail enters))
      have within := ih argument enters others
      have levels : totalDepth parameterDepth parameters = totalDepth parameterDepth
          (.optional argument :: parameters.erase (.optional argument)) :=
        totalDepth_perm (List.perm_cons_erase mem)
      rw [levels]
      exact within.mono (Nat.le_add_left _ _)

/-- Where the recursion ends, it does so within its bound. -/
theorem expandsWithin_depthBound (ends : Acc table.Enters text) :
    table.ExpandsWithin (table.depthBound text) text := by
  rw [depthBound, ← totalDepth_allParameters]
  exact expandsWithin_of_acc ends fun _ isParameter _ => isParameter

/-- Expansion of a text ends exactly if the recursion into arguments does. -/
theorem ends_iff_acc : table.ends text = true ↔ Acc table.Enters text :=
  endsWithin_iff.trans ⟨ExpandsWithin.acc, expandsWithin_depthBound⟩

/-- A text has an expansion exactly if the recursion into arguments ends. -/
theorem expand?_isSome_iff : (table.expand? text).isSome = true ↔ Acc table.Enters text := by
  rw [← ends_iff_acc, expand?]
  cases table.ends text <;> simp

/-- Where the recursion into arguments ends, expansion is that recursion. -/
theorem expand_eq_of_acc (ends : Acc table.Enters text) :
    table.expand text = table.item.replaceAll (Item.replacement table.expand) text := by
  have within := expandsWithin_depthBound ends
  rw [expand]
  generalize table.depthBound text = levels at within ⊢
  cases within with
  | intro inside =>
    exact replaceAll_congr_of_enters fun argument enters =>
      (inside argument enters).expandWithin_unique (expandsWithin_depthBound (ends.inv enters))

/-- The recursion into a text ends if it does for the defaults of the macros that the text calls. -/
theorem acc_of_defaults (defaults : ∀ name ∈ names text, ∀ definition,
      NameMap.find? table name = some definition → ∀ default,
        .optional default ∈ definition.parameters → Acc table.Enters default) :
    Acc table.Enters text := by
  induction size : text.length using Nat.strongRecOn generalizing text with
  | ind length ih =>
    subst size
    refine ⟨_, fun argument enters => ?_⟩
    rcases enters.arises with ⟨shorter, known⟩ | ⟨name, named, definition, isMacro, default⟩
    · exact ih argument.length shorter (fun name mem => defaults name (known mem)) rfl
    · exact defaults name named definition isMacro argument default

/-- Where no macro reaches itself through defaults, these lead from macro to macro only so far. -/
theorem defaultCalls_wellFounded (acyclic : ∀ name, ¬TransGen table.DefaultCalls name name) :
    WellFounded fun callee caller : {name // name ∈ NameMap.keys table} =>
      TransGen table.DefaultCalls caller callee := by
  have : IsTrans {name // name ∈ NameMap.keys table} fun callee caller =>
      TransGen table.DefaultCalls caller callee := ⟨fun _ _ _ inner outer => outer.trans inner⟩
  have : Std.Irrefl fun callee caller : {name // name ∈ NameMap.keys table} =>
      TransGen table.DefaultCalls caller callee := ⟨fun name => acyclic name⟩
  exact Finite.wellFounded_of_trans_of_irrefl _

/-- Where no macro reaches itself through defaults, the recursion ends for every default. -/
theorem acc_default (acyclic : ∀ name, ¬TransGen table.DefaultCalls name name)
    (found : NameMap.find? table name = some definition) {default : Text}
    (isDefault : .optional default ∈ definition.parameters) : Acc table.Enters default := by
  have inTable {name : Text} {definition : Macro}
      (found : NameMap.find? table name = some definition) : name ∈ NameMap.keys table :=
    NameMap.contains_iff.1 (NameMap.contains_of_find? found)
  induction macroName : (⟨name, inTable found⟩ : {name // name ∈ NameMap.keys table})
    using (defaultCalls_wellFounded acyclic).induction generalizing name definition default with
  | h current ih =>
    subst macroName
    refine acc_of_defaults fun callee named other isMacro inner isInner => ?_
    have calls : table.DefaultCalls name callee :=
      ⟨definition, found, ⟨_, isDefault, named⟩, NameMap.contains_of_find? isMacro⟩
    exact ih ⟨callee, inTable isMacro⟩ (.single calls) isMacro isInner rfl

/-- Where no macro reaches itself through defaults, the recursion ends for every text. -/
theorem acc_of_acyclic (acyclic : ∀ name, ¬TransGen table.DefaultCalls name name) (text : Text) :
    Acc table.Enters text :=
  acc_of_defaults fun _ _ _ found _ isDefault => acc_default acyclic found isDefault

/-- Expansion is the recursion into the arguments of calls, without a bound. -/
theorem expand_eq_replaceAll (acyclic : ∀ name, ¬TransGen table.DefaultCalls name name)
    (text : Text) :
    table.expand text = table.item.replaceAll (Item.replacement table.expand) text :=
  expand_eq_of_acc (acc_of_acyclic acyclic text)

/-- A character that starts no control sequence is kept, and expansion goes on behind it. -/
theorem expand_character (acyclic : ∀ name, ¬TransGen table.DefaultCalls name name) {first : Char}
    {tail : Text} (plain : first = '\\' → tail = []) :
    table.expand (first :: tail) = first :: table.expand tail := by
  rw [expand_eq_replaceAll acyclic, Reader.replaceAll_of_unread _ (table.item_unread plain),
    ← expand_eq_replaceAll acyclic]

/-- A control sequence or call is replaced, and expansion goes on behind it as at the start of a
text. -/
theorem expand_of_read (acyclic : ∀ name, ¬TransGen table.DefaultCalls name name) {value : Item}
    {rest : Text} (read : table.item.read text = some (value, rest)) :
    table.expand text = value.replacement table.expand ++ table.expand rest := by
  rw [expand_eq_replaceAll acyclic, Reader.replaceAll_of_read _ read,
    ← expand_eq_replaceAll acyclic]

/-- Where no macro reaches itself through defaults, the recursion into arguments and defaults is
well founded, whatever the bodies call. Expansion is that recursion. From every text it goes fewer
levels deep than the bound of the text and the table, and to any depth from there on the result is
the same. -/
theorem expansion_terminates (acyclic : ∀ name, ¬TransGen table.DefaultCalls name name) :
    WellFounded table.Enters ∧
    (∀ text, table.expand text = table.item.replaceAll (Item.replacement table.expand) text) ∧
    ∀ text,
      (∀ entered : List Text,
        (text :: entered).IsChain (fun outer inner => table.Enters inner outer) →
          entered.length < table.depthBound text) ∧
      ∀ depth, table.depthBound text ≤ depth →
        table.expandWithin depth text = table.expand text := by
  refine ⟨⟨acc_of_acyclic acyclic⟩, expand_eq_replaceAll acyclic, fun text => ?_⟩
  have within := expandsWithin_depthBound (acc_of_acyclic acyclic text)
  exact ⟨fun entered chain => within.length_lt chain, fun depth deep => within.expandWithin_eq deep⟩

/-- A macro whose body calls itself and whose default leads to a longer one, and two macros whose
bodies call each other. -/
def nestedDefaults : MacroTable := ofMacros
  [.withOptional "a".toList 1 "\\b,\\b[\\c]".toList "#1\\a".toList,
    .withOptional "b".toList 1 "<\\c,\\c>".toList "(#1)\\c".toList,
    .plain "c".toList "\\b".toList]

/-- Expansion by these macros ends. A call of two characters leads through two defaults, so that two
levels do not suffice for it. -/
theorem expansion_terminates_nestedDefaults :
    (∀ name, ¬TransGen nestedDefaults.DefaultCalls name name) ∧ WellFounded nestedDefaults.Enters ∧
    nestedDefaults.expandWithin 2 "\\a".toList = "(<\\c,\\c>)\\c,(\\c)\\c\\a".toList ∧
    ∀ depth, 21 ≤ depth →
      nestedDefaults.expandWithin depth "\\a".toList = "(<\\b,\\b>)\\c,(\\b)\\c\\a".toList := by
  have acyclic : ∀ name, ¬TransGen nestedDefaults.DefaultCalls name name := by
    refine defaults_acyclic_of_upwards _
      (fun name => if name = "a".toList then 0 else if name = "b".toList then 1 else 2) ?_
    decide +kernel
  obtain ⟨ends, -, bounded⟩ := expansion_terminates acyclic
  have bound : nestedDefaults.depthBound "\\a".toList = 21 := by decide +kernel
  have expanded : nestedDefaults.expand "\\a".toList =
      "(<\\b,\\b>)\\c,(\\b)\\c\\a".toList := by decide +kernel
  refine ⟨acyclic, ends, by decide +kernel, fun depth deep => ?_⟩
  rw [(bounded "\\a".toList).2 depth (bound.symm ▸ deep), expanded]

end MacroTable
end TexStatements
