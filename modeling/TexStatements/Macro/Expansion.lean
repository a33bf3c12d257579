import TexStatements.Group.Basic
import TexStatements.Macro.Basic

/-!
# Macro expansion

A call is a control sequence that names a macro, followed by its arguments: brace groups for
required parameters and possibly a bracket group for an optional one. One pass from left to right
replaces every call by the body with the expanded arguments in it; what it puts in is not read
again. A call without all its arguments stays as it is.

Arguments are texts of the call and therefore shorter than it, but a default is not. Where a default
leads back to itself the recursion into arguments has no end, and the text has no expansion
(`MacroTable.expand?`). The recursion is counted by a depth, and `MacroTable.depthBound` is a depth
within which it ends if it ends at all. `MacroTable.ends` tells whether it does, and
`MacroTable.expand` is the expansion of a text for which it does.
-/
namespace TexStatements
namespace MacroTable

/-- Read the argument of one parameter. A missing optional argument is its default. -/
def argument? : Parameter → Text → Option (Text × Text)
  | .required, text => Group.braced? text
  | .optional default, text => some ((Group.bracketed? text).getD (default, text))

/-- The text after an argument is a suffix. -/
theorem argument?_suffix {parameter : Parameter} {text argument rest : Text}
    (read : argument? parameter text = some (argument, rest)) : rest <:+ text := by
  cases parameter with
  | required => exact (Group.group?_advances read).suffix
  | optional default =>
    rw [argument?, Option.some.injEq] at read
    cases group : Group.bracketed? text with
    | none =>
      rw [group] at read
      cases read
      exact List.suffix_refl text
    | some found =>
      rw [group] at read
      cases read
      exact (Group.group?_advances group).suffix

/-- Read the arguments of a call, in the order of the parameters. -/
def arguments? : List Parameter → Text → Option (List Text × Text)
  | [], text => some ([], text)
  | parameter :: parameters, text => do
    let (argument, rest) ← argument? parameter text
    let (arguments, rest) ← arguments? parameters rest
    some (argument :: arguments, rest)

/-- The text after the arguments of a call is a suffix. -/
theorem arguments?_suffix {parameters : List Parameter} {text rest : Text}
    {arguments : List Text} (read : arguments? parameters text = some (arguments, rest)) :
    rest <:+ text := by
  induction parameters generalizing text arguments with
  | nil =>
    cases read
    exact List.suffix_refl _
  | cons parameter parameters ih =>
    simp only [arguments?, Option.bind_eq_bind, Option.bind_eq_some_iff, Option.some.injEq,
      Prod.mk.injEq] at read
    obtain ⟨⟨argument, middle⟩, first, ⟨more, tail⟩, further, -, rfl⟩ := read
    exact (ih further).trans (argument?_suffix first)

/-- A call of a table macro at the front of a text. -/
structure Call where
  /-- The macro that is called. -/
  definition : Macro
  /-- Its arguments, or the defaults that stand for them. -/
  arguments : List Text

/-- A control sequence, with its call when it names a macro and has all its arguments. -/
inductive Item where
  /-- A control sequence that stays as it is. -/
  | kept (name : Text)
  /-- A call that is replaced. -/
  | call (found : Call)

/-- A control sequence whose name has been read, with its arguments when it is a call. -/
def itemAfter (table : MacroTable) (name text : Text) : Item × Text :=
  match NameMap.find? table name with
  | none => (.kept name, text)
  | some definition =>
    match arguments? definition.parameters text with
    | none => (.kept name, text)
    | some (arguments, rest) => (.call ⟨definition, arguments⟩, rest)

/-- Reading a call's arguments leads to a suffix. -/
theorem itemAfter_suffix (table : MacroTable) (name text : Text) :
    (itemAfter table name text).2 <:+ text := by
  unfold itemAfter
  split
  · exact List.suffix_refl text
  · split
    · exact List.suffix_refl text
    · rename_i read
      exact arguments?_suffix read

/-- The reader of control sequences and calls. -/
def item (table : MacroTable) : Reader Item :=
  ControlSequence.reader.andThen (fun name text => some (itemAfter table name text))
    (by
      intro name text result rest success
      have suffix := itemAfter_suffix table name text
      rw [Option.some.injEq] at success
      rwa [success] at suffix)

/-- What a control sequence or call is replaced by, given how arguments are expanded. -/
def Item.replacement (expandArgument : Text → Text) : Item → Text
  | .kept name => '\\' :: name
  | .call found => found.definition.instantiate (found.arguments.map expandArgument)

/-- Expand the calls of a text, going at most the given number of levels into arguments. What lies
deeper stays as it is, so this is an expansion of the text only if `endsWithin` holds of it. -/
def expandWithin (table : MacroTable) : Nat → Text → Text
  | 0 => fun text => text
  | depth + 1 => table.item.replaceAll (Item.replacement (expandWithin table depth))

/-- The arguments of a call. A control sequence that stays has none. -/
def Item.arguments : Item → List Text
  | .kept _ => []
  | .call found => found.arguments

/-- The arguments and defaults that expansion of a text goes into. -/
def entered (table : MacroTable) (text : Text) : List Text :=
  (table.item.occurrences text).flatMap fun found => found.value.arguments

/-- Whether expansion of a text ends within a number of levels: no argument is left for level
zero. -/
def endsWithin (table : MacroTable) : Nat → Text → Bool
  | 0 => fun _ => false
  | depth + 1 => fun text => (table.entered text).all (endsWithin table depth)

/-- Number of levels that the default of a parameter may add. -/
def parameterDepth : Parameter → Nat
  | .required => 0
  | .optional default => default.length + 1

/-- Number of levels that some elements may add together. -/
def totalDepth {α : Type} (depth : α → Nat) (elements : List α) : Nat :=
  elements.foldr (fun element total => depth element + total) 0

/-- Number of levels that the defaults of a macro may add. -/
def defaultDepth (definition : Macro) : Nat := totalDepth parameterDepth definition.parameters

/-- A number of levels that suffices whenever expansion ends: arguments are shorter than the text
they stand in, and each default is entered at most once on the way in. -/
def depthBound (table : MacroTable) (text : Text) : Nat :=
  text.length + 1 + totalDepth defaultDepth table.values

/-- Whether expansion of a text ends. It does not where a default leads back to itself. -/
def ends (table : MacroTable) (text : Text) : Bool :=
  endsWithin table (table.depthBound text) text

/-- Expand every call of a text in one pass from left to right, if expansion of the text ends. -/
def expand (table : MacroTable) (text : Text) : Text :=
  expandWithin table (table.depthBound text) text

/-- The outcome of expanding a text: its expansion, or none where the recursion does not end. -/
def expand? (table : MacroTable) (text : Text) : Option Text :=
  if table.ends text then some (table.expand text) else none

end MacroTable
end TexStatements
