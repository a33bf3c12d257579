import TexStatements.ControlSequence
import TexStatements.NameMap

/-!
# Macros

A macro has a name, parameters and a body in which `#1` to `#9` stand for the arguments. Its first
parameter may be optional, with a default. Putting arguments into the body is textual: `##` stands
for a single `#`, and a number without an argument stays as it is.
-/
namespace TexStatements

/-- How the argument of a parameter is given. -/
inductive Parameter where
  /-- In braces. -/
  | required
  /-- In brackets, or not at all: then the default stands for it. -/
  | optional (default : Text)
deriving DecidableEq

/-- A user-defined macro. -/
structure Macro where
  /-- The name, without its backslash. -/
  name : Text
  /-- The parameters in order. -/
  parameters : List Parameter
  /-- The replacement text. -/
  body : Text
deriving DecidableEq

/-- The largest number of parameters. -/
def maxArity : Nat := 9

namespace Macro

/-- Number of parameters. -/
def arity (definition : Macro) : Nat := definition.parameters.length

/-- A macro with required parameters only; more than nine count as nine. -/
def withRequired (name : Text) (arity : Nat) (body : Text) : Macro :=
  ⟨name, List.replicate (min arity maxArity) .required, body⟩

/-- A macro without parameters. -/
def plain (name body : Text) : Macro := withRequired name 0 body

/-- A macro whose first parameter is optional. It has at least that one and at most nine. -/
def withOptional (name : Text) (arity : Nat) (default body : Text) : Macro :=
  ⟨name, .optional default :: List.replicate (min (arity - 1) (maxArity - 1)) .required, body⟩

/-- Position of the argument that a digit names. -/
def argumentIndex? (c : Char) : Option Nat :=
  if '1' ≤ c ∧ c ≤ '9' then some (c.val.toNat - '1'.val.toNat) else none

/-- The argument that a character after `#` stands for, if the macro takes and got one. -/
def argument? (arity : Nat) (arguments : List Text) (c : Char) : Option Text := do
  let index ← argumentIndex? c
  if index < arity then arguments[index]? else none

/-- Put arguments into a replacement text. -/
def substitute (arity : Nat) (arguments : List Text) : Text → Text
  | [] => []
  | first :: rest =>
    if first = '#' then
      match rest with
      | [] => [first]
      | next :: rest =>
        if next = '#' then '#' :: substitute arity arguments rest
        else match argument? arity arguments next with
          | some argument => argument ++ substitute arity arguments rest
          | none => first :: next :: substitute arity arguments rest
    else first :: substitute arity arguments rest

/-- The body of a macro with arguments in place of their numbers. -/
def instantiate (definition : Macro) (arguments : List Text) : Text :=
  substitute definition.arity arguments definition.body

end Macro

/-- The macros in force, by name. -/
abbrev MacroTable := NameMap Macro

namespace MacroTable

/-- Define a macro in place of any earlier one of its name. -/
def define (table : MacroTable) (definition : Macro) : MacroTable :=
  NameMap.insert table definition.name definition

/-- Names of table macros that a text calls, each once, in order of their first call. -/
def calls (table : MacroTable) (text : Text) : List Text :=
  ((ControlSequence.names text).filter (NameMap.contains table)).eraseDups

end MacroTable
end TexStatements
