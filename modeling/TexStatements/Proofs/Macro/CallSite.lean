import TexStatements.Proofs.Macro.Depth
import TexStatements.Proofs.Text.Plain

/-!
# Calls as they are written

A call is written as the name of a macro with a group for each argument behind it. Its arguments
are read back, each as the inside of its group, and reading stops where the text goes on that does
not belong to the call. So a call is expanded by itself: the body with the expanded arguments in
it takes its place, and what follows is expanded as if it stood alone (`expand_call_append`).
-/
namespace TexStatements

open ControlSequence TexStatements.Group

namespace MacroTable

variable {table : MacroTable} {parameters : List Parameter} {arguments : List Text}
  {name groups rest : Text} {definition : Macro}

/-- Groups that give arguments to parameters, in front of a text. -/
inductive Written (rest : Text) : List Parameter → List Text → Text → Prop
  /-- No parameter is left. -/
  | nil : Written rest [] [] []
  /-- An argument in braces. -/
  | required {parameters : List Parameter} {arguments : List Text} {argument groups : Text}
    (inside : BraceInside argument) (more : Written rest parameters arguments groups) :
    Written rest (.required :: parameters) (argument :: arguments)
      ('{' :: (argument ++ '}' :: groups))
  /-- An optional argument in brackets. -/
  | given {default : Text} {parameters : List Parameter} {arguments : List Text}
    {argument groups : Text} (inside : BracketInside argument)
    (more : Written rest parameters arguments groups) :
    Written rest (.optional default :: parameters) (argument :: arguments)
      ('[' :: (argument ++ ']' :: groups))
  /-- An optional argument that is left out. Nothing that follows can be taken for it. -/
  | absent {default : Text} {parameters : List Parameter} {arguments : List Text} {groups : Text}
    (more : Written rest parameters arguments groups)
    (noBracket : (groups ++ rest).trimStart.head? ≠ some '[') :
    Written rest (.optional default :: parameters) (default :: arguments) groups

/-- Written arguments are read back, and nothing behind them is read. -/
theorem Written.arguments? (written : Written rest parameters arguments groups) :
    MacroTable.arguments? parameters (groups ++ rest) = some (arguments, rest) := by
  induction written with
  | nil => rfl
  | @required parameters arguments argument groups inside more ih =>
    have read : argument? .required ('{' :: (argument ++ '}' :: (groups ++ rest))) =
        some (argument, groups ++ rest) := group?_inside .braces _ inside
    simp [MacroTable.arguments?, read, ih]
  | @given default parameters arguments argument groups inside more ih =>
    have read : argument? (.optional default) ('[' :: (argument ++ ']' :: (groups ++ rest))) =
        some (argument, groups ++ rest) := by
      have whole := group?_inside .brackets (groups ++ rest) inside
      rw [argument?, bracketed?, whole, Option.getD_some]
    simp [MacroTable.arguments?, read, ih]
  | @absent default parameters arguments groups more noBracket ih =>
    have read : argument? (.optional default) (groups ++ rest) =
        some (default, groups ++ rest) := by
      have missing : bracketed? (groups ++ rest) = none := group?_eq_none noBracket
      rw [argument?, missing, Option.getD_none]
    simp [MacroTable.arguments?, read, ih]

/-- A control word ends at a group. Where a call has none, the text behind it has to end it. -/
theorem Written.endsControlWord (written : Written rest parameters arguments groups)
    (ends : groups = [] → endsControlWord rest = true) :
    TexStatements.endsControlWord (groups ++ rest) = true := by
  induction written with
  | nil => exact ends rfl
  | required => rfl
  | given => rfl
  | absent more noBracket ih => exact ih ends

/-- A call is read with its arguments, and reading stops behind the last of them. -/
theorem item_read_written (word : IsWord name)
    (found : NameMap.find? table name = some definition)
    (written : Written rest definition.parameters arguments groups)
    (ends : groups = [] → endsControlWord rest = true) :
    table.item.read ('\\' :: (name ++ (groups ++ rest))) =
      some (.call ⟨definition, arguments⟩, rest) := by
  rw [table.item_read (.inl word) fun _ => written.endsControlWord ends,
    itemAfter_of_read found written.arguments?]

/-- Where defaults call no macros, a call takes its arguments and nothing else. It is replaced by
the body with the expanded arguments in it, where the expanded default stands for an optional
argument that is left out, and what follows is expanded as if it stood alone. -/
theorem expand_call_append (plain : table.PlainDefaults) (word : IsWord name)
    (found : NameMap.find? table name = some definition)
    (written : Written rest definition.parameters arguments groups)
    (ends : groups = [] → endsControlWord rest = true) :
    table.expand ('\\' :: (name ++ (groups ++ rest))) =
      definition.instantiate (arguments.map table.expand) ++ table.expand rest := by
  have read := item_read_written word found written ends
  calc
    table.expand ('\\' :: (name ++ (groups ++ rest))) =
        Item.replacement table.expand (.call ⟨definition, arguments⟩) ++ table.expand rest :=
      expand_of_read plain.acyclic read
    _ = definition.instantiate (arguments.map table.expand) ++ table.expand rest := by
      rw [Item.replacement]

/-- A macro with an optional argument and two required ones. -/
def triple : Macro := .withOptional "t".toList 3 "d".toList "<#1|#2|#3>".toList

/-- A call in another one leaves its optional argument out. The outer one has brackets in brackets
and an escaped brace, and behind it stands a call without arguments. -/
theorem expand_call_append_triple : (ofMacros [triple]).PlainDefaults ∧
    (ofMacros [triple]).expand
      "\\t[u[v]]\x7b\\\x7d\x7d\x7b\\t\x7ba\x7d\x7b\x7d\x7d[w]\\t".toList =
        "<u[v]|\\\x7d|<d|a|>>[w]\\t".toList := by
  have plain : (ofMacros [triple]).PlainDefaults := by decide +kernel
  have written : Written "[w]\\t".toList triple.parameters
      ["u[v]".toList, "\\\x7d".toList, "\\t\x7ba\x7d\x7b\x7d".toList]
      ('[' :: ("u[v]".toList ++ ']' :: '{' :: ("\\\x7d".toList ++ '}' ::
        '{' :: ("\\t\x7ba\x7d\x7b\x7d".toList ++ ['}'])))) :=
    .given (inside_of_close? .brackets (by decide +kernel)) <|
      .required (inside_of_close? .braces (by decide +kernel)) <|
        .required (inside_of_close? .braces (by decide +kernel)) .nil
  have found : NameMap.find? (ofMacros [triple]) "t".toList = some triple := by decide +kernel
  have site := expand_call_append plain (by decide : IsWord "t".toList) found written nofun
  refine ⟨plain, ?_⟩
  calc
    _ = (ofMacros [triple]).expand _ := congrArg _ (by decide +kernel)
    _ = _ := site
    _ = _ := by decide +kernel

end MacroTable
end TexStatements
