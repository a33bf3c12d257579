import Std.Data.HashMap
import Std.Data.HashSet
import TexStatements.Macro.Expansion
import TexStatements.Warning

/-!
# Resolution of a macro table

Before a document is expanded, the bodies of its macros are expanded by each other, so that one
pass over the document is complete. A macro that reaches its own name through bodies has no finite
expansion and is dropped with a warning. The others are resolved after every macro that their
bodies call.
-/
namespace TexStatements

/-- Names are hashed by their code points. -/
instance : Hashable Text := ⟨fun name => name.foldl (fun sum c => mixHash sum (hash c.val)) 7⟩

namespace MacroTable

/-- The callees of every macro, each body read once. -/
def callGraph (table : MacroTable) : Std.HashMap Text (List Text) :=
  .ofList (table.entries.map fun (name, definition) => (name, table.calls definition.body))

/-- Follow calls from the pending names, and add what they reach to the names seen. The number
bounds how many names are added. -/
def explore (callees : Text → List Text) (more : Nat) (pending : List Text)
    (seen : Std.HashSet Text) : Std.HashSet Text :=
  match pending with
  | [] => seen
  | name :: others =>
    if seen.contains name then explore callees more others seen
    else match more with
      | 0 => seen
      | more + 1 => explore callees more (callees name ++ others) (seen.insert name)
termination_by (more, pending.length)

/-- All names that a name reaches through one or more calls. -/
def reached (graph : Std.HashMap Text (List Text)) (name : Text) : Std.HashSet Text :=
  let callees := fun name => graph.getD name []
  explore callees graph.size (callees name) {}

/-- The names of the macros that reach themselves, in order of their code points. -/
def selfReferential (table : MacroTable) : List Text :=
  let graph := table.callGraph
  (Text.sort (NameMap.keys table)).filter fun name => (reached graph name).contains name

/-- List a name behind everything that it calls, unless it is listed. The depth bounds how far
calls are followed. -/
def visit (callees : Text → List Text) : Nat → List Text → Text → List Text
  | 0, listed, _ => listed
  | depth + 1, listed, name =>
    if listed.contains name then listed
    else ((callees name).foldl (visit callees depth) listed) ++ [name]

/-- The names of a table with every name behind those that its body calls; what the calls leave
open is settled by the order of code points. -/
def resolutionOrder (table : MacroTable) : List Text :=
  let graph := table.callGraph
  (Text.sort (NameMap.keys table)).foldl
    (visit (fun name => graph.getD name []) (NameMap.size table + 1)) []

/-- Expand the body of one macro by the table as it stands. -/
def resolveBody (table : MacroTable) (name : Text) : MacroTable :=
  match NameMap.find? table name with
  | some definition => table.define { definition with body := table.expand definition.body }
  | none => table

/-- The expansions by which the bodies of macros are resolved in turn: the table as it stands and
the body of each. -/
def bodyExpansions (table : MacroTable) : List Text → List (MacroTable × Text)
  | [] => []
  | name :: names =>
    ((NameMap.find? table name).map fun definition => (table, definition.body)).toList ++
      (table.resolveBody name).bodyExpansions names

/-- A table without the macros of the given names. -/
def eraseAll (table : MacroTable) (names : List Text) : MacroTable :=
  names.foldl NameMap.erase table

/-- Drop the macros that reach themselves and expand the bodies of the others. -/
def resolve (table : MacroTable) : MacroTable × List Warning :=
  let dropped := table.selfReferential
  let kept := table.eraseAll dropped
  (kept.resolutionOrder.foldl resolveBody kept, dropped.map .selfReference)

/-- The expansions that are carried out to resolve a table. -/
def resolveExpansions (table : MacroTable) : List (MacroTable × Text) :=
  let kept := table.eraseAll table.selfReferential
  kept.bodyExpansions kept.resolutionOrder

end MacroTable
end TexStatements
