import TexStatements.Counter.Alpha
import TexStatements.Declaration.Basic

/-!
# The counter forest

Counters form a forest: a counter may have a parent, and stepping a counter sets everything below
it to zero. Values are 32-bit words. An edge that would make a counter its own ancestor is refused,
so the ancestors of a counter are finitely many and are all met by following parents as often as
there are edges.
-/
namespace TexStatements

/-- The counters of one part of a document, with the environments that step them. -/
structure CounterForest where
  /-- The parent of each counter that has one. -/
  parents : NameMap Text := .empty
  /-- The children of each counter that has had any, in order of registration. -/
  children : NameMap (List Text) := .empty
  /-- The value of each counter. -/
  values : NameMap UInt32 := .empty
  /-- The declaration of each environment. -/
  environments : NameMap Declaration := .empty
  /-- Whether the number comes before the caption. -/
  swapped : Bool := false
  /-- Whether alphabetic counters are written as letters. -/
  inAppendix : Bool := false
  /-- The alphabetic counters. -/
  alphaRoots : List Text := []
  /-- Refused edges, in order. -/
  warnings : List Warning := []

namespace CounterForest

/-- A forest without counters, in which sections are alphabetic. -/
def new : CounterForest := { alphaRoots := ["section".toList] }

/-- Value of a counter; zero when it was never stepped. -/
def value (forest : CounterForest) (counter : Text) : UInt32 :=
  (forest.values.find? counter).getD 0

/-- The children of a counter. -/
def childrenOf (forest : CounterForest) (counter : Text) : List Text :=
  (forest.children.find? counter).getD []

/-- Enter a counter with value zero unless it is there. -/
def ensure (forest : CounterForest) (counter : Text) : CounterForest :=
  if forest.values.contains counter then forest
  else { forest with values := forest.values.insert counter 0 }

/-- Follow parents from a counter for a number of steps, nearest first. -/
def ancestorsWithin (forest : CounterForest) : Nat → Text → List Text
  | 0, _ => []
  | steps + 1, counter =>
    match forest.parents.find? counter with
    | some parent => parent :: forest.ancestorsWithin steps parent
    | none => []

/-- The ancestors of a counter, nearest first. -/
def ancestors (forest : CounterForest) (counter : Text) : List Text :=
  forest.ancestorsWithin forest.parents.size counter

/-- The counters that lie below a counter by at most a number of edges. -/
def descendantsWithin (forest : CounterForest) : Nat → Text → List Text
  | 0, _ => []
  | depth + 1, counter => (forest.childrenOf counter).flatMap fun child =>
      child :: forest.descendantsWithin depth child

/-- The counters below a counter. -/
def descendants (forest : CounterForest) (counter : Text) : List Text :=
  forest.descendantsWithin forest.parents.size counter

/-- Take a counter out of the children of its old parent. -/
def detach (children : NameMap (List Text)) (child : Text) : Option Text → NameMap (List Text)
  | none => children
  | some old =>
    match children.find? old with
    | none => children
    | some siblings => children.insert old (siblings.filter (· != child))

/-- List a counter among the children of a parent, once. -/
def attach (children : NameMap (List Text)) (child parent : Text) : NameMap (List Text) :=
  let siblings := (children.find? parent).getD []
  children.insert parent (if siblings.contains child then siblings else siblings ++ [child])

/-- Whether giving a counter this parent would close a cycle. -/
def closesCycle (forest : CounterForest) (child parent : Text) : Bool :=
  child == parent || (forest.ancestors parent).contains child

/-- Make a counter reset whenever its parent steps, in place of any earlier parent. An edge that
would close a cycle is refused with a warning. The answer says whether the edge was taken. -/
def numberWithin (forest : CounterForest) (child parent : Text) : CounterForest × Bool :=
  let forest := (forest.ensure child).ensure parent
  if forest.closesCycle child parent then
    ({ forest with warnings := forest.warnings ++ [.cyclicCounter child parent] }, false)
  else
    ({ forest with
        parents := forest.parents.insert child parent
        children := attach (detach forest.children child (forest.parents.find? child))
          child parent }, true)

/-- Register an environment with its counter and the parent that it declares. -/
def define (forest : CounterForest) (declaration : Declaration) : CounterForest :=
  let forest := forest.ensure declaration.counter
  let forest := match declaration.within? with
    | some parent => (forest.numberWithin declaration.counter parent).1
    | none => forest
  { forest with environments := forest.environments.insert declaration.name declaration }

/-- Step a counter and set everything below it to zero. -/
def increment (forest : CounterForest) (counter : Text) : CounterForest :=
  let stepped := forest.values.insert counter (forest.value counter + 1)
  { forest with
    values := (forest.descendants counter).foldl (fun values below => values.insert below 0)
      stepped }

/-- The value of one counter as a numeral, or in letters where the forest says so. -/
def component (forest : CounterForest) (counter : Text) : Text :=
  if forest.inAppendix && forest.alphaRoots.contains counter then letters (forest.value counter)
  else numeral (forest.value counter).toNat

/-- The counters whose values make up the number of a counter, from the root down. -/
def chain (forest : CounterForest) (counter : Text) : List Text :=
  (forest.ancestors counter).reverse ++ [counter]

/-- The number of a counter: the values from the root down to it, each with a point behind it. -/
def formattedNumber (forest : CounterForest) (counter : Text) : Text :=
  (forest.chain counter).flatMap fun name => forest.component name ++ ['.']

/-- A heading of a caption and a number, in the order of the forest. -/
def heading (forest : CounterForest) (caption number : Text) : Text :=
  if forest.swapped then number ++ ' ' :: caption else caption ++ ' ' :: number

/-- The declaration of an environment; one that was never declared has a counter of its own. -/
def declarationOf (forest : CounterForest) (environment : Text) : Declaration :=
  (forest.environments.find? environment).getD (Declaration.new environment [] false)

/-- Register an environment unless it is. -/
def ensureEnvironment (forest : CounterForest) (environment : Text) : CounterForest :=
  if forest.environments.contains environment then forest
  else forest.define (Declaration.new environment [] false)

/-- Begin one statement of an environment: its heading, and the forest with its counter stepped
unless the environment is starred. -/
def begin (forest : CounterForest) (environment : Text) : CounterForest × Text :=
  let forest := forest.ensureEnvironment environment
  let declaration := forest.declarationOf environment
  if declaration.starred then (forest, declaration.caption)
  else
    let forest := forest.increment declaration.counter
    (forest, forest.heading declaration.caption (forest.formattedNumber declaration.counter))

/-- The refused edges so far, and the forest without them. -/
def takeWarnings (forest : CounterForest) : CounterForest × List Warning :=
  ({ forest with warnings := [] }, forest.warnings)

end CounterForest
end TexStatements
