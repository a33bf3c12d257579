import TexStatements.ControlSequence
import TexStatements.Declaration.Basic
import TexStatements.Group.Flat

/-!
# Counter aliases and counter edges

A counter may be given a second name, and a counter may be reset by another one from outside its
declaration. Aliases form chains; a chain is followed to the name at its end or, where it runs
into a cycle, to the first name on the cycle.
-/
namespace TexStatements

/-- Aliases and the counters that they stand for. -/
abbrev AliasMap := NameMap Text

/-- A counter name inside a group: at least one character, without the blanks around it. Of a group
of blanks only the last one counts. -/
def counterName? (inner : Text) : Option Text :=
  match inner.getLast? with
  | none => none
  | some last => some (inner.nonBlank?.getD [last])

/-- The reader of a control word with two counter names. -/
def counterPair (word : Reader Unit) : Reader (Text × Text) :=
  (word.thenFlatGroup fun _ inner => counterName? inner).thenFlatGroup fun first inner =>
    (counterName? inner).map fun second => (first, second)

/-- The reader of alias definitions: the alias and its counter. -/
def aliasPair : Reader (Text × Text) :=
  counterPair ((controlWord (· == "newaliascnt".toList)).filterMap fun _ => some ())

/-- The reader of the control words that give a counter a parent. The second may have a star. -/
def parentWord : Reader Unit :=
  (controlWord ["numberwithin".toList, "counterwithin".toList].contains).andThen
    (fun word text =>
      match text with
      | '*' :: rest => if word = "counterwithin".toList then some ((), rest) else some ((), text)
      | _ => some ((), text))
    (by
      intro word text result rest success
      split at success
      · split at success <;> cases success
        · exact List.suffix_cons _ _
        · exact List.suffix_refl _
      · cases success
        exact List.suffix_refl _)

/-- The reader of counter edges: the child and its parent. -/
def parentPair : Reader (Text × Text) := counterPair parentWord

namespace AliasMap

/-- The aliases of a text; of two with one name the later counts. -/
def collect (text : Text) : AliasMap :=
  NameMap.ofList ((aliasPair.occurrences text).map (·.value))

/-- Follow aliases from a name, at most the given number of times, until a name is no alias or
was passed before. -/
def follow (aliases : AliasMap) : Nat → List Text → Text → Text
  | 0, _, current => current
  | steps + 1, passed, current =>
    match NameMap.find? aliases current with
    | none => current
    | some next =>
      if passed.contains current then current else follow aliases steps (current :: passed) next

/-- The counter that a name stands for. -/
def resolve (aliases : AliasMap) (name : Text) : Text :=
  follow aliases (NameMap.size aliases + 1) [] name

end AliasMap

/-- The child and parent counters that a text relates outside declarations, in order. -/
def counterEdges (text : Text) : List (Text × Text) :=
  (parentPair.occurrences text).map (·.value)

/-- Whether a text puts numbers before captions. -/
def swapsNumbers (text : Text) : Bool :=
  (controlWord (· == "swapnumbers".toList)).occursIn text

namespace Declaration

/-- A declaration with its counters in place of their aliases. A shared counter that turns out to
be the environment's own is no longer shared. -/
def resolveAliases (aliases : AliasMap) (declaration : Declaration) : Declaration :=
  { declaration with
    shared? := (declaration.shared?.map aliases.resolve).filter (· != declaration.name)
    within? := declaration.within?.map aliases.resolve }

end Declaration

namespace DeclarationTable

/-- A table with counters in place of their aliases, if there are any aliases. -/
def applyAliases (table : DeclarationTable) (aliases : AliasMap) : DeclarationTable :=
  if aliases.entries.isEmpty then table
  else NameMap.mapValues table fun _ declaration => declaration.resolveAliases aliases

end DeclarationTable
end TexStatements
