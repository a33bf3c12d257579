import TexStatements.Declaration.Alias
import TexStatements.Group.Basic

/-!
# Reading declarations

Environments are declared in two ways. The first gives the name, a counter to share, the caption
and a parent counter by position; the second gives them as keys and values in an option list and
may declare several environments at once.
-/
namespace TexStatements

/-- Meaning of an option key of a declaration. -/
inductive DeclarationKey where
  /-- The caption. -/
  | caption
  /-- The counter shared with another environment. -/
  | shared
  /-- The counter that resets this one. -/
  | within
  /-- Whether statements are numbered. -/
  | numbered
deriving DecidableEq, Repr

/-- The spellings of the option keys. -/
def declarationKeys : List (Text × DeclarationKey) :=
  [("name", .caption), ("title", .caption), ("heading", .caption), ("sibling", .shared),
    ("sharenumber", .shared), ("sharecounter", .shared), ("within", .within),
    ("numberwithin", .within), ("parent", .within), ("numbered", .numbered)].map
      fun (spelling, key) => (spelling.toList, key)

/-- The meaning of an option key. -/
def DeclarationKey.ofText? (key : Text) : Option DeclarationKey := NameMap.look key declarationKeys

/-- Divide an option list at the commas outside braces. A brace that closes nothing is ignored. -/
def splitOptions (depth : Nat) : Text → List Text
  | [] => [[]]
  | first :: rest =>
    if first = ',' ∧ depth = 0 then [] :: splitOptions 0 rest
    else
      let depth := if first = '{' then depth + 1 else if first = '}' then depth - 1 else depth
      match splitOptions depth rest with
      | [] => [[first]]
      | item :: more => (first :: item) :: more

/-- A text without the braces that it starts and ends with, if it does both. -/
def dropOuterBraces (value : Text) : Text :=
  match value with
  | '{' :: inner => if inner.getLast? = some '}' then inner.dropLast else value
  | _ => value

/-- The key and the value of one option. An option without an equals sign has an empty value, and
one without a key does not count. -/
def keyValue? (option : Text) : Option (Text × Text) :=
  let (key, value) := (Text.cut? ['='] option).getD (option, [])
  key.nonBlank?.map fun key => (key, (dropOuterBraces value.trim).trim)

/-- The keys and values of an option list. -/
def keyValues (options : Text) : List (Text × Text) := (splitOptions 0 options).filterMap keyValue?

/-- What an option list says about the environments it stands with. -/
structure DeclarationOptions where
  /-- The caption, if given. -/
  caption? : Option Text := none
  /-- Whether statements are numbered. -/
  numbered : Bool
  /-- The counter to share. -/
  shared? : Option Text := none
  /-- The parent counter. -/
  within? : Option Text := none

namespace DeclarationOptions

/-- Take one key and value into account; a later one of the same meaning replaces it. -/
def add (options : DeclarationOptions) (key value : Text) : DeclarationOptions :=
  match DeclarationKey.ofText? key with
  | some .caption => { options with caption? := some value }
  | some .shared => { options with shared? := value.nonBlank? }
  | some .within => { options with within? := value.nonBlank? }
  | some .numbered =>
    { options with numbered := value != "no".toList && value != "false".toList }
  | none => options

/-- The options of an option list; statements are numbered unless a star or the list denies it. -/
def ofText (starred : Bool) (text : Text) : DeclarationOptions :=
  (keyValues text).foldl (fun options (key, value) => options.add key value)
    { numbered := !starred }

/-- The declaration of one environment under these options. -/
def declare (options : DeclarationOptions) (name : Text) : Declaration :=
  { Declaration.new name (options.caption?.getD []) !options.numbered with
    shared? := options.shared?
    within? := options.within? }

end DeclarationOptions

namespace Declaration

/-- The text behind an overlay specification in angle brackets, if there is one. -/
def skipOverlay (text : Text) : Text :=
  match text.trimStart with
  | '<' :: rest =>
    match Text.cut? ['>'] rest with
    | some (_, after) => after
    | none => text
  | _ => text

/-- Read a declaration by position: name, shared counter, caption, parent counter. A parent is
looked for only if no counter is shared. -/
def readPositional? (starred : Bool) (text : Text) : Option Declaration := do
  let (name, rest) ← Group.braced? (skipOverlay text)
  let (shared?, rest) := match Group.bracketed? rest with
    | some (counter, rest) => (counter.nonBlank?, rest)
    | none => (none, rest)
  let (caption, rest) ← Group.braced? rest
  let within? := match shared?, Group.bracketed? rest with
    | none, some (counter, _) => counter.nonBlank?
    | _, _ => none
  some { Declaration.new name.trim caption starred with shared?, within? }

/-- Read a declaration by options, which stand before the names or else behind them. -/
def readKeyed? (starred : Bool) (text : Text) : Option (List Declaration) := do
  let before? := Group.bracketed? text
  let (names, rest) ← Group.braced? (match before? with
    | some (_, rest) => rest
    | none => text)
  let list := match before?.or (Group.bracketed? rest) with
    | some (list, _) => list
    | none => []
  let options := DeclarationOptions.ofText starred list
  some (((names.fields (· == ',')).filterMap Text.nonBlank?).map options.declare)

/-- The control words that declare environments. -/
def words : List Text :=
  ["newtheorem", "spnewtheorem", "newmdtheoremenv", "declaretheorem"].map String.toList

/-- Read the declarations of a command. The framed command takes an option list first. -/
def read? (word : Text) (starred : Bool) (text : Text) : Option (List Declaration) :=
  if word = "declaretheorem".toList then readKeyed? starred text
  else if word = "newmdtheoremenv".toList then
    (readPositional? starred (match Group.bracketed? text with
      | some (_, rest) => rest
      | none => text)).map ([·])
  else (readPositional? starred text).map ([·])

/-- A declaring command as found in a text. -/
structure Command where
  /-- The control word, without its backslash. -/
  word : Text
  /-- Whether a star follows it. -/
  starred : Bool
  /-- The text behind the word and its star. -/
  after : Text

/-- A command behind its control word. A star that a letter follows is not part of the command. -/
def commandAfter (word text : Text) : Command :=
  match text with
  | '*' :: rest => if endsControlWord rest then ⟨word, true, rest⟩ else ⟨word, false, text⟩
  | _ => ⟨word, false, text⟩

/-- The command ends at a suffix. -/
theorem commandAfter_suffix (word text : Text) : (commandAfter word text).after <:+ text := by
  unfold commandAfter
  split
  · split
    · exact List.suffix_cons _ _
    · exact List.suffix_refl _
  · exact List.suffix_refl _

/-- The reader of declaring commands. The character after the command is read with it. -/
def command : Reader Command :=
  (controlWord words.contains).andThen
    (fun word text => some (commandAfter word text, (commandAfter word text).after.drop 1))
    (by
      intro word text result rest success
      rw [Option.some.injEq, Prod.mk.injEq] at success
      exact success.2 ▸ (List.drop_suffix 1 _).trans (commandAfter_suffix word text))

/-- The environments that one command declares; none if it cannot be read. -/
def ofCommand (found : Command) : List Declaration :=
  (read? found.word found.starred found.after).getD []

end Declaration

namespace DeclarationTable

/-- Enter all declarations of a text, in order. -/
def collect (table : DeclarationTable) (text : Text) : DeclarationTable × List Warning :=
  table.declareAll ((Declaration.command.occurrences text).flatMap fun found =>
    Declaration.ofCommand found.value)

end DeclarationTable
end TexStatements
