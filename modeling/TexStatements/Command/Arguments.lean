import TexStatements.Text.Numeral

/-!
# Command-line arguments

A run is asked for by a command with switches, settings that take a value, and at most one input.
Switches and settings have a long name and possibly a letter; letters may be put together, and a
value may be joined to its name. What follows two dashes is an input whatever it looks like. A
switch or setting is given at most once, except for the list of kinds. The switches for quiet and
verbose runs may stand before the command as well.
-/
namespace TexStatements

/-- A switch. -/
inductive Switch where
  /-- Report more of what happens. -/
  | verbose
  /-- Report no warnings. -/
  | quiet
  /-- Keep statements proper only. -/
  | statements
  /-- Let later statements replace earlier ones of one title. -/
  | dedupe
  /-- Use no colors. -/
  | noColor
deriving DecidableEq, Repr

/-- A setting that takes a value. -/
inductive Setting where
  /-- The file to write. -/
  | output
  /-- The kinds of statements to keep. -/
  | kinds
  /-- The directory to write to. -/
  | outputDirectory
  /-- The seconds allowed for one paper. -/
  | timeout
deriving DecidableEq, Repr

/-- What a name on the command line stands for. -/
inductive OptionName where
  /-- A switch. -/
  | switch (switch : Switch)
  /-- A setting. -/
  | setting (setting : Setting)
  /-- The request for the version. -/
  | version
  /-- The request for help. -/
  | help
deriving DecidableEq

/-- Names of switches and settings: the long name, the letter if there is one, and the meaning. -/
abbrev OptionNames := List (Text × Option Char × OptionName)

namespace OptionNames

/-- The names that stand anywhere. -/
def everywhere : OptionNames :=
  [("verbose".toList, some 'v', .switch .verbose), ("quiet".toList, some 'q', .switch .quiet),
    ("help".toList, some 'h', .help)]

/-- The names that stand before the command. -/
def leading : OptionNames := ("version".toList, some 'V', .version) :: everywhere

/-- The names of the extracting command. -/
def extract : OptionNames :=
  [("output".toList, some 'o', .setting .output), ("kinds".toList, some 'k', .setting .kinds),
    ("statements".toList, none, .switch .statements),
    ("dedupe".toList, none, .switch .dedupe)] ++ everywhere

/-- The names of the batch command. -/
def batch : OptionNames :=
  [("output-dir".toList, some 'o', .setting .outputDirectory),
    ("timeout".toList, some 't', .setting .timeout),
    ("statements".toList, none, .switch .statements)] ++ everywhere

/-- The names of the checking command. -/
def check : OptionNames := ("no-color".toList, none, .switch .noColor) :: everywhere

/-- The meaning of a long name. -/
def long? (names : OptionNames) (name : Text) : Option OptionName :=
  (names.find? fun entry => entry.1 == name).map fun entry => entry.2.2

/-- The meaning of a letter. -/
def letter? (names : OptionNames) (letter : Char) : Option OptionName :=
  (names.find? fun entry => entry.2.1 == some letter).map fun entry => entry.2.2

end OptionNames

/-- Why a command line is rejected. -/
inductive Misuse where
  /-- The name of a switch or setting is not known here. -/
  | unknownOption (name : Text)
  /-- The name of a command is not known. -/
  | unknownCommand (name : Text)
  /-- There is no command. -/
  | noCommand
  /-- A setting has no value. -/
  | missingValue (name : Text)
  /-- A switch has a value. -/
  | unexpectedValue (name : Text)
  /-- A switch or setting is given again. -/
  | repeated (name : Text)
  /-- There is an input too much. -/
  | unexpectedInput (input : Text)
  /-- An input or a setting that the command needs is missing. -/
  | missing (name : Text)
  /-- Two things exclude each other. -/
  | conflict
  /-- A value is no count. -/
  | badCount (value : Text)

/-- The wording of a misuse. -/
def Misuse.message : Misuse → Text
  | unknownOption name => "unexpected argument ".toList ++ name
  | unknownCommand name => "unrecognized command ".toList ++ name
  | noCommand => "a command is required".toList
  | missingValue name => "a value is required for ".toList ++ name
  | unexpectedValue name => "no value is expected for ".toList ++ name
  | repeated name => "given more than once: ".toList ++ name
  | unexpectedInput input => "unexpected input ".toList ++ input
  | missing name => "missing argument ".toList ++ name
  | conflict => "the kinds and the statements switch exclude each other".toList
  | badCount value => "not a count: ".toList ++ value

/-- What was given on a command line. -/
structure Given where
  /-- The switches. -/
  switches : List Switch := []
  /-- The settings with their values, in order. -/
  settings : List (Setting × Text) := []
  /-- The inputs, in order. -/
  inputs : List Text := []

namespace Given

/-- The value of a setting. -/
def value? (given : Given) (setting : Setting) : Option Text :=
  (given.settings.find? fun entry => entry.1 = setting).map Prod.snd

/-- Whether a switch is set. -/
def has (given : Given) (switch : Switch) : Bool := given.switches.contains switch

/-- Set a switch that is not set. -/
def addSwitch (given : Given) (name : Text) (switch : Switch) : Except Misuse Given :=
  if given.has switch then .error (.repeated name)
  else .ok { given with switches := given.switches ++ [switch] }

/-- Give a value to a setting that has none. The kinds may be given again. -/
def addSetting (given : Given) (name : Text) (setting : Setting) (value : Text) :
    Except Misuse Given :=
  if setting ≠ .kinds ∧ (given.value? setting).isSome then .error (.repeated name)
  else .ok { given with settings := given.settings ++ [(setting, value)] }

/-- Add an input. -/
def addInput (given : Given) (input : Text) : Given :=
  { given with inputs := given.inputs ++ [input] }

/-- All kinds that were given, those of each value divided by commas; none if there are not any. -/
def kinds? (given : Given) : Option (List Text) :=
  match given.settings.filter fun entry => entry.1 = .kinds with
  | [] => none
  | values => some (values.flatMap fun entry => entry.2.fields (· == ','))

/-- The one input, if any; a second one is too much. -/
def input? (given : Given) : Except Misuse (Option Text) :=
  match given.inputs with
  | [] => .ok none
  | [input] => .ok (some input)
  | _ :: extra :: _ => .error (.unexpectedInput extra)

end Given

/-- How reading an argument went. -/
inductive ArgumentStep where
  /-- The argument is taken care of. -/
  | done (given : Given)
  /-- The next argument has to be the value of a setting. -/
  | wants (given : Given) (name : Text) (setting : Setting)
  /-- The version is asked for. -/
  | version
  /-- Help is asked for. -/
  | help

namespace ArgumentStep

/-- Read a long name with the value that may be joined to it by an equals sign. -/
def long (names : OptionNames) (given : Given) (text : Text) : Except Misuse ArgumentStep :=
  let (name, value?) := match Text.cut? ['='] text with
    | some (name, value) => (name, some value)
    | none => (text, none)
  match names.long? name, value? with
  | none, _ => .error (.unknownOption name)
  | some (.setting setting), some value => done <$> given.addSetting name setting value
  | some (.setting setting), none => .ok (wants given name setting)
  | some _, some _ => .error (.unexpectedValue name)
  | some (.switch switch), none => done <$> given.addSwitch name switch
  | some .version, none => .ok version
  | some .help, none => .ok help

/-- Read letters that are put together. The rest behind the letter of a setting is its value, with
or without an equals sign before it. -/
def letters (names : OptionNames) (given : Given) : Text → Except Misuse ArgumentStep
  | [] => .ok (done given)
  | letter :: rest =>
    match names.letter? letter with
    | none => .error (.unknownOption [letter])
    | some .version => .ok version
    | some .help => .ok help
    | some (.switch switch) =>
      match given.addSwitch [letter] switch with
      | .ok given => letters names given rest
      | .error misuse => .error misuse
    | some (.setting setting) =>
      match rest with
      | [] => .ok (wants given [letter] setting)
      | '=' :: value => done <$> given.addSetting [letter] setting value
      | value => done <$> given.addSetting [letter] setting value

end ArgumentStep

/-- Shape of an argument. -/
inductive ArgumentShape where
  /-- Two dashes alone: inputs follow. -/
  | divider
  /-- A long name, possibly with a value. -/
  | long (text : Text)
  /-- Letters, the last possibly with a value. -/
  | letters (text : Text)
  /-- Anything else; a single dash too. -/
  | plain

/-- The shape of an argument. -/
def ArgumentShape.of : Text → ArgumentShape
  | ['-', '-'] => divider
  | '-' :: '-' :: text => long text
  | '-' :: first :: rest => letters (first :: rest)
  | _ => plain

/-- Read the arguments of a command: what was given, or nothing if help is asked for. The version
is no request there. -/
def Given.read (names : OptionNames) (given : Given) : List Text → Except Misuse (Option Given)
  | [] => .ok (some given)
  | argument :: more =>
    let step := match ArgumentShape.of argument with
      | .divider => none
      | .long text => some (ArgumentStep.long names given text)
      | .letters text => some (ArgumentStep.letters names given text)
      | .plain => some (.ok (.done (given.addInput argument)))
    match step with
    | none => .ok (some (more.foldl Given.addInput given))
    | some (.error misuse) => .error misuse
    | some (.ok (.done given)) => given.read names more
    | some (.ok .version) => .error (.unknownOption argument)
    | some (.ok .help) => .ok none
    | some (.ok (.wants given name setting)) =>
      match more with
      | [] => .error (.missingValue name)
      | value :: more =>
        match ArgumentShape.of value with
        | .plain =>
          match given.addSetting name setting value with
          | .ok given => given.read names more
          | .error misuse => .error misuse
        | _ => .error (.missingValue name)

/-- What a run does. -/
inductive Command where
  /-- Write the records of one document. -/
  | extract (input? output? : Option Text) (kinds? : Option (List Text))
      (statements dedupe : Bool)
  /-- Write the records of every paper of a directory to a file of its own. -/
  | batch (input output : Text) (timeout : Nat) (statements : Bool)
  /-- Report what extraction sees in a document. -/
  | check (input? : Option Text) (colored : Bool)

/-- A run that is asked for. -/
structure Invocation where
  /-- What it does. -/
  command : Command
  /-- Whether warnings are left out. -/
  quiet : Bool

/-- What a command line asks for. -/
inductive Request where
  /-- The version of the program. -/
  | version
  /-- How the program is used. -/
  | help
  /-- A run. -/
  | run (invocation : Invocation)

/-- The seconds that a paper is allowed when nothing else is said. -/
def usualTimeout : Nat := 30

/-- A value that a command needs. -/
def require {α : Type} (name : String) : Option α → Except Misuse α
  | some value => .ok value
  | none => .error (.missing name.toList)

namespace Command

/-- The extracting command with what was given. -/
def ofExtract (given : Given) : Except Misuse Command := do
  let input? ← given.input?
  let kinds? := given.kinds?
  if kinds?.isSome && given.has .statements then .error .conflict
  else .ok (.extract input? (given.value? .output) kinds? (given.has .statements)
    (given.has .dedupe))

/-- The batch command with what was given. -/
def ofBatch (given : Given) : Except Misuse Command := do
  let input ← require "INPUT" (← given.input?)
  let output ← require "output-dir" (given.value? .outputDirectory)
  let timeout ← match given.value? .timeout with
    | none => pure usualTimeout
    | some value =>
      match readCount? value with
      | some seconds => pure seconds
      | none => .error (.badCount value)
  .ok (.batch input output timeout (given.has .statements))

/-- The checking command with what was given. -/
def ofCheck (given : Given) : Except Misuse Command := do
  .ok (.check (← given.input?) !given.has .noColor)

/-- The names of the commands, with the options that each takes and how each is made. -/
def all : List (Text × OptionNames × (Given → Except Misuse Command)) :=
  [("extract".toList, .extract, ofExtract), ("batch".toList, .batch, ofBatch),
    ("check".toList, .check, ofCheck)]

/-- Read a command with its arguments. The leading switches count as given in their own place. -/
def read (leading : Given) (name : Text) (arguments : List Text) : Except Misuse Request := do
  match all.find? fun entry => entry.1 == name with
  | none => .error (.unknownCommand name)
  | some (_, names, make) =>
    match ← ({} : Given).read names arguments with
    | none => .ok .help
    | some given => .ok (.run ⟨← make given, leading.has .quiet || given.has .quiet⟩)

/-- The command that asks for help, possibly on a command. -/
def helpName : Text := "help".toList

/-- Read the arguments of the command that asks for help. -/
def readHelp : List Text → Except Misuse Request
  | [] => .ok .help
  | [name] =>
    if name = helpName ∨ all.any fun entry => entry.1 == name then .ok .help
    else .error (.unknownCommand name)
  | _ :: extra :: _ => .error (.unexpectedInput extra)

end Command

/-- Read a command line from where only leading switches have been read. -/
def Request.readFrom (leading : Given) : List Text → Except Misuse Request
  | [] => .error .noCommand
  | argument :: more =>
    let step := match ArgumentShape.of argument with
      | .divider => none
      | .long text => some (ArgumentStep.long .leading leading text)
      | .letters text => some (ArgumentStep.letters .leading leading text)
      | .plain => none
    match step with
    | none =>
      if argument = Command.helpName then Command.readHelp more
      else Command.read leading argument more
    | some (.error misuse) => .error misuse
    | some (.ok .version) => .ok .version
    | some (.ok .help) => .ok .help
    | some (.ok (.done leading)) => readFrom leading more
    | some (.ok (.wants _ name _)) => .error (.missingValue name)

/-- Read a command line. -/
def Request.read (arguments : List Text) : Except Misuse Request := readFrom {} arguments

end TexStatements
