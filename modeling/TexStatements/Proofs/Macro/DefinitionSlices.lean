import TexStatements.Macro.Definition
import TexStatements.Proofs.Text.Offset

/-!
# Definitions by slices

Definitions are read here by offset: the parameter text, the number of parameters, the default and
the body of a definition are slices, and so is each text that is looked at for its first character.
All these slices can be taken, and a definition that is read by offset is the one that is read at
the place (`DefinitionSpan.behindWord_offsetOf`).
-/
namespace TexStatements

/-- Outcome of reading a definition by offset. -/
inductive DefinitionSpan where
  /-- The text is no definition of the family. -/
  | absent
  /-- The body opens and is never closed. -/
  | unterminated
  /-- A definition and the offset behind it. -/
  | found (definition : Macro) (stop : Nat)

namespace DefinitionSpan

/-- A definition that is read at a place, by offset. -/
def ofReading (text : Text) : DefinitionReading → DefinitionSpan
  | .absent => absent
  | .unterminated => unterminated
  | .found definition rest => found definition (text.offsetOf rest)

/-- Read a body that has to start at an offset, blanks not counting, and make a macro of it. -/
def body (text : Text) (start : Nat) (make : Text → Macro) : Sliced DefinitionSpan :=
  match text.bracedAt start with
  | .absent => return absent
  | .unterminated _ => return unterminated
  | .closed span => do
    let inner ← span.slice text
    return found (make inner) span.stop

/-- A control sequence that may stand behind blanks. -/
def name? (text : Text) (start : Nat) : Option (Text × Nat) :=
  text.controlSequenceAt? (text.afterBlanks start)

/-- A primitive definition: a name, parameter text of numbered parameters only, and a body. -/
def primitive (text : Text) (start : Nat) : Sliced DefinitionSpan :=
  match name? text start with
  | none => return absent
  | some (name, nameEnd) => do
    let behind ← text.sliceFrom nameEnd
    match behind.firstOffset? '{' with
    | none => return absent
    | some offset => do
      let parameters ← text.sliceBetween nameEnd (nameEnd + offset)
      if parameters.all DefinitionReading.isParameterText then
        body text (nameEnd + offset) (Macro.withRequired name (parameters.count '#'))
      else return absent

/-- Behind the character that may stand at an offset. -/
def behindCharacter (text : Text) (c : Char) (start : Nat) : Sliced Nat := do
  let behind ← text.sliceFrom start
  return if behind.head? = some c then start + 1 else start

/-- A name and a control sequence, with an equals sign between them or not. -/
def letting (text : Text) (start : Nat) : Sliced DefinitionSpan :=
  match name? text start with
  | none => return absent
  | some (name, nameEnd) => do
    let targetStart ← behindCharacter text '=' (text.afterBlanks nameEnd)
    match name? text targetStart with
    | none => return absent
    | some (target, stop) => return found (Macro.plain name ('\\' :: target)) stop

/-- A macro name, with or without braces around it. -/
def bracedName? (text : Text) (start : Nat) : Sliced (Option (Text × Nat)) :=
  match text.bracedAt start with
  | .closed span => do
    let inner ← span.slice text
    match inner.trim.controlSequenceAt? 0 with
    | none => return none
    | some (name, stop) =>
      return if stop = inner.trim.byteLength then some (name, span.stop) else none
  | .unterminated _ => return none
  | .absent => return name? text start

/-- A command definition: a name, the number of parameters and a default in brackets, a body. -/
def command (text : Text) (start : Nat) : Sliced DefinitionSpan := do
  let start ← behindCharacter text '*' start
  match ← bracedName? text start with
  | none => return absent
  | some (name, nameEnd) =>
    match ← text.groupSlice .brackets nameEnd with
    | none => body text nameEnd (Macro.plain name)
    | some (count, countEnd) =>
      match readCount? count.trim with
      | none => return absent
      | some 0 => body text countEnd (Macro.plain name)
      | some (arity + 1) =>
        match ← text.groupSlice .brackets countEnd with
        | none => body text countEnd (Macro.withRequired name (arity + 1))
        | some (default, defaultEnd) =>
          body text defaultEnd (Macro.withOptional name (arity + 1) default)

/-- An operator definition: a name and the operator's text. -/
def operator (text : Text) (start : Nat) : Sliced DefinitionSpan := do
  let start ← behindCharacter text '*' start
  match ← bracedName? text start with
  | none => return absent
  | some (name, nameEnd) =>
    body text nameEnd fun inner => Macro.plain name (DefinitionReading.operatorBody inner)

/-- Read a definition of a family behind a control word, by offset. -/
def behindWord (family : DefinitionFamily) (text word : Text) (start : Nat) :
    Sliced DefinitionSpan :=
  match family with
  | .primitive => if word = "let".toList then letting text start else primitive text start
  | .command => command text start
  | .operator => operator text start

variable {text rest : Text}

/-- A body read by offset is the one that is read at the place. -/
theorem body_offsetOf (suffix : rest <:+ text) (make : Text → Macro) :
    body text (text.offsetOf rest) make =
      .ok (ofReading text (DefinitionReading.body rest make)) := by
  rw [body, DefinitionReading.body, Group.readBraced, Text.bracedAt,
    Text.groupAt_offsetOf suffix]
  cases read : Group.readGroup .braces rest with
  | absent => rfl
  | unterminated => rfl
  | closed inner after =>
    simp only [Text.spanOf, (Text.fits_of_readGroup suffix read).inner]
    rfl

/-- A control sequence behind blanks, read by offset. -/
theorem name?_offsetOf (suffix : rest <:+ text) :
    name? text (text.offsetOf rest) = (DefinitionReading.name? rest).map text.offsetBehind := by
  rw [name?, Text.afterBlanks_offsetOf suffix,
    Text.controlSequenceAt?_offsetOf ((Text.trimStart_suffix rest).trans suffix)]
  rfl

/-- What follows a name is behind it. -/
theorem name?_suffix {name after : Text}
    (read : DefinitionReading.name? rest = some (name, after)) : after <:+ rest :=
  (ControlSequence.read?_advances read).suffix.trans (Text.trimStart_suffix rest)

/-- A primitive definition read by offset is the one that is read at the place. -/
theorem primitive_offsetOf (suffix : rest <:+ text) :
    primitive text (text.offsetOf rest) =
      .ok (ofReading text (DefinitionReading.primitive rest)) := by
  rw [primitive, DefinitionReading.primitive, name?_offsetOf suffix]
  cases read : DefinitionReading.name? rest with
  | none => rfl
  | some found =>
    obtain ⟨name, after⟩ := found
    have behind : after <:+ text := (name?_suffix read).trans suffix
    simp only [Option.map_some, Text.offsetBehind, Text.sliceFrom_offsetOf behind, Sliced.ok_bind]
    by_cases mem : '{' ∈ after
    · obtain ⟨parameters, tail, rfl, free⟩ := List.eq_append_cons_of_mem mem
      have opened : '{' :: tail <:+ parameters ++ '{' :: tail := List.suffix_append parameters _
      have offset := Text.offsetOf_append_add behind
      have slice := Text.sliceBetween_append behind
      have others : ∀ c ∈ parameters, (c != '{') = true := by
        intro c inside
        exact bne_iff_ne.2 fun same => free (same ▸ inside)
      have stops : ∀ first ∈ ('{' :: tail).head?, (first != '{') = false := by simp
      simp only [Text.firstOffset?_append free, offset, slice, Sliced.ok_bind,
        takeWhile_run others stops, dropWhile_run others stops,
        body_offsetOf (opened.trans behind)]
      cases parameters.all DefinitionReading.isParameterText with
      | true => rfl
      | false => rfl
    · have none : after.dropWhile (· != '{') = [] := by
        rw [List.dropWhile_eq_nil_iff]
        intro c inside
        exact bne_iff_ne.2 fun same => mem (same ▸ inside)
      simp only [Text.firstOffset?_of_not_mem mem, none]
      rfl

/-- A character of one byte is passed over by offset as it is at the place. -/
theorem behindCharacter_offsetOf {c : Char} (suffix : rest <:+ text) (one : c.utf8Size = 1) :
    behindCharacter text c (text.offsetOf rest) =
      .ok (text.offsetOf (if rest.head? = some c then rest.tail else rest)) := by
  rw [behindCharacter, Text.sliceFrom_offsetOf suffix, Sliced.ok_bind]
  refine congrArg Except.ok ?_
  cases rest with
  | nil => rfl
  | cons first tail =>
    by_cases same : first = c
    · subst same
      simp only [List.head?_cons, if_true, List.tail_cons, Text.offsetOf_tail suffix, one]
    · have other : ¬(first :: tail).head? = some c := by simpa using same
      rw [if_neg other, if_neg other]

/-- A star that is dropped is passed over. -/
theorem dropStar_eq (text : Text) :
    DefinitionReading.dropStar text = if text.head? = some '*' then text.tail else text := by
  unfold DefinitionReading.dropStar
  split
  · rfl
  · rename_i other
    refine (if_neg fun star => ?_).symm
    obtain ⟨tail, rfl⟩ := List.head?_eq_some_iff.1 star
    exact other tail rfl

/-- An alias is a name and, behind blanks and the equals sign that may stand there, another. -/
theorem alias?_eq (text : Text) :
    DefinitionReading.alias? text = (DefinitionReading.name? text).bind fun (name, rest) =>
      (DefinitionReading.name? (if rest.trimStart.head? = some '=' then rest.trimStart.tail
        else rest.trimStart)).map fun (target, rest) =>
          (Macro.plain name ('\\' :: target), rest) := by
  rw [DefinitionReading.alias?]
  cases DefinitionReading.name? text with
  | none => rfl
  | some found =>
    simp only [Option.bind_eq_bind, Option.bind_some, Option.map_eq_bind]
    split
    · rename_i rest equals
      rw [equals]
      rfl
    · rename_i other
      rw [if_neg fun equals => (List.head?_eq_some_iff.1 equals).elim other]
      rfl

/-- An alias read by offset is the one that is read at the place. -/
theorem letting_offsetOf (suffix : rest <:+ text) :
    letting text (text.offsetOf rest) =
      .ok (ofReading text (.ofOption (DefinitionReading.alias? rest))) := by
  rw [letting, alias?_eq, name?_offsetOf suffix]
  cases read : DefinitionReading.name? rest with
  | none => rfl
  | some found =>
    obtain ⟨name, after⟩ := found
    have blanks : after.trimStart <:+ text :=
      ((Text.trimStart_suffix after).trans (name?_suffix read)).trans suffix
    have equals : (if after.trimStart.head? = some '=' then after.trimStart.tail
        else after.trimStart) <:+ text := by
      split
      · exact (List.tail_suffix _).trans blanks
      · exact blanks
    simp only [Option.map_some, Text.offsetBehind, Option.bind_some,
      Text.afterBlanks_offsetOf ((name?_suffix read).trans suffix),
      behindCharacter_offsetOf (c := '=') blanks rfl, Sliced.ok_bind, name?_offsetOf equals]
    cases DefinitionReading.name? (if after.trimStart.head? = some '=' then after.trimStart.tail
        else after.trimStart) with
    | none => rfl
    | some found => rfl

/-- A macro name read by offset is the one that is read at the place. -/
theorem bracedName?_offsetOf (suffix : rest <:+ text) :
    bracedName? text (text.offsetOf rest) =
      .ok ((DefinitionReading.bracedName? rest).map text.offsetBehind) := by
  rw [bracedName?, DefinitionReading.bracedName?, Group.readBraced, Text.bracedAt,
    Text.groupAt_offsetOf suffix]
  cases read : Group.readGroup .braces rest with
  | absent => exact congrArg Except.ok (name?_offsetOf suffix)
  | unterminated => rfl
  | closed inner after =>
    have whole := Text.controlSequenceAt?_offsetOf (List.suffix_refl inner.trim)
    rw [Text.offsetOf_self] at whole
    simp only [Text.spanOf, (Text.fits_of_readGroup suffix read).inner, Sliced.ok_bind, whole]
    cases sequence : ControlSequence.read? inner.trim with
    | none => rfl
    | some found =>
      obtain ⟨name, tail⟩ := found
      cases tail with
      | nil =>
        simp only [Option.map_some, Text.offsetBehind, Text.offsetOf_nil, if_true]
        rfl
      | cons first tail =>
        have inside := (ControlSequence.read?_advances sequence).suffix
        have short : inner.trim.offsetOf (first :: tail) < inner.trim.byteLength :=
          (Text.offsetOf_lt_iff inside (List.nil_suffix ..)).2 (Nat.succ_pos _)
        simp only [Option.map_some, Text.offsetBehind, if_neg (Nat.ne_of_lt short)]
        rfl

/-- What follows a macro name is behind it. -/
theorem bracedName?_suffix {name after : Text}
    (read : DefinitionReading.bracedName? rest = some (name, after)) : after <:+ rest := by
  rw [DefinitionReading.bracedName?] at read
  split at read
  · rename_i inner behind group
    split at read
    · cases read
      exact (Group.readGroup_advances group).suffix
    · cases read
  · cases read
  · exact name?_suffix read

/-- A star that is dropped is in front of what is left. -/
theorem dropStar_suffix (text : Text) : DefinitionReading.dropStar text <:+ text := by
  rw [dropStar_eq]
  split
  · exact List.tail_suffix text
  · exact List.suffix_refl text

/-- A command definition read by offset is the one that is read at the place. -/
theorem command_offsetOf (suffix : rest <:+ text) :
    command text (text.offsetOf rest) = .ok (ofReading text (DefinitionReading.command rest)) := by
  have starred := (dropStar_suffix rest).trans suffix
  rw [command, DefinitionReading.command, behindCharacter_offsetOf (c := '*') suffix rfl,
    ← dropStar_eq, Sliced.ok_bind, bracedName?_offsetOf starred, Sliced.ok_bind]
  cases read : DefinitionReading.bracedName? (DefinitionReading.dropStar rest) with
  | none => rfl
  | some found =>
    obtain ⟨name, after⟩ := found
    have behind : after <:+ text := (bracedName?_suffix read).trans starred
    simp only [Option.map_some, Text.offsetBehind, Text.groupSlice_offsetOf behind,
      Sliced.ok_bind, Group.bracketed?]
    cases group : Group.group? .brackets after with
    | none => exact body_offsetOf behind _
    | some found =>
      obtain ⟨count, counted⟩ := found
      have behindCount : counted <:+ text := (Group.group?_advances group).suffix.trans behind
      simp only [Option.map_some, Text.offsetBehind]
      cases readCount? count.trim with
      | none => rfl
      | some arity =>
        cases arity with
        | zero => exact body_offsetOf behindCount _
        | succ arity =>
          simp only [Text.groupSlice_offsetOf behindCount, Sliced.ok_bind]
          cases defaultGroup : Group.group? .brackets counted with
          | none => exact body_offsetOf behindCount _
          | some found =>
            have advances := Group.group?_advances defaultGroup
            exact body_offsetOf (advances.suffix.trans behindCount) _

/-- An operator definition read by offset is the one that is read at the place. -/
theorem operator_offsetOf (suffix : rest <:+ text) :
    operator text (text.offsetOf rest) =
      .ok (ofReading text (DefinitionReading.operator rest)) := by
  have starred := (dropStar_suffix rest).trans suffix
  rw [operator, DefinitionReading.operator, behindCharacter_offsetOf (c := '*') suffix rfl,
    ← dropStar_eq, Sliced.ok_bind, bracedName?_offsetOf starred, Sliced.ok_bind]
  cases read : DefinitionReading.bracedName? (DefinitionReading.dropStar rest) with
  | none => rfl
  | some found => exact body_offsetOf ((bracedName?_suffix read).trans starred) _

/-- A definition read by offset is the one that is read at the place. -/
theorem behindWord_offsetOf (family : DefinitionFamily) (word : Text) (suffix : rest <:+ text) :
    behindWord family text word (text.offsetOf rest) =
      .ok (ofReading text (DefinitionReading.ofKeyword family ⟨word, rest⟩)) := by
  cases family with
  | primitive =>
    rw [behindWord, DefinitionReading.ofKeyword]
    split
    · exact letting_offsetOf suffix
    · exact primitive_offsetOf suffix
  | command => exact command_offsetOf suffix
  | operator => exact operator_offsetOf suffix

end DefinitionSpan

namespace DefinitionReading

variable {text rest : Text}

/-- What follows a definition, if there is one, is behind a place. -/
def EndsBehind (place : Text) : DefinitionReading → Prop
  | found _ rest => rest <:+ place
  | _ => True

/-- A body ends behind every place in front of it. -/
theorem body_endsBehind (suffix : rest <:+ text) (make : Text → Macro) :
    (body rest make).EndsBehind text := by
  rw [body]
  cases read : Group.readBraced rest with
  | absent => trivial
  | unterminated => trivial
  | closed inner after =>
    exact (Group.readGroup_advances read).suffix.trans suffix

/-- A primitive definition ends behind its keyword. -/
theorem primitive_endsBehind (text : Text) : (primitive text).EndsBehind text := by
  rw [primitive]
  cases read : name? text with
  | none => trivial
  | some found =>
    dsimp only
    split
    · trivial
    · exact body_endsBehind ((List.dropWhile_suffix _).trans (DefinitionSpan.name?_suffix read)) _

/-- An alias ends behind its keyword. -/
theorem alias?_endsBehind (text : Text) : (ofOption (alias? text)).EndsBehind text := by
  rw [DefinitionSpan.alias?_eq]
  cases read : name? text with
  | none => trivial
  | some found =>
    obtain ⟨name, after⟩ := found
    rw [Option.bind_some]
    dsimp only
    cases target : name? (if after.trimStart.head? = some '=' then after.trimStart.tail
        else after.trimStart) with
    | none => trivial
    | some found =>
      have behind := DefinitionSpan.name?_suffix target
      have blanks := (Text.trimStart_suffix after).trans (DefinitionSpan.name?_suffix read)
      split at behind
      · exact behind.trans ((List.tail_suffix _).trans blanks)
      · exact behind.trans blanks

/-- A command definition ends behind its keyword. -/
theorem command_endsBehind (text : Text) : (command text).EndsBehind text := by
  rw [command]
  cases read : bracedName? (dropStar text) with
  | none => trivial
  | some found =>
    have behind :=
      (DefinitionSpan.bracedName?_suffix read).trans (DefinitionSpan.dropStar_suffix text)
    dsimp only
    cases group : Group.bracketed? found.2 with
    | none => exact body_endsBehind behind _
    | some count =>
      have behindCount := (Group.group?_advances group).suffix.trans behind
      dsimp only
      split
      · trivial
      · exact body_endsBehind behindCount _
      · cases defaultGroup : Group.bracketed? count.2 with
        | none => exact body_endsBehind behindCount _
        | some default =>
          have advances := Group.group?_advances defaultGroup
          exact body_endsBehind (advances.suffix.trans behindCount) _

/-- An operator definition ends behind its keyword. -/
theorem operator_endsBehind (text : Text) : (operator text).EndsBehind text := by
  rw [operator]
  cases read : bracedName? (dropStar text) with
  | none => trivial
  | some found =>
    exact body_endsBehind
      ((DefinitionSpan.bracedName?_suffix read).trans (DefinitionSpan.dropStar_suffix text)) _

/-- A definition ends behind its keyword. -/
theorem ofKeyword_endsBehind (family : DefinitionFamily) (found : Keyword) :
    (ofKeyword family found).EndsBehind found.after := by
  cases family with
  | primitive =>
    rw [ofKeyword]
    split
    · exact alias?_endsBehind found.after
    · exact primitive_endsBehind found.after
  | command => exact command_endsBehind found.after
  | operator => exact operator_endsBehind found.after

end DefinitionReading

end TexStatements
