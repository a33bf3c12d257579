import TexStatements.Proofs.Comment.Scan
import TexStatements.Proofs.Macro.Row

/-!
# Macros without parameters

Where macros take no parameters, what a text is expanded to is the row of its tokens with the
tokens of bodies in place of the calls. Its spelling is read back as this row exactly if no letter
that is put in, or left behind a call, continues a control word (`names_ofText_spell_iff`). A
table whose bodies do not start with letters never makes that happen.
-/
namespace TexStatements

open ControlSequence

namespace Token

/-- An unpaired backslash at the end is a token of its own. -/
theorem endsUnpaired_iff {text : Text} : text.EndsUnpaired ↔ character '\\' ∈ ofText text := by
  induction text using Text.token_induction with
  | nil => simp [Text.EndsUnpaired]
  | character first tail plain ih =>
    rw [ofText_character plain, List.mem_cons, character.injEq]
    by_cases same : first = '\\'
    · rw [plain same]
      simp [same, Text.EndsUnpaired]
    · rw [← ih, or_iff_right fun equal => same equal.symm]
      exact Text.endsUnpaired_append_cons same [] tail
  | sequence name rest valid ends ih =>
    have different : character '\\' ≠ sequence name := by simp
    rw [ofText_sequence valid ends, List.mem_cons, or_iff_right different, ← ih]
    by_cases pair : name = ['\\']
    · rw [pair]
      exact Text.endsUnpaired_pair rest
    · obtain ⟨front, c, rfl⟩ := (List.eq_nil_or_concat' name).resolve_left valid.ne_nil
      have other : c ≠ '\\' := by
        rcases valid with word | ⟨symbol, -, same⟩
        · have letter := word.2 c (by simp)
          rintro rfl
          exact absurd letter (by decide)
        · rintro rfl
          have alone := List.append_inj_left' (same.trans (List.nil_append _).symm) rfl
          rw [alone] at pair
          exact pair rfl
      have regrouped : '\\' :: (front ++ [c] ++ rest) = ('\\' :: front) ++ c :: rest := by simp
      rw [regrouped]
      exact Text.endsUnpaired_append_cons other _ rest

variable {row : List Token}

/-- Letters behind a control word are read with it, and so under a longer name. -/
theorem ofText_continued {name text : Text} (word : IsWord name)
    (continued : ¬endsControlWord text = true) : ∃ more rest, more ≠ [] ∧
      ofText ('\\' :: (name ++ text)) = sequence (name ++ more) :: ofText rest := by
  cases text with
  | nil => exact absurd rfl continued
  | cons letter others =>
    have isLetter : isControlLetter letter = true := by simpa [endsControlWord] using continued
    have longer : IsWord (name ++ letter :: others.takeWhile isControlLetter) := by
      refine ⟨by simp, fun c mem => ?_⟩
      rcases List.mem_append.1 mem with inName | behind
      · exact word.2 c inName
      · rcases List.mem_cons.1 behind with rfl | later
        · exact isLetter
        · exact List.all_eq_true.1 List.all_takeWhile c later
    have regrouped : name ++ letter :: others =
        (name ++ letter :: others.takeWhile isControlLetter) ++
          others.dropWhile isControlLetter := by
      rw [List.append_assoc, List.cons_append, List.takeWhile_append_dropWhile]
    refine ⟨letter :: others.takeWhile isControlLetter, others.dropWhile isControlLetter,
      List.cons_ne_nil _ _, ?_⟩
    rw [regrouped, ofText_sequence (.inl longer) fun _ => endsControlWord_dropWhile others]

/-- A row of readable tokens is read back with the same control sequences exactly if no letter
continues one of them. -/
theorem names_ofText_spell_iff (valid : Valid row) (closed : character '\\' ∉ row.dropLast) :
    names (ofText (spell row)) = names row ↔ row.IsChain Apart := by
  constructor
  · intro same
    induction row with
    | nil => exact .nil
    | cons first more ih =>
      have validMore : Valid more := fun name mem => valid name (List.mem_cons_of_mem _ mem)
      have closedMore : character '\\' ∉ more.dropLast := by
        cases more with
        | nil => exact List.not_mem_nil
        | cons next row => exact fun mem => closed (List.mem_cons_of_mem _ mem)
      cases first with
      | character c =>
        have plain : c = '\\' → spell more = [] := by
          rintro rfl
          cases more with
          | nil => rfl
          | cons next row => exact absurd (List.mem_cons_self ..) closed
        rw [spell_character, ofText_character plain, names_character, names_character] at same
        refine List.isChain_cons.2 ⟨?_, ih validMore closedMore same⟩
        intro next _ name letter isSequence
        cases isSequence
      | sequence name =>
        have readable := valid name (List.mem_cons_self ..)
        by_cases ends : IsWord name → endsControlWord (spell more) = true
        · rw [spell_sequence, ofText_sequence readable ends, names_sequence, names_sequence,
            List.cons.injEq] at same
          exact List.isChain_cons.2
            ⟨apart_of_endsControlWord ends, ih validMore closedMore same.2⟩
        · rw [Classical.not_imp] at ends
          obtain ⟨more, rest, longer, read⟩ := ofText_continued ends.1 ends.2
          rw [spell_sequence, read, names_sequence, names_sequence, List.cons.injEq] at same
          exact absurd (List.append_cancel_left (same.1.trans (List.append_nil name).symm)) longer
  · intro apart
    rw [Legible.ofText_spell ⟨valid, closed, apart⟩]

end Token

/-- A macro without parameters, named by a control word, whose body is put in as it is written: it
has no number signs and does not escape the character behind a call. -/
structure Macro.Constant (definition : Macro) : Prop where
  /-- There are no parameters. -/
  parameters : definition.parameters = []
  /-- The name is a control word. -/
  word : IsWord definition.name
  /-- The body has no number sign. -/
  literal : '#' ∉ definition.body
  /-- The body does not end in an unpaired backslash. -/
  paired : ¬definition.body.EndsUnpaired

instance (definition : Macro) : Decidable definition.Constant :=
  decidable_of_iff
    (definition.parameters = [] ∧ IsWord definition.name ∧ '#' ∉ definition.body ∧
      ¬definition.body.EndsUnpaired)
    ⟨fun ⟨parameters, word, literal, paired⟩ => ⟨parameters, word, literal, paired⟩,
      fun constant => ⟨constant.parameters, constant.word, constant.literal, constant.paired⟩⟩

namespace MacroTable

open Token

/-- A table of such macros, each under its name. -/
structure Constants (table : MacroTable) : Prop where
  /-- Every macro is entered under its name. -/
  keyed : table.Keyed
  /-- The macros are constant. -/
  constant : ∀ definition ∈ table.values, definition.Constant

instance (table : MacroTable) : Decidable table.Constants :=
  decidable_of_iff (table.Keyed ∧ ∀ definition ∈ table.values, definition.Constant)
    ⟨fun ⟨keyed, constant⟩ => ⟨keyed, constant⟩,
      fun constants => ⟨constants.keyed, constants.constant⟩⟩

/-- The tokens that stand in the expansion for a token. -/
def becomes (table : MacroTable) : Token → List Token
  | .character c => [.character c]
  | .sequence name =>
    match NameMap.find? table name with
    | some definition => ofText definition.body
    | none => [.sequence name]

/-- The control sequences that stand in the expansion for a control sequence. -/
def namesFor (table : MacroTable) (name : Text) : List Text :=
  match NameMap.find? table name with
  | some definition => ControlSequence.names definition.body
  | none => [name]

variable {table : MacroTable} {name : Text} {definition : Macro} {row : List Token}

/-- What is found in a table of constant macros is constant. -/
theorem Constants.of_find? (constants : table.Constants)
    (found : NameMap.find? table name = some definition) : definition.Constant :=
  constants.constant definition (NameMap.mem_values_of_find? found)

/-- A macro is found under a control word. -/
theorem Constants.isWord (constants : table.Constants)
    (found : NameMap.find? table name = some definition) : IsWord name :=
  constants.keyed.name_eq found ▸ (constants.of_find? found).word

/-- Where a name has a macro its body is put in. -/
theorem becomes_of_find? (found : NameMap.find? table name = some definition) :
    table.becomes (.sequence name) = ofText definition.body := by
  simp only [becomes, found]

/-- Where a name has no macro it stays. -/
theorem becomes_of_absent (absent : NameMap.find? table name = none) :
    table.becomes (.sequence name) = [.sequence name] := by
  simp only [becomes, absent]

/-- Calls without arguments are replaced token by token. -/
theorem Constants.expandWithin_eq (constants : table.Constants) (depth : Nat) (text : Text) :
    table.expandWithin (depth + 1) text = spell ((ofText text).flatMap table.becomes) := by
  induction text using Text.token_induction with
  | nil => rw [expandWithin_nil, ofText_nil, List.flatMap_nil, spell_nil]
  | character first tail plain ih =>
    rw [expandWithin_character _ _ plain, ofText_character plain, List.flatMap_cons, spell_append,
      ih]
    rfl
  | sequence name rest valid ends ih =>
    rw [ofText_sequence valid ends, List.flatMap_cons, spell_append]
    cases found : NameMap.find? table name with
    | none =>
      rw [expandWithin_kept _ _ valid ends (itemAfter_of_absent found rest),
        becomes_of_absent found, ih, ← spell_append, List.singleton_append, spell_sequence]
    | some definition =>
      have constant := constants.of_find? found
      have read : arguments? definition.parameters rest = some ([], rest) := by
        rw [constant.parameters, arguments?]
      rw [expandWithin_call _ _ valid ends (itemAfter_of_read found read),
        becomes_of_find? found, ih, spell_ofText, Macro.instantiate,
        Macro.substitute_of_not_mem constant.literal]

/-- Expansion replaces token by token. -/
theorem Constants.expand_eq (constants : table.Constants) (text : Text) :
    table.expand text = spell ((ofText text).flatMap table.becomes) := by
  have deep := Nat.zero_lt_of_lt (length_lt_depthBound table text)
  obtain ⟨depth, positive⟩ := Nat.exists_eq_succ_of_ne_zero (Nat.ne_of_gt deep)
  rw [expand, positive]
  exact constants.expandWithin_eq depth text

/-- The control sequences that are put in. -/
theorem names_flatMap_becomes (table : MacroTable) (row : List Token) :
    Token.names (row.flatMap table.becomes) = (Token.names row).flatMap table.namesFor := by
  induction row with
  | nil => rfl
  | cons token row ih =>
    rw [List.flatMap_cons, names_append, ih]
    cases token with
    | character c => rfl
    | sequence name =>
      rw [names_sequence, List.flatMap_cons]
      cases found : NameMap.find? table name with
      | none =>
        rw [becomes_of_absent found]
        simp [namesFor, found]
      | some definition =>
        rw [becomes_of_find? found, names_ofText]
        simp [namesFor, found]

/-- The control sequences that are put in can be read. -/
theorem valid_flatMap_becomes (table : MacroTable) (valid : Valid row) :
    Valid (row.flatMap table.becomes) := by
  intro name mem
  obtain ⟨token, inRow, mem⟩ := List.mem_flatMap.1 mem
  cases token with
  | character c => simp [becomes] at mem
  | sequence other =>
    cases found : NameMap.find? table other with
    | none =>
      rw [becomes_of_absent found, List.mem_singleton, Token.sequence.injEq] at mem
      exact mem ▸ valid other inRow
    | some definition =>
      rw [becomes_of_find? found] at mem
      exact (legible_ofText definition.body).valid name mem

/-- No body puts in an unpaired backslash. -/
theorem Constants.backslash_mem (constants : table.Constants)
    (mem : character '\\' ∈ row.flatMap table.becomes) : character '\\' ∈ row := by
  obtain ⟨token, inRow, mem⟩ := List.mem_flatMap.1 mem
  cases token with
  | character c => rwa [List.mem_singleton.1 mem]
  | sequence other =>
    cases found : NameMap.find? table other with
    | none => simp [becomes_of_absent found] at mem
    | some definition =>
      rw [becomes_of_find? found, ← endsUnpaired_iff] at mem
      exact absurd mem (constants.of_find? found).paired

/-- If a row has an unpaired backslash at its end only, then so has what is put in for it. -/
theorem Constants.closed_flatMap (constants : table.Constants)
    (closed : character '\\' ∉ row.dropLast) :
    character '\\' ∉ (row.flatMap table.becomes).dropLast := by
  rcases List.eq_nil_or_concat' row with rfl | ⟨front, last, rfl⟩
  · exact List.not_mem_nil
  · rw [List.dropLast_concat] at closed
    rw [List.flatMap_append]
    intro mem
    by_cases unpaired : last = character '\\'
    · subst unpaired
      have alone : [character '\\'].flatMap table.becomes = [character '\\'] := rfl
      rw [alone, List.dropLast_concat] at mem
      exact closed (constants.backslash_mem mem)
    · have whole := List.dropLast_subset _ mem
      rw [← List.flatMap_append] at whole
      rcases List.mem_append.1 (constants.backslash_mem whole) with inFront | isLast
      · exact closed inFront
      · exact unpaired (List.mem_singleton.1 isLast).symm

/-- Where no body starts with a letter, nothing that does is made of what does not. -/
theorem Constants.endsControlWord_spell (constants : table.Constants)
    (gentle : ∀ definition ∈ table.values, endsControlWord definition.body = true) {text : Text}
    (ends : endsControlWord text = true) :
    endsControlWord (spell ((ofText text).flatMap table.becomes)) = true := by
  induction text using Text.token_induction with
  | nil => rw [ofText_nil]; rfl
  | character first tail plain ih =>
    rw [ofText_character plain]
    exact ends
  | sequence name rest valid stops ih =>
    rw [ofText_sequence valid stops, List.flatMap_cons, spell_append]
    cases found : NameMap.find? table name with
    | none =>
      rw [becomes_of_absent found]
      rfl
    | some definition =>
      rw [becomes_of_find? found, spell_ofText]
      cases body : definition.body with
      | nil => exact ih (stops (constants.isWord found))
      | cons first more =>
        have start := gentle definition (NameMap.mem_values_of_find? found)
        rw [body] at start
        exact start

/-- Where no body starts with a letter, no control word is continued. -/
theorem Constants.apart_of_gentle (constants : table.Constants)
    (gentle : ∀ definition ∈ table.values, endsControlWord definition.body = true) (text : Text) :
    ((ofText text).flatMap table.becomes).IsChain Apart := by
  induction text using Text.token_induction with
  | nil => rw [ofText_nil]; exact .nil
  | character first tail plain ih =>
    rw [ofText_character plain, List.flatMap_cons]
    refine List.isChain_cons.2 ⟨?_, ih⟩
    intro next _ name c isSequence
    cases isSequence
  | sequence name rest valid ends ih =>
    have behind (word : IsWord name) := constants.endsControlWord_spell gentle (ends word)
    rw [ofText_sequence valid ends, List.flatMap_cons]
    cases found : NameMap.find? table name with
    | none =>
      rw [becomes_of_absent found]
      exact List.isChain_cons.2 ⟨apart_of_endsControlWord behind, ih⟩
    | some definition =>
      rw [becomes_of_find? found, List.isChain_append]
      refine ⟨(legible_ofText definition.body).apart, ih, fun last _ first isFirst => ?_⟩
      rintro other c rfl isCharacter word
      exact apart_of_endsControlWord (fun _ => behind (constants.isWord found)) first isFirst
        other c rfl isCharacter word

/-- What is put in is read back if no control word is continued. -/
theorem Constants.legible_flatMap (constants : table.Constants) {text : Text}
    (apart : ((ofText text).flatMap table.becomes).IsChain Apart) :
    Legible ((ofText text).flatMap table.becomes) where
  valid := valid_flatMap_becomes table (legible_ofText text).valid
  closed := constants.closed_flatMap (legible_ofText text).closed
  apart := apart

/-- The control sequences of an expanded text are those of the text, each with those of its macro's
body in its place, exactly if no letter stands directly behind a control word in the row of tokens
that is put in. Then all of this row is read back, and where no body starts with a letter it always
is. -/
theorem names_expand_iff_apart (constants : table.Constants) (text : Text) :
    (ControlSequence.names (table.expand text) =
        (ControlSequence.names text).flatMap table.namesFor ↔
      ((ofText text).flatMap table.becomes).IsChain Apart) ∧
    (((ofText text).flatMap table.becomes).IsChain Apart →
      ofText (table.expand text) = (ofText text).flatMap table.becomes) ∧
    ((∀ definition ∈ table.values, endsControlWord definition.body = true) →
      ((ofText text).flatMap table.becomes).IsChain Apart) := by
  refine ⟨?_, fun apart => ?_, fun gentle => constants.apart_of_gentle gentle text⟩
  · rw [constants.expand_eq, ← names_ofText, ← names_ofText text, ← names_flatMap_becomes]
    exact names_ofText_spell_iff (valid_flatMap_becomes table (legible_ofText text).valid)
      (constants.closed_flatMap (legible_ofText text).closed)
  · rw [constants.expand_eq, (constants.legible_flatMap apart).ofText_spell]

/-- A call behind a control word keeps that word if the body starts with a brace. -/
theorem names_expand_iff_apart_braced :
    (ofMacros [.plain "x".toList "\x7bR\x7d".toList]).Constants ∧
    ControlSequence.names
      ((ofMacros [.plain "x".toList "\x7bR\x7d".toList]).expand "\\mathbf\\x".toList) =
        ["mathbf".toList] := by
  have constants : (ofMacros [.plain "x".toList "\x7bR\x7d".toList]).Constants := by
    decide +kernel
  obtain ⟨same, -, gentle⟩ := names_expand_iff_apart constants "\\mathbf\\x".toList
  refine ⟨constants, (same.2 (gentle ?_)).trans ?_⟩
  · decide +kernel
  · decide +kernel

/-- A body that starts with a letter is read as part of the control word in front of its call. -/
theorem names_expand_glued :
    (ofMacros [.plain "x".toList "R".toList]).Constants ∧
    (ofMacros [.plain "x".toList "R".toList]).expand "\\mathbf\\x".toList =
      "\\mathbfR".toList ∧
    ControlSequence.names
        ((ofMacros [.plain "x".toList "R".toList]).expand "\\mathbf\\x".toList) ≠
      (ControlSequence.names "\\mathbf\\x".toList).flatMap
        (ofMacros [.plain "x".toList "R".toList]).namesFor := by
  refine ⟨?_, ?_, ?_⟩
  · decide +kernel
  · decide +kernel
  · decide +kernel

end MacroTable
end TexStatements
