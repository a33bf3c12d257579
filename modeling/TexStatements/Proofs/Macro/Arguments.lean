import TexStatements.Macro.Expansion
import TexStatements.Proofs.Text.Plain
import TexStatements.Proofs.Text.Tokens

/-!
# The arguments of a call

The groups that hold the arguments of a call are cut out of its text between tokens: a backslash
escapes the same character for the reader of groups as for the reader of control sequences, and
the letters of a word are no delimiters. The control sequences of a text are therefore those of
the group, followed by those of the text after it, and an argument calls nothing that its call
does not.
-/
namespace TexStatements

open ControlSequence

/-- The front of a text that starts with no letter starts with none. -/
theorem endsControlWord_of_append {front rest : Text}
    (ends : endsControlWord (front ++ rest) = true) : endsControlWord front = true := by
  cases front with
  | nil => rfl
  | cons first tail => exact ends

namespace Token

/-- Characters other than backslashes are tokens. -/
theorem ofText_append_of_not_mem {front rest : Text} (free : '\\' ∉ front) :
    ofText (front ++ rest) = front.map character ++ ofText rest := by
  induction front with
  | nil => rfl
  | cons first front ih =>
    rw [List.mem_cons, not_or] at free
    have plain : first = '\\' → front ++ rest = [] := fun same => absurd same.symm free.1
    rw [List.cons_append, ofText_character plain, ih free.2, List.map_cons, List.cons_append]

end Token

/-- Blanks are no control sequences. -/
theorem ControlSequence.names_trimStart (text : Text) : names text.trimStart = names text := by
  have free : '\\' ∉ text.takeWhile isBlank := fun mem => by
    have blank := List.all_eq_true.1 List.all_takeWhile _ mem
    revert blank
    decide
  have parts : text.takeWhile isBlank ++ text.trimStart = text :=
    List.takeWhile_append_dropWhile
  have none : ∀ blanks : Text, Token.names (blanks.map .character) = [] := by
    intro blanks
    induction blanks with
    | nil => rfl
    | cons first blanks ih => exact ih
  calc
    names text.trimStart = Token.names (Token.ofText text.trimStart) :=
      (Token.names_ofText _).symm
    _ = Token.names (Token.ofText (text.takeWhile isBlank ++ text.trimStart)) := by
      rw [Token.ofText_append_of_not_mem free, Token.names_append, none, List.nil_append]
    _ = names text := by rw [parts, Token.names_ofText]

namespace Group

variable {name text inner rest : Text}

/-- Letters of control words may stand inside a group. -/
theorem Delimiters.inside_of_letters (delimiters : Delimiters)
    (letters : ∀ c ∈ text, isControlLetter c = true) : delimiters.Inside text :=
  delimiters.inside_of_kind (by cases delimiters <;> decide) letters

/-- A name is a character with letters behind it, if anything. -/
theorem exists_letters_of_isName (valid : IsName name) :
    ∃ first letters, name = first :: letters ∧ ∀ c ∈ letters, isControlLetter c = true := by
  rcases valid with word | ⟨symbol, -, rfl⟩
  · obtain ⟨first, letters, rfl⟩ := List.exists_cons_of_ne_nil word.1
    exact ⟨first, letters, rfl, fun c mem => word.2 c (List.mem_cons_of_mem _ mem)⟩
  · exact ⟨symbol, [], rfl, by simp⟩

/-- A control sequence is read into a brace group as a whole. -/
theorem closeBracesFrom_sequence (depth : Nat) (rest : Text) (valid : IsName name) :
    closeBracesFrom depth ('\\' :: (name ++ rest)) =
      push ('\\' :: name) (closeBracesFrom depth rest) := by
  obtain ⟨first, letters, rfl, plain⟩ := exists_letters_of_isName valid
  exact (BraceInside.escaped first (Delimiters.braces.inside_of_letters plain)).passes depth rest

/-- A control sequence is read into a bracket group as a whole. -/
theorem closeBracketsFrom_sequence (brackets braces : Nat) (rest : Text) (valid : IsName name) :
    closeBracketsFrom brackets braces ('\\' :: (name ++ rest)) =
      push ('\\' :: name) (closeBracketsFrom brackets braces rest) := by
  obtain ⟨first, letters, rfl, plain⟩ := exists_letters_of_isName valid
  cases braces with
  | zero =>
    have inside := Delimiters.brackets.inside_of_letters plain
    exact (BracketInside.escaped first inside).passes brackets rest
  | succ braces =>
    have inside := Delimiters.braces.inside_of_letters plain
    exact (BraceInside.escaped first inside).passes_inBrackets brackets braces rest

/-- A way to read up to the end of a group, by what is open inside it: it passes over control
sequences as a whole, and what it does at another character depends on that character alone. -/
structure Closes {Opened : Type} (close : Opened → Text → Option (Text × Text)) (stop : Char) :
    Prop where
  /-- A group that ends nowhere is not closed. -/
  nil : ∀ opened, close opened [] = none
  /-- A backslash with no character behind it closes nothing. -/
  lone : ∀ opened, close opened ['\\'] = none
  /-- A character closes the group or belongs to it. -/
  character : ∀ opened first, first ≠ '\\' →
    (first = stop ∧ ∀ tail, close opened (first :: tail) = some ([], tail)) ∨
      ∃ next, ∀ tail, close opened (first :: tail) = push [first] (close next tail)
  /-- A control sequence belongs to the group. -/
  sequence : ∀ opened name rest, IsName name →
    close opened ('\\' :: (name ++ rest)) = push ('\\' :: name) (close opened rest)

/-- Brace groups are read so. -/
theorem closes_braces : Closes closeBracesFrom '}' where
  nil _ := rfl
  lone _ := rfl
  character depth first noEscape := by
    by_cases opening : first = '{'
    · rw [opening]
      exact .inr ⟨depth + 1, passes_opening depth⟩
    · by_cases closing : first = '}'
      · rw [closing]
        cases depth with
        | zero => exact .inl ⟨rfl, closeBracesFrom_stop⟩
        | succ depth => exact .inr ⟨depth, passes_closing depth⟩
      · exact .inr ⟨depth, passes_plain depth noEscape opening closing⟩
  sequence depth _ rest valid := closeBracesFrom_sequence depth rest valid

/-- Read up to the end of a bracket group, by the numbers of brackets and braces that are open. -/
def closeBracketsIn (opened : Nat × Nat) : Text → Option (Text × Text) :=
  closeBracketsFrom opened.1 opened.2

/-- Bracket groups are read so. -/
theorem closes_brackets : Closes closeBracketsIn ']' where
  nil _ := rfl
  lone _ := rfl
  character opened first noEscape := by
    obtain ⟨brackets, braces⟩ := opened
    by_cases brace : first = '{'
    · rw [brace]
      exact .inr ⟨(brackets, braces + 1), passes_openingBrace brackets braces⟩
    · cases braces with
      | succ braces =>
        by_cases closing : first = '}'
        · rw [closing]
          exact .inr ⟨(brackets, braces), passes_closingBrace brackets braces⟩
        · exact .inr ⟨(brackets, braces + 1),
            passes_plainInBraces brackets braces noEscape brace closing⟩
      | zero =>
        by_cases opening : first = '['
        · rw [opening]
          exact .inr ⟨(brackets + 1, 0), passes_openingBracket brackets⟩
        · by_cases closing : first = ']'
          · rw [closing]
            cases brackets with
            | zero => exact .inl ⟨rfl, closeBracketsFrom_stop⟩
            | succ brackets => exact .inr ⟨(brackets, 0), passes_closingBracket brackets⟩
          · exact .inr ⟨(brackets, 0),
              passes_plainInBrackets brackets noEscape brace opening closing⟩
  sequence opened _ rest valid := closeBracketsFrom_sequence opened.1 opened.2 rest valid

section Closes

variable {Opened : Type} {close : Opened → Text → Option (Text × Text)} {stop : Char}

/-- A group is its inside and the character that closes it, in front of the rest, and it ends
between two tokens. -/
theorem Closes.ofText_eq (closes : Closes close stop) {opened : Opened}
    (closed : close opened text = some (inner, rest)) :
    text = inner ++ stop :: rest ∧
      Token.ofText text = Token.ofText inner ++ .character stop :: Token.ofText rest := by
  induction text using Text.token_induction generalizing opened inner with
  | nil =>
    rw [closes.nil] at closed
    cases closed
  | character first tail plain ih =>
    by_cases escape : first = '\\'
    · rw [escape, plain escape, closes.lone] at closed
      cases closed
    · have apart (after : Text) : Token.ofText (first :: after) =
          .character first :: Token.ofText after :=
        Token.ofText_character fun same => absurd same escape
      rcases closes.character opened first escape with ⟨rfl, step⟩ | ⟨next, step⟩
      · rw [step] at closed
        cases closed
        exact ⟨rfl, by rw [apart, Token.ofText_nil, List.nil_append]⟩
      · rw [step] at closed
        obtain ⟨inside, read, rfl⟩ := push_eq_some closed
        obtain ⟨whole, row⟩ := ih read
        rw [List.singleton_append, apart, apart, row, whole]
        exact ⟨rfl, rfl⟩
  | sequence name tail valid ends ih =>
    rw [closes.sequence opened name tail valid] at closed
    obtain ⟨inside, read, rfl⟩ := push_eq_some closed
    obtain ⟨whole, row⟩ := ih read
    have endsInside : IsWord name → endsControlWord inside = true := fun word =>
      endsControlWord_of_append (whole ▸ ends word)
    rw [Token.ofText_sequence valid ends, row, List.cons_append,
      Token.ofText_sequence valid endsInside, whole]
    exact ⟨by simp, rfl⟩

/-- Read a group behind blanks, given the character that opens it and how it is closed. -/
def opened? (opening : Char) (close : Text → Option (Text × Text)) (text : Text) :
    Option (Text × Text) :=
  match text.trimStart with
  | [] => none
  | first :: tail => if first = opening then close tail else none

/-- A group behind blanks holds the first control sequences of the text and is shorter than it. -/
theorem Closes.group (closes : Closes close stop) {opened : Opened} {opening : Char}
    (noEscape : opening ≠ '\\')
    (read : opened? opening (close opened) text = some (inner, rest)) :
    names text = names inner ++ names rest ∧ inner.length < text.length := by
  rw [opened?] at read
  split at read
  · cases read
  · rename_i first tail start
    by_cases opens : first = opening
    · rw [if_pos opens] at read
      rw [opens] at start
      obtain ⟨whole, row⟩ := closes.ofText_eq read
      constructor
      · calc
          names text = Token.names (Token.ofText (opening :: tail)) := by
            rw [← names_trimStart, start, Token.names_ofText]
          _ = Token.names (Token.ofText tail) := by
            rw [Token.ofText_character fun same => absurd same noEscape, Token.names_character]
          _ = names inner ++ names rest := by
            rw [row, Token.names_append, Token.names_character, Token.names_ofText,
              Token.names_ofText]
      · have shorter := (Text.trimStart_suffix text).length_le
        rw [start, whole] at shorter
        simp only [List.length_cons, List.length_append] at shorter
        omega
    · rw [if_neg opens] at read
      cases read

end Closes

/-- A group is opened by its delimiter and closed as its kind is. -/
theorem group?_eq (delimiters : Delimiters) (text : Text) :
    group? delimiters text = opened? delimiters.opening delimiters.close? text := by
  rw [group?, readGroup, opened?]
  cases text.trimStart with
  | nil => rfl
  | cons first tail =>
    by_cases opens : first = delimiters.opening
    · simp only [if_pos opens, Reading.toOption_ofClosed]
    · simp only [if_neg opens]
      rfl

end Group

namespace MacroTable

variable {text rest : Text}

/-- An argument is a group, with the first control sequences of the text, or it is a default. -/
theorem argument?_cases {parameter : Parameter} {argument : Text}
    (read : argument? parameter text = some (argument, rest)) :
    (names text = names argument ++ names rest ∧ argument.length < text.length) ∨
      (parameter = .optional argument ∧ rest = text) := by
  cases parameter with
  | required =>
    rw [argument?, Group.braced?, Group.group?_eq] at read
    exact .inl (Group.closes_braces.group (by decide) read)
  | optional default =>
    rw [argument?, Option.some.injEq] at read
    cases group : Group.bracketed? text with
    | none =>
      rw [group] at read
      cases read
      exact .inr ⟨rfl, rfl⟩
    | some found =>
      rw [group] at read
      cases read
      rw [Group.bracketed?, Group.group?_eq] at group
      change Group.opened? '[' (Group.closeBracketsIn (0, 0)) text = _ at group
      exact .inl (Group.closes_brackets.group (by decide) group)

/-- The arguments of a call contain no control sequences but those of the text that they are read
from and of defaults, and the text behind them contains none but those of that text. -/
theorem names_of_arguments? {parameters : List Parameter} {arguments : List Text}
    (read : arguments? parameters text = some (arguments, rest)) :
    (∀ argument ∈ arguments, (names argument ⊆ names text ∧ argument.length < text.length) ∨
      .optional argument ∈ parameters) ∧ names rest ⊆ names text := by
  induction parameters generalizing text arguments with
  | nil =>
    cases read
    exact ⟨fun _ mem => absurd mem List.not_mem_nil, List.Subset.refl _⟩
  | cons parameter parameters ih =>
    simp only [arguments?, Option.bind_eq_bind, Option.bind_eq_some_iff, Option.some.injEq,
      Prod.mk.injEq] at read
    obtain ⟨⟨first, middle⟩, readFirst, ⟨more, tail⟩, readMore, rfl, rfl⟩ := read
    obtain ⟨later, after⟩ := ih readMore
    have suffix : middle.length ≤ text.length := (argument?_suffix readFirst).length_le
    rcases argument?_cases readFirst with ⟨parts, shorter⟩ | ⟨rfl, rfl⟩
    · have inside : names middle ⊆ names text := parts ▸ List.subset_append_right _ _
      refine ⟨fun argument mem => ?_, fun _ mem => inside (after mem)⟩
      rcases List.mem_cons.1 mem with rfl | mem
      · exact .inl ⟨parts ▸ List.subset_append_left _ _, shorter⟩
      · rcases later argument mem with ⟨known, short⟩ | default
        · exact .inl ⟨fun _ mem => inside (known mem), Nat.lt_of_lt_of_le short suffix⟩
        · exact .inr (List.mem_cons_of_mem _ default)
    · refine ⟨fun argument mem => ?_, after⟩
      rcases List.mem_cons.1 mem with rfl | mem
      · exact .inr (List.mem_cons_self ..)
      · exact (later argument mem).imp_right (List.mem_cons_of_mem _)

end MacroTable
end TexStatements
