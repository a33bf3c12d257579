import Mathlib.Data.List.Basic
import TexStatements.Comment
import TexStatements.Proofs.Text.Lines
import TexStatements.Proofs.Text.Search

/-!
# The scan for comments

A percent sign is escaped if an odd number of backslashes stands before it. The scan of a line keeps
only whether the next character is escaped, and that is whether the characters it has come past end
in an odd number of backslashes. So it divides the line before the first percent sign that is not
escaped, and this is the only division of that kind (`divide_eq_iff`). For a whole text it keeps the
code of each line and every line feed (`stripLines_eq_join`).
-/
namespace TexStatements

/-- The number of backslashes that end a text is odd, so that the last of them escapes nothing
and is not escaped. -/
def Text.EndsUnpaired (text : Text) : Prop :=
  (text.reverse.takeWhile (· == '\\')).length % 2 = 1

instance (text : Text) : Decidable text.EndsUnpaired :=
  inferInstanceAs (Decidable ((text.reverse.takeWhile (· == '\\')).length % 2 = 1))

namespace Text

/-- What stands in front of another character than a backslash does not count. -/
theorem endsUnpaired_append_cons {c : Char} (other : c ≠ '\\') (front rest : Text) :
    EndsUnpaired (front ++ c :: rest) ↔ EndsUnpaired rest := by
  have stops : ∀ first ∈ (c :: front.reverse).head?, (first == '\\') = false := by
    rintro first ⟨⟩
    exact beq_eq_false_iff_ne.2 other
  rw [EndsUnpaired, EndsUnpaired, List.reverse_append, List.reverse_cons, List.append_assoc,
    List.singleton_append, takeWhile_append_of_stop rest.reverse stops]

/-- Two backslashes are a pair. -/
theorem endsUnpaired_pair (rest : Text) :
    EndsUnpaired ('\\' :: '\\' :: rest) ↔ EndsUnpaired rest := by
  have turned : ('\\' :: '\\' :: rest).reverse = rest.reverse ++ ['\\', '\\'] := by simp
  rw [EndsUnpaired, EndsUnpaired, turned, List.takeWhile_append]
  split
  · rename_i whole
    rw [List.length_append, whole]
    simp
  · rfl

/-- Behind another character no backslash is unpaired. -/
theorem not_endsUnpaired_concat {c : Char} (other : c ≠ '\\') (front : Text) :
    ¬EndsUnpaired (front ++ [c]) := by
  rw [endsUnpaired_append_cons other]
  decide

/-- One more backslash is unpaired exactly if the one before it is not. -/
theorem endsUnpaired_concat_backslash (front : Text) :
    EndsUnpaired (front ++ ['\\']) ↔ ¬EndsUnpaired front := by
  have longer : ((front ++ ['\\']).reverse.takeWhile (· == '\\')).length =
      (front.reverse.takeWhile (· == '\\')).length + 1 := by simp
  rw [EndsUnpaired, EndsUnpaired, longer]
  omega

/-- Every percent sign of a text is escaped. -/
def EscapesPercents (text : Text) : Prop :=
  ∀ front behind, text = front ++ '%' :: behind → front.EndsUnpaired

/-- The last character of a text is escaped like all others. -/
theorem escapesPercents_concat {text : Text} {last : Char} :
    EscapesPercents (text ++ [last]) ↔
      EscapesPercents text ∧ (last = '%' → text.EndsUnpaired) := by
  constructor
  · intro escapes
    refine ⟨?_, ?_⟩
    · rintro front behind rfl
      apply escapes front (behind ++ [last])
      rw [List.append_assoc, List.cons_append]
    · rintro rfl
      exact escapes text [] rfl
  · rintro ⟨escapes, atEnd⟩ front behind same
    obtain rfl | ⟨behind, final, rfl⟩ := List.eq_nil_or_concat' behind
    · obtain ⟨rfl, isLast⟩ := List.append_inj' same rfl
      exact atEnd (List.head_eq_of_cons_eq isLast)
    · rw [← List.cons_append, ← List.append_assoc] at same
      exact escapes front behind (List.append_inj_left' same rfl)

end Text

namespace Comment

open Text

/-- A line is divided where its comment starts: the percent signs of the code are escaped, and a
comment that is not empty starts with one that is not. -/
structure Divides (code comment : Text) : Prop where
  /-- Every percent sign of the code is escaped. -/
  escaped : code.EscapesPercents
  /-- The comment starts with a percent sign. -/
  percent : ∀ first ∈ comment.head?, first = '%'
  /-- The percent sign that starts the comment is not escaped. -/
  opens : comment ≠ [] → ¬code.EndsUnpaired

/-- Code that escapes all its percent signs may stand alone. -/
theorem divides_nil {code : Text} (escaped : code.EscapesPercents) : Divides code [] :=
  ⟨escaped, nofun, fun nonempty => absurd rfl nonempty⟩

/-- Behind code that leaves it alone any percent sign starts a comment. -/
theorem divides_percent {code : Text} (escaped : code.EscapesPercents)
    (opens : ¬code.EndsUnpaired) (behind : Text) : Divides code ('%' :: behind) := by
  refine ⟨escaped, ?_, fun _ => opens⟩
  rintro first ⟨⟩
  rfl

/-- The flag of the scan, one character further. -/
theorem escaped_concat (front : Text) (first : Char) :
    (first == '\\' && !decide front.EndsUnpaired) = decide (front ++ [first]).EndsUnpaired := by
  by_cases same : first = '\\'
  · subst same
    simp [endsUnpaired_concat_backslash front]
  · simp [same, not_endsUnpaired_concat same front]

/-- The scan goes on to divide what it has come past together with what follows. -/
theorem divides_divideFrom {front : Text} (escaped : front.EscapesPercents) (line : Text) :
    Divides (front ++ (divideFrom (decide front.EndsUnpaired) line).1)
      (divideFrom (decide front.EndsUnpaired) line).2 := by
  -- The front is what the scan has come past, and the flag is its parity.
  induction line generalizing front with
  | nil =>
    rw [divideFrom, List.append_nil]
    exact divides_nil escaped
  | cons first rest ih =>
    by_cases stops : first = '%' ∧ decide front.EndsUnpaired = false
    · obtain ⟨rfl, even⟩ := stops
      rw [divideFrom, if_pos ⟨rfl, even⟩, List.append_nil]
      exact divides_percent escaped (of_decide_eq_false even) rest
    · have further : (front ++ [first]).EscapesPercents := by
        refine escapesPercents_concat.2 ⟨escaped, fun percent => ?_⟩
        by_contra even
        exact stops ⟨percent, decide_eq_false even⟩
      have divided := ih further
      rw [divideFrom, if_neg stops, escaped_concat]
      rw [List.append_assoc] at divided
      exact divided

/-- The scan finds a division that there is. -/
theorem divideFrom_of_divides {front code comment : Text}
    (divides : Divides (front ++ code) comment) :
    divideFrom (decide front.EndsUnpaired) (code ++ comment) = (code, comment) := by
  induction code generalizing front with
  | nil =>
    cases comment with
    | nil => rfl
    | cons first rest =>
      have percent : first = '%' := divides.percent first rfl
      have even : ¬front.EndsUnpaired := by
        rw [← List.append_nil front]
        exact divides.opens (List.cons_ne_nil first rest)
      rw [List.nil_append, divideFrom, if_pos ⟨percent, decide_eq_false even⟩]
  | cons first code ih =>
    have goesOn : ¬(first = '%' ∧ decide front.EndsUnpaired = false) := by
      rintro ⟨rfl, even⟩
      exact of_decide_eq_false even (divides.escaped front code rfl)
    have later : divideFrom (decide (front ++ [first]).EndsUnpaired) (code ++ comment) =
        (code, comment) := by
      apply ih
      rw [List.append_assoc]
      exact divides
    rw [List.cons_append, divideFrom, if_neg goesOn, escaped_concat, later]

/-- A line is divided before its first percent sign that is not escaped, and at its end if there is
none. -/
theorem divide_eq_iff {line code comment : Text} :
    divide line = (code, comment) ↔ line = code ++ comment ∧ Divides code comment := by
  have start : decide (EndsUnpaired []) = false := rfl
  constructor
  · intro divided
    have whole := divideFrom_append false line
    have none : EscapesPercents [] := by simp [EscapesPercents]
    have divides := divides_divideFrom none line
    rw [divide] at divided
    rw [divided] at whole
    rw [start, divided] at divides
    exact ⟨whole.symm, divides⟩
  · rintro ⟨rfl, divides⟩
    exact @divideFrom_of_divides [] code comment divides

/-- Code and comment divide their line. -/
theorem divides_line (line : Text) : Divides (codeOf line) (commentOf line) :=
  (divide_eq_iff.1 rfl).2

/-- Code and comment are the line. -/
theorem codeOf_append_commentOf (line : Text) : codeOf line ++ commentOf line = line :=
  (divide_eq_iff.1 rfl).1.symm

section Divided

variable {code comment : Text}

/-- A comment that is not empty is a percent sign and what stands behind it. -/
theorem Divides.exists_percent (divides : Divides code comment) (nonempty : comment ≠ []) :
    ∃ behind, comment = '%' :: behind := by
  obtain ⟨first, behind, rfl⟩ := List.exists_cons_of_ne_nil nonempty
  have percent : first = '%' := divides.percent first rfl
  exact ⟨behind, by rw [percent]⟩

/-- The code of a divided line. -/
theorem Divides.codeOf_eq (divides : Divides code comment) : codeOf (code ++ comment) = code := by
  rw [codeOf, divide_eq_iff.2 ⟨rfl, divides⟩]

/-- The comment of a divided line. -/
theorem Divides.commentOf_eq (divides : Divides code comment) :
    commentOf (code ++ comment) = comment := by
  rw [commentOf, divide_eq_iff.2 ⟨rfl, divides⟩]

/-- The line feed that ends a line without a comment belongs to the code. -/
theorem Divides.code_feed (divides : Divides code []) : Divides (code ++ ['\n']) [] := by
  have escaped : EscapesPercents (code ++ ['\n']) :=
    escapesPercents_concat.2 ⟨divides.escaped, fun percent => absurd percent (by decide)⟩
  exact divides_nil escaped

/-- The line feed that ends a line with a comment belongs to the comment. -/
theorem Divides.comment_feed (divides : Divides code comment) (nonempty : comment ≠ []) :
    Divides code (comment ++ ['\n']) := by
  refine ⟨divides.escaped, ?_, fun _ => divides.opens nonempty⟩
  rw [List.head?_append_of_ne_nil _ nonempty]
  exact divides.percent

end Divided

section Lines

variable {line : Text}

/-- A line without a percent sign has no comment. -/
theorem divides_of_not_mem (free : '%' ∉ line) : Divides line [] := by
  apply divides_nil
  rintro front behind rfl
  exact absurd (List.mem_append_right front List.mem_cons_self) free

/-- A line without a percent sign is left as it is. -/
theorem stripLine_of_no_percent (free : '%' ∉ line) : stripLine line = line := by
  have divided : divide line = (line, []) :=
    divide_eq_iff.2 ⟨(List.append_nil line).symm, divides_of_not_mem free⟩
  rw [stripLine, codeOf, commentOf, divided]
  exact List.append_nil line

/-- Of a line without a line feed the code is left. -/
theorem stripLine_of_not_mem (free : '\n' ∉ line) : stripLine line = codeOf line := by
  have absent : (commentOf line).getLast? ≠ some '\n' := by
    intro last
    apply free
    rw [← codeOf_append_commentOf line]
    exact List.mem_append_right _ (List.mem_of_getLast? last)
  rw [stripLine, if_neg absent, List.append_nil]

/-- Of a line that a line feed ends the code and the line feed are left. -/
theorem stripLine_feed (line : Text) : stripLine (line ++ ['\n']) = codeOf line ++ ['\n'] := by
  have whole := codeOf_append_commentOf line
  have divides := divides_line line
  by_cases empty : commentOf line = []
  · rw [empty, List.append_nil] at whole
    rw [whole, empty] at divides
    rw [whole, stripLine, ← List.append_nil (line ++ ['\n']), divides.code_feed.codeOf_eq,
      divides.code_feed.commentOf_eq]
    rfl
  · have longer := divides.comment_feed empty
    have regrouped : line ++ ['\n'] = codeOf line ++ (commentOf line ++ ['\n']) := by
      rw [← List.append_assoc, whole]
    rw [stripLine, regrouped, longer.codeOf_eq, longer.commentOf_eq, List.getLast?_concat,
      if_pos rfl]

end Lines

/-- Comments are removed by keeping the code of each line, and the line feeds between them. -/
theorem stripLines_eq_join (text : Text) :
    stripLines text = Text.join ['\n'] ((text.fields (· == '\n')).map codeOf) := by
  induction text using line_induction with
  | last line free =>
    rw [fields_of_not_mem free, List.map_singleton, join]
    by_cases empty : line = []
    · subst empty
      rfl
    · rw [stripLines, lines_of_not_mem free empty, List.flatMap_singleton,
        stripLine_of_not_mem free]
  | feed line rest free ih =>
    have more : (rest.fields (· == '\n')).map codeOf ≠ [] :=
      List.map_eq_nil_iff.not.2 (fields_ne_nil _ rest)
    rw [fields_feed free, List.map_cons, join_cons more, ← ih, stripLines, lines_feed free,
      List.flatMap_cons, stripLine_feed, stripLines]

/-- A text without a percent sign has no comments of that kind. -/
theorem stripLines_of_not_mem {text : Text} (free : '%' ∉ text) : stripLines text = text := by
  have lines : ∀ line ∈ text.lines, stripLine line = line := by
    intro line mem
    apply stripLine_of_no_percent
    intro inLine
    apply free
    rw [← flatten_lines text]
    exact List.mem_flatten.2 ⟨line, mem, inLine⟩
  calc
    stripLines text = text.lines.flatMap id := List.flatMap_congr lines
    _ = text := by rw [List.flatMap_id, flatten_lines]

end Comment
end TexStatements
