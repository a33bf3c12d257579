import TexStatements.Proofs.Text.Trim
import TexStatements.Statement.Body

/-!
# Bodies on one line

Whatever stands between the tags of a statement, its body and its label are on one line with no
blank at either end, and a label is not empty. Lines are joined before labels are read, so that no
line feed is left to either of them.
-/
namespace TexStatements

namespace Text

/-- A text on one line with no blank at either end. -/
structure Line (text : Text) : Prop where
  /-- It is on one line. -/
  single : '\n' ∉ text
  /-- It starts with no blank. -/
  first : ∀ c ∈ text.head?, isBlank c = false
  /-- It ends with no blank. -/
  last : ∀ c ∈ text.getLast?, isBlank c = false

/-- A trimmed text on one line has no blank at either end. -/
theorem line_trim {text : Text} (single : '\n' ∉ text) : Line text.trim where
  single mem := single ((infix_trim text).subset mem)
  first _ := isBlank_head?_trim
  last _ := isBlank_getLast?_trim

/-- What is left of a text on one line is on one line, and something is left. -/
theorem line_of_nonBlank? {text trimmed : Text} (single : '\n' ∉ text)
    (left : text.nonBlank? = some trimmed) : trimmed ≠ [] ∧ Line trimmed := by
  unfold nonBlank? at left
  dsimp only at left
  split at left
  · cases left
  · rename_i nonempty
    cases left
    exact ⟨by simpa using nonempty, line_trim single⟩

end Text

/-- Every character of joined lines is one of the text, but no line feed, or the space between two
lines. -/
theorem mem_joinLines {text : Text} {c : Char} (mem : c ∈ joinLines text) :
    c = ' ' ∨ c ∈ text ∧ c ≠ '\n' := by
  unfold joinLines at mem
  fun_induction lineBreak.replaceAll (fun _ => [' ']) text with
  | case1 => cases mem
  | case2 first tail value rest read ih =>
    rw [List.singleton_append, List.mem_cons] at mem
    rcases mem with space | later
    · exact .inl space
    · exact (ih later).imp_right fun inRest =>
        ⟨(lineBreak.advances read).suffix.subset inRest.1, inRest.2⟩
  | case3 first tail unread ih =>
    rcases List.mem_cons.1 mem with rfl | later
    · refine .inr ⟨List.mem_cons_self .., ?_⟩
      -- A line feed is a blank, so a line break would have been read.
      rintro rfl
      have blank : isBlank '\n' = true := by decide
      simp [lineBreak, blank] at unread
    · exact (ih later).imp_right fun inTail =>
        ⟨List.mem_cons_of_mem first inTail.1, inTail.2⟩

/-- Joined lines are one line. -/
theorem lineFeed_not_mem_joinLines (text : Text) : '\n' ∉ joinLines text := by
  intro mem
  rcases mem_joinLines mem with space | ⟨-, other⟩
  · cases space
  · exact other rfl

/-- A label is a part of the text that it is read from. -/
theorem infix_of_read_label {text value rest : Text}
    (read : label.read text = some (value, rest)) : value <:+: text := by
  simp only [label, Reader.andThen, Option.bind_eq_bind, Option.bind_eq_some_iff] at read
  obtain ⟨⟨word, tail⟩, named, grouped⟩ := read
  have group : value <:+: tail.trimStart := by
    rw [Group.group?_eq_append grouped]
    exact ⟨['{'], '}' :: rest, by simp⟩
  exact (group.trans (Text.trimStart_suffix tail).isInfix).trans
    ((controlWord _).advances named).suffix.isInfix

namespace StatementBody

/-- A body in the form in which it is returned: on one line and trimmed, and so is its label, which
is not empty. -/
structure Clean (body : StatementBody) : Prop where
  /-- The text is a trimmed line. -/
  text : body.text.Line
  /-- So is the label. -/
  label : ∀ label ∈ body.label?, label ≠ [] ∧ label.Line

/-- Every body is in this form, whatever it is made from. -/
theorem clean_ofRaw (raw : Text) : (ofRaw raw).Clean where
  text := by
    refine Text.line_trim fun mem => ?_
    rcases Reader.mem_replaceAll mem with inLine | ⟨-, none⟩
    · exact lineFeed_not_mem_joinLines raw inLine
    · cases none
  label named isLabel := by
    obtain ⟨found, mem, left⟩ := List.exists_of_findSome?_eq_some isLabel
    obtain ⟨place, read⟩ := (TexStatements.label.occurrences_ordered (joinLines raw)).1 found mem
    refine Text.line_of_nonBlank? (fun inLabel => ?_) left
    exact lineFeed_not_mem_joinLines raw
      (((infix_of_read_label read).trans place.isInfix).subset inLabel)

/-- A body is kept with its label or without it. -/
theorem mem_keepLastLabels {bodies : List StatementBody} {body : StatementBody}
    (mem : body ∈ keepLastLabels bodies) :
    ∃ original ∈ bodies, body.text = original.text ∧
      ∀ label ∈ body.label?, original.label? = some label := by
  induction bodies with
  | nil => cases mem
  | cons first more ih =>
    rw [keepLastLabels, List.mem_cons] at mem
    rcases mem with rfl | later
    · refine ⟨first, List.mem_cons_self .., rfl, fun label kept => ?_⟩
      exact (Option.filter_eq_some_iff.1 kept).1
    · obtain ⟨original, isOriginal, same⟩ := ih later
      exact ⟨original, List.mem_cons_of_mem first isOriginal, same⟩

/-- Keeping the last labels leaves bodies in their form. -/
theorem Clean.keepLastLabels {bodies : List StatementBody} (clean : ∀ body ∈ bodies, body.Clean) :
    ∀ body ∈ StatementBody.keepLastLabels bodies, body.Clean := by
  intro body mem
  obtain ⟨original, isOriginal, sameText, sameLabel⟩ := mem_keepLastLabels mem
  refine ⟨?_, fun label kept => ?_⟩
  · rw [sameText]
    exact (clean original isOriginal).text
  · exact (clean original isOriginal).label label (sameLabel label kept)

end StatementBody
end TexStatements
