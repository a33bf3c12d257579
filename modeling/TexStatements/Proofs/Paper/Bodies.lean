import TexStatements.Extraction
import TexStatements.Proofs.Paper.Normalization
import TexStatements.Proofs.Statement.Label

/-!
# Bodies and labels of a paper

The text between the tags of a statement is a label, if it has one, and its body. The label is
taken out, and a statement keeps it unless a later statement of the paper has it too.
-/
namespace TexStatements

/-- A text on one line has no line breaks. -/
theorem lineBreak_silentOver {text : Text} (single : '\n' ∉ text) :
    lineBreak.SilentOver text [] := by
  intro place suffix nonempty
  have absent : '\n' ∉ (place ++ []).takeWhile isBlank := by
    intro mem
    rw [List.append_nil] at mem
    exact single (suffix.subset (List.takeWhile_subset _ mem))
  have unbroken : ((place ++ []).takeWhile isBlank).contains '\n' = false := by
    simpa using absent
  rw [lineBreak]
  simp only [unbroken, Bool.false_eq_true, if_false]

/-- A text on one line is kept when lines are joined. -/
theorem joinLines_eq_self {text : Text} (single : '\n' ∉ text) : joinLines text = text :=
  Reader.replaceAll_of_silent _ (lineBreak_silentOver single)

namespace Paper

section Statement

variable {names : List Text} {kind : Text} {label? : Option Text} {body : Text}

/-- The body of an admitted statement is trimmed and has neither a backslash nor a line feed. -/
theorem body_of_wellFormed (admitted : (Item.statement kind label? body).WellFormed names) :
    '\\' ∉ body ∧ '\n' ∉ body ∧ body.trim = body := by
  obtain ⟨-, -, -, plain, first, last⟩ := admitted
  have absent : ∀ c, c.isAlphanum = false → c ≠ ' ' → c ∉ body := by
    intro c special other mem
    rcases plain c mem with isPlain | isSpace
    · rw [special] at isPlain
      cases isPlain
    · exact other isSpace
  have sharp : ∀ c ∈ body, c ≠ ' ' → isBlank c = false := by
    intro c mem other
    exact isBlank_of_isAlphanum ((plain c mem).resolve_right other)
  refine ⟨absent _ (by decide) (by decide), absent _ (by decide) (by decide), ?_⟩
  apply Text.trim_eq_self
  · intro c isFirst
    refine sharp c (List.mem_of_mem_head? isFirst) ?_
    rintro rfl
    exact first isFirst
  · intro c isLast
    refine sharp c (List.mem_of_getLast? isLast) ?_
    rintro rfl
    exact last isLast

/-- The text between the tags of an admitted statement is on one line. -/
theorem lineFeed_not_mem_inside (admitted : (Item.statement kind label? body).WellFormed names) :
    '\n' ∉ inside label? body := by
  have bodyLine := (body_of_wellFormed admitted).2.1
  cases label? with
  | none => exact bodyLine
  | some label =>
    have labelLine : '\n' ∉ label :=
      fun mem => absurd (admitted.2.1 label rfl _ mem) (by decide)
    simp [group, bodyLine, labelLine]

/-- The label of a statement is read with its group. -/
theorem read_label {label : Text} (plain : ∀ c ∈ label, c.isAlphanum = true) (rest : Text) :
    TexStatements.label.read ('\\' :: ("label".toList ++ (group label ++ rest))) =
      some (label, rest) := by
  have letters : ∀ letter ∈ "label".toList, isControlLetter letter = true := by decide
  have brace : ∀ first ∈ (group label ++ rest).head?, isControlLetter first = false := by
    simp [group, isControlLetter]
  have word := Reader.controlWord_read (· == "label".toList) letters brace
  have grouped : Group.braced? (group label ++ rest) = some (label, rest) := by
    have read := Group.group?_plain .braces rest plain
    rw [group]
    simpa using read
  rw [TexStatements.label]
  simp only [Reader.andThen, word, beq_self_eq_true, if_true, Option.bind_eq_bind,
    Option.bind_some, grouped]

/-- The body and the label of an admitted statement are read from the text between its tags. A
label without a character is none. -/
theorem ofRaw_inside (admitted : (Item.statement kind label? body).WellFormed names) :
    StatementBody.ofRaw (inside label? body) =
      ⟨body, label?.filter fun label => !label.isEmpty⟩ := by
  obtain ⟨single, -, trimmed⟩ := body_of_wellFormed admitted
  have silent : TexStatements.label.SilentOver body [] :=
    guarded_label.readsCommands.silentOver [] single
  rw [StatementBody.ofRaw, joinLines_eq_self (lineFeed_not_mem_inside admitted)]
  cases label? with
  | none =>
    simp only [inside_none, Reader.replaceAll_of_silent _ silent,
      Reader.occurrences_of_silent silent, trimmed, List.findSome?_nil, Option.filter_none]
  | some label =>
    have plain : ∀ c ∈ label, c.isAlphanum = true := admitted.2.1 label rfl
    have read := read_label plain body
    rw [inside_some]
    have named : label.nonBlank? = (some label).filter fun label => !label.isEmpty := by
      cases label with
      | nil => rfl
      | cons first more =>
        exact Text.nonBlank?_eq_some (Text.trim_of_isAlphanum plain) (List.cons_ne_nil _ _)
    simp only [Reader.replaceAll_of_read _ read, Reader.occurrences_of_read read,
      Reader.replaceAll_of_silent _ silent, Reader.occurrences_of_silent silent,
      List.nil_append, trimmed, List.findSome?_cons, List.findSome?_nil, named]
    cases (some label).filter fun label => !label.isEmpty <;> rfl

end Statement

section Labels

/-- The texts between the tags of the statements among items. -/
def raws (items : List Item) : List Text :=
  items.filterMap fun
    | .statement _ label? body => some (inside label? body)
    | .heading _ _ _ => none

/-- The bodies of the statements among items, each with its own label. -/
def bodies (items : List Item) : List StatementBody :=
  items.filterMap fun
    | .statement _ label? body => some ⟨body, label?.filter fun label => !label.isEmpty⟩
    | .heading _ _ _ => none

/-- The bodies of the statements among items, each with the label that it keeps, given the items
of the next part. -/
def keptBodies (behind : List Item) : List Item → List StatementBody
  | [] => []
  | .heading _ _ _ :: more => keptBodies behind more
  | .statement _ label? body :: more =>
    ⟨body, keptLabel? (more ++ behind) label?⟩ :: keptBodies behind more

/-- The bodies of admitted statements are read from the texts between their tags. -/
theorem map_ofRaw_raws {names : List Text} {items : List Item}
    (admitted : ∀ item ∈ items, item.WellFormed names) :
    (raws items).map StatementBody.ofRaw = bodies items := by
  induction items with
  | nil => rfl
  | cons item more ih =>
    rw [List.forall_mem_cons] at admitted
    cases item with
    | heading level starred title => exact ih admitted.2
    | statement kind label? body =>
      exact congr (congrArg List.cons (ofRaw_inside admitted.1)) (ih admitted.2)

/-- The body of one more statement. -/
theorem bodies_statement (kind : Text) (label? : Option Text) (body : Text) (more : List Item) :
    bodies (.statement kind label? body :: more) =
      ⟨body, label?.filter fun label => !label.isEmpty⟩ :: bodies more := rfl

/-- The bodies of items in a row. -/
theorem bodies_append (items behind : List Item) :
    bodies (items ++ behind) = bodies items ++ bodies behind := List.filterMap_append

/-- A label that is not empty is had by a body exactly if it is that of a statement. -/
theorem any_label_bodies (items : List Item) {label : Text} (nonempty : label.isEmpty = false) :
    ((bodies items).any fun body => body.label? == some label) = (labels items).contains label := by
  induction items with
  | nil => rfl
  | cons item more ih =>
    cases item with
    | heading level starred title => exact ih
    | statement kind label? body =>
      rw [bodies_statement, List.any_cons, ih]
      cases label? with
      | none => rfl
      | some own =>
        have listed : labels (.statement kind (some own) body :: more) = own :: labels more := rfl
        rw [listed, List.contains_cons]
        congr 1
        by_cases same : own = label
        · subst same
          simp [nonempty]
        · have different : label ≠ own := fun equal => same equal.symm
          cases own.isEmpty <;> simp [same, different]

/-- Of statements with one label only the last keeps it. -/
theorem keepLastLabels_bodies (items behind : List Item) :
    StatementBody.keepLastLabels (bodies items ++ bodies behind) =
      keptBodies behind items ++ StatementBody.keepLastLabels (bodies behind) := by
  induction items with
  | nil => rfl
  | cons item more ih =>
    cases item with
    | heading level starred title => exact ih
    | statement kind label? body =>
      have kept : (label?.filter fun label => !label.isEmpty).filter (fun label =>
          !(bodies more ++ bodies behind).any fun later => later.label? == some label) =
            keptLabel? (more ++ behind) label? := by
        rw [← bodies_append, keptLabel?]
        cases label? with
        | none => rfl
        | some label =>
          cases empty : label.isEmpty with
          | true => simp [Option.filter, empty]
          | false =>
            have later := any_label_bodies (more ++ behind) empty
            simp [Option.filter, empty, later]
      rw [bodies_statement, List.cons_append, StatementBody.keepLastLabels, kept, ih, keptBodies,
        List.cons_append]

/-- The statements keep the labels that the paper says. -/
theorem keepLastLabels_parts (main appendix : List Item) :
    StatementBody.keepLastLabels (bodies main ++ bodies appendix) =
      keptBodies appendix main ++ keptBodies [] appendix := by
  have last := keepLastLabels_bodies appendix []
  have none : bodies [] = [] := rfl
  rw [none, List.append_nil, StatementBody.keepLastLabels, List.append_nil] at last
  rw [keepLastLabels_bodies, last]

end Labels

end Paper
end TexStatements
