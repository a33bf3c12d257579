import TexStatements.ControlSequence
import TexStatements.Group.Basic

/-!
# Statement bodies

The body of a statement is written on one line: a run of blanks with a line feed in it becomes one
space. Complete labels are taken out, and the first that is not blank is the label of the
statement. Of several statements with one label only the last keeps it.
-/
namespace TexStatements

/-- The text of a statement and its label. -/
structure StatementBody where
  /-- The text on one line, without labels. -/
  text : Text
  /-- The label for references to the statement. -/
  label? : Option Text
deriving DecidableEq

/-- The reader of runs of blanks with a line feed in them. -/
def lineBreak : Reader Unit where
  read text :=
    if (text.takeWhile isBlank).contains '\n' then some ((), text.dropWhile isBlank) else none
  advances := by
    intro text value rest read
    split at read
    · rename_i broken
      cases read
      cases text with
      | nil => simp at broken
      | cons first tail =>
        by_cases blank : isBlank first = true
        · exact ⟨first, tail, rfl, by
            rw [List.dropWhile_cons_of_pos blank]
            exact List.dropWhile_suffix isBlank⟩
        · rw [List.takeWhile_cons_of_neg blank] at broken
          simp at broken
    · simp at read

/-- A text with its lines joined. -/
def joinLines (text : Text) : Text := lineBreak.replaceAll (fun _ => [' ']) text

/-- The reader of complete labels: what stands in their braces. -/
def label : Reader Text :=
  (controlWord (· == "label".toList)).andThen (fun _ text => Group.braced? text)
    (fun read => (Group.group?_advances read).suffix)

namespace StatementBody

/-- The body and label of a statement, from the text between its tags. -/
def ofRaw (raw : Text) : StatementBody :=
  let joined := joinLines raw
  { text := (label.replaceAll (fun _ => []) joined).trim
    label? := (label.occurrences joined).findSome? fun found => found.value.nonBlank? }

/-- Take a label from every body that is followed by another one with the same label. -/
def keepLastLabels : List StatementBody → List StatementBody
  | [] => []
  | body :: more =>
    { body with
      label? := body.label?.filter fun label =>
        !more.any fun later => later.label? == some label } :: keepLastLabels more

/-- Taking labels leaves one body for each. -/
@[simp] theorem length_keepLastLabels (bodies : List StatementBody) :
    (keepLastLabels bodies).length = bodies.length := by
  induction bodies with
  | nil => rfl
  | cons body more ih => simp [keepLastLabels, ih]

end StatementBody
end TexStatements
