import Mathlib.Data.List.Forall2
import TexStatements.Extraction
import TexStatements.Proofs.Comment.Scan

/-!
# Comments and extraction

Two texts with the same lines, but for what stands behind the percent signs that start comments,
are the same text once comments are removed. No later pass reads the raw text, so the two have the
same normalized document and the same extraction.
-/
namespace TexStatements
namespace Comment

/-- Two lines that are the same up to what the comment says, if one starts. -/
inductive SameCode : Text → Text → Prop
  /-- The same line. -/
  | same (line : Text) : SameCode line line
  /-- A comment starts at the same percent sign, the first that is not escaped. -/
  | comment {code : Text} (escaped : code.EscapesPercents) (opens : ¬code.EndsUnpaired)
    (first second : Text) : SameCode (code ++ '%' :: first) (code ++ '%' :: second)

/-- Two texts with the same lines and line feeds up to what the comments say. -/
def SameLines (text other : Text) : Prop :=
  List.Forall₂ SameCode (text.fields (· == '\n')) (other.fields (· == '\n'))

section Code

variable {line other : Text}

/-- Lines that are the same up to the comment have the same code. -/
theorem SameCode.codeOf_eq (same : SameCode line other) : codeOf line = codeOf other := by
  cases same with
  | same => rfl
  | comment escaped opens first second =>
    rw [(divides_percent escaped opens first).codeOf_eq,
      (divides_percent escaped opens second).codeOf_eq]

/-- Lines with the same code, both of which have a comment, are the same up to the comment. -/
theorem sameCode_of_codeOf_eq (code : codeOf line = codeOf other) (first : commentOf line ≠ [])
    (second : commentOf other ≠ []) : SameCode line other := by
  have divides := divides_line line
  obtain ⟨behind, isFirst⟩ := divides.exists_percent first
  obtain ⟨more, isSecond⟩ := (divides_line other).exists_percent second
  rw [← codeOf_append_commentOf line, ← codeOf_append_commentOf other, ← code, isFirst, isSecond]
  exact .comment divides.escaped (divides.opens first) behind more

end Code

variable {text other : Text}

/-- Texts that are the same up to what the comments say are the same without comments. -/
theorem SameLines.strip_eq (same : SameLines text other) : strip text = strip other := by
  have codes : (text.fields (· == '\n')).map codeOf = (other.fields (· == '\n')).map codeOf := by
    have rows := List.Forall₂.imp (fun _ _ line => SameCode.codeOf_eq line) same
    rw [← List.forall₂_eq_eq_eq, List.forall₂_map_left_iff, List.forall₂_map_right_iff]
    exact rows
  rw [strip, strip, stripLines_eq_join, stripLines_eq_join, codes]

end Comment

/-- What comments say has no influence: two texts whose lines are the same up to what stands behind
the percent signs that start comments have the same normalized document, the same records and the
same warnings, whatever the options, and extraction has a result for both or for neither. -/
theorem comments_change_nothing (text other : Text) (same : Comment.SameLines text other)
    (options : Options) :
    Document.ofText text = Document.ofText other ∧
      (extract text options).records = (extract other options).records ∧
      (extract text options).warnings = (extract other options).warnings ∧
      extract? text options = extract? other options := by
  have document : Document.ofText text = Document.ofText other := by
    unfold Document.ofText
    rw [same.strip_eq]
  have extraction : extract text options = extract other options := by
    rw [extract, extract, document]
  have ends : Document.ends text = Document.ends other := by
    rw [Document.ends, Document.ends, Document.expansions, Document.expansions, same.strip_eq]
  rw [extract?, extract?, extraction, ends]
  exact ⟨document, rfl, rfl, rfl⟩

/-- A comment that declares an environment and ends a statement may as well define a macro and open
a comment environment: the statement is the same. -/
theorem comments_change_nothing_hidden_tags :
    let text : Text := ("\\newtheorem\x7ba\x7d\x7bA\x7d%\\newtheorem\x7bb\x7d\x7bB\x7d\r\n" ++
      "\\begin\x7ba\x7d9\\% x\\\\%\\end\x7ba\x7d\\%%\ny\\end\x7ba\x7d%").toList
    let other : Text := ("\\newtheorem\x7ba\x7d\x7bA\x7d%\\def\\x\x7b\x7d\n" ++
      "\\begin\x7ba\x7d9\\% x\\\\%\\begin\x7bcomment\x7d\ny\\end\x7ba\x7d%%").toList
    text ≠ other ∧ Comment.SameLines text other ∧
      Document.ofText text = Document.ofText other ∧
      (extract text .default).records = (extract other .default).records ∧
      (extract text .default).warnings = (extract other .default).warnings ∧
      (extract text .default).records.map Record.body = ["9\\% x\\\\ y".toList] := by
  intro text other
  have same : Comment.SameLines text other := by
    have lines : text.fields (· == '\n') = [
        "\\newtheorem\x7ba\x7d\x7bA\x7d%\\newtheorem\x7bb\x7d\x7bB\x7d\r".toList,
        "\\begin\x7ba\x7d9\\% x\\\\%\\end\x7ba\x7d\\%%".toList,
        "y\\end\x7ba\x7d%".toList] := by decide +kernel
    have others : other.fields (· == '\n') = [
        "\\newtheorem\x7ba\x7d\x7bA\x7d%\\def\\x\x7b\x7d".toList,
        "\\begin\x7ba\x7d9\\% x\\\\%\\begin\x7bcomment\x7d".toList,
        "y\\end\x7ba\x7d%%".toList] := by decide +kernel
    rw [Comment.SameLines, lines, others]
    refine .cons ?_ (.cons ?_ (.cons ?_ .nil)) <;>
      exact Comment.sameCode_of_codeOf_eq (by decide +kernel) (by decide +kernel)
        (by decide +kernel)
  have different : text ≠ other := by decide +kernel
  have statement : (extract text .default).records.map Record.body = ["9\\% x\\\\ y".toList] := by
    decide +kernel
  have unchanged := comments_change_nothing text other same .default
  exact ⟨different, same, unchanged.1, unchanged.2.1, unchanged.2.2.1, statement⟩

end TexStatements
