import Mathlib.Data.List.TakeWhile
import TexStatements.Proofs.Text.Search

/-!
# Trimming

A trimmed text is a part of the text with no blank at either end, and what was cut off is blank. A
text with no blank at either end is left as it is, so trimming twice is trimming once.
-/
namespace TexStatements
namespace Text

/-- Among blanks there are only blanks. -/
theorem not_mem_of_blank {blanks : Text} (blank : ∀ c ∈ blanks, isBlank c = true) {c : Char}
    (sharp : isBlank c = false) : c ∉ blanks := by
  intro mem
  rw [blank c mem] at sharp
  cases sharp

/-- What is left without the leading blanks starts with no blank. -/
theorem head?_dropWhile_isBlank {text : Text} {c : Char}
    (first : (text.dropWhile isBlank).head? = some c) : isBlank c = false := by
  have sharp := List.head?_dropWhile_not isBlank text
  rw [first] at sharp
  simpa using sharp

/-- A text is its leading blanks and what is left behind them. -/
theorem exists_trimStart (text : Text) :
    ∃ blanks, (∀ c ∈ blanks, isBlank c = true) ∧ text = blanks ++ text.trimStart :=
  ⟨text.takeWhile isBlank, fun _ => List.mem_takeWhile_imp,
    List.takeWhile_append_dropWhile.symm⟩

/-- Leading blanks are dropped with those behind them. -/
theorem trimStart_append {blanks : Text} (blank : ∀ c ∈ blanks, isBlank c = true) (text : Text) :
    trimStart (blanks ++ text) = text.trimStart := List.dropWhile_append_of_pos blank

/-- The blanks behind another character are the trailing ones. -/
theorem trimEnd_append {c : Char} (sharp : isBlank c = false) {blanks : Text}
    (blank : ∀ c ∈ blanks, isBlank c = true) (front : Text) :
    trimEnd (front ++ c :: blanks) = front ++ [c] := by
  have turned : (front ++ c :: blanks).reverse = blanks.reverse ++ c :: front.reverse := by simp
  rw [trimEnd, turned, dropWhile_run (by simpa using blank) (by simpa using sharp)]
  simp

/-- A text without its trailing blanks is a front of it. -/
theorem prefix_trimEnd (text : Text) : trimEnd text <+: text := by
  rw [trimEnd, ← List.reverse_suffix, List.reverse_reverse]
  exact List.dropWhile_suffix isBlank

/-- A trimmed text is a part of the text. -/
theorem infix_trim (text : Text) : trim text <:+: text :=
  (prefix_trimEnd _).isInfix.trans (trimStart_suffix text).isInfix

/-- A text is what is left of it when it is trimmed, and blanks around that. -/
theorem exists_trim (text : Text) : ∃ lead trail, text = lead ++ text.trim ++ trail ∧
    (∀ c ∈ lead, isBlank c = true) ∧ ∀ c ∈ trail, isBlank c = true := by
  obtain ⟨lead, before, whole⟩ := exists_trimStart text
  obtain ⟨trail, behind, turned⟩ := exists_trimStart text.trimStart.reverse
  refine ⟨lead, trail.reverse, ?_, before, fun c mem => behind c (List.mem_reverse.1 mem)⟩
  have left : text.trimStart = text.trim ++ trail.reverse := by
    rw [trim, trimEnd, ← trimStart, ← List.reverse_append, ← turned, List.reverse_reverse]
  rw [List.append_assoc, ← left, ← whole]

/-- A trimmed text starts with no blank. -/
theorem isBlank_head?_trim {text : Text} {c : Char} (isFirst : text.trim.head? = some c) :
    isBlank c = false := by
  obtain ⟨rest, whole⟩ := prefix_trimEnd (trimStart text)
  have start : (trimStart text).head? = some c := by
    rw [trim] at isFirst
    rw [← whole, List.head?_append, isFirst, Option.some_or]
  exact head?_dropWhile_isBlank start

/-- A trimmed text ends with no blank. -/
theorem isBlank_getLast?_trim {text : Text} {c : Char} (isLast : text.trim.getLast? = some c) :
    isBlank c = false := by
  rw [trim, trimEnd, List.getLast?_reverse] at isLast
  exact head?_dropWhile_isBlank isLast

/-- Text that does not start with a blank starts where it is. -/
theorem trimStart_eq_self {text : Text} (sharp : ∀ first ∈ text.head?, isBlank first = false) :
    text.trimStart = text := by
  cases text with
  | nil => rfl
  | cons first tail => exact List.dropWhile_cons_of_neg (by simp [sharp first rfl])

/-- Text that neither starts nor ends with a blank is trimmed. -/
theorem trim_eq_self {text : Text} (first : ∀ first ∈ text.head?, isBlank first = false)
    (last : ∀ last ∈ text.getLast?, isBlank last = false) : text.trim = text := by
  have reversed : Text.trimStart text.reverse = text.reverse :=
    trimStart_eq_self (by simpa using last)
  rw [trimStart] at reversed
  rw [trim, trimStart_eq_self first, trimEnd, reversed, List.reverse_reverse]

/-- Trimming twice is trimming once. -/
@[simp] theorem trim_trim (text : Text) : text.trim.trim = text.trim :=
  trim_eq_self (fun _ => isBlank_head?_trim) (fun _ => isBlank_getLast?_trim)

/-- Blanks behind a text are trailing ones. -/
theorem trimEnd_append_blank {trail : Text} (blank : ∀ c ∈ trail, isBlank c = true) (text : Text) :
    trimEnd (text ++ trail) = trimEnd text := by
  rw [trimEnd, trimEnd, List.reverse_append,
    List.dropWhile_append_of_pos (by simpa using blank)]

/-- Blanks around a text are trimmed with its own. -/
theorem trim_append {lead trail : Text} (before : ∀ c ∈ lead, isBlank c = true)
    (behind : ∀ c ∈ trail, isBlank c = true) (text : Text) :
    trim (lead ++ text ++ trail) = trim text := by
  rw [trim, trim, List.append_assoc, trimStart_append before]
  by_cases empty : text.trimStart = []
  · have whole : (text ++ trail).trimStart = [] := by
      rw [trimStart, List.dropWhile_eq_nil_iff] at empty ⊢
      intro c mem
      exact (List.mem_append.1 mem).elim (empty c) (behind c)
    rw [empty, whole]
  · have whole : (text ++ trail).trimStart = text.trimStart ++ trail := by
      rw [trimStart] at empty
      rw [trimStart, List.dropWhile_append, if_neg (by simpa using empty)]
      rfl
    rw [whole, trimEnd_append_blank behind]

/-- A nonempty text that is trimmed is its own text without blanks around it. -/
theorem nonBlank?_eq_some {text : Text} (trimmed : text.trim = text) (nonempty : text ≠ []) :
    text.nonBlank? = some text := by
  cases text with
  | nil => exact absurd rfl nonempty
  | cons first tail => simp [nonBlank?, trimmed]

end Text
end TexStatements
