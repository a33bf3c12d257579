import TexStatements.Proofs.Group.Grammar
import TexStatements.Proofs.Text.Trim

/-!
# Balanced braces

Braces are balanced when each has its partner: counted along the text, no brace closes what was not
opened, and nothing is left open. The count does not know of escapes. In a text without a backslash
balanced braces are what may stand inside a brace group, so there the count and the readers of
groups agree on which braces match (`braced?_eq_some_iff_balanced`).
-/
namespace TexStatements
namespace Text

/-- How many braces are open behind a text if so many are open in front of it; there is no answer
where a brace closes nothing. -/
def openBraces (depth : Nat) : Text → Option Nat
  | [] => some depth
  | first :: rest =>
    if first = '{' then openBraces (depth + 1) rest
    else if first = '}' then
      match depth with
      | 0 => none
      | depth + 1 => openBraces depth rest
    else openBraces depth rest

/-- Every brace of a text has its partner in it. -/
def Balanced (text : Text) : Prop := openBraces 0 text = some 0

instance (text : Text) : Decidable text.Balanced := inferInstanceAs (Decidable (_ = _))

variable {text front rest inner : Text} {depth behind : Nat} {first c : Char}

section Steps

/-- An empty text leaves as many braces open. -/
@[simp] theorem openBraces_nil (depth : Nat) : openBraces depth [] = some depth := rfl

/-- An opening brace opens one more. -/
@[simp] theorem openBraces_opening (depth : Nat) (rest : Text) :
    openBraces depth ('{' :: rest) = openBraces (depth + 1) rest := rfl

/-- A closing brace closes one. -/
@[simp] theorem openBraces_closing (depth : Nat) (rest : Text) :
    openBraces (depth + 1) ('}' :: rest) = openBraces depth rest := rfl

/-- Another character neither opens nor closes a brace. -/
theorem openBraces_other (noOpening : c ≠ '{') (noClosing : c ≠ '}') (depth : Nat)
    (rest : Text) : openBraces depth (c :: rest) = openBraces depth rest := by
  rw [openBraces.eq_def]
  simp only [if_neg noOpening, if_neg noClosing]

/-- The number of braces that are open behind a character. -/
def depthBehind (depth : Nat) (c : Char) : Nat :=
  if c = '{' then depth + 1 else if c = '}' then depth - 1 else depth

/-- Where a character closes no brace too many, it is counted like this. -/
theorem openBraces_cons (counted : openBraces depth (first :: rest) = some behind) (text : Text) :
    openBraces depth (first :: text) = openBraces (depthBehind depth first) text := by
  by_cases opening : first = '{'
  · subst opening
    rfl
  · by_cases closing : first = '}'
    · subst closing
      cases depth with
      | zero => cases counted
      | succ depth => rfl
    · rw [openBraces_other opening closing, depthBehind, if_neg opening, if_neg closing]

/-- The braces of two texts in a row are counted one after the other. -/
theorem openBraces_append (depth : Nat) (front rest : Text) :
    openBraces depth (front ++ rest) =
      (openBraces depth front).bind fun behind => openBraces behind rest := by
  fun_induction openBraces depth front with
  | case1 => rfl
  | case2 depth tail ih => exact ih
  | case3 => rfl
  | case4 tail depth _ ih => exact ih
  | case5 depth first tail noOpening noClosing ih =>
    rw [List.cons_append, openBraces_other noOpening noClosing, ih]

/-- More braces that are open in front are open behind as well. -/
theorem openBraces_add (counted : openBraces depth text = some behind) (more : Nat) :
    openBraces (depth + more) text = some (behind + more) := by
  fun_induction openBraces depth text with
  | case1 => rw [openBraces_nil, Option.some.inj counted]
  | case2 depth tail ih =>
    rw [openBraces_opening, Nat.add_right_comm]
    exact ih counted
  | case3 => cases counted
  | case4 tail depth _ ih =>
    rw [Nat.succ_add, openBraces_closing]
    exact ih counted
  | case5 depth first tail noOpening noClosing ih =>
    rw [openBraces_other noOpening noClosing]
    exact ih counted

/-- Text without braces opens and closes nothing. -/
theorem openBraces_of_free (free : ∀ c ∈ text, c ≠ '{' ∧ c ≠ '}') (depth : Nat) :
    openBraces depth text = some depth := by
  induction text with
  | nil => rfl
  | cons first rest ih =>
    rw [List.forall_mem_cons] at free
    rw [openBraces_other free.1.1 free.1.2, ih free.2]

end Steps

section Balanced

/-- A balanced text leaves open what was open. -/
theorem Balanced.openBraces (balanced : text.Balanced) (depth : Nat) :
    text.openBraces depth = some depth := by
  have more := openBraces_add balanced depth
  rwa [Nat.zero_add] at more

/-- Text without braces is balanced. -/
theorem balanced_of_free (free : ∀ c ∈ text, c ≠ '{' ∧ c ≠ '}') : text.Balanced :=
  openBraces_of_free free 0

/-- Behind a balanced front the rest is balanced exactly if the whole is. -/
theorem Balanced.append_iff (balanced : front.Balanced) :
    (front ++ rest).Balanced ↔ rest.Balanced := by
  rw [Balanced, openBraces_append, balanced, Option.bind_some, Balanced]

/-- In front of text without braces a text is balanced exactly if the whole is. -/
theorem append_balanced_iff (free : ∀ c ∈ rest, c ≠ '{' ∧ c ≠ '}') :
    (front ++ rest).Balanced ↔ front.Balanced := by
  rw [Balanced, openBraces_append, Balanced]
  cases counted : front.openBraces 0 with
  | none => simp
  | some behind => rw [Option.bind_some, openBraces_of_free free]

/-- A blank is no brace. -/
theorem ne_brace_of_isBlank (blank : isBlank c = true) : c ≠ '{' ∧ c ≠ '}' := by
  constructor <;> rintro rfl <;> exact absurd blank (by decide)

/-- Blanks around a text do not matter to its braces. -/
@[simp] theorem balanced_trim_iff (text : Text) : text.trim.Balanced ↔ text.Balanced := by
  obtain ⟨lead, trail, whole, before, after⟩ := exists_trim text
  have leadFree : lead.Balanced := balanced_of_free fun c mem => ne_brace_of_isBlank (before c mem)
  have around : (lead ++ text.trim ++ trail).Balanced ↔ text.trim.Balanced := by
    rw [append_balanced_iff fun c mem => ne_brace_of_isBlank (after c mem), leadFree.append_iff]
  rw [← whole] at around
  exact around.symm

/-- Braces around a text are balanced if those in it are. -/
theorem Balanced.group (balanced : inner.Balanced) : Balanced ('{' :: (inner ++ ['}'])) := by
  rw [Balanced, openBraces_opening, openBraces_append, balanced.openBraces]
  rfl

end Balanced

section Grammar

open TexStatements.Group

/-- Without backslashes, a text that closes all open braces is a row of insides with those braces
in between. -/
theorem braceRow_of_openBraces (free : '\\' ∉ text) (closed : text.openBraces depth = some 0) :
    BraceRow depth text := by
  fun_induction openBraces depth text with
  | case1 depth =>
    cases closed
    exact .last .empty
  | case2 depth tail ih =>
    rw [List.mem_cons, not_or] at free
    cases ih free.2 closed with
    | closing nested more => simpa using more.push (.braces nested .empty)
  | case3 => cases closed
  | case4 tail depth _ ih =>
    rw [List.mem_cons, not_or] at free
    exact .closing .empty (ih free.2 closed)
  | case5 depth first tail noOpening noClosing ih =>
    rw [List.mem_cons, not_or] at free
    exact (ih free.2 closed).push (.plain (Ne.symm free.1) noOpening noClosing .empty)

/-- The inside of a group without backslashes leaves open what was open. -/
theorem openBraces_of_braceInside (inside : BraceInside text) (free : '\\' ∉ text) (depth : Nat) :
    text.openBraces depth = some depth := by
  induction inside generalizing depth with
  | empty => rfl
  | plain noEscape noOpening noClosing _ ih =>
    rw [List.mem_cons, not_or] at free
    rw [openBraces_other noOpening noClosing, ih free.2]
  | escaped c _ _ => exact absurd (List.mem_cons_self ..) free
  | braces _ _ first later =>
    simp only [List.mem_cons, List.mem_append, not_or] at free
    rw [openBraces_opening, openBraces_append, first free.2.1, Option.bind_some,
      openBraces_closing, later free.2.2.2]

/-- Without backslashes, balanced is what may stand inside a brace group. -/
theorem balanced_iff_braceInside (free : '\\' ∉ text) : text.Balanced ↔ BraceInside text := by
  constructor
  · intro balanced
    cases braceRow_of_openBraces free balanced with
    | last inside => exact inside
  · exact fun inside => openBraces_of_braceInside inside free 0

/-- Without backslashes, two braces at the ends of a text match each other exactly if what stands
between them is balanced. -/
theorem braced?_eq_some_iff_balanced (free : '\\' ∉ inner) :
    braced? ('{' :: (inner ++ ['}'])) = some (inner, []) ↔ inner.Balanced := by
  rw [balanced_iff_braceInside free]
  exact ⟨fun read => (group?_eq_some_iff.1 read).2, fun inside => group?_inside .braces [] inside⟩

end Grammar

end Text
end TexStatements
