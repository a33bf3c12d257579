import TexStatements.Text.Basic

/-!
# Lines

A text is taken apart at its line feeds: it is a line without line feeds, or such a line, a line
feed and another text (`line_induction`). Along the same cases its lines keep the line feeds that
end them, and its fields between line feeds do not.
-/
namespace TexStatements
namespace Text

/-- What holds of texts without line feeds, and of every line in front of a text of which it holds,
holds of all texts. -/
theorem line_induction {motive : Text → Prop}
    (last : ∀ line, '\n' ∉ line → motive line)
    (feed : ∀ line rest, '\n' ∉ line → motive rest → motive (line ++ '\n' :: rest))
    (text : Text) : motive text := by
  by_cases inside : '\n' ∈ text
  · obtain ⟨line, rest, rfl, free⟩ := List.eq_append_cons_of_mem inside
    exact feed line rest free (line_induction last feed rest)
  · exact last text inside
termination_by text.length
decreasing_by
  subst_vars
  simp only [List.length_append, List.length_cons]
  omega

section Fields

variable {divides : Char → Bool} {field : Text}

/-- There is always a field. -/
theorem fields_ne_nil (divides : Char → Bool) (text : Text) : fields divides text ≠ [] := by
  fun_cases fields divides text <;> simp

/-- A text that is not divided is its only field. -/
theorem fields_of_undivided (whole : ∀ c ∈ field, divides c = false) :
    fields divides field = [field] := by
  induction field with
  | nil => rfl
  | cons first field ih =>
    rw [List.forall_mem_cons] at whole
    have later := ih whole.2
    rw [fields, if_neg (by simp [whole.1]), later]

/-- Where a text is divided, its fields are those of either side. -/
theorem fields_append {divider : Char} (divided : divides divider = true) (front rest : Text) :
    fields divides (front ++ divider :: rest) = fields divides front ++ fields divides rest := by
  induction front with
  | nil =>
    rw [List.nil_append, fields, fields, if_pos divided]
    rfl
  | cons first front ih =>
    rw [List.cons_append, fields, fields, ih]
    split
    · rfl
    · obtain ⟨field, more, some⟩ := List.exists_cons_of_ne_nil (fields_ne_nil divides front)
      rw [some]
      rfl

/-- The first field ends where the text is divided first. -/
theorem fields_of_divided {divider : Char} (whole : ∀ c ∈ field, divides c = false)
    (divided : divides divider = true) (rest : Text) :
    fields divides (field ++ divider :: rest) = field :: fields divides rest := by
  rw [fields_append divided, fields_of_undivided whole, List.singleton_append]

/-- A field is a part of the text that is not divided. -/
theorem undivided_of_mem_fields {text : Text} (mem : field ∈ fields divides text) :
    ∀ c ∈ field, c ∈ text ∧ divides c = false := by
  fun_induction fields divides text generalizing field with
  | case1 =>
    rw [List.mem_singleton] at mem
    subst mem
    nofun
  | case2 first rest divided ih =>
    rcases List.mem_cons.1 mem with rfl | later
    · nofun
    · exact fun c inField => (ih later c inField).imp_left (List.mem_cons_of_mem _)
  | case3 first rest whole none ih => exact absurd none (fields_ne_nil divides rest)
  | case4 first rest whole start more some ih =>
    rcases List.mem_cons.1 mem with rfl | later
    · rw [List.forall_mem_cons]
      refine ⟨⟨List.mem_cons_self .., eq_false_of_ne_true whole⟩, fun c inField => ?_⟩
      have inside : start ∈ fields divides rest := some ▸ List.mem_cons_self ..
      exact (ih inside c inField).imp_left (List.mem_cons_of_mem _)
    · have inside : field ∈ fields divides rest := some ▸ List.mem_cons_of_mem _ later
      exact fun c inField => (ih inside c inField).imp_left (List.mem_cons_of_mem _)

/-- Where two rules divide a text alike, its fields are the same. -/
theorem fields_congr {other : Char → Bool} {text : Text}
    (same : ∀ c ∈ text, divides c = other c) : fields divides text = fields other text := by
  induction text with
  | nil => rfl
  | cons first rest ih =>
    rw [List.forall_mem_cons] at same
    rw [fields, fields, same.1, ih same.2]

end Fields

section Lines

variable {line : Text}

/-- A text without a line feed is its only line, if it is not empty. -/
theorem lines_of_not_mem (free : '\n' ∉ line) (nonempty : line ≠ []) : lines line = [line] := by
  induction line with
  | nil => exact absurd rfl nonempty
  | cons first line ih =>
    rw [List.mem_cons, not_or] at free
    have other : first ≠ '\n' := fun same => free.1 same.symm
    cases line with
    | nil => rw [lines, if_neg other, lines]
    | cons second line => rw [lines, if_neg other, ih free.2 (List.cons_ne_nil second line)]

/-- The first line ends with the first line feed. -/
theorem lines_feed (free : '\n' ∉ line) (rest : Text) :
    lines (line ++ '\n' :: rest) = (line ++ ['\n']) :: lines rest := by
  induction line with
  | nil => rw [List.nil_append, lines, if_pos rfl, List.nil_append]
  | cons first line ih =>
    rw [List.mem_cons, not_or] at free
    have other : first ≠ '\n' := fun same => free.1 same.symm
    rw [List.cons_append, lines, if_neg other, ih free.2, List.cons_append]

/-- A text without a line feed is its only field between line feeds. -/
theorem fields_of_not_mem (free : '\n' ∉ line) : fields (· == '\n') line = [line] := by
  apply fields_of_undivided
  intro c mem
  exact beq_eq_false_iff_ne.2 fun same => free (same ▸ mem)

/-- The first field between line feeds ends before the first one. -/
theorem fields_feed (free : '\n' ∉ line) (rest : Text) :
    fields (· == '\n') (line ++ '\n' :: rest) = line :: fields (· == '\n') rest := by
  apply fields_of_divided
  · intro c mem
    exact beq_eq_false_iff_ne.2 fun same => free (same ▸ mem)
  · rfl

end Lines

/-- The separator stands behind the first text if there is another. -/
theorem join_cons {separator text : Text} {more : List Text} (nonempty : more ≠ []) :
    join separator (text :: more) = text ++ separator ++ join separator more := by
  cases more with
  | nil => exact absurd rfl nonempty
  | cons next more => rfl

/-- Texts that are not divided, joined by a divider, are its fields. -/
theorem fields_join {divides : Char → Bool} {divider : Char} (divided : divides divider = true)
    {texts : List Text} (whole : ∀ text ∈ texts, ∀ c ∈ text, divides c = false)
    (nonempty : texts ≠ []) : fields divides (join [divider] texts) = texts := by
  induction texts with
  | nil => exact absurd rfl nonempty
  | cons text texts ih =>
    rw [List.forall_mem_cons] at whole
    by_cases last : texts = []
    · rw [last, join, fields_of_undivided whole.1]
    · rw [join_cons last, List.append_assoc, List.singleton_append,
        fields_of_divided whole.1 divided, ih whole.2 last]

/-- A text is its fields, joined by what divides it. -/
theorem join_fields (divider : Char) (text : Text) :
    join [divider] (fields (· == divider) text) = text := by
  fun_induction fields (· == divider) text with
  | case1 => rfl
  | case2 first rest divided ih =>
    rw [join_cons (fields_ne_nil _ rest), ih, ← eq_of_beq divided]
    rfl
  | case3 first rest whole none ih => exact absurd none (fields_ne_nil _ rest)
  | case4 first rest whole start more some ih =>
    rw [some] at ih
    cases more with
    | nil => rw [join, ← ih, join]
    | cons next more =>
      have another : next :: more ≠ [] := List.cons_ne_nil next more
      rw [← ih, join_cons another, join_cons another]
      rfl

/-- The first of some texts, joined, start what all of them are joined to. -/
theorem join_prefix_append (separator : Text) (first second : List Text) :
    join separator first <+: join separator (first ++ second) := by
  induction first with
  | nil => exact List.nil_prefix
  | cons text first ih =>
    by_cases last : first = []
    · subst last
      by_cases alone : second = []
      · subst alone
        exact List.prefix_refl _
      · rw [List.singleton_append, join_cons alone, List.append_assoc]
        exact List.prefix_append _ _
    · have longer : first ++ second ≠ [] := fun empty => last (List.append_eq_nil_iff.1 empty).1
      rw [List.cons_append, join_cons last, join_cons longer]
      exact (List.prefix_append_right_inj _).2 ih

end Text
end TexStatements
