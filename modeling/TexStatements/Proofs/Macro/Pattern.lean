import TexStatements.Proofs.Macro.Row

/-!
# Patterns

A pattern for so many arguments is a text in which every number sign stands before the number of one
of them. Putting arguments into a pattern works place by place: text behind a pattern, in particular
a digit behind a number or a number sign in an argument, never makes another place of it
(`substitute_append`). So where the arguments are patterns themselves, it does not matter whether
values are put into the whole or into each argument first (`instantiate_instantiate`).
-/
namespace TexStatements
namespace Macro

/-- A digit is the number of one of so many arguments. -/
def IsNumber (arity : Nat) (digit : Char) : Prop :=
  '1' ≤ digit ∧ digit ≤ '9' ∧ digit.toNat ≤ '0'.toNat + arity

instance (arity : Nat) (digit : Char) : Decidable (IsNumber arity digit) :=
  inferInstanceAs (Decidable (_ ∧ _))

/-- Every number sign of a text is followed by the number of one of so many arguments. -/
def IsPattern (arity : Nat) (text : Text) : Prop :=
  ∀ index < text.length, text[index]? = some '#' → ∃ digit ∈ text[index + 1]?, IsNumber arity digit

instance (arity : Nat) (text : Text) : Decidable (IsPattern arity text) :=
  inferInstanceAs (Decidable (∀ index < text.length, _ → _))

variable {arity inner : Nat} {arguments values : List Text} {first digit : Char} {text rest : Text}

/-- Numbers of arguments are the digits that name one. -/
theorem isNumber_iff :
    IsNumber arity digit ↔ ∃ index < arity, argumentIndex? digit = some index := by
  have zero : '0'.toNat = 48 := rfl
  have one : '1'.val.toNat = 49 := rfl
  have value : digit.val.toNat = digit.toNat := rfl
  constructor
  · rintro ⟨lower, upper, bound⟩
    have least : 49 ≤ digit.toNat := lower
    exact ⟨digit.val.toNat - '1'.val.toNat, by omega, if_pos ⟨lower, upper⟩⟩
  · rintro ⟨index, inside, found⟩
    rw [argumentIndex?] at found
    split at found
    · rename_i range
      cases found
      exact ⟨range.1, range.2, by omega⟩
    · cases found

/-- A number of an argument is no number sign. -/
theorem IsNumber.ne_sign (number : IsNumber arity digit) : digit ≠ '#' := by
  rintro rfl
  exact absurd number.1 (by decide)

/-- The number of an argument stands for it. -/
theorem IsNumber.argument? (number : IsNumber arguments.length digit) :
    ∃ argument ∈ arguments, Macro.argument? arguments.length arguments digit = some argument := by
  obtain ⟨index, inside, named⟩ := isNumber_iff.1 number
  refine ⟨arguments[index], List.getElem_mem inside, ?_⟩
  rw [Macro.argument?, named, Option.bind_eq_bind, Option.bind_some, if_pos inside,
    List.getElem?_eq_getElem inside]

/-- What a number stands for, when something is done to each argument. -/
theorem argument?_map (change : Text → Text) :
    argument? arity (arguments.map change) digit =
      (argument? arity arguments digit).map change := by
  unfold argument?
  cases argumentIndex? digit with
  | none => rfl
  | some index =>
    by_cases inside : index < arity
    · simp [inside]
    · simp [inside]

/-- The empty text is a pattern. -/
theorem isPattern_nil : IsPattern arity [] := fun _ inside => absurd inside (Nat.not_lt_zero _)

/-- A pattern starts with what its first place asks for, and goes on with a pattern. -/
theorem isPattern_cons : IsPattern arity (first :: rest) ↔
    (first = '#' → ∃ digit ∈ rest.head?, IsNumber arity digit) ∧ IsPattern arity rest := by
  constructor
  · intro pattern
    refine ⟨fun sign => ?_, fun index inside sign => ?_⟩
    · have next := pattern 0 (Nat.zero_lt_succ _) (congrArg some sign)
      rwa [List.getElem?_cons_succ, ← List.head?_eq_getElem?] at next
    · exact pattern (index + 1) (Nat.succ_lt_succ inside) sign
  · rintro ⟨start, pattern⟩ index inside sign
    cases index with
    | zero =>
      rw [List.getElem?_cons_succ, ← List.head?_eq_getElem?]
      exact start (Option.some.inj sign)
    | succ index => exact pattern index (Nat.lt_of_succ_lt_succ inside) sign

/-- Another character in front of a pattern makes a pattern. -/
theorem isPattern_character (plain : first ≠ '#') :
    IsPattern arity (first :: rest) ↔ IsPattern arity rest := by
  rw [isPattern_cons]
  exact and_iff_right fun sign => absurd sign plain

/-- A place for an argument in front of a pattern makes a pattern. -/
theorem isPattern_argument : IsPattern arity ('#' :: digit :: rest) ↔
    IsNumber arity digit ∧ IsPattern arity rest := by
  rw [isPattern_cons]
  have next : (∃ number ∈ (digit :: rest).head?, IsNumber arity number) ↔
      IsNumber arity digit := by simp
  constructor
  · rintro ⟨start, pattern⟩
    have number := next.1 (start rfl)
    exact ⟨number, (isPattern_character number.ne_sign).1 pattern⟩
  · rintro ⟨number, pattern⟩
    exact ⟨fun _ => next.2 number, (isPattern_character number.ne_sign).2 pattern⟩

/-- A pattern is empty, or another character or a place for an argument with a pattern behind it. -/
@[elab_as_elim]
theorem IsPattern.induction {motive : ∀ text, IsPattern arity text → Prop}
    (nil : motive [] isPattern_nil)
    (character : ∀ first rest (plain : first ≠ '#') (pattern : IsPattern arity rest),
      motive rest pattern → motive (first :: rest) ((isPattern_character plain).2 pattern))
    (argument : ∀ digit rest (number : IsNumber arity digit) (pattern : IsPattern arity rest),
      motive rest pattern →
        motive ('#' :: digit :: rest) (isPattern_argument.2 ⟨number, pattern⟩))
    (text : Text) (pattern : IsPattern arity text) : motive text pattern := by
  match text with
  | [] => exact nil
  | first :: rest =>
    by_cases sign : first = '#'
    · subst sign
      cases rest with
      | nil =>
        obtain ⟨digit, next, -⟩ := (isPattern_cons.1 pattern).1 rfl
        cases next
      | cons digit rest =>
        have parts := isPattern_argument.1 pattern
        exact argument digit rest parts.1 parts.2
          (IsPattern.induction nil character argument rest parts.2)
    · have behind := (isPattern_character sign).1 pattern
      exact character first rest sign behind
        (IsPattern.induction nil character argument rest behind)

/-- Whatever stands behind a pattern, arguments are put into the two apart. -/
theorem substitute_append (pattern : IsPattern inner text) (rest : Text) :
    substitute arity arguments (text ++ rest) =
      substitute arity arguments text ++ substitute arity arguments rest := by
  induction text, pattern using IsPattern.induction with
  | nil => rfl
  | character first more plain _ ih =>
    rw [List.cons_append, substitute_character plain, substitute_character plain, ih,
      List.cons_append]
  | argument digit more number _ ih =>
    rw [List.cons_append, List.cons_append]
    -- A number that no argument was given for stays, with whatever follows it.
    cases found : argument? arity arguments digit with
    | none =>
      rw [substitute_other number.ne_sign found, substitute_other number.ne_sign found, ih,
        List.cons_append, List.cons_append]
    | some argument =>
      rw [substitute_argument number.ne_sign found, substitute_argument number.ne_sign found, ih,
        List.append_assoc]

/-- Putting values into a pattern with arguments in it puts them into each argument. -/
theorem substitute_substitute (pattern : IsPattern arguments.length text)
    (patterns : ∀ argument ∈ arguments, IsPattern inner argument) :
    substitute inner values (substitute arguments.length arguments text) =
      substitute arguments.length (arguments.map (substitute inner values)) text := by
  induction text, pattern using IsPattern.induction with
  | nil => rfl
  | character first rest plain _ ih =>
    rw [substitute_character plain, substitute_character plain, substitute_character plain, ih]
  | argument digit rest number _ ih =>
    obtain ⟨argument, mem, found⟩ := number.argument?
    have valued : argument? arguments.length (arguments.map (substitute inner values)) digit =
        some (substitute inner values argument) := by
      rw [argument?_map, found, Option.map_some]
    calc
      _ = substitute inner values
            (argument ++ substitute arguments.length arguments rest) := by
        rw [substitute_argument number.ne_sign found]
      _ = substitute inner values argument ++
            substitute inner values (substitute arguments.length arguments rest) :=
        substitute_append (patterns argument mem) _
      _ = substitute inner values argument ++
            substitute arguments.length (arguments.map (substitute inner values)) rest := by
        rw [ih]
      _ = _ := by rw [substitute_argument number.ne_sign valued]

/-- Where the body of a macro is a pattern for its arguments and these are patterns for the
arguments of another macro, the values of the other macro may be put in before or after: into the
body with the arguments in it, or into each argument on its own. Nothing is asked of the values. -/
theorem instantiate_instantiate (definition outer : Macro) (arguments values : List Text)
    (count : arguments.length = definition.arity)
    (pattern : IsPattern definition.arity definition.body)
    (patterns : ∀ argument ∈ arguments, IsPattern outer.arity argument) :
    { outer with body := definition.instantiate arguments }.instantiate values =
      definition.instantiate
        (arguments.map fun argument => { outer with body := argument }.instantiate values) := by
  rw [← count] at pattern
  have composed :
      substitute outer.arity values (substitute arguments.length arguments definition.body) =
        substitute arguments.length (arguments.map (substitute outer.arity values))
          definition.body :=
    substitute_substitute pattern patterns
  rw [count] at composed
  exact composed

/-- Digits stand behind the numbers of the body, an argument ends in a number, and the values hold
number signs and digits that would join their neighbours. -/
theorem instantiate_instantiate_neighbours :
    let definition : Macro := withRequired "f".toList 2 "#2#12(#1)".toList
    let outer : Macro := withOptional "g".toList 2 "z".toList []
    let arguments : List Text := ["a#1".toList, "#2#1".toList]
    let values : List Text := ["#".toList, "2#1".toList]
    arguments.length = definition.arity ∧ IsPattern definition.arity definition.body ∧
      (∀ argument ∈ arguments, IsPattern outer.arity argument) ∧
      { outer with body := definition.instantiate arguments }.instantiate values =
        definition.instantiate
          (arguments.map fun argument => { outer with body := argument }.instantiate values) ∧
      definition.instantiate arguments = "#2#1a#12(a#1)".toList ∧
      { outer with body := definition.instantiate arguments }.instantiate values =
        "2#1#a#2(a#)".toList := by
  intro definition outer arguments values
  have count : arguments.length = definition.arity := by decide +kernel
  have pattern : IsPattern definition.arity definition.body := by decide +kernel
  have patterns : ∀ argument ∈ arguments, IsPattern outer.arity argument := by decide +kernel
  exact ⟨count, pattern, patterns,
    instantiate_instantiate definition outer arguments values count pattern patterns,
    by decide +kernel, by decide +kernel⟩

/-- A body with a doubled number sign is no pattern, and then the order matters. -/
example : substitute 1 ["x".toList] (substitute 0 [] "##1".toList) = "x".toList ∧
    substitute 0 [] "##1".toList = "#1".toList := by decide +kernel

end Macro
end TexStatements
