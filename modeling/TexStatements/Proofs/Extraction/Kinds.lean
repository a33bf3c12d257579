import TexStatements.Options
import TexStatements.Proofs.Counter.Course
import TexStatements.Proofs.Counter.Letters
import TexStatements.Proofs.Text.Lines

/-!
# Kinds of numbered titles

The number of a counter is one word, made of digits, capitals and points with a point last, and
words of that form are passed over where the kind of a title is looked for. So the kind of a title
is that of its caption, and whether a statement is kept does not depend on its number, on the side
of the caption where the number stands, or on whether there is one (`keeps_ignores_number`).
-/
namespace TexStatements

/-- The code points of the decimal digits. -/
theorem isDigit_iff {c : Char} : isDigit c = true ↔ 48 ≤ c.val.toNat ∧ c.val.toNat ≤ 57 := by
  simp only [isDigit, Bool.and_eq_true, decide_eq_true_eq, Char.le_def, UInt32.le_iff_toNat_le]
  exact Iff.rfl

namespace Text

/-- The words of a text with a blank in it are those on either side of the blank. -/
theorem words_append {blank : Char} (divided : isBlank blank = true) (front rest : Text) :
    words (front ++ blank :: rest) = words front ++ words rest := by
  rw [words, words, words, fields_append divided, List.filter_append]

/-- A text without blanks is its only word, if it is not empty. -/
theorem words_of_sharp {word : Text} (nonempty : word ≠ [])
    (sharp : ∀ c ∈ word, isBlank c = false) : words word = [word] := by
  rw [words, fields_of_undivided sharp]
  simp [nonempty]

end Text

namespace Options

variable {number : Text}

/-- What may stand in a number is a digit, a capital or a point. -/
theorem isNumberCharacter_iff {c : Char} :
    isNumberCharacter c = true ↔ isDigit c = true ∨ isCapital c = true ∨ c = '.' := by
  simp only [isNumberCharacter, isCapital, Bool.or_eq_true, beq_iff_eq, or_assoc]

/-- No blank stands in a number. -/
theorem isBlank_of_isNumberCharacter {c : Char} (inNumber : isNumberCharacter c = true) :
    isBlank c = false := by
  rw [Bool.eq_false_iff]
  intro blank
  simp only [isBlank, Bool.or_eq_true, Bool.and_eq_true, decide_eq_true_eq, beq_iff_eq] at blank
  rcases isNumberCharacter_iff.1 inNumber with digit | capital | rfl
  · have := isDigit_iff.1 digit
    omega
  · have := isCapital_iff.1 capital
    omega
  · revert blank
    decide

/-- A number is one word. -/
theorem words_number (isNumber : isNumber number = true) : number.words = [number] := by
  rw [Options.isNumber, Bool.and_eq_true, beq_iff_eq, List.all_eq_true] at isNumber
  refine Text.words_of_sharp ?_ fun c mem => isBlank_of_isNumberCharacter (isNumber.2 c mem)
  rintro rfl
  cases isNumber.1

/-- A number behind a caption does not change its kind. -/
theorem kindOf_append_number (isNumber : isNumber number = true) (caption : Text) :
    kindOf (caption ++ ' ' :: number) = kindOf caption := by
  rw [kindOf, kindOf, Text.words_append rfl, words_number isNumber, List.find?_append,
    List.find?_singleton, isNumber]
  simp

/-- A number in front of a caption does not change its kind. -/
theorem kindOf_number_append (isNumber : isNumber number = true) (caption : Text) :
    kindOf (number ++ ' ' :: caption) = kindOf caption := by
  rw [kindOf, kindOf, Text.words_append rfl, words_number isNumber, List.singleton_append,
    List.find?_cons_of_neg (by simp [isNumber])]

/-- Words of a caption that look like numbers are passed over too. -/
example : kindOf "A. 2. Lemma 1.B.".toList = "Lemma".toList := by decide +kernel

/-- Whether a title is kept depends on its kind. -/
theorem keeps_congr (options : Options) {title other : Text} (same : kindOf title = kindOf other) :
    options.keeps title = options.keeps other := by
  unfold keeps
  rw [same]

end Options

namespace CounterForest

/-- What is written for a counter is digits or capitals. -/
theorem isNumberCharacter_of_mem_component {forest : CounterForest} {counter : Text} {c : Char}
    (mem : c ∈ forest.component counter) : Options.isNumberCharacter c = true := by
  rw [Options.isNumberCharacter_iff]
  unfold component at mem
  split at mem
  · exact .inr (.inl (isCapital_of_mem_letters mem))
  · refine .inl ?_
    have digit := isDigit_of_mem_numeral mem
    simpa [isDigit, Char.isDigit, Char.le_def] using digit

/-- The number of a counter looks like one. -/
theorem isNumber_formattedNumber (forest : CounterForest) (counter : Text) :
    Options.isNumber (forest.formattedNumber counter) = true := by
  rw [Options.isNumber, Bool.and_eq_true, beq_iff_eq, List.all_eq_true]
  constructor
  · rw [formattedNumber, chain, List.flatMap_append, List.flatMap_singleton, ← List.append_assoc]
    exact List.getLast?_concat
  · intro c mem
    obtain ⟨name, -, inPart⟩ := List.mem_flatMap.1 mem
    rcases List.mem_append.1 inPart with written | point
    · exact isNumberCharacter_of_mem_component written
    · exact Options.isNumberCharacter_iff.2 (.inr (.inr (List.mem_singleton.1 point)))

end CounterForest

section Kept

variable (options : Options) (forest : CounterForest) (caption counter : Text)

/-- A caption with a number behind it is kept exactly if the caption is. -/
theorem Options.keeps_append_number :
    options.keeps (caption ++ ' ' :: forest.formattedNumber counter) = options.keeps caption :=
  options.keeps_congr (kindOf_append_number (forest.isNumber_formattedNumber counter) caption)

/-- A caption with a number in front of it is kept exactly if the caption is. -/
theorem Options.keeps_number_append :
    options.keeps (forest.formattedNumber counter ++ ' ' :: caption) = options.keeps caption :=
  options.keeps_congr (kindOf_number_append (forest.isNumber_formattedNumber counter) caption)

/-- A statement is kept exactly if the caption of its environment is. -/
theorem CounterForest.keeps_begin (environment : Text) :
    options.keeps (forest.begin environment).2 =
      options.keeps (forest.declarationOf environment).caption := by
  unfold begin heading
  dsimp only
  rw [declarationOf_ensureEnvironment]
  split
  · rfl
  · dsimp only
    split
    · exact options.keeps_number_append _ _ _
    · exact options.keeps_append_number _ _ _

/-- A title with the number of a counter is kept exactly if its caption is. -/
theorem NumberingPlan.keeps_titleOf (plan : NumberingPlan) (environment : Text) :
    options.keeps (plan.titleOf environment forest.formattedNumber) =
      options.keeps (plan.caption environment) := by
  unfold titleOf heading
  split
  · rfl
  · split
    · exact options.keeps_number_append forest _ _
    · exact options.keeps_append_number forest _ _

/-- Of the statements of a part those are kept whose captions are. -/
theorem NumberingPlan.map_keeps_number (plan : NumberingPlan) (occurrences : List Occurrence)
    (markers : List SectionMarker) (appendix : Bool) :
    (plan.number occurrences markers appendix).1.map options.keeps =
      occurrences.map fun found => options.keeps (plan.caption found.environment) := by
  have same : ∀ statement ∈ plan.numbered occurrences markers appendix,
      options.keeps statement.title =
        options.keeps (plan.caption statement.occurrence.environment) := by
    intro statement mem
    obtain ⟨between, after, -⟩ := ((replayed_start plan appendix).course _ _).1 statement mem
    rw [after.title]
    exact plan.keeps_titleOf options statement.forest _
  calc (plan.number occurrences markers appendix).1.map options.keeps
      = (plan.numbered occurrences markers appendix).map
          fun statement => options.keeps statement.title := by
        rw [← plan.map_title_numbered, List.map_map]
        rfl
    _ = (plan.numbered occurrences markers appendix).map
          fun statement => options.keeps (plan.caption statement.occurrence.environment) :=
        List.map_congr_left same
    _ = occurrences.map fun found => options.keeps (plan.caption found.environment) := by
        conv_rhs => rw [← plan.map_occurrence_numbered occurrences markers appendix, List.map_map]
        rfl

/-- A title is kept exactly if its caption is, on whichever side of the caption the number of a
counter stands, and whatever that number is. So in all of a numbered part it depends on the captions
only which statements are kept. -/
theorem keeps_ignores_number :
    options.keeps (caption ++ ' ' :: forest.formattedNumber counter) = options.keeps caption ∧
    options.keeps (forest.formattedNumber counter ++ ' ' :: caption) = options.keeps caption ∧
    (∀ environment, options.keeps (forest.begin environment).2 =
      options.keeps (forest.declarationOf environment).caption) ∧
    ∀ (plan : NumberingPlan) (occurrences : List Occurrence) (markers : List SectionMarker)
      (appendix : Bool), (plan.number occurrences markers appendix).1.map options.keeps =
        occurrences.map fun found => options.keeps (plan.caption found.environment) :=
  ⟨options.keeps_append_number forest caption counter,
    options.keeps_number_append forest caption counter, forest.keeps_begin options,
    NumberingPlan.map_keeps_number options⟩

end Kept

end TexStatements
