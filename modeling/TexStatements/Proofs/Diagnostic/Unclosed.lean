import Mathlib.Data.Nat.Find
import TexStatements.Proofs.Diagnostic.Location
import TexStatements.Proofs.Statement.Locate

/-!
# Where an unclosed environment is reported

The warning of an environment that is left open carries no place, only the spelling of its opening
tag. The diagnostic made from it looks for that spelling from the start of the input on, so it
points to the first opening tag of the environment. The tag that is left open may be a later one.
-/
namespace TexStatements

namespace Environment

/-- A front of a text ends in front of the first opening tag of an environment that has something
admitted behind it. -/
structure FirstOpening (name : Text) (admits : Text → Prop) (text front : Text) : Prop where
  /-- An opening tag is there, and what is behind it is admitted. -/
  opens : ∃ rest, text = front ++ (beginTag name ++ rest) ∧ admits rest
  /-- Every other such tag is behind the front. -/
  first : ∀ before rest, text = before ++ (beginTag name ++ rest) → admits rest → front <+: before

/-- Behind an opening tag no closing tag of the environment follows. -/
def LeftOpen (name rest : Text) : Prop := ¬ endTag name <:+: rest

instance (name rest : Text) : Decidable (LeftOpen name rest) :=
  inferInstanceAs (Decidable (¬ endTag name <:+: rest))

namespace FirstOpening

variable {name text front other : Text} {admits : Text → Prop}

/-- There is one first opening tag at most. -/
theorem unique (isFirst : FirstOpening name admits text front)
    (again : FirstOpening name admits text other) : front = other := by
  obtain ⟨rest, whole, admitted⟩ := isFirst.opens
  obtain ⟨tail, wholeAgain, admittedAgain⟩ := again.opens
  exact (isFirst.first other tail wholeAgain admittedAgain).eq_of_length_le
    (again.first front rest whole admitted).length_le

/-- If there is an admitted opening tag there is a first one. -/
theorem exists_of_opens {before rest : Text} (whole : text = before ++ (beginTag name ++ rest))
    (admitted : admits rest) : ∃ front, FirstOpening name admits text front := by
  classical
  let Opens (length : Nat) : Prop :=
    ∃ front rest, front.length = length ∧ text = front ++ (beginTag name ++ rest) ∧ admits rest
  have exist : ∃ length, Opens length := ⟨before.length, before, rest, rfl, whole, admitted⟩
  obtain ⟨front, behind, length, opens, isAdmitted⟩ := Nat.find_spec exist
  refine ⟨front, ⟨behind, opens, isAdmitted⟩, fun other tail wholeAgain admittedAgain => ?_⟩
  have shortest : Nat.find exist ≤ other.length :=
    Nat.find_min' exist ⟨other, tail, rfl, wholeAgain, admittedAgain⟩
  rw [← length] at shortest
  exact List.prefix_of_prefix_length_le ⟨_, opens.symm⟩ ⟨_, wholeAgain.symm⟩ shortest

/-- The first opening tag is the first occurrence of its spelling. -/
theorem of_cut? {inside : Text} (found : Text.cut? (beginTag name) text = some (front, inside)) :
    FirstOpening name (fun _ => True) text front where
  opens := ⟨inside, by rw [← List.append_assoc]; exact Text.cut?_eq_append found, trivial⟩
  first _ _ whole _ := Text.front_of_cut? found whole

/-- The first opening tag that is left open is the first one exactly when no opening tag is
closed. -/
theorem leftOpen_iff (isFirst : FirstOpening name (fun _ => True) text other)
    (leftOpen : FirstOpening name (LeftOpen name) text front) :
    other = front ↔ ∀ before rest, text = before ++ (beginTag name ++ rest) →
      LeftOpen name rest := by
  obtain ⟨rest, whole, unclosed⟩ := leftOpen.opens
  constructor
  · rintro rfl before behind again closes
    -- What is behind a later tag is behind this one too.
    obtain ⟨between, rfl⟩ := isFirst.first before behind again trivial
    have same := whole.symm.trans again
    rw [List.append_assoc, List.append_cancel_left_eq] at same
    have suffix : behind <:+ rest := by
      refine List.suffix_of_suffix_length_le ⟨between ++ beginTag name, by rw [List.append_assoc]⟩
        ⟨beginTag name, same⟩ ?_
      have sizes := congrArg List.length same
      simp only [List.length_append] at sizes
      omega
    exact unclosed (closes.trans suffix.isInfix)
  · intro all
    obtain ⟨tail, opens, -⟩ := isFirst.opens
    exact (isFirst.first front rest whole trivial).eq_of_length_le
      (leftOpen.first other tail opens (all other tail opens)).length_le

end FirstOpening
end Environment

open Environment

/-- Fronts of a text with the same place behind them are the same. -/
theorem Location.behind_front_inj {text front other rest tail : Text}
    (whole : text = front ++ rest) (wholeAgain : text = other ++ tail) :
    behind (Utf8.encode front) = behind (Utf8.encode other) ↔ front = other := by
  refine ⟨fun same => ?_, fun same => same ▸ rfl⟩
  have front_eq {front rest : Text} (whole : text = front ++ rest) :
      (Utf8.encode text).take front.byteLength = Utf8.encode front ∧
        front.byteLength ≤ (Utf8.encode text).length := by
    rw [whole, Utf8.encode_append, List.length_append, ← Utf8.length_encode]
    exact ⟨List.take_left, Nat.le_add_right _ _⟩
  obtain ⟨taken, fits⟩ := front_eq whole
  obtain ⟨takenAgain, fitsAgain⟩ := front_eq wholeAgain
  rw [← taken, ← takenAgain] at same
  have size := behind_take_inj fits fitsAgain same
  exact (Text.append_inj_of_byteLength (whole.symm.trans wholeAgain) size).1

/-- The warning of an unclosed environment becomes a diagnostic at the first opening tag. -/
theorem Warning.location_unclosedEnvironment {text name front : Text}
    (isFirst : FirstOpening name (fun _ => True) text front) :
    ((Warning.unclosedEnvironment name).diagnostic text (lineStarts text)).location? =
      some (Location.behind (Utf8.encode front)) := by
  obtain ⟨rest, whole, -⟩ := isFirst.opens
  have place := Location.ofOffset_byteLength front (beginTag name ++ rest)
  rw [← whole] at place
  cases found : Text.cut? (beginTag name) text with
  | none =>
    have occurs : beginTag name <:+: text := ⟨front, rest, by rw [whole, List.append_assoc]⟩
    exact absurd occurs (Text.cut?_eq_none_iff.1 found)
  | some cut =>
    have same : front = cut.1 := isFirst.unique (.of_cut? found)
    simp [Warning.diagnostic, Warning.source?, found, ← same, place]

/-- What the search for occurrences warns of is reported by the check. -/
theorem diagnostic_mem_checkDocument {text : Text} {options : Options} {warning : Warning}
    (warned : warning ∈ ((Document.ofText text).located options).warnings) :
    warning.diagnostic text (lineStarts text) ∈ (checkDocument text options).diagnostics := by
  have isWarning : warning ∈ (extract text options).warnings := by
    rw [extract, Document.ofDocument_warnings]
    simp only [List.mem_append]
    exact .inl (.inl (.inl (.inr warned)))
  simp only [checkDocument, List.mem_append, List.mem_map]
  exact .inl (.inl (.inl ⟨warning, isWarning, rfl⟩))

/-- In a normalized text an unclosed environment is reported at its first opening tag. That is the
first one that is left open exactly when none of its opening tags is closed. -/
theorem unclosed_environment_location {text name : Text} {options : Options}
    (normalized : (Document.ofText text).text = text)
    (warned : .unclosedEnvironment name ∈ ((Document.ofText text).located options).warnings) :
    let diagnostic := (Warning.unclosedEnvironment name).diagnostic text (lineStarts text)
    diagnostic ∈ (checkDocument text options).diagnostics ∧
      ∃ first front, FirstOpening name (fun _ => True) text first ∧
        FirstOpening name (LeftOpen name) text front ∧
        diagnostic.location? = some (Location.behind (Utf8.encode first)) ∧
        (diagnostic.location? = some (Location.behind (Utf8.encode front)) ↔
          ∀ before rest, text = before ++ (beginTag name ++ rest) → LeftOpen name rest) := by
  intro diagnostic
  have reported := diagnostic_mem_checkDocument warned
  rw [Document.located, normalized, warnings_locate, List.mem_flatMap] at warned
  obtain ⟨environment, listed, isWarning⟩ := warned
  obtain ⟨same, unclosed⟩ := mem_warnings_iff.1 isWarning
  obtain rfl := Warning.unclosedEnvironment.inj same
  obtain ⟨before, rest, whole, -, leftOpen⟩ := (unclosed_ofName_iff listed).1 unclosed
  obtain ⟨first, isFirst⟩ : ∃ first, FirstOpening name (fun _ => True) text first :=
    FirstOpening.exists_of_opens whole trivial
  obtain ⟨front, isFront⟩ : ∃ front, FirstOpening name (LeftOpen name) text front :=
    FirstOpening.exists_of_opens whole leftOpen
  have location := Warning.location_unclosedEnvironment isFirst
  refine ⟨reported, first, front, isFirst, isFront, location, ?_⟩
  obtain ⟨_, wholeFirst, -⟩ := isFirst.opens
  obtain ⟨_, wholeFront, -⟩ := isFront.opens
  rw [location, Option.some.injEq, Location.behind_front_inj wholeFirst wholeFront]
  exact isFirst.leftOpen_iff isFront

/-- A theorem that is closed, and on the next line one that is left open. -/
def secondTheoremOpen : Text :=
  "\\begin\x7btheorem\x7dx\\end\x7btheorem\x7d\n\\begin\x7btheorem\x7dy".toList

/-- The text is as normalization leaves it, and is warned of. -/
theorem warned_secondTheoremOpen :
    (Document.ofText secondTheoremOpen).text = secondTheoremOpen ∧
      .unclosedEnvironment "theorem".toList ∈
        ((Document.ofText secondTheoremOpen).located .default).warnings := by
  decide +kernel

/-- The unclosed theorem is reported. -/
theorem unclosed_environment_location_secondTheorem :
    let document := Document.ofText secondTheoremOpen
    document.text = secondTheoremOpen ∧
      .unclosedEnvironment "theorem".toList ∈ (document.located .default).warnings ∧
      (Warning.unclosedEnvironment "theorem".toList).diagnostic secondTheoremOpen
          (lineStarts secondTheoremOpen) ∈
        (checkDocument secondTheoremOpen .default).diagnostics := by
  obtain ⟨normalized, warned⟩ := warned_secondTheoremOpen
  exact ⟨normalized, warned, (unclosed_environment_location normalized warned).1⟩

/-- The unclosed theorem is the one on the second line, but the first line is reported. -/
theorem unclosed_environment_reported_elsewhere :
    let name := "theorem".toList
    let document := Document.ofText secondTheoremOpen
    let front := "\\begin\x7btheorem\x7dx\\end\x7btheorem\x7d\n".toList
    document.text = secondTheoremOpen ∧
      .unclosedEnvironment name ∈ (document.located .default).warnings ∧
      FirstOpening name (LeftOpen name) secondTheoremOpen front ∧
      Location.behind (Utf8.encode front) = ⟨2, 1⟩ ∧
      ((Warning.unclosedEnvironment name).diagnostic secondTheoremOpen
        (lineStarts secondTheoremOpen)).location? = some ⟨1, 1⟩ := by
  intro name document front
  have places : ∀ place ∈ secondTheoremOpen.tails, ∀ rest ∈ Text.dropLiteral? (beginTag name) place,
      LeftOpen name rest → front.length + place.length ≤ secondTheoremOpen.length := by
    decide +kernel
  have isFirst : FirstOpening name (LeftOpen name) secondTheoremOpen front := by
    refine ⟨⟨"y".toList, rfl, by decide⟩, fun before rest whole leftOpen => ?_⟩
    have isPlace : beginTag name ++ rest ∈ secondTheoremOpen.tails :=
      (List.mem_tails _ _).2 ⟨before, whole.symm⟩
    have bound := places _ isPlace rest (Text.dropLiteral?_eq_some_iff.2 rfl) leftOpen
    have length := congrArg List.length whole
    rw [List.length_append] at length
    exact List.prefix_of_prefix_length_le ⟨_, rfl⟩ ⟨_, whole.symm⟩ (by omega)
  obtain ⟨normalized, warned⟩ := warned_secondTheoremOpen
  exact ⟨normalized, warned, isFirst, by decide +kernel, by decide +kernel⟩

end TexStatements
