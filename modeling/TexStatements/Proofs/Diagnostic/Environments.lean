import TexStatements.Diagnostic.Check
import TexStatements.Proofs.Environment.Delimiter
import TexStatements.Proofs.Statement.Locate

/-!
# The check of environments

The check keeps the environments that are open. One delimiter opens an environment or takes the
innermost one away, under whatever name, and is complained of when it closes none of its own name.
So the check has nothing to say exactly when the delimiters are properly nested, and then no
environment is left unterminated by the search for statements.
-/
namespace TexStatements

namespace Environment

/-- Delimiters that are properly nested: there are none, or the first one opens an environment that
is closed by its name behind properly nested delimiters, with properly nested ones behind it. -/
inductive Matched : List Delimiter → Prop
  | nil : Matched []
  | pair {name : Text} {inside after : List Delimiter} (matchedInside : Matched inside)
      (matchedAfter : Matched after) :
      Matched (⟨.opening, name⟩ :: (inside ++ ⟨.closing, name⟩ :: after))

/-- Behind an opening delimiter among properly nested ones is a closing one of the same name. -/
theorem Matched.closing_mem {row : List Delimiter} (matched : Matched row) {name : Text}
    {before after : List Delimiter} (split : row = before ++ ⟨.opening, name⟩ :: after) :
    ⟨.closing, name⟩ ∈ after := by
  induction matched generalizing before after with
  | nil => simp at split
  | @pair outer inside behind _ _ ihInside ihBehind =>
    cases before with
    | nil =>
      obtain ⟨same, rfl⟩ := List.cons.inj split
      cases same
      simp
    | cons first before =>
      rcases List.append_eq_append_iff.1 (List.cons.inj split).2 with
        ⟨more, -, later⟩ | ⟨more, isInside, later⟩
      · -- It is behind the closing delimiter of the first.
        cases more with
        | nil => simp at later
        | cons closing more => exact ihBehind (List.cons.inj later).2
      · cases more with
        | nil => simp at later
        | cons opening more =>
          obtain ⟨rfl, rfl⟩ := List.cons.inj later
          exact List.mem_append_left _ (ihInside isInside)

/-- Delimiters that close environments, the innermost first, each behind properly nested ones, and
are properly nested from there on. -/
def Closes : List Text → List Delimiter → Prop
  | [], row => Matched row
  | name :: outer, row => ∃ inside after, row = inside ++ ⟨.closing, name⟩ :: after ∧
      Matched inside ∧ Closes outer after

/-- An opening delimiter in front of those that close it leaves the outer environments to be
closed. -/
theorem Closes.opening {name : Text} {outer : List Text} {row : List Delimiter}
    (closes : Closes (name :: outer) row) : Closes outer (⟨.opening, name⟩ :: row) := by
  obtain ⟨inside, after, rfl, matched, further⟩ := closes
  cases outer with
  | nil => exact matched.pair further
  | cons next outer =>
    obtain ⟨between, behind, rfl, matchedBetween, further⟩ := further
    exact ⟨⟨.opening, name⟩ :: (inside ++ ⟨.closing, name⟩ :: between), behind, by simp,
      matched.pair matchedBetween, further⟩

/-- The environments that are open behind one more delimiter, innermost first. -/
def openAfter (opened : List Text) (delimiter : Delimiter) : List Text :=
  match delimiter.part with
  | .opening => delimiter.name :: opened
  | .closing => opened.tail

/-- The environments that are open behind delimiters, innermost first. A closing delimiter closes
the innermost environment, whatever the names are. -/
def openBehind (row : List Delimiter) : List Text := row.foldl openAfter []

/-- A closing delimiter of a text is misplaced if it does not close an environment of its name: in
front of it the innermost open environment has another name, or none is open. -/
def Misplaced (text : Text) (found : Found Delimiter) : Prop :=
  found.value.part = .closing ∧ ∃ before after,
    delimiter.occurrences text = before ++ found :: after ∧
    (openBehind (before.map (·.value))).head? ≠ some found.value.name

/-- Every delimiter of a text is in its literal spelling. -/
def Literal (text : Text) : Prop :=
  ∀ found ∈ delimiter.occurrences text, found.place = found.value.tag ++ found.rest

instance (text : Text) : Decidable (Literal text) :=
  inferInstanceAs (Decidable (∀ found ∈ delimiter.occurrences text,
    found.place = found.value.tag ++ found.rest))

end Environment

open Environment

namespace OpenEnvironment

/-- What the check keeps behind one more delimiter. -/
def keptAfter (locate : Text → Location) (opened : List OpenEnvironment)
    (found : Found Delimiter) : List OpenEnvironment :=
  match found.value.part with
  | .opening => ⟨found.value.name, (locate found.place).line⟩ :: opened
  | .closing => opened.tail

/-- What the check says at a delimiter. -/
def complaint (locate : Text → Location) (opened : List OpenEnvironment)
    (found : Found Delimiter) : List Diagnostic :=
  match found.value.part, opened with
  | .opening, _ => []
  | .closing, [] => [.unmatchedEnd found.value.name (locate found.place)]
  | .closing, entry :: _ =>
    if entry.name = found.value.name then []
    else [.mismatchedEnvironment entry.name entry.line found.value.name (locate found.place)]

variable {locate : Text → Location} {opened : List OpenEnvironment} {found : Found Delimiter}

/-- The names that are kept are those of the environments that are open. -/
theorem map_name_keptAfter : (keptAfter locate opened found).map (·.name) =
    Environment.openAfter (opened.map (·.name)) found.value := by
  unfold keptAfter Environment.openAfter
  split <;> simp [*]

/-- The names that are kept behind some delimiters. -/
theorem map_name_foldl (founds : List (Found Delimiter)) :
    (founds.foldl (keptAfter locate) opened).map (·.name) =
      (founds.map (·.value)).foldl Environment.openAfter (opened.map (·.name)) := by
  induction founds generalizing opened with
  | nil => rfl
  | cons found more ih => simp only [List.foldl_cons, List.map_cons, ih, map_name_keptAfter]

/-- Nothing is said at an opening delimiter, and at one that closes the innermost environment. -/
theorem complaint_eq_nil_iff : complaint locate opened found = [] ↔
    (found.value.part = .closing → (opened.map (·.name)).head? = some found.value.name) := by
  unfold complaint
  split
  · simp [*]
  · simp [*]
  · simp [*]

/-- Something is said at a closing delimiter only, where the innermost environment has another
name or there is none, and then at its place. -/
theorem of_mem_complaint {diagnostic : Diagnostic}
    (mem : diagnostic ∈ complaint locate opened found) :
    found.value.part = .closing ∧ (opened.map (·.name)).head? ≠ some found.value.name ∧
      diagnostic.location? = some (locate found.place) := by
  unfold complaint at mem
  split at mem
  · cases mem
  · rename_i closes
    obtain rfl := List.mem_singleton.1 mem
    exact ⟨closes, by simp, rfl⟩
  · rename_i closes
    split at mem
    · cases mem
    · rename_i different
      obtain rfl := List.mem_singleton.1 mem
      exact ⟨closes, by simpa using different, rfl⟩

end OpenEnvironment

section Check

open OpenEnvironment

variable {locate : Text → Location}

/-- One delimiter. -/
theorem environmentDiagnostics_cons (opened : List OpenEnvironment) (found : Found Delimiter)
    (more : List (Found Delimiter)) :
    environmentDiagnostics locate opened (found :: more) =
      complaint locate opened found ++
        environmentDiagnostics locate (keptAfter locate opened found) more := by
  rw [environmentDiagnostics.eq_def]
  simp only [complaint, keptAfter]
  cases part : found.value.part with
  | opening => simp
  | closing =>
    cases opened with
    | nil => simp
    | cons entry outer =>
      by_cases same : entry.name = found.value.name <;> simp [same]

/-- The check says what is to be said at each delimiter, given those before it, and that
environments are left open. -/
theorem mem_environmentDiagnostics_iff {opened : List OpenEnvironment}
    {founds : List (Found Delimiter)} {diagnostic : Diagnostic} :
    diagnostic ∈ environmentDiagnostics locate opened founds ↔
      (∃ before found after, founds = before ++ found :: after ∧
        diagnostic ∈ complaint locate (before.foldl (keptAfter locate) opened) found) ∨
      ∃ entry ∈ founds.foldl (keptAfter locate) opened,
        diagnostic = .unclosedEnvironment entry.name entry.line := by
  induction founds generalizing opened with
  | nil => simp [environmentDiagnostics, eq_comm]
  | cons found more ih =>
    rw [environmentDiagnostics_cons, List.mem_append, ih, ← or_assoc]
    refine or_congr_left ⟨?_, ?_⟩
    · rintro (here | ⟨before, later, after, rfl, said⟩)
      · exact ⟨[], found, more, rfl, here⟩
      · exact ⟨found :: before, later, after, rfl, said⟩
    · rintro ⟨before, later, after, split, said⟩
      cases before with
      | nil =>
        cases split
        exact .inl said
      | cons first before =>
        cases split
        exact .inr ⟨before, later, after, rfl, said⟩

/-- If the check says nothing, the delimiters close the environments that are open. -/
theorem closes_of_clean {opened : List OpenEnvironment} {founds : List (Found Delimiter)}
    (clean : environmentDiagnostics locate opened founds = []) :
    Closes (opened.map (·.name)) (founds.map (·.value)) := by
  induction founds generalizing opened with
  | nil =>
    have none : opened = [] := by simpa [environmentDiagnostics] using clean
    rw [none]
    exact .nil
  | cons found more ih =>
    rw [environmentDiagnostics_cons, List.append_eq_nil_iff] at clean
    obtain ⟨here, later⟩ := clean
    have closes := ih later
    rw [map_name_keptAfter] at closes
    obtain ⟨place, ⟨part, name⟩, rest⟩ := found
    cases part with
    | opening => exact closes.opening
    | closing =>
      cases opened with
      | nil => simp [complaint] at here
      | cons entry outer =>
        have same : entry.name = name := by simpa [complaint] using here
        subst same
        exact ⟨[], _, rfl, .nil, closes⟩

/-- The check passes over properly nested delimiters. -/
theorem environmentDiagnostics_append_of_matched {row : List Delimiter} (matched : Matched row) :
    ∀ (opened : List OpenEnvironment) (founds more : List (Found Delimiter)),
      founds.map (·.value) = row →
      environmentDiagnostics locate opened (founds ++ more) =
        environmentDiagnostics locate opened more := by
  induction matched with
  | nil =>
    intro opened founds more spelled
    rw [List.map_eq_nil_iff.1 spelled, List.nil_append]
  | pair _ _ ihInside ihAfter =>
    intro opened founds more spelled
    obtain ⟨opening, founds, rfl, opens, spelled⟩ := List.map_eq_cons_iff.1 spelled
    obtain ⟨inside, founds, rfl, insideSpelled, spelled⟩ := List.map_eq_append_iff.1 spelled
    obtain ⟨closing, after, rfl, closes, afterSpelled⟩ := List.map_eq_cons_iff.1 spelled
    rw [List.cons_append, environmentDiagnostics_cons, List.append_assoc,
      ihInside _ _ _ insideSpelled, List.cons_append, environmentDiagnostics_cons]
    simp only [complaint, keptAfter, opens, closes, if_true, List.nil_append, List.tail_cons]
    exact ihAfter _ _ _ afterSpelled

/-- The check of environments is clean exactly for properly nested delimiters. -/
theorem checkEnvironments_eq_nil_iff {starts : List Nat} {text : Text} :
    checkEnvironments starts text = [] ↔
      Matched ((delimiter.occurrences text).map (·.value)) := by
  constructor
  · intro clean
    exact closes_of_clean clean
  · intro matched
    have passed (locate : Text → Location) :
        environmentDiagnostics locate [] (delimiter.occurrences text ++ []) = [] :=
      environmentDiagnostics_append_of_matched matched [] _ [] rfl
    simp only [List.append_nil] at passed
    exact passed _

/-- The check of environments is clean exactly if no closing delimiter is misplaced and nothing
stays open. -/
theorem checkEnvironments_eq_nil_iff_openBehind {starts : List Nat} {text : Text} :
    checkEnvironments starts text = [] ↔
      (∀ found, ¬ Misplaced text found) ∧
        openBehind ((delimiter.occurrences text).map (·.value)) = [] := by
  let locate (place : Text) := Location.ofOffset starts (text.offsetOf place)
  have names (founds : List (Found Delimiter)) :
      (founds.foldl (keptAfter locate) []).map (·.name) = openBehind (founds.map (·.value)) :=
    map_name_foldl founds
  have check : checkEnvironments starts text =
      environmentDiagnostics locate [] (delimiter.occurrences text) := rfl
  rw [check, List.eq_nil_iff_forall_not_mem]
  constructor
  · intro silent
    constructor
    · rintro found ⟨closes, before, after, split, different⟩
      rw [← names] at different
      have said : complaint locate (before.foldl (keptAfter locate) []) found ≠ [] :=
        fun none => different (complaint_eq_nil_iff.1 none closes)
      obtain ⟨diagnostic, mem⟩ := List.exists_mem_of_ne_nil _ said
      exact silent diagnostic
        (mem_environmentDiagnostics_iff.2 (.inl ⟨before, found, after, split, mem⟩))
    · rw [← names, List.map_eq_nil_iff, List.eq_nil_iff_forall_not_mem]
      intro entry mem
      exact silent _ (mem_environmentDiagnostics_iff.2 (.inr ⟨entry, mem, rfl⟩))
  · rintro ⟨placed, closed⟩ diagnostic mem
    rcases mem_environmentDiagnostics_iff.1 mem with
      ⟨before, found, after, split, said⟩ | ⟨entry, kept, -⟩
    · obtain ⟨closes, different, -⟩ := of_mem_complaint said
      rw [names] at different
      exact placed found ⟨closes, before, after, split, different⟩
    · rw [← names, List.map_eq_nil_iff] at closed
      rw [closed] at kept
      cases kept

/-- In a text with properly nested literal delimiters every opening tag has a closing tag behind
it. -/
theorem endTag_infix_of_matched {front name rest : Text} (flat : name.Flat)
    (literal : Literal (front ++ (beginTag name ++ rest)))
    (matched : Matched
      ((delimiter.occurrences (front ++ (beginTag name ++ rest))).map (·.value))) :
    endTag name <:+: rest := by
  have mem : ⟨beginTag name ++ rest, ⟨.opening, name.trim⟩, rest⟩ ∈
      delimiter.occurrences (front ++ (beginTag name ++ rest)) := tag_mem_occurrences flat front
  have trimmed : name.trim = name := by
    have whole : beginTag name ++ rest = beginTag name.trim ++ rest := literal _ mem
    simpa [beginTag, End.tag] using (List.append_cancel_right whole).symm
  obtain ⟨before, after, split⟩ := List.append_of_mem mem
  have closes : ⟨.closing, name.trim⟩ ∈ after.map (·.value) :=
    matched.closing_mem (by rw [split, List.map_append, List.map_cons])
  obtain ⟨closing, isAfter, named⟩ := List.mem_map.1 closes
  have isBehind : closing.place <:+ rest := by
    have ordered := (delimiter.occurrences_ordered (front ++ (beginTag name ++ rest))).2
    rw [split, List.pairwise_append, List.pairwise_cons] at ordered
    exact ordered.2.1.1 closing isAfter
  have place : closing.place = endTag name ++ closing.rest := by
    have isFound : closing ∈ delimiter.occurrences (front ++ (beginTag name ++ rest)) := by
      rw [split]
      exact List.mem_append_right _ (List.mem_cons_of_mem _ isAfter)
    rw [literal closing isFound, named, trimmed]
    rfl
  rw [place] at isBehind
  exact (List.prefix_append _ _).isInfix.trans isBehind.isInfix

/-- The check of environments is exact: it says nothing of a text exactly when the delimiters are
properly nested, that is, when every closing delimiter closes the innermost environment under its
name and nothing stays open. A text that it says nothing of has no unterminated environment, if the
delimiters are in their literal spelling and the names are without braces. -/
theorem environment_check_exact (starts : List Nat) (text : Text) :
    (checkEnvironments starts text = [] ↔
      Matched ((delimiter.occurrences text).map (·.value))) ∧
    (checkEnvironments starts text = [] ↔ (∀ found, ¬ Misplaced text found) ∧
      openBehind ((delimiter.occurrences text).map (·.value)) = []) ∧
    ∀ names : List Text, Literal text → (∀ name ∈ names, name.Flat) →
      checkEnvironments starts text = [] → (TexStatements.locate text names).warnings = [] := by
  refine ⟨checkEnvironments_eq_nil_iff, checkEnvironments_eq_nil_iff_openBehind,
    fun names literal flat clean => ?_⟩
  have matched := checkEnvironments_eq_nil_iff.1 clean
  refine List.eq_nil_iff_forall_not_mem.2 fun warning mem => ?_
  rw [warnings_locate, List.mem_flatMap] at mem
  obtain ⟨name, listed, warned⟩ := mem
  obtain ⟨front, rest, rfl, -, unclosed⟩ :=
    (unclosed_ofName_iff listed).1 (mem_warnings_iff.1 warned).2
  exact unclosed (endTag_infix_of_matched (flat name listed) literal matched)

/-- One environment inside of another one and of itself. -/
theorem environment_check_exact_nested :
    let text : Text := ("\\begin\x7ba\x7d\\begin\x7bb\x7d\\begin\x7ba\x7dx\\end\x7ba\x7d" ++
      "\\end\x7bb\x7d\\end\x7ba\x7d").toList
    let names : List Text := ["a".toList, "b".toList]
    Literal text ∧ (∀ name ∈ names, name.Flat) ∧
      checkEnvironments (lineStarts text) text = [] ∧
      (TexStatements.locate text names).warnings = [] := by
  intro text names
  have literal : Literal text := by decide +kernel
  have flat : ∀ name ∈ names, name.Flat := by decide
  have clean : checkEnvironments (lineStarts text) text = [] := by decide +kernel
  exact ⟨literal, flat, clean,
    (environment_check_exact (lineStarts text) text).2.2 names literal flat clean⟩

end Check
end TexStatements
