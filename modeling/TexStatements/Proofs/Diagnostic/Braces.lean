import Mathlib.Data.List.Basic
import TexStatements.Diagnostic.Check
import TexStatements.Group.Position
import TexStatements.Proofs.Group.Position

/-!
# The check of braces

The check counts how many braces are open, and a group is read by looking for the brace that closes
it. Both see a text as the row of its braces that no backslash hides. In such a row a closing brace
is unopened if the braces in front of it leave nothing open for it, and the brace that closes the
innermost but `depth` of the open groups is the unopened one with that number in the row behind them
(`closeBracesFrom_eq`). So the check reports the closing braces that no opening brace is read up to,
and counts the opening braces from which no closing brace is found (`checkBraces_eq_unopened`).
-/
namespace TexStatements

/-- A brace that is not hidden by a backslash. -/
structure Brace where
  /-- Its byte offset. -/
  offset : Nat
  /-- Whether it opens a group. -/
  opens : Bool

/-- The character of a brace. -/
def Brace.character (brace : Brace) : Char := if brace.opens then '{' else '}'

namespace Text

/-- The braces of a text that starts at a byte offset, from left to right; a backslash hides the
character behind it. -/
def bracesFrom (offset : Nat) : Text → List Brace
  | [] => []
  | first :: rest =>
    if first = '\\' then
      match rest with
      | [] => []
      | escaped :: rest => bracesFrom (offset + first.utf8Size + escaped.utf8Size) rest
    else if first = '{' then ⟨offset, true⟩ :: bracesFrom (offset + first.utf8Size) rest
    else if first = '}' then ⟨offset, false⟩ :: bracesFrom (offset + first.utf8Size) rest
    else bracesFrom (offset + first.utf8Size) rest

end Text

namespace Brace

/-- Offsets of the opening braces of a row. -/
def openings (braces : List Brace) : List Nat := (braces.filter (·.opens)).map (·.offset)

/-- Offsets of the closing braces of a row. -/
def closings (braces : List Brace) : List Nat := (braces.filter (!·.opens)).map (·.offset)

/-- Offsets of the closing braces of a row that close nothing that is opened in it. -/
def unopened : List Brace → List Nat
  | [] => []
  | ⟨_, true⟩ :: rest => (unopened rest).tail
  | ⟨offset, false⟩ :: rest => offset :: unopened rest

/-- Offsets of the opening braces of a row that nothing in it closes. -/
def unclosed : List Brace → List Nat
  | [] => []
  | ⟨offset, true⟩ :: rest => if unopened rest = [] then offset :: unclosed rest else unclosed rest
  | ⟨_, false⟩ :: rest => unclosed rest

end Brace

namespace Text

/-- Offsets of the closing braces of a text that close no group: none of its opening braces is read
up to them. -/
def unmatchedClosings (text : Text) : List Nat :=
  (Brace.closings (text.bracesFrom 0)).filter fun closing =>
    ∀ opening ∈ Brace.openings (text.bracesFrom 0),
      text.closingBraceAt? (opening + 1) ≠ some closing

/-- Offsets of the opening braces of a text that open no group: no closing brace is found. -/
def unmatchedOpenings (text : Text) : List Nat :=
  (Brace.openings (text.bracesFrom 0)).filter fun opening =>
    text.closingBraceAt? (opening + 1) = none

section Steps

/-- A backslash hides the character behind it. -/
theorem bracesFrom_hidden (offset : Nat) (escaped : Char) (rest : Text) :
    bracesFrom offset ('\\' :: escaped :: rest) =
      bracesFrom (offset + 1 + escaped.utf8Size) rest := by
  rw [bracesFrom.eq_def]
  exact if_pos rfl

/-- A brace that opens. -/
theorem bracesFrom_opening (offset : Nat) (rest : Text) :
    bracesFrom offset ('{' :: rest) = ⟨offset, true⟩ :: bracesFrom (offset + 1) rest := by
  rw [bracesFrom.eq_def]
  rfl

/-- A brace that closes. -/
theorem bracesFrom_closing (offset : Nat) (rest : Text) :
    bracesFrom offset ('}' :: rest) = ⟨offset, false⟩ :: bracesFrom (offset + 1) rest := by
  rw [bracesFrom.eq_def]
  rfl

/-- Any other character. -/
theorem bracesFrom_other {first : Char} (noBackslash : first ≠ '\\') (noOpening : first ≠ '{')
    (noClosing : first ≠ '}') (offset : Nat) (rest : Text) :
    bracesFrom offset (first :: rest) = bracesFrom (offset + first.utf8Size) rest := by
  rw [bracesFrom.eq_def]
  simp only [if_neg noBackslash, if_neg noOpening, if_neg noClosing]

end Steps

section Rows

variable {text : Text} {offset : Nat} {before after : List Brace} {brace : Brace}

/-- A brace of the row stands in the text, and those behind it in the row stand behind it. -/
theorem exists_of_bracesFrom (row : bracesFrom offset text = before ++ brace :: after) :
    ∃ front rest, text = front ++ brace.character :: rest ∧
      brace.offset = offset + front.byteLength ∧ after = bracesFrom (brace.offset + 1) rest := by
  fun_induction bracesFrom offset text generalizing before with
  | case1 => simp at row
  | case2 => simp at row
  | case3 offset escaped rest ih =>
    obtain ⟨front, behind, rfl, place, rfl⟩ := ih row
    refine ⟨'\\' :: escaped :: front, behind, rfl, ?_, rfl⟩
    rw [place, byteLength_cons, byteLength_cons]
    omega
  | case4 offset rest noBackslash ih =>
    cases before with
    | nil =>
      obtain ⟨rfl, rfl⟩ := List.cons.inj row
      exact ⟨[], rest, rfl, rfl, rfl⟩
    | cons first before =>
      obtain ⟨front, behind, rfl, place, rfl⟩ := ih (List.cons.inj row).2
      refine ⟨'{' :: front, behind, rfl, ?_, rfl⟩
      rw [place, byteLength_cons]
      omega
  | case5 offset rest noBackslash noOpening ih =>
    cases before with
    | nil =>
      obtain ⟨rfl, rfl⟩ := List.cons.inj row
      exact ⟨[], rest, rfl, rfl, rfl⟩
    | cons first before =>
      obtain ⟨front, behind, rfl, place, rfl⟩ := ih (List.cons.inj row).2
      refine ⟨'}' :: front, behind, rfl, ?_, rfl⟩
      rw [place, byteLength_cons]
      omega
  | case6 offset first rest noBackslash noOpening noClosing ih =>
    obtain ⟨front, behind, rfl, place, rfl⟩ := ih row
    refine ⟨first :: front, behind, rfl, ?_, rfl⟩
    rw [place, byteLength_cons]
    omega

/-- No brace of a text is in front of it. -/
theorem le_offset_of_mem_bracesFrom (mem : brace ∈ bracesFrom offset text) :
    offset ≤ brace.offset := by
  obtain ⟨before, after, row⟩ := List.append_of_mem mem
  obtain ⟨front, rest, -, place, -⟩ := exists_of_bracesFrom row
  omega

/-- The braces of a text are in order. -/
theorem bracesFrom_ordered (offset : Nat) (text : Text) :
    (bracesFrom offset text).Pairwise fun earlier later => earlier.offset < later.offset := by
  fun_induction bracesFrom offset text with
  | case1 => exact .nil
  | case2 => exact .nil
  | case3 _ _ _ ih => exact ih
  | case4 _ _ _ ih | case5 _ _ _ _ ih =>
    exact .cons (fun _ mem => le_offset_of_mem_bracesFrom mem) ih
  | case6 _ _ _ _ _ _ ih => exact ih

/-- The closing brace that a group is read up to is the one that is unopened in the row of its
inside and what is behind it, with the number of inner groups that are open before it. -/
theorem closeBracesFrom_eq (depth offset : Nat) (text : Text) :
    (Group.closeBracesFrom depth text).map (fun found => offset + found.1.byteLength) =
      (Brace.unopened (bracesFrom offset text))[depth]? := by
  have pushed (front : Text) (result : Option (Text × Text)) (offset : Nat) :
      (Group.push front result).map (fun found => offset + found.1.byteLength) =
        result.map fun found => offset + front.byteLength + found.1.byteLength := by
    cases result with
    | none => rfl
    | some found => simp [Group.push, Nat.add_assoc]
  fun_induction Group.closeBracesFrom depth text generalizing offset with
  | case1 => rfl
  | case2 => rfl
  | case3 depth escaped tail ih =>
    rw [pushed, ih, bracesFrom_hidden, Nat.add_assoc]
    rfl
  | case4 depth tail _ ih =>
    rw [pushed, ih, bracesFrom_opening, Brace.unopened, List.getElem?_tail]
    rfl
  | case5 tail =>
    rw [bracesFrom_closing]
    rfl
  | case6 tail _ _ depth ih =>
    rw [pushed, ih, bracesFrom_closing, Brace.unopened, List.getElem?_cons_succ]
    rfl
  | case7 depth first tail noBackslash noOpening noClosing ih =>
    rw [pushed, ih, bracesFrom_other noBackslash noOpening noClosing]
    rfl

/-- The closing brace of the group of an opening brace is the first one that is unopened behind
it. -/
theorem closingBraceAt?_of_bracesFrom
    (row : bracesFrom 0 text = before ++ ⟨offset, true⟩ :: after) :
    text.closingBraceAt? (offset + 1) = (Brace.unopened after).head? := by
  obtain ⟨front, rest, rfl, place, rfl⟩ := exists_of_bracesFrom row
  rw [Nat.zero_add] at place
  have inside : offset + 1 = byteLength (front ++ ['{']) := by
    rw [byteLength_append, ← place]
    rfl
  have whole : front ++ Brace.character ⟨offset, true⟩ :: rest = (front ++ ['{']) ++ rest := by
    rw [List.append_assoc]
    rfl
  have closed := closeBracesFrom_eq 0 (offset + 1) rest
  rw [← List.head?_eq_getElem?] at closed
  rw [← closed, closingBraceAt?, closingAt?, whole, inside, fromByte_byteLength,
    Group.Delimiters.close?, Group.closeBrace?]
  cases read : Group.closeBracesFrom 0 rest with
  | none => rfl
  | some found =>
    obtain ⟨inner, behind⟩ := found
    have place := offsetOf_append (front ++ ['{'] ++ inner) ('}' :: behind)
    rw [byteLength_append _ inner, List.append_assoc, ← Group.closeBracesFrom_eq_append read]
      at place
    exact congrArg some place

end Rows

end Text

namespace Brace

/-- The offset of the brace that closes the group of an opening brace of a row is the first that is
unopened behind it. -/
def Partners (partner? : Nat → Option Nat) (braces : List Brace) : Prop :=
  ∀ before offset after, braces = before ++ ⟨offset, true⟩ :: after →
    partner? offset = (unopened after).head?

section Partners

variable {partner? : Nat → Option Nat} {braces rest : List Brace} {brace : Brace}

/-- The braces behind the first have the partners that they have in the whole row. -/
theorem Partners.tail (partners : Partners partner? (brace :: rest)) : Partners partner? rest := by
  rintro before offset after rfl
  exact partners (brace :: before) offset after rfl

/-- The unopened braces of a row are closing braces of it. -/
theorem unopened_sublist (braces : List Brace) : (unopened braces).Sublist (closings braces) := by
  induction braces with
  | nil => exact .slnil
  | cons brace rest ih =>
    obtain ⟨offset, opens⟩ := brace
    cases opens with
    | true => exact (List.tail_sublist _).trans ih
    | false => exact ih.cons_cons offset

/-- The closing braces of a row in order are in order. -/
theorem closings_ordered
    (ordered : braces.Pairwise fun earlier later => earlier.offset < later.offset) :
    (closings braces).Pairwise (· < ·) := List.pairwise_map.2 (ordered.filter _)

/-- The partner of an opening brace is a closing brace of the row. -/
theorem Partners.mem (partners : Partners partner? braces) {opening closing : Nat}
    (mem : opening ∈ openings braces) (closes : partner? opening = some closing) :
    closing ∈ closings braces := by
  obtain ⟨brace, isOpening, rfl⟩ := List.mem_map.1 mem
  obtain ⟨isBrace, opens⟩ := List.mem_filter.1 isOpening
  obtain ⟨before, after, rfl⟩ := List.append_of_mem isBrace
  obtain ⟨offset, flag⟩ := brace
  cases opens
  rw [partners before offset after rfl] at closes
  have behind := (unopened_sublist after).subset (List.mem_of_mem_head? closes)
  simp only [closings, List.filter_append, List.map_append, List.mem_append]
  exact .inr behind

/-- Of different elements those other than the first are the tail. -/
theorem filter_ne_head? {elements : List Nat} (distinct : elements.Nodup) :
    elements.filter (fun element => elements.head? ≠ some element) = elements.tail := by
  cases elements with
  | nil => rfl
  | cons first more =>
    rw [List.nodup_cons] at distinct
    have others : ∀ element ∈ more, decide ((first :: more).head? ≠ some element) = true := by
      rintro element mem
      rw [List.head?_cons, decide_eq_true_eq, ne_eq, Option.some.injEq]
      rintro rfl
      exact distinct.1 mem
    rw [List.filter_cons_of_neg (by simp), List.filter_eq_self.2 others, List.tail_cons]

/-- A closing brace is unopened if it is the partner of no opening brace. -/
theorem unopened_eq_filter (partners : Partners partner? braces)
    (ordered : braces.Pairwise fun earlier later => earlier.offset < later.offset) :
    unopened braces = (closings braces).filter fun closing =>
      ∀ opening ∈ openings braces, partner? opening ≠ some closing := by
  induction braces with
  | nil => rfl
  | cons brace rest ih =>
    rw [List.pairwise_cons] at ordered
    obtain ⟨behind, ordered⟩ := ordered
    have further := ih partners.tail ordered
    obtain ⟨offset, opens⟩ := brace
    cases opens with
    | true =>
      -- The opening brace takes the first brace that is unopened behind it.
      have partner : partner? offset = (unopened rest).head? := partners [] offset rest rfl
      have distinct : (unopened rest).Nodup := ((closings_ordered ordered).imp Nat.ne_of_lt).sublist
        (unopened_sublist rest)
      have row : openings (⟨offset, true⟩ :: rest) = offset :: openings rest := rfl
      have same : closings (⟨offset, true⟩ :: rest) = closings rest := rfl
      rw [row, same, unopened, ← filter_ne_head? distinct]
      simp only [List.forall_mem_cons, partner, Bool.decide_and]
      rw [← List.filter_filter, ← further]
    | false =>
      -- No opening brace behind the closing brace is read up to it.
      have free : ∀ opening ∈ openings rest, partner? opening ≠ some offset := by
        intro opening mem closes
        obtain ⟨brace, isClosing, same⟩ := List.mem_map.1 (partners.tail.mem mem closes)
        have later := behind brace (List.mem_filter.1 isClosing).1
        rw [same] at later
        exact absurd later (Nat.lt_irrefl _)
      have row : openings (⟨offset, false⟩ :: rest) = openings rest := rfl
      have closing : closings (⟨offset, false⟩ :: rest) = offset :: closings rest := rfl
      rw [row, closing, unopened, List.filter_cons_of_pos (by simpa using free), ← further]

/-- An opening brace is unclosed if it has no partner. -/
theorem unclosed_eq_filter (partners : Partners partner? braces) :
    unclosed braces = (openings braces).filter fun opening => partner? opening = none := by
  induction braces with
  | nil => rfl
  | cons brace rest ih =>
    have further := ih partners.tail
    obtain ⟨offset, opens⟩ := brace
    cases opens with
    | true =>
      have partner : partner? offset = (unopened rest).head? := partners [] offset rest rfl
      have first : openings (⟨offset, true⟩ :: rest) = offset :: openings rest := rfl
      rw [first, List.filter_cons, partner, ← further, unclosed]
      simp only [List.head?_eq_none_iff, decide_eq_true_eq]
    | false => exact further

end Partners

end Brace

/-- The diagnostic on the braces that are open at the end of a text, if there are any: how many
there are, and the line of the outermost. -/
def unclosedDiagnostics (starts : List Nat) : List Nat → List Diagnostic
  | [] => []
  | outermost :: inner =>
    [.unclosedBraces (inner.length + 1) (Location.ofOffset starts outermost).line]

section Check

open Brace (unopened unclosed)
open Text (bracesFrom)

variable {starts opened : List Nat} {openLine : Nat}

/-- An opening brace is one more that is open, and the outermost if there was none. -/
theorem braceDiagnostics_opening (starts : List Nat) (offset depth openLine : Nat) (rest : Text) :
    braceDiagnostics starts offset depth openLine ('{' :: rest) =
      braceDiagnostics starts (offset + '{'.utf8Size) (depth + 1)
        (if depth = 0 then (Location.ofOffset starts offset).line else openLine) rest := by
  rw [braceDiagnostics.eq_def]
  rfl

/-- A closing brace where none is open is reported. -/
theorem braceDiagnostics_unopened (starts : List Nat) (offset openLine : Nat) (rest : Text) :
    braceDiagnostics starts offset 0 openLine ('}' :: rest) =
      .unmatchedBrace (Location.ofOffset starts offset) ::
        braceDiagnostics starts (offset + '}'.utf8Size) 0 openLine rest := by
  rw [braceDiagnostics.eq_def]
  rfl

/-- A closing brace closes the innermost that is open. -/
theorem braceDiagnostics_closing (starts : List Nat) (offset depth openLine : Nat) (rest : Text) :
    braceDiagnostics starts offset (depth + 1) openLine ('}' :: rest) =
      braceDiagnostics starts (offset + '}'.utf8Size) depth openLine rest := by
  rw [braceDiagnostics.eq_def]
  rfl

/-- What is said of braces that are open at the end, innermost first. -/
theorem unclosedDiagnostics_reverse
    (outermost : ∀ first ∈ opened.getLast?, openLine = (Location.ofOffset starts first).line) :
    (if opened.length = 0 then [] else [.unclosedBraces opened.length openLine]) =
      unclosedDiagnostics starts opened.reverse := by
  obtain rfl | ⟨inner, first, rfl⟩ := List.eq_nil_or_concat' opened
  · rfl
  · rw [outermost first (List.getLast?_concat ..), List.reverse_append]
    simp [unclosedDiagnostics]

/-- The check from a place on, where some braces are open, innermost first: they are closed by the
first of the braces that are unopened from there on, and the others are reported. -/
theorem braceDiagnostics_eq (offset : Nat) (text : Text)
    (outermost : ∀ first ∈ opened.getLast?, openLine = (Location.ofOffset starts first).line) :
    braceDiagnostics starts offset opened.length openLine text =
      ((unopened (bracesFrom offset text)).drop opened.length).map
          (fun closing => .unmatchedBrace (Location.ofOffset starts closing)) ++
        unclosedDiagnostics starts
          ((opened.drop (unopened (bracesFrom offset text)).length).reverse ++
            unclosed (bracesFrom offset text)) := by
  fun_induction bracesFrom offset text generalizing opened openLine with
  | case1 offset =>
    rw [braceDiagnostics, unclosedDiagnostics_reverse outermost]
    simp [unopened, unclosed]
  | case2 offset =>
    have last := unclosedDiagnostics_reverse outermost
    rw [braceDiagnostics.eq_def]
    simpa [unopened, unclosed] using last
  | case3 offset escaped rest ih =>
    rw [braceDiagnostics.eq_def]
    exact ih outermost
  | case4 offset rest noBackslash ih =>
    have outermostHere : ∀ first ∈ (offset :: opened).getLast?,
        (if opened.length = 0 then (Location.ofOffset starts offset).line else openLine) =
          (Location.ofOffset starts first).line := by
      intro first isLast
      cases opened with
      | nil =>
        cases isLast
        rfl
      | cons next opened => exact outermost first (by simpa using isLast)
    have further := ih outermostHere
    rw [List.length_cons] at further
    rw [braceDiagnostics_opening, further, unopened, unclosed]
    -- The brace is closed if the text behind it leaves a closing brace for it.
    cases unopened (bracesFrom (offset + '{'.utf8Size) rest) with
    | nil => simp
    | cons closing more => simp
  | case5 offset rest noBackslash noOpening ih =>
    cases opened with
    | nil =>
      have further := ih outermost
      rw [List.length_nil] at further
      rw [List.length_nil, braceDiagnostics_unopened, further]
      simp [unopened, unclosed]
    | cons innermost opened =>
      have outermostHere : ∀ first ∈ opened.getLast?,
          openLine = (Location.ofOffset starts first).line := by
        intro first isLast
        apply outermost first
        rw [List.getLast?_cons, isLast]
        rfl
      rw [List.length_cons, braceDiagnostics_closing, ih outermostHere]
      simp [unopened, unclosed]
  | case6 offset first rest noBackslash noOpening noClosing ih =>
    rw [braceDiagnostics.eq_def]
    simp only [if_neg noBackslash, if_neg noOpening, if_neg noClosing]
    exact ih outermost

/-- The check of a whole text starts with no open brace. -/
theorem checkBraces_eq_unopened (starts : List Nat) (text : Text) :
    checkBraces starts text =
      (unopened (bracesFrom 0 text)).map
          (fun closing => .unmatchedBrace (Location.ofOffset starts closing)) ++
        unclosedDiagnostics starts (unclosed (bracesFrom 0 text)) := by
  have outermost : ∀ first ∈ ([] : List Nat).getLast?,
      0 = (Location.ofOffset starts first).line := by simp
  have check := braceDiagnostics_eq 0 text outermost
  rw [checkBraces]
  simpa only [List.length_nil, List.drop_zero, List.drop_nil, List.reverse_nil,
    List.nil_append] using check

end Check

namespace Text

/-- The partners of the braces of a text are those that its groups are read up to. -/
theorem partners_closingBraceAt? (text : Text) :
    Brace.Partners (fun opening => text.closingBraceAt? (opening + 1)) (bracesFrom 0 text) :=
  fun _ _ _ => closingBraceAt?_of_bracesFrom

/-- The closing braces of a text that close no group are the unopened ones. -/
theorem unmatchedClosings_eq (text : Text) :
    text.unmatchedClosings = Brace.unopened (bracesFrom 0 text) :=
  (Brace.unopened_eq_filter (partners_closingBraceAt? text) (bracesFrom_ordered 0 text)).symm

/-- The opening braces of a text that open no group are the unclosed ones. -/
theorem unmatchedOpenings_eq (text : Text) :
    text.unmatchedOpenings = Brace.unclosed (bracesFrom 0 text) :=
  (Brace.unclosed_eq_filter (partners_closingBraceAt? text)).symm

end Text

/-- The check of braces reports the closing braces that no group is read up to, each at its place
and in the order of the text, and then, if there are opening braces from which no closing brace is
found, how many there are and on which line the first of them stands. It reports nothing else. -/
theorem brace_check_agrees_with_groups (starts : List Nat) (text : Text) :
    checkBraces starts text =
      text.unmatchedClosings.map
          (fun closing => .unmatchedBrace (Location.ofOffset starts closing)) ++
        unclosedDiagnostics starts text.unmatchedOpenings := by
  rw [checkBraces_eq_unopened, Text.unmatchedClosings_eq, Text.unmatchedOpenings_eq]

-- A closing brace too many, an opening brace that is not closed, and one that is.
example : let text : Text := "\\\x7b\x7d\x7b\x7bé\\\x7d\x7d".toList
    text.unmatchedClosings = [2] ∧ text.unmatchedOpenings = [3] := by
  decide +kernel

end TexStatements
