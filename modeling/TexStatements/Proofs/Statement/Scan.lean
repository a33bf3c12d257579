import Mathlib.Data.List.Sort
import TexStatements.Proofs.Statement.Outline
import TexStatements.Statement.Occurrence

/-!
# Scanning outlines

The search for the regions of one environment and the scan of canonical tags with a stack both
find the environments of an outline: the search those of its name, in the text, and the scan all
of them, in the spelling with canonical tags. Ordered by their opening tags, both give one region
for each environment, and the regions of the two correspond.
-/
namespace TexStatements

/-- Sorting by keys leaves the keys in order. -/
theorem mergeSort_ordered {α : Type} (key : α → Nat) (elements : List α) :
    (elements.mergeSort fun left right => key left ≤ key right).Pairwise
      fun left right => key left ≤ key right := by
  have arranged : (elements.mergeSort fun left right => key left ≤ key right).Pairwise
      fun left right => decide (key left ≤ key right) = true := List.pairwise_mergeSort
    (fun first second third below above => by
      simp only [decide_eq_true_eq] at below above ⊢
      exact Nat.le_trans below above)
    (fun first second => by simpa using Nat.le_total (key first) (key second)) elements
  simpa only [decide_eq_true_eq] using arranged

/-- Elements that are sorted by their keys already, up to their order, are sorted to themselves. -/
theorem mergeSort_eq_of_perm {α : Type} {key : α → Nat} {elements sorted : List α}
    (perm : elements.Perm sorted)
    (ordered : sorted.Pairwise fun left right => key left < key right) :
    elements.mergeSort (fun left right => key left ≤ key right) = sorted := by
  have weakly : sorted.Pairwise fun left right => key left ≤ key right :=
    ordered.imp Nat.le_of_lt
  have distinct : (sorted.map key).Nodup :=
    List.pairwise_map.2 (ordered.imp Nat.ne_of_lt)
  have toSorted := (List.mergeSort_perm elements fun left right => key left ≤ key right).trans perm
  refine List.Perm.eq_of_pairwise ?_ (mergeSort_ordered key elements) weakly toSorted
  intro left right isLeft isRight below above
  exact List.inj_on_of_nodup_map distinct (toSorted.mem_iff.1 isLeft) isRight
    (Nat.le_antisymm below above)

namespace EnvironmentScan

open Environment

/-- Cutting a text at a tag is finding the tag. -/
theorem cut?_tag (part : End) (name text : Text) :
    Text.cut? (part.tag name) text =
      ((tagReader part name).find? text).map fun (front, found) => (front, found.rest) := by
  induction text with
  | nil => simp [Text.cut?, Reader.find?, End.tag, Text.dropLiteral?]
  | cons first tail ih =>
    rw [Text.cut?, Reader.find?]
    cases dropped : Text.dropLiteral? (part.tag name) (first :: tail) with
    | some after => simp [tagReader, Reader.literal, dropped]
    | none => simp [tagReader, Reader.literal, dropped, ih, Function.comp_def]

section

variable {opening closing text front inside body rest : Text} {nonempty : opening ≠ []}

/-- A scan in which the opening tag is not found finds nothing. -/
theorem ofTags_of_absent (start : Nat) (absent : Text.cut? opening text = none) :
    ofTags opening closing nonempty start text = ⟨[], false⟩ := by
  rw [ofTags.eq_def]
  split
  · rfl
  · rename_i located
    rw [absent] at located
    cases located

/-- A scan in which the closing tag is not found ends there. -/
theorem ofTags_of_unclosed (start : Nat) (opened : Text.cut? opening text = some (front, inside))
    (unclosed : Text.cut? closing inside = none) :
    ofTags opening closing nonempty start text = ⟨[], true⟩ := by
  rw [ofTags.eq_def]
  split
  · rename_i located
    rw [opened] at located
    cases located
  · rename_i located
    rw [opened] at located
    cases located
    split
    · rfl
    · rename_i closed
      rw [unclosed] at closed
      cases closed

/-- A scan in which both tags are found goes on behind the region. -/
theorem ofTags_of_closed (start : Nat) (opened : Text.cut? opening text = some (front, inside))
    (closed : Text.cut? closing inside = some (body, rest)) :
    ofTags opening closing nonempty start text =
      let offset := start + front.byteLength
      let stop := offset + (opening ++ body ++ closing).byteLength
      let further := ofTags opening closing nonempty stop rest
      { further with regions := ⟨offset, stop, body⟩ :: further.regions } := by
  rw [ofTags.eq_def]
  split
  · rename_i located
    rw [opened] at located
    cases located
  · rename_i located
    rw [opened] at located
    cases located
    split
    · rename_i ended
      rw [closed] at ended
      cases ended
    · rename_i ended
      rw [closed] at ended
      cases ended
      rfl

/-- A region has its opening tag before its body and the next closing tag behind it. -/
theorem exists_region (closes : closing ≠ []) (start : Nat) :
    ∀ found ∈ (ofTags opening closing nonempty start text).regions, ∃ front rest,
      text = front ++ (opening ++ (found.body ++ (closing ++ rest))) ∧
        found.offset = start + front.byteLength ∧
        found.stop = found.offset + (opening ++ found.body ++ closing).byteLength ∧
        ¬ closing <:+: found.body := by
  fun_induction ofTags opening closing nonempty start text with
  | case1 => simp
  | case2 => simp
  | case3 start text front inside located body rest closed offset stop further ih =>
    have whole := Text.cut?_eq_append located
    have group := Text.cut?_eq_append closed
    intro found mem
    rcases List.mem_cons.1 mem with rfl | later
    · exact ⟨front, rest, by simp [whole, group], rfl, rfl, Text.not_infix_of_cut? closes closed⟩
    · obtain ⟨before, behind, rfl, place, size, first⟩ := ih found later
      refine ⟨front ++ opening ++ body ++ closing ++ before, behind, ?_, ?_, size, first⟩
      · simp [whole, group]
      · rw [place]
        simp only [stop, offset, Text.byteLength_append]
        omega

/-- The regions of one environment stand one behind the other. -/
theorem pairwise_stop (closes : closing ≠ []) (start : Nat) :
    (ofTags opening closing nonempty start text).regions.Pairwise
      fun earlier later => earlier.stop ≤ later.offset := by
  fun_induction ofTags opening closing nonempty start text with
  | case1 => exact List.Pairwise.nil
  | case2 => exact List.Pairwise.nil
  | case3 start text front inside located body rest closed offset stop further ih =>
    refine List.pairwise_cons.2 ⟨fun later mem => ?_, ih⟩
    obtain ⟨before, -, -, place, -⟩ := exists_region closes stop later mem
    rw [place]
    exact Nat.le_add_right _ _

/-- A region has some bytes. -/
theorem offset_lt_stop (closes : closing ≠ []) (start : Nat) :
    ∀ found ∈ (ofTags opening closing nonempty start text).regions, found.offset < found.stop := by
  intro found mem
  obtain ⟨-, -, -, -, size, -⟩ := exists_region closes start found mem
  have positive := Text.byteLength_pos nonempty
  rw [size]
  simp only [Text.byteLength_append]
  omega

/-- The regions of one environment start one behind the other. -/
theorem pairwise_offset (closes : closing ≠ []) (start : Nat) :
    (ofTags opening closing nonempty start text).regions.Pairwise
      fun earlier later => earlier.offset < later.offset :=
  (pairwise_stop closes start).imp_of_mem fun mem _ behind =>
    Nat.lt_of_lt_of_le (offset_lt_stop closes start _ mem) behind

end

/-- Scan a text that starts at a byte offset for the regions of an environment. -/
def ofNameAt (name : Text) (start : Nat) (text : Text) : EnvironmentScan :=
  ofTags (End.opening.tag name) (End.closing.tag name) (End.tag_ne_nil .opening name) start text

/-- A scan with regions in front of those that it has found. -/
def behind (scan : EnvironmentScan) (regions : List EnvironmentRegion) : EnvironmentScan :=
  { scan with regions := regions ++ scan.regions }

/-- A front without the opening tag only moves the scan. -/
theorem ofNameAt_append {name front rest : Text} (start : Nat)
    (silent : (tagReader .opening name).SilentOver front rest) :
    ofNameAt name start (front ++ rest) = ofNameAt name (start + front.byteLength) rest := by
  have found : Text.cut? (End.opening.tag name) (front ++ rest) =
      (Text.cut? (End.opening.tag name) rest).map fun place => (front ++ place.1, place.2) := by
    rw [cut?_tag, cut?_tag, Reader.find?_append silent]
    simp [Function.comp_def]
  cases located : Text.cut? (End.opening.tag name) rest with
  | none =>
    rw [located] at found
    rw [ofNameAt, ofNameAt, ofTags_of_absent start found, ofTags_of_absent _ located]
  | some place =>
    obtain ⟨before, inside⟩ := place
    rw [located] at found
    cases ended : Text.cut? (End.closing.tag name) inside with
    | none =>
      rw [ofNameAt, ofNameAt, ofTags_of_unclosed start found ended,
        ofTags_of_unclosed _ located ended]
    | some body =>
      rw [ofNameAt, ofNameAt, ofTags_of_closed start found ended,
        ofTags_of_closed _ located ended]
      simp only [Text.byteLength_append, Nat.add_assoc]

/-- A region at the start of a text is the first of the scan. -/
theorem ofNameAt_region {name body rest : Text} (start : Nat)
    (silent : (tagReader .closing name).SilentOver body (End.closing.tag name ++ rest)) :
    ofNameAt name start (End.opening.tag name ++ (body ++ (End.closing.tag name ++ rest))) =
      let stop := start + (End.opening.tag name ++ body ++ End.closing.tag name).byteLength
      (ofNameAt name stop rest).behind [⟨start, stop, body⟩] := by
  have opened : Text.cut? (End.opening.tag name)
      (End.opening.tag name ++ (body ++ (End.closing.tag name ++ rest))) =
        some ([], body ++ (End.closing.tag name ++ rest)) := by
    rw [cut?_tag, Reader.find?_of_read (tagReader_read .opening name _)]
    rfl
  have closed : Text.cut? (End.closing.tag name) (body ++ (End.closing.tag name ++ rest)) =
      some (body, rest) := by
    rw [cut?_tag, Reader.find?_append silent,
      Reader.find?_of_read (tagReader_read .closing name rest)]
    simp
  rw [ofNameAt, ofTags_of_closed start opened closed]
  rfl

end EnvironmentScan

namespace StatementRegion

open Environment

/-- A canonical tag is read where it stands. -/
theorem tag_read (part : End) (rest : Text) :
    tag.read (part.tag canonicalEnvironment ++ rest) = some (part, rest) := by
  have spellable := spellable_canonicalEnvironment
  cases part with
  | opening =>
    change readTag (beginTag canonicalEnvironment ++ rest) = _
    rw [readTag, Text.dropLiteral?_eq_some_iff.2 rfl]
  | closing =>
    change readTag (endTag canonicalEnvironment ++ rest) = _
    rw [readTag]
    cases dropped : Text.dropLiteral? (beginTag canonicalEnvironment)
        (endTag canonicalEnvironment ++ rest) with
    | none => rw [Text.dropLiteral?_eq_some_iff.2 rfl, Option.map_some]
    | some tail =>
      have whole := Text.dropLiteral?_eq_some_iff.1 dropped
      cases (End.tag_append_inj spellable spellable whole).1

/-- A front in which no canonical tag occurs is passed over. -/
theorem tag_silentOver {front rest : Text}
    (absent : ∀ part, ¬ End.tag part canonicalEnvironment <:+: front) (starts : rest.AtCommand) :
    tag.SilentOver front rest := by
  intro place suffix nonempty
  cases read : tag.read (place ++ rest) with
  | none => rfl
  | some found =>
    obtain ⟨part, tail⟩ := found
    have whole := readTag_eq_append read
    have silent := tagReader_silentOver spellable_canonicalEnvironment (absent part) starts place
      suffix nonempty
    rw [whole, tagReader_read] at silent
    cases silent

/-- An opening tag is open from there on. -/
theorem ofTags_opening (bytes : Nat) (opened more : List (Found End)) (place rest : Text) :
    ofTags bytes opened (⟨place, .opening, rest⟩ :: more) =
      ofTags bytes (⟨place, .opening, rest⟩ :: opened) more := by
  rw [ofTags.eq_def]

/-- A closing tag closes the innermost tag that is open. -/
theorem ofTags_closing (bytes : Nat) (outer more : List (Found End)) (opening : Found End)
    (place rest : Text) :
    ofTags bytes (opening :: outer) (⟨place, .closing, rest⟩ :: more) =
      let start := Text.offsetIn bytes opening.place
      let bodyStart := start + openingBytes
      let bodyStop := Text.offsetIn bytes place
      ⟨start, bodyStart, bodyStop, opening.rest.frontBytes (bodyStop - bodyStart)⟩ ::
        ofTags bytes outer more := by
  rw [ofTags.eq_def]

end StatementRegion

namespace Outline

open Environment

/-- Byte offsets of the opening tags, in order, in a text that starts at an offset. -/
def startsFrom (rename : End → Text → Text) (start : Nat) : Outline → List Nat
  | plain _ => []
  | environment front name inside after =>
    let offset := start + front.byteLength
    let bodyStart := offset + (End.opening.tag (rename .opening name)).byteLength
    let bodyStop := bodyStart + (inside.spell rename).byteLength
    let stop := bodyStop + (End.closing.tag (rename .closing name)).byteLength
    offset :: (inside.startsFrom rename bodyStart ++ after.startsFrom rename stop)

/-- The environments as occurrences, in the order of their opening tags, in a text that starts at
an offset. -/
def occurrencesFrom (start : Nat) : Outline → List Occurrence
  | plain _ => []
  | environment front name inside after =>
    let offset := start + front.byteLength
    let bodyStart := offset + (End.opening.tag name).byteLength
    let bodyStop := bodyStart + inside.text.byteLength
    let stop := bodyStop + (End.closing.tag name).byteLength
    ⟨name, offset, stop, inside.text, .main, 0⟩ ::
      (inside.occurrencesFrom bodyStart ++ after.occurrencesFrom stop)

/-- The environments as regions of canonical tags, in the order of their opening tags, in a text
that starts at an offset. -/
def regionsFrom (start : Nat) : Outline → List StatementRegion
  | plain _ => []
  | environment front _ inside after =>
    let offset := start + front.byteLength
    let bodyStart := offset + StatementRegion.openingBytes
    let bodyStop := bodyStart + inside.canonical.byteLength
    let stop := bodyStop + (endTag canonicalEnvironment).byteLength
    ⟨offset, bodyStart, bodyStop, inside.canonical⟩ ::
      (inside.regionsFrom bodyStart ++ after.regionsFrom stop)

/-- Occurrences start at the opening tags of the text. -/
theorem map_offset_occurrencesFrom (start : Nat) (outline : Outline) :
    (outline.occurrencesFrom start).map (·.offset) =
      outline.startsFrom (fun _ name => name) start := by
  induction outline generalizing start with
  | plain text => rfl
  | environment front name inside after ihInside ihAfter =>
    simp [occurrencesFrom, startsFrom, ihInside, ihAfter, text]

/-- Regions start at the opening tags of the spelling with canonical tags. -/
theorem map_start_regionsFrom (start : Nat) (outline : Outline) :
    (outline.regionsFrom start).map (·.start) =
      outline.startsFrom (fun _ _ => canonicalEnvironment) start := by
  induction outline generalizing start with
  | plain text => rfl
  | environment front name inside after ihInside ihAfter =>
    simp [regionsFrom, startsFrom, ihInside, ihAfter, canonical, StatementRegion.openingBytes,
      beginTag, endTag]

/-- A tag takes some bytes. -/
theorem byteLength_tag_pos (part : End) (name : Text) : 0 < (part.tag name).byteLength :=
  Text.byteLength_pos (part.tag_ne_nil name)

/-- Opening tags lie in the text of the outline. -/
theorem mem_startsFrom {rename : End → Text → Text} {outline : Outline} {start offset : Nat}
    (mem : offset ∈ outline.startsFrom rename start) :
    start ≤ offset ∧ offset < start + (outline.spell rename).byteLength := by
  induction outline generalizing start with
  | plain text => simp [startsFrom] at mem
  | environment front name inside after ihInside ihAfter =>
    have opened := byteLength_tag_pos .opening (rename .opening name)
    simp only [spell, Text.byteLength_append]
    simp only [startsFrom, List.mem_cons, List.mem_append] at mem
    rcases mem with rfl | isInside | isAfter
    · omega
    · have bounds := ihInside isInside
      omega
    · have bounds := ihAfter isAfter
      omega

/-- Opening tags are listed in order. -/
theorem pairwise_startsFrom (rename : End → Text → Text) (start : Nat) (outline : Outline) :
    (outline.startsFrom rename start).Pairwise (· < ·) := by
  induction outline generalizing start with
  | plain text => exact List.Pairwise.nil
  | environment front name inside after ihInside ihAfter =>
    have opened := byteLength_tag_pos .opening (rename .opening name)
    rw [startsFrom, List.pairwise_cons, List.pairwise_append]
    refine ⟨?_, ihInside _, ihAfter _, ?_⟩
    · intro offset mem
      rcases List.mem_append.1 mem with isInside | isAfter
      · have bounds := mem_startsFrom isInside
        omega
      · have bounds := mem_startsFrom isAfter
        omega
    · intro first isInside second isAfter
      have below := mem_startsFrom isInside
      have above := mem_startsFrom isAfter
      omega

/-- Occurrences of an outline carry the names of its environments. -/
theorem map_environment_occurrencesFrom (start : Nat) (outline : Outline) :
    (outline.occurrencesFrom start).map (·.environment) = outline.names := by
  induction outline generalizing start with
  | plain text => rfl
  | environment front name inside after ihInside ihAfter =>
    simp [occurrencesFrom, names, ihInside, ihAfter]

/-- The regions of one environment in an outline whose text starts at an offset. -/
def regionsOf (name : Text) (start : Nat) (outline : Outline) : List EnvironmentRegion :=
  ((outline.occurrencesFrom start).filter (·.environment = name)).map fun found =>
    ⟨found.offset, found.stop, found.body⟩

/-- Occurrences of an outline are not yet placed in a part of the document. -/
theorem unplaced_occurrencesFrom {start : Nat} {outline : Outline} {found : Occurrence}
    (mem : found ∈ outline.occurrencesFrom start) : found.region = .main ∧ found.index = 0 := by
  induction outline generalizing start with
  | plain text => cases mem
  | environment front name inside after ihInside ihAfter =>
    rw [occurrencesFrom, List.mem_cons, List.mem_append] at mem
    rcases mem with rfl | isInside | isAfter
    · exact ⟨rfl, rfl⟩
    · exact ihInside isInside
    · exact ihAfter isAfter

/-- The regions of one environment, as occurrences, are its occurrences. -/
theorem occurrences_regionsOf (name : Text) (start : Nat) (outline : Outline) (unclosed : Bool) :
    (EnvironmentScan.mk (outline.regionsOf name start) unclosed).occurrences name =
      (outline.occurrencesFrom start).filter (·.environment = name) := by
  rw [EnvironmentScan.occurrences, regionsOf, List.map_map]
  refine (List.map_congr_left ?_).trans (List.map_id _)
  intro found mem
  obtain ⟨isFound, same⟩ := List.mem_filter.1 mem
  obtain ⟨unplaced, zero⟩ := unplaced_occurrencesFrom isFound
  cases found
  simp_all

/-- An environment that does not occur in an outline has no region there. -/
theorem regionsOf_of_not_mem {name : Text} {outline : Outline} (start : Nat)
    (absent : name ∉ outline.names) : outline.regionsOf name start = [] := by
  have none : (outline.occurrencesFrom start).filter (·.environment = name) = [] := by
    rw [List.filter_eq_nil_iff]
    intro found mem same
    have occurs := List.mem_map_of_mem (f := Occurrence.environment) mem
    rw [map_environment_occurrencesFrom, of_decide_eq_true same] at occurs
    exact absent occurs
  rw [regionsOf, none, List.map_nil]

/-- The scan for one environment gives its regions in the outline, and goes on behind it. -/
theorem scan_text {outline : Outline} {name tail : Text} (start : Nat)
    (spellable : Spellable name) (readable : ∀ other ∈ outline.names, Spellable other)
    (between : outline.Between fun text => ∀ part, ¬ End.tag part name <:+: text)
    (unnested : outline.Unnested) (starts : tail.AtCommand) :
    EnvironmentScan.ofNameAt name start (outline.text ++ tail) =
      (EnvironmentScan.ofNameAt name (start + outline.text.byteLength) tail).behind
        (outline.regionsOf name start) := by
  induction outline generalizing start tail with
  | plain text =>
    have silent := tagReader_silentOver spellable (between .opening) starts
    exact EnvironmentScan.ofNameAt_append start silent
  | environment front own inside after ihInside ihAfter =>
    obtain ⟨outside, unnestedInside, unnestedAfter⟩ := unnested
    simp only [names, List.mem_cons, List.mem_append, or_imp, forall_and, forall_eq] at readable
    obtain ⟨readableOwn, readableInside, readableAfter⟩ := readable
    have silentFront rest : (tagReader .opening name).SilentOver front
        (End.opening.tag own ++ rest) :=
      tagReader_silentOver spellable (between.1 .opening) (End.atCommand_tag _ _ _)
    have laterAfter start := ihAfter start readableAfter between.2.2 unnestedAfter starts
    simp only [text_environment, List.append_assoc]
    rw [EnvironmentScan.ofNameAt_append start (silentFront _)]
    by_cases same : own = name
    · subst same
      have silentInside rest : (tagReader .closing own).SilentOver inside.text
          (End.closing.tag own ++ rest) := by
        refine silentOver_spell (between.2.1.mono fun text free rest starts =>
          tagReader_silentOver spellable (free .closing) starts) ?_ (End.atCommand_tag _ _ _)
        intro part other occurs rest
        refine tagReader_silentOver_tag spellable (readableInside other occurs) ?_
        rintro - rfl
        exact outside occurs
      have none := regionsOf_of_not_mem
        (start + front.byteLength + (End.opening.tag own).byteLength) outside
      rw [EnvironmentScan.ofNameAt_region _ (silentInside _)]
      simp only [regionsOf, Nat.add_assoc] at none
      simp [laterAfter, EnvironmentScan.behind, regionsOf, occurrencesFrom, none, Nat.add_assoc]
    · have silentTag part rest : (tagReader .opening name).SilentOver (End.tag part own) rest :=
        tagReader_silentOver_tag spellable readableOwn fun _ equal => same equal.symm
      rw [EnvironmentScan.ofNameAt_append _ (silentTag .opening _),
        ihInside _ readableInside between.2.1 unnestedInside (End.atCommand_tag _ _ _),
        EnvironmentScan.ofNameAt_append _ (silentTag .closing _), laterAfter]
      simp [EnvironmentScan.behind, regionsOf, occurrencesFrom, same, Nat.add_assoc]

/-- The scan of canonical tags closes every environment of an outline, whatever is open around
it, and goes on behind it. -/
theorem ofTags_canonical {outline : Outline} {bytes : Nat} (start : Nat) (tail : Text)
    (opened : List (Found End))
    (between : outline.Between fun text =>
      ∀ part, ¬ End.tag part canonicalEnvironment <:+: text)
    (starts : tail.AtCommand)
    (size : bytes = start + (outline.canonical ++ tail).byteLength) :
    ∃ found, found.Perm (outline.regionsFrom start) ∧
      StatementRegion.ofTags bytes opened
        (StatementRegion.tag.occurrences (outline.canonical ++ tail)) =
      found ++ StatementRegion.ofTags bytes opened (StatementRegion.tag.occurrences tail) := by
  induction outline generalizing start tail opened with
  | plain text =>
    refine ⟨[], List.Perm.nil, ?_⟩
    rw [canonical_plain, Reader.occurrences_append (StatementRegion.tag_silentOver between starts),
      List.nil_append]
  | environment front name inside after ihInside ihAfter =>
    have silent rest : StatementRegion.tag.SilentOver front
        (End.opening.tag canonicalEnvironment ++ rest) :=
      StatementRegion.tag_silentOver between.1 (End.atCommand_tag _ _ _)
    simp only [canonical_environment, List.append_assoc, Text.byteLength_append] at size ⊢
    obtain ⟨foundInside, permInside, scanInside⟩ := ihInside
      (start + front.byteLength + (End.opening.tag canonicalEnvironment).byteLength)
      (End.closing.tag canonicalEnvironment ++ (after.canonical ++ tail))
      (⟨End.opening.tag canonicalEnvironment ++ (inside.canonical ++
        (End.closing.tag canonicalEnvironment ++ (after.canonical ++ tail))), .opening, _⟩ ::
          opened)
      between.2.1 (End.atCommand_tag _ _ _) (by simp only [Text.byteLength_append]; omega)
    obtain ⟨foundAfter, permAfter, scanAfter⟩ := ihAfter
      (start + front.byteLength + (End.opening.tag canonicalEnvironment).byteLength +
        inside.canonical.byteLength + (End.closing.tag canonicalEnvironment).byteLength)
      tail opened between.2.2 starts (by simp only [Text.byteLength_append]; omega)
    rw [Reader.occurrences_append (silent _),
      Reader.occurrences_of_read (StatementRegion.tag_read .opening _),
      StatementRegion.ofTags_opening, scanInside,
      Reader.occurrences_of_read (StatementRegion.tag_read .closing _),
      StatementRegion.ofTags_closing, scanAfter]
    have offset : Text.offsetIn bytes (End.opening.tag canonicalEnvironment ++
        (inside.canonical ++ (End.closing.tag canonicalEnvironment ++
          (after.canonical ++ tail)))) = start + front.byteLength := by
      simp only [Text.offsetIn, Text.byteLength_append]
      omega
    have bodyStop : Text.offsetIn bytes (End.closing.tag canonicalEnvironment ++
        (after.canonical ++ tail)) = start + front.byteLength + StatementRegion.openingBytes +
          inside.canonical.byteLength := by
      simp only [Text.offsetIn, StatementRegion.openingBytes, beginTag, Text.byteLength_append]
      omega
    simp only [offset, bodyStop, Nat.add_sub_cancel_left, Text.frontBytes_byteLength]
    refine ⟨foundInside ++ ⟨start + front.byteLength, _, _, inside.canonical⟩ :: foundAfter, ?_,
      by rw [List.append_assoc, List.cons_append]⟩
    exact List.perm_middle.trans ((permInside.append permAfter).cons _)

/-- The regions of an outline with canonical tags are those of its environments, in order. -/
theorem ofText_canonical {outline : Outline}
    (between : outline.Between fun text =>
      ∀ part, ¬ End.tag part canonicalEnvironment <:+: text) :
    StatementRegion.ofText outline.canonical = outline.regionsFrom 0 := by
  obtain ⟨found, perm, scan⟩ := ofTags_canonical 0 [] [] between
    Text.atCommand_nil (Nat.zero_add _).symm
  rw [List.append_nil, Reader.occurrences, StatementRegion.ofTags, List.append_nil] at scan
  rw [StatementRegion.ofText, scan]
  refine mergeSort_eq_of_perm perm (List.pairwise_map.1 ?_)
  rw [map_start_regionsFrom]
  exact pairwise_startsFrom _ _ _

/-- The elements of a list, collected by the values of a function, are the list. -/
theorem flatMap_filter_perm {α β : Type} [DecidableEq β] (value : α → β) {values : List β}
    (distinct : values.Nodup) (elements : List α)
    (covered : ∀ element ∈ elements, value element ∈ values) :
    (values.flatMap fun one => elements.filter (value · = one)).Perm elements := by
  induction values generalizing elements with
  | nil =>
    cases elements with
    | nil => exact List.Perm.nil
    | cons element _ => cases covered element (List.mem_cons_self ..)
  | cons one values ih =>
    obtain ⟨fresh, distinct⟩ := List.nodup_cons.1 distinct
    have others := ih distinct (elements.filter fun element => !(value element = one))
      (by
        intro element mem
        obtain ⟨isElement, different⟩ := List.mem_filter.1 mem
        have listed := List.mem_cons.1 (covered element isElement)
        exact listed.resolve_left (by simpa using different))
    have same : (values.flatMap fun other => elements.filter (value · = other)) =
        values.flatMap fun other =>
          (elements.filter fun element => !(value element = one)).filter (value · = other) := by
      refine List.flatMap_congr fun other isOther => ?_
      rw [List.filter_filter]
      refine List.filter_congr fun element _ => ?_
      have different : other ≠ one := fun equal => fresh (equal ▸ isOther)
      by_cases equal : value element = other
      · simp [equal, different]
      · simp [equal]
    rw [List.flatMap_cons, same]
    exact ((List.Perm.refl _).append others).trans (List.filter_append_perm _ elements)

/-- The scans for the listed environments give all occurrences of an outline. -/
theorem scans_text {outline : Outline} {environments : List Text} (distinct : environments.Nodup)
    (spellable : ∀ name ∈ environments, Spellable name)
    (between : outline.Between fun text =>
      ∀ part, ∀ name ∈ environments, ¬ End.tag part name <:+: text)
    (listed : ∀ name ∈ outline.names, name ∈ environments) (unnested : outline.Unnested) :
    (environments.flatMap fun name =>
      (EnvironmentScan.ofName name outline.text).warnings name) = [] ∧
    (environments.flatMap fun name =>
      (EnvironmentScan.ofName name outline.text).occurrences name).mergeSort
        (fun left right => left.offset ≤ right.offset) = outline.occurrencesFrom 0 := by
  have scan : ∀ name ∈ environments,
      EnvironmentScan.ofName name outline.text = ⟨outline.regionsOf name 0, false⟩ := by
    intro name isListed
    have found := scan_text 0 (spellable name isListed)
      (fun other occurs => spellable other (listed other occurs))
      (between.mono fun text free part => free part name isListed) unnested Text.atCommand_nil
    have absent : Text.cut? (End.opening.tag name) [] = none := by
      simp [EnvironmentScan.cut?_tag, Reader.find?]
    rw [List.append_nil, EnvironmentScan.ofNameAt, EnvironmentScan.ofNameAt,
      EnvironmentScan.ofTags_of_absent _ absent] at found
    exact found.trans (by rw [EnvironmentScan.behind, List.append_nil])
  constructor
  · rw [List.flatMap_eq_nil_iff]
    intro name isListed
    rw [scan name isListed]
    rfl
  · have gathered : (environments.flatMap fun name =>
        (EnvironmentScan.ofName name outline.text).occurrences name) =
        environments.flatMap fun name =>
          (outline.occurrencesFrom 0).filter (·.environment = name) := by
      refine List.flatMap_congr fun name isListed => ?_
      rw [scan name isListed]
      exact occurrences_regionsOf name 0 outline false
    rw [gathered]
    have covered : ∀ found ∈ outline.occurrencesFrom 0, found.environment ∈ environments := by
      intro found mem
      have occurs := List.mem_map_of_mem (f := Occurrence.environment) mem
      rw [map_environment_occurrencesFrom] at occurs
      exact listed _ occurs
    refine mergeSort_eq_of_perm (flatMap_filter_perm _ distinct _ covered) (List.pairwise_map.1 ?_)
    rw [map_offset_occurrencesFrom]
    exact pairwise_startsFrom _ _ _

end Outline
end TexStatements
