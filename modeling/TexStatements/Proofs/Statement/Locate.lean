import Mathlib.Data.List.TakeWhile
import TexStatements.Proofs.Extraction.Records
import TexStatements.Proofs.Group.Position
import TexStatements.Proofs.Statement.Permuted

/-!
# What the search for occurrences finds

Each environment is searched for on its own, and a closing tag is looked for only behind the opening
tag that it closes. Since a tag has its only backslash at its start, no two tags overlap, so every
opening tag is either passed by the search, where a region starts or inside of one, or lies behind
the last closing tag. The occurrences of all environments together are then those of each, in the
order of the text.
-/
namespace TexStatements

namespace Environment

variable {part other : End} {name foreign front rest tail : Text}

/-- A tag behind the start of another one is behind all of it. -/
theorem tag_behind_tag (spellable : Spellable name)
    (same : part.tag name ++ tail = front ++ (other.tag foreign ++ rest)) :
    front = [] ∨ ∃ between, front = part.tag name ++ between ∧
      tail = between ++ (other.tag foreign ++ rest) := by
  cases front with
  | nil => exact .inl rfl
  | cons first more =>
    rw [End.tag_eq_cons part, End.tag_eq_cons other, List.cons_append, List.cons_append,
      List.cons.injEq] at same
    obtain ⟨between, inside, behind⟩ :=
      Text.append_of_not_mem (part.backslash_not_mem_tag_tail spellable) same.2
    refine .inr ⟨between, ?_, ?_⟩
    · rw [End.tag_eq_cons, inside, ← same.1]
      rfl
    · rw [behind, End.tag_eq_cons]
      rfl

/-- A tag that starts in front of a command ends in front of it. -/
theorem tag_before_command {body before : Text} (spellable : Spellable name)
    (starts : tail.AtCommand) (same : body ++ tail = before ++ (part.tag name ++ rest)) :
    (∃ after, body = before ++ (part.tag name ++ after) ∧ rest = after ++ tail) ∨
      ∃ between, before = body ++ between ∧ tail = between ++ (part.tag name ++ rest) := by
  rcases List.append_eq_append_iff.1 same with ⟨between, whole, behind⟩ | ⟨inside, whole, behind⟩
  · exact .inr ⟨between, whole, behind⟩
  · cases inside with
    | nil => exact .inr ⟨[], by simpa using whole.symm, by simpa using behind.symm⟩
    | cons first more =>
      have absent := part.backslash_not_mem_tag_tail spellable
      rw [End.tag_eq_cons, List.cons_append, List.cons_append, List.cons.injEq] at behind
      refine .inl ?_
      rcases List.append_eq_append_iff.1 behind.2 with
        ⟨after, inMore, inRest⟩ | ⟨beyond, inTag, inTail⟩
      · exact ⟨after, by rw [whole, inMore, End.tag_eq_cons, ← behind.1]; rfl, inRest⟩
      · cases beyond with
        | nil =>
          refine ⟨[], ?_, by simpa using inTail.symm⟩
          rw [whole, End.tag_eq_cons, inTag, ← behind.1]
          simp
        | cons next beyond =>
          -- The tag would go on to the backslash of the command.
          have same : next = '\\' := starts next (by rw [inTail]; rfl)
          exact absurd (by rw [inTag, same]; simp) absent

end Environment

namespace EnvironmentScan

open Environment

/-- An opening tag at a byte offset is where a region starts, or lies in the body of one. -/
def Meets (name : Text) (region : EnvironmentRegion) (offset : Nat) : Prop :=
  region.offset = offset ∨ ∃ before after, region.body = before ++ (beginTag name ++ after) ∧
    offset = region.offset + (beginTag name).byteLength + before.byteLength

variable {name text rest : Text}

/-- The search meets every opening tag with a closing tag behind it. -/
theorem exists_meets (spellable : Spellable name) (closes : endTag name <:+: rest) (start : Nat) :
    ∀ front, text = front ++ (beginTag name ++ rest) →
      ∃ found ∈ (ofNameAt name start text).regions,
        Meets name found (start + front.byteLength) := by
  unfold ofNameAt
  fun_induction ofTags (End.opening.tag name) (End.closing.tag name) (End.tag_ne_nil .opening name)
    start text with
  | case1 start text absent =>
    intro front opens
    exact absurd ⟨front, rest, by rw [opens, List.append_assoc]; rfl⟩
      (Text.cut?_eq_none_iff.1 absent)
  | case2 start text outside inside located unclosed =>
    -- The closing tag behind this opening tag is behind the first one too.
    intro front opens
    obtain ⟨between, rfl⟩ := Text.front_of_cut? located opens
    have whole := Text.cut?_eq_append located
    rw [opens, List.append_assoc, List.append_assoc, List.append_cancel_left_eq] at whole
    have suffix : rest <:+ inside := by
      refine List.suffix_of_suffix_length_le ⟨between ++ beginTag name, by rw [List.append_assoc]⟩
        ⟨End.opening.tag name, whole.symm⟩ ?_
      have sizes := congrArg List.length whole
      simp only [List.length_append, beginTag] at sizes
      omega
    exact absurd (closes.trans suffix.isInfix) (Text.cut?_eq_none_iff.1 unclosed)
  | case3 start text outside inside located body behind closed offset stop further ih =>
    -- The tag opens the region, lies in its body, or lies behind it.
    intro front opens
    obtain ⟨between, rfl⟩ := Text.front_of_cut? located opens
    have whole := Text.cut?_eq_append located
    rw [opens, Text.cut?_eq_append closed] at whole
    simp only [List.append_assoc, List.append_cancel_left_eq] at whole
    rcases tag_behind_tag spellable whole.symm with rfl | ⟨before, rfl, inside⟩
    · exact ⟨_, List.mem_cons_self .., .inl (by simp [offset])⟩
    rcases tag_before_command spellable (End.atCommand_tag _ _ _) inside with
      ⟨after, inBody, -⟩ | ⟨between, rfl, beyond⟩
    · refine ⟨_, List.mem_cons_self .., .inr ⟨before, after, inBody, ?_⟩⟩
      simp only [Text.byteLength_append, offset, beginTag]
      omega
    rcases tag_behind_tag spellable beyond with rfl | ⟨front, rfl, later⟩
    · cases (End.tag_append_inj spellable spellable beyond).1
    · obtain ⟨found, mem, meets⟩ := ih front later
      refine ⟨found, List.mem_cons_of_mem _ mem, ?_⟩
      convert meets using 1
      simp only [Text.byteLength_append, stop, offset]
      omega

/-- The search ends at an unclosed tag exactly when one of the opening tags behind all regions has
no closing tag behind it. -/
theorem unclosed_iff (start : Nat) :
    (ofNameAt name start text).unclosed = true ↔
      ∃ front rest, text = front ++ (beginTag name ++ rest) ∧
        (∀ found ∈ (ofNameAt name start text).regions, found.stop ≤ start + front.byteLength) ∧
        ¬ endTag name <:+: rest := by
  unfold ofNameAt
  fun_induction ofTags (End.opening.tag name) (End.closing.tag name) (End.tag_ne_nil .opening name)
    start text with
  | case1 start text absent =>
    have none := Text.cut?_eq_none_iff.1 absent
    simp only [Bool.false_eq_true, false_iff]
    rintro ⟨front, rest, rfl, -⟩
    exact none ⟨front, rest, List.append_assoc _ _ _⟩
  | case2 start text outside inside located unclosed =>
    have whole := Text.cut?_eq_append located
    rw [List.append_assoc] at whole
    simp only [List.not_mem_nil, false_implies, implies_true, true_and, true_iff]
    exact ⟨outside, inside, whole, Text.cut?_eq_none_iff.1 unclosed⟩
  | case3 start text outside inside located body behind closed offset stop further ih =>
    have whole : text =
        outside ++ End.opening.tag name ++ body ++ End.closing.tag name ++ behind := by
      rw [Text.cut?_eq_append located, Text.cut?_eq_append closed]
      simp
    have size : stop = start +
        (outside ++ End.opening.tag name ++ body ++ End.closing.tag name).byteLength := by
      simp only [stop, offset, Text.byteLength_append]
      omega
    rw [ih]
    constructor
    · rintro ⟨front, rest, opens, passed, unclosed⟩
      refine ⟨_, rest, by rw [whole, opens, ← List.append_assoc], ?_, unclosed⟩
      rw [Text.byteLength_append, ← Nat.add_assoc, ← size]
      exact List.forall_mem_cons.2 ⟨Nat.le_add_right _ _, passed⟩
    · rintro ⟨front, rest, opens, passed, unclosed⟩
      have isBehind : stop ≤ start + front.byteLength := passed _ (List.mem_cons_self ..)
      obtain ⟨front, rfl, later⟩ :=
        Text.exists_eq_append_of_byteLength_le (whole.symm.trans opens) (by omega)
      rw [Text.byteLength_append, ← Nat.add_assoc, ← size] at passed
      exact ⟨front, rest, later, fun found mem => passed found (List.mem_cons_of_mem _ mem),
        unclosed⟩

/-- Of two regions of one environment the one that starts first ends before the other starts. -/
theorem stop_le_offset (start : Nat) {found other : EnvironmentRegion}
    (mem : found ∈ (ofNameAt name start text).regions)
    (otherMem : other ∈ (ofNameAt name start text).regions) (less : found.offset < other.offset) :
    found.stop ≤ other.offset := by
  have sorted : (ofNameAt name start text).regions.Pairwise fun earlier later =>
      earlier.stop ≤ later.offset := pairwise_stop (End.tag_ne_nil .closing name) start
  have positive := offset_lt_stop (End.tag_ne_nil .closing name) start other otherMem
  obtain ⟨earlier, later, whole⟩ := List.append_of_mem mem
  rw [whole, List.pairwise_append, List.pairwise_cons] at sorted
  rw [whole, List.mem_append, List.mem_cons] at otherMem
  rcases otherMem with isEarlier | rfl | isLater
  · have behind := sorted.2.2 other isEarlier found (List.mem_cons_self ..)
    omega
  · exact absurd less (Nat.lt_irrefl _)
  · exact sorted.2.1.1 other isLater

end EnvironmentScan

/-- Occurrences of different environments start at different places. -/
theorem locate_offsets_lt {environments : List Text} (distinct : environments.Nodup)
    (spellable : ∀ name ∈ environments, Environment.Spellable name) (text : Text) :
    (locate text environments).all.Pairwise fun earlier later => earlier.offset < later.offset := by
  have different : ((locate text environments).all.map (·.offset)).Nodup := by
    rw [map_all_locate fun _ _ _ => rfl]
    exact (((List.mergeSort_perm _ _).map _).nodup_iff).2
      (EnvironmentScan.nodup_offsets distinct spellable text)
  exact (locate_ordered text environments).imp₂ (fun _ _ => Nat.lt_of_le_of_ne)
    (List.pairwise_map.1 different)

/-- Placed occurrences are numbered by their positions. -/
theorem Occurrence.map_index_place (region : Region) (occurrences : List Occurrence) :
    (Occurrence.place region occurrences).map (·.index) =
      List.range (Occurrence.place region occurrences).length := by
  refine List.ext_getElem (by simp) fun index _ _ => ?_
  simp [place]

/-- Placed occurrences belong to the part, and were there before with the same offsets. -/
theorem Occurrence.exists_of_mem_place {region : Region} {occurrences : List Occurrence}
    {found : Occurrence} (mem : found ∈ Occurrence.place region occurrences) :
    found.region = region ∧ ∃ original ∈ occurrences, original.offset = found.offset := by
  obtain ⟨index, inside, rfl⟩ := List.mem_mapIdx.1 mem
  exact ⟨rfl, _, List.getElem_mem inside, rfl⟩

/-- An offset lies before the appendix if there is none or it starts later. -/
theorem isBeforeCut_eq_true_iff {cut? : Option Nat} {offset : Nat} :
    isBeforeCut cut? offset = true ↔ ∀ cut ∈ cut?, offset < cut := by
  cases cut? <;> simp [isBeforeCut]

/-- An offset lies in the appendix if there is one and it does not start later. -/
theorem isBeforeCut_eq_false_iff {cut? : Option Nat} {offset : Nat} :
    isBeforeCut cut? offset = false ↔ ∃ cut ∈ cut?, cut ≤ offset := by
  cases cut? <;> simp [isBeforeCut]

/-- What is left of ordered elements behind those of a front that is closed downwards is not in
the front. -/
theorem not_of_mem_dropWhile {α : Type} {inFront : α → Bool} {elements : List α}
    (ordered : elements.Pairwise fun earlier later =>
      inFront later = true → inFront earlier = true) :
    ∀ element ∈ elements.dropWhile inFront, inFront element = false := by
  induction elements with
  | nil => simp
  | cons first more ih =>
    rw [List.pairwise_cons] at ordered
    by_cases isFront : inFront first = true
    · rw [List.dropWhile_cons_of_pos isFront]
      exact ih ordered.2
    · rw [List.dropWhile_cons_of_neg isFront, List.forall_mem_cons]
      refine ⟨by simpa using isFront, fun later mem => ?_⟩
      by_contra other
      exact isFront (ordered.1 later mem (by simpa using other))

namespace Located

open Environment

/-- What is found of some environments in a text is what there is of them. -/
structure Faithful (text : Text) (environments : List Text) (located : Located) : Prop where
  /-- An occurrence is what stands between its opening tag and the next closing tag. -/
  between : ∀ found ∈ located.all, found.environment ∈ environments ∧ ∃ front rest,
    text = front ++ (beginTag found.environment ++ (found.body ++
      (endTag found.environment ++ rest))) ∧
    found.offset = front.byteLength ∧
    found.stop = found.offset + (beginTag found.environment ++ found.body ++
      endTag found.environment).byteLength ∧
    ¬ endTag found.environment <:+: found.body
  /-- Occurrences of one environment do not overlap. -/
  apart : located.all.Pairwise fun earlier later =>
    earlier.environment = later.environment → earlier.stop ≤ later.offset
  /-- Through both parts the occurrences are in the order of the text. -/
  ordered : located.all.Pairwise fun earlier later => earlier.offset < later.offset
  /-- The parts are divided where the appendix starts. -/
  cut : located.cut? = appendixCut? text
  /-- The main part has what starts before the appendix. -/
  main : ∀ found ∈ located.main, found.region = .main ∧ ∀ cut ∈ located.cut?, found.offset < cut
  /-- The appendix has what starts from there on. -/
  appendix : ∀ found ∈ located.appendix,
    found.region = .appendix ∧ ∃ cut ∈ located.cut?, cut ≤ found.offset
  /-- The occurrences of the main part are numbered by their positions. -/
  mainIndex : located.main.map (·.index) = List.range located.main.length
  /-- So are those of the appendix. -/
  appendixIndex : located.appendix.map (·.index) = List.range located.appendix.length
  /-- Every opening tag is where an occurrence of its environment starts, or lies in the body of
  one, or has no closing tag behind it. -/
  complete : ∀ name ∈ environments, ∀ front rest, text = front ++ (beginTag name ++ rest) →
    (∃ found ∈ located.all, found.environment = name ∧ found.offset = front.byteLength) ∨
    (∃ found ∈ located.all, found.environment = name ∧ ∃ before after,
      found.body = before ++ (beginTag name ++ after) ∧
      front.byteLength = found.offset + (beginTag name).byteLength + before.byteLength) ∨
    ¬ endTag name <:+: rest
  /-- An environment is warned of exactly when an opening tag behind all its occurrences has no
  closing tag behind it. -/
  warned : ∀ warning, warning ∈ located.warnings ↔ ∃ name ∈ environments,
    warning = .unclosedEnvironment name ∧ ∃ front rest, text = front ++ (beginTag name ++ rest) ∧
      (∀ found ∈ located.all, found.environment = name → found.stop ≤ front.byteLength) ∧
      ¬ endTag name <:+: rest
  /-- No environment is warned of twice. -/
  warnedOnce : located.warnings.Nodup

end Located

section Locate

open Environment

variable {text : Text} {environments : List Text}

/-- An opening tag with a closing tag behind it is met by an occurrence of its environment. -/
theorem exists_mem_locate_meets {name front rest : Text} (listed : name ∈ environments)
    (spellable : Spellable name) (opens : text = front ++ (beginTag name ++ rest))
    (closes : endTag name <:+: rest) :
    ∃ found ∈ (locate text environments).all, found.environment = name ∧
      EnvironmentScan.Meets name found.span front.byteLength := by
  obtain ⟨region, isRegion, meets⟩ := EnvironmentScan.exists_meets spellable closes 0 front opens
  obtain ⟨found, mem, same, rfl⟩ := exists_mem_locate_iff.2 ⟨listed, isRegion⟩
  rw [Nat.zero_add] at meets
  exact ⟨found, mem, same, meets⟩

/-- The scan for an environment ends at an unclosed tag exactly when an opening tag behind all its
occurrences has no closing tag behind it. -/
theorem unclosed_ofName_iff {name : Text} (listed : name ∈ environments) :
    (EnvironmentScan.ofName name text).unclosed = true ↔
      ∃ front rest, text = front ++ (beginTag name ++ rest) ∧
        (∀ found ∈ (locate text environments).all, found.environment = name →
          found.stop ≤ front.byteLength) ∧
        ¬ endTag name <:+: rest := by
  have behind (front : Text) : (∀ found ∈ (locate text environments).all,
      found.environment = name → found.stop ≤ front.byteLength) ↔
        ∀ region ∈ (EnvironmentScan.ofName name text).regions, region.stop ≤ front.byteLength := by
    constructor
    · intro passed region isRegion
      obtain ⟨found, mem, same, rfl⟩ := exists_mem_locate_iff.2 ⟨listed, isRegion⟩
      exact passed found mem same
    · rintro passed found mem rfl
      exact passed found.span (mem_regions_of_mem_locate mem).2
  have ended : (EnvironmentScan.ofNameAt name 0 text).unclosed = true ↔ _ :=
    EnvironmentScan.unclosed_iff 0
  simp only [Nat.zero_add] at ended
  simp only [behind]
  exact ended

/-- A scan is warned of exactly when it ended at an unclosed tag. -/
theorem mem_warnings_iff {scan : EnvironmentScan} {name : Text} {warning : Warning} :
    warning ∈ scan.warnings name ↔ warning = .unclosedEnvironment name ∧ scan.unclosed = true := by
  unfold EnvironmentScan.warnings
  split <;> simp [*]

/-- The search gives the warnings of the scans. -/
theorem warnings_locate (text : Text) (environments : List Text) :
    (locate text environments).warnings =
      environments.flatMap fun name => (EnvironmentScan.ofName name text).warnings name := by
  simp only [locate, List.flatMap_map]

/-- The search for occurrences of environments with different readable names finds what there is
of them, and warns of those that are left open. -/
theorem locate_faithful (distinct : environments.Nodup)
    (spellable : ∀ name ∈ environments, Spellable name) (text : Text) :
    (locate text environments).Faithful text environments where
  between found mem := by
    obtain ⟨listed, isRegion⟩ := mem_regions_of_mem_locate mem
    obtain ⟨front, rest, whole, offset, stop, first⟩ :=
      EnvironmentScan.exists_region (End.tag_ne_nil .closing _) 0 found.span isRegion
    rw [Nat.zero_add] at offset
    exact ⟨listed, front, rest, whole, offset, stop, first⟩
  apart := by
    refine (locate_offsets_lt distinct spellable text).imp_of_mem ?_
    intro earlier later isEarlier isLater less same
    have regionLater := (mem_regions_of_mem_locate isLater).2
    rw [← same] at regionLater
    exact EnvironmentScan.stop_le_offset 0 (mem_regions_of_mem_locate isEarlier).2 regionLater less
  ordered := locate_offsets_lt distinct spellable text
  cut := rfl
  main found mem := by
    obtain ⟨region, original, isOriginal, same⟩ := Occurrence.exists_of_mem_place mem
    have before := List.mem_takeWhile_imp isOriginal
    simp only [isBeforeCut_eq_true_iff, same] at before
    exact ⟨region, before⟩
  appendix found mem := by
    obtain ⟨region, original, isOriginal, same⟩ := Occurrence.exists_of_mem_place mem
    have behind := not_of_mem_dropWhile (((mergeSort_ordered Occurrence.offset _).imp
      fun less before => ?_)) original isOriginal
    · rw [isBeforeCut_eq_false_iff, same] at behind
      exact ⟨region, behind⟩
    · exact isBeforeCut_eq_true_iff.2 fun cut isCut =>
        Nat.lt_of_le_of_lt less (isBeforeCut_eq_true_iff.1 before cut isCut)
  mainIndex := Occurrence.map_index_place _ _
  appendixIndex := Occurrence.map_index_place _ _
  complete name listed front rest opens := by
    by_cases closes : endTag name <:+: rest
    · obtain ⟨found, mem, same, atStart | inBody⟩ :=
        exists_mem_locate_meets listed (spellable name listed) opens closes
      · exact .inl ⟨found, mem, same, atStart⟩
      · exact .inr (.inl ⟨found, mem, same, inBody⟩)
    · exact .inr (.inr closes)
  warned warning := by
    rw [warnings_locate, List.mem_flatMap]
    refine exists_congr fun name => and_congr_right fun listed => ?_
    rw [mem_warnings_iff, unclosed_ofName_iff listed]
  warnedOnce := by
    rw [warnings_locate, List.nodup_flatMap]
    refine ⟨fun name _ => ?_, distinct.imp fun {name foreign} different warning mem again => ?_⟩
    · unfold EnvironmentScan.warnings
      split <;> simp
    · have same := (mem_warnings_iff.1 mem).1.symm.trans (mem_warnings_iff.1 again).1
      exact different (Warning.unclosedEnvironment.inj same)

/-- Two environments that cross, the first with its own opening tag inside, and one left open in the
appendix. -/
theorem locate_faithful_crossing :
    let text : Text := ("\\begin\x7ba\x7dx\\begin\x7bb\x7d\\begin\x7ba\x7dy\\end\x7ba\x7d" ++
      "\\end\x7bb\x7d\\appendix\\begin\x7bb\x7dz").toList
    let environments := ["a".toList, "b".toList]
    environments.Nodup ∧ (∀ name ∈ environments, Spellable name) ∧
      (locate text environments).Faithful text environments ∧
      (locate text environments).warnings = [.unclosedEnvironment "b".toList] :=
  ⟨by decide, by decide, locate_faithful (by decide) (by decide) _, by decide +kernel⟩

end Locate
end TexStatements
