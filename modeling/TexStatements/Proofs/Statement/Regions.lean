import TexStatements.Proofs.Group.Position
import TexStatements.Proofs.Statement.Matching

/-!
# Regions of a text

The regions of a text are the matched pairs of its canonical tags, whatever it looks like. The
region that the scan closes first comes before the other one or lies in its body, so that regions
are apart or nested and no tag belongs to two of them.
-/
namespace TexStatements
namespace StatementRegion

open Environment

/-- Canonical tags that were found in a text, in their order. -/
structure Sighted (text : Text) (founds : List (Found End)) : Prop where
  /-- They are places of the text. -/
  suffix : ∀ found ∈ founds, found.place <:+ text
  /-- A tag stands at each of them. -/
  read : ∀ found ∈ founds, tag.read found.place = some (found.value, found.rest)
  /-- Each lies behind those before. -/
  ordered : founds.Pairwise fun earlier later => later.place <:+ earlier.rest

/-- The tags that the reader finds are found in order. -/
theorem sighted_occurrences (text : Text) : Sighted text (tag.occurrences text) :=
  have found := tag.occurrences_ordered text
  ⟨fun place mem => (found.1 place mem).1, fun place mem => (found.1 place mem).2, found.2⟩

/-- Some of the tags that were found in order. -/
theorem Sighted.sublist {text : Text} {founds fewer : List (Found End)}
    (sighted : Sighted text founds) (sub : fewer.Sublist founds) : Sighted text fewer :=
  ⟨fun found mem => sighted.suffix found (sub.subset mem),
    fun found mem => sighted.read found (sub.subset mem), sighted.ordered.sublist sub⟩

/-- Tags in order do not overlap. -/
theorem Sighted.apart {text : Text} {founds : List (Found End)} (sighted : Sighted text founds) :
    founds.Pairwise fun earlier later =>
      Text.offsetIn text.byteLength earlier.place +
          (earlier.value.tag canonicalEnvironment).byteLength ≤
        Text.offsetIn text.byteLength later.place := by
  refine sighted.ordered.imp_of_mem fun {earlier later} isEarlier isLater behind => ?_
  have inText := Text.byteLength_le_of_suffix (sighted.suffix earlier isEarlier)
  have inRest := Text.byteLength_le_of_suffix behind
  have place : earlier.place.byteLength =
      (earlier.value.tag canonicalEnvironment).byteLength + earlier.rest.byteLength := by
    rw [readTag_eq_append (sighted.read earlier isEarlier), Text.byteLength_append]
  rw [Text.offsetIn, Text.offsetIn]
  omega

/-- Number of bytes of the canonical closing tag. -/
def closingBytes : Nat := (endTag canonicalEnvironment).byteLength

/-- A region, with its tags, comes before another one. -/
def Precedes (one other : StatementRegion) : Prop := one.bodyStop + closingBytes ≤ other.start

/-- A region, with its tags, lies in the body of another one. -/
def Inside (one other : StatementRegion) : Prop :=
  other.bodyStart ≤ one.start ∧ one.bodyStop + closingBytes ≤ other.bodyStop

/-- A tag that is open was open before or is one of the opening tags since. -/
theorem mem_foldl_openAfter {found : Found End} {founds opened : List (Found End)}
    (mem : found ∈ founds.foldl openAfter opened) :
    found ∈ opened ∨ found ∈ founds ∧ found.value = .opening := by
  induction founds generalizing opened with
  | nil => exact .inl mem
  | cons first more ih =>
    rcases ih mem with isOpen | ⟨isLater, opens⟩
    · unfold openAfter at isOpen
      split at isOpen
      · rename_i opens
        rcases List.mem_cons.1 isOpen with rfl | isOpen
        · exact .inr ⟨List.mem_cons_self .., opens⟩
        · exact .inl isOpen
      · exact .inl (List.mem_of_mem_tail isOpen)
    · exact .inr ⟨List.mem_cons_of_mem first isLater, opens⟩

/-- Of two regions, the one that is closed first comes before the other or lies in its body. -/
theorem pairwise_ofTags {text : Text} {opened founds : List (Found End)}
    (sighted : Sighted text (opened.reverse ++ founds))
    (opens : ∀ found ∈ opened, found.value = .opening) :
    (ofTags text.byteLength opened founds).Pairwise fun earlier later =>
      earlier.Precedes later ∨ earlier.Inside later := by
  induction founds generalizing opened with
  | nil => exact List.Pairwise.nil
  | cons found more ih =>
    rw [ofTags_cons, List.pairwise_append]
    refine ⟨?_, ?_, ?_⟩
    · unfold closedBy
      split
      · exact List.pairwise_singleton _ _
      · exact List.Pairwise.nil
    · cases part : found.value with
      | opening =>
        rw [openAfter, part]
        refine ih (by simpa using sighted) (List.forall_mem_cons.2 ⟨part, opens⟩)
      | closing =>
        rw [openAfter, part]
        refine ih (sighted.sublist ?_) fun other isOpen => opens other (List.mem_of_mem_tail isOpen)
        exact (List.reverse_sublist.2 (List.tail_sublist opened)).append
          (List.sublist_cons_self found more)
    · intro earlier isClosed later isLater
      obtain ⟨closes, opening, outer, rfl, rfl⟩ := mem_closedBy_iff.1 isClosed
      simp only [openAfter, closes, List.tail_cons] at isLater
      obtain ⟨before, closing, after, other, further, rfl, closesLater, stack, rfl⟩ :=
        mem_ofTags_iff.1 isLater
      have apart := sighted.apart
      simp only [List.reverse_cons, List.append_assoc, List.singleton_append,
        List.pairwise_append, List.pairwise_cons, List.mem_cons, List.mem_append] at apart
      obtain ⟨-, ⟨-, behind, -⟩, outside⟩ := apart
      have stopped := behind closing (.inr (.inl rfl))
      rw [closes] at stopped
      have isOpen : other ∈ before.foldl openAfter outer := stack ▸ List.mem_cons_self ..
      rcases mem_foldl_openAfter isOpen with isOuter | ⟨isLater, -⟩
      · have started := outside other (List.mem_reverse.2 isOuter) opening (.inl rfl)
        rw [opens other (List.mem_cons_of_mem _ isOuter)] at started
        exact .inr ⟨started, stopped⟩
      · have started := behind other (.inl isLater)
        rw [closes] at started
        exact .inl started

/-- Of two regions of a text one comes before the other or lies in its body. -/
theorem pairwise_ofText (text : Text) :
    (ofText text).Pairwise fun one other =>
      (one.Precedes other ∨ one.Inside other) ∨ (other.Precedes one ∨ other.Inside one) := by
  have sighted : Sighted text (([] : List (Found End)).reverse ++ tag.occurrences text) :=
    sighted_occurrences text
  have scanned : (ofTags text.byteLength [] (tag.occurrences text)).Pairwise fun one other =>
      (one.Precedes other ∨ one.Inside other) ∨ (other.Precedes one ∨ other.Inside one) :=
    (pairwise_ofTags sighted (by simp)).imp Or.inl
  exact scanned.perm (List.mergeSort_perm _ _).symm Or.symm

/-- The body of a region starts behind its start and stops behind that. -/
theorem bounds_of_mem {text : Text} {region : StatementRegion} (mem : region ∈ ofText text) :
    region.start < region.bodyStart ∧ region.bodyStart ≤ region.bodyStop := by
  obtain ⟨-, front, rest, encloses⟩ := mem_ofText_iff.1 mem
  have positive : 0 < openingBytes := Outline.byteLength_tag_pos .opening canonicalEnvironment
  rw [encloses.bodyStop, encloses.bodyStart]
  omega

/-- A region of a text starts before another one exactly when it comes before it or has it in its
body. -/
theorem ofText_laminar (text : Text) :
    (ofText text).Pairwise fun earlier later =>
      earlier.start < later.start ∧ (earlier.Precedes later ∨ later.Inside earlier) := by
  have sorted := mergeSort_ordered StatementRegion.start
    (ofTags text.byteLength [] (tag.occurrences text))
  refine (sorted.and (pairwise_ofText text)).imp_of_mem fun {earlier later} isEarlier isLater => ?_
  have boundsEarlier := bounds_of_mem isEarlier
  have boundsLater := bounds_of_mem isLater
  simp only [Precedes, Inside]
  omega

/-- The regions of a text are listed in the order in which they start, and no two start at the same
place. -/
theorem ofText_pairwise (text : Text) :
    (ofText text).Pairwise fun earlier later => earlier.start < later.start :=
  (ofText_laminar text).imp And.left

/-- Regions that are the matched pairs of the canonical tags of a text. -/
structure Matching (text : Text) (regions : List StatementRegion) : Prop where
  /-- They are listed in the order in which they start. -/
  ordered : regions.Pairwise fun earlier later => earlier.start < later.start
  /-- They are the regions of an opening and a later closing tag with balanced tags between. -/
  matched : ∀ region, region ∈ regions ↔ Balanced (tagsOf region.body) ∧
    ∃ front rest, Encloses text region front rest
  /-- No body stops before it starts. -/
  bounds : ∀ region ∈ regions, region.bodyStart ≤ region.bodyStop
  /-- A region comes before those that start later or has them in its body. -/
  laminar : regions.Pairwise fun earlier later => earlier.Precedes later ∨ later.Inside earlier
  /-- No region starts at an opening tag without a partner. -/
  unclosed : ∀ front inside, text = front ++ (beginTag canonicalEnvironment ++ inside) →
    (∀ body rest, inside = body ++ (endTag canonicalEnvironment ++ rest) →
      ¬ Balanced (tagsOf body)) →
    ∀ region ∈ regions, region.start ≠ front.byteLength
  /-- No body stops at a closing tag without a partner. -/
  unopened : ∀ front rest, text = front ++ (endTag canonicalEnvironment ++ rest) →
    (∀ outside body, front = outside ++ (beginTag canonicalEnvironment ++ body) →
      ¬ Balanced (tagsOf body)) →
    ∀ region ∈ regions, region.bodyStop ≠ front.byteLength
  /-- Different regions have no tag in common. -/
  once : ∀ one ∈ regions, ∀ other ∈ regions,
    one.start = other.start ∨ one.bodyStop = other.bodyStop → one = other

/-- The scan of the canonical tags of a text finds its matched pairs of tags. -/
theorem ofText_matching (text : Text) : Matching text (ofText text) where
  ordered := ofText_pairwise text
  matched region := mem_ofText_iff
  bounds region mem := (bounds_of_mem mem).2
  laminar := (ofText_laminar text).imp And.right
  unclosed front inside opens unmatched region mem start := by
    obtain ⟨balanced, before, rest, whole, startsAt, -⟩ := mem_ofText_iff.1 mem
    obtain ⟨-, closes⟩ :=
      Text.append_inj_of_byteLength (opens.symm.trans whole) (start.symm.trans startsAt)
    exact unmatched region.body rest (List.append_cancel_left closes) balanced
  unopened front rest closes unmatched region mem stop := by
    obtain ⟨balanced, before, after, whole, startsAt, bodyStart, bodyStop⟩ := mem_ofText_iff.1 mem
    have divided : text = before ++ (beginTag canonicalEnvironment ++ region.body) ++
        (endTag canonicalEnvironment ++ after) := by
      rw [whole]
      simp only [List.append_assoc]
    obtain ⟨same, -⟩ := Text.append_inj_of_byteLength (closes.symm.trans divided) (by
      rw [← stop, bodyStop, bodyStart, startsAt, openingBytes]
      simp only [Text.byteLength_append, Nat.add_assoc])
    exact unmatched before region.body same balanced
  once one isOne other isOther shared := by
    have apart : (ofText text).Pairwise fun one other =>
        one.start ≠ other.start ∧ one.bodyStop ≠ other.bodyStop := by
      refine (ofText_laminar text).imp_of_mem fun {earlier later} isEarlier isLater lies => ?_
      have boundsEarlier := bounds_of_mem isEarlier
      have boundsLater := bounds_of_mem isLater
      have positive : 0 < closingBytes := Outline.byteLength_tag_pos .closing canonicalEnvironment
      simp only [Precedes, Inside] at lies
      omega
    have starts : ((ofText text).map (·.start)).Nodup := List.pairwise_map.2 (apart.imp And.left)
    have stops : ((ofText text).map (·.bodyStop)).Nodup := List.pairwise_map.2 (apart.imp And.right)
    rcases shared with same | same
    · exact List.inj_on_of_nodup_map starts isOne isOther same
    · exact List.inj_on_of_nodup_map stops isOne isOther same

end StatementRegion
end TexStatements
