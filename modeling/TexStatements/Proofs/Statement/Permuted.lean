import TexStatements.Proofs.Statement.Provenance

/-!
# The order of environments

Environments are rewritten and searched for one after another, in the order of their declaration.
That order has no influence. Tags start with their only backslash and end with their only closing
brace, so no tag is made or broken when others are rewritten, and two of them never start at one
place, so the offsets alone put what is found in order.
-/
namespace TexStatements
namespace Environment

variable {part other : End} {name foreign : Text}

/-- A character at which no tag starts is kept. -/
theorem retag_unread {first : Char} {tail : Text}
    (unread : (tagReader part name).read (first :: tail) = none) :
    retag part name (first :: tail) = first :: retag part name tail :=
  Reader.replaceAll_of_unread _ unread

/-- A front without a backslash stands in the text as it stands in the rewritten text. -/
theorem exists_of_retag_eq_append {text front rest : Text} (free : '\\' ∉ front)
    (rewritten : retag part name text = front ++ rest) : ∃ after, text = front ++ after := by
  induction front generalizing text with
  | nil => exact ⟨text, rfl⟩
  | cons first front ih =>
    rw [List.mem_cons, not_or] at free
    cases text with
    | nil => simp [retag, Reader.replaceAll] at rewritten
    | cons start tail =>
      cases read : (tagReader part name).read (start :: tail) with
      | some found =>
        rw [tagReader_read_eq_some read, retag_tag, End.tag_eq_cons] at rewritten
        exact absurd (List.cons.inj rewritten).1 free.1
      | none =>
        rw [retag_unread read] at rewritten
        obtain ⟨rfl, later⟩ := List.cons.inj rewritten
        obtain ⟨after, rfl⟩ := ih free.2 later
        exact ⟨after, rfl⟩

/-- No tag is made by rewriting others behind the first character. -/
theorem tagReader_read_cons_retag {first : Char} {tail : Text} (spellable : Spellable name)
    (unread : (tagReader part name).read (first :: tail) = none) :
    (tagReader part name).read (first :: retag other foreign tail) = none := by
  cases read : (tagReader part name).read (first :: retag other foreign tail) with
  | none => rfl
  | some found =>
    have whole := tagReader_read_eq_some read
    rw [End.tag_eq_cons, List.cons_append] at whole
    obtain ⟨rfl, later⟩ := List.cons.inj whole
    obtain ⟨after, rfl⟩ :=
      exists_of_retag_eq_append (part.backslash_not_mem_tag_tail spellable) later
    have there := tagReader_read part name after
    rw [End.tag_eq_cons, List.cons_append, unread] at there
    cases there

/-- A tag of another kind is kept. -/
theorem retag_foreign (spellable : Spellable name) (spellableForeign : Spellable foreign)
    (different : part = other → name ≠ foreign) (rest : Text) :
    retag part name (other.tag foreign ++ rest) = other.tag foreign ++ retag part name rest :=
  Reader.replaceAll_append _ (tagReader_silentOver_tag spellable spellableForeign different)

/-- A canonical tag stays, whether it is kept or rewritten to itself. -/
theorem retag_canonical (spellable : Spellable name) (rest : Text) :
    retag part name (other.tag canonicalEnvironment ++ rest) =
      other.tag canonicalEnvironment ++ retag part name rest := by
  by_cases same : part = other ∧ name = canonicalEnvironment
  · obtain ⟨rfl, rfl⟩ := same
    exact retag_tag rest
  · exact retag_foreign spellable spellable_canonicalEnvironment
      (fun parts names => same ⟨parts, names⟩) rest

/-- A tag that one rewriting replaces is passed by the other, before or after. -/
theorem retag_retag_tag (spellable : Spellable name) (spellableForeign : Spellable foreign)
    (different : part = other → name ≠ foreign) {rest : Text}
    (commute : retag part name (retag other foreign rest) =
      retag other foreign (retag part name rest)) :
    retag part name (retag other foreign (other.tag foreign ++ rest)) =
      retag other foreign (retag part name (other.tag foreign ++ rest)) := by
  rw [retag_tag, retag_canonical spellable, commute,
    retag_foreign spellable spellableForeign different, retag_tag]

/-- Two rewritings may be done in either order. -/
theorem retag_comm (part other : End) {name foreign : Text} (spellable : Spellable name)
    (spellableForeign : Spellable foreign) (text : Text) :
    retag part name (retag other foreign text) = retag other foreign (retag part name text) := by
  by_cases same : part = other ∧ name = foreign
  · obtain ⟨rfl, rfl⟩ := same
    rfl
  have different : part = other → name ≠ foreign := fun parts names => same ⟨parts, names⟩
  have converse : other = part → foreign ≠ name :=
    fun parts names => same ⟨parts.symm, names.symm⟩
  -- The text is read tag by tag, and character by character where neither tag stands.
  induction length : text.length using Nat.strong_induction_on generalizing text with
  | _ bound ih =>
    cases text with
    | nil => simp [retag, Reader.replaceAll]
    | cons first tail =>
      cases readForeign : (tagReader other foreign).read (first :: tail) with
      | some found =>
        have shorter := (Reader.advances _ readForeign).length_lt
        rw [tagReader_read_eq_some readForeign]
        exact retag_retag_tag spellable spellableForeign different
          (ih _ (length ▸ shorter) found.2 rfl)
      | none =>
        cases read : (tagReader part name).read (first :: tail) with
        | some found =>
          have shorter := (Reader.advances _ read).length_lt
          rw [tagReader_read_eq_some read]
          exact (retag_retag_tag spellableForeign spellable converse
            (ih _ (length ▸ shorter) found.2 rfl).symm).symm
        | none =>
          have later := ih tail.length (length ▸ Nat.lt_succ_self _) tail rfl
          rw [retag_unread readForeign, retag_unread read,
            retag_unread (tagReader_read_cons_retag spellable read),
            retag_unread (tagReader_read_cons_retag spellableForeign readForeign), later]

/-- Environments may be rewritten in any order. -/
theorem canonicalize_perm {environments permuted : List Text} (perm : environments.Perm permuted)
    (spellable : ∀ name ∈ environments, Spellable name) (text : Text) :
    canonicalize text environments = canonicalize text permuted := by
  refine perm.foldl_eq' (fun name listed foreign alsoListed text => ?_) text
  have own := spellable name listed
  have others := spellable foreign alsoListed
  change retag .closing foreign (retag .opening foreign
      (retag .closing name (retag .opening name text))) =
    retag .closing name (retag .opening name
      (retag .closing foreign (retag .opening foreign text)))
  rw [retag_comm .opening .closing others own, retag_comm .opening .opening others own,
    retag_comm .closing .closing others own, retag_comm .closing .opening others own]

end Environment

namespace EnvironmentScan

open Environment

/-- Two environments have no opening tag at one place. -/
theorem offset_ne {name foreign text : Text} (spellable : Spellable name)
    (spellableForeign : Spellable foreign) (different : name ≠ foreign) :
    ∀ found ∈ (ofName name text).regions, ∀ other ∈ (ofName foreign text).regions,
      found.offset ≠ other.offset := by
  intro found mem other otherMem same
  obtain ⟨front, _, whole, place, -⟩ := exists_region (End.tag_ne_nil .closing name) 0 found mem
  obtain ⟨before, _, again, otherPlace, -⟩ :=
    exists_region (End.tag_ne_nil .closing foreign) 0 other otherMem
  have bytes : front.byteLength = before.byteLength := by omega
  have fronts : front = before := by
    rw [← Text.frontBytes_byteLength front, ← whole, bytes, again, Text.frontBytes_byteLength]
  rw [whole, fronts] at again
  have tags := List.append_cancel_left again
  exact different (End.tag_append_inj spellable spellableForeign tags).2.1

/-- No two of the regions of different environments start at one place. -/
theorem nodup_offsets {environments : List Text} (distinct : environments.Nodup)
    (spellable : ∀ name ∈ environments, Spellable name) (text : Text) :
    ((environments.flatMap fun name => (ofName name text).occurrences name).map
      (·.offset)).Nodup := by
  have starts : (environments.flatMap fun name => (ofName name text).occurrences name).map
      (·.offset) = environments.flatMap fun name => (ofName name text).regions.map (·.offset) := by
    simp [List.map_flatMap, occurrences, Function.comp_def]
  rw [starts, List.nodup_flatMap]
  refine ⟨fun name _ => ?_, ?_⟩
  · exact List.pairwise_map.2 ((pairwise_offset (End.tag_ne_nil .closing name) 0).imp Nat.ne_of_lt)
  · refine distinct.imp_of_mem fun {name foreign} listed alsoListed different offset mem again => ?_
    obtain ⟨found, isFound, rfl⟩ := List.mem_map.1 mem
    obtain ⟨other, isOther, same⟩ := List.mem_map.1 again
    exact offset_ne (spellable name listed) (spellable foreign alsoListed) different found isFound
      other isOther same.symm

end EnvironmentScan

/-- What has different keys is sorted alike in whatever order it comes. -/
theorem mergeSort_perm_eq {α : Type} {key : α → Nat} {elements permuted : List α}
    (perm : elements.Perm permuted) (distinct : (elements.map key).Nodup) :
    elements.mergeSort (fun left right => key left ≤ key right) =
      permuted.mergeSort fun left right => key left ≤ key right := by
  have toSorted := perm.trans
    (List.mergeSort_perm permuted fun left right => key left ≤ key right).symm
  have apart := List.pairwise_map.1 ((toSorted.map key).nodup_iff.1 distinct)
  exact mergeSort_eq_of_perm toSorted
    ((mergeSort_ordered key permuted).imp₂ (fun _ _ => Nat.lt_of_le_of_ne) apart)

/-- Environments may be searched for in any order: the same occurrences are found. -/
theorem locate_perm {environments permuted : List Text} (perm : environments.Perm permuted)
    (distinct : environments.Nodup) (spellable : ∀ name ∈ environments, Environment.Spellable name)
    (text : Text) : (locate text environments).main = (locate text permuted).main ∧
      (locate text environments).appendix = (locate text permuted).appendix := by
  have sorted := mergeSort_perm_eq
    (perm.flatMap_right fun name => (EnvironmentScan.ofName name text).occurrences name)
    (EnvironmentScan.nodup_offsets distinct spellable text)
  simp only [locate, List.flatMap_map, sorted, and_self]

end TexStatements
