import TexStatements.Proofs.Statement.Agreement
import TexStatements.Proofs.Statement.Regions

/-!
# Where bodies come from

The body of a region is cut from the text with canonical tags. Since each tag starts with its only
backslash and ends with its only closing brace, what stands between two canonical tags is what a
piece of the original text becomes when its own tags are rewritten, whatever the environments are
called. A piece without tags of these environments stays as it is.
-/
namespace TexStatements

/-- A text that is continued by the front of another one up to a character that is not in it is
a front of that. -/
theorem Text.append_of_not_mem {stop : Char} {front rest before after : Text}
    (absent : stop ∉ front) (same : front ++ rest = before ++ stop :: after) :
    ∃ between, before = front ++ between ∧ rest = between ++ stop :: after := by
  rcases List.append_eq_append_iff.1 same with ⟨between, whole, behind⟩ | ⟨between, whole, behind⟩
  · exact ⟨between, whole, behind⟩
  · cases between with
    | nil => exact ⟨[], by simpa using whole.symm, by simpa using behind.symm⟩
    | cons first more =>
      have start : first = stop := (List.cons.inj behind).1.symm
      exact absurd (by simp [whole, start]) absent

namespace Environment

variable {part : End} {name : Text}

/-- Put the canonical tag of one end in place of those of an environment. -/
def retag (part : End) (name text : Text) : Text :=
  (tagReader part name).replaceAll (fun _ => part.tag canonicalEnvironment) text

/-- Environments are rewritten one after the other, each with its opening tags first. -/
theorem canonicalize_cons (text : Text) (environments : List Text) :
    canonicalize text (name :: environments) =
      canonicalize (retag .closing name (retag .opening name text)) environments := rfl

/-- A tag gives way to the canonical one. -/
theorem retag_tag (rest : Text) :
    retag part name (part.tag name ++ rest) =
      part.tag canonicalEnvironment ++ retag part name rest :=
  Reader.replaceAll_of_read _ (tagReader_read part name rest)

/-- A text in which the tag does not occur stays as it is. -/
theorem retag_of_absent {text : Text} (absent : ¬ part.tag name <:+: text) :
    retag part name text = text := by
  refine Reader.replaceAll_of_silent _ fun place isPlace _ => ?_
  cases read : (tagReader part name).read (place ++ []) with
  | none => rfl
  | some found =>
    have whole := tagReader_read_eq_some read
    rw [List.append_nil] at whole
    exact absurd ((List.prefix_append _ _).isInfix.trans (whole ▸ isPlace.isInfix)) absent

/-- A tag is what has no closing brace, and its closing brace. -/
theorem End.tag_eq_concat (part : End) (name : Text) :
    part.tag name = '\\' :: part.word ++ '{' :: name ++ ['}'] := by
  simp [End.tag]

/-- What is behind a closing brace of the rewritten text is what becomes of the text behind a
closing brace. -/
theorem exists_behind_brace {text front rest : Text}
    (rewritten : retag part name text = front ++ '}' :: rest) :
    ∃ before after, text = before ++ '}' :: after ∧ retag part name after = rest := by
  unfold retag at rewritten ⊢
  fun_induction Reader.replaceAll (tagReader part name)
    (fun _ => part.tag canonicalEnvironment) text generalizing front with
  | case1 => simp at rewritten
  | case2 first tail value behind read ih =>
    have whole := tagReader_read_eq_some read
    have absent : '}' ∉ '\\' :: part.word ++ '{' :: canonicalEnvironment := by
      cases part <;> decide
    change part.tag canonicalEnvironment ++ retag part name behind = _ at rewritten
    rw [End.tag_eq_concat, List.append_assoc, List.singleton_append] at whole rewritten
    obtain ⟨between, -, split⟩ := Text.append_of_not_mem absent rewritten
    cases between with
    | nil => exact ⟨_, behind, whole, (List.cons.inj split).2⟩
    | cons brace between =>
      obtain ⟨before, after, later, same⟩ := ih (List.cons.inj split).2
      exact ⟨'\\' :: part.word ++ '{' :: name ++ '}' :: before, after,
        by rw [whole, later]; simp, same⟩
  | case3 first tail unread ih =>
    cases front with
    | nil =>
      obtain ⟨rfl, same⟩ := List.cons.inj rewritten
      exact ⟨[], tail, rfl, same⟩
    | cons kept front =>
      obtain ⟨before, after, later, same⟩ := ih (List.cons.inj rewritten).2
      exact ⟨first :: before, after, by rw [later, List.cons_append], same⟩

/-- What is before a backslash of the rewritten text is what becomes of the text before a
backslash. -/
theorem exists_before_backslash {text front rest : Text}
    (rewritten : retag part name text = front ++ '\\' :: rest) :
    ∃ before after, text = before ++ '\\' :: after ∧ retag part name before = front := by
  unfold retag at rewritten ⊢
  fun_induction Reader.replaceAll (tagReader part name)
    (fun _ => part.tag canonicalEnvironment) text generalizing front with
  | case1 => simp at rewritten
  | case2 first tail value behind read ih =>
    have whole := tagReader_read_eq_some read
    cases front with
    | nil => exact ⟨[], _, by rw [whole, End.tag_eq_cons]; rfl, by rw [Reader.replaceAll]⟩
    | cons kept front =>
      have absent := part.backslash_not_mem_tag_tail spellable_canonicalEnvironment
      change part.tag canonicalEnvironment ++ retag part name behind = _ at rewritten
      rw [End.tag_eq_cons part canonicalEnvironment, List.cons_append, List.cons_append,
        List.cons.injEq] at rewritten
      obtain ⟨between, inside, split⟩ := Text.append_of_not_mem absent rewritten.2
      obtain ⟨before, after, later, same⟩ := ih split
      refine ⟨part.tag name ++ before, after, by rw [whole, later, List.append_assoc], ?_⟩
      refine (retag_tag before).trans ?_
      rw [retag, same, inside, End.tag_eq_cons, ← rewritten.1]
      rfl
  | case3 first tail unread ih =>
    cases front with
    | nil =>
      obtain ⟨rfl, -⟩ := List.cons.inj rewritten
      exact ⟨[], tail, rfl, by rw [Reader.replaceAll]⟩
    | cons kept front =>
      obtain ⟨before, after, later, same⟩ := ih (List.cons.inj rewritten).2
      refine ⟨first :: before, after, by rw [later, List.cons_append], ?_⟩
      -- A tag that is read in the shorter text would have been read in the longer one.
      have silent : (tagReader part name).read (first :: before) = none := by
        cases read : (tagReader part name).read (first :: before) with
        | none => rfl
        | some found =>
          have longer := tagReader_read part name (found.2 ++ '\\' :: after)
          rw [← List.append_assoc, ← tagReader_read_eq_some read, List.cons_append, ← later,
            unread] at longer
          cases longer
      rw [Reader.replaceAll_of_unread _ silent, same, ← (List.cons.inj rewritten).1]

/-- What stands between a closing brace and a backslash of the text with canonical tags is what a
piece of the text becomes. -/
theorem exists_piece {text front body rest : Text} {environments : List Text}
    (rewritten : canonicalize text environments = front ++ '}' :: (body ++ '\\' :: rest)) :
    ∃ piece, piece <:+: text ∧ canonicalize piece environments = body := by
  have inside : ∃ before piece after, text = before ++ '}' :: (piece ++ '\\' :: after) ∧
      canonicalize piece environments = body := by
    -- The environments are rewritten in turn, so the last one is undone first.
    have step {part : End} {name text before piece after : Text}
        (rewritten : retag part name text = before ++ '}' :: (piece ++ '\\' :: after)) :
        ∃ front original rest, text = front ++ '}' :: (original ++ '\\' :: rest) ∧
          retag part name original = piece := by
      obtain ⟨front, behind, rfl, same⟩ := exists_behind_brace rewritten
      obtain ⟨original, rest, rfl, sameBody⟩ := exists_before_backslash same
      exact ⟨front, original, rest, rfl, sameBody⟩
    induction environments generalizing text with
    | nil => exact ⟨front, body, rest, rewritten, rfl⟩
    | cons name environments ih =>
      rw [canonicalize_cons] at rewritten
      obtain ⟨_, closed, _, whole, same⟩ := ih rewritten
      obtain ⟨_, opened, _, outer, sameClosed⟩ := step whole
      obtain ⟨before, piece, after, source, sameOpened⟩ := step outer
      exact ⟨before, piece, after, source, by
        rw [canonicalize_cons, sameOpened, sameClosed, same]⟩
  obtain ⟨before, piece, after, whole, same⟩ := inside
  exact ⟨piece, ⟨before ++ ['}'], '\\' :: after, by rw [whole]; simp⟩, same⟩

/-- A text without tags of the environments is as it is with canonical tags. -/
theorem canonicalize_of_absent {text : Text} {environments : List Text}
    (absent : ∀ part, ∀ name ∈ environments, ¬ End.tag part name <:+: text) :
    canonicalize text environments = text := by
  induction environments with
  | nil => rfl
  | cons name environments ih =>
    have first part : retag part name text = text :=
      retag_of_absent (absent part name (List.mem_cons_self ..))
    rw [canonicalize_cons, first, first]
    exact ih fun part other listed => absent part other (List.mem_cons_of_mem _ listed)

end Environment

/-- The body of a region is what a piece of the text becomes. -/
theorem StatementRegion.exists_piece_of_mem {text : Text} {environments : List Text}
    {region : StatementRegion} (mem : region ∈ ofText (canonicalize text environments)) :
    ∃ piece, piece <:+: text ∧ canonicalize piece environments = region.body := by
  obtain ⟨-, front, rest, whole, -⟩ := mem_ofText_iff.1 mem
  rw [Environment.beginTag, Environment.endTag, Environment.End.tag_eq_concat .opening,
    Environment.End.tag_eq_cons .closing, List.append_assoc, List.singleton_append,
    List.cons_append, ← List.append_assoc] at whole
  exact Environment.exists_piece whole

/-- The body of an occurrence is a piece of the text. -/
theorem body_infix_of_mem_locate {text : Text} {environments : List Text} {found : Occurrence}
    (mem : found ∈ (locate text environments).all) : found.body <:+: text := by
  obtain ⟨-, isRegion⟩ := mem_regions_of_mem_locate mem
  obtain ⟨front, rest, whole, -⟩ := EnvironmentScan.exists_region
    (Environment.End.tag_ne_nil .closing found.environment) 0 found.span isRegion
  exact ⟨front ++ Environment.beginTag found.environment,
    Environment.End.closing.tag found.environment ++ rest, by simp [whole, Occurrence.span]⟩

end TexStatements
