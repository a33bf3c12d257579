import TexStatements.Proofs.Text.Search
import TexStatements.Statement.Region

/-!
# Outlines

An outline is a text divided at the tags of properly nested environments. The same outline can be
spelled with other names in its tags; rewriting the tags of a text, one environment after the
other, spells its outline with the canonical name throughout.
-/
namespace TexStatements
namespace Environment

/-- A name that leaves the tag around it readable: without a backslash and a closing brace. -/
def Spellable (name : Text) : Prop := '\\' ∉ name ∧ '}' ∉ name

instance (name : Text) : Decidable (Spellable name) :=
  inferInstanceAs (Decidable ('\\' ∉ name ∧ '}' ∉ name))

/-- The canonical name leaves the tag around it readable. -/
theorem spellable_canonicalEnvironment : Spellable canonicalEnvironment := by
  decide

/-- The reader of one tag. -/
def tagReader (part : End) (name : Text) : Reader Unit :=
  Reader.literal (part.tag name) (part.tag_ne_nil name)

/-- A tag is its backslash and what has none. -/
theorem End.tag_eq_cons (part : End) (name : Text) :
    part.tag name = '\\' :: (part.word ++ '{' :: (name ++ ['}'])) := by
  simp [End.tag]

/-- Only the first character of a tag is a backslash. -/
theorem End.backslash_not_mem_tag_tail (part : End) {name : Text} (spellable : Spellable name) :
    '\\' ∉ part.word ++ '{' :: (name ++ ['}']) := by
  have word : '\\' ∉ part.word := by cases part <;> decide
  simp [word, spellable.1]

/-- A text that starts with a tag starts a command. -/
theorem End.atCommand_tag (part : End) (name rest : Text) :
    Text.AtCommand (part.tag name ++ rest) := by
  rw [End.tag_eq_cons]
  exact Text.atCommand_backslash _

/-- A text starts with one tag at most. -/
theorem End.tag_append_inj {part other : End} {name foreign rest tail : Text}
    (spellable : Spellable name) (spellableForeign : Spellable foreign)
    (same : part.tag name ++ rest = other.tag foreign ++ tail) :
    part = other ∧ name = foreign ∧ rest = tail := by
  have words : part = other ∧ name ++ '}' :: rest = foreign ++ '}' :: tail := by
    cases part <;> cases other <;> simp_all [End.tag, End.word]
  exact ⟨words.1, Text.append_stop_inj spellable.2 spellableForeign.2 words.2⟩

/-- A tag is read where it stands. -/
theorem tagReader_read (part : End) (name rest : Text) :
    (tagReader part name).read (part.tag name ++ rest) = some ((), rest) := by
  simp [tagReader, Reader.literal, Text.dropLiteral?_eq_some_iff.2]

/-- A tag that is read is at the front of the text. -/
theorem tagReader_read_eq_some {part : End} {name text rest : Text} {value : Unit}
    (read : (tagReader part name).read text = some (value, rest)) :
    text = part.tag name ++ rest := by
  simp only [tagReader, Reader.literal, Option.map_eq_some_iff, Prod.mk.injEq] at read
  obtain ⟨tail, dropped, -, rfl⟩ := read
  exact Text.dropLiteral?_eq_some_iff.1 dropped

/-- A tag is read at a backslash only. -/
theorem tagReader_readsCommands (part : End) (name : Text) :
    (tagReader part name).ReadsCommands := by
  intro first tail other
  cases read : (tagReader part name).read (first :: tail) with
  | none => rfl
  | some found =>
    have whole := tagReader_read_eq_some read
    rw [End.tag_eq_cons] at whole
    exact absurd (List.cons.inj whole).1 other

/-- A tag is read regardless of a command that follows. -/
theorem tagReader_local (part : End) {name : Text} (spellable : Spellable name) :
    (tagReader part name).Local := by
  have isLocal := Reader.literal_local (part.backslash_not_mem_tag_tail spellable)
  simp only [← End.tag_eq_cons] at isLocal
  exact isLocal

/-- A front that a tag does not occur in is passed over. -/
theorem tagReader_silentOver {part : End} {name front rest : Text} (spellable : Spellable name)
    (absent : ¬ part.tag name <:+: front) (starts : rest.AtCommand) :
    (tagReader part name).SilentOver front rest := by
  intro place suffix nonempty
  rw [tagReader_local part spellable place rest nonempty starts]
  cases read : (tagReader part name).read place with
  | none => rfl
  | some found =>
    have whole := tagReader_read_eq_some read
    have occurs : part.tag name <:+: place := ⟨[], found.2, by simpa using whole.symm⟩
    exact absurd (occurs.trans suffix.isInfix) absent

/-- Another tag is passed over. -/
theorem tagReader_silentOver_tag {part other : End} {name foreign rest : Text}
    (spellable : Spellable name) (spellableForeign : Spellable foreign)
    (different : part = other → name ≠ foreign) :
    (tagReader part name).SilentOver (other.tag foreign) rest := by
  rw [End.tag_eq_cons]
  refine (tagReader_readsCommands part name).silentOver_command
    (other.backslash_not_mem_tag_tail spellableForeign) ?_
  rw [← List.cons_append, ← End.tag_eq_cons]
  cases read : (tagReader part name).read (other.tag foreign ++ rest) with
  | none => rfl
  | some found =>
    obtain ⟨sameEnd, sameName, -⟩ :=
      End.tag_append_inj spellableForeign spellable (tagReader_read_eq_some read)
    exact absurd sameName.symm (different sameEnd.symm)

end Environment

/-- A text divided at the tags of properly nested environments. -/
inductive Outline where
  /-- A text with no environment. -/
  | plain (text : Text)
  /-- The text up to the first environment, the environment, and what comes behind it. -/
  | environment (front name : Text) (inside after : Outline)

namespace Outline

open Environment

/-- The text of an outline, with the names of its tags replaced. -/
def spell (rename : End → Text → Text) : Outline → Text
  | plain text => text
  | environment front name inside after =>
    front ++ (End.opening.tag (rename .opening name) ++ (inside.spell rename ++
      (End.closing.tag (rename .closing name) ++ after.spell rename)))

/-- The text of an outline. -/
def text (outline : Outline) : Text := outline.spell fun _ name => name

/-- The text of an outline with canonical tags. -/
def canonical (outline : Outline) : Text := outline.spell fun _ _ => canonicalEnvironment

/-- Text without environments is its own spelling. -/
@[simp] theorem text_plain (text : Text) : (plain text).text = text := rfl

/-- Text without environments has no tag to replace. -/
@[simp] theorem canonical_plain (text : Text) : (plain text).canonical = text := rfl

/-- The text of an outline that starts with an environment. -/
@[simp] theorem text_environment (front name : Text) (inside after : Outline) :
    (environment front name inside after).text =
      front ++ (End.opening.tag name ++ (inside.text ++ (End.closing.tag name ++ after.text))) :=
  rfl

/-- The spelling with canonical tags of an outline that starts with an environment. -/
@[simp] theorem canonical_environment (front name : Text) (inside after : Outline) :
    (environment front name inside after).canonical =
      front ++ (End.opening.tag canonicalEnvironment ++ (inside.canonical ++
        (End.closing.tag canonicalEnvironment ++ after.canonical))) :=
  rfl

/-- The names of the environments, in the order of their opening tags. -/
def names : Outline → List Text
  | plain _ => []
  | environment _ name inside after => name :: (inside.names ++ after.names)

/-- A property of all texts between the tags. -/
def Between (property : Text → Prop) : Outline → Prop
  | plain text => property text
  | environment front _ inside after =>
    property front ∧ inside.Between property ∧ after.Between property

/-- No environment is open inside itself. -/
def Unnested : Outline → Prop
  | plain _ => True
  | environment _ name inside after => name ∉ inside.names ∧ inside.Unnested ∧ after.Unnested

/-- A weaker property holds between the tags as well. -/
theorem Between.mono {property weaker : Text → Prop} {outline : Outline}
    (holds : outline.Between property) (implies : ∀ text, property text → weaker text) :
    outline.Between weaker := by
  induction outline with
  | plain text => exact implies text holds
  | environment front name inside after ihInside ihAfter =>
    exact ⟨implies front holds.1, ihInside holds.2.1, ihAfter holds.2.2⟩

/-- Only the names that occur in an outline matter for its spelling. -/
theorem spell_congr {outline : Outline} {rename other : End → Text → Text}
    (agree : ∀ part, ∀ name ∈ outline.names, rename part name = other part name) :
    outline.spell rename = outline.spell other := by
  induction outline with
  | plain text => rfl
  | environment front name inside after ihInside ihAfter =>
    simp only [names, List.mem_cons, List.mem_append, or_imp, forall_and, forall_eq] at agree
    rw [spell, spell, agree.1, agree.1, ihInside agree.2.1, ihAfter agree.2.2]

/-- Replacing one tag of a text by another renames this end of the environment. -/
theorem replaceAll_spell {outline : Outline} {rename : End → Text → Text} {part : End}
    {name tail : Text} (target : Text) (spellable : Spellable name)
    (between : outline.Between fun text => ¬ part.tag name <:+: text)
    (renamed : ∀ part, ∀ name ∈ outline.names, Spellable (rename part name))
    (starts : tail.AtCommand) :
    (tagReader part name).replaceAll (fun _ => part.tag target) (outline.spell rename ++ tail) =
      outline.spell (fun other foreign =>
        if other = part ∧ rename other foreign = name then target else rename other foreign) ++
        (tagReader part name).replaceAll (fun _ => part.tag target) tail := by
  -- One tag of the outline, in front of any text.
  have tagged : ∀ other foreign rest, Spellable (rename other foreign) →
      (tagReader part name).replaceAll (fun _ => part.tag target)
        (other.tag (rename other foreign) ++ rest) =
      other.tag (if other = part ∧ rename other foreign = name then target
        else rename other foreign) ++
        (tagReader part name).replaceAll (fun _ => part.tag target) rest := by
    intro other foreign rest readable
    by_cases same : other = part ∧ rename other foreign = name
    · obtain ⟨rfl, sameName⟩ := same
      rw [if_pos ⟨rfl, sameName⟩, sameName]
      exact Reader.replaceAll_of_read _ (tagReader_read other name rest)
    · rw [if_neg same]
      refine Reader.replaceAll_append _ (tagReader_silentOver_tag spellable readable ?_)
      intro sameEnd sameName
      exact same ⟨sameEnd.symm, sameName.symm⟩
  induction outline generalizing tail with
  | plain text =>
    exact Reader.replaceAll_append _ (tagReader_silentOver spellable between starts)
  | environment front own inside after ihInside ihAfter =>
    simp only [names, List.mem_cons, List.mem_append, or_imp, forall_and, forall_eq] at renamed
    have opened := fun rest => End.atCommand_tag .opening (rename .opening own) rest
    have closed := fun rest => End.atCommand_tag .closing (rename .closing own) rest
    simp only [spell, List.append_assoc]
    rw [Reader.replaceAll_append _ (tagReader_silentOver spellable between.1 (opened _)),
      tagged _ _ _ (renamed.1 .opening), ihInside between.2.1 renamed.2.1 (closed _),
      tagged _ _ _ (renamed.1 .closing), ihAfter between.2.2 renamed.2.2 starts]

/-- A reader passes over an outline if it does over the texts between the tags and the tags. -/
theorem silentOver_spell {α : Type} {reader : Reader α} {rename : End → Text → Text}
    {outline : Outline} {tail : Text}
    (between : outline.Between fun text =>
      ∀ rest, rest.AtCommand → reader.SilentOver text rest)
    (tags : ∀ part, ∀ name ∈ outline.names, ∀ rest,
      reader.SilentOver (End.tag part (rename part name)) rest)
    (starts : tail.AtCommand) : reader.SilentOver (outline.spell rename) tail := by
  induction outline generalizing tail with
  | plain text => exact between tail starts
  | environment front own inside after ihInside ihAfter =>
    simp only [names, List.mem_cons, List.mem_append, or_imp, forall_and, forall_eq] at tags
    refine (between.1 _ ?_).append ((tags.1 .opening _).append
      ((ihInside between.2.1 tags.2.1 ?_).append
        ((tags.1 .closing _).append (ihAfter between.2.2 tags.2.2 starts))))
    · simp only [List.append_assoc]
      exact End.atCommand_tag _ _ _
    · simp only [List.append_assoc]
      exact End.atCommand_tag _ _ _

/-- The names of tags after the listed environments have been rewritten. -/
def rewritten (rewrittenNames : List Text) (_ : End) (name : Text) : Text :=
  if name ∈ rewrittenNames then canonicalEnvironment else name

/-- Rewriting both tags of one more environment. -/
theorem rewritten_cons (done : List Text) (name : Text) (part : End) (own : Text) :
    (let opened (part : End) (own : Text) : Text :=
        if part = .opening ∧ rewritten done part own = name then canonicalEnvironment
        else rewritten done part own
      if part = .closing ∧ opened part own = name then canonicalEnvironment
      else opened part own) = rewritten (name :: done) part own := by
  by_cases listed : own ∈ done
  · simp [rewritten, listed]
  · by_cases same : own = name
    · subst same
      cases part <;> simp [rewritten, listed]
    · simp [rewritten, listed, same]

/-- The tags of an outline stay readable when environments are rewritten. -/
theorem spellable_rewritten {outline : Outline} (done : List Text)
    (spellable : ∀ name ∈ outline.names, Spellable name) (part : End) :
    ∀ name ∈ outline.names, Spellable (rewritten done part name) := by
  intro name occurs
  rw [rewritten]
  split
  · exact spellable_canonicalEnvironment
  · exact spellable name occurs

/-- Rewriting environments one after the other rewrites the tags of an outline. -/
theorem canonicalize_spell {outline : Outline} {environments done : List Text}
    (spellableNames : ∀ name ∈ environments, Spellable name)
    (between : outline.Between fun text =>
      ∀ part, ∀ name ∈ environments, ¬ End.tag part name <:+: text)
    (spellable : ∀ name ∈ outline.names, Spellable name) :
    canonicalize (outline.spell (rewritten done)) environments =
      outline.spell (rewritten (environments.reverse ++ done)) := by
  induction environments generalizing done with
  | nil => rfl
  | cons name environments ih =>
    have readable := spellableNames name (List.mem_cons_self ..)
    have absent part : outline.Between fun text => ¬ End.tag part name <:+: text :=
      between.mono fun text free => free part name (List.mem_cons_self ..)
    have opened := replaceAll_spell canonicalEnvironment readable (absent .opening)
      (spellable_rewritten done spellable) Text.atCommand_nil
    have renamed : ∀ part, ∀ own ∈ outline.names, Spellable
        (if part = .opening ∧ rewritten done part own = name then canonicalEnvironment
          else rewritten done part own) := by
      intro part own occurs
      split
      · exact spellable_canonicalEnvironment
      · exact spellable_rewritten done spellable part own occurs
    have closed := replaceAll_spell canonicalEnvironment readable (absent .closing)
      renamed Text.atCommand_nil
    simp only [List.append_nil, Reader.replaceAll] at opened closed
    have both : outline.spell _ = outline.spell _ :=
      spell_congr fun part own _ => rewritten_cons done name part own
    have later : canonicalize (outline.spell (rewritten (name :: done))) environments =
        outline.spell (rewritten (environments.reverse ++ name :: done)) :=
      ih (fun other listed => spellableNames other (List.mem_cons_of_mem _ listed))
        (between.mono fun text free part other listed =>
          free part other (List.mem_cons_of_mem _ listed))
    rw [List.reverse_cons, List.append_assoc, List.singleton_append, ← later, ← both]
    refine congrArg (fun text => canonicalize text environments) ?_
    exact (congrArg _ opened).trans closed

/-- Rewriting all environments of an outline gives its spelling with canonical tags. -/
theorem canonicalize_text {outline : Outline} {environments : List Text}
    (spellableNames : ∀ name ∈ environments, Spellable name)
    (between : outline.Between fun text =>
      ∀ part, ∀ name ∈ environments, ¬ End.tag part name <:+: text)
    (listed : ∀ name ∈ outline.names, name ∈ environments) :
    canonicalize outline.text environments = outline.canonical := by
  have readable : ∀ name ∈ outline.names, Spellable name :=
    fun name occurs => spellableNames name (listed name occurs)
  calc canonicalize outline.text environments
      = canonicalize (outline.spell (rewritten [])) environments := by
        rw [text, spell_congr]
        intro part name _
        simp [rewritten]
    _ = outline.spell (rewritten (environments.reverse ++ [])) :=
        canonicalize_spell spellableNames between readable
    _ = outline.canonical := by
        refine spell_congr fun part name occurs => ?_
        simp [rewritten, listed name occurs]

end Outline
end TexStatements
