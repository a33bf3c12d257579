import TexStatements.Comment
import TexStatements.Source.Tree

/-!
# Inlining

A document is brought into one text by putting included files in place of the commands that include
them, and local packages in front. Included files are inlined in turn, down to a given depth;
commands in comments stay as they are. A package is prepended once, behind the packages that it
loads itself.
-/
namespace TexStatements

/-- The reader of commands that include a file: what stands in their braces. -/
def inclusion : Reader Text :=
  (controlWord ["input".toList, "include".toList, "subfile".toList].contains).thenFlatGroup
    fun _ inner => if inner.isEmpty then none else some inner

/-- A text behind the optional argument that may start it, blanks included. -/
def skipOptional? (text : Text) : Option Text :=
  match text.trimStart with
  | '[' :: inner =>
    match inner.dropWhile (· != ']') with
    | _ :: rest => some rest
    | [] => none
  | rest => some rest

/-- The text behind an optional argument is a suffix. -/
theorem skipOptional?_suffix {text rest : Text} (skipped : skipOptional? text = some rest) :
    rest <:+ text := by
  unfold skipOptional? at skipped
  split at skipped
  · rename_i inner opened
    split at skipped
    · rename_i closing tail dropped
      cases skipped
      have behind := Text.trimStart_suffix text
      rw [opened] at behind
      have within := List.dropWhile_suffix (l := inner) (· != ']')
      rw [dropped] at within
      exact ((List.suffix_cons _ _).trans within).trans ((List.suffix_cons _ _).trans behind)
    · simp at skipped
  · cases skipped
    exact Text.trimStart_suffix text

/-- The reader of a control word of a set with an optional argument behind it. -/
def optionedWord (words : List Text) : Reader Unit :=
  (controlWord words.contains).andThen
    (fun _ text => (skipOptional? text).map fun rest => ((), rest))
    (by
      intro value text result rest success
      simp only [Option.map_eq_some_iff, Prod.mk.injEq] at success
      obtain ⟨tail, skipped, -, rfl⟩ := success
      exact skipOptional?_suffix skipped)

/-- The reader of commands that load packages: what stands in their braces. -/
def packageLoading : Reader Text :=
  (optionedWord ["usepackage".toList, "RequirePackage".toList]).thenFlatGroup
    fun _ inner => if inner.isEmpty then none else some inner

/-- The places of a reader that are not in a comment. -/
def uncommented {α : Type} (reader : Reader α) (content : Text) : List (Found α) :=
  (reader.occurrences content).filter fun found =>
    !Comment.opensIn (content.before found.place)

/-- The note that stands in place of a file that was not found. -/
def unresolvedNote (target : Text) : Text :=
  "% Could not resolve: ".toList ++ target ++ ['\n']

namespace SourceTree

variable {m : Type → Type} [Monad m]

/-- Replace places of a text, which are in order and apart, from a pending suffix on. -/
def replaceFrom {α : Type} (replacement : α → ExceptT ReadFailure m Text) :
    Text → List (Found α) → ExceptT ReadFailure m Text
  | pending, [] => pure pending
  | pending, found :: more => do
    let inserted ← replacement found.value
    let rest ← replaceFrom replacement found.rest more
    pure (pending.before found.place ++ (inserted ++ rest))

/-- Put included files in place of the commands that include them, down to a depth. -/
def inlineFiles (tree : SourceTree m) : Nat → Text → Text → ExceptT ReadFailure m Text
  | 0, _, content => pure content
  | depth + 1, current, content =>
    replaceFrom (fun inner => do
      match ← tree.locate? current inner.trim with
      | some path => do
        let included ← tree.read path
        let processed ← tree.inlineFiles depth path included
        pure (processed ++ ['\n'])
      | none => pure (unresolvedNote inner.trim)) content (uncommented inclusion content)

/-- A name without the package extensions that end it. -/
def dropPackageExtensions (name : Text) : Text :=
  if name.endsWith packageExtension then
    dropPackageExtensions (name.take (name.length - packageExtension.length))
  else name
termination_by name.length
decreasing_by
  rename_i ends
  have positive : 0 < packageExtension.length := by decide
  have longer : 0 < name.length := by
    cases name with
    | nil => exact absurd ends (by decide)
    | cons first rest => simp
  simp only [List.length_take]
  omega

/-- The file names of the packages that a text loads, in order. -/
def packageFiles (content : Text) : List Text :=
  (uncommented packageLoading content).flatMap fun found =>
    ((found.value.fields (· == ',')).filterMap Text.nonBlank?).map fun name =>
      dropPackageExtensions name ++ packageExtension

/-- A local package. -/
structure Package where
  /-- The path of its file. -/
  path : Text
  /-- What the file holds. -/
  source : Text
deriving DecidableEq

/-- The local packages gathered from a text. -/
structure Packages where
  /-- The paths that are taken care of. -/
  seen : List Text
  /-- The packages in the order in which they are prepended. -/
  loaded : List Package

/-- The text that packages put in front of a document, each source ending its line. -/
def preamble (packages : List Package) : Text :=
  packages.flatMap fun package => package.source ++ ['\n']

/-- Gather the local packages named in a file, given how those of a package in turn are gathered. A
package is taken care of from the moment it is met, so that packages that load each other are
gathered once. -/
def gather (tree : SourceTree m)
    (further : Text → Text → List Text → ExceptT ReadFailure m Packages) (current : Text) :
    List Text → List Text → ExceptT ReadFailure m Packages
  | seen, [] => pure ⟨seen, []⟩
  | seen, file :: files => do
    match ← tree.locate? current file with
    | none => tree.gather further current seen files
    | some path =>
      if seen.contains path then tree.gather further current seen files
      else do
        let source ← tree.read path
        let inner ← further path source (path :: seen)
        let rest ← tree.gather further current inner.seen files
        pure ⟨rest.seen, inner.loaded ++ ⟨path, source⟩ :: rest.loaded⟩

/-- Gather all local packages that a text needs, down to a depth. -/
def collectPackages (tree : SourceTree m) :
    Nat → Text → Text → List Text → ExceptT ReadFailure m Packages
  | 0, _, _, seen => pure ⟨seen, []⟩
  | depth + 1, current, content, seen =>
    tree.gather (tree.collectPackages depth) current seen (packageFiles content)

/-- Bring a document into one text: included files in their places, local packages in front. -/
def inlineImports (tree : SourceTree m) (depth : Nat) (current content : Text) :
    ExceptT ReadFailure m Text := do
  let body ← tree.inlineFiles depth current content
  let packages ← tree.collectPackages depth current body []
  pure (preamble packages.loaded ++ body)

end SourceTree
end TexStatements
