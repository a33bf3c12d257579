import Mathlib.Data.List.Chain
import TexStatements.Proofs.Macro.Order
import TexStatements.Proofs.Source.Memory

/-!
# Local packages

A package is taken care of from the moment it is met, so that it is prepended at most once. Where
no package needs itself, a package that is taken care of but not yet prepended leads to the one at
hand, and cannot be needed by it. So every package comes behind those that it needs, like the
macros of a table behind those that they call, if the depth suffices for a chain of packages that
need each other.
-/
namespace TexStatements
namespace MemoryTree

open Relation SourceTree
open MacroTable (Settled Listing)

variable {tree : MemoryTree}

/-- The local packages that the source of a package names. -/
def needs (tree : MemoryTree) (package : Text) : List Text :=
  match tree.find? package with
  | some source => tree.named package source
  | none => []

/-- A package names another one in its source. -/
def Needs (tree : MemoryTree) (package needed : Text) : Prop := needed ∈ tree.needs package

/-- A package is named in the content of a file, or needed by a package that is. -/
def Reaches (tree : MemoryTree) (current content package : Text) : Prop :=
  ∃ first ∈ tree.named current content, ReflTransGen tree.Needs first package

section Gathering

variable {depth : Nat} {seen paths : List Text} {result : Packages}

/-- The packages that are taken care of are the earlier ones and those prepended. -/
theorem Gathers.mem_seen_iff (gathers : tree.Gathers depth seen paths result) {package : Text} :
    package ∈ result.seen ↔ package ∈ seen ∨ package ∈ result.loaded.map Package.path := by
  induction gathers with
  | stop => simp
  | done => simp
  | again known others ih => exact ih
  | load fresh found before others inside behind =>
    rw [behind, inside, List.map_append, List.map_cons, List.mem_append, List.mem_cons,
      List.mem_cons]
    tauto

/-- Every package is prepended at most once, and none that was taken care of. -/
theorem Gathers.nodup (gathers : tree.Gathers depth seen paths result) :
    (result.loaded.map Package.path).Nodup ∧
      ∀ package ∈ result.loaded.map Package.path, package ∉ seen := by
  induction gathers with
  | stop => exact ⟨List.nodup_nil, nofun⟩
  | done => exact ⟨List.nodup_nil, nofun⟩
  | again known others ih => exact ih
  | @load depth seen paths path source inner rest fresh found before others inside behind =>
    obtain ⟨distinct, unseen⟩ := inside
    obtain ⟨distinctRest, unseenRest⟩ := behind
    have own : path ∈ inner.seen := before.mem_seen_iff.2 (.inl (List.mem_cons_self ..))
    have later : ∀ package ∈ rest.loaded.map Package.path, package ∉ seen := by
      intro package mem earlier
      exact unseenRest package mem (before.mem_seen_iff.2 (.inl (List.mem_cons_of_mem _ earlier)))
    rw [List.map_append, List.map_cons]
    constructor
    · refine List.nodup_append.2 ⟨distinct, List.nodup_cons.2 ⟨?_, distinctRest⟩, ?_⟩
      · exact fun mem => unseenRest path mem own
      · rintro package mem other more rfl
        rcases List.mem_cons.1 more with rfl | again
        · exact unseen package mem (List.mem_cons_self ..)
        · exact unseenRest package again (before.mem_seen_iff.2 (.inr mem))
    · rw [List.forall_mem_append, List.forall_mem_cons]
      exact ⟨fun package mem earlier => unseen package mem (List.mem_cons_of_mem _ earlier), fresh,
        later⟩

/-- What is prepended is the source of the package. -/
theorem Gathers.find?_eq (gathers : tree.Gathers depth seen paths result) :
    ∀ package ∈ result.loaded, tree.find? package.path = some package.source := by
  induction gathers with
  | stop => nofun
  | done => nofun
  | again known others ih => exact ih
  | load fresh found before others inside behind =>
    rw [List.forall_mem_append, List.forall_mem_cons]
    exact ⟨inside, found, behind⟩

/-- What holds while the packages at some paths are gathered: those that are listed are settled, and
whatever else is taken care of is in progress and leads to all that are still to be gathered. -/
structure InProgress (tree : MemoryTree) (seen listed paths : List Text) : Prop where
  /-- Every listed package stands behind those that it needs. -/
  settled : Settled tree.needs listed
  /-- Listed packages are taken care of. -/
  kept : ∀ package ∈ listed, package ∈ seen
  /-- Packages in progress lead to the paths. -/
  leads : ∀ package ∈ seen, package ∈ listed ∨ ∀ path ∈ paths, TransGen tree.Needs package path

section InProgress

variable {path : Text} {listed needed gathered after : List Text}

/-- Past the first path the same packages are in progress. -/
theorem InProgress.tail (progress : tree.InProgress seen listed (path :: paths)) :
    tree.InProgress seen listed paths := by
  refine ⟨progress.settled, progress.kept, fun package mem => ?_⟩
  exact (progress.leads package mem).imp_right fun leads other isLater =>
    leads other (List.mem_cons_of_mem _ isLater)

/-- A package that is taken care of and at hand is listed: if it were in progress, it would lead to
itself. -/
theorem InProgress.mem_listed (progress : tree.InProgress seen listed (path :: paths))
    (acyclic : ¬TransGen tree.Needs path path) (known : path ∈ seen) : path ∈ listed := by
  rcases progress.leads path known with mem | leads
  · exact mem
  · exact absurd (leads path (List.mem_cons_self ..)) acyclic

/-- The first package comes to be in progress, and leads to those that it names. -/
theorem InProgress.enter (progress : tree.InProgress seen listed (path :: paths))
    (names : ∀ package ∈ needed, tree.Needs path package) :
    tree.InProgress (path :: seen) listed needed := by
  refine ⟨progress.settled, fun package mem => List.mem_cons_of_mem _ (progress.kept package mem),
    fun package mem => ?_⟩
  rcases List.mem_cons.1 mem with rfl | earlier
  · exact .inr fun other named => .single (names other named)
  · exact (progress.leads package earlier).imp_right fun leads other named =>
      (leads path (List.mem_cons_self ..)).tail (names other named)

/-- Once the first package is listed behind those that were gathered from it, what is in progress is
what was before. -/
theorem InProgress.leave (progress : tree.InProgress seen listed (path :: paths))
    (settled : Settled tree.needs (listed ++ gathered ++ [path]))
    (known : ∀ package, package ∈ after ↔ package ∈ path :: seen ∨ package ∈ gathered) :
    tree.InProgress after (listed ++ gathered ++ [path]) paths := by
  refine ⟨settled, fun package mem => ?_, fun package mem => ?_⟩
  · rw [known, List.mem_cons]
    rw [List.mem_append, List.mem_append, List.mem_singleton] at mem
    rcases mem with (old | isGathered) | isPath
    · exact .inl (.inr (progress.kept package old))
    · exact .inr isGathered
    · exact .inl (.inl isPath)
  · rw [known, List.mem_cons] at mem
    rw [List.mem_append, List.mem_append, List.mem_singleton]
    rcases mem with (isPath | earlier) | isGathered
    · exact .inl (.inr isPath)
    · exact (progress.tail.leads package earlier).imp_left fun old => .inl (.inl old)
    · exact .inl (.inl (.inr isGathered))

end InProgress

/-- Where no package needs itself and the depth suffices, packages are listed behind those that they
need. -/
theorem Gathers.listing (gathers : tree.Gathers depth seen paths result) {listed : List Text}
    (progress : tree.InProgress seen listed paths)
    (acyclic : ∀ path ∈ paths, ∀ package, ReflTransGen tree.Needs path package →
      ¬TransGen tree.Needs package package)
    (deep : ∀ path ∈ paths, ∀ chain, List.IsChain tree.Needs (path :: chain) →
      chain.length < depth) :
    Listing tree.needs paths listed (listed ++ result.loaded.map Package.path) := by
  induction gathers generalizing listed with
  | @stop seen paths =>
    rw [List.map_nil, List.append_nil]
    cases paths with
    | nil => exact .nil progress.settled
    | cons path paths =>
      have short := deep path (List.mem_cons_self ..) [] (List.isChain_singleton path)
      exact absurd short (Nat.not_lt_zero _)
  | done =>
    rw [List.map_nil, List.append_nil]
    exact .nil progress.settled
  | @again depth seen paths path result known others ih =>
    rw [List.forall_mem_cons] at acyclic deep
    have here := progress.mem_listed (acyclic.1 path .refl) known
    exact (Listing.of_mem progress.settled here).cons (ih progress.tail acyclic.2 deep.2)
  | @load depth seen paths path source inner rest fresh found before others inside behind =>
    rw [List.forall_mem_cons] at acyclic deep
    have names : tree.needs path = tree.named path source := by rw [needs, found]
    have step : ∀ package ∈ tree.named path source, tree.Needs path package := by
      intro package named
      rwa [Needs, names]
    have needed : Listing tree.needs (tree.needs path) listed
        (listed ++ inner.loaded.map Package.path) := by
      rw [names]
      refine inside (progress.enter step) ?_ ?_
      · intro first named package reached
        exact acyclic.1 package (.head (step first named) reached)
      · intro first named chain isChain
        have longer := deep.1 (first :: chain)
          (List.isChain_cons_cons.2 ⟨step first named, isChain⟩)
        exact Nat.lt_of_succ_lt_succ longer
    have unlisted : path ∉ listed ++ inner.loaded.map Package.path := by
      rw [List.mem_append, not_or]
      exact ⟨fun mem => fresh (progress.kept path mem),
        fun mem => before.nodup.2 path mem (List.mem_cons_self ..)⟩
    have one := needed.concat unlisted
    have later := behind (progress.leave one.settled fun package => before.mem_seen_iff) acyclic.2
      deep.2
    rw [List.map_append, List.map_cons]
    have whole := one.cons later
    rwa [List.append_assoc, List.append_assoc] at whole

end Gathering

section Order

variable {depth : Nat} {current content : Text} {result : Packages}

/-- On a chain every package needs those behind it, directly or through others. -/
theorem pairwise_of_isChain {chain : List Text} (isChain : chain.IsChain tree.Needs) :
    chain.Pairwise (TransGen tree.Needs) :=
  List.isChain_iff_pairwise.1 (isChain.imp fun _ _ => TransGen.single)

/-- Where no package needs itself, those on a chain are different. -/
theorem nodup_of_isChain {chain : List Text}
    (acyclic : ∀ package ∈ chain, ¬TransGen tree.Needs package package)
    (isChain : chain.IsChain tree.Needs) : chain.Nodup := by
  refine (pairwise_of_isChain isChain).imp_of_mem ?_
  rintro package other mem - leads rfl
  exact acyclic package mem leads

/-- On a chain that starts with a named package every package is reached. -/
theorem reaches_of_isChain {first : Text} {chain : List Text}
    (named : first ∈ tree.named current content)
    (isChain : (first :: chain).IsChain tree.Needs) :
    ∀ package ∈ first :: chain, tree.Reaches current content package := by
  have leads := (List.pairwise_cons.1 (pairwise_of_isChain isChain)).1
  rw [List.forall_mem_cons]
  refine ⟨⟨first, named, .refl⟩, fun package mem => ?_⟩
  exact ⟨first, named, (leads package mem).to_reflTransGen⟩

/-- Where no package needs itself and the depth suffices for every chain of packages, the packages
that are prepended are those that the content reaches, each behind those that it needs. -/
theorem collected_listing
    (gathers : tree.Gathers depth [] (tree.named current content) result)
    (acyclic : ∀ package, tree.Reaches current content package →
      ¬TransGen tree.Needs package package)
    (deep : ∀ chain : List Text, chain.IsChain tree.Needs → chain.Nodup →
      (∀ package ∈ chain, tree.Reaches current content package) → chain.length ≤ depth) :
    Listing tree.needs (tree.named current content) [] (result.loaded.map Package.path) := by
  refine gathers.listing ⟨.nil, nofun, nofun⟩ ?_ ?_
  · exact fun path named package reached => acyclic package ⟨path, named, reached⟩
  · intro path named chain isChain
    have reached := reaches_of_isChain named isChain
    have distinct : (path :: chain).Nodup :=
      nodup_of_isChain (fun package mem => acyclic package (reached package mem)) isChain
    exact deep _ isChain distinct reached

end Order

/-- What is prepended to a document with its files inlined are the sources of local packages, each
package once, whatever names what. Where no package that is reached needs itself, and there are at
least as many levels as packages on any chain of them, every package that is reached is prepended,
behind all that it needs. A single package is a chain, so that there is a level if any is
reached. -/
theorem packages_once_behind_needed (tree : MemoryTree) (depth : Nat) (current content : Text) :
    ∃ (body : Text) (packages : Packages),
      tree.toSourceTree.inlineFiles depth current content = pure body ∧
      tree.toSourceTree.collectPackages depth current body [] = pure packages ∧
      tree.toSourceTree.inlineImports depth current content =
        pure (preamble packages.loaded ++ body) ∧
      (∀ package ∈ packages.loaded, tree.read package.path = .ok package.source) ∧
      (packages.loaded.map Package.path).Nodup ∧
      ((∀ package, tree.Reaches current body package → ¬TransGen tree.Needs package package) →
        (∀ chain : List Text, chain.IsChain tree.Needs → chain.Nodup →
          (∀ package ∈ chain, tree.Reaches current body package) → chain.length ≤ depth) →
        (∀ package, tree.Reaches current body package →
          package ∈ packages.loaded.map Package.path) ∧
        ∀ before package after,
          packages.loaded.map Package.path = before ++ package :: after →
            ∀ needed, tree.Needs package needed → needed ∈ before) := by
  obtain ⟨body, inlined⟩ := tree.inlineFiles_total depth current content
  obtain ⟨packages, collected, gathers⟩ := tree.collectPackages_gathers depth current body []
  refine ⟨body, packages, inlined, collected, ?_, ?_, gathers.nodup.1, fun acyclic deep => ?_⟩
  · rw [inlineImports, inlined, pure_bind, collected, pure_bind]
  · exact fun package mem => read_eq_ok_iff.2 (gathers.find?_eq package mem)
  · have listing := collected_listing gathers acyclic deep
    constructor
    · rintro package ⟨first, named, leads⟩
      exact listing.settled.mem_of_reached (listing.listed first named) leads
    · intro before package after whole needed need
      have settled : Settled tree.needs (before ++ package :: after) := whole ▸ listing.settled
      exact settled.behind need

/-- A finite check of both conditions: the packages of a settled list, with the named ones among
them, do not need themselves, and there are no more of them on a chain. -/
theorem acyclic_of_settled (current content : Text) {known : List Text}
    (settled : Settled tree.needs known)
    (starts : ∀ package ∈ tree.named current content, package ∈ known) :
    (∀ package, tree.Reaches current content package → ¬TransGen tree.Needs package package) ∧
      ∀ chain : List Text, chain.Nodup →
        (∀ package ∈ chain, tree.Reaches current content package) →
          chain.length ≤ known.length := by
  have inside : ∀ package, tree.Reaches current content package → package ∈ known :=
    fun package ⟨first, named, leads⟩ => settled.mem_of_reached (starts first named) leads
  constructor
  · exact fun package reached => settled.acyclic (inside package reached)
  · intro chain distinct reached
    have subset : chain ⊆ known := fun package mem => inside package (reached package mem)
    exact (List.Nodup.subperm distinct subset).length_le

/-- Three packages: the first names the other two, and the second the third. That the second names
the first is commented out. -/
def chainedPackages : MemoryTree :=
  ((MemoryTree.add {} "a.sty".toList "\\usepackage\x7bc, lib/b\x7d".toList).add "c.sty".toList
    "\\newtheorem\x7bthm\x7d\x7bTheorem\x7d".toList).add "lib/b.sty".toList
      "\\RequirePackage[x]\x7b../c.sty\x7d % \\usepackage\x7ba\x7d".toList

/-- A document that loads the first and the third, and the first again. -/
def chainedContent : Text := "\\usepackage\x7ba,c\x7d \\usepackage\x7ba.sty\x7d".toList

/-- Three levels suffice for a chain of three packages: each is prepended once, the first one behind
the other two. -/
theorem packages_once_behind_needed_chained :
    ∃ packages : Packages,
      (chainedPackages.toSourceTree.inlineImports 3 "main.tex".toList chainedContent).run =
        Except.ok (preamble packages.loaded ++ chainedContent) ∧
      (packages.loaded.map Package.path).Nodup ∧
      "c.sty".toList ∈ packages.loaded.map Package.path ∧
      ∀ before after, packages.loaded.map Package.path = before ++ "a.sty".toList :: after →
        "lib/b.sty".toList ∈ before := by
  obtain ⟨body, packages, inlined, -, result, -, once, behind⟩ :=
    packages_once_behind_needed chainedPackages 3 "main.tex".toList chainedContent
  have plain : uncommented inclusion chainedContent = [] :=
    List.isEmpty_iff.1 (by decide +kernel)
  obtain rfl : body = chainedContent :=
    Except.ok.inj (inlined.symm.trans (inlineFiles_of_plain plain chainedPackages 3 _))
  have first : Settled chainedPackages.needs ([] ++ ["c.sty".toList]) :=
    Settled.nil.concat (by decide) (by decide +kernel)
  have second : Settled chainedPackages.needs (["c.sty".toList] ++ ["lib/b.sty".toList]) :=
    first.concat (by decide) (by decide +kernel)
  have third : Settled chainedPackages.needs
      (["c.sty".toList, "lib/b.sty".toList] ++ ["a.sty".toList]) :=
    second.concat (by decide) (by decide +kernel)
  obtain ⟨acyclic, short⟩ :=
    acyclic_of_settled "main.tex".toList chainedContent third (by decide +kernel)
  obtain ⟨complete, ordered⟩ := behind acyclic fun chain _ => short chain
  refine ⟨packages, result, once, complete _ ⟨_, ?_, .refl⟩, fun before after whole => ?_⟩
  · decide +kernel
  · refine ordered before _ after whole _ ?_
    show _ ∈ chainedPackages.needs _
    decide +kernel

end MemoryTree
end TexStatements
