import TexStatements.Proofs.Text.Lines
import TexStatements.Source.Disk

/-!
# Relative paths

What a path normalizes to depends on two things: whether it starts at the root, and the components
that move, its steps (`normalize_congr`). The path of a directory on a disk is spelled differently
from the part of a path before its last separator, but has the same steps, so that relative paths
are resolved alike on a disk and in memory.
-/
namespace TexStatements
namespace Path

/-- Whether a component is a step: it leads to another directory. -/
def isStep (component : Text) : Bool := !isTrivial component

/-- The steps of a path in order. -/
def steps (path : Text) : List Text := (path.fields isSeparator).filter isStep

section Steps

variable {path other directory relative : Text}

/-- Components that are no steps need not be entered. -/
theorem foldl_enter_filter (components entered : List Text) :
    components.foldl enter entered = (components.filter isStep).foldl enter entered := by
  induction components generalizing entered with
  | nil => rfl
  | cons component components ih =>
    rw [List.foldl_cons, List.filter_cons, ih]
    cases trivial : isTrivial component with
    | true => simp [enter, isStep, trivial]
    | false => simp [isStep, trivial]

/-- Paths with the same steps that both start at the root, or both do not, are normalized alike. -/
theorem normalize_congr (rooted : path.head? = some '/' ↔ other.head? = some '/')
    (same : steps path = steps other) : normalize path = normalize other := by
  unfold steps at same
  simp only [normalize, foldl_enter_filter (path.fields isSeparator), same, rooted,
    ← foldl_enter_filter (other.fields isSeparator)]

/-- The steps on both sides of a slash. -/
theorem steps_append (front rest : Text) :
    steps (front ++ '/' :: rest) = steps front ++ steps rest := by
  rw [steps, Text.fields_append (by decide), List.filter_append]
  rfl

/-- A slash at the start is no step. -/
theorem steps_slash (rest : Text) : steps ('/' :: rest) = steps rest := by
  have same := steps_append [] rest
  rwa [List.nil_append] at same

/-- A point at the start is no step. -/
theorem steps_point (rest : Text) : steps ('.' :: '/' :: rest) = steps rest := by
  have same := steps_append ['.'] rest
  rwa [List.singleton_append] at same

/-- Components without separators, joined by slashes, have the steps among them. -/
theorem steps_of_join {components : List Text}
    (whole : ∀ component ∈ components, ∀ c ∈ component, isSeparator c = false) :
    steps (Text.join ['/'] components) = components.filter isStep := by
  by_cases empty : components = []
  · subst empty
    rfl
  · rw [steps, Text.fields_join (by decide) whole empty]

/-- Without backslashes only slashes divide a path. -/
theorem fields_of_plain (plain : '\\' ∉ path) :
    path.fields isSeparator = path.fields (· == '/') := by
  refine Text.fields_congr fun c mem => ?_
  have other : (c == '\\') = false := beq_eq_false_iff_ne.2 fun same => plain (same ▸ mem)
  rw [isSeparator, other, Bool.or_false]

/-- A component of a path without backslashes has no separators. -/
theorem isSeparator_of_mem_fields (plain : '\\' ∉ path) {component : Text}
    (mem : component ∈ path.fields (· == '/')) : ∀ c ∈ component, isSeparator c = false := by
  rw [← fields_of_plain plain] at mem
  exact fun c inside => (Text.undivided_of_mem_fields mem c inside).2

end Steps

section Join

variable {directory relative : Text}

/-- Behind a directory a relative path goes on with its own steps. -/
theorem steps_join (unrooted : relative.head? ≠ some '/') :
    steps (join directory relative) = steps directory ++ steps relative := by
  by_cases empty : directory = []
  · subst empty
    rw [join, if_pos (by simp)]
    rfl
  · by_cases ends : directory.getLast? = some '/'
    · obtain ⟨front, rfl⟩ := List.getLast?_eq_some_iff.1 ends
      rw [join, if_neg (by simp [unrooted]), if_pos ends, List.append_assoc,
        List.singleton_append, steps_append, steps_append]
      simp [steps, isStep, isTrivial, Text.fields]
    · rw [join, if_neg (by simp [unrooted, empty]), if_neg ends, steps_append]

/-- Behind a directory a relative path starts where the directory does. -/
theorem head?_join (unrooted : relative.head? ≠ some '/') :
    (join directory relative).head? = some '/' ↔ directory.head? = some '/' := by
  cases directory with
  | nil =>
    rw [join, if_pos (by simp)]
    simp [unrooted]
  | cons first directory =>
    rw [join, if_neg (by simp [unrooted])]
    split <;> simp

end Join

section Parent

variable {path : Text} {components : List Text}

/-- The ways to divide a path on a disk. -/
inductive Divided : Text → Parts → Prop where
  /-- The path starts at the root. -/
  | root (rest : Text) : Divided ('/' :: rest) ⟨['/'], rest.fields (· == '/')⟩
  /-- The path is a point. -/
  | point : Divided ['.'] ⟨['.'], [[]]⟩
  /-- The path starts with a point. -/
  | below (rest : Text) : Divided ('.' :: '/' :: rest) ⟨['.'], [] :: rest.fields (· == '/')⟩
  /-- The path starts with a name, or is empty. -/
  | plain {path : Text} (unrooted : path.head? ≠ some '/') :
      Divided path ⟨[], path.fields (· == '/')⟩

/-- A path on a disk is divided in one of these ways. -/
theorem divided_parts (path : Text) : Divided path (parts path) := by
  unfold parts
  split
  · exact .root _
  · exact .point
  · exact .below _
  · rename_i unrooted _ _
    refine .plain fun rooted => ?_
    obtain ⟨rest, rfl⟩ := List.head?_eq_some_iff.1 rooted
    exact unrooted rest rfl

/-- The steps of a path are those among its components. -/
theorem Divided.steps_eq {parts : Parts} (divided : Divided path parts) (plain : '\\' ∉ path) :
    steps path = parts.components.filter isStep := by
  cases divided with
  | root rest =>
    rw [List.mem_cons, not_or] at plain
    rw [steps_slash, steps, fields_of_plain plain.2]
  | point => rfl
  | below rest =>
    rw [List.mem_cons, List.mem_cons, not_or, not_or] at plain
    rw [steps_point, steps, fields_of_plain plain.2.2]
    rfl
  | plain unrooted => rw [steps, fields_of_plain plain]

/-- The path of the first components has the steps among them. -/
theorem Divided.steps_front {parts : Parts} (divided : Divided path parts)
    (plain : '\\' ∉ path) (start : components <+: parts.components) :
    steps (parts.head ++ Text.join ['/'] components) = components.filter isStep := by
  cases divided with
  | root rest =>
    rw [List.mem_cons, not_or] at plain
    have whole := steps_of_join fun component mem =>
      isSeparator_of_mem_fields plain.2 (start.subset mem)
    rw [List.singleton_append, steps_slash, whole]
  | point =>
    rcases List.prefix_cons_iff.1 start with rfl | ⟨more, rfl, ends⟩
    · rfl
    · rw [List.prefix_nil.1 ends]
      rfl
  | below rest =>
    rw [List.mem_cons, List.mem_cons, not_or, not_or] at plain
    rcases List.prefix_cons_iff.1 start with rfl | ⟨more, rfl, further⟩
    · rfl
    · have whole := steps_of_join fun component mem =>
        isSeparator_of_mem_fields plain.2.2 (further.subset mem)
      by_cases last : more = []
      · subst last
        rfl
      · rw [Text.join_cons last, List.nil_append, List.singleton_append, List.singleton_append,
          steps_point, whole]
        rfl
  | plain unrooted =>
    exact steps_of_join fun component mem => isSeparator_of_mem_fields plain (start.subset mem)

/-- The path of the first components starts where the path does. -/
theorem Divided.head?_front {parts : Parts} (divided : Divided path parts)
    (start : components <+: parts.components) :
    (parts.head ++ Text.join ['/'] components).head? = some '/' ↔ path.head? = some '/' := by
  cases divided with
  | root rest => simp
  | point => simp
  | below rest => simp
  | @plain path unrooted =>
    refine iff_of_false (fun rooted => unrooted ?_) unrooted
    obtain ⟨rest, isRooted⟩ := List.head?_eq_some_iff.1 rooted
    obtain ⟨others, joined⟩ := start
    have front := Text.join_prefix_append ['/'] components others
    rw [joined, Text.join_fields, ← List.nil_append (Text.join _ _), isRooted] at front
    obtain ⟨behind, same⟩ := front
    rw [← same]
    rfl

/-- Leaving out components at the start that are no steps leaves the steps. -/
theorem filter_dropWhile (components : List Text) :
    (components.dropWhile isTrivial).filter isStep = components.filter isStep := by
  induction components with
  | nil => rfl
  | cons component components ih =>
    rw [List.dropWhile_cons, List.filter_cons]
    cases trivial : isTrivial component with
    | true => simpa [isStep, trivial] using ih
    | false => simp [isStep, trivial]

/-- Before the last step of some components are the steps of those that are left when what is no
step is left out behind them. -/
theorem filter_eq_of_dropWhile {last : Text} {outer : List Text}
    (found : components.reverse.dropWhile isTrivial = last :: outer) :
    components.filter isStep = (outer.dropWhile isTrivial).reverse.filter isStep ++ [last] := by
  have step : isStep last = true := by
    have leads := List.head?_dropWhile_not isTrivial components.reverse
    rw [found] at leads
    exact congrArg not leads
  calc
    components.filter isStep = (components.reverse.filter isStep).reverse := by
      rw [List.filter_reverse, List.reverse_reverse]
    _ = ((last :: outer).filter isStep).reverse := by rw [← filter_dropWhile, found]
    _ = (outer.dropWhile isTrivial).reverse.filter isStep ++ [last] := by
      rw [List.filter_cons_of_pos step, List.reverse_cons, List.filter_reverse, filter_dropWhile]

/-- What is left when components behind the last step are left out stands at the start. -/
theorem prefix_of_dropWhile {last : Text} {outer : List Text}
    (found : components.reverse.dropWhile isTrivial = last :: outer) :
    (outer.dropWhile isTrivial).reverse <+: components := by
  have inner : outer.dropWhile isTrivial <:+ last :: outer :=
    (List.dropWhile_suffix _).trans (List.suffix_cons last outer)
  have whole : last :: outer <:+ components.reverse := found ▸ List.dropWhile_suffix _
  rw [← List.reverse_suffix, List.reverse_reverse]
  exact inner.trans whole

/-- The directory of a path has the steps before the last one, and starts where the path does. -/
theorem parent?_of_steps {before : List Text} {last : Text} (plain : '\\' ∉ path)
    (leads : steps path = before ++ [last]) :
    ∃ directory, parent? path = some directory ∧ steps directory = before ∧
      (directory.head? = some '/' ↔ path.head? = some '/') := by
  have divided := divided_parts path
  have among := divided.steps_eq plain
  rw [leads] at among
  cases found : (parts path).components.reverse.dropWhile isTrivial with
  | nil =>
    have none := filter_dropWhile (parts path).components.reverse
    rw [found, List.filter_reverse, ← among, List.reverse_append] at none
    cases none
  | cons step outer =>
    have start := prefix_of_dropWhile found
    refine ⟨_, by rw [parent?, found], ?_, divided.head?_front start⟩
    rw [divided.steps_front plain start]
    rw [filter_eq_of_dropWhile found] at among
    exact (List.append_inj_left' among rfl).symm

end Parent

section Directory

variable {front last path : Text}

/-- The part of a path before its last separator. -/
theorem directory?_append (whole : ∀ c ∈ last, isSeparator c = false) :
    MemoryTree.directory? (front ++ '/' :: last) = some front := by
  have dropped : (front ++ '/' :: last).reverse.dropWhile (fun c => !isSeparator c) =
      '/' :: front.reverse := by
    rw [List.reverse_append, List.reverse_cons, List.append_assoc,
      List.dropWhile_append_of_pos]
    · rfl
    · intro c mem
      rw [whole c (List.mem_reverse.1 mem)]
      rfl
  rw [MemoryTree.directory?, dropped]
  exact congrArg some (List.reverse_reverse front)

/-- A path without separators has no directory. -/
theorem directory?_of_undivided (whole : ∀ c ∈ path, isSeparator c = false) :
    MemoryTree.directory? path = none := by
  have dropped : path.reverse.dropWhile (fun c => !isSeparator c) = [] := by
    rw [← List.append_nil path.reverse, List.dropWhile_append_of_pos]
    · rfl
    · intro c mem
      rw [whole c (List.mem_reverse.1 mem)]
      rfl
  rw [MemoryTree.directory?, dropped]

/-- A path is its last component, or has a slash before that. -/
theorem eq_or_eq_append_of_getLast? (ends : (path.fields (· == '/')).getLast? = some last) :
    path = last ∨ ∃ front, path = front ++ '/' :: last := by
  by_cases slash : '/' ∈ path.reverse
  · obtain ⟨behind, before, whole, free⟩ := List.eq_append_cons_of_mem slash
    have split : path = before.reverse ++ '/' :: behind.reverse := by
      rw [← List.reverse_reverse path, whole]
      simp
    have undivided : ∀ c ∈ behind.reverse, (c == '/') = false := fun c mem =>
      beq_eq_false_iff_ne.2 fun same => free (same ▸ List.mem_reverse.1 mem)
    rw [split, Text.fields_append (by rfl), Text.fields_of_undivided undivided,
      List.getLast?_concat] at ends
    exact .inr ⟨before.reverse, Option.some.inj ends ▸ split⟩
  · have undivided : ∀ c ∈ path, (c == '/') = false := fun c mem =>
      beq_eq_false_iff_ne.2 fun same => slash (same ▸ List.mem_reverse.2 mem)
    rw [Text.fields_of_undivided undivided] at ends
    exact .inl (Option.some.inj ends)

end Directory

end Path

section Resolve

variable {base relative path last : Text} {before : List Text}

/-- An absolute path is resolved to itself on a disk. -/
theorem DiskTree.resolve_of_rooted (rooted : relative.head? = some '/') :
    DiskTree.resolve base relative = Path.normalize relative := by
  have absolute : ∀ directory, Path.join directory relative = relative := fun directory => by
    rw [Path.join, if_pos (by simp [rooted])]
  rw [DiskTree.resolve]
  split
  · rw [absolute]
  · rfl

/-- On a disk a relative path is resolved to any path that starts where the base does, and has the
steps of the base but for the last one, and then its own. -/
theorem DiskTree.resolve_of_steps (plain : '\\' ∉ base) (unrooted : relative.head? ≠ some '/')
    (leads : Path.steps base = before ++ [last])
    (start : path.head? = some '/' ↔ base.head? = some '/')
    (same : Path.steps path = before ++ Path.steps relative) :
    DiskTree.resolve base relative = Path.normalize path := by
  obtain ⟨directory, parent, inner, outset⟩ := Path.parent?_of_steps plain leads
  rw [DiskTree.resolve, parent]
  refine Path.normalize_congr ?_ ?_
  · rw [Path.head?_join unrooted, outset, start]
  · rw [Path.steps_join unrooted, inner, same]

/-- A relative path is resolved alike on a disk and in memory, if the path that it is relative to
ends with a name or a pair of points: against the directory of that path, absolute paths aside. -/
theorem resolve_alike (plainBase : '\\' ∉ base) (plainRelative : '\\' ∉ relative)
    (ends : (base.fields (· == '/')).getLast? = some last) (nonempty : last ≠ [])
    (moves : last ≠ ['.']) :
    DiskTree.resolve base relative = MemoryTree.resolve base relative := by
  have whole : ∀ c ∈ last, Path.isSeparator c = false :=
    Path.isSeparator_of_mem_fields plainBase (List.mem_of_getLast? ends)
  have step : Path.steps last = [last] := by
    rw [Path.steps, Text.fields_of_undivided whole]
    simp [Path.isStep, Path.isTrivial, nonempty, moves]
  by_cases rooted : relative.head? = some '/'
  · rw [DiskTree.resolve_of_rooted rooted, MemoryTree.resolve, if_pos (by rw [rooted]; rfl)]
  · have separated : ¬relative.head?.any Path.isSeparator = true := by
      cases relative with
      | nil => nofun
      | cons first rest =>
        have noSlash : first ≠ '/' := fun same => rooted (congrArg some same)
        have noBackslash : first ≠ '\\' := fun same => plainRelative (same ▸ List.mem_cons_self ..)
        simp [Path.isSeparator, noSlash, noBackslash]
    rw [MemoryTree.resolve, if_neg separated]
    rcases Path.eq_or_eq_append_of_getLast? ends with rfl | ⟨front, rfl⟩
    · -- A base of one component names a file beside which the relative path starts.
      have unrooted : base.head? ≠ some '/' := by
        intro isRooted
        exact absurd (whole '/' (List.mem_of_mem_head? isRooted)) (by decide)
      rw [Path.directory?_of_undivided whole]
      exact DiskTree.resolve_of_steps plainBase rooted (step.trans (List.nil_append _).symm)
        (iff_of_false rooted unrooted) (List.nil_append _).symm
    · rw [Path.directory?_append whole]
      refine DiskTree.resolve_of_steps plainBase rooted
        ((Path.steps_append front last).trans (congrArg (Path.steps front ++ ·) step)) ?_
        (Path.steps_append front relative)
      rw [List.head?_append, List.head?_append]
      rfl

/-- Points, doubled slashes and steps out of the tree make no difference. -/
theorem resolve_alike_spellings :
    DiskTree.resolve "/.//a/b/./..".toList "../c//./d.tex".toList =
        MemoryTree.resolve "/.//a/b/./..".toList "../c//./d.tex".toList ∧
      MemoryTree.resolve "/.//a/b/./..".toList "../c//./d.tex".toList = "/a/c/d.tex".toList ∧
      DiskTree.resolve "main.tex".toList "./../../x".toList =
        MemoryTree.resolve "main.tex".toList "./../../x".toList := by
  have points : (Text.fields (· == '/') "/.//a/b/./..".toList).getLast? = some "..".toList := by
    decide
  have name : (Text.fields (· == '/') "main.tex".toList).getLast? = some "main.tex".toList := by
    decide
  exact ⟨resolve_alike (by decide) (by decide) points (by decide) (by decide), by decide,
    resolve_alike (by decide) (by decide) name (by decide) (by decide)⟩

end Resolve

end TexStatements
