import Mathlib.Data.List.Perm.Subperm
import Mathlib.Dynamics.PeriodicPts.Defs
import Mathlib.Logic.Relation
import TexStatements.Proofs.Declaration.Table

/-!
# The counter behind an alias

The aliases of a text lead from a name to the counter that it stands for, and on from there if that
is an alias too. Such a chain of names ends, or it runs into a cycle. Following it turn by turn,
with every name on the way noted down, stops at the end of the chain or where a name comes up for
the second time, and that name is the first one of the chain that lies on a cycle
(`resolve_canonical`). So a name that something was resolved to stands for itself, and putting
counters in place of their aliases twice is doing it once.
-/
namespace TexStatements
namespace AliasMap

open Function Relation

/-- One link further along a chain of aliases, which may have ended. -/
def next (aliases : AliasMap) (name? : Option Text) : Option Text :=
  name?.bind (NameMap.find? aliases)

/-- The name that so many links lead to, if the chain is that long. -/
def chain (aliases : AliasMap) (name : Text) (links : Nat) : Option Text :=
  aliases.next^[links] (some name)

/-- The chain of a name comes to an end. -/
def Ends (aliases : AliasMap) (name : Text) : Prop := ∃ links, aliases.chain name links = none

/-- A name leads back to itself. -/
def OnCycle (aliases : AliasMap) (name : Text) : Prop := some name ∈ periodicPts aliases.next

/-- The first name of a chain that lies on a cycle is where the chain leads to after so many
links. -/
def FirstOnCycle (aliases : AliasMap) (name cyclic : Text) (links : Nat) : Prop :=
  aliases.chain name links = some cyclic ∧ aliases.OnCycle cyclic ∧
    ∀ fewer < links, ∀ other, aliases.chain name fewer = some other → ¬aliases.OnCycle other

/-- A turn of the search: from a name that is an alias and was not passed before, to what it stands
for. The names passed are noted down, the last one first. -/
def Turn (aliases : AliasMap) (before after : List Text × Text) : Prop :=
  before.2 ∉ before.1 ∧ after.1 = before.2 :: before.1 ∧
    NameMap.find? aliases before.2 = some after.2

variable {aliases : AliasMap} {name current : Text} {passed : List Text} {links : Nat}

section Chain

/-- One link more may be followed at the end. -/
theorem chain_succ (aliases : AliasMap) (name : Text) (links : Nat) :
    aliases.chain name (links + 1) = aliases.next (aliases.chain name links) :=
  iterate_succ_apply' aliases.next links (some name)

/-- Following a chain from a name on it is following the chain further. -/
theorem chain_add (reached : aliases.chain name links = some current) (more : Nat) :
    aliases.chain name (more + links) = aliases.chain current more := by
  rw [chain, iterate_add_apply, ← chain, reached, chain]

/-- A chain that has ended has ended for good. -/
theorem chain_eq_none_of_le {more : Nat} (ended : aliases.chain name links = none)
    (later : links ≤ more) : aliases.chain name more = none := by
  induction later with
  | refl => exact ended
  | step _ ih => rw [chain_succ, ih, next, Option.bind_none]

/-- Behind a name that is no alias the chain has ended. -/
theorem chain_succ_eq_none (reached : aliases.chain name links = some current)
    (last : NameMap.find? aliases current = none) : aliases.chain name (links + 1) = none := by
  rw [chain_succ, reached, next, Option.bind_some, last]

/-- A chain ends at no more than one name. -/
theorem chain_end_unique {other : Text} {more : Nat}
    (reached : aliases.chain name links = some current)
    (last : NameMap.find? aliases current = none)
    (found : aliases.chain name more = some other)
    (final : NameMap.find? aliases other = none) : current = other := by
  have ends := chain_succ_eq_none reached last
  have stops := chain_succ_eq_none found final
  rcases Nat.lt_trichotomy links more with less | rfl | greater
  · rw [chain_eq_none_of_le ends less] at found
    cases found
  · rw [reached] at found
    exact Option.some.inj found
  · rw [chain_eq_none_of_le stops greater] at reached
    cases reached

/-- The chain of a name on a cycle never ends. -/
theorem OnCycle.chain_ne_none (cyclic : aliases.OnCycle name) (links : Nat) :
    aliases.chain name links ≠ none := by
  intro ended
  obtain ⟨period, positive, returns⟩ := cyclic
  have again : aliases.chain name (links * period) = some name := returns.const_mul links
  have later : links ≤ links * period := Nat.le_mul_of_pos_right links positive
  rw [chain_eq_none_of_le ended later] at again
  cases again

/-- No name of a chain that ends lies on a cycle. -/
theorem not_onCycle_of_ends (ends : aliases.Ends name)
    (reached : aliases.chain name links = some current) : ¬aliases.OnCycle current := by
  intro cyclic
  obtain ⟨most, ended⟩ := ends
  have later := chain_eq_none_of_le ended (Nat.le_add_right most links)
  rw [chain_add reached] at later
  exact cyclic.chain_ne_none most later

end Chain

section Turns

/-- What turns have come to: they have followed the chain of a name for as many links as names were
passed, and these are the aliases on that stretch of it, all of them different. -/
structure Passed (aliases : AliasMap) (name : Text) (passed : List Text) (current : Text) :
    Prop where
  /-- The chain leads to where the search is. -/
  chain : aliases.chain name passed.length = some current
  /-- The names passed are those of the chain up to there. -/
  along : (List.range passed.length).map (aliases.chain name) = passed.reverse.map some
  /-- No name was passed twice. -/
  nodup : passed.Nodup
  /-- All of them are aliases. -/
  subset : passed ⊆ NameMap.keys aliases

/-- Nothing is passed at first. -/
theorem passed_nil (aliases : AliasMap) (name : Text) : aliases.Passed name [] name where
  chain := rfl
  along := rfl
  nodup := List.nodup_nil
  subset := List.nil_subset _

/-- A turn passes one name more. -/
theorem Passed.turn {reached : Text} (before : aliases.Passed name passed current)
    (fresh : current ∉ passed) (link : NameMap.find? aliases current = some reached) :
    aliases.Passed name (current :: passed) reached where
  chain := by rw [List.length_cons, chain_succ, before.chain, next, Option.bind_some, link]
  along := by
    rw [List.length_cons, List.range_succ, List.map_append, before.along, List.reverse_cons,
      List.map_append, List.map_singleton, List.map_singleton, before.chain]
  nodup := List.nodup_cons.2 ⟨fresh, before.nodup⟩
  subset := List.cons_subset.2
    ⟨NameMap.contains_iff.1 (NameMap.contains_of_find? link), before.subset⟩

/-- There are no more turns than aliases. -/
theorem Passed.length_le (before : aliases.Passed name passed current) :
    passed.length ≤ NameMap.size aliases := by
  have fits := (before.nodup.subperm before.subset).length_le
  rwa [NameMap.keys, List.length_map] at fits

/-- Stretches of different length lead to different names. -/
theorem Passed.chain_ne {first second : Nat} (before : aliases.Passed name passed current)
    (less : first < second) (inside : second < passed.length) :
    aliases.chain name first ≠ aliases.chain name second := by
  have different : ((List.range passed.length).map (aliases.chain name)).Nodup := by
    rw [before.along]
    exact (List.nodup_reverse.2 before.nodup).map (Option.some_injective _)
  intro same
  have equal := List.inj_on_of_nodup_map different
    (List.mem_range.2 (less.trans inside)) (List.mem_range.2 inside) same
  exact Nat.ne_of_lt less equal

/-- A name that was passed is where the chain led before. -/
theorem Passed.exists_chain (before : aliases.Passed name passed current) {other : Text}
    (mem : other ∈ passed) : ∃ links < passed.length, aliases.chain name links = some other := by
  have known : some other ∈ (List.range passed.length).map (aliases.chain name) := by
    rw [before.along]
    exact List.mem_map_of_mem (List.mem_reverse.2 mem)
  obtain ⟨links, inRange, reached⟩ := List.mem_map.1 known
  exact ⟨links, List.mem_range.1 inRange, reached⟩

/-- Where the search comes to a name for the second time, that is the first one on a cycle. -/
theorem Passed.exists_firstOnCycle (before : aliases.Passed name passed current)
    (again : current ∈ passed) : ∃ links, aliases.FirstOnCycle name current links := by
  obtain ⟨links, less, reached⟩ := before.exists_chain again
  obtain ⟨round, length⟩ := Nat.exists_eq_add_of_lt less
  have returns : IsPeriodicPt aliases.next (round + 1) (some current) := by
    have turned := chain_add reached (round + 1)
    rw [show round + 1 + links = passed.length by omega, before.chain] at turned
    exact turned.symm
  refine ⟨links, reached, mk_mem_periodicPts round.zero_lt_succ returns, ?_⟩
  rintro fewer inside other found ⟨period, positive, cyclic⟩
  -- Round its own cycle the other name comes up again behind this one, but on the way from here
  -- back to here there is no name that was passed before.
  have around : aliases.chain name (links * period + fewer) = some other := by
    rw [chain_add found]
    exact cyclic.const_mul links
  have far : links ≤ links * period := Nat.le_mul_of_pos_right links positive
  have behind : aliases.chain current (links * period + fewer - links) = some other := by
    rw [← chain_add reached, Nat.sub_add_cancel (by omega)]
    exact around
  have short : aliases.chain current ((links * period + fewer - links) % (round + 1)) =
      some other := (returns.iterate_mod_apply _).trans behind
  rw [← chain_add reached] at short
  have bound : _ < round + 1 :=
    Nat.mod_lt (links * period + fewer - links) round.zero_lt_succ
  have earlier : fewer <
      (links * period + fewer - links) % (round + 1) + links := by omega
  exact before.chain_ne earlier (by omega) (found.trans short.symm)

/-- Given as many turns as are still possible, the search goes on until no turn is left. -/
theorem Passed.follow (before : aliases.Passed name passed current) {steps : Nat}
    (enough : NameMap.size aliases < steps + passed.length) :
    ∃ all, aliases.Passed name all (aliases.follow steps passed current) ∧
      ReflTransGen aliases.Turn (passed, current) (all, aliases.follow steps passed current) ∧
      (NameMap.find? aliases (aliases.follow steps passed current) = none ∨
        aliases.follow steps passed current ∈ all) := by
  induction steps generalizing passed current with
  | zero =>
    have few := before.length_le
    omega
  | succ steps ih =>
    rw [AliasMap.follow]
    cases link : NameMap.find? aliases current with
    | none => exact ⟨passed, before, .refl, .inl link⟩
    | some reached =>
      by_cases again : current ∈ passed
      · simp only [List.contains_iff_mem.2 again, if_true]
        exact ⟨passed, before, .refl, .inr again⟩
      · have turn : aliases.Turn (passed, current) (current :: passed, reached) :=
          ⟨again, rfl, link⟩
        obtain ⟨all, after, turns, halted⟩ := ih (before.turn again link)
          (by rw [List.length_cons]; omega)
        simp only [List.contains_iff_mem, again, if_false]
        exact ⟨all, after, .head turn turns, halted⟩

end Turns

section Resolve

/-- The search for what a name stands for, without a bound on its turns, ends at what the name is
resolved to. -/
theorem resolve_turns (aliases : AliasMap) (name : Text) :
    ∃ passed, aliases.Passed name passed (aliases.resolve name) ∧
      ReflTransGen aliases.Turn ([], name) (passed, aliases.resolve name) ∧
      (NameMap.find? aliases (aliases.resolve name) = none ∨ aliases.resolve name ∈ passed) :=
  (aliases.passed_nil name).follow (Nat.lt_succ_self _)

/-- Where the search has ended there is no turn left. -/
theorem not_turn (halted : NameMap.find? aliases current = none ∨ current ∈ passed)
    (state : List Text × Text) : ¬aliases.Turn (passed, current) state := by
  rintro ⟨fresh, -, link⟩
  rcases halted with last | again
  · rw [last] at link
    cases link
  · exact fresh again

/-- A chain that ends is followed to its end. -/
theorem resolve_of_ends (ends : aliases.Ends name) :
    (∃ links, aliases.chain name links = some (aliases.resolve name)) ∧
      NameMap.find? aliases (aliases.resolve name) = none := by
  obtain ⟨passed, along, -, last | again⟩ := aliases.resolve_turns name
  · exact ⟨⟨_, along.chain⟩, last⟩
  · obtain ⟨links, reached, cyclic, -⟩ := along.exists_firstOnCycle again
    exact absurd cyclic (not_onCycle_of_ends ends reached)

/-- A chain that never ends is followed to the first name on a cycle. -/
theorem resolve_of_not_ends (endless : ¬aliases.Ends name) :
    ∃ links, aliases.FirstOnCycle name (aliases.resolve name) links := by
  obtain ⟨passed, along, -, last | again⟩ := aliases.resolve_turns name
  · exact absurd ⟨_, chain_succ_eq_none along.chain last⟩ endless
  · exact along.exists_firstOnCycle again

/-- The names on a chain that ends are resolved alike. -/
theorem resolve_of_chain {other : Text} (ends : aliases.Ends name)
    (reached : aliases.chain name links = some other) :
    aliases.resolve other = aliases.resolve name := by
  obtain ⟨most, ended⟩ := ends
  have rest : aliases.Ends other :=
    ⟨most, by rw [← chain_add reached]; exact chain_eq_none_of_le ended (Nat.le_add_right ..)⟩
  obtain ⟨⟨first, found⟩, final⟩ := resolve_of_ends rest
  obtain ⟨⟨second, whole⟩, last⟩ := resolve_of_ends ⟨most, ended⟩
  rw [← chain_add reached] at found
  exact chain_end_unique found final whole last

/-- A name on a cycle stands for itself. -/
theorem OnCycle.resolve_eq (cyclic : aliases.OnCycle name) : aliases.resolve name = name := by
  have endless : ¬aliases.Ends name := fun ⟨links, ended⟩ => cyclic.chain_ne_none links ended
  obtain ⟨links, reached, -, first⟩ := resolve_of_not_ends endless
  cases links with
  | zero => exact (Option.some.inj reached).symm
  | succ links => exact absurd cyclic (first 0 (Nat.succ_pos _) name rfl)

/-- What a name was resolved to stands for itself. -/
theorem resolve_resolve (aliases : AliasMap) (name : Text) :
    aliases.resolve (aliases.resolve name) = aliases.resolve name := by
  by_cases ends : aliases.Ends name
  · obtain ⟨⟨links, reached⟩, -⟩ := resolve_of_ends ends
    exact resolve_of_chain ends reached
  · obtain ⟨links, -, cyclic, -⟩ := resolve_of_not_ends ends
    exact cyclic.resolve_eq

end Resolve

end AliasMap

/-- A counter that was put in place of an alias is left as it is, and so is the shared counter that
was given up because it is the environment's own. -/
theorem Declaration.resolveAliases_resolveAliases (declaration : Declaration)
    (aliases : AliasMap) :
    (declaration.resolveAliases aliases).resolveAliases aliases =
      declaration.resolveAliases aliases := by
  have within : ((declaration.within?.map aliases.resolve).map aliases.resolve) =
      declaration.within?.map aliases.resolve := by
    cases declaration.within? with
    | none => rfl
    | some parent => simp [aliases.resolve_resolve parent]
  have shared : ((((declaration.shared?.map aliases.resolve).filter (· != declaration.name)).map
      aliases.resolve).filter (· != declaration.name)) =
        (declaration.shared?.map aliases.resolve).filter (· != declaration.name) := by
    cases declaration.shared? with
    | none => rfl
    | some counter =>
      by_cases own : aliases.resolve counter = declaration.name
      · simp [Option.filter_some, own]
      · simp [Option.filter_some, own, aliases.resolve_resolve counter]
  simp only [Declaration.resolveAliases, within, shared]

/-- Putting counters in place of their aliases once is enough. -/
theorem DeclarationTable.applyAliases_applyAliases (table : DeclarationTable)
    (aliases : AliasMap) :
    (table.applyAliases aliases).applyAliases aliases = table.applyAliases aliases := by
  unfold DeclarationTable.applyAliases
  split
  · rfl
  · apply NameMap.eq_of_entries
    simp [NameMap.mapValues, Declaration.resolveAliases_resolveAliases]

namespace AliasMap

open Relation

/-- The search for the counter behind a name ends, after no more turns than there are aliases, at
what the name is resolved to. Where the chain of the name ends, that is the one name at its end, and
every name on the chain is resolved to it; otherwise it is the first name of the chain that lies on
a cycle. So what a name was resolved to stands for itself, and a table in which counters were put in
place of their aliases stays as it is when that is done again. -/
theorem resolve_canonical (aliases : AliasMap) (name : Text) :
    (∃ passed, passed.length ≤ NameMap.size aliases ∧
      ReflTransGen aliases.Turn ([], name) (passed, aliases.resolve name) ∧
      ∀ state, ¬aliases.Turn (passed, aliases.resolve name) state) ∧
    (aliases.Ends name →
      (∃ links, aliases.chain name links = some (aliases.resolve name)) ∧
      NameMap.find? aliases (aliases.resolve name) = none ∧
      ∀ links last, aliases.chain name links = some last →
        NameMap.find? aliases last = none → last = aliases.resolve name) ∧
    (¬aliases.Ends name → ∃ links, aliases.FirstOnCycle name (aliases.resolve name) links) ∧
    aliases.resolve (aliases.resolve name) = aliases.resolve name ∧
    (∀ links other, aliases.Ends name → aliases.chain name links = some other →
      aliases.resolve other = aliases.resolve name) ∧
    ∀ table : DeclarationTable,
      (table.applyAliases aliases).applyAliases aliases = table.applyAliases aliases := by
  refine ⟨?_, ?_, resolve_of_not_ends, aliases.resolve_resolve name, ?_, ?_⟩
  · obtain ⟨passed, along, turns, halted⟩ := aliases.resolve_turns name
    exact ⟨passed, along.length_le, turns, not_turn halted⟩
  · intro ends
    obtain ⟨⟨most, reached⟩, last⟩ := resolve_of_ends ends
    refine ⟨⟨most, reached⟩, last, ?_⟩
    intro links other found final
    exact chain_end_unique found final reached last
  · intro links other ends reached
    exact resolve_of_chain ends reached
  · exact fun table => table.applyAliases_applyAliases aliases

/-- Of a chain that runs into a cycle, the first name on the cycle is left; the other name of the
cycle stands for itself all the same. -/
example :
    let aliases : AliasMap := NameMap.ofList
      [("x".toList, "a".toList), ("a".toList, "b".toList), ("b".toList, "a".toList)]
    aliases.resolve "x".toList = "a".toList ∧ aliases.resolve "b".toList = "b".toList := by
  decide +kernel

end AliasMap
end TexStatements
