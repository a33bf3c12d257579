import TexStatements.Proofs.Macro.Arguments
import TexStatements.Proofs.Macro.Table

/-!
# The tokens that expansion puts in

Expansion works on texts, but what it writes are the tokens of its input that it keeps and the
tokens of the bodies and arguments that it puts in. `MacroTable.rowWithin` is that row of tokens.
Its spelling is the expanded text (`spell_rowWithin`), while the text need not be read back as the
row: text put in may join what stands around it. Where defaults call no macros the row depends only
on the macros that the text itself calls (`rowWithin_congr`), and so does the expanded text
(`expand_congr`).
-/
namespace TexStatements

open ControlSequence

namespace Reader

variable {α : Type}

/-- What a reader reads of a text, and the characters between, from left to right. -/
def parts (reader : Reader α) (text : Text) : List (Char ⊕ α) :=
  match text with
  | [] => []
  | first :: tail =>
    match _ : reader.read (first :: tail) with
    | some (value, rest) => .inr value :: reader.parts rest
    | none => .inl first :: reader.parts tail
termination_by text.length
decreasing_by
  · rename_i read
    exact (reader.advances read).length_lt
  · simp

variable {reader : Reader α} {first : Char} {tail text rest : Text} {value : α}

/-- The empty text has no parts. -/
@[simp] theorem parts_nil (reader : Reader α) : reader.parts [] = [] := by rw [parts]

/-- A character at which nothing is read is a part. -/
theorem parts_of_unread (unread : reader.read (first :: tail) = none) :
    reader.parts (first :: tail) = .inl first :: reader.parts tail := by
  rw [parts]
  split
  · rename_i read
    rw [unread] at read
    cases read
  · rfl

/-- What is read at the start of a text is its first part. -/
theorem parts_of_read (read : reader.read text = some (value, rest)) :
    reader.parts text = .inr value :: reader.parts rest := by
  obtain ⟨first, tail, rfl, -⟩ := reader.advances read
  rw [parts]
  split
  · rename_i again
    rw [read] at again
    cases again
    rfl
  · rename_i failed
    rw [read] at failed
    cases failed

end Reader

namespace Macro

variable {arity : Nat} {arguments : List Text} {first next : Char}

/-- A character that is no number sign stays. -/
theorem substitute_character (plain : first ≠ '#') (rest : Text) :
    substitute arity arguments (first :: rest) = first :: substitute arity arguments rest := by
  rw [substitute.eq_def]
  simp only [if_neg plain]

/-- Two number signs stand for one. -/
theorem substitute_sign (rest : Text) : substitute arity arguments ('#' :: '#' :: rest) =
    '#' :: substitute arity arguments rest := by
  rw [substitute.eq_def]
  simp only [if_true]

/-- A number sign with the number of an argument stands for it. -/
theorem substitute_argument {argument : Text} (plain : next ≠ '#')
    (found : argument? arity arguments next = some argument) (rest : Text) :
    substitute arity arguments ('#' :: next :: rest) =
      argument ++ substitute arity arguments rest := by
  rw [substitute.eq_def]
  simp only [if_true, if_neg plain, found]

/-- A number sign stays where it names no argument. -/
theorem substitute_other (plain : next ≠ '#') (found : argument? arity arguments next = none)
    (rest : Text) : substitute arity arguments ('#' :: next :: rest) =
      '#' :: next :: substitute arity arguments rest := by
  rw [substitute.eq_def]
  simp only [if_true, if_neg plain, found]

/-- Text without number signs stays when arguments are put in. -/
theorem substitute_append_of_not_mem {front : Text} (rest : Text) (free : '#' ∉ front) :
    substitute arity arguments (front ++ rest) = front ++ substitute arity arguments rest := by
  induction front with
  | nil => rfl
  | cons first front ih =>
    rw [List.mem_cons, not_or] at free
    rw [List.cons_append, substitute_character (fun same => free.1 same.symm), ih free.2,
      List.cons_append]

/-- A body without number signs takes no arguments. -/
theorem substitute_of_not_mem {body : Text} (free : '#' ∉ body) :
    substitute arity arguments body = body := by
  have whole : substitute arity arguments (body ++ []) = body ++ substitute arity arguments [] :=
    substitute_append_of_not_mem [] free
  simpa [substitute] using whole

end Macro

namespace Token

/-- A row whose control sequences have names that can be read. -/
def Valid (row : List Token) : Prop := ∀ name, sequence name ∈ row → IsName name

/-- The tokens that count for arguments: a number sign does even as a control symbol. -/
def loosen : Token → List Token
  | character c => [character c]
  | sequence name =>
    if name = ['#'] then [character '\\', character '#'] else [sequence name]

/-- The argument that a character after a number sign stands for. -/
def argument? (arity : Nat) (arguments : List (List Token)) (c : Char) :
    Option (List Token) := do
  let index ← Macro.argumentIndex? c
  if index < arity then arguments[index]? else none

/-- Put arguments into a row, as `Macro.substitute` does it with texts. -/
def fill (arity : Nat) (arguments : List (List Token)) : List Token → List Token
  | [] => []
  | sequence name :: rest => sequence name :: fill arity arguments rest
  | character first :: rest =>
    if first = '#' then
      match rest with
      | character next :: rest =>
        if next = '#' then character '#' :: fill arity arguments rest
        else match argument? arity arguments next with
          | some argument => argument ++ fill arity arguments rest
          | none => character first :: character next :: fill arity arguments rest
      | rest => character first :: fill arity arguments rest
    else character first :: fill arity arguments rest

variable {arity : Nat} {arguments : List (List Token)} {row : List Token}

/-- Loosening changes no spelling. -/
theorem spell_loosen (row : List Token) : spell (row.flatMap loosen) = spell row := by
  induction row with
  | nil => rfl
  | cons token row ih =>
    rw [List.flatMap_cons, spell_append, ih]
    cases token with
    | character c => rfl
    | sequence name =>
      by_cases sign : name = ['#']
      · subst sign
        rfl
      · rw [loosen, if_neg sign]
        simp

/-- No number sign is left in the names of a loosened row. -/
theorem Valid.sign_not_mem (valid : Valid row) {name : Text}
    (mem : sequence name ∈ row.flatMap loosen) : '#' ∉ name := by
  obtain ⟨token, inRow, mem⟩ := List.mem_flatMap.1 mem
  cases token with
  | character c => simp [loosen] at mem
  | sequence other =>
    rw [loosen] at mem
    by_cases sign : other = ['#']
    · rw [if_pos sign] at mem
      simp at mem
    · rw [if_neg sign, List.mem_singleton, Token.sequence.injEq] at mem
      subst mem
      rcases valid name inRow with word | ⟨c, -, rfl⟩
      · intro inName
        have letter := word.2 _ inName
        revert letter
        decide
      · intro inName
        rw [List.mem_singleton] at inName
        exact sign (by rw [inName])

/-- Loosening brings in no control sequences. -/
theorem mem_of_mem_loosen {name : Text} (mem : sequence name ∈ row.flatMap loosen) :
    sequence name ∈ row := by
  obtain ⟨token, inRow, mem⟩ := List.mem_flatMap.1 mem
  cases token with
  | character c => simp [loosen] at mem
  | sequence other =>
    rw [loosen] at mem
    split at mem
    · simp at mem
    · rw [List.mem_singleton] at mem
      rwa [mem]

/-- The argument for a character spells the argument of the spelled arguments. -/
theorem spell_argument? (c : Char) :
    (argument? arity arguments c).map spell =
      Macro.argument? arity (arguments.map spell) c := by
  unfold argument? Macro.argument?
  cases Macro.argumentIndex? c with
  | none => rfl
  | some index =>
    by_cases inside : index < arity
    · simp [inside]
    · simp [inside]

/-- A filled row spells the spelled row with the spelled arguments in it. -/
theorem spell_fill (loose : ∀ name, sequence name ∈ row → '#' ∉ name) :
    spell (fill arity arguments row) =
      Macro.substitute arity (arguments.map spell) (spell row) := by
  fun_induction fill arity arguments row with
  | case1 => rfl
  | case2 name rest ih =>
    have free := loose name (List.mem_cons_self ..)
    have later := ih fun other mem => loose other (List.mem_cons_of_mem _ mem)
    rw [spell_sequence, spell_sequence, later, Macro.substitute_character (by decide),
      Macro.substitute_append_of_not_mem _ free]
  | case3 rest ih =>
    have later := ih fun other mem =>
      loose other (List.mem_cons_of_mem _ (List.mem_cons_of_mem _ mem))
    rw [spell_character, spell_character, spell_character, later, Macro.substitute_sign]
  | case4 next rest plain argument found ih =>
    have later := ih fun other mem =>
      loose other (List.mem_cons_of_mem _ (List.mem_cons_of_mem _ mem))
    have stands : Macro.argument? arity (arguments.map spell) next = some (spell argument) := by
      rw [← spell_argument?, found, Option.map_some]
    rw [spell_append, later, spell_character, spell_character,
      Macro.substitute_argument plain stands]
  | case5 next rest plain found ih =>
    have later := ih fun other mem =>
      loose other (List.mem_cons_of_mem _ (List.mem_cons_of_mem _ mem))
    have stands : Macro.argument? arity (arguments.map spell) next = none := by
      rw [← spell_argument?, found, Option.map_none]
    rw [spell_character, spell_character, spell_character, spell_character, later,
      Macro.substitute_other plain stands]
  | case6 rest other ih =>
    have later := ih fun other mem => loose other (List.mem_cons_of_mem _ mem)
    rw [spell_character, spell_character, later]
    cases rest with
    | nil => rfl
    | cons token rest =>
      cases token with
      | character c => exact absurd rfl (other c rest)
      | sequence name =>
        have none : Macro.argument? arity (arguments.map spell) '\\' = none := rfl
        rw [spell_sequence, Macro.substitute_other (by decide) none,
          Macro.substitute_character (by decide)]
  | case7 first rest plain ih =>
    have later := ih fun other mem => loose other (List.mem_cons_of_mem _ mem)
    rw [spell_character, spell_character, later, Macro.substitute_character plain]

/-- The control sequences of a filled row are those of the row and of its arguments. -/
theorem mem_fill {name : Text} (mem : sequence name ∈ fill arity arguments row) :
    sequence name ∈ row ∨ ∃ argument ∈ arguments, sequence name ∈ argument := by
  fun_induction fill arity arguments row with
  | case1 => cases mem
  | case2 other rest ih =>
    rcases List.mem_cons.1 mem with same | later
    · exact .inl (same ▸ List.mem_cons_self ..)
    · exact (ih later).imp_left (List.mem_cons_of_mem _)
  | case3 rest ih =>
    rcases List.mem_cons.1 mem with same | later
    · cases same
    · exact (ih later).imp_left fun mem => List.mem_cons_of_mem _ (List.mem_cons_of_mem _ mem)
  | case4 next rest plain argument found ih =>
    rcases List.mem_append.1 mem with inside | later
    · refine .inr ⟨argument, ?_, inside⟩
      simp only [argument?, Option.bind_eq_bind, Option.bind_eq_some_iff] at found
      obtain ⟨index, -, chosen⟩ := found
      split at chosen
      · exact List.mem_of_getElem? chosen
      · cases chosen
    · exact (ih later).imp_left fun mem => List.mem_cons_of_mem _ (List.mem_cons_of_mem _ mem)
  | case5 next rest plain found ih =>
    rcases List.mem_cons.1 mem with same | later
    · cases same
    · rcases List.mem_cons.1 later with same | later
      · cases same
      · exact (ih later).imp_left fun mem => List.mem_cons_of_mem _ (List.mem_cons_of_mem _ mem)
  | case6 rest other ih =>
    rcases List.mem_cons.1 mem with same | later
    · cases same
    · exact (ih later).imp_left (List.mem_cons_of_mem _)
  | case7 first rest plain ih =>
    rcases List.mem_cons.1 mem with same | later
    · cases same
    · exact (ih later).imp_left (List.mem_cons_of_mem _)

end Token

namespace MacroTable

open Token

/-- The tokens that a control sequence or call is replaced by, given those of arguments and
bodies. -/
def Item.row (expandArgument : Text → List Token) (bodies : Macro → List Token) :
    Item → List Token
  | .kept name => [.sequence name]
  | .call found =>
    fill found.definition.arity (found.arguments.map expandArgument)
      ((bodies found.definition).flatMap loosen)

/-- The tokens that expansion to a depth puts in for a text, where the bodies of macros are
these rows. -/
def rowWithin (table : MacroTable) (bodies : Macro → List Token) : Nat → Text → List Token
  | 0 => ofText
  | depth + 1 => fun text => (table.item.parts text).flatMap
      (Sum.elim (fun c => [.character c]) (Item.row (rowWithin table bodies depth) bodies))

/-- The tokens of the bodies as they are written. -/
def writtenBody (definition : Macro) : List Token := ofText definition.body

section Items

variable {table : MacroTable} {name rest after : Text} {definition : Macro} {arguments : List Text}

/-- A control sequence that names no macro is kept. -/
theorem itemAfter_of_absent (absent : NameMap.find? table name = none) (rest : Text) :
    table.itemAfter name rest = (.kept name, rest) := by
  rw [itemAfter, absent]

/-- A control sequence without the arguments of its macro is kept. -/
theorem itemAfter_of_unread (found : NameMap.find? table name = some definition)
    (unread : arguments? definition.parameters rest = none) :
    table.itemAfter name rest = (.kept name, rest) := by
  simp only [itemAfter, found, unread]

/-- A control sequence with the arguments of its macro is a call. -/
theorem itemAfter_of_read (found : NameMap.find? table name = some definition)
    (read : arguments? definition.parameters rest = some (arguments, after)) :
    table.itemAfter name rest = (.call ⟨definition, arguments⟩, after) := by
  simp only [itemAfter, found, read]

end Items

section Steps

variable (table : MacroTable) (bodies : Macro → List Token) (depth : Nat) {first : Char}
  {tail name rest after : Text} {definition : Macro} {arguments : List Text}

/-- Nothing is read at a character that starts no control sequence. -/
theorem item_unread (plain : first = '\\' → tail = []) :
    table.item.read (first :: tail) = none := by
  have unread : reader.read (first :: tail) = none := read?_eq_none_iff.2 plain
  simp [item, Reader.andThen, unread]

/-- A control sequence is read with its arguments. -/
theorem item_read (valid : IsName name) (ends : IsWord name → endsControlWord rest = true) :
    table.item.read ('\\' :: (name ++ rest)) =
      some ((table.itemAfter name rest).1, (table.itemAfter name rest).2) := by
  have read : reader.read ('\\' :: (name ++ rest)) = some (name, rest) := read?_append valid ends
  simp [item, Reader.andThen, read]

/-- The empty text is expanded to itself. -/
theorem expandWithin_nil : table.expandWithin depth [] = [] := by
  cases depth with
  | zero => rfl
  | succ depth => simp [expandWithin, Reader.replaceAll]

/-- A character that starts no control sequence is kept. -/
theorem expandWithin_character (plain : first = '\\' → tail = []) :
    table.expandWithin (depth + 1) (first :: tail) =
      first :: table.expandWithin (depth + 1) tail :=
  Reader.replaceAll_of_unread _ (table.item_unread plain)

/-- A control sequence that is no call is kept. -/
theorem expandWithin_kept (valid : IsName name) (ends : IsWord name → endsControlWord rest = true)
    (item : table.itemAfter name rest = (.kept name, rest)) :
    table.expandWithin (depth + 1) ('\\' :: (name ++ rest)) =
      '\\' :: (name ++ table.expandWithin (depth + 1) rest) := by
  have read := table.item_read valid ends
  rw [item] at read
  exact Reader.replaceAll_of_read _ read

/-- A call is replaced, and expansion goes on behind it. -/
theorem expandWithin_call (valid : IsName name) (ends : IsWord name → endsControlWord rest = true)
    (item : table.itemAfter name rest = (.call ⟨definition, arguments⟩, after)) :
    table.expandWithin (depth + 1) ('\\' :: (name ++ rest)) =
      definition.instantiate (arguments.map (table.expandWithin depth)) ++
        table.expandWithin (depth + 1) after := by
  have read := table.item_read valid ends
  rw [item] at read
  exact Reader.replaceAll_of_read _ read

/-- The empty text puts in nothing. -/
theorem rowWithin_nil : table.rowWithin bodies depth [] = [] := by
  cases depth <;> simp [rowWithin]

/-- A character that starts no control sequence is kept. -/
theorem rowWithin_character (plain : first = '\\' → tail = []) :
    table.rowWithin bodies (depth + 1) (first :: tail) =
      .character first :: table.rowWithin bodies (depth + 1) tail := by
  simp only [rowWithin, Reader.parts_of_unread (table.item_unread plain), List.flatMap_cons,
    Sum.elim_inl, List.singleton_append]

/-- A control sequence that is no call puts in itself. -/
theorem rowWithin_kept (valid : IsName name) (ends : IsWord name → endsControlWord rest = true)
    (item : table.itemAfter name rest = (.kept name, rest)) :
    table.rowWithin bodies (depth + 1) ('\\' :: (name ++ rest)) =
      .sequence name :: table.rowWithin bodies (depth + 1) rest := by
  have read := table.item_read valid ends
  rw [item] at read
  simp only [rowWithin, Reader.parts_of_read read, List.flatMap_cons, Sum.elim_inr, Item.row,
    List.singleton_append]

/-- A call puts in the tokens of the body and of the arguments. -/
theorem rowWithin_call (valid : IsName name) (ends : IsWord name → endsControlWord rest = true)
    (item : table.itemAfter name rest = (.call ⟨definition, arguments⟩, after)) :
    table.rowWithin bodies (depth + 1) ('\\' :: (name ++ rest)) =
      fill definition.arity (arguments.map (table.rowWithin bodies depth))
          ((bodies definition).flatMap loosen) ++
        table.rowWithin bodies (depth + 1) after := by
  have read := table.item_read valid ends
  rw [item] at read
  simp only [rowWithin, Reader.parts_of_read read, List.flatMap_cons, Sum.elim_inr, Item.row]

end Steps

variable {table left right : MacroTable} {bodies others : Macro → List Token} {text : Text}

/-- What is expanded to a depth is taken apart as expansion does it: characters, control sequences
that name no macro or lack arguments, and calls with arguments that are expanded one level less. -/
theorem expansion_induction (table : MacroTable) {motive : Nat → Text → Prop}
    (zero : ∀ text, motive 0 text) (nil : ∀ depth, motive (depth + 1) [])
    (character : ∀ depth first tail, (first = '\\' → tail = []) → motive (depth + 1) tail →
      motive (depth + 1) (first :: tail))
    (unknown : ∀ depth name rest, IsName name → (IsWord name → endsControlWord rest = true) →
      NameMap.find? table name = none → motive (depth + 1) rest →
      motive (depth + 1) ('\\' :: (name ++ rest)))
    (bare : ∀ depth name rest definition, IsName name →
      (IsWord name → endsControlWord rest = true) → NameMap.find? table name = some definition →
      arguments? definition.parameters rest = none → motive (depth + 1) rest →
      motive (depth + 1) ('\\' :: (name ++ rest)))
    (call : ∀ depth name rest definition arguments after, IsName name →
      (IsWord name → endsControlWord rest = true) → NameMap.find? table name = some definition →
      arguments? definition.parameters rest = some (arguments, after) →
      (∀ argument ∈ arguments, motive depth argument) → motive (depth + 1) after →
      motive (depth + 1) ('\\' :: (name ++ rest)))
    (depth : Nat) (text : Text) : motive depth text := by
  induction depth generalizing text with
  | zero => exact zero text
  | succ depth ihDepth =>
    induction size : text.length using Nat.strongRecOn generalizing text with
    | ind length ih =>
      subst size
      induction text using Text.token_induction with
      | nil => exact nil depth
      | character first tail plain _ =>
        exact character depth first tail plain (ih tail.length (Nat.lt_succ_self _) tail rfl)
      | sequence name rest valid ends _ =>
        have later (after : Text) (suffix : after <:+ rest) : motive (depth + 1) after := by
          refine ih after.length ?_ after rfl
          have shorter := suffix.length_le
          simp only [List.length_cons, List.length_append]
          omega
        have behind := later rest (List.suffix_refl rest)
        cases found : NameMap.find? table name with
        | none => exact unknown depth name rest valid ends found behind
        | some definition =>
          cases read : arguments? definition.parameters rest with
          | none => exact bare depth name rest definition valid ends found read behind
          | some result =>
            obtain ⟨arguments, after⟩ := result
            exact call depth name rest definition arguments after valid ends found read
              (fun argument _ => ihDepth argument) (later after (arguments?_suffix read))

/-- A text that calls no macro puts in its own tokens. -/
theorem rowWithin_of_absent (bodies : Macro → List Token) (depth : Nat)
    (absent : ∀ name ∈ names text, NameMap.find? table name = none) :
    table.rowWithin bodies depth text = ofText text := by
  cases depth with
  | zero => rfl
  | succ depth =>
    induction text using Text.token_induction with
    | nil => rw [rowWithin_nil, ofText_nil]
    | character first tail plain ih =>
      rw [names_of_character plain] at absent
      rw [rowWithin_character _ _ _ plain, ofText_character plain, ih absent]
    | sequence name rest valid ends ih =>
      rw [names_of_sequence valid ends, List.forall_mem_cons] at absent
      rw [rowWithin_kept _ _ _ valid ends (itemAfter_of_absent absent.1 rest),
        ofText_sequence valid ends, ih absent.2]

/-- The control sequences that are put in can be read. -/
theorem valid_rowWithin (validBodies : ∀ definition, Valid (bodies definition)) (depth : Nat)
    (text : Text) : Valid (table.rowWithin bodies depth text) := by
  have kept {depth : Nat} {name rest : Text} (valid : IsName name)
      (ends : IsWord name → endsControlWord rest = true)
      (item : table.itemAfter name rest = (.kept name, rest))
      (later : Valid (table.rowWithin bodies (depth + 1) rest)) :
      Valid (table.rowWithin bodies (depth + 1) ('\\' :: (name ++ rest))) := by
    rw [rowWithin_kept _ _ _ valid ends item]
    intro other mem
    rcases List.mem_cons.1 mem with same | mem
    · cases same
      exact valid
    · exact later other mem
  induction depth, text using expansion_induction table with
  | zero text => exact (legible_ofText text).valid
  | nil depth =>
    rw [rowWithin_nil]
    exact fun _ mem => absurd mem List.not_mem_nil
  | character depth first tail plain ih =>
    rw [rowWithin_character _ _ _ plain]
    intro name mem
    rcases List.mem_cons.1 mem with same | later
    · cases same
    · exact ih name later
  | unknown depth name rest valid ends found ih =>
    exact kept valid ends (itemAfter_of_absent found rest) ih
  | bare depth name rest definition valid ends found unread ih =>
    exact kept valid ends (itemAfter_of_unread found unread) ih
  | call depth name rest definition arguments after valid ends found read ihArguments ih =>
    rw [rowWithin_call _ _ _ valid ends (itemAfter_of_read found read)]
    intro other mem
    rcases List.mem_append.1 mem with inside | later
    · rcases mem_fill inside with inBody | ⟨row, inArguments, inRow⟩
      · exact validBodies definition other (mem_of_mem_loosen inBody)
      · obtain ⟨argument, inCall, rfl⟩ := List.mem_map.1 inArguments
        exact ihArguments argument inCall other inRow
    · exact ih other later

/-- The tokens that are put in spell the expanded text, also of a table whose bodies are the
spelled ones. -/
theorem spell_rowWithin (plain : left.PlainDefaults)
    (validBodies : ∀ definition, Valid (bodies definition))
    (absent : ∀ name, NameMap.find? left name = none → NameMap.find? right name = none)
    {depth : Nat} (same : ∀ name ∈ names text, NameMap.find? right name =
      (NameMap.find? left name).map fun definition =>
        { definition with body := spell (bodies definition) }) :
    spell (left.rowWithin bodies depth text) = right.expandWithin depth text := by
  induction depth, text using expansion_induction left with
  | zero text => exact spell_ofText text
  | nil depth => rw [rowWithin_nil, expandWithin_nil, spell_nil]
  | character depth first tail plain ih =>
    rw [names_of_character plain] at same
    rw [rowWithin_character _ _ _ plain, expandWithin_character _ _ plain, spell_character,
      ih same]
  | unknown depth name rest valid ends found ih =>
    rw [names_of_sequence valid ends, List.forall_mem_cons] at same
    rw [rowWithin_kept _ _ _ valid ends (itemAfter_of_absent found rest),
      expandWithin_kept _ _ valid ends (itemAfter_of_absent (absent name found) rest),
      spell_sequence, ih same.2]
  | bare depth name rest definition valid ends found unread ih =>
    rw [names_of_sequence valid ends, List.forall_mem_cons, found, Option.map_some] at same
    rw [rowWithin_kept _ _ _ valid ends (itemAfter_of_unread found unread),
      expandWithin_kept _ _ valid ends (itemAfter_of_unread same.1 unread), spell_sequence,
      ih same.2]
  | call depth name rest definition arguments after valid ends found read ihArguments ih =>
    rw [names_of_sequence valid ends, List.forall_mem_cons, found, Option.map_some] at same
    obtain ⟨inCall, behind⟩ := names_of_arguments? read
    have expanded : arguments.map (spell ∘ left.rowWithin bodies depth) =
        arguments.map (right.expandWithin depth) := by
      refine List.map_congr_left fun argument mem => ihArguments argument mem ?_
      intro callee calls
      rcases inCall argument mem with ⟨known, -⟩ | default
      · exact same.2 callee (known calls)
      · have none := plain.find?_eq_none found default calls
        rw [none, absent callee none, Option.map_none]
    rw [rowWithin_call _ _ _ valid ends (itemAfter_of_read found read),
      expandWithin_call _ _ valid ends (itemAfter_of_read same.1 read), spell_append,
      ih fun name mem => same.2 name (behind mem), Macro.instantiate, ← expanded,
      spell_fill fun _ mem => (validBodies definition).sign_not_mem mem, spell_loosen,
      List.map_map]
    rfl

/-- Where defaults call nothing, the tokens that a text puts in depend only on what its control
sequences name, and not on the depth once that is greater than the length of the text. -/
theorem rowWithin_congr (plainLeft : left.PlainDefaults) (plainRight : right.PlainDefaults)
    {depth more : Nat} (deep : text.length < depth) (deeper : text.length < more)
    (same : ∀ name ∈ names text,
      (NameMap.find? left name).map (fun definition =>
        (definition.parameters, bodies definition)) =
      (NameMap.find? right name).map fun definition =>
        (definition.parameters, others definition)) :
    left.rowWithin bodies depth text = right.rowWithin others more text := by
  obtain ⟨most, rfl⟩ := Nat.exists_eq_succ_of_ne_zero (Nat.ne_of_gt (Nat.zero_lt_of_lt deeper))
  induction depth, text using expansion_induction left generalizing most with
  | zero text => exact absurd deep (Nat.not_lt_zero _)
  | nil depth => rw [rowWithin_nil, rowWithin_nil]
  | character depth first tail plain ih =>
    rw [names_of_character plain] at same
    rw [rowWithin_character _ _ _ plain, rowWithin_character _ _ _ plain,
      ih (Nat.lt_of_succ_lt deep) same most (Nat.lt_of_succ_lt deeper)]
  | unknown depth name rest valid ends found ih =>
    rw [names_of_sequence valid ends, List.forall_mem_cons, found, Option.map_none, eq_comm,
      Option.map_eq_none_iff] at same
    simp only [List.length_cons, List.length_append] at deep deeper
    rw [rowWithin_kept _ _ _ valid ends (itemAfter_of_absent found rest),
      rowWithin_kept _ _ _ valid ends (itemAfter_of_absent same.1 rest),
      ih (by omega) same.2 most (by omega)]
  | bare depth name rest definition valid ends found unread ih =>
    rw [names_of_sequence valid ends, List.forall_mem_cons, found, Option.map_some, eq_comm,
      Option.map_eq_some_iff] at same
    obtain ⟨⟨other, foundOther, equal⟩, behind⟩ := same
    rw [Prod.mk.injEq] at equal
    simp only [List.length_cons, List.length_append] at deep deeper
    rw [rowWithin_kept _ _ _ valid ends (itemAfter_of_unread found unread),
      rowWithin_kept _ _ _ valid ends (itemAfter_of_unread foundOther (equal.1 ▸ unread)),
      ih (by omega) behind most (by omega)]
  | call depth name rest definition arguments after valid ends found read ihArguments ih =>
    rw [names_of_sequence valid ends, List.forall_mem_cons, found, Option.map_some, eq_comm,
      Option.map_eq_some_iff] at same
    obtain ⟨⟨other, foundOther, equal⟩, behind⟩ := same
    rw [Prod.mk.injEq] at equal
    obtain ⟨inCall, inAfter⟩ := names_of_arguments? read
    have suffix := (arguments?_suffix read).length_le
    simp only [List.length_cons, List.length_append] at deep deeper
    -- An argument is shorter than the text, and a default calls nothing at any depth.
    have expanded : arguments.map (left.rowWithin bodies depth) =
        arguments.map (right.rowWithin others most) := by
      refine List.map_congr_left fun argument mem => ?_
      rcases inCall argument mem with ⟨known, shorter⟩ | default
      · obtain ⟨less, rfl⟩ : ∃ less, most = less + 1 := ⟨most - 1, by omega⟩
        exact ihArguments argument mem (by omega) (fun callee calls => behind callee (known calls))
          less (by omega)
      · have defaultOther := default
        rw [← equal.1] at defaultOther
        rw [rowWithin_of_absent bodies depth fun callee calls =>
            plainLeft.find?_eq_none found default calls,
          rowWithin_of_absent others most fun callee calls =>
            plainRight.find?_eq_none foundOther defaultOther calls]
    rw [rowWithin_call _ _ _ valid ends (itemAfter_of_read found read),
      rowWithin_call _ _ _ valid ends (itemAfter_of_read foundOther (equal.1 ▸ read)),
      ih (by omega) (fun callee calls => behind callee (inAfter calls)) most (by omega), expanded,
      equal.2, Macro.arity, Macro.arity, equal.1]

/-- Bodies are written in valid tokens. -/
theorem valid_writtenBody (definition : Macro) : Valid (writtenBody definition) :=
  (legible_ofText definition.body).valid

/-- What is put in for a text spells its expansion. -/
theorem spell_rowWithin_written (plain : table.PlainDefaults) (depth : Nat) (text : Text) :
    spell (table.rowWithin writtenBody depth text) = table.expandWithin depth text := by
  refine spell_rowWithin plain valid_writtenBody (fun _ absent => absent) fun name _ => ?_
  have same : (fun definition : Macro =>
      { definition with body := spell (writtenBody definition) }) = id := by
    funext definition
    rw [writtenBody, spell_ofText]
    rfl
  rw [same, Option.map_id]
  rfl

/-- A text that calls no macro is expanded to itself. -/
theorem expand_of_absent (plain : table.PlainDefaults)
    (absent : ∀ name ∈ names text, NameMap.find? table name = none) :
    table.expand text = text := by
  rw [expand, ← spell_rowWithin_written plain, rowWithin_of_absent _ _ absent, spell_ofText]

/-- A text without a backslash is expanded to itself. -/
theorem expand_of_not_mem (plain : table.PlainDefaults) (free : '\\' ∉ text) :
    table.expand text = text :=
  expand_of_absent plain (by rw [names_of_not_mem free]; exact nofun)

/-- Where defaults call nothing, expansion to any sufficient depth is expansion. -/
theorem PlainDefaults.expandWithin_eq (plain : table.PlainDefaults) {depth : Nat}
    (deep : text.length < depth) : table.expandWithin depth text = table.expand text := by
  rw [expand, ← spell_rowWithin_written plain, ← spell_rowWithin_written plain,
    rowWithin_congr plain plain deep (table.length_lt_depthBound text) fun _ _ => rfl]

/-- Where defaults call nothing, a text is expanded by the macros that it calls. -/
theorem expand_congr (plainLeft : left.PlainDefaults) (plainRight : right.PlainDefaults)
    (same : ∀ name ∈ names text, NameMap.find? left name = NameMap.find? right name) :
    left.expand text = right.expand text := by
  rw [expand, expand, ← spell_rowWithin_written plainLeft, ← spell_rowWithin_written plainRight,
    rowWithin_congr plainLeft plainRight (left.length_lt_depthBound text)
      (right.length_lt_depthBound text) fun name mem => by rw [same name mem]]

end MacroTable
end TexStatements
