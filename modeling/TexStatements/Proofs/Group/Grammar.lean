import TexStatements.Group.Basic

/-!
# The grammars of groups

What may stand inside a brace group and inside a bracket group is given by two grammars, each with a
rule for a plain character, for an escaped one and for a nested group. A reader passes over such an
inside as a whole, and one that has still to close some groups reads what closes them one after
another: its inside is a row of such insides with the closing delimiters between them. So the
readers succeed exactly on these rows, in which they stop at the only delimiter that fits.
-/
namespace TexStatements
namespace Group

/-- What may stand inside a brace group. -/
inductive BraceInside : Text → Prop
  /-- Nothing. -/
  | empty : BraceInside []
  /-- A character that is no backslash and no brace, and more. -/
  | plain {c : Char} {rest : Text} (noEscape : c ≠ '\\') (noOpening : c ≠ '{')
    (noClosing : c ≠ '}') (more : BraceInside rest) : BraceInside (c :: rest)
  /-- A backslash with whatever character it escapes, and more. -/
  | escaped (c : Char) {rest : Text} (more : BraceInside rest) : BraceInside ('\\' :: c :: rest)
  /-- A brace group, and more. -/
  | braces {inner rest : Text} (inside : BraceInside inner) (more : BraceInside rest) :
    BraceInside ('{' :: (inner ++ '}' :: rest))

/-- What may stand inside a bracket group. A closing brace that closes nothing is plain here, and
so are brackets inside a brace group. -/
inductive BracketInside : Text → Prop
  /-- Nothing. -/
  | empty : BracketInside []
  /-- A character that is no backslash, no opening brace and no bracket, and more. -/
  | plain {c : Char} {rest : Text} (noEscape : c ≠ '\\') (noBrace : c ≠ '{')
    (noOpening : c ≠ '[') (noClosing : c ≠ ']') (more : BracketInside rest) :
    BracketInside (c :: rest)
  /-- A backslash with whatever character it escapes, and more. -/
  | escaped (c : Char) {rest : Text} (more : BracketInside rest) :
    BracketInside ('\\' :: c :: rest)
  /-- A brace group, and more. -/
  | braces {inner rest : Text} (inside : BraceInside inner) (more : BracketInside rest) :
    BracketInside ('{' :: (inner ++ '}' :: rest))
  /-- A bracket group, and more. -/
  | brackets {inner rest : Text} (inside : BracketInside inner) (more : BracketInside rest) :
    BracketInside ('[' :: (inner ++ ']' :: rest))

/-- Two insides of a brace group in a row are one. -/
theorem BraceInside.append {front back : Text} (first : BraceInside front)
    (second : BraceInside back) : BraceInside (front ++ back) := by
  induction first with
  | empty => exact second
  | plain noEscape noOpening noClosing _ ih => exact .plain noEscape noOpening noClosing ih
  | escaped c _ ih => exact .escaped c ih
  | braces inside _ _ ih =>
    rw [List.cons_append, List.append_assoc, List.cons_append]
    exact .braces inside ih

/-- Two insides of a bracket group in a row are one. -/
theorem BracketInside.append {front back : Text} (first : BracketInside front)
    (second : BracketInside back) : BracketInside (front ++ back) := by
  induction first with
  | empty => exact second
  | plain noEscape noBrace noOpening noClosing _ ih =>
    exact .plain noEscape noBrace noOpening noClosing ih
  | escaped c _ ih => exact .escaped c ih
  | braces inside _ ih =>
    rw [List.cons_append, List.append_assoc, List.cons_append]
    exact .braces inside ih
  | brackets inside _ _ ih =>
    rw [List.cons_append, List.append_assoc, List.cons_append]
    exact .brackets inside ih

/-- Characters that are no delimiters may stand inside a brace group. -/
theorem BraceInside.of_forall {text : Text}
    (plain : ∀ c ∈ text, c ≠ '\\' ∧ c ≠ '{' ∧ c ≠ '}') : BraceInside text := by
  induction text with
  | nil => exact .empty
  | cons first rest ih =>
    rw [List.forall_mem_cons] at plain
    obtain ⟨⟨noEscape, noOpening, noClosing⟩, later⟩ := plain
    exact .plain noEscape noOpening noClosing (ih later)

/-- Characters that are no delimiters may stand inside a bracket group. -/
theorem BracketInside.of_forall {text : Text}
    (plain : ∀ c ∈ text, c ≠ '\\' ∧ c ≠ '{' ∧ c ≠ '[' ∧ c ≠ ']') : BracketInside text := by
  induction text with
  | nil => exact .empty
  | cons first rest ih =>
    rw [List.forall_mem_cons] at plain
    obtain ⟨⟨noEscape, noBrace, noOpening, noClosing⟩, later⟩ := plain
    exact .plain noEscape noBrace noOpening noClosing (ih later)

/-- Text that may stand inside a group. -/
def Delimiters.Inside : Delimiters → Text → Prop
  | braces => BraceInside
  | brackets => BracketInside

/-- The characters that mean something inside a group. -/
def Delimiters.special : Delimiters → Text
  | braces => ['\\', '{', '}']
  | brackets => ['\\', '{', '[', ']']

/-- Characters that mean nothing there may stand inside a group. -/
theorem Delimiters.inside_of_forall (delimiters : Delimiters) {text : Text}
    (plain : ∀ c ∈ text, c ∉ delimiters.special) : delimiters.Inside text := by
  cases delimiters with
  | braces => exact .of_forall fun c mem => by simpa [special] using plain c mem
  | brackets => exact .of_forall fun c mem => by simpa [special] using plain c mem

/-- So may those of a kind to which none of the others belongs. -/
theorem Delimiters.inside_of_kind (delimiters : Delimiters) {kind : Char → Bool} {text : Text}
    (apart : ∀ c ∈ delimiters.special, kind c = false) (all : ∀ c ∈ text, kind c = true) :
    delimiters.Inside text :=
  delimiters.inside_of_forall fun c mem isSpecial =>
    Bool.false_ne_true ((apart c isSpecial).symm.trans (all c mem))

/-- Nothing is pushed. -/
@[simp] theorem push_nil (result : Option (Text × Text)) : push [] result = result := by
  cases result <;> rfl

/-- Pushing twice is pushing once. -/
theorem push_push (front more : Text) (result : Option (Text × Text)) :
    push front (push more result) = push (front ++ more) result := by
  cases result <;> simp [push]

/-- What is pushed does not change what stands behind the group. -/
theorem map_snd_push (front : Text) (result : Option (Text × Text)) :
    (push front result).map (·.2) = result.map (·.2) := by
  cases result <;> rfl

/-- A reader passes over a piece of text: the piece is part of the group, and another reader goes on
behind it. -/
def Passes (first second : Text → Option (Text × Text)) (piece : Text) : Prop :=
  ∀ tail, first (piece ++ tail) = push piece (second tail)

namespace Passes

variable {first second third : Text → Option (Text × Text)} {piece more : Text}

/-- There is nothing to pass over. -/
theorem nil (reader : Text → Option (Text × Text)) : Passes reader reader [] := by
  intro tail
  rw [List.nil_append, push_nil]

/-- Two pieces in a row are passed over one after the other. -/
theorem append (front : Passes first second piece) (back : Passes second third more) :
    Passes first third (piece ++ more) := by
  intro tail
  rw [List.append_assoc, front, back, push_push]

/-- What is passed over does not change what stands behind the group. -/
theorem behind (passes : Passes first second piece) (tail : Text) :
    (first (piece ++ tail)).map (·.2) = (second tail).map (·.2) := by
  rw [passes tail, map_snd_push]

/-- What is passed over does not change whether the group is closed. -/
theorem isSome (passes : Passes first second piece) (tail : Text) :
    (first (piece ++ tail)).isSome = (second tail).isSome := by
  rw [passes tail, push, Option.isSome_map]

/-- A nested group is passed over with its delimiters and what comes behind it. -/
theorem group {inside : Text → Option (Text × Text)} {opening closing : Char} {inner rest : Text}
    (opens : Passes first inside [opening]) (within : Passes inside inside inner)
    (closes : Passes inside first [closing]) (behind : Passes first first rest) :
    Passes first first (opening :: (inner ++ closing :: rest)) :=
  opens.append (within.append (closes.append behind))

end Passes

section Steps

variable (depth brackets braces : Nat) {c : Char}

/-- In braces an escaped character is passed over. -/
theorem passes_escaped (c : Char) :
    Passes (closeBracesFrom depth) (closeBracesFrom depth) ['\\', c] := by
  intro tail
  rw [closeBracesFrom.eq_def]
  rfl

/-- In braces an opening brace leaves one more to close. -/
theorem passes_opening : Passes (closeBracesFrom depth) (closeBracesFrom (depth + 1)) ['{'] := by
  intro tail
  rw [closeBracesFrom.eq_def]
  rfl

/-- In braces a closing brace closes an inner one. -/
theorem passes_closing : Passes (closeBracesFrom (depth + 1)) (closeBracesFrom depth) ['}'] := by
  intro tail
  rw [closeBracesFrom.eq_def]
  rfl

/-- In braces a character that is no delimiter is passed over. -/
theorem passes_plain (noEscape : c ≠ '\\') (noOpening : c ≠ '{') (noClosing : c ≠ '}') :
    Passes (closeBracesFrom depth) (closeBracesFrom depth) [c] := by
  intro tail
  rw [List.singleton_append, closeBracesFrom.eq_def]
  simp only [if_neg noEscape, if_neg noOpening, if_neg noClosing]

/-- In brackets an escaped character is passed over. -/
theorem passes_escapedInBrackets (c : Char) :
    Passes (closeBracketsFrom brackets braces) (closeBracketsFrom brackets braces) ['\\', c] := by
  intro tail
  rw [closeBracketsFrom.eq_def]
  rfl

/-- In brackets an opening brace leaves one more brace to close. -/
theorem passes_openingBrace :
    Passes (closeBracketsFrom brackets braces) (closeBracketsFrom brackets (braces + 1)) ['{'] := by
  intro tail
  rw [closeBracketsFrom.eq_def]
  rfl

/-- In brackets a closing brace closes one that is open. -/
theorem passes_closingBrace :
    Passes (closeBracketsFrom brackets (braces + 1)) (closeBracketsFrom brackets braces) ['}'] := by
  intro tail
  rw [closeBracketsFrom.eq_def]
  rfl

/-- In a brace group in brackets a character that is no brace is passed over. -/
theorem passes_plainInBraces (noEscape : c ≠ '\\') (noOpening : c ≠ '{') (noClosing : c ≠ '}') :
    Passes (closeBracketsFrom brackets (braces + 1)) (closeBracketsFrom brackets (braces + 1))
      [c] := by
  intro tail
  rw [List.singleton_append, closeBracketsFrom.eq_def]
  simp only [if_neg noEscape, if_neg noOpening, if_neg noClosing]

/-- In brackets an opening bracket leaves one more bracket to close. -/
theorem passes_openingBracket :
    Passes (closeBracketsFrom brackets 0) (closeBracketsFrom (brackets + 1) 0) ['['] := by
  intro tail
  rw [closeBracketsFrom.eq_def]
  rfl

/-- In brackets a closing bracket closes an inner one. -/
theorem passes_closingBracket :
    Passes (closeBracketsFrom (brackets + 1) 0) (closeBracketsFrom brackets 0) [']'] := by
  intro tail
  rw [closeBracketsFrom.eq_def]
  rfl

/-- In brackets a character that is no delimiter is passed over. -/
theorem passes_plainInBrackets (noEscape : c ≠ '\\') (noBrace : c ≠ '{') (noOpening : c ≠ '[')
    (noClosing : c ≠ ']') :
    Passes (closeBracketsFrom brackets 0) (closeBracketsFrom brackets 0) [c] := by
  intro tail
  rw [List.singleton_append, closeBracketsFrom.eq_def]
  simp only [if_neg noEscape, if_neg noBrace, if_neg noOpening, if_neg noClosing]

/-- A closing brace ends the group where no inner one is open. -/
theorem closeBracesFrom_stop (tail : Text) : closeBracesFrom 0 ('}' :: tail) = some ([], tail) := by
  rw [closeBracesFrom.eq_def]
  rfl

/-- A closing bracket ends the group where neither an inner bracket nor a brace is open. -/
theorem closeBracketsFrom_stop (tail : Text) :
    closeBracketsFrom 0 0 (']' :: tail) = some ([], tail) := by
  rw [closeBracketsFrom.eq_def]
  rfl

end Steps

section Insides

variable {inner : Text}

/-- The inside of a brace group is passed over, whatever is open around it. -/
theorem BraceInside.passes (inside : BraceInside inner) (depth : Nat) :
    Passes (closeBracesFrom depth) (closeBracesFrom depth) inner := by
  induction inside generalizing depth with
  | empty => exact .nil _
  | plain noEscape noOpening noClosing _ ih =>
    exact (passes_plain depth noEscape noOpening noClosing).append (ih depth)
  | escaped c _ ih => exact (passes_escaped depth c).append (ih depth)
  | braces _ _ first later =>
    exact .group (passes_opening depth) (first (depth + 1)) (passes_closing depth) (later depth)

/-- The inside of a brace group is passed over inside a bracket group too, where a brace is open. -/
theorem BraceInside.passes_inBrackets (inside : BraceInside inner) (brackets braces : Nat) :
    Passes (closeBracketsFrom brackets (braces + 1)) (closeBracketsFrom brackets (braces + 1))
      inner := by
  induction inside generalizing braces with
  | empty => exact .nil _
  | plain noEscape noOpening noClosing _ ih =>
    exact (passes_plainInBraces brackets braces noEscape noOpening noClosing).append (ih braces)
  | escaped c _ ih => exact (passes_escapedInBrackets brackets (braces + 1) c).append (ih braces)
  | braces _ _ first later =>
    exact .group (passes_openingBrace brackets (braces + 1)) (first (braces + 1))
      (passes_closingBrace brackets (braces + 1)) (later braces)

/-- The inside of a bracket group is passed over where no brace is open. -/
theorem BracketInside.passes (inside : BracketInside inner) (brackets : Nat) :
    Passes (closeBracketsFrom brackets 0) (closeBracketsFrom brackets 0) inner := by
  induction inside generalizing brackets with
  | empty => exact .nil _
  | plain noEscape noBrace noOpening noClosing _ ih =>
    exact (passes_plainInBrackets brackets noEscape noBrace noOpening noClosing).append
      (ih brackets)
  | escaped c _ ih => exact (passes_escapedInBrackets brackets 0 c).append (ih brackets)
  | braces inside _ ih =>
    exact .group (passes_openingBrace brackets 0) (inside.passes_inBrackets brackets 0)
      (passes_closingBrace brackets 0) (ih brackets)
  | brackets _ _ first later =>
    exact .group (passes_openingBracket brackets) (first (brackets + 1))
      (passes_closingBracket brackets) (later brackets)

end Insides

/-- What a reader of brace groups reads when so many inner braces are open: insides of brace groups,
with the braces that close them in between. -/
inductive BraceRow : Nat → Text → Prop
  /-- Nothing but the group itself is open. -/
  | last {inner : Text} (inside : BraceInside inner) : BraceRow 0 inner
  /-- An inner group is closed. -/
  | closing {depth : Nat} {inner rest : Text} (inside : BraceInside inner)
    (more : BraceRow depth rest) : BraceRow (depth + 1) (inner ++ '}' :: rest)

/-- What a reader of bracket groups reads when so many inner brackets and braces are open. The
braces are closed first. -/
inductive BracketRow : Nat → Nat → Text → Prop
  /-- Nothing but the group itself is open. -/
  | last {inner : Text} (inside : BracketInside inner) : BracketRow 0 0 inner
  /-- An inner bracket group is closed. -/
  | closing {brackets : Nat} {inner rest : Text} (inside : BracketInside inner)
    (more : BracketRow brackets 0 rest) : BracketRow (brackets + 1) 0 (inner ++ ']' :: rest)
  /-- An inner brace group is closed. -/
  | closingBrace {brackets braces : Nat} {inner rest : Text} (inside : BraceInside inner)
    (more : BracketRow brackets braces rest) :
    BracketRow brackets (braces + 1) (inner ++ '}' :: rest)

section Rows

variable {delimiters : Delimiters} {depth brackets braces : Nat} {front inner text rest : Text}

/-- An inside in front of a row belongs to it. -/
theorem BraceRow.push (row : BraceRow depth inner) (inside : BraceInside front) :
    BraceRow depth (front ++ inner) := by
  cases row with
  | last more => exact .last (inside.append more)
  | closing more later =>
    rw [← List.append_assoc]
    exact .closing (inside.append more) later

/-- An inside of a bracket group belongs to the row behind it where no brace is open. -/
theorem BracketRow.push (row : BracketRow brackets 0 inner) (inside : BracketInside front) :
    BracketRow brackets 0 (front ++ inner) := by
  cases row with
  | last more => exact .last (inside.append more)
  | closing more later =>
    rw [← List.append_assoc]
    exact .closing (inside.append more) later

/-- An inside of a brace group belongs to the row behind it where a brace is open. -/
theorem BracketRow.pushBraces (row : BracketRow brackets (braces + 1) inner)
    (inside : BraceInside front) : BracketRow brackets (braces + 1) (front ++ inner) := by
  cases row with
  | closingBrace more later =>
    rw [← List.append_assoc]
    exact .closingBrace (inside.append more) later

/-- What may stand in both kinds of groups belongs to the row behind it in any case. -/
theorem BracketRow.pushBoth (row : BracketRow brackets braces inner)
    (inBraces : BraceInside front) (inBrackets : BracketInside front) :
    BracketRow brackets braces (front ++ inner) := by
  cases braces with
  | zero => exact row.push inBrackets
  | succ braces => exact row.pushBraces inBraces

/-- What a reader of brace groups reads is a row. -/
theorem braceRow_of_closeBracesFrom (closed : closeBracesFrom depth text = some (inner, rest)) :
    BraceRow depth inner := by
  fun_induction closeBracesFrom depth text generalizing inner with
  | case1 => simp at closed
  | case2 => simp at closed
  | case3 depth c tail ih =>
    obtain ⟨inside, read, rfl⟩ := push_eq_some closed
    exact (ih read).push (.escaped c .empty)
  | case4 depth tail _ ih =>
    obtain ⟨inside, read, rfl⟩ := push_eq_some closed
    cases ih read with
    | closing nested more => simpa using more.push (.braces nested .empty)
  | case5 tail =>
    cases closed
    exact .last .empty
  | case6 tail _ _ depth ih =>
    obtain ⟨inside, read, rfl⟩ := push_eq_some closed
    exact .closing .empty (ih read)
  | case7 depth first tail noEscape noOpening noClosing ih =>
    obtain ⟨inside, read, rfl⟩ := push_eq_some closed
    exact (ih read).push (.plain noEscape noOpening noClosing .empty)

/-- What a reader of bracket groups reads is a row. -/
theorem bracketRow_of_closeBracketsFrom
    (closed : closeBracketsFrom brackets braces text = some (inner, rest)) :
    BracketRow brackets braces inner := by
  fun_induction closeBracketsFrom brackets braces text generalizing inner with
  | case1 => simp at closed
  | case2 => simp at closed
  | case3 brackets braces c tail ih =>
    obtain ⟨inside, read, rfl⟩ := push_eq_some closed
    exact (ih read).pushBoth (.escaped c .empty) (.escaped c .empty)
  | case4 brackets braces tail _ ih =>
    obtain ⟨inside, read, rfl⟩ := push_eq_some closed
    cases ih read with
    | closingBrace nested more =>
      simpa using more.pushBoth (.braces nested .empty) (.braces nested .empty)
  | case5 brackets first tail noEscape noOpening braces ih =>
    obtain ⟨inside, read, rfl⟩ := push_eq_some closed
    have row := ih read
    by_cases closing : first = '}'
    · rw [if_pos closing] at row
      rw [closing]
      exact .closingBrace .empty row
    · rw [if_neg closing] at row
      exact row.pushBraces (.plain noEscape noOpening closing .empty)
  | case6 brackets tail _ _ ih =>
    obtain ⟨inside, read, rfl⟩ := push_eq_some closed
    cases ih read with
    | closing nested more => simpa using more.push (.brackets nested .empty)
  | case7 tail =>
    cases closed
    exact .last .empty
  | case8 tail _ _ _ brackets ih =>
    obtain ⟨inside, read, rfl⟩ := push_eq_some closed
    exact .closing .empty (ih read)
  | case9 brackets first tail noEscape noBrace noOpening noClosing ih =>
    obtain ⟨inside, read, rfl⟩ := push_eq_some closed
    exact (ih read).push (.plain noEscape noBrace noOpening noClosing .empty)

/-- A group is closed exactly where its inside and a closing delimiter stand. -/
theorem close?_eq_some_iff :
    delimiters.close? text = some (inner, rest) ↔
      text = inner ++ delimiters.closing :: rest ∧ delimiters.Inside inner := by
  constructor
  · intro closed
    refine ⟨Delimiters.close?_eq_append closed, ?_⟩
    cases delimiters with
    | braces =>
      cases braceRow_of_closeBracesFrom closed with
      | last inside => exact inside
    | brackets =>
      cases bracketRow_of_closeBracketsFrom closed with
      | last inside => exact inside
  · rintro ⟨rfl, inside⟩
    cases delimiters with
    | braces =>
      have passed := BraceInside.passes inside 0 ('}' :: rest)
      rw [closeBracesFrom_stop] at passed
      simpa [closeBrace?, Group.push] using passed
    | brackets =>
      have passed := BracketInside.passes inside 0 (']' :: rest)
      rw [closeBracketsFrom_stop] at passed
      simpa [closeBracket?, Group.push] using passed

/-- What is read in front of a last closing delimiter may stand inside a group. -/
theorem inside_of_close? (delimiters : Delimiters)
    (closed : delimiters.close? (inner ++ [delimiters.closing]) = some (inner, [])) :
    delimiters.Inside inner := (close?_eq_some_iff.1 closed).2

/-- A whole group is read exactly where it stands behind blanks. -/
theorem group?_eq_some_iff :
    group? delimiters text = some (inner, rest) ↔
      text.trimStart = delimiters.opening :: (inner ++ delimiters.closing :: rest) ∧
        delimiters.Inside inner := by
  constructor
  · intro read
    have whole := group?_eq_append read
    refine ⟨whole, ?_⟩
    rw [group?, readGroup_eq whole, Reading.toOption_ofClosed] at read
    exact (close?_eq_some_iff.1 read).2
  · rintro ⟨whole, inside⟩
    rw [group?, readGroup_eq whole, Reading.toOption_ofClosed]
    exact close?_eq_some_iff.2 ⟨rfl, inside⟩

/-- A group is read as it is written. -/
theorem readGroup_inside (delimiters : Delimiters) (rest : Text)
    (inside : delimiters.Inside inner) :
    readGroup delimiters (delimiters.opening :: (inner ++ delimiters.closing :: rest)) =
      .closed inner rest := by
  have start : Text.trimStart (delimiters.opening :: (inner ++ delimiters.closing :: rest)) =
      delimiters.opening :: (inner ++ delimiters.closing :: rest) := by
    cases delimiters <;> rfl
  rw [readGroup_eq start, close?_eq_some_iff.2 ⟨rfl, inside⟩]
  rfl

/-- A group that is written is a whole one. -/
theorem group?_inside (delimiters : Delimiters) (rest : Text)
    (inside : delimiters.Inside inner) :
    group? delimiters (delimiters.opening :: (inner ++ delimiters.closing :: rest)) =
      some (inner, rest) :=
  congrArg Reading.toOption (readGroup_inside delimiters rest inside)

end Rows

end Group
end TexStatements
