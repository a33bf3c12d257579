import TexStatements.Text.Blank

/-!
# Groups

Macro bodies, arguments and labels are enclosed in braces or brackets. A backslash escapes the
character after it, so an escaped delimiter never counts. Braces nest; in brackets both brackets
and braces nest, and a brace group inside brackets is passed over as a whole.
-/
namespace TexStatements
namespace Group

/-- Put characters in front of what a group contains. -/
def push (front : Text) : Option (Text × Text) → Option (Text × Text) :=
  Option.map fun (inner, rest) => (front ++ inner, rest)

/-- Read up to the brace that closes the given number of inner braces and one more. -/
def closeBracesFrom (depth : Nat) : Text → Option (Text × Text)
  | [] => none
  | first :: tail =>
    if first = '\\' then
      match tail with
      | [] => none
      | escaped :: tail => push [first, escaped] (closeBracesFrom depth tail)
    else if first = '{' then push [first] (closeBracesFrom (depth + 1) tail)
    else if first = '}' then
      match depth with
      | 0 => some ([], tail)
      | depth + 1 => push [first] (closeBracesFrom depth tail)
    else push [first] (closeBracesFrom depth tail)

/-- Read up to the bracket that closes the given numbers of inner brackets and braces and one
bracket more. Brackets do not count while a brace is open. -/
def closeBracketsFrom (brackets braces : Nat) : Text → Option (Text × Text)
  | [] => none
  | first :: tail =>
    if first = '\\' then
      match tail with
      | [] => none
      | escaped :: tail => push [first, escaped] (closeBracketsFrom brackets braces tail)
    else if first = '{' then push [first] (closeBracketsFrom brackets (braces + 1) tail)
    else match braces with
      | braces + 1 =>
        push [first] (closeBracketsFrom brackets (if first = '}' then braces else braces + 1) tail)
      | 0 =>
        if first = '[' then push [first] (closeBracketsFrom (brackets + 1) 0 tail)
        else if first = ']' then
          match brackets with
          | 0 => some ([], tail)
          | brackets + 1 => push [first] (closeBracketsFrom brackets 0 tail)
        else push [first] (closeBracketsFrom brackets 0 tail)

/-- The inside of a brace group that has just been opened, and the text after its brace. -/
def closeBrace? (text : Text) : Option (Text × Text) := closeBracesFrom 0 text

/-- The inside of a bracket group that has just been opened, and the text after its bracket. -/
def closeBracket? (text : Text) : Option (Text × Text) := closeBracketsFrom 0 0 text

/-- Pushing onto a group that was found pushes onto its inside. -/
theorem push_eq_some {front inner rest : Text} {result : Option (Text × Text)}
    (pushed : push front result = some (inner, rest)) :
    ∃ inside, result = some (inside, rest) ∧ inner = front ++ inside := by
  simp only [push, Option.map_eq_some_iff, Prod.mk.injEq] at pushed
  obtain ⟨⟨inside, tail⟩, rfl, rfl, rfl⟩ := pushed
  exact ⟨inside, rfl, rfl⟩

/-- A closed brace group is its inside, its closing brace and the text after it. -/
theorem closeBracesFrom_eq_append {text inner rest : Text} {depth : Nat}
    (closed : closeBracesFrom depth text = some (inner, rest)) :
    text = inner ++ '}' :: rest := by
  fun_induction closeBracesFrom depth text generalizing inner with
  | case1 => simp at closed
  | case2 => simp at closed
  | case3 depth escaped tail ih =>
    obtain ⟨inside, read, rfl⟩ := push_eq_some closed
    simp [ih read]
  | case4 depth tail _ ih =>
    obtain ⟨inside, read, rfl⟩ := push_eq_some closed
    simp [ih read]
  | case5 tail =>
    cases closed
    rfl
  | case6 tail _ _ depth ih =>
    obtain ⟨inside, read, rfl⟩ := push_eq_some closed
    simp [ih read]
  | case7 depth first tail _ _ _ ih =>
    obtain ⟨inside, read, rfl⟩ := push_eq_some closed
    simp [ih read]

/-- A closed bracket group is its inside, its closing bracket and the text after it. -/
theorem closeBracketsFrom_eq_append {text inner rest : Text} {brackets braces : Nat}
    (closed : closeBracketsFrom brackets braces text = some (inner, rest)) :
    text = inner ++ ']' :: rest := by
  fun_induction closeBracketsFrom brackets braces text generalizing inner with
  | case1 => simp at closed
  | case2 => simp at closed
  | case7 => cases closed; rfl
  | case3 _ _ _ _ ih | case4 _ _ _ _ ih | case5 _ _ _ _ _ _ ih | case6 _ _ _ _ ih
  | case8 _ _ _ _ _ ih | case9 _ _ _ _ _ _ _ ih =>
    obtain ⟨inside, read, rfl⟩ := push_eq_some closed
    simp [ih read]

/-- What a group is enclosed in. -/
inductive Delimiters where
  /-- Braces. -/
  | braces
  /-- Brackets. -/
  | brackets

namespace Delimiters

/-- The character that opens a group. -/
@[simp] abbrev opening : Delimiters → Char
  | braces => '{'
  | brackets => '['

/-- The character that closes a group. -/
@[simp] abbrev closing : Delimiters → Char
  | braces => '}'
  | brackets => ']'

/-- The inside of a group that has just been opened, and the text after its closing delimiter. -/
@[simp] abbrev close? : Delimiters → Text → Option (Text × Text)
  | braces => closeBrace?
  | brackets => closeBracket?

/-- A closed group is its inside, its closing delimiter and the text after it. -/
theorem close?_eq_append {delimiters : Delimiters} {text inner rest : Text}
    (closed : delimiters.close? text = some (inner, rest)) :
    text = inner ++ delimiters.closing :: rest := by
  cases delimiters with
  | braces => exact closeBracesFrom_eq_append closed
  | brackets => exact closeBracketsFrom_eq_append closed

end Delimiters

/-- Outcome of looking for a group at a place. -/
inductive Reading where
  /-- The next character that is not blank opens no group. -/
  | absent
  /-- A group opens and is never closed. -/
  | unterminated
  /-- A whole group: its inside and the text after it. -/
  | closed (inner rest : Text)

/-- The whole group, when there is one. -/
def Reading.toOption : Reading → Option (Text × Text)
  | closed inner rest => some (inner, rest)
  | _ => none

/-- Reading of an opened group, by whether it closes. -/
def Reading.ofClosed : Option (Text × Text) → Reading
  | some (inner, rest) => closed inner rest
  | none => unterminated

/-- An opened group is whole if it closes. -/
@[simp] theorem Reading.toOption_ofClosed (closed? : Option (Text × Text)) :
    (ofClosed closed?).toOption = closed? := by
  cases closed? <;> rfl

/-- Look for a group behind blanks. -/
def readGroup (delimiters : Delimiters) (text : Text) : Reading :=
  match text.trimStart with
  | [] => .absent
  | first :: tail =>
    if first = delimiters.opening then .ofClosed (delimiters.close? tail) else .absent

/-- Look for a brace group behind blanks. -/
abbrev readBraced : Text → Reading := readGroup .braces

/-- Look for a bracket group behind blanks. -/
abbrev readBracketed : Text → Reading := readGroup .brackets

/-- A whole group behind blanks: its inside and the text after it. -/
def group? (delimiters : Delimiters) (text : Text) : Option (Text × Text) :=
  (readGroup delimiters text).toOption

/-- A whole brace group behind blanks. -/
abbrev braced? : Text → Option (Text × Text) := group? .braces

/-- A whole bracket group behind blanks. -/
abbrev bracketed? : Text → Option (Text × Text) := group? .brackets

section Reading

variable {delimiters : Delimiters} {text inner rest : Text}

/-- A group is looked for behind the blanks at its delimiter. -/
theorem readGroup_eq {tail : Text} (start : text.trimStart = delimiters.opening :: tail) :
    readGroup delimiters text = .ofClosed (delimiters.close? tail) := by
  simp only [readGroup, start, if_true]

/-- There is no group where another character stands behind the blanks. -/
theorem readGroup_eq_absent (absent : text.trimStart.head? ≠ some delimiters.opening) :
    readGroup delimiters text = .absent := by
  unfold readGroup
  cases start : text.trimStart with
  | nil => rfl
  | cons first tail =>
    rw [start, List.head?_cons, Ne, Option.some.injEq] at absent
    exact if_neg absent

/-- A group is the blanks before it, its inside between its delimiters and the text after it. -/
theorem group?_eq_append (read : group? delimiters text = some (inner, rest)) :
    text.trimStart = delimiters.opening :: (inner ++ delimiters.closing :: rest) := by
  unfold group? at read
  by_cases opens : text.trimStart.head? = some delimiters.opening
  · obtain ⟨tail, start⟩ := List.head?_eq_some_iff.1 opens
    rw [readGroup_eq start, Reading.toOption_ofClosed] at read
    rw [start, Delimiters.close?_eq_append read]
  · rw [readGroup_eq_absent opens] at read
    cases read

/-- Reading a group advances. -/
theorem group?_advances (read : group? delimiters text = some (inner, rest)) :
    text.Advances rest := by
  have whole := group?_eq_append read
  obtain ⟨blanks, split⟩ := Text.trimStart_suffix text
  rw [whole] at split
  have behind : rest <:+ inner ++ delimiters.closing :: rest :=
    (List.suffix_cons _ rest).trans (List.suffix_append inner _)
  cases blanks with
  | nil => exact ⟨delimiters.opening, _, by simpa using split.symm, behind⟩
  | cons blank more =>
    refine ⟨blank, more ++ delimiters.opening :: (inner ++ delimiters.closing :: rest),
      by simpa using split.symm, ?_⟩
    exact behind.trans ((List.suffix_cons _ _).trans (List.suffix_append more _))

/-- So does finding one closed. -/
theorem readGroup_advances (read : readGroup delimiters text = .closed inner rest) :
    text.Advances rest := group?_advances (congrArg Reading.toOption read)

end Reading

end Group
end TexStatements
