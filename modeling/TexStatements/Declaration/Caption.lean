import TexStatements.NameMap
import TexStatements.Text.Case

/-!
# Captions

A statement is headed by the caption of its environment. An environment that declares none gets
the noun that its name abbreviates, or its name with a capital.
-/
namespace TexStatements

/-- Environment names that abbreviate their caption. -/
def captionAbbreviations : List (Text × Text) :=
  [("thm", "Theorem"), ("lem", "Lemma"), ("prop", "Proposition"), ("cor", "Corollary"),
    ("coro", "Corollary"), ("conj", "Conjecture"), ("defn", "Definition"), ("def", "Definition"),
    ("dfn", "Definition"), ("rem", "Remark"), ("rmk", "Remark"), ("ex", "Example"),
    ("exa", "Example"), ("obs", "Observation"), ("asm", "Assumption"), ("assum", "Assumption"),
    ("hyp", "Hypothesis"), ("nota", "Notation"), ("prob", "Problem"), ("exer", "Exercise"),
    ("alg", "Algorithm"), ("ques", "Question")].map fun (name, caption) =>
      (name.toList, caption.toList)

/-- An environment name without the stars that end it. -/
def withoutStars (name : Text) : Text := (name.reverse.dropWhile (· == '*')).reverse

/-- The caption of an environment that declares none. -/
def defaultCaption (environment : Text) : Text :=
  let base := withoutStars environment
  match NameMap.look base captionAbbreviations with
  | some caption => caption
  | none => base.capitalize

end TexStatements
