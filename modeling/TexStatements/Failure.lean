import TexStatements.Text.Numeral

/-!
# Failures

Only what makes a whole document unusable is a failure: bytes that are no text, files that cannot
be read, a source tree without a main file. Everything else is a warning.
-/
namespace TexStatements

/-- A reason for which a document cannot be extracted at all. -/
inductive Failure where
  /-- The input bytes are no text. -/
  | encoding (reason : Text)
  /-- The input is text but no document. -/
  | invalidInput (reason : Text)
  /-- None of the files at a place is a main file. -/
  | noMainFile (place : Text)
  /-- A file operation failed. -/
  | io (reason : Text)
  /-- The work was given up. -/
  | internal (reason : Text)
deriving DecidableEq

/-- The wording of a failure. -/
def Failure.message : Failure → Text
  | encoding reason => "Encoding error: ".toList ++ reason
  | invalidInput reason => "Invalid input: ".toList ++ reason
  | noMainFile place => "No main .tex file found in ".toList ++ place
  | io reason => "IO error: ".toList ++ reason
  | internal reason => "Internal error: ".toList ++ reason

/-- A reason for which a file of a source tree cannot be had. -/
inductive ReadFailure where
  /-- There is no such file. -/
  | notFound (path : Text)
  /-- The file is there but cannot be read. -/
  | unreadable (reason : Text)
deriving DecidableEq

namespace ReadFailure

/-- The wording of a failure to read. -/
def message : ReadFailure → Text
  | notFound path => "File not found: ".toList ++ path
  | unreadable reason => "Read error: ".toList ++ reason

/-- A failure to read as the failure of the whole extraction. -/
def toFailure (failure : ReadFailure) : Failure := .io failure.message

end ReadFailure
end TexStatements
