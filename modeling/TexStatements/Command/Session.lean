import TexStatements.Command.Run
import TexStatements.Source.Volume

/-!
# Sessions in memory

A session is a machine for one run that exists in memory only: a volume for the disk, the bytes of
the standard input, and what was written to the standard streams.
-/
namespace TexStatements

/-- A machine in memory. -/
structure Session where
  /-- The disk. -/
  volume : Volume := {}
  /-- The bytes of the standard input. -/
  input : List UInt8 := []
  /-- What was written to the standard output. -/
  output : Text := []
  /-- What was written to the standard error. -/
  errors : Text := []

namespace Session

/-- Add to the standard output. -/
def print (text : Text) (session : Session) : Session :=
  { session with output := session.output ++ text }

/-- Add to the standard error. -/
def report (text : Text) (session : Session) : Session :=
  { session with errors := session.errors ++ text }

/-- The disk of a session: its volume, whose devices for the standard streams lead to these. -/
def disk : Disk (StateM Session) :=
  let plain := Volume.disk volume fun session volume => { session with volume }
  { plain with
    readFile := fun path session => match session.volume.find path with
      | .device .input => (.ok session.input, session)
      | _ => plain.readFile path session
    writeFile := fun path text session => match session.volume.find path with
      | .device .output => (.ok (), session.print text)
      | .device .errors => (.ok (), session.report text)
      | _ => plain.writeFile path text session }

/-- A session as the host of a run. Everything takes some time there, and nothing a whole second. -/
def host : Host (StateM Session) where
  disk := disk
  input := fun session => (session.input, session)
  print text := fun session => ((), session.print text)
  report text := fun session => ((), session.report text)
  within seconds action := if seconds = 0 then pure none else some <$> action

/-- Run a command line in a session: the exit code and the session afterwards. -/
def run (session : Session) (arguments : List Text) : Nat × Session :=
  (host.run arguments).run session

end Session
end TexStatements
