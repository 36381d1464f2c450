import Census.Disk
import Census.Log.Note
import Census.Text.Blank

/-!
# The credential

Every request needs a token. The environment variable wins when it holds one; otherwise the token is
the content of a file. White space around a token does not belong to it.
-/

namespace Census
namespace Credential

/-- The environment variable that may hold the token. -/
def variableName : String := "GITHUB_TOKEN"

inductive Fault
  | unreadable (fault : DiskFault)
  | empty
deriving DecidableEq

def Fault.message (f : Fault) (path : String) : String :=
  "Credential error: " ++ match f with
    | unreadable f =>
      "failed to read token file " ++ path ++ ": " ++ f.message ++ " (or set " ++ variableName ++ ")"
    | empty => "token file " ++ path ++ " is empty"

inductive Source
  | environment
  | file
deriving DecidableEq

/-- The token and its source, given what the environment variable holds. -/
def load (disk : Disk) (path : String) (value : Option String) :
    Except Fault (String × Source) :=
  match (value.map Text.trim).filter (· ≠ "") with
  | some token => .ok (token, .environment)
  | none =>
    match disk.readText path with
    | .error f => .error (.unreadable f)
    | .ok text =>
      if Text.trim text = "" then .error .empty else .ok (Text.trim text, .file)

def noteSource (source : Source) (path : String) : Log.Note :=
  ⟨.debug, Log.target "initialization::credentials", "Using API token from " ++ match source with
    | .environment => variableName
    | .file => path⟩

end Credential
end Census
