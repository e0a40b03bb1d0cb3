/-
  Generation sessions.

  A session holds the program it generated last, as an artifact with its summary, or none.  Every
  generation first drops the program that is there; one that fails leaves none behind.
-/
import Embroidery.Artifact
import Embroidery.Pattern.Storage
import Embroidery.Program.Generate
import Embroidery.Program.Stored

namespace Embroidery

/-- A generated program. -/
structure Product where
  artifact : FinishedArtifact
  summary : Summary
deriving DecidableEq

structure Session where
  parameters : Parameters
  /-- Where artifacts are made. -/
  folder : Path
  product : Option Product
deriving DecidableEq

inductive SessionError where
  | parameters (fault : ParameterFault)
  | source (error : PatternFileError)
  | tooManyColors (count : Nat)
  | artifact (why : FileFault)
  | decode (error : ProgramReadError Empty)
  | noProduct

def SessionError.message : SessionError → String
  | .parameters fault => "Invalid configuration: " ++ fault.message
  | .source error => "Failed to read pattern: " ++ error.message
  | .tooManyColors count =>
    "Pattern rejected: "
      ++ (GenerateError.tooManyColors count : GenerateError Empty).message (fun e => nomatch e)
  | .artifact why => "G-code artifact I/O error: " ++ why.message
  | .decode error => "Failed to decode G-code: " ++ error.message (fun e => nomatch e)
  | .noProduct => "No G-code has been generated yet"

/-- The messages of what lies behind an error, from the nearest to the last. -/
def SessionError.causes : SessionError → List String
  | .parameters fault => [fault.message]
  | .source error => error.message :: error.cause.toList
  | .artifact why => [why.message]
  | .tooManyColors _ => []
  | .decode _ => []
  | .noProduct => []

namespace Session

/-- A session without a program. -/
def start (parameters : Parameters) (folder : Path) : Session := ⟨parameters, folder, none⟩

/-- Set the parameters of later generations. -/
def setParameters (s : Session) (parameters : Parameters) : Session := { s with parameters }

/-- Drop the program that is there. -/
def discard (s : Session) : Script Session := do
  match s.product with
  | some product => product.artifact.drop
  | none => pure ()
  return { s with product := none }

/-- Write the program of a pattern to a new artifact, which is dropped on failure. -/
def produce (parameters : Parameters) (folder : Path) (pattern : Pattern) :
    Script (Except SessionError Product) := do
  match parameters.check with
  | .error fault => return .error (.parameters fault)
  | .ok () =>
    match ← OpenArtifact.create folder with
    | .error why => return .error (.artifact why)
    | .ok artifact =>
      match generateInto (OpenArtifact.sink : Sink OpenArtifact Empty) artifact parameters
          pattern with
      | (artifact, .error error) => do
        artifact.drop
        return .error (ofGenerate error)
      | (artifact, .ok summary) =>
        match ← artifact.finish with
        | .error why => return .error (.artifact why)
        | .ok finished => return .ok ⟨finished, summary⟩
where
  ofGenerate : GenerateError Empty → SessionError
    | .parameters fault => .parameters fault
    | .tooManyColors count => .tooManyColors count

/-- Generate the program of a pattern in place of the one that is there. -/
def generate (s : Session) (pattern : Pattern) :
    Script (Except SessionError Summary × Session) := do
  let s ← s.discard
  match ← produce s.parameters s.folder pattern with
  | .error error => return (.error error, s)
  | .ok product => return (.ok product.summary, { s with product := some product })

/-- Generate the program of the pattern in a file. -/
def generateFromFile (s : Session) (path : Path) :
    Script (Except SessionError Summary × Session) := do
  let s ← s.discard
  match ← Pattern.load path with
  | .error error => return (.error (.source error), s)
  | .ok pattern => s.generate pattern

/-- The preview of the program. -/
def preview (s : Session) : Script (Except SessionError Preview) := do
  match s.product with
  | none => return .error .noProduct
  | some product =>
    return (← previewFile product.artifact.path (some product.summary.colorCount)).mapError .decode

/-- Copy the program to a path; the answer is the number of bytes. -/
def exportTo (s : Session) (target : Path) : Script (Except SessionError Nat) := do
  match s.product with
  | none => return .error .noProduct
  | some product => return (← product.artifact.exportTo target).mapError .artifact

end Session
end Embroidery
