/-
  The commands of the program, as scripts.

  A command that generates a program says how it went on the standard output if the program goes to
  a file, and on the error output if the program itself goes to the standard output.
-/
import Embroidery.Command.Arguments
import Embroidery.Command.Report
import Embroidery.Session
import Embroidery.Settings.Storage

namespace Embroidery

/-- Where the program finds things. -/
structure Surroundings where
  /-- The folder for settings, if the system has one. -/
  settings : Option Path
  /-- The folder for files that do not stay. -/
  temporary : Path

/-- How a run of the program ends. -/
structure Outcome where
  status : Nat
  out : String
  err : String
deriving DecidableEq

namespace Outcome

/-- Success with lines on the standard output. -/
def said (lines : List String) : Outcome := ⟨0, joinLines lines, ""⟩

/-- Failure after lines on the standard output. -/
def failed (lines : List String) (f : Failure) : Outcome := ⟨1, joinLines lines, f.text⟩

/-- Failure after lines on the error output. -/
def failedAside (lines : List String) (f : Failure) : Outcome :=
  ⟨1, "", joinLines lines ++ f.text⟩

end Outcome

/-! ## Failures -/

def SettingsError.chain (e : SettingsError) : List String := [e.message, e.cause]

def SessionError.failure (e : SessionError) : Failure := ⟨e.message, e.causes⟩

def noSettingsFolder : Failure :=
  ⟨"Failed to locate the configuration directory",
    ["Config directory error: no configuration directory on this platform"]⟩

/-! ## Commands -/

/-- The settings file: the one that was named, or the user's. -/
def Surroundings.settingsFile (s : Surroundings) (named : Option Path) : Option Path :=
  named.or (s.settings.map fun folder => (folder.inside "stitchkit").inside "config.toml")

/-- Remember a pattern in a settings file that is there.  Failing to do so is no failure. -/
def rememberPattern (file : Path) (settings : Settings) (pattern : Path) : Script Unit := do
  if ← Script.isFile file then
    let _ ← (settings.addRecent pattern).save file

/-- What is said about a generated program, with its preview if that is asked for. -/
def generatedLines (session : Session) (summary : Summary) (preview : Bool) :
    Script (Except SessionError (List String)) := do
  if preview then
    return (← session.preview).map fun p => summaryLine summary :: previewLines p
  else return .ok [summaryLine summary]

/-- Put the program of a session into a file. -/
def deliverToFile (session : Session) (lines : List String) (target : Path) :
    Script (Except Outcome Outcome) := do
  match ← session.exportTo target with
  | .error e => return .error (.failed lines e.failure)
  | .ok _ => return .ok (.said (lines ++ ["Wrote " ++ target.text]))

/-- Put the program of a session on the standard output. -/
def deliverToOutput (session : Session) (lines : List String) :
    Script (Except Outcome Outcome) := do
  match session.product with
  | none => return .ok ⟨0, "", joinLines lines⟩
  | some product =>
    match ← Script.readText product.artifact.path with
    | .error why => return .error (.failedAside lines ⟨why.message, []⟩)
    | .ok program => return .ok ⟨0, program, joinLines lines⟩

/-- Say what was generated and put the program where it goes. -/
def deliver (session : Session) (summary : Summary) (output : Option Path) (preview : Bool) :
    Script (Except Outcome Outcome) := do
  match ← generatedLines session summary preview with
  | .error e =>
    let lines := [summaryLine summary]
    return .error (if output.isSome then .failed lines e.failure else .failedAside lines e.failure)
  | .ok lines =>
    match output with
    | some target => deliverToFile session lines target
    | none => deliverToOutput session lines

/-- Generate the program of a pattern file. -/
def runGenerate (around : Surroundings) (named : Option Path) (pattern : Path)
    (output : Option Path) (preview : Bool) : Script Outcome := do
  match around.settingsFile named with
  | none => return .failed [] noSettingsFolder
  | some file =>
    match ← Settings.loadOrDefault file with
    | .error e => return .failed [] ⟨"Failed to load configuration " ++ file.text, e.chain⟩
    | .ok settings =>
      let start := Session.start settings.parameters around.temporary
      match ← start.generateFromFile pattern with
      | (.error e, session) => do
        let _ ← session.discard
        return .failed []
          ⟨"Failed to generate G-code for " ++ pattern.text, e.message :: e.causes⟩
      | (.ok summary, session) =>
        match ← deliver session summary output preview with
        | .error outcome => do
          let _ ← session.discard
          return outcome
        | .ok outcome => do
          rememberPattern file settings pattern
          let _ ← session.discard
          return outcome

/-- Say what a program file sews. -/
def runPreview (program : Path) (colors : Option Nat) : Script Outcome := do
  match ← previewFile program colors with
  | .error e =>
    return .failed [] ⟨"Failed to decode " ++ program.text, [e.message fun e => nomatch e]⟩
  | .ok p => return .said (previewLines p)

/-- Write the default settings. -/
def runInitConfig (around : Surroundings) (named : Option Path) (force : Bool) :
    Script Outcome := do
  match around.settingsFile named with
  | none => return .failed [] noSettingsFolder
  | some file =>
    if (← Script.isPresent file) && !force then
      return .failed [] ⟨file.text ++ " already exists, use --force to overwrite", []⟩
    else
      match ← ({} : Settings).save file with
      | .error e => return .failed [] ⟨"Failed to write " ++ file.text, e.chain⟩
      | .ok () => return .said ["Wrote default configuration to " ++ file.text]

def Command.run (around : Surroundings) (config : Option Path) : Command → Script Outcome
  | .generate pattern output shown => runGenerate around config pattern output shown
  | .preview program colors => runPreview program colors
  | .initConfig path force => runInitConfig around (path.or config) force

/-- Run the program with given arguments. -/
def runProgram (around : Surroundings) (args : List String) : Script Outcome :=
  match readArguments args with
  | none => return ⟨2, "", misuseText⟩
  | some (.notice .help) => return ⟨0, helpText, ""⟩
  | some (.notice .version) => return ⟨0, versionText, ""⟩
  | some (.run config command) => command.run around config

end Embroidery
