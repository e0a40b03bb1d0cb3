/-
  Settings in files.

  The extension of the file says how it is written.  Only settings within their limits are saved,
  and only such settings are loaded.
-/
import Embroidery.Document.Json.Reader
import Embroidery.Document.Json.Writer
import Embroidery.Document.Toml.Reader
import Embroidery.Document.Toml.Writer
import Embroidery.Files.Script
import Embroidery.Settings.Record

namespace Embroidery

/-! ## Formats -/

inductive SettingsFormat where
  | json
  | toml
deriving DecidableEq

/-- The format of a settings file. -/
def SettingsFormat.ofPath (path : Path) : Except SettingsFault SettingsFormat :=
  match path.extension with
  | some "json" => .ok .json
  | some "toml" => .ok .toml
  | other => .error (.unknownFormat other)

/-- The text of settings. -/
def SettingsFormat.write (format : SettingsFormat) (s : Settings) : String :=
  match format with
  | json => Json.write (.table s.members)
  | toml => Toml.write s.members

/-- The settings that a text holds. -/
def SettingsFormat.read (format : SettingsFormat) (text : String) : Option Settings :=
  match format with
  | json => (Json.read text).bind (Settings.ofDocument false)
  | toml => (Toml.read text).bind (Settings.ofDocument true)

/-! ## Loading and saving -/

inductive SettingsError where
  | load (path : Path) (why : FileFault)
  | save (path : Path) (why : FileFault)
  /-- The text of the file is not what its format asks for. -/
  | malformed (format : SettingsFormat)
  | unsound (fault : SettingsFault)
deriving DecidableEq

/-- What there is to say about a malformed text. -/
def noSettings : String := "these are no settings"

def SettingsError.message : SettingsError → String
  | .load path why => "Failed to load settings from " ++ path.text ++ ": " ++ why.message
  | .save path why => "Failed to save settings to " ++ path.text ++ ": " ++ why.message
  | .malformed .json => "JSON error: " ++ noSettings
  | .malformed .toml => "TOML error: " ++ noSettings
  | .unsound fault => "Config error: " ++ fault.message

/-- The message of what lies behind an error. -/
def SettingsError.cause : SettingsError → String
  | .load _ why => why.message
  | .save _ why => why.message
  | .malformed _ => noSettings
  | .unsound fault => fault.message

namespace Settings

/-- The settings that a text holds, if they are within their limits. -/
def parse (format : SettingsFormat) (text : String) : Except SettingsError Settings :=
  match format.read text with
  | none => .error (.malformed format)
  | some s => (s.check.mapError .unsound).map fun _ => s

/-- The settings in a file. -/
def load (path : Path) : Script (Except SettingsError Settings) := do
  match SettingsFormat.ofPath path with
  | .error fault => return .error (.unsound fault)
  | .ok format =>
    match ← Script.readText path with
    | .error why => return .error (.load path why)
    | .ok text => return parse format text

/-- The settings in a file, the default ones if there is no file. -/
def loadOrDefault (path : Path) : Script (Except SettingsError Settings) := do
  if ← Script.isPresent path then load path else return .ok {}

/-- What is written for settings to a file, if they may be saved there. -/
def rendered (s : Settings) (path : Path) : Except SettingsFault String := do
  s.check
  let format ← SettingsFormat.ofPath path
  return format.write s

/-- The folders that a file needs. -/
def makeFoldersFor (path : Path) : Script (Except FileFault Unit) :=
  match path.parent with
  | none => return .ok ()
  | some folder => Script.makeFolders folder

/-- Save settings to a file and make its folder where it is missing. -/
def save (s : Settings) (path : Path) : Script (Except SettingsError Unit) := do
  match s.rendered path with
  | .error fault => return .error (.unsound fault)
  | .ok text =>
    match ← makeFoldersFor path with
    | .error why => return .error (.save path why)
    | .ok () => return (← Script.writeText path text).mapError (.save path)

end Settings
end Embroidery
