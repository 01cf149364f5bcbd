import TagScript.Command.Basic
import TagScript.Config.Settings
import TagScript.Runner.CommandLine
import TagScript.Runner.Files

/-! Loading what a run needs: settings, a script and definitions. -/

namespace TagScript.Runner

inductive ConfigError where
  | file (error : FileError)
  | noDirectory
  | notReadable
  deriving DecidableEq, Repr

def configFileName : String := "tessera.toml"

def configDirectoryName : String := "tessera"

def ConfigError.chain : ConfigError → List String
  | .file error => [s!"Filesystem Error: {error.message}", error.message]
  | .noDirectory => ["Could not find system config directory."]
  | .notReadable => [s!"Failed to parse {configFileName}"]

inductive RunnerError where
  | config (error : ConfigError)
  | scriptRead (path : String) (error : FileError)
  | scriptParse (path : String) (error : EntryError)
  | invalidDefinition (text : String)
  | commands (error : CommandTableError)
  | fire (error : FireError)
  deriving DecidableEq, Repr

def RunnerError.chain : RunnerError → List String
  | .config error => "Failed to load engine config" :: error.chain
  | .scriptRead path error =>
    [s!"Could not read script '{path}': {error.message}", error.message]
  | .scriptParse path error =>
    [s!"Could not parse script '{path}': {error.message}", error.message]
  | .invalidDefinition text => [s!"Invalid definition '{text}'. Expected NAME=VALUE."]
  | .commands error => [error.message]
  | .fire error => [error.message]

def RunnerError.message (error : RunnerError) : String :=
  String.intercalate ": " error.chain

def parseDefinitions (pairs : List String) : Except RunnerError (List (String × String)) :=
  pairs.mapM fun pair =>
    match Text.cutOnceText '=' pair with
    | some (name, value) =>
      if Text.isBlankText name then .error (.invalidDefinition pair)
      else .ok (Text.trim name, value)
    | none => .error (.invalidDefinition pair)

def fireOptions (options : Options) : Except RunnerError FireOptions := do
  return { speed := options.speed, definitions := ← parseDefinitions options.definitions }

def parseScript (path content : String) : Except RunnerError Script :=
  match Script.ofLines (fileStem path) (Text.lines content) with
  | .ok script => .ok script
  | .error error => .error (.scriptParse path error)

variable {m : Type → Type} [Monad m]

def loadScript (files : FileAccess m) (path : String) : m (Except RunnerError Script) := do
  match ← files.read path with
  | .ok content => return parseScript path content
  | .error error => return .error (.scriptRead path error)

def readConfig (files : FileAccess m) (path : String) : m (Except ConfigError Config) := do
  if ← files.pathExists path then
    match ← files.read path with
    | .error error => return .error (.file error)
    | .ok content =>
      match Config.parse? content with
      | some config => return .ok config
      | none => return .error .notReadable
  else
    match ← files.write path (Config.render {}) with
    | .error error => return .error (.file error)
    | .ok () => return .ok {}

def loadConfig (files : FileAccess m) (path : String) : m (Except RunnerError Config) := do
  return (← readConfig files path).mapError .config

def defaultConfigPath (configDirectory : String) : String :=
  s!"{configDirectory}/{configDirectoryName}/{configFileName}"

end TagScript.Runner
