import Pedigree.Color.StyleSheet
import Pedigree.Command.Disk
import Pedigree.Command.Help
import Pedigree.Command.Request
import Pedigree.Dot.Print

/-! A run of the command: find the settings, read the input, write it in the form that was asked
for. -/

namespace Pedigree.Command

variable {m : Type → Type} [Monad m]

def settingsPaths (configuration : Option String) : List String :=
  "lineage/config.toml" :: (configuration.map (· ++ "/lineage/config.toml")).toList

def firstFile (fs : FileAccess m) : List String → m (Option String)
  | [] => return none
  | path :: paths => do
    if ← fs.isFile path then return some path else firstFile fs paths

def readSettings (fs : FileAccess m) (path : String) : m (Except Failure Settings) := do
  match ← fs.read path with
  | .error fault => return .error (.unreadableSettings path fault)
  | .ok text =>
    match Settings.parse text with
    | .error fault => return .error (.invalidSettings path fault)
    | .ok settings => return .ok settings

def findSettings (fs : FileAccess m) (configuration asked : Option String) :
    m (Except Failure Settings) := do
  match asked with
  | some path => readSettings fs path
  | none =>
    match ← firstFile fs (settingsPaths configuration) with
    | some path => readSettings fs path
    | none => return .ok {}

def run (fs : FileAccess m) (configuration : Option String) (r : Request) :
    m (Except Failure String) := do
  match ← findSettings fs configuration r.settings with
  | .error failure => return .error failure
  | .ok settings =>
    match ← fs.read r.input with
    | .error fault => return .error (.file fault)
    | .ok source =>
      match settings.write r.form source, r.output with
      | .error failure, _ => return .error failure
      | .ok text, none => return .ok text
      | .ok text, some path =>
        match ← fs.write path text with
        | .error fault => return .error (.file fault)
        | .ok () => return .ok ""

def logLevels : List String := ["off", "error", "warn", "info", "debug", "trace"]

def notice? (level : String) : Option String :=
  if level.toLower ∈ logLevels then none
  else some s!"unknown log level `{level}`, falling back to `warn`"

structure Outcome where
  exit : Nat
  printed : String := ""
  notice : Option String := none
  failure : Option Failure := none

def execute (fs : FileAccess m) (configuration : Option String) (words : List String) :
    m Outcome := do
  match Request.parse words with
  | .error (.help true) => return { exit := 0, printed := full }
  | .error (.help false) => return { exit := 0, printed := brief }
  | .error .version => return { exit := 0, printed := version }
  | .error _ => return { exit := 2 }
  | .ok request =>
    let notice := notice? request.logLevel
    match ← run fs configuration request with
    | .ok printed => return { exit := 0, printed, notice }
    | .error failure => return { exit := 1, notice, failure := some failure }

end Pedigree.Command
