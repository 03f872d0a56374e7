import Pedigree.Command.Run
import Pedigree.Report

/-! The command on the files of the system. -/

namespace Pedigree.Main

def errorNumber (code : UInt32) : UInt32 := if code < 0x80000000 then code else 0 - code

def faultOf (e : IO.Error) : FileFault :=
  match e with
  | .noFileOrDirectory .. => .notFound
  | .inappropriateType _ code _ | .illegalOperation code _ =>
    if errorNumber code = 21 then .isADirectory
    else if errorNumber code = 20 then .notADirectory
    else .other (toString e)
  | .invalidArgument _ code _ =>
    if errorNumber code = 36 then .nameTooLong else .other (toString e)
  | e => .other (toString e)

def readFile (path : String) : IO (Except FileFault String) := do
  try
    let bytes ← IO.FS.readBinFile path
    match String.fromUTF8? bytes with
    | some text => return .ok text
    | none => return .error .notText
  catch e => return .error (faultOf e)

def writeFile (path text : String) : IO (Except FileFault Unit) := do
  try
    IO.FS.writeFile path text
    return .ok ()
  catch e => return .error (faultOf e)

def access : Command.FileAccess IO where
  read := readFile
  write := writeFile
  isFile path := do
    match ← readFile path with
    | .ok _ | .error .notText | .error (.other _) => return true
    | .error _ => return false

def configuration : IO (Option String) := do
  match ← IO.getEnv "XDG_CONFIG_HOME" with
  | some path =>
    if path.startsWith "/" then return some path
  | none => pure ()
  return (← IO.getEnv "HOME").map (· ++ "/.config")

end Pedigree.Main

open Pedigree

def main (words : List String) : IO UInt32 := do
  let outcome ← Command.execute Main.access (← Main.configuration) words
  if let some notice := outcome.notice then IO.eprintln notice
  if let some failure := outcome.failure then IO.eprintln (Report.ofFailure failure).text
  IO.print outcome.printed
  return outcome.exit.toUInt32
