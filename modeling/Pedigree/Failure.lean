import Pedigree.Settings
import Pedigree.Source.Fault

/-! Why a run fails: a file that cannot be used, settings that make no sense, a fault in the
source, or an anchor that nobody in it is named after. -/

namespace Pedigree

inductive FileFault where
  | notFound
  | notADirectory
  | isADirectory
  | nameTooLong
  | zeroInName
  | notText
  | other (message : String)
deriving DecidableEq, Repr

def FileFault.message : FileFault → String
  | notFound => "No such file or directory (os error 2)"
  | notADirectory => "Not a directory (os error 20)"
  | isADirectory => "Is a directory (os error 21)"
  | nameTooLong => "File name too long (os error 36)"
  | zeroInName => "file name contained an unexpected NUL byte"
  | notText => "stream did not contain valid UTF-8"
  | other message => message

inductive Failure where
  | file (fault : FileFault)
  | source (fault : Source.Fault) (text : String)
  | anchor (name : String)
  | color (invalid : Color.Invalid)
  | unreadableSettings (path : String) (fault : FileFault)
  | invalidSettings (path : String) (fault : Settings.Fault)
deriving DecidableEq, Repr

def Failure.message : Failure → String
  | file fault => s!"I/O error: {fault.message}"
  | source fault _ => fault.diagnostic.text
  | anchor name => s!"generation anchor `{name}` is not declared"
  | color invalid => s!"Configuration error: {invalid.message}"
  | unreadableSettings path fault =>
    s!"Configuration error: cannot read `{path}`: {fault.message}"
  | invalidSettings path fault =>
    s!"Configuration error: `{path}` is not a valid configuration: {fault.message}"

end Pedigree
