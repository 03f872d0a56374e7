import Pedigree.Failure

/-! Reports of failures. A fault in a source is shown on the source, with labels at its spans;
other failures have a code of their own and nothing to point at. -/

namespace Pedigree

structure Report where
  text : String
  code : String
  help : Option String := none
  shown : Option (String × Source.Label × List Source.Label) := none
  cause : Option String := none
deriving DecidableEq, Repr

namespace Report

def ofDiagnostic (d : Source.Diagnostic) (source : String) : Report where
  text := d.message
  code := d.code.text
  help := d.help
  shown := some (source, d.primary, d.context.toList)

def ofFailure (failure : Failure) : Report :=
  let text := failure.message
  match failure with
  | .source fault source => ofDiagnostic fault.diagnostic source
  | .file fault => { text, code := "lineage::io", cause := some fault.message }
  | .anchor _ => {
    text
    code := "lineage::anchor"
    help := some "`[generation] anchor` must name a person declared in the input" }
  | .color _ | .unreadableSettings _ _ | .invalidSettings _ _ =>
    { text, code := "lineage::config" }

end Report
end Pedigree
