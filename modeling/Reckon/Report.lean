import Reckon.Builtin
import Reckon.Formula
import Reckon.Json.Entries

/-!
One-shot use: a source text in, a text out, with the messages of all errors on the way.
-/

namespace Reckon

/-- The outcome of a one-shot use: what it gives, and its errors in lines. -/
structure Report where
  output : String
  errors : String
  success : Bool
deriving Repr, DecidableEq

/-- The messages of errors, one a line. -/
def errorLines (ds : List Diagnostic) : String :=
  String.intercalate "\n" ((ds.filter Diagnostic.isError).map Diagnostic.message)

namespace Report

/-- Evaluates a source text, with the variables of a JSON object. A blank text holds no variables. -/
def evaluate (now : Int) (source document : String) : Report :=
  let loaded :=
    if (trim document.toList).isEmpty then .ok Table.empty else Json.readTable document.toList
  match loaded with
  | .error e => ⟨"", "invalid variables: " ++ e.message, false⟩
  | .ok store =>
    let f := Formula.ofSource source
    let (evaluation, _) := f.evaluate ⟨Builtin.table now, store⟩
    let errors := errorLines (f.diagnostics ++ evaluation.diagnostics)
    ⟨evaluation.value.display, errors, errors.isEmpty⟩

/-- The canonical text of a source text. -/
def describe (source : String) : Report :=
  let f := Formula.ofSource source
  ⟨f.pretty, errorLines f.diagnostics, f.valid⟩

end Report
end Reckon
