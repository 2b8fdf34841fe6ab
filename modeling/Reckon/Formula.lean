import Reckon.Assignment
import Reckon.Reduction
import Reckon.Source.Tokens

/-!
Formulas: a source text with the tokens read and repaired from it.

A formula can be evaluated any number of times. Only an assignment at its root changes the variables.
-/

namespace Reckon

/-- How deep sequences may be nested unless stated otherwise. -/
def defaultLimit : Nat := 128

/-- A formula that has been read. `diagnostics` are those of reading and repair, and `valid` tells
whether no assignment or separator had to be taken out. -/
structure Formula where
  source : String
  tokens : List Token
  diagnostics : List Diagnostic
  valid : Bool
  limit : Nat
deriving Repr

/-- The value of a formula and the diagnostics of its evaluation. -/
structure Evaluation where
  value : Value
  diagnostics : List Diagnostic
deriving Repr

namespace Formula

/-- Reads a formula. -/
def read (limit : Nat) (source : String) : Formula :=
  let tokens := tokenize limit source
  let repaired := repair source true tokens.result
  { source
    tokens := repaired.result.value
    diagnostics := tokens.diagnostics ++ repaired.diagnostics
    valid := repaired.result.valid
    limit }

/-- Reads a formula under the default limit. -/
def ofSource (source : String) : Formula := read defaultLimit source

/-- The canonical text. -/
def pretty (f : Formula) : String := describe f.tokens

def isEmpty (f : Formula) : Bool := f.tokens.isEmpty

/-- Evaluates the formula; gives the variables after it too. -/
def evaluate (f : Formula) (scope : Scope) : Evaluation × Table Value :=
  let evaluated := evaluateTokens f.limit scope f.tokens
  (⟨evaluated.result.1.toValue, evaluated.diagnostics⟩, evaluated.result.2)

end Formula
end Reckon
