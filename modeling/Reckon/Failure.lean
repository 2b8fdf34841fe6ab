/-!
Failures that end a call or an evaluation, with their wording, code and advice.
-/

namespace Reckon

inductive Failure where
  | wrongArgumentCount (function expected : String) (found : Nat)
  | argumentType (function expected found : String)
  | functionFailed (function reason : String)
  | nestingTooDeep (limit : Nat)
  | stalled (remaining : String)
  | inputOutput (reason : String)
  | invalidInput (reason : String)
deriving Repr, DecidableEq

namespace Failure

def message : Failure → String
  | wrongArgumentCount function expected found =>
    function ++ "() called with " ++ toString found ++ " argument(s), expected " ++ expected
  | argumentType function expected found =>
    function ++ "() expected " ++ expected ++ ", found " ++ found
  | functionFailed function reason => function ++ "() failed: " ++ reason
  | nestingTooDeep limit => "maximum nesting depth of " ++ toString limit ++ " exceeded"
  | stalled remaining => "evaluation made no progress on <" ++ remaining ++ ">"
  | inputOutput reason => "I/O error: " ++ reason
  | invalidInput reason => reason

def code : Failure → String
  | wrongArgumentCount .. => "E0602"
  | argumentType .. => "E0601"
  | functionFailed .. => "E0604"
  | nestingTooDeep _ => "E0403"
  | stalled _ => "E0404"
  | inputOutput _ => "E0901"
  | invalidInput _ => "E0902"

/-- Advice on what to change, where there is some. -/
def help? : Failure → Option String
  | wrongArgumentCount .. => some "check the function's argument list"
  | nestingTooDeep _ => some "simplify the expression or raise Config::max_depth"
  | _ => none

end Failure
end Reckon
