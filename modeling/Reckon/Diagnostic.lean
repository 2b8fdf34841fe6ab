import Reckon.Failure
import Reckon.Operator
import Reckon.Number.Text

/-!
Diagnostics: what was mended or given up on the way from a source text to a value.

Reading, repair and evaluation never fail. Whatever they cannot make sense of is dropped or replaced,
and a diagnostic says so. A diagnostic is a cause; its severity, stage and wording follow from it.
-/

namespace Reckon

inductive Severity where
  | info
  | warning
  | error
deriving Repr, DecidableEq

namespace Severity

def name : Severity → String
  | info => "info"
  | warning => "warning"
  | error => "error"

/-- The place in the order of seriousness. -/
def rank : Severity → Nat
  | info => 0
  | warning => 1
  | error => 2

def atLeast (s least : Severity) : Bool := least.rank ≤ s.rank

end Severity

/-- The stage of work that a diagnostic is about. -/
inductive Stage where
  | parser
  | validator
  | evaluator
deriving Repr, DecidableEq

def Stage.name : Stage → String
  | parser => "parser"
  | validator => "validator"
  | evaluator => "evaluator"

/-- A range of bytes of a source text. -/
structure Span where
  start : Nat
  stop : Nat
deriving Repr, DecidableEq

/-- One of the two branches of a conditional. -/
inductive Branch where
  | whenTrue
  | whenFalse
deriving Repr, DecidableEq

def Branch.name : Branch → String
  | whenTrue => "true"
  | whenFalse => "false"

/-- The place of a sequence that is reduced inside another. -/
inductive Place where
  | argument
  | parentheses
  | branch
deriving Repr, DecidableEq

def Place.name : Place → String
  | argument => "function argument"
  | parentheses => "parentheses"
  | branch => "conditional branch"

/-- The operations on numbers that may go wrong. -/
inductive Quotient where
  | division
  | modulo
deriving Repr, DecidableEq

def Quotient.name : Quotient → String
  | division => "division"
  | modulo => "modulo"

/-- Why a diagnostic was given. -/
inductive Cause where
  | nestingIgnored (limit : Nat)
  | strayComma
  | charEndsArguments (c : Char)
  | charIgnored (c : Char)
  | thirdNot
  | subAfterNot
  | notAfterSub
  | operatorAfterOperator (op previous : Operator)
  | unterminatedString
  | loneBackslash
  | illegalHexEscape
  | unknownEscape (c : Char)
  | nullCharacter
  | unterminatedStringInParentheses
  | missingParenthesis
  | unevenQuotes
  | unevenParentheses
  | missingColon
  | emptyBranch (branch : Branch)
  | chainedAssignment (source : String)
  | misplacedAssignment (source : String)
  | assignmentInArguments (source : String)
  | misplacedSeparator (source : String)
  | aborted (failure : Failure)
  | ambiguousResult (remaining : String)
  | nothingToAssign (name : String)
  | unknownVariable (name suggestion : String)
  | unnamedCall
  | unknownFunction (name suggestion : String)
  | irreducible (place : Place) (remaining : String)
  | failedIn (place : Place) (failure : Failure)
  | nullParentheses
  | emptyParentheses
  | branchWithoutValue (branch : Branch)
  | noCondition
  | signWithoutValue (op : Operator)
  | missingLeft (op : Operator)
  | missingRight (op : Operator)
  | operatorForRight (op found : Operator)
  | nothingToNegate (op : Operator)
  | unexpectedOperator (op : Operator)
  | notCombinable (first second : String)
  | notBinary (op : Operator)
  | zeroDivisor (operation : Quotient) (dividend : Float)
  | domain (operation : Quotient)
  | overflow (operation : Quotient)
  | underflow (operation : Quotient)
  | inexact (dividend divisor : Float)
deriving Repr, DecidableEq

namespace Cause

def stage : Cause → Stage
  | nestingIgnored _ | strayComma | charEndsArguments _ | charIgnored _ | thirdNot | subAfterNot
  | notAfterSub | operatorAfterOperator _ _ | unterminatedString | loneBackslash | illegalHexEscape
  | unknownEscape _ | nullCharacter | unterminatedStringInParentheses | missingParenthesis
  | unevenQuotes | unevenParentheses | missingColon | emptyBranch _ => .parser
  | chainedAssignment _ | misplacedAssignment _ | assignmentInArguments _ | misplacedSeparator _ =>
    .validator
  | _ => .evaluator

def severity : Cause → Severity
  | thirdNot | subAfterNot | notAfterSub | unevenQuotes | unevenParentheses | missingColon
  | emptyBranch _ => .error
  | misplacedAssignment _ | assignmentInArguments _ | misplacedSeparator _ => .error
  | aborted _ | unnamedCall | irreducible _ _ | failedIn _ _ | nullParentheses | emptyParentheses
  | noCondition | missingLeft _ | missingRight _ | operatorForRight _ _ | nothingToNegate _
  | unexpectedOperator _ | notCombinable _ _ | notBinary _ => .error
  | inexact _ _ => .info
  | _ => .warning

private def quoted (s : String) : String := "'" ++ s ++ "'"

private def plain (x : Float) : String := String.ofList (plainText x)

def message : Cause → String
  | nestingIgnored limit => "nesting deeper than " ++ toString limit ++ " levels is ignored"
  | strayComma => "comma operator is only allowed between function arguments, ignoring"
  | charEndsArguments c => "unexpected character " ++ quoted c.toString ++ " ends the argument list"
  | charIgnored c => "unexpected character " ++ quoted c.toString ++ " ignored"
  | thirdNot => "more than two NOT(!) operators in sequence, place them inside parentheses; ignoring"
  | subAfterNot =>
    "SUB(-) may not follow NOT(!), place the negative value inside parentheses; ignoring"
  | notAfterSub =>
    "NOT(!) may not follow SUB(-), place the NOT expression inside parentheses; ignoring"
  | operatorAfterOperator op previous =>
    "operator " ++ op.display ++ " cannot follow operator " ++ previous.display ++ ", ignoring"
  | unterminatedString => "unterminated string literal"
  | loneBackslash => "lone backslash at end of string kept"
  | illegalHexEscape => "illegal hex escape sequence, kept as written"
  | unknownEscape c =>
    "unknown escape sequence '\\" ++ c.toString ++ "', using " ++ quoted c.toString
  | nullCharacter => "null character in string ignored"
  | unterminatedStringInParentheses => "unterminated string inside parentheses"
  | missingParenthesis => "unbalanced parentheses, missing ')'"
  | unevenQuotes => "uneven quotes inside conditional"
  | unevenParentheses => "uneven parentheses inside conditional"
  | missingColon => "conditional is missing ':'"
  | emptyBranch branch => "conditional's " ++ branch.name ++ " result is empty, using 0"
  | chainedAssignment source => "chained assignment in " ++ quoted source ++ ", extra '=' ignored"
  | misplacedAssignment source =>
    "assignment is only allowed as 'name = ...' at the start of " ++ quoted source ++
      ", removing '='"
  | assignmentInArguments source =>
    "assignment inside function arguments in " ++ quoted source ++ " removed"
  | misplacedSeparator source => "misplaced argument separator in " ++ quoted source ++ " removed"
  | aborted failure => "evaluation aborted: " ++ failure.message
  | ambiguousResult remaining => "ambiguous result <" ++ remaining ++ ">"
  | nothingToAssign name => "no result to assign, variable " ++ quoted name ++ " set to null"
  | unknownVariable name suggestion =>
    "unknown variable " ++ quoted name ++ ", using empty string" ++ suggestion
  | unnamedCall => "function call without a name ignored"
  | unknownFunction name suggestion =>
    "unknown function " ++ quoted name ++ " ignored" ++ suggestion
  | irreducible place remaining =>
    place.name ++ " could not be reduced: <" ++ remaining ++ ">"
  | failedIn place failure => "error in " ++ place.name ++ ": " ++ failure.message
  | nullParentheses => "parentheses evaluated to null, removing them"
  | emptyParentheses => "empty parentheses removed"
  | branchWithoutValue branch =>
    "conditional's " ++ branch.name ++ " result is empty, using null"
  | noCondition => "conditional without a condition, removing it"
  | signWithoutValue op => "operator " ++ op.display ++ " has no value to apply to, result is 0"
  | missingLeft op => "operator " ++ op.display ++ " is missing its left side value, removing it"
  | missingRight op => "operator " ++ op.display ++ " is missing its right side value, removing it"
  | operatorForRight op found =>
    "operator " ++ op.display ++ " is missing its right side value (found " ++ found.display ++
      "), removing it"
  | nothingToNegate op => "operator " ++ op.display ++ " has nothing to negate, removing it"
  | unexpectedOperator op => "unexpected operator " ++ op.display ++ ", removing it"
  | notCombinable first second =>
    "cannot combine " ++ first ++ " with " ++ second ++ ", dropping the latter"
  | notBinary op => "operator " ++ op.display ++ " cannot combine two values"
  | zeroDivisor .division dividend =>
    "division by zero (" ++ plain dividend ++ " / 0), result is 0"
  | zeroDivisor .modulo dividend =>
    "modulo by zero (" ++ plain dividend ++ " % 0), result is 0"
  | domain operation => operation.name ++ " domain error, result is 0"
  | overflow operation => operation.name ++ " overflow, result is 0"
  | underflow operation => operation.name ++ " underflow, result is 0"
  | inexact dividend divisor =>
    "division " ++ plain dividend ++ " / " ++ plain divisor ++ " is inexact"

end Cause

/-- A cause with the place in the source where that is known. -/
structure Diagnostic where
  cause : Cause
  span? : Option Span
deriving Repr, DecidableEq

namespace Diagnostic

def severity (d : Diagnostic) : Severity := d.cause.severity

def stage (d : Diagnostic) : Stage := d.cause.stage

def message (d : Diagnostic) : String := d.cause.message

def isError (d : Diagnostic) : Bool := d.severity = .error

end Diagnostic

/-- Whether some diagnostic is an error. -/
def hasErrors (ds : List Diagnostic) : Bool := ds.any Diagnostic.isError

/-- Whether a run of characters occurs in a text. -/
def occursIn (needle text : List Char) : Bool :=
  needle.isPrefixOf text || match text with
    | [] => false
    | _ :: rest => occursIn needle rest

/-- Whether a diagnostic of at least this severity has the words in its message. -/
def mentions (ds : List Diagnostic) (least : Severity) (words : String) : Bool :=
  ds.any fun d => d.severity.atLeast least && occursIn words.toList d.message.toList

end Reckon
