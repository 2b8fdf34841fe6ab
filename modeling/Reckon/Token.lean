import Reckon.Operator
import Reckon.Value

/-!
Tokens, the nodes of a formula.

A formula is a sequence of tokens; calls, groups and the branches of conditionals hold sequences of
their own. The arguments of a call are one sequence with the separators still in it.
-/

namespace Reckon

inductive Token where
  | undefined
  | number (n : Float)
  | text (s : String)
  | operator (op : Operator)
  | name (s : String)
  | call (name : String) (arguments : List Token)
  | group (inner : List Token)
  | conditional (whenTrue whenFalse : List Token)
deriving Repr

namespace Token

instance : Inhabited Token := ⟨undefined⟩

mutual

/-- Whether two tokens are equal. -/
def decEq : (a b : Token) → Decidable (a = b)
  | undefined, undefined => isTrue rfl
  | number m, number n => decidable_of_iff (m = n) (by simp)
  | text s, text t => decidable_of_iff (s = t) (by simp)
  | operator o, operator p => decidable_of_iff (o = p) (by simp)
  | name s, name t => decidable_of_iff (s = t) (by simp)
  | call s as, call t bs =>
    if h : s = t then
      match decEqAll as bs with
      | isTrue h' => isTrue (by rw [h, h'])
      | isFalse h' => isFalse (by simp [h'])
    else isFalse (by simp [h])
  | group as, group bs =>
    match decEqAll as bs with
    | isTrue h => isTrue (by rw [h])
    | isFalse h => isFalse (by simp [h])
  | conditional as bs, conditional cs ds =>
    match decEqAll as cs, decEqAll bs ds with
    | isTrue h, isTrue h' => isTrue (by rw [h, h'])
    | isFalse h, _ => isFalse (by simp [h])
    | _, isFalse h => isFalse (by simp [h])
  | undefined, number _ | undefined, text _ | undefined, operator _ | undefined, name _
  | undefined, call _ _ | undefined, group _ | undefined, conditional _ _
  | number _, undefined | number _, text _ | number _, operator _ | number _, name _
  | number _, call _ _ | number _, group _ | number _, conditional _ _
  | text _, undefined | text _, number _ | text _, operator _ | text _, name _
  | text _, call _ _ | text _, group _ | text _, conditional _ _
  | operator _, undefined | operator _, number _ | operator _, text _ | operator _, name _
  | operator _, call _ _ | operator _, group _ | operator _, conditional _ _
  | name _, undefined | name _, number _ | name _, text _ | name _, operator _
  | name _, call _ _ | name _, group _ | name _, conditional _ _
  | call _ _, undefined | call _ _, number _ | call _ _, text _ | call _ _, operator _
  | call _ _, name _ | call _ _, group _ | call _ _, conditional _ _
  | group _, undefined | group _, number _ | group _, text _ | group _, operator _
  | group _, name _ | group _, call _ _ | group _, conditional _ _
  | conditional _ _, undefined | conditional _ _, number _ | conditional _ _, text _
  | conditional _ _, operator _ | conditional _ _, name _ | conditional _ _, call _ _
  | conditional _ _, group _ => isFalse (by simp)

/-- Whether two sequences of tokens are equal. -/
def decEqAll : (as bs : List Token) → Decidable (as = bs)
  | [], [] => isTrue rfl
  | a :: as, b :: bs =>
    match decEq a b, decEqAll as bs with
    | isTrue h, isTrue h' => isTrue (by rw [h, h'])
    | isFalse h, _ => isFalse (by simp [h])
    | _, isFalse h => isFalse (by simp [h])
  | [], _ :: _ | _ :: _, [] => isFalse (by simp)

end

instance : DecidableEq Token := decEq

def isUndefined : Token → Bool
  | undefined => true
  | _ => false

def isNumber : Token → Bool
  | number _ => true
  | _ => false

def isText : Token → Bool
  | text _ => true
  | _ => false

/-- Whether the token is a number or a text. -/
def isScalar : Token → Bool
  | number _ | text _ => true
  | _ => false

def isName : Token → Bool
  | name _ => true
  | _ => false

def isOperator (op : Operator) : Token → Bool
  | operator o => o = op
  | _ => false

def operator? : Token → Option Operator
  | operator op => some op
  | _ => none

/-- The name of the kind of token. -/
def kind : Token → String
  | undefined => "undefined"
  | number _ => "number"
  | text _ => "string"
  | operator _ => "operator"
  | name _ => "variable"
  | call _ _ => "function"
  | group _ => "group"
  | conditional _ _ => "conditional"

/-- The reading as a number; only numbers and texts have one other than zero. -/
def toNumber : Token → Float
  | number n => n
  | text s => textNumber s
  | _ => 0.0

/-- The reading as a text; the undefined token reads as `null`. -/
def toText : Token → String
  | text s => s
  | number n => String.ofList (numberText n)
  | undefined => "null"
  | _ => ""

/-- The value of a scalar; every other token is null. -/
def toValue : Token → Value
  | number n => .number n
  | text s => .text s
  | _ => .null

/-- The token of a value. -/
def ofValue : Value → Token
  | .null => undefined
  | .number n => number n
  | .text s => text s

/-- A short description for messages. -/
def display : Token → String
  | undefined => "undefined"
  | number n => "number(" ++ String.ofList (numberText n) ++ ")"
  | text s => "string('" ++ s ++ "')"
  | operator op => "operator " ++ op.display
  | name s => "variable(" ++ s ++ ")"
  | call s arguments => "function " ++ s ++ "(" ++ toString arguments.length ++ " token(s))"
  | group inner => "group(" ++ toString inner.length ++ " token(s))"
  | conditional whenTrue whenFalse =>
    "conditional(" ++ toString whenTrue.length ++ " : " ++ toString whenFalse.length ++ " token(s))"

end Token
end Reckon
