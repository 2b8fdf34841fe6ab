import Reckon.Number.Numeral
import Reckon.Reported
import Reckon.Source.Bracket

/-!
Names, numbers and string literals at the start of a text.
-/

namespace Reckon

/-- Characters that names begin with. -/
def isNameStart (c : Char) : Bool := c.isAlpha || c == '_'

/-- Characters of names. -/
def isNameChar (c : Char) : Bool := c.isAlphanum || c == '_'

/-- A name, which may have one more part after two colons. -/
def readWord (cs : List Char) : List Char × List Char :=
  let first := cs.takeWhile isNameChar
  let rest := cs.dropWhile isNameChar
  match rest with
  | ':' :: ':' :: c :: more =>
    if c.isAlpha then
      (first ++ ':' :: ':' :: (c :: more).takeWhile isNameChar, (c :: more).dropWhile isNameChar)
    else (first, rest)
  | _ => (first, rest)

/-- Whether a text begins with a digit. -/
def startsWithDigit : List Char → Bool
  | c :: _ => c.isDigit
  | [] => false

/-- Digits with an optional fraction. A point with no digit after it does not belong to them. -/
def readDigits (cs : List Char) : List Char × List Char × List Char :=
  let whole := cs.takeWhile Char.isDigit
  match cs.dropWhile Char.isDigit with
  | '.' :: rest =>
    if startsWithDigit rest then (whole, rest.takeWhile Char.isDigit, rest.dropWhile Char.isDigit)
    else (whole, [], '.' :: rest)
  | rest => (whole, [], rest)

/-- What an escape stands for. `size` counts the bytes after the backslash. -/
structure Escape where
  decoded : List Char
  size : Nat
  rest : List Char
  cause? : Option Cause
deriving Repr

/-- The meaning of a one-letter escape. -/
def simpleEscape? : Char → Option Char
  | '\\' => some '\\'
  | '\'' => some '\''
  | '"' => some '"'
  | 'a' => some '\x07'
  | 'b' => some '\x08'
  | 't' => some '\t'
  | 'n' => some '\n'
  | 'v' => some '\x0b'
  | 'f' => some '\x0c'
  | 'r' => some '\r'
  | _ => none

/-- The value of a hexadecimal digit. -/
def hexDigit? (c : Char) : Option Nat :=
  if c.isDigit then some (c.toNat - '0'.toNat)
  else if 'a' ≤ c ∧ c ≤ 'f' then some (c.toNat - 'a'.toNat + 10)
  else if 'A' ≤ c ∧ c ≤ 'F' then some (c.toNat - 'A'.toNat + 10)
  else none

/-- The value of an octal digit. -/
def octalDigit? (c : Char) : Option Nat :=
  if '0' ≤ c ∧ c ≤ '7' then some (c.toNat - '0'.toNat) else none

namespace Escape

/-- An escape that gives the number of a character; the null character is left out. -/
def ofCode (code size : Nat) (rest : List Char) : Escape :=
  if code = 0 then ⟨[], size, rest, some .nullCharacter⟩
  else ⟨[Char.ofNat code], size, rest, none⟩

/-- Up to two hexadecimal digits after `x`. -/
def readHex (cs : List Char) : Escape :=
  match cs with
  | a :: b :: rest =>
    match hexDigit? a, hexDigit? b with
    | some m, some n => ofCode (16 * m + n) 3 rest
    | some m, none => ofCode m 2 (b :: rest)
    | none, _ => ⟨['\\', 'x'], 1, cs, some .illegalHexEscape⟩
  | [a] =>
    match hexDigit? a with
    | some m => ofCode m 2 []
    | none => ⟨['\\', 'x'], 1, cs, some .illegalHexEscape⟩
  | [] => ⟨['\\', 'x'], 1, cs, some .illegalHexEscape⟩

/-- Three octal digits below 400. -/
def readOctal? : List Char → Option Escape
  | a :: b :: c :: rest =>
    match octalDigit? a, octalDigit? b, octalDigit? c with
    | some m, some n, some k => if m ≤ 3 then some (ofCode (64 * m + 8 * n + k) 3 rest) else none
    | _, _, _ => none
  | _ => none

/-- The escape after a backslash. An unknown one stands for its character. -/
def read (cs : List Char) : Escape :=
  match cs with
  | [] => ⟨['\\'], 0, [], some .loneBackslash⟩
  | c :: rest =>
    match simpleEscape? c with
    | some decoded => ⟨[decoded], 1, rest, none⟩
    | none =>
      if c = 'x' then readHex rest
      else match readOctal? (c :: rest) with
        | some e => e
        | none => ⟨[c], c.utf8Size, rest, some (.unknownEscape c)⟩

theorem rest_ofCode (code size : Nat) (rest : List Char) : (ofCode code size rest).rest = rest := by
  unfold ofCode
  split <;> rfl

theorem length_rest_readHex_le (cs : List Char) : (readHex cs).rest.length ≤ cs.length := by
  unfold readHex
  split
  · split <;> simp only [rest_ofCode, List.length_cons] <;> omega
  · split <;> simp [rest_ofCode]
  · simp

theorem length_rest_readOctal?_le {cs : List Char} {e : Escape} (h : readOctal? cs = some e) :
    e.rest.length ≤ cs.length := by
  unfold readOctal? at h
  split at h
  · split at h
    · split at h
      · obtain rfl := Option.some.inj h
        simp only [rest_ofCode, List.length_cons]
        omega
      · contradiction
    · contradiction
  · contradiction

theorem length_rest_read_le (cs : List Char) : (read cs).rest.length ≤ cs.length := by
  unfold read
  split
  · simp
  · rename_i c rest
    split
    · simp
    · split
      · exact Nat.le_succ_of_le (length_rest_readHex_le rest)
      · split
        · rename_i h
          exact length_rest_readOctal?_le h
        · simp

end Escape

/-- The text of a string literal, where it ends, and what follows it. -/
structure StringLiteral where
  value : List Char
  stop : Nat
  rest : List Char
deriving Repr

/-- The rest of a literal that began at `start`, from `pos` on. -/
def readString (quote : Char) (start pos : Nat) (cs : List Char) : Reported StringLiteral :=
  match cs with
  | [] => do
    reportAt start pos .unterminatedString
    pure ⟨[], pos, []⟩
  | c :: cs =>
    if c = quote then pure ⟨[], pos + 1, cs⟩
    else if c = '\\' then do
      let escape := Escape.read cs
      let next := pos + 1 + escape.size
      reportAt? pos next escape.cause?
      let literal ← readString quote start next escape.rest
      pure { literal with value := escape.decoded ++ literal.value }
    else do
      let literal ← readString quote start (pos + c.utf8Size) cs
      pure { literal with value := c :: literal.value }
termination_by cs.length
decreasing_by
  · exact Nat.lt_succ_of_le (Escape.length_rest_read_le _)
  · exact Nat.lt_succ_self _

theorem length_rest_readString_le (quote : Char) (start pos : Nat) (cs : List Char) :
    (readString quote start pos cs).result.rest.length ≤ cs.length := by
  fun_induction readString quote start pos cs with
  | case1 => simp
  | case2 => simp
  | case3 pos cs _ escape next ih =>
    have := Escape.length_rest_read_le cs
    simp only [Reported.result_bind, List.length_cons]
    exact Nat.le_succ_of_le (Nat.le_trans ih this)
  | case4 pos c cs _ _ ih =>
    simp only [List.length_cons]
    exact Nat.le_succ_of_le ih

end Reckon
