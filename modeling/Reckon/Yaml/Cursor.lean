/-!
Places in a YAML text, and the kinds of characters that its layout tells apart.
-/

namespace Reckon.Yaml

/-- Whether a character may stand in a YAML text. -/
def isPrintable (c : Char) : Bool :=
  let n := c.toNat
  n == 9 || n == 0xa || n == 0xd || (0x20 ≤ n && n ≤ 0x7e) || n == 0x85 ||
    (0xa0 ≤ n && n ≤ 0xfffd) || 0x10000 ≤ n

/-- A space or a tab. -/
def isGap (c : Char) : Bool := c == ' ' || c == '\t'

/-- A character that ends a line. -/
def isBreak (c : Char) : Bool :=
  c == '\n' || c == '\r' || c == '\u0085' || c == '\u2028' || c == '\u2029'

/-- Whether nothing, a space, a tab or the end of a line comes next. -/
def atBlank : List Char → Bool
  | [] => true
  | c :: _ => isGap c || isBreak c

/-- Whether nothing or the end of a line comes next. -/
def atBreak : List Char → Bool
  | [] => true
  | c :: _ => isBreak c

/-- A letter, digit, underscore or hyphen of ASCII. -/
def isNameChar (c : Char) : Bool := c.isAlphanum || c == '_' || c == '-'

/-- What is left of a text, and where that begins. -/
structure Cursor where
  chars : List Char
  index : Nat
  line : Nat
  column : Nat
deriving Repr, DecidableEq

namespace Cursor

/-- The start of a text. -/
def start (cs : List Char) : Cursor := ⟨cs, 0, 0, 0⟩

/-- Passes over so many characters of a line. -/
def skip (c : Cursor) (count : Nat) : Cursor :=
  ⟨c.chars.drop count, c.index + count, c.line, c.column + count⟩

/-- Passes over the characters of a line that satisfy a condition. -/
def skipWhile (c : Cursor) (p : Char → Bool) : Cursor := c.skip (c.chars.takeWhile p).length

/-- Passes over the end of a line, and gives what it stands for in a text. -/
def takeBreak (c : Cursor) : List Char × Cursor :=
  match c.chars with
  | '\r' :: '\n' :: rest => (['\n'], ⟨rest, c.index + 2, c.line + 1, 0⟩)
  | d :: rest =>
    if d = '\u2028' ∨ d = '\u2029' then ([d], ⟨rest, c.index + 1, c.line + 1, 0⟩)
    else if isBreak d then (['\n'], ⟨rest, c.index + 1, c.line + 1, 0⟩)
    else ([], c)
  | [] => ([], c)

/-- Whether a marker of three characters stands alone at the start of a line. -/
def atMarker (c : Cursor) (marker : Char) : Bool :=
  c.column == 0 &&
    match c.chars with
    | x :: y :: z :: rest => x == marker && y == marker && z == marker && atBlank rest
    | _ => false

/-- Whether a line begins that starts or ends a document. -/
def atDocumentMarker (c : Cursor) : Bool := c.atMarker '-' || c.atMarker '.'

end Cursor
end Reckon.Yaml
