import Reckon.Yaml.Cursor

/-!
Scalars of YAML: plain and quoted texts, whose lines are folded, and blocks of lines.

A single end of a line between two words of a folded text stands for a space; of several the first is
dropped.
-/

namespace Reckon.Yaml

/-- Blanks between two words: the gaps of one line, or the first and the further ends of lines. -/
structure Separation where
  gaps : List Char
  broken : Bool
  first : List Char
  more : List Char
deriving Repr, DecidableEq

namespace Separation

def empty : Separation := ⟨[], false, [], []⟩

/-- What the blanks stand for once lines are folded. -/
def text (s : Separation) : List Char :=
  if s.broken then
    if s.first = ['\n'] then if s.more.isEmpty then [' '] else s.more
    else s.first ++ s.more
  else s.gaps

end Separation

/-- Reads blanks. After the end of a line, a tab before the column `indent` is refused. -/
def readSeparation (indent : Nat) : Nat → Separation → Cursor → Option (Separation × Cursor)
  | 0, s, c => some (s, c)
  | fuel + 1, s, c =>
    match c.chars with
    | d :: _ =>
      if isGap d then
        if s.broken then
          if d = '\t' ∧ c.column < indent then none
          else readSeparation indent fuel s (c.skip 1)
        else readSeparation indent fuel { s with gaps := s.gaps ++ [d] } (c.skip 1)
      else if isBreak d then
        let (text, c) := c.takeBreak
        if s.broken then readSeparation indent fuel { s with more := s.more ++ text } c
        else readSeparation indent fuel ⟨[], true, text, []⟩ c
      else some (s, c)
    | [] => some (s, c)

/-! Plain texts -/

/-- Whether a character separates the parts of a collection in brackets. -/
def isFlowIndicator (c : Char) : Bool :=
  c == ',' || c == '[' || c == ']' || c == '\x7b' || c == '\x7d'

/-- The length of the word that comes next in a plain text; none if a colon stands where it cannot. -/
def plainWordLength? (inFlow : Bool) : List Char → Option Nat
  | [] => some 0
  | c :: rest =>
    let next := rest.head?.getD ' '
    if isGap c || isBreak c then some 0
    else if inFlow && c == ':' && !rest.isEmpty && (isFlowIndicator next || next == '?') then none
    else if (c == ':' && atBlank rest) || (inFlow && isFlowIndicator c) then some 0
    else (plainWordLength? inFlow rest).map (· + 1)

/-- Reads a plain text that belongs to lines indented to `indent` at least. Tells whether it was ended by
the end of a line. -/
def readPlain (inFlow : Bool) (indent : Nat) :
    Nat → Separation → Cursor → Option (List Char × Bool × Cursor)
  | 0, s, c => some ([], s.broken, c)
  | fuel + 1, s, c =>
    if c.atDocumentMarker || c.chars.head? == some '#' then some ([], s.broken, c)
    else
      match plainWordLength? inFlow c.chars with
      | none => none
      | some length =>
        let word := if length = 0 then [] else s.text ++ c.chars.take length
        let left := if length = 0 then s else .empty
        let c := c.skip length
        match c.chars with
        | [] => some (word, left.broken, c)
        | d :: _ =>
          if isGap d || isBreak d then
            match readSeparation indent c.chars.length left c with
            | none => none
            | some (s, c) =>
              if !inFlow && c.column < indent then some (word, s.broken, c)
              else (readPlain inFlow indent fuel s c).map fun (text, rest) => (word ++ text, rest)
          else some (word, left.broken, c)

/-! Quoted texts -/

/-- The value of a hexadecimal digit. -/
def hexValue? (c : Char) : Option Nat :=
  if c.isDigit then some (c.toNat - '0'.toNat)
  else if 'a' ≤ c ∧ c ≤ 'f' then some (c.toNat - 'a'.toNat + 10)
  else if 'A' ≤ c ∧ c ≤ 'F' then some (c.toNat - 'A'.toNat + 10)
  else none

/-- The value of so many hexadecimal digits. -/
def hexNumber? : Nat → Nat → List Char → Option Nat
  | 0, value, _ => some value
  | count + 1, value, c :: rest =>
    match hexValue? c with
    | some digit => hexNumber? count (16 * value + digit) rest
    | none => none
  | _ + 1, _, [] => none

/-- The character of a code point. -/
def charOf? (n : Nat) : Option Char := if h : n.isValidChar then some (Char.ofNatAux n h) else none

/-- The character of an escape of one letter. -/
def letterEscape? : Char → Option Char
  | '0' => some '\x00'
  | 'a' => some '\x07'
  | 'b' => some '\x08'
  | 't' => some '\t'
  | '\t' => some '\t'
  | 'n' => some '\n'
  | 'v' => some '\x0b'
  | 'f' => some '\x0c'
  | 'r' => some '\r'
  | 'e' => some '\x1b'
  | ' ' => some ' '
  | '"' => some '"'
  | '/' => some '/'
  | '\\' => some '\\'
  | 'N' => some '\u0085'
  | '_' => some '\u00a0'
  | 'L' => some '\u2028'
  | 'P' => some '\u2029'
  | _ => none

/-- How many digits follow the letter of an escape by code. -/
def digitsAfter : Char → Nat
  | 'x' => 2
  | 'u' => 4
  | 'U' => 8
  | _ => 0

/-- What an escape stands for, and its length, after the backslash. -/
def escape? : List Char → Option (Char × Nat)
  | [] => none
  | c :: rest =>
    match letterEscape? c, digitsAfter c with
    | some d, _ => some (d, 1)
    | none, 0 => none
    | none, count + 1 =>
      match hexNumber? (count + 1) 0 rest with
      | some n => (charOf? n).map fun d => (d, count + 2)
      | none => none

/-- Reads a word of a quoted text. Tells whether an escaped end of a line ended it. -/
def readQuotedWord (single : Bool) : Nat → Cursor → Option (List Char × Bool × Cursor)
  | 0, _ => none
  | fuel + 1, c =>
    match c.chars with
    | [] => some ([], false, c)
    | d :: rest =>
      let next := rest.head?.getD ' '
      let goOn (d : Char) (length : Nat) :=
        (readQuotedWord single fuel (c.skip length)).map fun (text, rest) => (d :: text, rest)
      if isGap d || isBreak d then some ([], false, c)
      else if single then
        if d = '\'' then
          if next = '\'' then goOn '\'' 2 else some ([], false, c)
        else goOn d 1
      else if d = '"' then some ([], false, c)
      else if d = '\\' then
        if !rest.isEmpty && isBreak next then some ([], true, (c.skip 1).takeBreak.2)
        else match escape? rest with
          | some (d, length) => goOn d (length + 1)
          | none => none
      else goOn d 1

/-- Reads a quoted text after its first quote. -/
def readQuoted (single : Bool) : Nat → Cursor → Option (List Char × Cursor)
  | 0, _ => none
  | fuel + 1, c =>
    if c.atDocumentMarker || c.chars.isEmpty then none
    else
      match readQuotedWord single (c.chars.length + 1) c with
      | none => none
      | some (word, escaped, c) =>
        if c.chars.head? == some (if single then '\'' else '"') then some (word, c.skip 1)
        else
          match readSeparation 0 c.chars.length { Separation.empty with broken := escaped } c with
          | none => none
          | some (s, c) =>
            (readQuoted single fuel c).map fun (text, c) => (word ++ s.text ++ text, c)

/-! Blocks of lines -/

/-- What happens to the ends of the last lines of a block. -/
inductive Chomping where
  | strip
  | clip
  | keep
deriving Repr, DecidableEq

/-- The signs after the first character of a block: how its last lines end, and how much deeper than its
surroundings it is indented. They may come in either order. -/
def blockHeader? : List Char → Option (Chomping × Nat × Nat) :=
  let chomping? : Char → Option Chomping
    | '+' => some .keep
    | '-' => some .strip
    | _ => none
  fun cs =>
    match cs with
    | c :: rest =>
      match chomping? c, rest with
      | some chomping, d :: _ =>
        if d = '0' then none
        else if d.isDigit then some (chomping, d.toNat - '0'.toNat, 2)
        else some (chomping, 0, 1)
      | some chomping, [] => some (chomping, 0, 1)
      | none, _ =>
        if c = '0' then none
        else if c.isDigit then
          match rest.head?.bind chomping? with
          | some chomping => some (chomping, c.toNat - '0'.toNat, 2)
          | none => some (.clip, c.toNat - '0'.toNat, 1)
        else some (.clip, 0, 0)
    | [] => some (.clip, 0, 0)

/-- Reads the indents and empty lines before a line of a block; `deepest` is the deepest indent so far.
If the indent of the block is not known yet, all spaces belong to indents. -/
def readEmptyLines (indent? : Option Nat) :
    Nat → Nat → List Char → Cursor → Option (Nat × List Char × Cursor)
  | 0, deepest, breaks, c => some (deepest, breaks, c)
  | fuel + 1, deepest, breaks, c =>
    let spaces := (c.chars.takeWhile (· == ' ')).length
    let c := c.skip (match indent? with
      | some indent => min spaces (indent - c.column)
      | none => spaces)
    let deepest := max deepest c.column
    let shallow := match indent? with
      | some indent => decide (c.column < indent)
      | none => true
    match c.chars with
    | d :: _ =>
      if shallow && d == '\t' then none
      else if isBreak d then
        let (text, c) := c.takeBreak
        readEmptyLines indent? fuel deepest (breaks ++ text) c
      else some (deepest, breaks, c)
    | [] => some (deepest, breaks, c)

/-- Reads the lines of a block. `first` and `more` are the ends of lines since the last line, and
`indented` tells whether that began with a blank. Gives the text, and the ends of lines after it. -/
def readLines (folded : Bool) (indent : Nat) :
    Nat → Bool → List Char → List Char → Cursor →
      Option (List Char × List Char × List Char × Cursor)
  | 0, _, first, more, c => some ([], first, more, c)
  | fuel + 1, indented, first, more, c =>
    match c.chars with
    | [] => some ([], first, more, c)
    | d :: _ =>
      if c.column != indent then some ([], first, more, c)
      else
        let ends :=
          if folded && first == ['\n'] && !indented && !isGap d then
            if more.isEmpty then [' '] else more
          else first ++ more
        let line := c.chars.takeWhile fun d => !isBreak d
        let (first, c) := (c.skip line.length).takeBreak
        match readEmptyLines (some indent) (c.chars.length + 1) 0 [] c with
        | none => none
        | some (_, more, c) =>
          (readLines folded indent fuel (isGap d) first more c).map fun (text, rest) =>
            (ends ++ line ++ text, rest)

/-- Reads a block after its first character; `surrounding` is the indent around it, none outside all
collections. -/
def readBlock (folded : Bool) (surrounding : Option Nat) (c : Cursor) : Option (List Char × Cursor) :=
  match blockHeader? c.chars with
  | none => none
  | some (chomping, deeper, length) =>
    let c := (c.skip length).skipWhile isGap
    let c := if c.chars.head? == some '#' then c.skipWhile fun d => !isBreak d else c
    if !atBreak c.chars then none
    else
      let c := c.takeBreak.2
      let least := match surrounding with
        | some indent => indent + 1
        | none => 1
      let indent? := if deeper = 0 then none else some (surrounding.getD 0 + deeper)
      match readEmptyLines indent? (c.chars.length + 1) 0 [] c with
      | none => none
      | some (deepest, more, c) =>
        let indent := indent?.getD (max deepest least)
        match readLines folded indent (c.chars.length + 1) false [] more c with
        | none => none
        | some (text, first, more, c) =>
          let first := if chomping = .strip then [] else first
          let more := if chomping = .keep then more else []
          some (text ++ first ++ more, c)

end Reckon.Yaml
