import Reckon.Pattern.Syntax
import Reckon.Unicode.Blank
import Reckon.Unicode.Property
import Reckon.Unicode.Script

/-!
Reading search patterns.

Inside a pattern the flag `x` lets blanks and comments stand between its parts. It is the one flag that
changes how the rest is read; the others are kept in the tree. Nothing that looks around a place or back to
a group is read.
-/

namespace Reckon.Pattern

/-- What is left of a pattern, whether blanks in it are skipped, and the names of the groups so far. -/
structure Rest where
  chars : List Char
  extended : Bool
  names : List String

/-- A reader of a part of a pattern. -/
abbrev Reader (α : Type) := StateT Rest Option α

/-- Drops blanks, and comments up to the end of their lines. -/
def skipBlanks (comment : Bool) : List Char → List Char
  | [] => []
  | c :: rest =>
    if comment then skipBlanks (c != '\n') rest
    else if isBlank c then skipBlanks false rest
    else if c = '#' then skipBlanks true rest
    else c :: rest

namespace Reader

def chars : Reader (List Char) := do return (← get).chars

/-- Goes on with other characters. -/
def goTo (cs : List Char) : Reader Unit := modify fun r => { r with chars := cs }

/-- Characters without what stands before the next part. -/
def trimmed (cs : List Char) : Reader (List Char) := do
  return if (← get).extended then skipBlanks false cs else cs

/-- Goes on with the next part of other characters. -/
def goToPart (cs : List Char) : Reader Unit := do goTo (← trimmed cs)

def skip : Reader Unit := do goToPart (← chars)

/-- Takes the character that has to come next, and what stands before the part after it. -/
def take (c : Char) : Reader Unit := do
  match ← chars with
  | d :: rest => if c = d then goToPart rest else failure
  | [] => failure

end Reader

open Reader

/-! Numbers -/

def decimalValue (cs : List Char) : Nat := cs.foldl (fun n c => 10 * n + (c.toNat - '0'.toNat)) 0

/-- Decimal digits, between which blanks are skipped under the flag for them, and what follows. -/
def spanDigits (extended : Bool) : Nat → List Char → List Char × List Char
  | 0, cs => ([], cs)
  | fuel + 1, cs =>
    match cs with
    | c :: rest =>
      if c.isDigit then
        let (digits, rest) := spanDigits extended fuel (if extended then skipBlanks false rest else rest)
        (c :: digits, rest)
      else ([], cs)
    | [] => ([], [])

/-- A count, with any blanks around it; there may be none. -/
def readCount : Reader (Option Nat) := do
  let cs := (← chars).dropWhile isBlank
  let (digits, rest) := spanDigits (← get).extended cs.length cs
  goTo (rest.dropWhile isBlank)
  skip
  if digits.isEmpty then return none
  let n := decimalValue digits
  if n < Nat.pow 2 32 then return some n else failure

/-- The value of a hexadecimal digit. -/
def hexDigitValue? (c : Char) : Option Nat :=
  if c.isDigit then some (c.toNat - '0'.toNat)
  else if 'a' ≤ c ∧ c ≤ 'f' then some (c.toNat - 'a'.toNat + 10)
  else if 'A' ≤ c ∧ c ≤ 'F' then some (c.toNat - 'A'.toNat + 10)
  else none

/-- The character of a code point. -/
def charOf? (n : Nat) : Option Char := if h : n.isValidChar then some (Char.ofNatAux n h) else none

/-- So many hexadecimal digits. -/
def readHexDigits : Nat → Nat → Reader Nat
  | 0, value => return value
  | count + 1, value => do
    match ← chars with
    | c :: rest =>
      match hexDigitValue? c with
      | some digit =>
        goToPart rest
        readHexDigits count (16 * value + digit)
      | none => failure
    | [] => failure

/-- Hexadecimal digits up to the closing brace; `digits` have been read. -/
def readHexBrace : Nat → Nat → Nat → Reader Nat
  | 0, _, _ => failure
  | fuel + 1, digits, value => do
    match ← chars with
    | '\x7d' :: rest =>
      if digits = 0 then failure
      goToPart rest
      return value
    | c :: rest =>
      match hexDigitValue? c with
      | some digit =>
        goToPart rest
        readHexBrace fuel (digits + 1) (16 * value + digit)
      | none => failure
    | [] => failure

/-- A character by its code, after the letter that tells the number of digits. -/
def readHex (count : Nat) : Reader Pattern := do
  skip
  match ← chars with
  | '\x7b' :: rest =>
    goToPart rest
    let n ← readHexBrace (rest.length + 1) 0 0
    return char (← charOf? n) false
  | _ =>
    let n ← readHexDigits count 0
    return char (← charOf? n) (count = 2)

/-! Classes by property -/

/-- A name in lower case and without blanks, hyphens, underscores and the prefix `is`. -/
def looseName (name : String) : String :=
  let cs := name.toList.map Char.toLower
  let cs' := match cs with
    | 'i' :: 's' :: rest => rest
    | _ => cs
  let kept := cs'.filter fun c => c.toNat < 0x80 && c != ' ' && c != '_' && c != '-'
  String.ofList (if kept = ['c'] ∧ cs'.length < cs.length then "isc".toList else kept)

/-- The general category of a name, including the names for all characters. -/
def categoryOf? : String → Option CharSet
  | "any" => some CharSet.full
  | "ascii" => some (CharSet.range 0 0x7f)
  | "assigned" => (CharSet.ofCategory? "cn").map CharSet.complement
  | name => CharSet.ofCategory? name

/-- The characters with a property, in a category or of a script. -/
def propertyNamed? (name : String) : Option CharSet :=
  let name := looseName name
  CharSet.ofProperty? name <|> categoryOf? name <|> CharSet.ofScript? name

/-- The characters with a value of a property. -/
def propertyValued? (property value : String) : Option CharSet :=
  match looseName property with
  | "gc" | "generalcategory" => categoryOf? (looseName value)
  | "sc" | "script" => CharSet.ofScript? (looseName value)
  | "scx" | "scriptextensions" => CharSet.ofScriptExtensions? (looseName value)
  | _ => none

/-- Splits a text at the first place where a separator stands. -/
def splitAt? (separator : List Char) : List Char → Option (List Char × List Char)
  | [] => none
  | c :: rest =>
    if separator.isPrefixOf (c :: rest) then some ([], (c :: rest).drop separator.length)
    else (splitAt? separator rest).map fun (before, after) => (c :: before, after)

/-- The class of what stands between the braces. -/
def propertyClass? (negated : Bool) (cs : List Char) : Option SetTree :=
  let valued (negated : Bool) (parts : List Char × List Char) :=
    (propertyValued? (String.ofList parts.1) (String.ofList parts.2)).map fun s =>
      SetTree.property s negated
  match splitAt? ['!', '='] cs, splitAt? [':'] cs, splitAt? ['='] cs with
  | some parts, _, _ => valued (!negated) parts
  | none, some parts, _ => valued negated parts
  | none, none, some parts => valued negated parts
  | none, none, none => (propertyNamed? (String.ofList cs)).map fun s => .property s negated

/-- The characters up to the closing brace. -/
def readBraced : Nat → Reader (List Char)
  | 0 => failure
  | fuel + 1 => do
    match ← chars with
    | '\x7d' :: rest =>
      goTo rest
      return []
    | c :: rest =>
      goToPart rest
      return c :: (← readBraced fuel)
    | [] => failure

/-- A class by property, after the letter that starts it. -/
def readProperty (negated : Bool) : Reader Pattern := do
  skip
  match ← chars with
  | '\x7b' :: rest =>
    goToPart rest
    return set (← propertyClass? negated (← readBraced (rest.length + 1)))
  | c :: rest =>
    if c = '\\' then failure
    goToPart rest
    return set (.property (← propertyNamed? (String.singleton c)) negated)
  | [] => failure

/-! Escapes -/

/-- Whether an escaped character stands for itself: all of ASCII but letters, digits and the angle
brackets. -/
def standsForItself (c : Char) : Bool := c.toNat < 0x80 && !c.isAlphanum && c != '<' && c != '>'

def isBoundaryChar (c : Char) : Bool := c.isAlpha || c == '-'

/-- The letters of a named boundary up to the closing brace. -/
def readBoundaryName : Nat → Reader (List Char)
  | 0 => failure
  | fuel + 1 => do
    match ← chars with
    | '\x7d' :: rest =>
      goTo rest
      return []
    | c :: rest =>
      if !isBoundaryChar c then failure
      goToPart rest
      return c :: (← readBoundaryName fuel)
    | [] => failure

/-- A boundary of words, which may be named in braces. Braces that hold no name are left. -/
def readBoundary : Reader Pattern := do
  let start ← chars
  match start with
  | '\x7b' :: rest =>
    goToPart rest
    match ← chars with
    | [] => failure
    | c :: rest =>
      if isBoundaryChar c then
        match String.ofList (← readBoundaryName (rest.length + 2)) with
        | "start" => return assertion .wordStart
        | "end" => return assertion .wordEnd
        | "start-half" => return assertion .wordStartHalf
        | "end-half" => return assertion .wordEndHalf
        | _ => failure
      else
        goTo start
        return assertion .wordBoundary
  | _ => return assertion .wordBoundary

/-- What an escape stands for, after its backslash. -/
def readEscape : Reader Pattern := do
  match ← chars with
  | [] => failure
  | c :: rest =>
    goTo rest
    match c with
    | 'x' => readHex 2
    | 'u' => readHex 4
    | 'U' => readHex 8
    | 'p' => readProperty false
    | 'P' => readProperty true
    | 'd' => return set (.shorthand .digit false)
    | 'D' => return set (.shorthand .digit true)
    | 's' => return set (.shorthand .blank false)
    | 'S' => return set (.shorthand .blank true)
    | 'w' => return set (.shorthand .word false)
    | 'W' => return set (.shorthand .word true)
    | 'a' => return char '\x07' false
    | 'f' => return char '\x0c' false
    | 't' => return char '\t' false
    | 'n' => return char '\n' false
    | 'r' => return char '\r' false
    | 'v' => return char '\x0b' false
    | 'A' => return assertion .textStart
    | 'z' => return assertion .textEnd
    | 'b' => readBoundary
    | 'B' => return assertion .notWordBoundary
    | '<' => return assertion .wordStart
    | '>' => return assertion .wordEnd
    | c => if standsForItself c then return char c false else failure

/-! Brackets -/

/-- The ASCII characters of a named set. -/
def asciiSet? : String → Option CharSet
  | "alnum" => some ⟨[(0x30, 0x39), (0x41, 0x5a), (0x61, 0x7a)]⟩
  | "alpha" => some ⟨[(0x41, 0x5a), (0x61, 0x7a)]⟩
  | "ascii" => some ⟨[(0, 0x7f)]⟩
  | "blank" => some ⟨[(9, 9), (0x20, 0x20)]⟩
  | "cntrl" => some ⟨[(0, 0x1f), (0x7f, 0x7f)]⟩
  | "digit" => some ⟨[(0x30, 0x39)]⟩
  | "graph" => some ⟨[(0x21, 0x7e)]⟩
  | "lower" => some ⟨[(0x61, 0x7a)]⟩
  | "print" => some ⟨[(0x20, 0x7e)]⟩
  | "punct" => some ⟨[(0x21, 0x2f), (0x3a, 0x40), (0x5b, 0x60), (0x7b, 0x7e)]⟩
  | "space" => some ⟨[(9, 0xd), (0x20, 0x20)]⟩
  | "upper" => some ⟨[(0x41, 0x5a)]⟩
  | "word" => some ⟨[(0x30, 0x39), (0x41, 0x5a), (0x5f, 0x5f), (0x61, 0x7a)]⟩
  | "xdigit" => some ⟨[(0x30, 0x39), (0x41, 0x46), (0x61, 0x66)]⟩
  | _ => none

/-- A named ASCII set in its own brackets, and what follows. -/
def asciiMember? : List Char → Option (SetTree × List Char)
  | '[' :: ':' :: rest =>
    let (negated, rest) := match rest with
      | '^' :: rest => (true, rest)
      | _ => (false, rest)
    match rest.dropWhile (· != ':') with
    | ':' :: ']' :: after =>
      (asciiSet? (String.ofList (rest.takeWhile (· != ':')))).map fun s => (.ascii s negated, after)
    | _ => none
  | _ => none

/-- A single character or class inside brackets. -/
def readMember : Reader SetTree := do
  match ← chars with
  | '\\' :: rest =>
    goTo rest
    match ← readEscape with
    | char c _ => return .char c
    | set s => return s
    | _ => failure
  | c :: rest =>
    goTo rest
    return .char c
  | [] => failure

/-- A member of a set, or a range between two characters. -/
def readRange : Reader SetTree := do
  let first ← readMember
  skip
  match ← chars with
  | [] => failure
  | '-' :: rest =>
    match ← trimmed rest with
    | ']' :: _ => return first
    | '-' :: _ => return first
    | cs =>
      goTo cs
      match first, ← readMember with
      | .char a, .char b => if a ≤ b then return .range a b else failure
      | _, _ => failure
  | _ => return first

/-- The members of a bracket, last first, as a set. -/
def unionOf : List SetTree → SetTree
  | [s] => s
  | members => .union members.reverse

/-- What stands before an operator, combined with what stands after it. -/
def combine (left : Option (SetTree × SetOperation)) (right : SetTree) : SetTree :=
  match left with
  | some (s, op) => .combined op s right
  | none => right

/-- Hyphens at the start of a bracket stand for themselves. -/
def readHyphens : Nat → Reader (List SetTree)
  | 0 => return []
  | fuel + 1 => do
    match ← chars with
    | '-' :: rest =>
      goToPart rest
      return .char '-' :: (← readHyphens fuel)
    | _ => return []

/-- The start of a bracket after its first character: whether it is negated, and the members that only
the start can hold. -/
def readOpening : Reader (Bool × List SetTree) := do
  skip
  let negated ← match ← chars with
    | '^' :: rest => do goToPart rest; pure true
    | _ => pure false
  let hyphens ← readHyphens (← chars).length
  match hyphens, ← chars with
  | [], ']' :: rest =>
    goToPart rest
    return (negated, [.char ']'])
  | _, _ => return (negated, hyphens)

/-- The rest of a bracket; `members` have been read since the last operator, and `left` is what stands
before that. -/
def readMembers (negated : Bool) :
    Nat → Option (SetTree × SetOperation) → List SetTree → Reader SetTree
  | 0, _, _ => failure
  | fuel + 1, left, members => do
    let operator (op : SetOperation) (rest : List Char) : Reader SetTree := do
      goTo rest
      readMembers negated fuel (some (combine left (unionOf members), op)) []
    skip
    match ← chars with
    | [] => failure
    | ']' :: rest =>
      goTo rest
      return .bracket negated (combine left (unionOf members))
    | '[' :: rest =>
      match asciiMember? ('[' :: rest) with
      | some (s, rest) =>
        goTo rest
        readMembers negated fuel left (s :: members)
      | none =>
        goTo rest
        let (negated', members') ← readOpening
        let s ← readMembers negated' fuel none members'
        readMembers negated fuel left (s :: members)
    | '&' :: '&' :: rest => operator .intersection rest
    | '-' :: '-' :: rest => operator .difference rest
    | '~' :: '~' :: rest => operator .symmetricDifference rest
    | _ =>
      let s ← readRange
      readMembers negated fuel left (s :: members)

/-- A bracket after its first character. -/
def readBracket : Reader Pattern := do
  let (negated, members) ← readOpening
  return set (← readMembers negated ((← chars).length + 1) none members)

/-! Groups -/

def flagOf? : Char → Option Flag
  | 'i' => some .ignoreCase
  | 'm' => some .manyLines
  | 's' => some .dotAll
  | 'U' => some .swapGreed
  | 'u' => some .unicode
  | 'R' => some .carriageReturns
  | 'x' => some .extended
  | _ => none

/-- Flags up to a colon or bracket. No flag is named twice, and one has to follow a minus. -/
def readFlags : Nat → (clearing : Bool) → FlagChange → Reader FlagChange
  | 0, _, _ => failure
  | fuel + 1, clearing, change => do
    match ← chars with
    | ':' :: _ | ')' :: _ =>
      if clearing && change.clear.isEmpty then failure
      return change
    | '-' :: rest =>
      if clearing then failure
      goTo rest
      readFlags fuel true change
    | c :: rest =>
      let flag ← flagOf? c
      if change.set.contains flag || change.clear.contains flag then failure
      goTo rest
      readFlags fuel clearing
        (if clearing then { change with clear := change.clear ++ [flag] }
        else { change with set := change.set ++ [flag] })
    | [] => failure

def isLetter (c : Char) : Bool := ((CharSet.ofProperty? "alphabetic").getD .empty).contains c.toNat

def isNumeric (c : Char) : Bool := ((CharSet.ofCategory? "n").getD .empty).contains c.toNat

def isNameStart (c : Char) : Bool := c == '_' || isLetter c

def isNameChar (c : Char) : Bool :=
  isNameStart c || isNumeric c || c == '.' || c == '[' || c == ']'

/-- The name of a group up to its closing bracket. No two groups have one name. -/
def readName : Reader Unit := do
  let cs ← chars
  let name := cs.takeWhile (· != '>')
  match name, cs.dropWhile (· != '>') with
  | c :: more, _ :: rest =>
    let text := String.ofList name
    if !(isNameStart c && more.all isNameChar) || (← get).names.contains text then failure
    modify fun r => { r with chars := rest, names := text :: r.names }
  | _, _ => failure

/-- The start of a group after its bracket. -/
inductive Opening where
  /-- A change of flags that is no group. -/
  | flags (change : FlagChange)
  | group (captures : Bool) (change : FlagChange)

def readGroupOpening : Reader Opening := do
  skip
  match ← chars with
  | '?' :: '=' :: _ | '?' :: '!' :: _ | '?' :: '<' :: '=' :: _ | '?' :: '<' :: '!' :: _ => failure
  | '?' :: 'P' :: '<' :: rest | '?' :: '<' :: rest =>
    goTo rest
    readName
    return .group true .none
  | '?' :: rest =>
    goTo rest
    let change ← readFlags (rest.length + 1) false .none
    match ← chars with
    | ')' :: rest =>
      goTo rest
      if change.set.isEmpty && change.clear.isEmpty then failure
      return .flags change
    | _ :: rest =>
      goTo rest
      return .group false change
    | [] => failure
  | _ => return .group true .none

/-- Sets whether blanks are skipped. -/
def extend (extended : Bool) : Reader Unit := modify fun r => { r with extended }

/-! Sequences -/

/-- Skips a question mark, which makes a repetition prefer few. -/
def readLaziness : Reader Unit := do
  match ← chars with
  | '?' :: rest => goTo rest
  | _ => return

/-- The counts of a repetition after its brace. -/
def readCounts : Reader (Nat × Option Nat) := do
  skip
  let least ← readCount
  let counts ← match ← chars with
    | ',' :: rest => do
      goToPart rest
      match ← chars with
      | '\x7d' :: _ => pure (← least, none)
      | _ =>
        let least ← least
        let most ← readCount
        pure (least, some (← most))
    | _ => pure (← least, some (← least))
  take '\x7d'
  readLaziness
  match counts with
  | (least, some most) => if least ≤ most then return counts else failure
  | _ => return counts

/-- Repeats the last part. -/
def repeatLast (least : Nat) (most : Option Nat) : List Pattern → Reader (List Pattern)
  | [] | flags _ :: _ => failure
  | p :: parts => return repeated p least most :: parts

mutual

/-- Alternatives up to a closing bracket or the end; `branches` have been read, last first. -/
def readChoice : Nat → List Pattern → Reader Pattern
  | 0, _ => failure
  | fuel + 1, branches => do
    let p ← readSequence fuel []
    match ← chars with
    | '|' :: rest =>
      goTo rest
      readChoice fuel (p :: branches)
    | _ => return ofChoice (p :: branches).reverse

/-- Parts up to a bar, a closing bracket or the end; `parts` have been read, last first. -/
def readSequence : Nat → List Pattern → Reader Pattern
  | 0, _ => failure
  | fuel + 1, parts => do
    skip
    match ← chars with
    | [] | ')' :: _ | '|' :: _ => return ofSequence parts.reverse
    | '(' :: rest =>
      goTo rest
      let before := (← get).extended
      match ← readGroupOpening with
      | .flags change =>
        extend (change.apply .extended before)
        readSequence fuel (flags change :: parts)
      | .group captures change =>
        extend (change.apply .extended before)
        let p ← readChoice fuel []
        match ← chars with
        | ')' :: rest =>
          goTo rest
          extend before
          readSequence fuel (group captures change p :: parts)
        | _ => failure
    | '[' :: rest =>
      goTo rest
      readSequence fuel ((← readBracket) :: parts)
    | '?' :: rest =>
      goTo rest
      readLaziness
      readSequence fuel (← repeatLast 0 (some 1) parts)
    | '*' :: rest =>
      goTo rest
      readLaziness
      readSequence fuel (← repeatLast 0 none parts)
    | '+' :: rest =>
      goTo rest
      readLaziness
      readSequence fuel (← repeatLast 1 none parts)
    | '\x7b' :: rest =>
      goTo rest
      let (least, most) ← readCounts
      readSequence fuel (← repeatLast least most parts)
    | '\\' :: rest =>
      goTo rest
      readSequence fuel ((← readEscape) :: parts)
    | '.' :: rest =>
      goTo rest
      readSequence fuel (any :: parts)
    | '^' :: rest =>
      goTo rest
      readSequence fuel (assertion .lineStart :: parts)
    | '$' :: rest =>
      goTo rest
      readSequence fuel (assertion .lineEnd :: parts)
    | c :: rest =>
      goTo rest
      readSequence fuel (char c false :: parts)

end

/-- How deep a pattern may be nested. -/
def deepest : Nat := 250

/-- Reads a pattern. -/
def read? (cs : List Char) : Option Pattern := do
  let (p, rest) ← (readChoice (3 * cs.length + 3) []).run ⟨cs, false, []⟩
  if rest.chars.isEmpty ∧ p.depth ≤ deepest then some p else none

end Reckon.Pattern
