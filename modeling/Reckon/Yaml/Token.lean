import Reckon.Yaml.Scalar

/-!
Tokens of YAML.

Collections without brackets show by their indents alone, and a key shows by the colon after it. So tokens
wait in a queue: once a colon is met, the marks of its key, and of the mapping that it may begin, are put
in before the tokens of the key. A token leaves the queue when nothing can come before it any more, and not
later, so that a mistake in the text is met only when its place is reached.
-/

namespace Reckon.Yaml

/-- How a scalar is written. -/
inductive Style where
  | plain
  | quoted
  | block
deriving Repr, DecidableEq

inductive Token where
  | versionDirective (major minor : Nat)
  | tagDirective (handle expansion : List Char)
  | documentStart
  | documentEnd
  | textEnd
  | sequenceStart
  | mappingStart
  /-- The end of a collection without brackets. -/
  | blockEnd
  | flowSequenceStart
  | flowSequenceEnd
  | flowMappingStart
  | flowMappingEnd
  | sequenceEntry
  | flowEntry
  | key
  | value
  | alias (name : List Char)
  | anchor (name : List Char)
  /-- A tag; without a handle it is written out. -/
  | tag (handle rest : List Char)
  | scalar (style : Style) (text : List Char)
deriving Repr, DecidableEq

/-- A place where a key may have begun, with the number of tokens before it. A key is needed where a line
of a mapping begins. -/
structure KeyStart where
  needed : Bool
  number : Nat
  index : Nat
  line : Nat
  column : Nat
deriving Repr, DecidableEq

/-- The state of reading tokens. `keyStarts` holds the place of a possible key for each level of brackets,
innermost first, and `indents` the columns of the open collections without brackets. -/
structure Scan where
  cursor : Cursor
  indents : List Nat
  keyAllowed : Bool
  keyStarts : List (Option KeyStart)
  queue : List Token
  /-- How many tokens have left the queue. -/
  taken : Nat
  finished : Bool
deriving Repr

namespace Scan

def start (cs : List Char) : Scan := ⟨.start cs, [], true, [none], [], 0, false⟩

def inFlow (s : Scan) : Bool := 1 < s.keyStarts.length

/-- The indent of the innermost collection without brackets. -/
def indent? (s : Scan) : Option Nat := s.indents.head?

/-- The least column of what belongs to the innermost collection. -/
def contentIndent (s : Scan) : Nat :=
  match s.indent? with
  | some indent => indent + 1
  | none => 0

def push (s : Scan) (t : Token) : Scan := { s with queue := s.queue ++ [t] }

/-- Puts a token before those from a number on. -/
def insertAt (s : Scan) (number : Nat) (t : Token) : Scan :=
  let before := number - s.taken
  { s with queue := s.queue.take before ++ t :: s.queue.drop before }

/-- Adds a token of so many characters. -/
def pushMark (s : Scan) (t : Token) (length : Nat) : Scan :=
  { s.push t with cursor := s.cursor.skip length }

/-- Sets the possible key of the innermost level. -/
def setKeyStart (s : Scan) (k : Option KeyStart) : Scan :=
  { s with keyStarts := k :: s.keyStarts.tail }

/-- Gives up the possible key of the innermost level, unless one is needed. -/
def dropKeyStart? (s : Scan) : Option Scan :=
  match s.keyStarts.head?.join with
  | some k => if k.needed then none else some (s.setKeyStart none)
  | none => some s

/-- Notes that a key may begin here. -/
def noteKeyStart? (s : Scan) : Option Scan :=
  if s.keyAllowed then
    let here : KeyStart :=
      ⟨!s.inFlow && s.indent? == some s.cursor.column, s.taken + s.queue.length, s.cursor.index,
        s.cursor.line, s.cursor.column⟩
    s.dropKeyStart?.map fun s => s.setKeyStart (some here)
  else some s

/-- How many characters a key may be long at most. -/
def keyLimit : Nat := 1024

/-- Gives up possible keys that would be too long, or longer than a line. -/
def dropStale? (s : Scan) : Option Scan := do
  let keyStarts ← s.keyStarts.mapM fun
    | some k =>
      if k.line < s.cursor.line ∨ k.index + keyLimit < s.cursor.index then
        if k.needed then none else some none
      else some (some k)
    | none => some none
  return { s with keyStarts }

/-- Opens a collection without brackets if the column is deeper than those that are open. -/
def openBlock (s : Scan) (column number : Nat) (t : Token) : Scan :=
  let deeper := match s.indent? with
    | some indent => decide (indent < column)
    | none => true
  if !s.inFlow && deeper then
    { s.insertAt number t with indents := column :: s.indents }
  else s

/-- Closes the collections without brackets that are deeper than a column; all of them if none. -/
def closeBlocks (s : Scan) (column? : Option Nat) : Scan :=
  if s.inFlow then s
  else
    let isOpen (indent : Nat) : Bool := match column? with
      | some column => decide (column < indent)
      | none => true
    let closed := s.indents.takeWhile isOpen
    { s with
      indents := s.indents.dropWhile isOpen
      queue := s.queue ++ closed.map fun _ => .blockEnd }

/-! What comes before a token -/

/-- Passes over blanks, comments and ends of lines. A tab is passed over only where no key may begin. -/
def skipToToken : Nat → Scan → Scan
  | 0, s => s
  | fuel + 1, s =>
    let c := s.cursor
    let c := if c.column = 0 ∧ c.chars.head? = some '\ufeff' then c.skip 1 else c
    let tabs := s.inFlow || !s.keyAllowed
    let c := c.skipWhile fun d => d == ' ' || (tabs && d == '\t')
    let c := if c.chars.head? = some '#' then c.skipWhile fun d => !isBreak d else c
    match c.chars with
    | d :: _ =>
      if isBreak d then
        skipToToken fuel
          { s with cursor := c.takeBreak.2, keyAllowed := s.keyAllowed || !s.inFlow }
      else { s with cursor := c }
    | [] => { s with cursor := c }

/-! Directives, anchors and tags -/

/-- A decimal number of at most nine digits. -/
def readVersionNumber? (c : Cursor) : Option (Nat × Cursor) :=
  let digits := c.chars.takeWhile Char.isDigit
  if digits.isEmpty || 9 < digits.length then none
  else some (digits.foldl (fun n d => 10 * n + (d.toNat - '0'.toNat)) 0, c.skip digits.length)

/-- A tag handle: an exclamation mark, or two with a name between them. Outside directives the last may be
missing. -/
def readHandle? (inDirective : Bool) (c : Cursor) : Option (List Char × Cursor) :=
  match c.chars with
  | '!' :: rest =>
    let name := rest.takeWhile isNameChar
    match rest.drop name.length with
    | '!' :: _ => some ('!' :: name ++ ['!'], c.skip (name.length + 2))
    | _ =>
      if inDirective && !name.isEmpty then none
      else some ('!' :: name, c.skip (name.length + 1))
  | _ => none

def isUriChar (wide : Bool) (c : Char) : Bool :=
  isNameChar c || ";/?:@&=+$.!~*'()".toList.contains c || (wide && (c == ',' || c == '[' || c == ']'))

/-- The byte of an escape in a tag. -/
def uriByte? : List Char → Option Nat
  | '%' :: a :: b :: _ => hexNumber? 2 0 [a, b]
  | _ => none

/-- The further bytes of an escaped character. -/
def uriTail? : Nat → Nat → List Char → Option Nat
  | 0, value, _ => some value
  | count + 1, value, cs =>
    match uriByte? cs with
    | some byte => if byte / 64 = 2 then uriTail? count (64 * value + byte % 64) (cs.drop 3) else none
    | none => none

/-- A character whose bytes are escaped, and the number of bytes. -/
def uriEscape? (cs : List Char) : Option (Char × Nat) := do
  let byte ← uriByte? cs
  let (more, value) ←
    if byte < 0x80 then some (0, byte)
    else if byte / 32 = 6 then some (1, byte % 32)
    else if byte / 16 = 14 then some (2, byte % 16)
    else if byte / 8 = 30 then some (3, byte % 8)
    else none
  let n ← uriTail? more value (cs.drop 3)
  return (← charOf? n, more + 1)

/-- The characters of a tag. -/
def readUri? (wide : Bool) : Nat → Cursor → Option (List Char × Cursor)
  | 0, c => some ([], c)
  | fuel + 1, c =>
    match c.chars with
    | '%' :: _ => do
      let (d, bytes) ← uriEscape? c.chars
      let (text, c) ← readUri? wide fuel (c.skip (3 * bytes))
      return (d :: text, c)
    | d :: _ =>
      if isUriChar wide d then
        (readUri? wide fuel (c.skip 1)).map fun (text, c) => (d :: text, c)
      else some ([], c)
    | [] => some ([], c)

/-- Reads a tag that is written out, after its first two characters. -/
def readVerbatimTag? (c : Cursor) : Option (Token × Cursor) := do
  let (text, c) ← readUri? true c.chars.length c
  if text.isEmpty then none
  match c.chars with
  | '>' :: _ => return (.tag [] text, c.skip 1)
  | _ => none

/-- Reads a tag. A name that no exclamation mark follows is the rest of a tag with the plain handle. -/
def readTag? (c : Cursor) : Option (Token × Cursor) :=
  match c.chars with
  | '!' :: '<' :: _ => readVerbatimTag? (c.skip 2)
  | _ => do
    let (handle, c) ← readHandle? false c
    let (rest, c) ← readUri? false c.chars.length c
    if 1 < handle.length ∧ handle.getLast? = some '!' then
      if rest.isEmpty then none else return (.tag handle rest, c)
    else
      let rest := handle.tail ++ rest
      if rest.isEmpty then return (.tag [] ['!'], c) else return (.tag ['!'] rest, c)

/-- Reads a directive after its first character, to the end of the line. -/
def readDirective? (c : Cursor) : Option (Token × Cursor) := do
  let name := c.chars.takeWhile isNameChar
  let c := c.skip name.length
  if !atBlank c.chars then none
  let c := c.skipWhile isGap
  let (t, c) ←
    if name = "YAML".toList then do
      let (major, c) ← readVersionNumber? c
      if c.chars.head? != some '.' then none
      let (minor, c) ← readVersionNumber? (c.skip 1)
      pure (Token.versionDirective major minor, c)
    else if name = "TAG".toList then do
      let (handle, c) ← readHandle? true c
      if !(c.chars.head?.any isGap) then none
      let c := c.skipWhile isGap
      let (expansion, c) ← readUri? true c.chars.length c
      if expansion.isEmpty || !atBlank c.chars then none
      pure (Token.tagDirective handle expansion, c)
    else none
  let c := c.skipWhile isGap
  let c := if c.chars.head? == some '#' then c.skipWhile fun d => !isBreak d else c
  if !atBreak c.chars then none
  return (t, c.takeBreak.2)

/-- Reads the name of an anchor after its first character. -/
def readAnchorName? (c : Cursor) : Option (List Char × Cursor) :=
  let name := c.chars.takeWhile isNameChar
  let c := c.skip name.length
  let ends := atBlank c.chars || c.chars.head?.any fun d => "?:,]\x7d%@\x60".toList.contains d
  if name.isEmpty || !ends then none else some (name, c)

/-! Adding the next token -/

/-- Adds a token that may begin a key. -/
def addContent? (s : Scan) (read : Cursor → Option (Token × Cursor)) : Option Scan := do
  let s ← s.noteKeyStart?
  let (t, cursor) ← read s.cursor
  return { s.push t with cursor, keyAllowed := false }

/-- Adds what stands between documents. -/
def addDocumentMark? (s : Scan) (read : Cursor → Option (Token × Cursor)) : Option Scan := do
  let s ← (s.closeBlocks none).dropKeyStart?
  let (t, cursor) ← read s.cursor
  return { s.push t with cursor, keyAllowed := false }

/-- Adds the end of the text. -/
def addTextEnd? (s : Scan) : Option Scan := do
  let c := s.cursor
  let c := if c.column = 0 then c else { c with column := 0, line := c.line + 1 }
  let s ← ({ s with cursor := c }.closeBlocks none).dropKeyStart?
  return { s.push .textEnd with keyAllowed := false, finished := true }

def addFlowStart? (s : Scan) (t : Token) : Option Scan := do
  let s ← s.noteKeyStart?
  return { s.pushMark t 1 with keyStarts := none :: s.keyStarts, keyAllowed := true }

def addFlowEnd? (s : Scan) (t : Token) : Option Scan := do
  let s ← s.dropKeyStart?
  let keyStarts := if s.inFlow then s.keyStarts.tail else s.keyStarts
  return { s.pushMark t 1 with keyStarts, keyAllowed := false }

def addFlowEntry? (s : Scan) : Option Scan := do
  let s ← s.dropKeyStart?
  return { s.pushMark .flowEntry 1 with keyAllowed := true }

/-- Opens a collection where one may begin; brackets need no such place. -/
def openHere? (s : Scan) (t : Token) : Option Scan :=
  if s.inFlow then some s
  else if s.keyAllowed then some (s.openBlock s.cursor.column (s.taken + s.queue.length) t)
  else none

def addSequenceEntry? (s : Scan) : Option Scan := do
  let s ← (← s.openHere? .sequenceStart).dropKeyStart?
  return { s.pushMark .sequenceEntry 1 with keyAllowed := true }

def addKey? (s : Scan) : Option Scan := do
  let s ← (← s.openHere? .mappingStart).dropKeyStart?
  return { s.pushMark .key 1 with keyAllowed := !s.inFlow }

/-- Adds the mark of a value, and that of its key before the key if that needs none of its own. -/
def addValue? (s : Scan) : Option Scan :=
  match s.keyStarts.head?.join with
  | some k =>
    let s := (s.insertAt k.number .key).openBlock k.column k.number .mappingStart
    some { (s.setKeyStart none).pushMark .value 1 with keyAllowed := false }
  | none => do
    let s ← s.openHere? .mappingStart
    return { s.pushMark .value 1 with keyAllowed := !s.inFlow }

def addBlock? (s : Scan) (folded : Bool) : Option Scan := do
  let s ← s.dropKeyStart?
  let (text, cursor) ← readBlock folded s.indent? (s.cursor.skip 1)
  return { s.push (.scalar .block text) with cursor, keyAllowed := true }

def addQuoted? (s : Scan) (single : Bool) : Option Scan :=
  s.addContent? fun c => do
    let (text, c) ← readQuoted single (c.chars.length + 1) (c.skip 1)
    return (.scalar .quoted text, c)

/-- Adds a plain scalar. After the end of a line a key may begin. -/
def addPlain? (s : Scan) : Option Scan := do
  let s ← s.noteKeyStart?
  let c := s.cursor
  let (text, broken, cursor) ← readPlain s.inFlow s.contentIndent (c.chars.length + 1) .empty c
  return { s.push (.scalar .plain text) with cursor, keyAllowed := broken }

/-- Whether a plain scalar may begin with a character, before the rest. -/
def startsPlain (s : Scan) (c : Char) (rest : List Char) : Bool :=
  !(isGap c || isBreak c || "-?:,[]\x7b\x7d#&*!|>'\"%@\x60".toList.contains c) ||
    (c == '-' && !(rest.head?.any isGap)) ||
    (!s.inFlow && (c == '?' || c == ':') && !atBlank rest)

/-- Adds the next token and those that come with it. -/
def advance? (s : Scan) : Option Scan := do
  let s ← (s.skipToToken (s.cursor.chars.length + 1)).dropStale?
  let s := s.closeBlocks (some s.cursor.column)
  let c := s.cursor
  match c.chars with
  | [] => s.addTextEnd?
  | d :: rest =>
    if c.column = 0 ∧ d = '%' then s.addDocumentMark? fun c => readDirective? (c.skip 1)
    else if c.atMarker '-' then s.addDocumentMark? fun c => some (.documentStart, c.skip 3)
    else if c.atMarker '.' then s.addDocumentMark? fun c => some (.documentEnd, c.skip 3)
    else if d = '[' then s.addFlowStart? .flowSequenceStart
    else if d = '\x7b' then s.addFlowStart? .flowMappingStart
    else if d = ']' then s.addFlowEnd? .flowSequenceEnd
    else if d = '\x7d' then s.addFlowEnd? .flowMappingEnd
    else if d = ',' then s.addFlowEntry?
    else if d = '-' ∧ atBlank rest then s.addSequenceEntry?
    else if d = '?' ∧ (s.inFlow || atBlank rest) then s.addKey?
    else if d = ':' ∧ (s.inFlow || atBlank rest) then s.addValue?
    else if d = '*' then
      s.addContent? fun c => (readAnchorName? (c.skip 1)).map fun (name, c) => (.alias name, c)
    else if d = '&' then
      s.addContent? fun c => (readAnchorName? (c.skip 1)).map fun (name, c) => (.anchor name, c)
    else if d = '!' then
      s.addContent? fun c => do
        let (t, c) ← readTag? c
        if atBlank c.chars || (s.inFlow && c.chars.head? == some ',') then return (t, c) else none
    else if d = '|' ∧ !s.inFlow then s.addBlock? false
    else if d = '>' ∧ !s.inFlow then s.addBlock? true
    else if d = '\'' then s.addQuoted? true
    else if d = '"' then s.addQuoted? false
    else if s.startsPlain d rest then s.addPlain?
    else none

/-- Whether a key may still come before the first token of the queue. -/
def isOpen (s : Scan) : Bool :=
  s.keyStarts.any fun k => k.any fun k => k.number == s.taken

/-- Reads on until the first token of the queue is certain. -/
def settle? : Nat → Scan → Option Scan
  | 0, _ => none
  | fuel + 1, s =>
    if s.queue.isEmpty then
      if s.finished then none else s.advance?.bind (settle? fuel)
    else
      match s.dropStale? with
      | none => none
      | some s =>
        if s.isOpen && !s.finished then s.advance?.bind (settle? fuel) else some s

/-- The next token, which stays in the queue. -/
def peek? (s : Scan) : Option (Token × Scan) := do
  let s ← s.settle? (s.cursor.chars.length + 2)
  match s.queue with
  | t :: _ => some (t, s)
  | [] => none

/-- Takes the first token off the queue. -/
def drop (s : Scan) : Scan := { s with queue := s.queue.tail, taken := s.taken + 1 }

end Scan
end Reckon.Yaml
