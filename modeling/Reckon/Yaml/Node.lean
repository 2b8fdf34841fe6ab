import Reckon.Yaml.Token

/-!
Nodes of YAML documents: scalars, sequences and mappings.

A node is read from the tokens it begins with. An alias stands for the node that its anchor was put on
last; a node does not contain itself.
-/

namespace Reckon.Yaml

/-- A scalar with its tag, written out. -/
structure Scalar where
  tag : Option (List Char)
  style : Style
  text : List Char
deriving Repr, DecidableEq

inductive Node where
  | scalar (s : Scalar)
  | sequence (tag : Option (List Char)) (items : List Node)
  | mapping (tag : Option (List Char)) (pairs : List (Node × Node))
deriving Repr

instance : Inhabited Node := ⟨.scalar ⟨none, .plain, []⟩⟩

/-- The node where nothing is written. -/
def Node.nothing : Node := .scalar ⟨none, .plain, []⟩

/-- The state of reading nodes: the tokens to come, the handles of tags, and the anchors. An anchor whose
node is not complete has none. -/
structure Reading where
  scan : Scan
  handles : List (List Char × List Char)
  anchors : List (List Char × Option Node)

abbrev Reader (α : Type) := StateT Reading Option α

namespace Reader

/-- The next token, which stays. -/
def peek : Reader Token := do
  let r ← get
  let (t, scan) ← r.scan.peek?
  set { r with scan }
  return t

/-- Passes over the next token. -/
def drop : Reader Unit := modify fun r => { r with scan := r.scan.drop }

/-- Whether a token comes next; if so it is passed over. -/
def accept (t : Token) : Reader Bool := do
  if (← peek) = t then
    drop
    return true
  else return false

/-- Puts an anchor on a node. -/
def setAnchor (name? : Option (List Char)) (node : Option Node) : Reader Unit := do
  match name? with
  | some name => modify fun r => { r with anchors := (name, node) :: r.anchors }
  | none => return

end Reader

open Reader

/-- The handles that are known without a directive. -/
def standardHandles : List (List Char × List Char) :=
  [("!".toList, "!".toList), ("!!".toList, "tag:yaml.org,2002:".toList)]

/-- The tag of a handle and the rest. -/
def expandTag (handle rest : List Char) : Reader (List Char) := do
  if handle.isEmpty then return rest
  match (← get).handles.lookup handle with
  | some expansion => return expansion ++ rest
  | none => failure

/-- The tag and anchor that stand before a node, in either order. -/
def readProperties : Reader (Option (List Char) × Option (List Char)) := do
  match ← peek with
  | .anchor name =>
    drop
    match ← peek with
    | .tag handle rest =>
      drop
      return (some (← expandTag handle rest), some name)
    | _ => return (none, some name)
  | .tag handle rest =>
    drop
    match ← peek with
    | .anchor name =>
      drop
      return (some (← expandTag handle rest), some name)
    | _ => return (some (← expandTag handle rest), none)
  | _ => return (none, none)

/-- Whether a node of a collection without brackets is left out before a token. -/
def endsBlockNode : Token → Bool
  | .key | .value | .blockEnd => true
  | _ => false

/-- Whether an entry of a sequence is left out before a token; `indented` tells whether the sequence has an
indent of its own. -/
def endsEntry (indented : Bool) : Token → Bool
  | .sequenceEntry | .blockEnd => true
  | .key | .value => !indented
  | _ => false

/-- The separator that has to stand between two parts in brackets, or the closing bracket, which stays. -/
def readSeparator (first : Bool) (closing : Token) : Reader Unit := do
  if first || (← peek) = closing then return
  else if ← accept .flowEntry then return
  else failure

mutual

/-- A node. Outside brackets a collection may begin by its indent, and the entries of a sequence that is the
value of a key need none. -/
def readNode : Nat → (inBlock unindented : Bool) → Reader Node
  | 0, _, _ => failure
  | fuel + 1, inBlock, unindented => do
    match ← peek with
    | .alias name =>
      drop
      match (← get).anchors.lookup name with
      | some (some node) => return node
      | _ => failure
    | _ =>
      let (tag, anchor) ← readProperties
      let shown := tag.filter (· != ['!'])
      setAnchor anchor none
      let node ← match ← peek with
        | .scalar style text => do
          drop
          pure (Node.scalar ⟨shown, style, text⟩)
        | .flowSequenceStart => do
          drop
          pure (.sequence tag (← readFlowItems fuel true))
        | .flowMappingStart => do
          drop
          pure (.mapping tag (← readFlowPairs fuel true))
        | t =>
          if t = .sequenceEntry ∧ unindented then
            (.sequence tag ·) <$> readEntries fuel false
          else if t = .sequenceStart ∧ inBlock then do
            drop
            (.sequence tag ·) <$> readEntries fuel true
          else if t = .mappingStart ∧ inBlock then do
            drop
            (.mapping tag ·) <$> readPairs fuel
          else if tag.isSome || anchor.isSome then
            pure (.scalar ⟨tag, .plain, []⟩)
          else failure
      setAnchor anchor (some node)
      return node

/-- The entries of a sequence without brackets. -/
def readEntries : Nat → (indented : Bool) → Reader (List Node)
  | 0, _ => failure
  | fuel + 1, indented => do
    if ← accept .sequenceEntry then
      let node ← if endsEntry indented (← peek) then pure .nothing else readNode fuel true false
      return node :: (← readEntries fuel indented)
    else if !indented then return []
    else if ← accept .blockEnd then return []
    else failure

/-- The next key of a mapping without brackets, unless that ends. -/
def readKey? : Nat → Reader (Option Node)
  | 0 => failure
  | fuel + 1 => do
    if ← accept .key then
      if endsBlockNode (← peek) then return some .nothing else some <$> readNode fuel true true
    else if ← accept .blockEnd then return none
    else failure

/-- The value of a key of a mapping without brackets. -/
def readValue : Nat → Reader Node
  | 0 => failure
  | fuel + 1 => do
    if ← accept .value then
      if endsBlockNode (← peek) then return .nothing else readNode fuel true true
    else return .nothing

/-- The pairs of a mapping without brackets. -/
def readPairs : Nat → Reader (List (Node × Node))
  | 0 => failure
  | fuel + 1 => do
    match ← readKey? fuel with
    | some key =>
      let value ← readValue fuel
      return (key, value) :: (← readPairs fuel)
    | none => return []

/-- The items of a sequence in brackets. An item may be a single pair. -/
def readFlowItems : Nat → (first : Bool) → Reader (List Node)
  | 0, _ => failure
  | fuel + 1, first => do
    readSeparator first .flowSequenceEnd
    if ← accept .flowSequenceEnd then return []
    else if ← accept .key then
      let key ← match ← peek with
        | .value | .flowEntry | .flowSequenceEnd => pure .nothing
        | _ => readNode fuel false false
      let value ← if ← accept .value then
          match ← peek with
          | .flowEntry | .flowSequenceEnd => pure .nothing
          | _ => readNode fuel false false
        else pure .nothing
      return .mapping none [(key, value)] :: (← readFlowItems fuel false)
    else
      let node ← readNode fuel false false
      return node :: (← readFlowItems fuel false)

/-- The next key of a mapping in brackets, unless that ends. Tells whether a value may follow it. -/
def readFlowKey? : Nat → (first : Bool) → Reader (Option (Node × Bool))
  | 0, _ => failure
  | fuel + 1, first => do
    readSeparator first .flowMappingEnd
    if ← accept .flowMappingEnd then return none
    else if ← accept .key then
      match ← peek with
      | .value | .flowEntry | .flowMappingEnd => return some (.nothing, true)
      | _ => return some (← readNode fuel false false, true)
    else return some (← readNode fuel false false, false)

/-- The value of a key of a mapping in brackets. -/
def readFlowValue : Nat → (marked : Bool) → Reader Node
  | 0, _ => failure
  | fuel + 1, marked => do
    if !marked then return .nothing
    else if ← accept .value then
      match ← peek with
      | .flowEntry | .flowMappingEnd => return .nothing
      | _ => readNode fuel false false
    else return .nothing

/-- The pairs of a mapping in brackets. -/
def readFlowPairs : Nat → (first : Bool) → Reader (List (Node × Node))
  | 0, _ => failure
  | fuel + 1, first => do
    match ← readFlowKey? fuel first with
    | some (key, marked) =>
      let value ← readFlowValue fuel marked
      return (key, value) :: (← readFlowPairs fuel false)
    | none => return []

end

/-! Documents -/

/-- Directives before a document. Each may be given once, and the version has to be known. -/
def readDirectives : Nat → (versioned : Bool) → (handles : List (List Char × List Char)) → Reader Unit
  | 0, _, _ => failure
  | fuel + 1, versioned, handles => do
    match ← peek with
    | .versionDirective major minor =>
      if versioned || major != 1 || !(minor == 1 || minor == 2) then failure
      drop
      readDirectives fuel true handles
    | .tagDirective handle expansion =>
      if (handles.lookup handle).isSome then failure
      drop
      readDirectives fuel versioned ((handle, expansion) :: handles)
    | _ => modify fun r => { r with handles := handles ++ standardHandles }

/-- How a document begins. -/
inductive Opening where
  /-- There is no document. -/
  | absent
  /-- There is a document with nothing in it. -/
  | vacant
  | present
deriving Repr, DecidableEq

/-- The start of the first document of a text. -/
def readOpening (fuel : Nat) : Reader Opening := do
  match ← peek with
  | .textEnd => return .absent
  | .versionDirective _ _ | .tagDirective _ _ | .documentStart =>
    readDirectives fuel false []
    if !(← accept .documentStart) then failure
    match ← peek with
    | .versionDirective _ _ | .tagDirective _ _ | .documentStart | .documentEnd | .textEnd =>
      return .vacant
    | _ => return .present
  | _ =>
    readDirectives fuel false []
    return .present

/-- The end of the only document of a text. -/
def readClosing : Nat → Reader Unit
  | 0 => failure
  | fuel + 1 => do
    if ← accept .documentEnd then readClosing fuel
    else if (← peek) = .textEnd then return
    else failure

end Reckon.Yaml
