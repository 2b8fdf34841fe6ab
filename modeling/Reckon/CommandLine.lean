import Reckon.Builtin
import Reckon.CommandLine.Help
import Reckon.Properties

/-!
The program on the command line: what each command prints, and how it ends.

Commands work on texts alone. Files and the input are handed in, so that a run is a function of them.
-/

namespace Reckon.CommandLine

/-- What a command works on: the present second, the text of the input, and those of files. -/
structure Surroundings where
  now : Int
  input : String
  file? : String → Option String

/-- How a run ends: its status, and what it prints as output and as errors. -/
structure Outcome where
  status : Nat
  output : String
  errors : String
deriving Repr, DecidableEq

/-- The status of a run that a failure ends. -/
def exitStatus : Failure → Nat
  | .inputOutput _ => 3
  | _ => 1

/-! Reading -/

/-- Whether the name of a file ends in `.json`. -/
def isJsonFile (path : String) : Bool :=
  let parts := (path.splitOn "/").filter fun part => part ≠ "" ∧ part ≠ "."
  match parts.getLast? with
  | some name =>
    let reversed := name.toList.reverse
    ".json".toList.reverse.isPrefixOf reversed && name != ".json"
  | none => false

def readFile (around : Surroundings) (path : String) : Except Failure String :=
  match around.file? path with
  | some text => .ok text
  | none => .error (.inputOutput ("failed to read " ++ path))

/-- The source text that an argument gives; a hyphen stands for the input. -/
def readSource (around : Surroundings) (argument : String) : String :=
  if argument = "-" then
    String.ofList (around.input.toList.reverse.dropWhile fun c => c == '\n' || c == '\r').reverse
  else argument

/-- The variables of a file. -/
def readVariables (around : Surroundings) (path : String) : Except Failure (Table Value) := do
  let text ← readFile around path
  let table := if isJsonFile path then Json.readTable text.toList else Yaml.readTable text.toList
  match table with
  | .ok t => pure t
  | .error e => throw (.invalidInput ("invalid variables in " ++ path ++ ": " ++ e.message))

/-- The variables of bindings; those given by themselves are written last. -/
def variablesOf (around : Surroundings) (b : Bindings) : Except Failure (Table Value) := do
  let table ← match b.file? with
    | some path => readVariables around path
    | none => pure Table.empty
  pure (table.insertAll (b.pairs.map fun (name, value) => (name, Value.infer value)))

def readProperties (around : Surroundings) (path : String) : Except Failure Properties := do
  let text ← readFile around path
  if isJsonFile path then Properties.ofJson text else Properties.ofYaml text

/-! Printing -/

def spanJson : Option Span → Json
  | some s => .object [("start", .integer s.start), ("end", .integer s.stop)]
  | none => .null

def diagnosticJson (d : Diagnostic) : Json :=
  .object
    [("severity", .string d.severity.name), ("stage", .string d.stage.name),
      ("message", .string d.message), ("span", spanJson d.span?)]

/-- An evaluation as a document; the variables are left out unless given. -/
def evaluationJson (value : Value) (diagnostics : List Diagnostic) (store? : Option (Table Value)) :
    Json :=
  .object
    ([("value", value.toJson), ("diagnostics", .array (diagnostics.map diagnosticJson))] ++
      store?.toList.map fun t => ("variables", Json.ofTable t))

/-- The line of a name and its value. -/
def entryLine (entry : String × Value) : String := entry.1 ++ " = " ++ entry.2.display

/-- The lines of all but mere information. -/
def warningLines (ds : List Diagnostic) : List String :=
  (ds.filter fun d => d.severity.atLeast .warning).map fun d => d.severity.name ++ ": " ++ d.message

mutual

/-- The lines of a token, so many levels deep. -/
def tokenLines (level : Nat) (t : Token) : List String :=
  let indent := String.ofList (List.replicate (2 * level) ' ')
  match t with
  | .call name arguments => (indent ++ "function " ++ name) :: sequenceLines (level + 1) arguments
  | .group inner => (indent ++ "group") :: sequenceLines (level + 1) inner
  | .conditional whenTrue whenFalse =>
    (indent ++ "conditional") :: (indent ++ "  true:") :: sequenceLines (level + 2) whenTrue ++
      (indent ++ "  false:") :: sequenceLines (level + 2) whenFalse
  | t => [indent ++ t.display]

/-- The lines of tokens. -/
def sequenceLines (level : Nat) : List Token → List String
  | [] => []
  | t :: rest => tokenLines level t ++ sequenceLines level rest

end

/-! Commands -/

def runEvaluate (around : Surroundings) (source : String) (bindings : Bindings) (format : Format)
    (showVariables quiet : Bool) : Except Failure Outcome := do
  let f := Formula.ofSource (readSource around source)
  let store ← variablesOf around bindings
  let (evaluation, store) := f.evaluate ⟨Builtin.table around.now, store⟩
  let diagnostics := if quiet then [] else f.diagnostics ++ evaluation.diagnostics
  match format with
  | .text =>
    let entries := if showVariables then store.toList.map entryLine else []
    pure ⟨0, lines (evaluation.value.display :: entries), lines (warningLines diagnostics)⟩
  | .json =>
    let shown := if showVariables then some store else none
    pure ⟨0, lines [(evaluationJson evaluation.value diagnostics shown).pretty], ""⟩

/-- Checks a formula. One that had to be repaired is a failure. -/
def runCheck (source : String) : Except Failure Outcome :=
  let f := Formula.ofSource source
  if f.valid then .ok ⟨0, "", lines (f.diagnostics.map Diagnostic.message ++ [source ++ ": OK"])⟩
  else
    .error (.invalidInput
      ("'" ++ source ++ "' is not a valid expression, it evaluates as '" ++ f.pretty ++ "'"))

/-- The values of properties in turn. Each sees the variables as those before it left them. -/
def propertyValues (p : Properties) (functions : Table Function) :
    List String → Table Value → List (String × Value)
  | [], _ => []
  | name :: rest, store =>
    let (value, store) := p.get name .null ⟨functions, store⟩
    (name, value) :: propertyValues p functions rest store

def runProperties (around : Surroundings) (file : String) (name? : Option String) (bindings : Bindings)
    (format : Format) : Except Failure Outcome := do
  let p ← readProperties around file
  let store ← variablesOf around bindings
  let names := match name? with
    | some name => [name]
    | none => p.entries.names
  let values := propertyValues p (Builtin.table around.now) names store
  match format with
  | .text => pure ⟨0, lines (values.map entryLine), ""⟩
  | .json =>
    let document := Json.object (values.map fun (name, value) => (name, value.toJson))
    pure ⟨0, lines [document.pretty], ""⟩

def runCommand (around : Surroundings) : Command → Except Failure Outcome
  | .evaluate source bindings format showVariables quiet =>
    runEvaluate around source bindings format showVariables quiet
  | .describe source => .ok ⟨0, lines [(Formula.ofSource (readSource around source)).pretty], ""⟩
  | .check source => runCheck (readSource around source)
  | .tokens source =>
    .ok ⟨0, lines (sequenceLines 0 (Formula.ofSource (readSource around source)).tokens), ""⟩
  | .properties file name? bindings format => runProperties around file name? bindings format

def versionText : String := lines ["exprkit 0.1.0"]

/-- The outcome of a command line that names no command to carry out. -/
def stopped : Stop → Outcome
  | .misused => ⟨2, "", Topic.program.text⟩
  | .help topic => ⟨0, topic.text, ""⟩
  | .version => ⟨0, versionText, ""⟩

/-- The files that a command reads. -/
def Command.files : Command → List String
  | .evaluate _ bindings _ _ _ => bindings.file?.toList
  | .properties file _ bindings _ => file :: bindings.file?.toList
  | _ => []

/-- Whether a command reads the input. -/
def Command.readsInput : Command → Bool
  | .evaluate source _ _ _ _ | .describe source | .check source | .tokens source => source == "-"
  | .properties _ _ _ _ => false

/-- Carries out a command. -/
def Command.run (around : Surroundings) (command : Command) : Outcome :=
  match runCommand around command with
  | .ok outcome => outcome
  | .error f => ⟨exitStatus f, "", "Error: " ++ f.message ++ "\n"⟩

/-- Carries out a command line. -/
def run (around : Surroundings) (arguments : List String) : Outcome :=
  match Command.read arguments with
  | .ok command => command.run around
  | .error stop => stopped stop

end Reckon.CommandLine
