import Reckon.CommandLine.Arguments

/-!
The commands of the program, and how a command line names one.

Help may be asked for by an option, and by `help` with the names of commands. A command line that breaks the
rules stops the program, also one that breaks them before it asks for help.
-/

namespace Reckon.CommandLine

inductive Format where
  | text
  | json
deriving Repr, DecidableEq

/-- Variables that are given by a file, and then by themselves. -/
structure Bindings where
  file? : Option String
  pairs : List (String × String)
deriving Repr, DecidableEq

/-- What a command does. -/
inductive Verb where
  | evaluate
  | describe
  | check
  | tokens
  | properties
deriving Repr, DecidableEq

namespace Verb

def all : List Verb := [.evaluate, .describe, .check, .tokens, .properties]

def name : Verb → String
  | .evaluate => "eval"
  | .describe => "describe"
  | .check => "check"
  | .tokens => "tokens"
  | .properties => "props"

def ofName? (name : String) : Option Verb := all.find? fun v => v.name == name

def bindingChoices : List Choice :=
  [⟨"var", none, some "VARS", true,
      "Bind a variable (can be used multiple times, format: name=value)"⟩,
    ⟨"vars", none, some "VARS_FILE", false, "Load variables from a JSON or YAML file"⟩]

def formatChoice : Choice :=
  ⟨"format", some 'f', some "FORMAT", false,
    "Output format [default: text] [possible values: text, json]"⟩

/-- The options of a command, in the order of its help. -/
def choices : Verb → List Choice
  | .evaluate =>
    Choice.verbose :: bindingChoices ++
      [formatChoice, ⟨"show-vars", none, none, false, "Print the variable table after evaluation"⟩,
        ⟨"quiet", some 'q', none, false, "Suppress warnings"⟩, .help]
  | .describe | .check | .tokens => [.verbose, .help]
  | .properties =>
    ⟨"key", some 'k', some "KEY", false, "Evaluate only this property"⟩ :: Choice.verbose ::
      bindingChoices ++ [formatChoice, .help]

end Verb

inductive Command where
  | evaluate (source : String) (bindings : Bindings) (format : Format) (showVariables quiet : Bool)
  | describe (source : String)
  | check (source : String)
  | tokens (source : String)
  | properties (file : String) (name? : Option String) (bindings : Bindings) (format : Format)
deriving Repr, DecidableEq

/-- What help is about. -/
inductive Topic where
  | program
  | command (verb : Verb)
  /-- The command that gives help. -/
  | help
deriving Repr, DecidableEq

/-- Why a command line names no command to carry out. -/
inductive Stop where
  | misused
  | help (topic : Topic)
  | version
deriving Repr, DecidableEq

/-- The topic that names of commands stand for. -/
def Topic.ofNames? : List String → Option Topic
  | [] => some .program
  | ["help"] => some .help
  | [name] => (Verb.ofName? name).map .command
  | _ => none

namespace Command

/-- A name and its value, around an equals sign. Blanks around the name are dropped. -/
def pair? (argument : String) : Option (String × String) :=
  let cs := argument.toList
  match cs.dropWhile (· != '=') with
  | _ :: value => some (String.ofList (trim (cs.takeWhile (· != '='))), String.ofList value)
  | [] => none

def bindings? (g : Given) : Option Bindings := do
  let pairs ← (g.values "var").mapM pair?
  if g.value? "vars" = some "" then none
  return ⟨g.value? "vars", pairs⟩

def format? (g : Given) : Option Format :=
  match g.value? "format" with
  | none | some "text" => some .text
  | some "json" => some .json
  | some _ => none

/-- The command of a verb and its plain argument. -/
def ofArgument? (verb : Verb) (g : Given) (argument : String) : Option Command := do
  let bindings ← bindings? g
  let format ← format? g
  match verb with
  | .evaluate => return .evaluate argument bindings format (g.has "show-vars") (g.has "quiet")
  | .describe => return .describe argument
  | .check => return .check argument
  | .tokens => return .tokens argument
  | .properties =>
    if argument = "" then none
    return .properties argument (g.value? "key") bindings format

/-- The command of a verb and what is given to it. A question may stand in the place of the argument. -/
def ofGiven (verb : Verb) (g : Given) : Except Stop Command :=
  let command? := match g.plain, g.question? with
    | [argument], _ => ofArgument? verb g argument
    | [], some _ => ofArgument? verb g "-"
    | _, _ => none
  match command?, g.question? with
  | some command, none => if isSound verb.choices g then .ok command else .error .misused
  | some _, some _ => .error (if isSound verb.choices g then .help (.command verb) else .misused)
  | none, _ => .error .misused

/-- The options that may stand before the command. -/
def programChoices : List Choice := [.verbose, .help, .version]

/-- Reads a command line. -/
def read : List String → Except Stop Command
  | [] => .error .misused
  | argument :: rest =>
    if isPlain argument then
      match Verb.ofName? argument with
      | some verb =>
        match readArguments? verb.choices rest with
        | some given => ofGiven verb given
        | none => .error .misused
      | none =>
        .error (if argument = "help" then ((Topic.ofNames? rest).map Stop.help).getD .misused else .misused)
    else if argument = "--" then .error .misused
    else
      match readArguments? programChoices [argument] with
      | none => .error .misused
      | some given =>
        match given.question? with
        | none => read rest
        | some choice => .error (if choice = .version then .version else .help .program)

end Command
end Reckon.CommandLine
