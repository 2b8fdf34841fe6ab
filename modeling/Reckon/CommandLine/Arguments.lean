import Reckon.Unicode.Blank

/-!
Command lines: a command with options and plain arguments.

Options begin with one hyphen and a letter, or with two and a word. Letters may be joined. After `--` all
arguments are plain, as is a single hyphen. An option that asks for help or the version ends the reading.
-/

namespace Reckon.CommandLine

/-- An option with its word and letter. -/
structure Choice where
  word : String
  letter? : Option Char
  /-- What stands for its value in help, none if it takes no value. -/
  value? : Option String
  repeatable : Bool
  summary : String
deriving Repr, DecidableEq

namespace Choice

def takesValue (c : Choice) : Bool := c.value?.isSome

def verbose : Choice :=
  ⟨"verbose", some 'v', none, true,
    "Log pipeline diagnostics to stderr (-v warnings, -vv debug, -vvv trace)"⟩

def help : Choice := ⟨"help", some 'h', none, false, "Print help"⟩

def version : Choice := ⟨"version", some 'V', none, false, "Print version"⟩

/-- Whether an option asks about the program, which ends the reading. -/
def asks (c : Choice) : Bool := c == help || c == version

end Choice

/-- What is read from arguments: options by their words with values, plain arguments, and the question
that ended the reading. -/
structure Given where
  options : List (String × String)
  plain : List String
  question? : Option Choice
deriving Repr, DecidableEq

namespace Given

def none : Given := ⟨[], [], Option.none⟩

/-- A question, after which nothing is read. -/
def asking (choice : Choice) : Given := ⟨[], [], some choice⟩

/-- Puts an option before the others. -/
def withOption (word value : String) (g : Given) : Given := { g with options := (word, value) :: g.options }

/-- Puts options without values before the others. -/
def withFlags (words : List String) (g : Given) : Given :=
  words.foldr (fun word g => g.withOption word "") g

/-- Puts a plain argument before the others. -/
def withPlain (argument : String) (g : Given) : Given := { g with plain := argument :: g.plain }

def has (g : Given) (word : String) : Bool := g.options.any fun (w, _) => w == word

def value? (g : Given) (word : String) : Option String := g.options.lookup word

/-- All values of an option, in order. -/
def values (g : Given) (word : String) : List String :=
  (g.options.filter fun (w, _) => w == word).map Prod.snd

end Given

/-- Whether an argument is plain where options are allowed. -/
def isPlain (argument : String) : Bool :=
  match argument.toList with
  | ['-'] => true
  | '-' :: _ => false
  | _ => true

/-- How a group of joined letters ends. -/
inductive Ending where
  | done
  | asked (choice : Choice)
  /-- The value of an option follows its letter. -/
  | joined (word value : String)
  /-- The value of an option is the next argument. -/
  | awaited (word : String)
deriving Repr, DecidableEq

/-- What a group of joined letters holds: options without values, and its ending. -/
structure Letters where
  flags : List String
  ending : Ending
deriving Repr, DecidableEq

/-- Reads joined letters. An equals sign may stand before the value that follows a letter. -/
def readLetters? (choices : List Choice) : List Char → Option Letters
  | [] => some ⟨[], .done⟩
  | c :: rest => do
    let choice ← choices.find? fun choice => choice.letter? == some c
    if choice.takesValue then
      match rest with
      | [] => return ⟨[], .awaited choice.word⟩
      | '=' :: value => return ⟨[], .joined choice.word (String.ofList value)⟩
      | value => return ⟨[], .joined choice.word (String.ofList value)⟩
    else if choice.asks then return ⟨[], .asked choice⟩
    else
      let more ← readLetters? choices rest
      return { more with flags := choice.word :: more.flags }

/-- Reads a word after its hyphens, with the value after an equals sign. -/
def readWord? (choices : List Choice) (cs : List Char) : Option (Choice × Option String) := do
  let word := String.ofList (cs.takeWhile (· != '='))
  let choice ← choices.find? fun choice => choice.word == word
  match cs.dropWhile (· != '=') with
  | [] => return (choice, none)
  | _ :: value => if choice.takesValue then return (choice, some (String.ofList value)) else none

/-- Reads arguments, none if they break the rules before a question ends them. -/
def readArguments? (choices : List Choice) : List String → Option Given
  | [] => some .none
  | argument :: rest =>
    let readValue? (word : String) : Option Given :=
      match rest with
      | value :: rest =>
        if isPlain value then (readArguments? choices rest).map (Given.withOption word value) else none
      | [] => none
    if isPlain argument then (readArguments? choices rest).map (Given.withPlain argument)
    else
      match argument.toList with
      | ['-', '-'] => some ⟨[], rest, none⟩
      | '-' :: '-' :: cs =>
        match readWord? choices cs with
        | none => none
        | some (choice, some value) =>
          (readArguments? choices rest).map (Given.withOption choice.word value)
        | some (choice, none) =>
          if choice.takesValue then readValue? choice.word
          else if choice.asks then some (.asking choice)
          else (readArguments? choices rest).map (Given.withOption choice.word "")
      | cs =>
        match readLetters? choices cs.tail with
        | none => none
        | some letters =>
          match letters.ending with
          | .asked choice => some ((Given.asking choice).withFlags letters.flags)
          | .joined word value =>
            (readArguments? choices rest).map fun g => (g.withOption word value).withFlags letters.flags
          | .awaited word => (readValue? word).map (Given.withFlags letters.flags)
          | .done => (readArguments? choices rest).map (Given.withFlags letters.flags)

/-- Whether only options that may be repeated are. -/
def isSound (choices : List Choice) (g : Given) : Bool :=
  choices.all fun choice => choice.repeatable || (g.values choice.word).length ≤ 1

end Reckon.CommandLine
