import Reckon.CommandLine.Command

/-!
Help on the program and its commands: what they do, how they are written, and their options in columns.
-/

namespace Reckon.CommandLine

/-- A text on lines of its own. -/
def lines (texts : List String) : String := String.join (texts.map (· ++ "\n"))

def Verb.summary : Verb → String
  | .evaluate => "Evaluate an expression (\"-\" reads it from stdin)"
  | .describe => "Print the canonical form of an expression"
  | .check => "Report parse and validation diagnostics (exit 1 if the expression needed repair)"
  | .tokens => "Print the token tree of an expression"
  | .properties => "Evaluate the properties of a JSON or YAML property file"

/-- What stands for the plain argument of a command. -/
def Verb.argument : Verb → String
  | .properties => "<FILE>"
  | _ => "<EXPRESSION>"

/-- An option as it is written: its letter, its word and what stands for its value. Dots follow an option
that is counted. -/
def Choice.label (c : Choice) : String :=
  let letter := match c.letter? with
    | some letter => String.ofList ['-', letter, ',', ' ']
    | none => "    "
  let value := match c.value? with
    | some value => " <" ++ value ++ ">"
    | none => if c.repeatable then "..." else ""
  letter ++ "--" ++ c.word ++ value

/-- Lines of two columns, under a heading. -/
def columns (heading : String) (rows : List (String × String)) : List String :=
  let width := (rows.map fun (label, _) => label.length).foldl max 0
  "" :: (heading ++ ":") :: rows.map fun (label, summary) =>
    "  " ++ label ++ String.ofList (List.replicate (width - label.length) ' ') ++ "  " ++ summary

def choiceRows (choices : List Choice) : List (String × String) :=
  choices.map fun c => (c.label, c.summary)

def helpSummary : String := "Print this message or the help of the given subcommand(s)"

namespace Topic

def text : Topic → String
  | .program =>
    lines
      (["An embeddable expression language with a token-reduction evaluator", "",
        "Usage: exprkit [OPTIONS] <COMMAND>"] ++
        columns "Commands" (Verb.all.map (fun v => (v.name, v.summary)) ++ [("help", helpSummary)]) ++
        columns "Options" (choiceRows Command.programChoices))
  | .command verb =>
    lines
      ([verb.summary, "", "Usage: exprkit " ++ verb.name ++ " [OPTIONS] " ++ verb.argument] ++
        columns "Arguments" [(verb.argument, "")] ++
        columns "Options" (choiceRows verb.choices))
  | .help =>
    lines
      ([helpSummary, "", "Usage: exprkit help [COMMAND]..."] ++
        columns "Arguments" [("[COMMAND]...", "Print help for the subcommand(s)")])

end Topic
end Reckon.CommandLine
