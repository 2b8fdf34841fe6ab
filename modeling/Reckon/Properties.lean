import Reckon.Formula
import Reckon.Json.Entries
import Reckon.Yaml.Entries

/-!
Properties: named formulas, evaluated when they are looked up.
-/

namespace Reckon

/-- The source texts of formulas by name. -/
structure Properties where
  entries : Table String

namespace Properties

def empty : Properties := ⟨Table.empty⟩

/-- The properties whose texts are those of values. -/
def ofValues (t : Table Value) : Properties :=
  ⟨Table.ofList (t.toList.map fun (name, value) => (name, value.toText))⟩

/-- Reads properties from a JSON object. -/
def ofJson (source : String) : Except Failure Properties :=
  match Json.readTable source.toList with
  | .ok t => .ok (ofValues t)
  | .error e => .error (.invalidInput ("invalid property JSON: " ++ e.message))

/-- Reads properties from a YAML mapping. -/
def ofYaml (source : String) : Except Failure Properties :=
  match Yaml.readTable source.toList with
  | .ok t => .ok (ofValues t)
  | .error e => .error (.invalidInput ("invalid property YAML: " ++ e.message))

/-- Sets the text of a property. -/
def insert (p : Properties) (name source : String) : Properties := ⟨p.entries.insert name source⟩

/-- The text of a property as it stands, unless it is blank. -/
def raw? (p : Properties) (name : String) : Option String :=
  (p.entries.get? name).filter fun source => !(trim source.toList).isEmpty

/-- The formula of a property. -/
def formula? (p : Properties) (name : String) : Option Formula := (p.raw? name).map Formula.ofSource

/-- The canonical text of a property. -/
def pretty? (p : Properties) (name : String) : Option String := (p.formula? name).map Formula.pretty

/-- What a property gives, for the value of its formula. An empty value gives the default. If the default
is null, an empty text gives the canonical text of the formula. -/
def resultOf (f : Formula) (default value : Value) : Value :=
  if value.isEmpty then
    if value = .text "" ∧ default = .null ∧ f.pretty ≠ "" then .text f.pretty else default
  else value

/-- Evaluates a property; gives the variables after it too. -/
def get (p : Properties) (name : String) (default : Value) (scope : Scope) : Value × Table Value :=
  match p.formula? name with
  | none => (default, scope.store)
  | some f =>
    let (evaluation, store) := f.evaluate scope
    (resultOf f default evaluation.value, store)

/-- The document of the texts. -/
def toJson (p : Properties) : Json :=
  .object (p.entries.toList.map fun (name, source) => (name, .string source))

end Properties
end Reckon
