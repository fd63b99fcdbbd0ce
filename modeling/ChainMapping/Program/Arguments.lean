import ChainMapping.Text.Search

/-!
# Command line arguments

A program has options with a value, options without one, and one argument without a name.  Arguments
are read from the left, and the first thing that ends the reading decides: a request for help or for
the version before an error, or the error.
-/

namespace ChainMapping

/-- An option that a program has. -/
structure OptionRule where
  /-- without the dashes -/
  name : String
  /-- the values it takes; absent for an option without a value -/
  accepts : Option (String → Bool) := none

/-- Why there is nothing to run. -/
inductive Interruption where
  | help
  | version
  | invalid (reason : String)
  deriving DecidableEq, Repr

/-- The arguments of a program, sorted out. -/
structure Arguments where
  /-- the argument without a name -/
  input : Option String := none
  values : List (String × String) := []
  flags : List String := []
  deriving DecidableEq, Repr

/-- One argument by its form. -/
inductive Argument where
  /-- after this, arguments have no names -/
  | escape
  | long (name : String) (value : Option String)
  | short (letter : Char)
  | plain (text : String)
  deriving DecidableEq, Repr

namespace Argument

def ofText (text : String) : Argument :=
  match text.toList with
  | ['-', '-'] => escape
  | '-' :: '-' :: rest =>
    match Text.splitOnce '=' rest with
    | some (name, value) => long (String.ofList name) (some (String.ofList value))
    | none => long (String.ofList rest) none
  | '-' :: letter :: _ => short letter
  | _ => plain text

/-- The argument can be the value of the option before it. -/
def isValue : Argument → Bool
  | plain _ => true
  | _ => false

end Argument

namespace Arguments

def value? (a : Arguments) (name : String) : Option String := a.values.lookup name

def hasFlag (a : Arguments) (name : String) : Bool := a.flags.contains name

/-- An option that is there twice. -/
def repeatedOption (name : String) : Interruption :=
  .invalid s!"the argument '--{name}' cannot be used multiple times"

def addFlag (a : Arguments) (name : String) : Except Interruption Arguments :=
  if a.hasFlag name then .error (repeatedOption name)
  else .ok { a with flags := name :: a.flags }

def addValue (a : Arguments) (name : String) (accepts : String → Bool) (value : String) :
    Except Interruption Arguments :=
  if (a.value? name).isSome then .error (repeatedOption name)
  else if accepts value then .ok { a with values := (name, value) :: a.values }
  else .error (.invalid s!"invalid value '{value}' for '--{name}'")

def addInput (a : Arguments) (text : String) : Except Interruption Arguments :=
  if a.input.isSome then .error (.invalid s!"unexpected argument '{text}' found")
  else if text = "" then .error (.invalid "a value is required but none was supplied")
  else .ok { a with input := some text }

/-- The rule for an option by its name. -/
def rule? (rules : List OptionRule) (name : String) : Except Interruption OptionRule :=
  match rules.find? (·.name == name) with
  | some rule => .ok rule
  | none =>
    if name = "help" then .error .help
    else if name = "version" then .error .version
    else .error (.invalid s!"unexpected argument '--{name}' found")

/-- Reads arguments from the left. -/
def scan (rules : List OptionRule) (a : Arguments) :
    List String → Except Interruption Arguments
  | [] => .ok a
  | text :: rest =>
    match Argument.ofText text with
    | .escape => rest.foldlM addInput a
    | .plain text => do scan rules (← a.addInput text) rest
    | .short letter =>
      .error (if letter = 'h' then .help else if letter = 'V' then .version
        else .invalid s!"unexpected argument '-{letter}' found")
    | .long name (some value) =>
      match rules.find? (·.name == name) with
      | some ⟨_, some accepts⟩ => do scan rules (← a.addValue name accepts value) rest
      | _ => .error (.invalid s!"unexpected argument '{text}' found")
    | .long name none =>
      match rule? rules name with
      | .error interruption => .error interruption
      | .ok ⟨_, none⟩ => do scan rules (← a.addFlag name) rest
      | .ok ⟨_, some accepts⟩ =>
        match rest with
        | value :: rest =>
          if (Argument.ofText value).isValue then do
            scan rules (← a.addValue name accepts value) rest
          else .error (.invalid s!"a value is required for '--{name}' but none was supplied")
        | [] => .error (.invalid s!"a value is required for '--{name}' but none was supplied")

/-- An argument that must be there. -/
def required (what : String) : Option String → Except Interruption String
  | some value => .ok value
  | none =>
    .error (.invalid s!"the following required arguments were not provided: {what}")

/-- A whole number up to a bound, perhaps with a plus before it. -/
def number? (bound : Nat) (text : String) : Option Nat :=
  let digits := match text.toList with
    | '+' :: rest => rest
    | cs => cs
  if !digits.isEmpty && digits.all Text.isDigit && Text.digitsValue digits ≤ bound then
    some (Text.digitsValue digits)
  else none

/-- Any text but the empty one is a path. -/
def isPath (text : String) : Bool := text ≠ ""

end Arguments
end ChainMapping
