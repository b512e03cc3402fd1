import SatSearch.Decision

/-!
# Command line options

The arguments are read from left to right, and the first one that settles the matter wins: a
request for help or for the version, or a mistake. An option may be given once only, except for the
verbosity. After `--` every argument is an input path. What is proved of a session holds for all
options, however the arguments are read.
-/

namespace SatSearch.Cli

/-- What the program is asked to do. -/
structure Options where
  input : String
  method : Method
  verify : Bool
  showModel : Bool
  verbosity : Nat
deriving DecidableEq, Repr

/-- The configuration of the solver that the options ask for. -/
def Options.config (o : Options) : Config := { method := o.method, verify := o.verify }

/-- How reading the arguments ends when no formula is to be decided. -/
inductive Ending where
  | help
  | version
  | usageError
deriving DecidableEq, Repr

/-- The options met so far. -/
structure Draft where
  input : Option String := none
  method : Option Method := none
  noVerify : Bool := false
  showModel : Bool := false
  verbosity : Nat := 0
deriving DecidableEq, Repr

/-- What the next argument can be. -/
inductive Mode where
  /-- An option or the input path. -/
  | any
  /-- The name of a method. -/
  | methodName
  /-- The input path, whatever it looks like. -/
  | path
deriving DecidableEq, Repr

namespace Draft

/-- Takes an argument as the input path, of which there is one and not an empty one. -/
def setInput (d : Draft) (path : String) : Except Ending Draft :=
  if d.input.isSome || path.isEmpty then .error .usageError
  else .ok { d with input := some path }

/-- Takes a method by its exact name. -/
def setMethod (d : Draft) (name : List Char) : Except Ending Draft :=
  match d.method, [Method.dpll, Method.exhaustive].find? (·.name.toList = name) with
  | none, some method => .ok { d with method := some method }
  | _, _ => .error .usageError

/-- Notes that models are not to be checked. -/
def setNoVerify (d : Draft) : Except Ending Draft :=
  if d.noVerify then .error .usageError else .ok { d with noVerify := true }

/-- Notes that a model is to be printed. -/
def setShowModel (d : Draft) : Except Ending Draft :=
  if d.showModel then .error .usageError else .ok { d with showModel := true }

/-- Raises the verbosity. -/
def addVerbosity (d : Draft) : Draft := { d with verbosity := d.verbosity + 1 }

/-- Reads the letters after a single dash. The rest after an `m` is its method, with or without an
equals sign; if there is no rest, the method is the next argument. -/
def readLetters (d : Draft) : List Char → Except Ending (Draft × Mode)
  | [] => .ok (d, .any)
  | 'v' :: cs => d.addVerbosity.readLetters cs
  | 'h' :: _ => .error .help
  | 'V' :: _ => .error .version
  | ['m'] => .ok (d, .methodName)
  | 'm' :: '=' :: name => do return (← d.setMethod name, .any)
  | 'm' :: name => do return (← d.setMethod name, .any)
  | _ => .error .usageError

/-- Reads an option with two dashes, given as its name and the value after an equals sign. -/
def readLong (d : Draft) (name : List Char) (value : Option (List Char)) :
    Except Ending (Draft × Mode) :=
  match String.ofList name, value with
  | "help", none => .error .help
  | "version", none => .error .version
  | "verbose", none => .ok (d.addVerbosity, .any)
  | "model", none => do return (← d.setShowModel, .any)
  | "no-verify", none => do return (← d.setNoVerify, .any)
  | "method", none => .ok (d, .methodName)
  | "method", some method => do return (← d.setMethod method, .any)
  | _, _ => .error .usageError

/-- Reads the next argument. -/
def readArgument (state : Draft × Mode) (argument : String) : Except Ending (Draft × Mode) :=
  let (d, mode) := state
  match mode, argument.toList with
  | .any, ['-', '-'] => .ok (d, .path)
  | .any, '-' :: '-' :: cs =>
    match cs.span (· ≠ '=') with
    | (name, []) => d.readLong name none
    | (name, _ :: value) => d.readLong name (some value)
  | .any, '-' :: c :: cs => d.readLetters (c :: cs)
  | .any, _ => do return (← d.setInput argument, .any)
  | .path, _ => do return (← d.setInput argument, .path)
  | .methodName, cs =>
    if cs.head? = some '-' ∧ cs ≠ ['-'] then .error .usageError
    else do return (← d.setMethod cs, .any)

/-- The options, if all that is needed was given. -/
def finish (state : Draft × Mode) : Except Ending Options :=
  match state with
  | (_, .methodName) => .error .usageError
  | (d, _) =>
    match d.input with
    | none => .error .usageError
    | some input =>
      .ok { input, method := d.method.getD .dpll, verify := !d.noVerify, showModel := d.showModel,
            verbosity := d.verbosity }

end Draft

/-- The options that the arguments stand for, or what is done instead. -/
def readArguments (arguments : List String) : Except Ending Options := do
  Draft.finish (← arguments.foldlM Draft.readArgument ({}, .any))

end SatSearch.Cli
