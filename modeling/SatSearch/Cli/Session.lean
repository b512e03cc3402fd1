import SatSearch.Cli.Options
import SatSearch.Dimacs.Reader
import SatSearch.Log.Filter

/-!
# A session of the program

A session reads a formula, decides it, and reports. What it writes has three kinds of lines: log
lines, which start with `c`, the result line, which starts with `s`, and the model, which starts
with `v`. Two things come in from outside: which messages are shown, and the time that deciding
took, as text.
-/

namespace SatSearch.Cli

/-- Why a session has no answer. -/
inductive Failure where
  /-- The input is no formula. -/
  | input (e : Dimacs.Error)
  /-- The solver has no answer. -/
  | solver (e : SolveError)
  /-- The computation was cut short. -/
  | fault (f : Fault)
deriving DecidableEq, Repr

/-- What a session writes and the code it exits with. -/
structure Report where
  exitCode : Nat
  printed : List String
deriving DecidableEq, Repr

namespace Report

/-- The lines written: what is printed at once may itself hold line feeds. -/
def lines (r : Report) : List String :=
  r.printed.flatMap fun s => (Text.pieces (· = '\n') s.toList).map String.ofList

end Report

/-- The text that explains the options. -/
def helpText : List String :=
  ["DPLL SAT solver with priority driven branching",
    "",
    "Usage: priority-sat [OPTIONS] <INPUT>",
    "",
    "Arguments:",
    "  <INPUT>  DIMACS CNF input file",
    "",
    "Options:",
    "  -m, --method <METHOD>  Solving method [default: dpll] [possible values: dpll, exhaustive]",
    "      --no-verify        Skip checking the model of a satisfiable formula",
    "      --model            Print the model of a satisfiable formula",
    "  -v, --verbose...       Verbosity level (-v, -vv)",
    "  -h, --help             Print help",
    "  -V, --version          Print version"]

/-- The report when the arguments ask for no session. -/
def Ending.report : Ending → Report
  | help => ⟨0, helpText⟩
  | version => ⟨0, ["priority-sat 0.1.0"]⟩
  | usageError => ⟨2, []⟩

/-- The level up to which messages are shown at a verbosity. -/
def levelAt : Nat → Level
  | 0 => .info
  | 1 => .debug
  | _ => .trace

/-- The filter for a verbosity and, if there is one, a written filter. -/
def filterFor (verbosity : Nat) (written : Option String) : LogFilter :=
  let filter := LogFilter.upTo (levelAt verbosity)
  match written with
  | none => filter
  | some w => filter.extend w.toList

/-- The log line of a message. Only messages of other levels than info name their level. -/
def logLine (m : Message) : String :=
  match m.level with
  | .info => "c " ++ m.text
  | level => "c " ++ level.word ++ ": " ++ m.text

/-- The line that shows a model: its literals and a 0. -/
def modelLine (a : Assignment) : String :=
  " ".intercalate ("v" :: a.signed.map toString ++ ["0"])

namespace Session

/-- Reads the formula from the content of the input. -/
def load (o : Options) (content : Except ReadFailure (List UInt8)) : Logged Failure Formula := do
  Logged.log .banner
  Logged.log (.reading o.input)
  let bytes ← content.mapError fun cause => Failure.input (.unreadable cause)
  (Dimacs.load bytes).mapError .input

/-- Decides the formula as the options ask for. -/
def decideFormula (o : Options) (f : Formula) : Logged Failure Answer := do
  let answer ← (f.solve o.config).mapError .fault
  (answer.mapError .solver : Except Failure Answer)

/-- Decides the formula that was read, if one was read; this part reports its own messages only. -/
def decideLoaded (o : Options) (loaded : Logged Failure Formula) : Logged Failure Answer :=
  match loaded.result with
  | .error e => Logged.fail e
  | .ok f => decideFormula o f

/-- Puts the parts of a session together. -/
def conclude (loaded : Logged Failure Formula) (decided : Logged Failure Answer)
    (elapsed : String) : Logged Failure Answer := do
  let _ ← loaded
  let answer ← decided
  Logged.log (.elapsed elapsed)
  return answer

/-- A whole session on the content of an input. -/
def run (o : Options) (content : Except ReadFailure (List UInt8)) (elapsed : String) :
    Logged Failure Answer :=
  let loaded := load o content
  conclude loaded (decideLoaded o loaded) elapsed

/-- The log lines of the messages that are shown. -/
def logLines (shows : Message → Bool) (ms : List Message) : List String :=
  (ms.filter shows).map logLine

/-- The lines that give the answer. -/
def answerLines (o : Options) (a : Answer) : List String :=
  match a.model with
  | none => ["s UNSATISFIABLE"]
  | some model => "s SATISFIABLE" :: if o.showModel then [modelLine model] else []

/-- What a session writes, and its exit code: 10 and 20 for an answer, 1 for an error, 101 for a
computation that was cut short. -/
def report (o : Options) (shows : Message → Bool) (session : Logged Failure Answer) : Report :=
  let log (last : List Message) := logLines shows (session.messages ++ last)
  match session.result with
  | .ok a => ⟨if a.satisfiable then 10 else 20, log [] ++ answerLines o a⟩
  | .error (.input e) => ⟨1, log [.failed e.message]⟩
  | .error (.solver e) => ⟨1, log [.failed e.message]⟩
  | .error (.fault _) => ⟨101, log []⟩

end Session

end SatSearch.Cli
