import SatSearch.Cli.Session

/-!
# The program

Reads the arguments, the filter for the log and the input file, and writes the report.
-/

namespace SatSearch.Cli

/-- The failure that the operating system means by the number of an error. The number may be given
as a negative one, as a word. -/
def systemFailure (code : UInt32) (details : String) : ReadFailure :=
  match if code < 0x80000000 then code.toNat else wordSize - code.toNat with
  | 13 => .system "Permission denied" 13
  | 36 => .system "File name too long" 36
  | 40 => .system "Too many levels of symbolic links" 40
  | number => .system details number

/-- Why a file could not be read. -/
def readFailure : IO.Error → ReadFailure
  | .noFileOrDirectory .. => .notFound
  | .inappropriateType _ code _ => if code = 21 then .isDirectory else .notDirectory
  | .otherError code details | .resourceBusy code details | .resourceVanished code details
  | .unsupportedOperation code details | .hardwareFault code details
  | .unsatisfiedConstraints code details | .illegalOperation code details
  | .protocolError code details | .timeExpired code details | .alreadyExists _ code details
  | .interrupted _ code details | .invalidArgument _ code details
  | .permissionDenied _ code details | .resourceExhausted _ code details
  | .noSuchThing _ code details => systemFailure code details
  | .unexpectedEof => .system "Input/output error" 5
  | .userError details => .system details 5

/-- The bytes of a file. -/
def readInput (path : String) : IO (Except ReadFailure (List UInt8)) := do
  match ← (IO.FS.readBinFile path).toBaseIO with
  | .ok bytes => return .ok bytes.toList
  | .error e => return .error (readFailure e)

/-- A time in nanoseconds as a number of seconds: the whole seconds and the nearest fraction are
added, and the sum is rounded once more. For no time at all there is no positive number. -/
def seconds? (nanoseconds : Nat) : Option Binary64 :=
  let whole := nanoseconds / 1000000000
  let rest := nanoseconds % 1000000000
  let fraction := Binary64.ofQuotient rest 1000000000
  match whole, rest with
  | 0, 0 => none
  | 0, _ => some fraction
  | _, 0 => some (.ofNat whole)
  | _, _ => some ((Binary64.ofNat whole).add fraction)

/-- A time in nanoseconds as seconds with six decimal places. -/
def secondsText (nanoseconds : Nat) : String :=
  match seconds? nanoseconds with
  | none => "0.000000"
  | some seconds => seconds.text 6

/-- Writes a report and returns its exit code. -/
def writeReport (r : Report) : IO UInt32 := do
  r.printed.forM IO.println
  return r.exitCode.toUInt32

/-- Runs a session and measures how long deciding takes. -/
def runSession (o : Options) : IO UInt32 := do
  let filter := filterFor o.verbosity (← IO.getEnv "PRIORITY_SAT_LOG")
  let loaded := Session.load o (← readInput o.input)
  let start ← IO.monoNanosNow
  let decided := Session.decideLoaded o loaded
  let finished ← if decided.result.isOk then IO.monoNanosNow else pure start
  writeReport (Session.report o filter (Session.conclude loaded decided
    (secondsText (finished - start))))

end SatSearch.Cli

/-- The command line program. -/
def main (args : List String) : IO UInt32 :=
  match SatSearch.Cli.readArguments args with
  | .error ending => SatSearch.Cli.writeReport ending.report
  | .ok o => SatSearch.Cli.runSession o
