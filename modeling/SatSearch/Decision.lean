import SatSearch.Enumeration
import SatSearch.Search

/-!
# Deciding a formula

One entry point for both methods. A model is checked against the formula before it is handed out,
unless the caller does without.
-/

namespace SatSearch

/-- How a formula is to be decided. -/
structure Config where
  method : Method := .dpll
  /-- Whether a model is checked before it is handed out. -/
  verify : Bool := true
deriving DecidableEq, Repr

/-- Why there is no answer. -/
inductive SolveError where
  /-- No method has this name. -/
  | unknownMethod (name : String)
  /-- The model that this method found does not satisfy the formula. -/
  | invalidModel (method : Method)
deriving DecidableEq, Repr

/-- The wording of an error. -/
def SolveError.message : SolveError → String
  | unknownMethod name => s!"Unknown solving method '{name}', expected 'dpll' or 'exhaustive'"
  | invalidModel method =>
    let name := method.name
    s!"The {name} solver returned a model that does not satisfy the formula"

/-- The method with a name, or the error that there is none. -/
def Method.ofName (name : String) : Except SolveError Method :=
  match Method.ofName? name with
  | some method => .ok method
  | none => .error (.unknownMethod name)

/-- The verdict on a formula: a model if it is satisfiable, and the counters of a search. -/
structure Answer where
  method : Method
  model : Option Assignment
  statistics : Option Statistics
deriving DecidableEq, Repr

/-- Whether the formula was found satisfiable. -/
def Answer.satisfiable (a : Answer) : Bool := a.model.isSome

namespace Formula

/-- Runs a new search on the formula. -/
def search (f : Formula) : Logged Fault (Option Assignment × Statistics) := do
  let s ← SearchState.create f.variableCount
  let (model, s) ← s.run f
  return (model, s.statistics)

/-- The model that a search finds, if the formula is satisfiable. -/
def searchModel (f : Formula) : Logged Fault (Option Assignment) :=
  return (← f.search).1

/-- Whether a search finds a model. -/
def isSatisfiable (f : Formula) : Logged Fault Bool :=
  return (← f.search).1.isSome

/-- Decides the formula by the method asked for. -/
def answer (f : Formula) : Method → Logged Fault Answer
  | .dpll => do
    let (model, statistics) ← f.search
    Logged.log (.finished statistics)
    return ⟨.dpll, model, some statistics⟩
  | .exhaustive => return ⟨.exhaustive, ← f.firstModel, none⟩

/-- Decides the formula and, if asked to, checks a model before handing it out. -/
def solve (f : Formula) (config : Config) : Logged Fault (Except SolveError Answer) := do
  Logged.log (.solving f.variableCount f.clauseCount config.method)
  let a ← f.answer config.method
  match a.model with
  | none => return .ok a
  | some model =>
    if config.verify && !model.verifies f then
      Logged.log .modelRejected
      return .error (.invalidModel config.method)
    else
      return .ok a

end Formula

end SatSearch
