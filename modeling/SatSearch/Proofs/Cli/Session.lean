import SatSearch.Proofs.Cli.ModelLine
import SatSearch.Proofs.Decision

/-!
# What a session reports

The result of a session is that of its parts: what reading gives, and then what solving gives. The
log goes before the answer and takes no part in it. So neither the options for the log nor the check
of the model show in the answer, the method shows in the model line only, and whether there is a
model line is up to one option.
-/

namespace SatSearch.Cli

namespace Report

/-- The report consists of log lines, which start with a `c`, and these lines after them. -/
def Answers (r : Report) (exitCode : ℕ) (answer : List String) : Prop :=
  r.exitCode = exitCode ∧
    ∃ log : List String, r.printed = log ++ answer ∧ ∀ line ∈ log, ∃ text, line = "c " ++ text

end Report

namespace Session

variable {o : Options} {shows : Message → Bool} {session : Logged Failure Answer}
variable {bytes : List UInt8} {elapsed : String} {f : Formula} {a : Answer}

/-- What the program reports on an input of these bytes when it shows these of its messages. -/
def reportOn (o : Options) (shows : Message → Bool) (bytes : List UInt8) (elapsed : String) :
    Report :=
  report o shows (run o (.ok bytes) elapsed)

/-- A log line starts as a comment does. -/
theorem exists_logLine (m : Message) : ∃ text, logLine m = "c " ++ text := by
  unfold logLine
  split
  · exact ⟨_, rfl⟩
  · exact ⟨_, by rw [String.append_assoc, String.append_assoc]⟩

/-- Above an answer the log may stand. -/
theorem answers_of_logLines {ms : List Message} {code : ℕ} {answer : List String} :
    Report.Answers ⟨code, logLines shows ms ++ answer⟩ code answer := by
  refine ⟨rfl, _, rfl, fun line hline => ?_⟩
  obtain ⟨m, -, rfl⟩ := List.mem_map.mp hline
  exact exists_logLine m

/-- A session that ends in an answer reports it, with the exit code of its verdict. -/
theorem report_of_ok (h : session.result = .ok a) :
    (report o shows session).Answers (if a.satisfiable then 10 else 20) (answerLines o a) := by
  unfold report
  rw [h]
  exact answers_of_logLines

/-- A session that ends in an error of the input reports no answer, and exit code 1. -/
theorem report_of_input_error {e : Dimacs.Error} (h : session.result = .error (.input e)) :
    (report o shows session).Answers 1 [] := by
  have hlog := @answers_of_logLines shows (session.messages ++ [.failed e.message]) 1 []
  rw [List.append_nil] at hlog
  unfold report
  rw [h]
  exact hlog

/-- Loading ends as reading does. -/
theorem load_result : (load o (.ok bytes)).result = (Dimacs.read bytes).mapError .input := by
  have hload : (load o (.ok bytes)).result = (Dimacs.load bytes).result.mapError .input := rfl
  rw [hload, Dimacs.load, Logged.result_bind, Logged.result_lift]
  cases Dimacs.read bytes <;> rfl

/-- A file that cannot be read ends the session. -/
theorem run_of_read_error {e : Dimacs.Error} (hread : Dimacs.read bytes = .error e) :
    (run o (.ok bytes) elapsed).result = .error (.input e) := by
  rw [run, conclude, Logged.result_bind, load_result, hread]
  rfl

/-- A file that can be read is answered as its formula is. -/
theorem run_of_solve (hread : Dimacs.read bytes = .ok f)
    (hsolve : (f.solve o.config).result = .ok (.ok a)) :
    (run o (.ok bytes) elapsed).result = .ok a := by
  have hloaded : (load o (.ok bytes)).result = .ok f := by rw [load_result, hread]; rfl
  have hdecided : (decideLoaded o (load o (.ok bytes))).result = .ok a := by
    rw [decideLoaded, hloaded]
    simp only [decideFormula, Logged.result_bind, Logged.mapError, hsolve]
    rfl
  rw [run, conclude, Logged.result_bind, hloaded, ok_bind, Logged.result_bind, hdecided]
  rfl

/-- A session reports what its method answers, whether or not models are checked. -/
theorem reportOn_of_answer (hread : Dimacs.read bytes = .ok f) (hn : f.variableCount < 2 ^ 32)
    (hanswer : (f.answer o.method).result = .ok a) (shows : Message → Bool) (elapsed : String) :
    (reportOn o shows bytes elapsed).Answers (if a.satisfiable then 10 else 20)
      (answerLines o a) := by
  have hsolve : (f.solve o.config).result = .ok (.ok a) :=
    (Formula.solve_eq_ok hn).mpr ⟨a, hanswer, rfl⟩
  exact report_of_ok (run_of_solve hread hsolve)

/-- Whichever messages are shown: on an input that is no formula every session exits with 1 and
prints no answer. On a formula of at most `2 ^ 31 - 1` variables that a method decides, with or
without the check of models, every session with this method gives the right answer and exits with
the code for it: 10 if the formula is satisfiable and 20 if it is not. If it is satisfiable, one and
the same model is shown by all of them that are to show one. -/
theorem sessions_answer (bytes : List UInt8) :
    (∀ e, Dimacs.read bytes = .error e →
      ∀ o shows elapsed, (reportOn o shows bytes elapsed).Answers 1 []) ∧
    ∀ f, Dimacs.read bytes = .ok f → f.variableCount ≤ 2 ^ 31 - 1 →
      ∀ config r, (f.solve config).result = .ok r →
        ((∃ value, f.holds value = true) ∧ ∃ line m, ShowsModel f line m ∧
          ∀ o, o.method = config.method → ∀ shows elapsed,
            (reportOn o shows bytes elapsed).Answers 10
              ("s SATISFIABLE" :: if o.showModel then [line] else [])) ∨
        ((∀ value, f.holds value = false) ∧
          ∀ o, o.method = config.method → ∀ shows elapsed,
            (reportOn o shows bytes elapsed).Answers 20 ["s UNSATISFIABLE"]) := by
  refine ⟨fun e hread o shows elapsed => report_of_input_error (run_of_read_error hread),
    fun f hread hn config r hok => ?_⟩
  have hsmall : f.variableCount < 2 ^ 32 := by omega
  obtain ⟨a, ha, -⟩ := (Formula.solve_eq_ok hsmall).mp hok
  have hreports : ∀ o, o.method = config.method → ∀ shows elapsed,
      (reportOn o shows bytes elapsed).Answers (if a.satisfiable then 10 else 20)
        (answerLines o a) :=
    fun o ho => reportOn_of_answer hread hsmall (ho ▸ ha)
  have hanswered := Formula.answer_answered hsmall ha
  obtain ⟨method, model, statistics⟩ := a
  cases hanswered with
  | model hcomplete =>
    exact .inl ⟨⟨_, hcomplete.satisfies⟩, _, _, showsModel_modelLine hn hcomplete, hreports⟩
  | none hunsatisfiable => exact .inr ⟨hunsatisfiable, hreports⟩

/-- The first input lacks a clause. The second one is satisfiable, and all sessions that search show
the same model of it. -/
theorem sessions_answer_one_model :
    let broken := "p cnf 3 2\n1 -2 0\n".toUTF8.toList
    let bytes := "p cnf 3 2\n1 -2 0\n2 3 0\n".toUTF8.toList
    let f : Formula := ⟨3, [.ofCodes [1, -2], .ofCodes [2, 3]]⟩
    Dimacs.read broken = .error (.clauseCount 1 2) ∧
      (∀ o shows elapsed, (reportOn o shows broken elapsed).Answers 1 []) ∧
      Dimacs.read bytes = .ok f ∧ f.variableCount ≤ 2 ^ 31 - 1 ∧
      (∃ r, (f.solve {}).result = .ok r) ∧
      ∃ line m, ShowsModel f line m ∧ ∀ o, o.method = .dpll → ∀ shows elapsed,
        (reportOn o shows bytes elapsed).Answers 10
          ("s SATISFIABLE" :: if o.showModel then [line] else []) := by
  intro broken bytes f
  have hbroken : Dimacs.read broken = .error (.clauseCount 1 2) := by decide +kernel
  have hread : Dimacs.read bytes = .ok f := by decide +kernel
  have hsolve : (f.solve {}).result = .ok (.ok ⟨.dpll,
      some (.ofBindings [(1, false), (2, false), (3, true)]),
      some { decisions := 3, scans := 2, evaluations := 1 }⟩) := by
    decide +kernel
  refine ⟨hbroken, (sessions_answer broken).1 _ hbroken, hread, by decide, ⟨_, hsolve⟩, ?_⟩
  rcases (sessions_answer bytes).2 f hread (by decide) {} _ hsolve with
    ⟨-, hshown⟩ | ⟨hunsatisfiable, -⟩
  · exact hshown
  · exact absurd (hunsatisfiable fun v => v ≠ 2) (by decide)

end Session

end SatSearch.Cli
