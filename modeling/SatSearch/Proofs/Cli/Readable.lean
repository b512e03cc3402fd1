import SatSearch.Main
import SatSearch.Proofs.Cli.LineKinds
import SatSearch.Proofs.Cli.Session
import SatSearch.Proofs.Dimacs.Wording
import SatSearch.Proofs.Log.Reported
import SatSearch.Proofs.Log.Wording

/-!
# Which sessions can be read by their lines

The log quotes texts from outside: lines and words of the file, descriptions of the operating
system, and the input path. All of them but the path are without line feeds, whatever the file holds
and whichever messages are shown. The path is printed as it was given. What stands after a line feed
in it begins a line of the output, which can pass for a result.
-/

namespace SatSearch.Cli

open Text

/-- The text of the error that a session ends with fits on a line. -/
def Failure.Worded : Failure → Prop
  | input e => OneLine e.message
  | solver e => OneLine e.message
  | fault _ => False

/-- So does the text about a model that was rejected. -/
theorem oneLine_invalidModel (method : Method) :
    OneLine (SolveError.invalidModel method).message := by
  cases method <;> decide

/-- Of the lines that a quoted path takes up all but the first are comments. -/
def HarmlessPath (path : String) : Prop := ∀ line ∈ (printedLines (path ++ "'")).tail, IsComment line

instance : DecidablePred HarmlessPath := fun _ => inferInstanceAs (Decidable (∀ line ∈ _, _))

/-- The text of a measured time fits on a line. -/
theorem oneLine_secondsText (nanoseconds : ℕ) : OneLine (secondsText nanoseconds) := by
  unfold secondsText
  split
  · decide
  · exact Binary64.oneLine_text _ 6

variable {m : Message} {path : String}

/-- A message that fits on a line is logged on one. -/
theorem oneLine_logLine (hm : OneLine m.text) : OneLine (logLine m) := by
  have hword : ∀ level : Level, OneLine level.word := fun level => by cases level <;> decide
  unfold logLine
  split
  · simp only [oneLine_append_iff, hm, and_true]
    decide
  · simp only [oneLine_append_iff, hm, hword, and_true]
    decide

/-- A log line begins as a comment. -/
theorem isComment_logLine (m : Message) : IsComment (logLine m) := by
  obtain ⟨text, htext⟩ := Session.exists_logLine m
  rw [htext]
  exact isComment_append (by decide)

/-- A message that fits on a line is logged as one comment. -/
theorem comments_of_oneLine (hm : OneLine m.text) :
    ∀ line ∈ printedLines (logLine m), IsComment line := by
  rw [(oneLine_logLine hm).printedLines_eq]
  exact List.forall_mem_singleton.mpr (isComment_logLine m)

/-- A path without line feeds is harmless. -/
theorem HarmlessPath.of_oneLine (hpath : OneLine path) : HarmlessPath path := by
  have hquoted : OneLine (path ++ "'") := hpath.append (by decide)
  rw [HarmlessPath, hquoted.printedLines_eq]
  exact nofun

/-- What is logged of a path consists of comments exactly if the path is harmless. -/
theorem comments_reading_iff : (∀ line ∈ printedLines (logLine (.reading path)), IsComment line) ↔
    HarmlessPath path := by
  have hlogged : logLine (.reading path) = "c Reading file '" ++ (path ++ "'") := by
    show "c " ++ ("Reading file '" ++ path ++ "'") = _
    rw [String.append_assoc, ← String.append_assoc]
    rfl
  have hopening : OneLine "c Reading file '" := by decide
  obtain ⟨line, rest, hpath, hprinted⟩ := hopening.printedLines_append (path ++ "'")
  rw [hlogged, hprinted, HarmlessPath, hpath, List.forall_mem_cons, List.tail_cons]
  exact and_iff_right (isComment_append (by decide))

namespace Session

variable {o : Options} {shows : Message → Bool} {session : Logged Failure Answer}
  {content : Except ReadFailure (List UInt8)} {elapsed : String} {f : Formula} {e : Failure}

section Worded

/-- Why an input is no formula is told in a line. -/
theorem load_worded
    (hsystem : ∀ description code, content = .error (.system description code) →
      OneLine description)
    (he : (load o content).result = .error e) : e.Worded := by
  cases content with
  | ok bytes =>
    rw [load_result] at he
    obtain ⟨e', hread, rfl⟩ := mapError_eq_error.mp he
    exact Dimacs.oneLine_message_of_read hread
  | error cause =>
    cases he
    apply Dimacs.Error.oneLine_message
    cases cause with
    | invalidUtf8 => exact List.not_mem_nil
    | system description code => exact hsystem description code rfl

/-- If a formula is not decided although nothing faulted, its model was rejected. -/
theorem decideFormula_worded (hfault : ∀ fault, e ≠ .fault fault)
    (he : (decideFormula o f).result = .error e) : e.Worded := by
  rcases Logged.bind_eq_error.mp he with he | ⟨answer, hanswer, he⟩
  · obtain ⟨fault, -, rfl⟩ := mapError_eq_error.mp he
    exact absurd rfl (hfault fault)
  · obtain ⟨e', rfl, rfl⟩ := mapError_eq_error.mp he
    obtain rfl := Formula.solve_error (mapError_eq_ok.mp hanswer)
    exact oneLine_invalidModel o.config.method

/-- Without a fault the error that a session ends with is told in a line. -/
theorem run_worded
    (hsystem : ∀ description code, content = .error (.system description code) →
      OneLine description)
    (hfault : ∀ fault, (run o content elapsed).result ≠ .error (.fault fault))
    (he : (run o content elapsed).result = .error e) : e.Worded := by
  have hne : ∀ fault, e ≠ .fault fault := fun fault heq => hfault fault (heq ▸ he)
  rcases Logged.bind_eq_error.mp he with he | ⟨f, hloaded, he⟩
  · exact load_worded hsystem he
  rcases Logged.bind_eq_error.mp he with he | ⟨answer, -, he⟩
  · rw [decideLoaded, hloaded] at he
    exact decideFormula_worded hne he
  · cases he

end Worded

section Messages

/-- A session reports its path. -/
theorem reading_mem_run : .reading o.input ∈ (run o content elapsed).messages := by
  have hload : .reading o.input ∈ (load o content).messages := by
    have hrest : ∀ x : Logged Failure Formula,
        .reading o.input ∈ (Logged.log .banner >>= fun _ =>
          Logged.log (.reading o.input) >>= fun _ => x).messages :=
      fun x => List.mem_cons_of_mem _ List.mem_cons_self
    exact hrest _
  exact Logged.mem_messages_bind hload

/-- Of all that a session reports only its path can be of several lines. -/
theorem run_only (helapsed : OneLine elapsed) :
    (run o content elapsed).Only fun m => m = .reading o.input ∨ OneLine m.text := by
  have hlibrary : ∀ m : Message, m.OfLibrary → m = .reading o.input ∨ OneLine m.text :=
    fun m hm => .inr (Message.oneLine_text hm)
  have hload : (load o content).Only fun m => m = .reading o.input ∨ OneLine m.text := by
    refine .log_bind (.inr (by decide)) (.log_bind (.inl rfl) ?_)
    refine .lift_bind fun bytes => .mapError ?_ _
    exact .lift_bind fun f => .log_bind (hlibrary _ nofun) (.pure f)
  have hdecided : (decideLoaded o (load o content)).Only fun m =>
      m = .reading o.input ∨ OneLine m.text := by
    unfold decideLoaded
    split
    · exact .fail _
    · refine .bind (.mapError ((Formula.solve_only _ _).mono hlibrary) _) fun answer => ?_
      exact .lift _
  refine hload.bind fun _ => hdecided.bind fun a => .log_bind (.inr ?_) (.pure a)
  show OneLine ("Execution time: " ++ elapsed ++ " seconds")
  simp only [oneLine_append_iff, helapsed, and_true]
  decide

end Messages

/-- The lines of an answer go with its exit code. -/
theorem verdict_answerLines (o : Options) (a : Answer) :
    Verdict (if a.satisfiable then 10 else 20) (answerLines o a) := by
  obtain ⟨method, model, statistics⟩ := a
  cases model with
  | none => exact .unsatisfiable
  | some m =>
    show Verdict 10 ("s SATISFIABLE" :: if o.showModel then [modelLine m] else [])
    split
    · exact .model m
    · exact .satisfiable

/-- Without a fault a report is a log and an answer after it. -/
theorem report_eq (o : Options) (shows : Message → Bool)
    (hworded : ∀ e, session.result = .error e → e.Worded) :
    ∃ last code answer, (∀ m ∈ last, OneLine m.text) ∧ Verdict code answer ∧
      report o shows session = ⟨code, logLines shows (session.messages ++ last) ++ answer⟩ := by
  unfold report
  cases hresult : session.result with
  | ok a =>
    exact ⟨[], _, _, nofun, verdict_answerLines o a, rfl⟩
  | error e =>
    have he := hworded e hresult
    cases e with
    | input e =>
      refine ⟨[.failed e.message], 1, [], List.forall_mem_singleton.mpr he, .none, ?_⟩
      simp only [List.append_nil]
    | solver e =>
      refine ⟨[.failed e.message], 1, [], List.forall_mem_singleton.mpr he, .none, ?_⟩
      simp only [List.append_nil]
    | fault => exact he.elim

/-- If only the path can be of several lines, the log consists of comments exactly if the path is
harmless or not shown. -/
theorem comments_logLines_iff {ms : List Message} (hpath : .reading path ∈ ms)
    (hms : ∀ m ∈ ms, m = .reading path ∨ OneLine m.text) :
    (∀ line ∈ (logLines shows ms).flatMap printedLines, IsComment line) ↔
      (shows (.reading path) = true → HarmlessPath path) := by
  rw [logLines, List.flatMap_map, ← comments_reading_iff]
  constructor
  · intro h hshows line hline
    exact h line (List.mem_flatMap.mpr ⟨_, List.mem_filter.mpr ⟨hpath, hshows⟩, hline⟩)
  · intro h line hline
    obtain ⟨m, hm, hline⟩ := List.mem_flatMap.mp hline
    obtain ⟨hm, hshows⟩ := List.mem_filter.mp hm
    rcases hms m hm with rfl | honeLine
    · exact h hshows line hline
    · exact comments_of_oneLine honeLine line hline

/-- Every line of the output says what it is if the path has no line feed in it. Given that the
descriptions of the operating system and the text of the time have none, this is so whatever is in
the file, for all options and whichever messages are shown, unless the session faults. If the path
does have line feeds, all depends on it: the output can be read by its lines exactly if the path is
not shown, or if in its own place too each line after the first would be a comment. -/
theorem readable_iff_harmlessPath (o : Options) (shows : Message → Bool)
    (content : Except ReadFailure (List UInt8)) (elapsed : String)
    (hsystem : ∀ description code, content = .error (.system description code) →
      OneLine description)
    (helapsed : OneLine elapsed)
    (hfault : ∀ fault, (run o content elapsed).result ≠ .error (.fault fault)) :
    let r := report o shows (run o content elapsed)
    (OneLine o.input → Readable r) ∧
      (Readable r ↔ (shows (.reading o.input) = true → HarmlessPath o.input)) := by
  intro r
  have hreadable : Readable r ↔ (shows (.reading o.input) = true → HarmlessPath o.input) := by
    obtain ⟨last, code, answer, hlast, hverdict, hr⟩ :=
      report_eq o shows fun e he => run_worded hsystem hfault he
    have hreading : .reading o.input ∈ (run o content elapsed).messages := reading_mem_run
    have honly : (run o content elapsed).Only fun m => m = .reading o.input ∨ OneLine m.text :=
      run_only helapsed
    rw [show r = _ from hr, readable_iff_comments hverdict]
    refine comments_logLines_iff (List.mem_append_left _ hreading) ?_
    exact List.forall_mem_append.mpr ⟨honly, fun m hm => .inr (hlast m hm)⟩
  exact ⟨fun hpath => hreadable.mpr fun _ => .of_oneLine hpath, hreadable⟩

/-- The formula is satisfiable, and its model is shown. With the path in the log the output cannot
be read by its lines; without the messages at its level it can. -/
theorem readable_iff_harmlessPath_hidden :
    let o : Options := ⟨"in\nput.cnf", .dpll, true, true, 0⟩
    let content : Except ReadFailure (List UInt8) := .ok "p cnf 1 1\n-1 0\n".toUTF8.toList
    let session := run o content "0.000012"
    (∀ description code, content = .error (.system description code) → OneLine description) ∧
      OneLine "0.000012" ∧ (∀ fault, session.result ≠ .error (.fault fault)) ∧
      ¬HarmlessPath o.input ∧ ¬Readable (report o (fun _ => true) session) ∧
      Readable (report o (fun m => decide (m.level ≠ .info)) session) := by
  intro o content session
  have hsystem : ∀ description code, content = .error (.system description code) →
      OneLine description := nofun
  have helapsed : OneLine "0.000012" := by decide
  have hresult : session.result = .ok ⟨.dpll, some (.ofBindings [(1, false)]),
      some { decisions := 1, evaluations := 1 }⟩ := by
    decide +kernel
  have hfault : ∀ fault, session.result ≠ .error (.fault fault) := by
    rw [hresult]
    exact nofun
  have hpath : ¬HarmlessPath o.input := by decide
  have hreadable := fun shows =>
    (readable_iff_harmlessPath o shows content "0.000012" hsystem helapsed hfault).2
  refine ⟨hsystem, helapsed, hfault, hpath, fun hr => hpath ((hreadable _).mp hr rfl),
    (hreadable _).mpr fun h => ?_⟩
  exact absurd h (by decide)

/-- The name of a file that does not exist passes for the result of a run that ends with an error,
whatever else is shown. -/
theorem path_forges_result :
    let path := "missing\ns SATISFIABLE\nc .cnf"
    let o : Options := ⟨path, .dpll, true, false, 0⟩
    let r (shows : Message → Bool) (elapsed : String) :=
      report o shows (run o (.error .notFound) elapsed)
    (∀ elapsed fault, (run o (.error .notFound) elapsed).result ≠ .error (.fault fault)) ∧
      (∀ shows elapsed, shows (.reading path) = true → (r shows elapsed).exitCode = 1 ∧
        "s SATISFIABLE" ∈ (r shows elapsed).lines ∧ ¬Readable (r shows elapsed)) ∧
      ∀ elapsed, (r (fun _ => true) elapsed).lines = ["c This is priority-sat 0.1.0",
        "c Reading file 'missing", "s SATISFIABLE", "c .cnf'",
        "c ERROR: No such file or directory (os error 2)"] := by
  intro path o r
  have hforged : "s SATISFIABLE" ∈ printedLines (logLine (.reading path)) := by decide +kernel
  refine ⟨nofun, fun shows elapsed hshows => ?_, fun elapsed => ?_⟩
  · have hmem : "s SATISFIABLE" ∈ (r shows elapsed).lines := by
      refine List.mem_flatMap.mpr ⟨logLine (.reading path), ?_, hforged⟩
      have hreading : .reading path ∈ (run o (.error .notFound) elapsed).messages :=
        reading_mem_run
      refine List.mem_map.mpr ⟨_, List.mem_filter.mpr ⟨?_, hshows⟩, rfl⟩
      exact List.mem_append_left _ hreading
    have hcode : (r shows elapsed).exitCode = 1 := rfl
    refine ⟨hcode, hmem, fun hr => ?_⟩
    have hanswered := hr.result_iff.mp ⟨_, hmem, .inl rfl⟩
    rw [hcode] at hanswered
    omega
  · have hlines : (r (fun _ => true) "").lines = ["c This is priority-sat 0.1.0",
        "c Reading file 'missing", "s SATISFIABLE", "c .cnf'",
        "c ERROR: No such file or directory (os error 2)"] := by
      decide +kernel
    -- No time is reported when the input cannot be read.
    exact hlines

end Session

end SatSearch.Cli
