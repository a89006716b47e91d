import Chip8.Command.Session

/-!
# How a session ends

A session goes on from a transcript and ends with an answer or a failure, and with what it has
printed and written by then.  A row of sessions ends where the first of them fails.  What is told
here of every part of a session is all that a proof about a command needs: no later proof opens a
session.

* `Session.ending`: the end of a session.
* `ending_bind_of_ok`, `ending_bind_of_error`: two sessions in a row.
* `ending_showLog`: the lines of a log that are shown, all at once.
* `ending_mapM_orFail`: answers that are asked for one by one fail with the first that is none.
* `Report.ofSession_of_ok`, `Report.ofSession_of_error`: the report of a session.
-/

namespace Chip8.Command

namespace Session

variable {ε α β γ : Type} {s : Session α} {next : α → Session β} {t t' : Transcript}
  (kit : Toolkit)

/-- The end of a session that goes on from a transcript. -/
def ending (s : Session α) (t : Transcript) : Except Failure α × Transcript := s.run.run t

theorem ending_bind_of_ok {a : α} (h : s.ending t = (.ok a, t')) :
    Session.ending (s >>= next) t = (next a).ending t' := by
  rw [ending] at h
  rw [ending, ExceptT.run_bind, StateT.run_bind, h]
  rfl

theorem ending_bind_of_error {failure : Failure} (h : s.ending t = (.error failure, t')) :
    Session.ending (s >>= next) t = (.error failure, t') := by
  rw [ending] at h
  rw [ending, ExceptT.run_bind, StateT.run_bind, h]
  rfl

theorem ending_print (text : String) (t : Transcript) :
    (kit.print text).ending t = (.ok (), { t with out := t.out ++ kit.plain text }) := rfl

theorem ending_note (line : String) (t : Transcript) :
    (kit.note line).ending t = (.ok (), { t with err := t.err ++ kit.plain (line ++ "\n") }) := rfl

theorem ending_orFail (answer : Except ε α) (failure : ε → Failure) (t : Transcript) :
    (orFail answer failure).ending t = (answer.mapError failure, t) := by
  cases answer with
  | error e => rfl
  | ok a => rfl

/-! ### Logs -/

/-- The lines of a log that are shown, as they are printed. -/
def shownText (verbose : Bool) (log : List LogLine) : String :=
  String.join ((log.filter (·.isShown verbose)).map fun line => line.render verbose ++ "\n")

theorem ending_showLog (verbose : Bool) (log : List LogLine) (t : Transcript) :
    (showLog verbose log).ending t =
      (.ok (), { t with err := t.err ++ shownText verbose log }) := by
  rw [showLog, shownText]
  induction log.filter (·.isShown verbose) generalizing t with
  | nil =>
    rw [List.map_nil, String.join_nil, String.append_empty]
    rfl
  | cons line lines ih =>
    have hline : (logLine (line.render verbose)).ending t =
        (.ok (), { t with err := t.err ++ line.render verbose ++ "\n" }) := rfl
    rw [List.forM, ending_bind_of_ok hline, ih, List.map_cons, String.join_cons,
      String.append_assoc, String.append_assoc, String.append_assoc]

/-! ### Answers one by one -/

/-- Answers that are asked for one by one are answers all at once; the first that is none fails. -/
theorem ending_mapM_orFail (answer : γ → Except ε α) (failure : ε → Failure) (asked : List γ)
    (t : Transcript) :
    Session.ending (asked.mapM fun c => orFail (answer c) failure) t =
      ((asked.mapM answer).mapError failure, t) := by
  induction asked with
  | nil => rfl
  | cons c asked ih =>
    rw [List.mapM_cons, List.mapM_cons]
    cases hfirst : answer c with
    | error e =>
      rw [ending_bind_of_error (ending_orFail (.error e) failure t)]
      rfl
    | ok a =>
      rw [ending_bind_of_ok (ending_orFail (.ok a) failure t)]
      cases hrest : asked.mapM answer with
      | error e =>
        rw [hrest] at ih
        rw [ending_bind_of_error ih]
        rfl
      | ok rest =>
        rw [hrest] at ih
        rw [ending_bind_of_ok ih]
        rfl

end Session

namespace Report

variable {session : Session Unit} {t : Transcript} (kit : Toolkit)

theorem ofSession_of_ok (verbose : Bool) (h : session.ending {} = (.ok (), t)) :
    Report.ofSession kit verbose session = ⟨0, t⟩ := by
  rw [Session.ending] at h
  rw [Report.ofSession, h]

theorem ofSession_of_error (verbose : Bool) {failure : Failure}
    (h : session.ending {} = (.error failure, t)) :
    Report.ofSession kit verbose session =
      ⟨failure.exitCode, { t with err := t.err ++ failure.text verbose kit.plain }⟩ := by
  rw [Session.ending] at h
  rw [Report.ofSession, h]

end Report

end Chip8.Command
