import Chip8.Proofs.Command.CommandLine
import Chip8.Proofs.Command.Printed
import Chip8.Proofs.Emulator.ColdStart

/-!
# The runner from end to end

The runner reads its keys, puts its settings together, loads the program into an emulator that
starts over, makes the frames with the keys held, and prints.  Where one of these fails the rest is
left out, and since printing comes last, a run that fails has printed nothing.

A library that is given the same settings, program, keys and frames comes to the same end: with a
seed, an emulator that starts over is a new one, and what a quiet run says on the way changes
nothing.

* `Run.configOf`, `Run.libraryRun`: the settings of a run, and the frames that it asks for.
* `ending_session`: **the session of a quiet run ends with its load, with its frames, or with what
  it prints in the end.**
* `command_of_keys`: **its report**, `command_of_no_key`: **and that of a run with a text that is
  no key.**
* `runner_shows_library_run`: all of this together.
-/

namespace Chip8

open Text

/-! ### The session of a run -/

namespace Command.Run

open Session

variable {kit : Toolkit} {α : Type} {canvas : Canvas α} {request : Request} {o : Options}
  {data : List UInt8} {keys : List Key}

/-- The settings of a run: those of the environment, except for what the options set. -/
def configOf (o : Options) (request : Request) : Config :=
  overriding o.cycles o.seed (Config.ofEnvironment request.environment).1

/-- The load with which a run starts. -/
def loading (o : Options) (request : Request) (data : List UInt8) : Reply Emulator.RomError Unit :=
  (Emulator.fresh (configOf o request) request.entropy).loadRom o.path (some data) true
    request.entropy

def running (o : Options) (request : Request) (data : List UInt8) (keys : List Key) :
    Reply Error Nat :=
  (loading o request data).emulator.runHolding keys o.frames.toNat

theorem ending_keys (hkeys : o.keys.mapM parseKey = .ok keys) (t : Transcript) :
    Session.ending (o.keys.mapM fun text => orFail (parseKey text) fun e => .request e.message) t =
      (.ok keys, t) := by
  rw [ending_mapM_orFail, hkeys]
  rfl

/-- A program that does not fit is not loaded, and nothing is said but which file was read. -/
theorem loading_of_gt (h : Memory.programCapacity < data.length) :
    loading o request data =
      ⟨.error (.load (.loadTooLarge data.length Memory.programCapacity)),
        Emulator.fresh (configOf o request) request.entropy,
        [⟨.debug, .emulator, "Reading ROM " ++ o.path⟩]⟩ := by
  rw [loading, Emulator.loadRom, Emulator.load_of_gt true _ h]
  rfl

/-- With a seed, a load that starts over is a load into a new emulator. -/
theorem loading_of_le (h : data.length ≤ Memory.programCapacity) {seed : Int}
    (hseed : (configOf o request).seed = some seed) (entropy : Int) :
    (loading o request data).answer = .ok () ∧
      (loading o request data).emulator =
        ((Emulator.fresh (configOf o request) entropy).load data false).emulator := by
  have hstart :
      (Emulator.fresh (configOf o request) request.entropy).startedOver true request.entropy =
        (Emulator.fresh (configOf o request) entropy).startedOver false 0 :=
    Emulator.fresh_eq_of_seed hseed request.entropy entropy
  rw [loading, Emulator.loadRom, Emulator.load_of_le true _ h, Emulator.load_of_le false 0 h,
    hstart]
  exact ⟨rfl, rfl⟩

theorem level_of_mem_loading {line : LogLine} (h : line ∈ (loading o request data).log) :
    line.level = .debug ∨ line.level = .info := by
  by_cases hfits : data.length ≤ Memory.programCapacity
  · rw [loading, Emulator.loadRom, Emulator.load_of_le true _ hfits] at h
    simp only [Reply.mapError, if_true, List.cons_append, List.nil_append, List.mem_cons,
      List.not_mem_nil, or_false] at h
    rcases h with rfl | rfl | rfl | rfl
    · exact .inl rfl
    · exact .inl rfl
    · exact .inl rfl
    · exact .inr rfl
  · rw [loading_of_gt (Nat.not_le.mp hfits), List.mem_singleton] at h
    rw [h]
    exact .inl rfl

/-- The note of a run that ends with an instruction waiting for a key. -/
def waitingNote : String := "Waiting for a key press"

/-- What a quiet run without a picture prints in the end. -/
def printed (registers : Bool) (run : Reply Error Nat) : Transcript where
  out := run.emulator.machine.display.plainText ++ "\n" ++
    if registers then registerText run.emulator.machine ++ "\n" else ""
  err := shownText false run.log ++
    if run.emulator.machine.isAwaitingKey then waitingNote ++ "\n" else ""

theorem ending_print_of_lacks (hkit : kit.Lawful) {text : String} (h : Lacks text escape)
    (t : Transcript) : (kit.print (text ++ "\n")).ending t =
      (.ok (), { t with out := t.out ++ (text ++ "\n") }) := by
  have hline : Lacks (text ++ "\n") escape := h.append (by decide)
  rw [ending_print, hkit.plain_of_lacks hline]

/-- A run ends with its display, with its registers if they are asked for, and with a note if an
instruction waits. -/
theorem ending_printed (hkit : kit.Lawful) (registers : Bool) (m : Machine) (line : String)
    (t : Transcript) : Session.ending (do
      kit.print (m.display.plainText ++ "\n")
      if registers then kit.print (registerText m ++ "\n")
      if m.isAwaitingKey then kit.note waitingNote
      kit.noteIf false line) t =
      (.ok (), { t with
        out := t.out ++ (m.display.plainText ++ "\n") ++
          if registers then registerText m ++ "\n" else ""
        err := t.err ++ if m.isAwaitingKey then waitingNote ++ "\n" else "" }) := by
  have hnote : ∀ t, Session.ending (do
      if m.isAwaitingKey then kit.note waitingNote
      kit.noteIf false line) t =
      (.ok (), { t with
        err := t.err ++ if m.isAwaitingKey then waitingNote ++ "\n" else "" }) := by
    intro t
    have hplain : Lacks (waitingNote ++ "\n") escape := by decide
    cases m.isAwaitingKey with
    | false =>
      rw [if_neg Bool.false_ne_true, if_neg Bool.false_ne_true, String.append_empty]
      rfl
    | true =>
      rw [if_pos rfl, if_pos rfl, ending_bind_of_ok (ending_note kit _ _), hkit.plain_of_lacks hplain]
      rfl
  rw [ending_bind_of_ok (ending_print_of_lacks hkit m.display.lacks_plainText _)]
  cases registers with
  | false =>
    rw [if_neg Bool.false_ne_true, if_neg Bool.false_ne_true, String.append_empty]
    exact hnote _
  | true =>
    rw [if_pos rfl, if_pos rfl, ending_bind_of_ok
      (ending_print_of_lacks hkit (lacks_registerText _) _)]
    exact hnote _

/-- **The session of a quiet run without a picture** ends with its load, with its frames, or with
what it prints in the end. -/
theorem ending_session (hkit : kit.Lawful) (hdata : o.contents = .ok data)
    (hquiet : o.verbose = false) (hpicture : o.screenshot = none)
    (hkeys : o.keys.mapM parseKey = .ok keys) :
    (session kit canvas o request).ending {} =
      match (loading o request data).answer, (running o request data keys).answer with
      | .error err, _ => (.error (romFailure err), {})
      | .ok (), .error err =>
        (.error (.machine err), { err := shownText false (running o request data keys).log })
      | .ok (), .ok _ => (.ok (), printed o.showRegisters (running o request data keys)) := by
  -- nothing of the log is shown before the frames: only warnings and worse are, and there are none
  have hquietStart : ∀ line ∈ (Config.ofEnvironment request.environment).2 ++
      [⟨.debug, .runner, "Using " ++ (configOf o request).text⟩],
      line.level = .debug ∨ line.level = .info := by
    intro line hline
    rcases List.mem_append.mp hline with hline | hline
    · exact .inl (Config.level_of_mem_ofEnvironment hline)
    · rw [List.mem_singleton] at hline
      exact .inl (by rw [hline])
  have hloading : (Emulator.fresh (configOf o request) request.entropy).loadRom o.path
      o.contents.toOption true request.entropy = loading o request data := by
    rw [hdata]
    rfl
  have hrunning : (loading o request data).emulator.runHolding keys o.frames.toNat =
      running o request data keys := rfl
  rw [configOf] at hquietStart hloading
  rw [session, ending_bind_of_ok (ending_keys hkeys {}), hquiet, hpicture]
  generalize Config.ofEnvironment request.environment = settings at hquietStart hloading ⊢
  obtain ⟨env, log⟩ := settings
  dsimp only at hquietStart hloading ⊢
  rw [hloading, hrunning, ending_bind_of_ok (ending_showLog _ _ _), shownText_eq_empty hquietStart,
    ending_bind_of_ok (ending_showLog _ _ _), shownText_eq_empty fun _ => level_of_mem_loading]
  generalize loading o request data = load
  generalize running o request data keys = run
  cases hload : load.answer with
  | error err =>
    rw [ending_bind_of_error (ending_orFail (.error err) romFailure _)]
    rfl
  | ok answer =>
    rw [ending_bind_of_ok (ending_orFail (.ok answer) romFailure _),
      ending_bind_of_ok (ending_showLog _ _ _)]
    simp only [String.append_empty, String.empty_append]
    cases hrun : run.answer with
    | error err => rw [ending_bind_of_error (ending_orFail (.error err) Failure.machine _)]
    | ok steps =>
      rw [ending_bind_of_ok (ending_orFail (.ok steps) Failure.machine _)]
      refine (ending_printed hkit o.showRegisters run.emulator.machine _ _).trans ?_
      simp only [printed, String.empty_append]

/-! ### The report of a run -/

theorem parseKey_eq_ok_iff {text : String} {key : Key} :
    parseKey text = .ok key ↔ Numeral.hexadecimal? text = some (key.val : Int) := by
  rw [parseKey]
  cases Numeral.hexadecimal? text with
  | none => simp
  | some n =>
    simp only [Word.nibble?]
    by_cases hn : 0 ≤ n ∧ n < 16
    · rw [dif_pos hn]
      simp only [Except.ok.injEq, Option.some.injEq, Fin.ext_iff]
      omega
    · rw [dif_neg hn]
      simp only [reduceCtorEq, false_iff, Option.some.injEq]
      have := key.isLt
      omega

theorem mapM_parseKey {texts : List String}
    (h : List.Forall₂ (fun text (key : Key) => Numeral.hexadecimal? text = some (key.val : Int))
      texts keys) : texts.mapM parseKey = .ok keys := by
  induction h with
  | nil => rfl
  | cons htext _ ih =>
    rw [List.mapM_cons, parseKey_eq_ok_iff.mpr htext, ih]
    rfl

theorem mapM_parseKey_of_notMem {texts : List String}
    (h : ∃ text ∈ texts, ∀ key : Key, Numeral.hexadecimal? text ≠ some (key.val : Int)) :
    ∃ text ∈ texts, ∃ err, parseKey text = .error err ∧ texts.mapM parseKey = .error err := by
  induction texts with
  | nil =>
    obtain ⟨text, htext, -⟩ := h
    cases htext
  | cons first texts ih =>
    rw [List.mapM_cons]
    cases hfirst : parseKey first with
    | error err => exact ⟨first, List.mem_cons_self, err, hfirst, rfl⟩
    | ok key =>
      obtain ⟨bad, hbad, hnone⟩ := h
      rcases List.mem_cons.mp hbad with rfl | hlater
      · exact absurd (parseKey_eq_ok_iff.mp hfirst) (hnone key)
      · obtain ⟨text, htext, err, herr, hrest⟩ := ih ⟨bad, hlater, hnone⟩
        exact ⟨text, List.mem_cons_of_mem first htext, err, herr, by rw [hrest]; rfl⟩

/-- The frames that a run asks for, made by the library on an emulator of its own. -/
def libraryRun (config : Config) (entropy : Int) (data : List UInt8) (keys : List Key)
    (frames : Nat) : Reply Error Nat :=
  ((Emulator.fresh config entropy).load data false).emulator.runHolding keys frames

/-- A report shows the state that some frames have led to. -/
structure Shows (report : Report) (registers : Bool) (run : Reply Error Nat) : Prop where
  exitCode_eq : report.exitCode = 0
  out_eq : report.transcript.out = run.emulator.machine.display.plainText ++ "\n" ++
    if registers then registerText run.emulator.machine ++ "\n" else ""
  lines : ∃ lines : List String, run.emulator.machine.display.plainText = "\n".intercalate lines ∧
    lines.length = 32 ∧ ∀ line ∈ lines, line.length = 64 ∧ ∀ c ∈ line.toList, c = '#' ∨ c = '.'
  note_iff : waitingNote.toList <:+: report.transcript.err.toList ↔
    run.emulator.machine.isAwaitingKey = true
  written_eq : report.transcript.written = []

theorem shows_printed {run : Reply Error Nat} {steps : Nat} (hrun : Emulator.RunsOn run)
    (hanswer : run.answer = .ok steps) (registers : Bool) :
    Shows ⟨0, printed registers run⟩ registers run where
  exitCode_eq := rfl
  out_eq := rfl
  lines := ⟨run.emulator.machine.display.lines, rfl, Display.length_lines _,
    fun _ hline => Display.line_shape hline⟩
  note_iff := by
    have hlog : Lacks (shownText false run.log) 'k' :=
      lacks_shownText (hrun.remarks steps hanswer)
    show waitingNote.toList <:+: (shownText false run.log ++
      if run.emulator.machine.isAwaitingKey then waitingNote ++ "\n" else "").toList ↔ _
    cases run.emulator.machine.isAwaitingKey with
    | false =>
      rw [if_neg Bool.false_ne_true, String.append_empty]
      refine iff_of_false (fun hnote => hlog (hnote.subset ?_)) Bool.false_ne_true
      decide
    | true =>
      rw [if_pos rfl, String.toList_append, String.toList_append]
      exact iff_of_true ⟨_, _, List.append_assoc _ _ _⟩ rfl
  written_eq := rfl

/-- **The report of a quiet run without a picture.** -/
theorem command_of_keys (hkit : kit.Lawful) (hasks : Asks kit request o data)
    (hquiet : o.verbose = false) (hpicture : o.screenshot = none) {seed : Int}
    (hseed : (configOf o request).seed = some seed) (entropy : Int)
    (hkeys : o.keys.mapM parseKey = .ok keys) {run : Reply Error Nat}
    (hrun : run = libraryRun (configOf o request) entropy data keys o.frames.toNat) :
    (3584 < data.length ∨ (∃ fault, run.answer = .error (.execution fault)) →
      (command kit canvas request).exitCode = 1 ∧
        (command kit canvas request).transcript.out = "") ∧
    (¬ (3584 < data.length ∨ ∃ fault, run.answer = .error (.execution fault)) →
      Shows (command kit canvas request) o.showRegisters run) := by
  have hending : (session kit canvas o request).ending {} = _ :=
    ending_session hkit hasks.contents_eq hquiet hpicture hkeys
  rw [command_of_asks hasks]
  by_cases hlong : 3584 < data.length
  · rw [loading_of_gt hlong] at hending
    rw [Report.ofSession_of_error _ _ hending]
    exact ⟨fun _ => ⟨rfl, rfl⟩, fun h => absurd (.inl hlong) h⟩
  · obtain ⟨hload, hemulator⟩ := loading_of_le (Nat.not_lt.mp hlong) hseed entropy
    -- with a seed the entropy does not matter, so the session has the run of the library
    have hsame : running o request data keys = run := by
      rw [running, hemulator, hrun]
      rfl
    have hhalt : (loading o request data).emulator.halt = none := by
      rw [hemulator, Emulator.load_of_le false 0 (Nat.not_lt.mp hlong)]
      rfl
    have hruns : Emulator.RunsOn run := by
      rw [← hsame]
      exact Emulator.runsOn_runHolding keys _ hhalt
    rw [hload, hsame] at hending
    cases hanswer : run.answer with
    | error err =>
      obtain ⟨fault, rfl⟩ := hruns.fault err hanswer
      rw [hanswer] at hending
      rw [Report.ofSession_of_error _ _ hending]
      exact ⟨fun _ => ⟨rfl, rfl⟩, fun h => absurd (.inr ⟨fault, rfl⟩) h⟩
    | ok steps =>
      rw [hanswer] at hending
      rw [Report.ofSession_of_ok _ _ hending]
      refine ⟨?_, fun _ => shows_printed hruns hanswer _⟩
      rintro (h | ⟨fault, h⟩)
      · exact absurd h hlong
      · cases h

/-- **A run with a text that is no key** fails before anything else. -/
theorem command_of_no_key (hasks : Asks kit request o data)
    (h : ∃ text ∈ o.keys, ∀ key : Key, Numeral.hexadecimal? text ≠ some (key.val : Int)) :
    ∃ text ∈ o.keys, ∃ err, parseKey text = .error err ∧ command kit canvas request =
      ⟨2, { err := kit.plain ("Error: " ++ err.message ++ "\n") }⟩ := by
  obtain ⟨text, htext, err, herr, hkeys⟩ := mapM_parseKey_of_notMem h
  refine ⟨text, htext, err, herr, ?_⟩
  have hread : Session.ending
      (o.keys.mapM fun text => orFail (parseKey text) fun e => .request e.message) {} =
      (.error (.request err.message), {}) := by
    rw [ending_mapM_orFail, hkeys]
    rfl
  have hending : (session kit canvas o request).ending {} =
      (.error (.request err.message), {}) := by
    rw [session, ending_bind_of_error hread]
  rw [command_of_asks hasks, Report.ofSession_of_error _ _ hending]
  simp [Failure.text, Failure.exitCode]

/-- **The runner shows what the library leads to**, with any lawful toolkit and any canvas.  A quiet
run that takes no picture fails, and prints nothing, exactly if the program does not fit or a step
faults; otherwise it shows the state that the same frames lead to in an emulator with the same
settings.  A text that is no key fails the run before anything else. -/
theorem runner_shows_library_run (kit : Toolkit) (hkit : kit.Lawful) {α : Type}
    (canvas : Canvas α) :
    (∀ (request : Request) (path frames cycles seed : String) (keys : List String)
      (registers : Bool) (data : List UInt8) (n c s : Int), path.toList.head? ≠ some '-' →
      request.arguments = commandLine path frames cycles seed keys registers →
      request.workspace.status path = .file data →
      Numeral.decimal? frames = some n → 0 ≤ n → Numeral.decimal? cycles = some c → 1 ≤ c →
      Numeral.decimal? seed = some s →
      Asks kit request (optionsOf path data n c s keys registers) data ∧
        (configOf (optionsOf path data n c s keys registers) request).cyclesPerFrame = c.toNat ∧
        (configOf (optionsOf path data n c s keys registers) request).seed = some s) ∧
    (∀ (request : Request) (o : Options) (data : List UInt8) (seed entropy : Int)
      (keys : List Key) (run : Reply Error Nat), Asks kit request o data → o.verbose = false →
      o.screenshot = none → (configOf o request).seed = some seed →
      List.Forall₂ (fun text (key : Key) => Numeral.hexadecimal? text = some (key.val : Int))
        o.keys keys →
      run = libraryRun (configOf o request) entropy data keys o.frames.toNat →
      ((command kit canvas request).exitCode = 1 ∧
          (command kit canvas request).transcript.out = "" ↔
        3584 < data.length ∨ ∃ fault, run.answer = .error (.execution fault)) ∧
      (¬ (3584 < data.length ∨ ∃ fault, run.answer = .error (.execution fault)) →
        Shows (command kit canvas request) o.showRegisters run)) ∧
    (∀ (request : Request) (o : Options) (data : List UInt8), Asks kit request o data →
      (∃ text ∈ o.keys, ∀ key : Key, Numeral.hexadecimal? text ≠ some (key.val : Int)) →
      ∃ text ∈ o.keys, ∃ err, parseKey text = .error err ∧ command kit canvas request =
        ⟨2, { err := kit.plain ("Error: " ++ err.message ++ "\n") }⟩) := by
  refine ⟨?_, ?_, fun request o data hasks hkeys => command_of_no_key hasks hkeys⟩
  · intro request path frames cycles seed keys registers data n c s hpath hargs hfile hframes hn
      hcycles hc hseed
    refine ⟨asks_commandLine hkit keys registers hpath hargs hfile hframes hn hcycles hc hseed,
      ?_, rfl⟩
    exact if_pos (show 0 < c by omega)
  · intro request o data seed entropy keys run hasks hquiet hpicture hseed hkeys hrun
    obtain ⟨hfails, hshows⟩ :=
      command_of_keys hkit hasks hquiet hpicture hseed entropy (mapM_parseKey hkeys) hrun
    refine ⟨⟨fun hone => ?_, hfails⟩, hshows⟩
    by_contra hgood
    cases hone.1.symm.trans (hshows hgood).exitCode_eq

/-- A command line that runs a program of one word for one frame, with a key held. -/
def requestOf (w : UInt16) (key : String) : Request where
  arguments := commandLine "rom.ch8" "1" "1" "0" [key] true
  workspace := ⟨fun _ => .file (Word.bytes w)⟩
  environment := []
  entropy := 7

/-- The options of such a command line. -/
def wordOptions (w : UInt16) (key : String) : Options :=
  optionsOf "rom.ch8" (Word.bytes w) 1 1 0 [key] true

theorem libraryRun_word {config : Config} (hseed : config.seed = some 0) (keys : List Key) :
    (libraryRun config 0 (Word.bytes 0xF00A) keys 1).answer = .ok 1 ∧
      (libraryRun config 0 (Word.bytes 0xF00A) keys 1).emulator.machine.isAwaitingKey = true ∧
      ∃ fault, (libraryRun config 0 (Word.bytes 0x00EE) keys 1).answer =
        .error (.execution fault) := by
  have hframe : ∀ w, libraryRun config 0 (Word.bytes w) keys 1 =
      (((Emulator.fresh config 0).withMachine (.atWord w)).hearing
        (keys.flatMap WaitEvent.hold)).frame := by
    intro w
    rw [libraryRun, Emulator.emulator_load_bytes hseed, Emulator.runHolding_one rfl,
      Emulator.holdAll_eq_hearing]
  rw [hframe, hframe]
  obtain ⟨hone, hmachine⟩ := Emulator.frame_of_awaitKey
    (e := ((Emulator.fresh config 0).withMachine (.atWord 0xF00A)).hearing
      (keys.flatMap WaitEvent.hold)) rfl rfl (Machine.nextWord?_atWord 0xF00A) (by decide)
    (by decide)
  refine ⟨hone, ?_, ?_⟩
  · rw [hmachine]
    rfl
  · rw [← Emulator.runFrames_one]
    exact ⟨_, Emulator.runFrames_of_fault
      (e := ((Emulator.fresh config 0).withMachine (.atWord 0x00EE)).hearing
        (keys.flatMap WaitEvent.hold)) rfl
      (Machine.step_of_refuses rfl (Machine.nextWord?_atWord 0x00EE) (.ret rfl)) 0⟩

/-- A program that waits for a key, one that returns without a call, and a key that is none. -/
theorem runner_shows_library_run_requestOf :
    ((carryOut (requestOf 0xF00A "5")).exitCode = 0 ∧
      waitingNote.toList <:+: (carryOut (requestOf 0xF00A "5")).transcript.err.toList) ∧
    ((carryOut (requestOf 0x00EE "5")).exitCode = 1 ∧
      (carryOut (requestOf 0x00EE "5")).transcript.out = "") ∧
    (carryOut (requestOf 0xF00A "g")).exitCode = 2 := by
  rw [carryOut]
  obtain ⟨hline, hruns, hnokey⟩ :=
    runner_shows_library_run .standard Toolkit.lawful_standard Image.canvas
  have hasks : ∀ w key, Asks .standard (requestOf w key) (wordOptions w key) (Word.bytes w) :=
    fun w key => (hline (requestOf w key) "rom.ch8" "1" "1" "0" [key] true (Word.bytes w) 1 1 0
      (by decide) rfl rfl (by decide) (by decide) (by decide) (by decide) (by decide)).1
  have hkeys : List.Forall₂ (fun text (key : Key) =>
      Numeral.hexadecimal? text = some (key.val : Int)) ["5"] [5] := .cons (by decide) .nil
  have hseed : ∀ w, (configOf (wordOptions w "5") (requestOf w "5")).seed = some 0 := fun _ => rfl
  have hrun := fun w => hruns (requestOf w "5") (wordOptions w "5") (Word.bytes w) 0 0 [5]
    (libraryRun (configOf (wordOptions w "5") (requestOf w "5")) 0 (Word.bytes w) [5] 1)
    (hasks w "5") rfl rfl (hseed w) hkeys rfl
  refine ⟨?_, ?_, ?_⟩
  · obtain ⟨hone, hwaits, -⟩ := libraryRun_word (hseed 0xF00A) [5]
    have hshown := (hrun 0xF00A).2 ?_
    · exact ⟨hshown.exitCode_eq, hshown.note_iff.mpr hwaits⟩
    · rintro (hlong | ⟨fault, hfault⟩)
      · exact absurd hlong (by decide)
      · cases hone.symm.trans hfault
  · obtain ⟨-, -, hfault⟩ := libraryRun_word (hseed 0x00EE) [5]
    exact (hrun 0x00EE).1.mpr (.inr hfault)
  · have hnone : Numeral.hexadecimal? "g" = none := by decide
    obtain ⟨text, -, err, -, hreport⟩ := hnokey _ _ _ (hasks 0xF00A "g")
      ⟨"g", List.mem_cons_self, fun key => hnone ▸ (Option.some_ne_none _).symm⟩
    rw [hreport]

end Command.Run

end Chip8
