import Chip8.Command.Run
import Chip8.Proofs.Command.Toolkits

/-!
# What a command line asks for

What the runner does depends on its arguments only through the options that they set.  A command
line that is written out sets those that are on it, and leaves the others to their defaults.

* `Run.Asks`: a request asks for a run with some options.
* `command_of_asks`: **then the command is the session of these options.**
* `Run.commandLine`: a command line that sets the frames, the cycles, the seed and the keys.
* `asks_commandLine`: **it asks for just these.**
-/

namespace Chip8.Command

namespace Settings

/-! ### The values of an option -/

theorem values_cons (setting : Setting) (options : List Setting) (input : String)
    (spec : OptionSpec) : values ⟨input, setting :: options⟩ spec =
      (if setting.spec = spec then [setting.value] else []) ++ values ⟨input, options⟩ spec := by
  rw [values, values, List.filter_cons]
  by_cases hspec : setting.spec = spec
  · simp [hspec]
  · simp [hspec]

theorem values_append (options options' : List Setting) (input : String) (spec : OptionSpec) :
    values ⟨input, options ++ options'⟩ spec =
      values ⟨input, options⟩ spec ++ values ⟨input, options'⟩ spec := by
  rw [values, values, values, List.filter_append, List.map_append]

theorem values_map (values' : List Value) (input : String) (spec spec' : OptionSpec) :
    values ⟨input, values'.map (Setting.mk spec)⟩ spec' =
      if spec = spec' then values' else [] := by
  induction values' with
  | nil => exact (ite_self _).symm
  | cons value values' ih =>
    rw [List.map_cons, values_cons, ih]
    split
    · rfl
    · rfl

end Settings

namespace Run

variable {kit : Toolkit} {α : Type} {canvas : Canvas α} {request : Request} {o : Options}
  {data : List UInt8}

/-- The arguments ask for a run of a program with these options, and for nothing else. -/
structure Asks (kit : Toolkit) (request : Request) (o : Options) (data : List UInt8) : Prop where
  read_eq : ∃ settings, kit.read program request.arguments request.workspace = .ok settings ∧
    o = .ofSettings settings request.workspace
  contents_eq : o.contents = .ok data

/-- **The command is the session of the options that it is asked for.** -/
theorem command_of_asks (h : Asks kit request o data) :
    command kit canvas request = .ofSession kit o.verbose (session kit canvas o request) := by
  obtain ⟨settings, hread, rfl⟩ := h.read_eq
  rw [command, hread]

/-! ### A command line in full -/

/-- A command line that runs a program, with the keys to hold one by one. -/
def commandLine (path frames cycles seed : String) (keys : List String) (registers : Bool) :
    List String :=
  path :: "--frames" :: frames :: "--cycles-per-frame" :: cycles :: "--seed" :: seed ::
    (keys.flatMap (fun key => ["--key", key]) ++ if registers then ["--registers"] else [])

/-- What such a command line sets, in order. -/
def settingsOf (n c s : Int) (keys : List String) (registers : Bool) : List Setting :=
  ⟨framesOption, .number n⟩ :: ⟨cyclesOption, .number c⟩ :: ⟨seedOption, .number s⟩ ::
    ((keys.map Value.text).map (Setting.mk keyOption) ++
      if registers then [⟨registersOption, .flag⟩] else [])

variable {w : Workspace} {path frames cycles seed : String} {n c s : Int}

theorem spelled_keys (w : Workspace) (keys : List String) (registers : Bool) :
    Spelled program w
      (keys.flatMap (fun key => ["--key", key]) ++ if registers then ["--registers"] else [])
      ((keys.map Value.text).map (Setting.mk keyOption) ++
        if registers then [⟨registersOption, .flag⟩] else []) [] := by
  induction keys with
  | nil =>
    cases registers with
    | false => exact .nil
    | true => exact .flag registersOption (by decide) rfl .nil
  | cons key keys ih => exact .valued keyOption (by decide) (.text rfl) ih

theorem spelled_commandLine (keys : List String) (registers : Bool)
    (hpath : path.toList.head? ≠ some '-') (hframes : Numeral.decimal? frames = some n)
    (hn : 0 ≤ n) (hcycles : Numeral.decimal? cycles = some c) (hc : 1 ≤ c)
    (hseed : Numeral.decimal? seed = some s) :
    Spelled program w (commandLine path frames cycles seed keys registers)
      (settingsOf n c s keys registers) [path] := by
  refine .positional hpath ?_
  refine .valued framesOption (by decide) (.atLeast rfl hframes hn) ?_
  refine .valued cyclesOption (by decide) (.atLeast rfl hcycles hc) ?_
  exact .valued seedOption (by decide) (.integer rfl hseed) (spelled_keys w keys registers)

theorem values_settingsOf (input : String) (keys : List String) (registers : Bool)
    (spec : OptionSpec) :
    Settings.values ⟨input, settingsOf n c s keys registers⟩ spec =
      (if framesOption = spec then [.number n] else []) ++
        ((if cyclesOption = spec then [.number c] else []) ++
          ((if seedOption = spec then [.number s] else []) ++
            ((if keyOption = spec then keys.map .text else []) ++
              if registersOption = spec ∧ registers = true then [.flag] else []))) := by
  have hnone : Settings.values ⟨input, []⟩ spec = [] := rfl
  rw [settingsOf, Settings.values_cons, Settings.values_cons, Settings.values_cons,
    Settings.values_append, Settings.values_map]
  cases registers with
  | false => simp [hnone]
  | true =>
    rw [if_pos rfl, Settings.values_cons, hnone, List.append_nil]
    simp

/-- The options that such a command line sets. -/
def optionsOf (path : String) (data : List UInt8) (frames cycles seed : Int) (keys : List String)
    (registers : Bool) : Options where
  path := Path.tidy path
  contents := .ok data
  frames := frames
  cycles := some cycles
  seed := some seed
  keys := keys
  screenshot := none
  scale := 8
  showRegisters := registers
  verbose := false

theorem ofSettings_settingsOf (hfile : w.status path = .file data) (keys : List String)
    (registers : Bool) : Options.ofSettings ⟨path, settingsOf n c s keys registers⟩ w =
      optionsOf path data n c s keys registers := by
  have hcontents : w.contents path = .ok data := by simp only [Workspace.contents, hfile]
  have htexts : (keys.map Value.text).filterMap Value.text? = keys := by
    rw [List.filterMap_map]
    exact List.filterMap_some
  rw [Options.ofSettings, optionsOf, hcontents]
  simp only [Settings.number?, Settings.texts, Settings.path?, Settings.last?, Settings.has,
    values_settingsOf]
  cases registers with
  | false => simp +decide [htexts, Value.number?]
  | true => simp +decide [htexts, Value.number?]

/-- **Such a command line asks for a run with just these options.** -/
theorem asks_commandLine (hkit : kit.Lawful) (keys : List String) (registers : Bool)
    (hpath : path.toList.head? ≠ some '-')
    (hargs : request.arguments = commandLine path frames cycles seed keys registers)
    (hfile : request.workspace.status path = .file data)
    (hframes : Numeral.decimal? frames = some n) (hn : 0 ≤ n)
    (hcycles : Numeral.decimal? cycles = some c) (hc : 1 ≤ c)
    (hseed : Numeral.decimal? seed = some s) :
    Asks kit request (optionsOf path data n c s keys registers) data := by
  have hspelled : Spelled program request.workspace request.arguments _ [path] :=
    hargs ▸ spelled_commandLine keys registers hpath hframes hn hcycles hc hseed
  exact ⟨⟨_, hkit.read_of_spelled hspelled hfile, (ofSettings_settingsOf hfile keys registers).symm⟩,
    rfl⟩

end Run

end Chip8.Command
