import Chip8.Command.Toolkit
import Chip8.Proofs.Text.Characters
import Mathlib.Data.List.TakeWhile

/-!
# Lawful toolkits

What reads the arguments of a command may be asked for much, but a command line in which every
option is written out by its long name, with a value that it takes, leaves no choice: it sets these
options.  A toolkit that agrees is lawful, if it also prints plain texts as they are.

* `OptionSpec.Takes`: a text is a value for an option.
* `Spelled`: a command line that is written out.
* `Toolkit.Lawful`: what is assumed of a toolkit.
* `parse_of_spelled`: **a command line that is written out is read argument by argument.**
* `Toolkit.lawful_standard`: the toolkit that is at hand is lawful.
-/

namespace Chip8.Command

/-- A text is a value for an option. -/
inductive OptionSpec.Takes (spec : OptionSpec) (w : Workspace) (text : String) : Value → Prop
  | text (h : spec.kind = .text) : spec.Takes w text (.text text)
  | integer {n : Int} (h : spec.kind = .integer) (hn : Numeral.decimal? text = some n) :
      spec.Takes w text (.number n)
  | atLeast {bound n : Int} (h : spec.kind = .atLeast bound)
      (hn : Numeral.decimal? text = some n) (hbound : bound ≤ n) : spec.Takes w text (.number n)
  | outputFile (h : spec.kind = .outputFile) (hpath : w.status text ≠ .directory) :
      spec.Takes w text (.path (Path.tidy text))

/-- A command line that is written out, with what it sets and its positional arguments. -/
inductive Spelled (p : Program) (w : Workspace) :
    List String → List Setting → List String → Prop
  | nil : Spelled p w [] [] []
  | positional {text : String} {arguments inputs : List String} {settings : List Setting}
      (hdash : text.toList.head? ≠ some '-') (h : Spelled p w arguments settings inputs) :
      Spelled p w (text :: arguments) settings (text :: inputs)
  | valued (spec : OptionSpec) {text : String} {value : Value} {arguments inputs : List String}
      {settings : List Setting} (hspec : spec ∈ p.options) (htakes : spec.Takes w text value)
      (h : Spelled p w arguments settings inputs) :
      Spelled p w (("--" ++ spec.long) :: text :: arguments) (⟨spec, value⟩ :: settings) inputs
  | flag (spec : OptionSpec) {arguments inputs : List String} {settings : List Setting}
      (hspec : spec ∈ p.options) (hflag : spec.kind = .flag)
      (h : Spelled p w arguments settings inputs) :
      Spelled p w (("--" ++ spec.long) :: arguments) (⟨spec, .flag⟩ :: settings) inputs

/-- A toolkit that reads what is written out, and that prints plain texts as they are. -/
structure Toolkit.Lawful (kit : Toolkit) : Prop where
  read_of_spelled {p : Program} {w : Workspace} {arguments : List String}
    {settings : List Setting} {path : String} {data : List UInt8} :
    Spelled p w arguments settings [path] → w.status path = .file data →
    kit.read p arguments w = .ok ⟨path, settings⟩
  plain_of_lacks {text : String} : Text.Lacks text Text.escape → kit.plain text = text

/-! ### Names -/

variable {p : Program} {w : Workspace} {spec : OptionSpec} {arguments inputs : List String}
  {settings : List Setting}

theorem find?_long {specs : List OptionSpec} (h : (specs.map OptionSpec.long).Nodup)
    (hspec : spec ∈ specs) :
    (specs.find? fun s => s.long.toList == spec.long.toList) = some spec := by
  induction specs with
  | nil => cases hspec
  | cons first specs ih =>
    rw [List.map_cons, List.nodup_cons] at h
    -- names are unique, so no option before this one has its name
    rcases List.mem_cons.mp hspec with rfl | hlater
    · exact List.find?_cons_of_pos (beq_self_eq_true _)
    · refine (List.find?_cons_of_neg ?_).trans (ih h.2 hlater)
      rw [beq_iff_eq, String.toList_inj]
      exact fun heq => h.1 (heq ▸ List.mem_map_of_mem hlater)

namespace Program

theorem mem_allOptions (hspec : spec ∈ p.options) : spec ∈ p.allOptions :=
  List.mem_append_left _ hspec

theorem ne_of_mem_options (hspec : spec ∈ p.options) :
    spec ≠ versionOption ∧ spec ≠ helpOption := by
  have hnodup := p.names_nodup
  rw [List.map_append, List.nodup_append'] at hnodup
  have hapart : spec.long ∉ [versionOption, helpOption].map OptionSpec.long :=
    hnodup.2.2 (List.mem_map_of_mem hspec)
  constructor
  · rintro rfl
    exact hapart List.mem_cons_self
  · rintro rfl
    exact hapart (List.mem_cons_of_mem _ List.mem_cons_self)

end Program

namespace Arguments

theorem splitEquals_of_notMem {cs : List Char} (h : '=' ∉ cs) : splitEquals cs = (cs, none) := by
  have hall : ∀ c ∈ cs, (c != '=') = true := fun c hc => bne_iff_ne.mpr fun heq => h (heq ▸ hc)
  rw [splitEquals, List.takeWhile_eq_self_iff.mpr hall, List.dropWhile_eq_nil_iff.mpr hall]
  rfl

theorem readOption?_long (hspec : spec ∈ p.options) :
    readOption? p.allOptions ("--" ++ spec.long).toList =
      some (.ok (if spec.takesValue then ⟨[], some ⟨spec, "--" ++ spec.long⟩⟩
        else ⟨[⟨spec, ""⟩], none⟩)) := by
  have hname : ("--" ++ spec.long).toList = '-' :: '-' :: spec.long.toList := by
    rw [String.toList_append]
    rfl
  have hfind : (p.allOptions.find? fun s => s.long.toList == spec.long.toList) = some spec :=
    find?_long p.names_nodup (Program.mem_allOptions hspec)
  rw [hname, readOption?, readLong, splitEquals_of_notMem (p.isName spec hspec).2]
  simp only [hfind, String.ofList_toList]
  cases htakes : spec.takesValue with
  | false => rfl
  | true => rfl

theorem long_ne_end (hspec : spec ∈ p.options) : "--" ++ spec.long ≠ "--" := by
  intro h
  have hlist := congrArg String.toList h
  rw [String.toList_append] at hlist
  have hnone := List.append_cancel_left (hlist.trans (List.append_nil _).symm)
  exact (p.isName spec hspec).1 (String.toList_eq_nil_iff.mp hnone)

/-! ### One argument after the other -/

theorem parse_positional {specs : List OptionSpec} {text : String}
    (hdash : text.toList.head? ≠ some '-') (rest : List String) :
    parse specs (text :: rest) =
      (parse specs rest).map fun a => { a with positional := text :: a.positional } := by
  have hend : text ≠ "--" := by
    rintro rfl
    exact hdash rfl
  have hread : readOption? specs text.toList = none := by
    unfold readOption?
    split
    · next hcs =>
      rw [hcs] at hdash
      exact absurd rfl hdash
    · next hcs =>
      rw [hcs] at hdash
      exact absurd rfl hdash
    · rfl
  rw [parse, if_neg hend, hread]

/-- The name of an option that takes a value takes the next argument. -/
theorem parse_valued (hspec : spec ∈ p.options) (htakes : spec.takesValue = true) (text : String)
    (rest : List String) : parse p.allOptions (("--" ++ spec.long) :: text :: rest) =
      (parse p.allOptions rest).map (prepend [⟨spec, text⟩]) := by
  rw [parse, if_neg (long_ne_end hspec), readOption?_long hspec, if_pos htakes]
  rfl

theorem parse_flag (hspec : spec ∈ p.options) (hflag : spec.takesValue = false)
    (rest : List String) : parse p.allOptions (("--" ++ spec.long) :: rest) =
      (parse p.allOptions rest).map (prepend [⟨spec, ""⟩]) := by
  rw [parse, if_neg (long_ne_end hspec), readOption?_long hspec, if_neg (ne_true_of_eq_false hflag)]

theorem read_of_takes {text : String} {value : Value} (h : spec.Takes w text value) :
    spec.read w text = .ok value := by
  cases h with
  | text h => rw [OptionSpec.read, h]
  | integer h hn => simp only [OptionSpec.read, h, hn]
  | atLeast h hn hbound => simp only [OptionSpec.read, h, hn, if_pos hbound]
  | outputFile h hpath => simp only [OptionSpec.read, h, if_neg hpath]

theorem takesValue_of_takes {text : String} {value : Value} (h : spec.Takes w text value) :
    spec.takesValue = true := by
  cases h with
  | text h | integer h | atLeast h | outputFile h => rw [OptionSpec.takesValue, h]; rfl

/-- An option was given with a value that can be read, and is set to it. -/
structure Sets (p : Program) (w : Workspace) (g : Given) (s : Setting) : Prop where
  spec_eq : g.spec = s.spec
  mem : g.spec ∈ p.options
  read_eq : g.spec.read w g.value = .ok s.value

/-- **A command line that is written out is read argument by argument.** -/
theorem parse_of_spelled (h : Spelled p w arguments settings inputs) :
    ∃ given, parse p.allOptions arguments = .ok ⟨given, inputs⟩ ∧
      List.Forall₂ (Sets p w) given settings := by
  induction h with
  | nil => exact ⟨[], rfl, .nil⟩
  | positional hdash _ ih =>
    obtain ⟨given, hparse, hsets⟩ := ih
    exact ⟨given, by rw [parse_positional hdash, hparse]; rfl, hsets⟩
  | @valued spec text value _ _ _ hspec htakes _ ih =>
    obtain ⟨given, hparse, hsets⟩ := ih
    refine ⟨⟨spec, text⟩ :: given, ?_, .cons ⟨rfl, hspec, read_of_takes htakes⟩ hsets⟩
    rw [parse_valued hspec (takesValue_of_takes htakes), hparse]
    rfl
  | @flag spec _ _ _ hspec hflag _ ih =>
    obtain ⟨given, hparse, hsets⟩ := ih
    have hread : spec.read w "" = .ok .flag := by rw [OptionSpec.read, hflag]
    refine ⟨⟨spec, ""⟩ :: given, ?_, .cons ⟨rfl, hspec, hread⟩ hsets⟩
    rw [parse_flag hspec (by rw [OptionSpec.takesValue, hflag]; rfl), hparse]
    rfl

/-! ### All arguments -/

variable {given : List Given} {a : Arguments}

theorem exists_setting (h : List.Forall₂ (Sets p w) given settings) {g : Given} (hg : g ∈ given) :
    ∃ s, Sets p w g s := by
  induction h with
  | nil => cases hg
  | cons hfirst _ ih =>
    rcases List.mem_cons.mp hg with rfl | hlater
    · exact ⟨_, hfirst⟩
    · exact ih hlater

/-- The value that counts for an option is one that it was given. -/
theorem exists_current {g : Given} (hg : g ∈ a.options) :
    ∃ g' ∈ a.options, g'.spec = g.spec ∧ a.current g = g'.value := by
  have hmem : g ∈ a.options.filter fun g' => g'.spec == g.spec :=
    List.mem_filter.mpr ⟨hg, beq_self_eq_true _⟩
  have hne : (a.options.filter fun g' => g'.spec == g.spec).map Given.value ≠ [] :=
    List.ne_nil_of_mem (List.mem_map_of_mem hmem)
  obtain ⟨g', hg', hvalue⟩ := List.mem_map.mp (List.getLast_mem hne)
  obtain ⟨hg', hspec⟩ := List.mem_filter.mp hg'
  refine ⟨g', hg', eq_of_beq hspec, ?_⟩
  rw [current, List.getLast?_eq_some_getLast hne, Option.getD_some, hvalue]

theorem settings_of_sets {positional : List String} (h : List.Forall₂ (Sets p w) given settings) :
    Arguments.settings ⟨given, positional⟩ w = settings := by
  show given.filterMap (fun g => (g.spec.read w g.value).toOption.map (Setting.mk g.spec)) = _
  induction h with
  | nil => rfl
  | @cons g s _ _ hfirst _ ih =>
    have hone : (g.spec.read w g.value).toOption.map (Setting.mk g.spec) = some s := by
      rw [hfirst.read_eq, hfirst.spec_eq]
      rfl
    simp only [List.filterMap_cons, hone, ih]

theorem forM_eq_ok {ε α : Type} {f : α → Except ε PUnit} {l : List α}
    (h : ∀ x ∈ l, f x = .ok ⟨⟩) : l.forM f = .ok ⟨⟩ := by
  induction l with
  | nil => rfl
  | cons x l ih =>
    rw [List.forall_mem_cons] at h
    show (f x >>= fun _ => l.forM f) = _
    rw [h.1, ih h.2]
    rfl

/-- Values that can all be read are in order, in whatever order they are checked. -/
theorem check_of_sets {path : String} {data : List UInt8}
    (h : List.Forall₂ (Sets p w) given settings) (hfile : w.status path = .file data) :
    check ⟨given, [path]⟩ p w = .ok ⟨path, settings⟩ := by
  have hvalues : (given.forM fun g =>
      discard (g.spec.read w (current ⟨given, [path]⟩ g))) = .ok ⟨⟩ := by
    refine forM_eq_ok fun g hg => ?_
    obtain ⟨g', hg', hspec, hvalue⟩ := exists_current (a := ⟨given, [path]⟩) hg
    obtain ⟨s, hs⟩ := exists_setting h hg'
    rw [hvalue, ← hspec, hs.read_eq]
    rfl
  have hinput : inputFile ⟨given, [path]⟩ p w = .ok path := by
    simp only [inputFile, hfile]
  have hmore : refuseMore ⟨given, [path]⟩ = .ok () := rfl
  rw [check, hvalues, hinput, hmore, settings_of_sets h]
  rfl

end Arguments

theorem Toolkit.lawful_standard : Toolkit.standard.Lawful where
  read_of_spelled := by
    intro p w arguments settings path data hspelled hfile
    obtain ⟨given, hparse, hsets⟩ := Arguments.parse_of_spelled hspelled
    have hanswer : p.answer? ⟨given, [path]⟩ = none := by
      rw [Program.answer?, Option.map_eq_none_iff, List.find?_eq_none]
      intro g hg
      obtain ⟨s, hs⟩ := Arguments.exists_setting hsets hg
      simp [Program.ne_of_mem_options hs.mem]
    show Program.read p arguments w = _
    rw [Program.read, hparse]
    simp only [hanswer, Arguments.check_of_sets hsets hfile]
    rfl
  plain_of_lacks := Text.plain_of_lacks

end Chip8.Command
