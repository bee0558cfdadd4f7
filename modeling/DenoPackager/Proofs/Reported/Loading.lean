import DenoPackager.Configuration.Source
import DenoPackager.Proofs.Confinement.Waypoints
import DenoPackager.Proofs.Reported.Configuration

/-!
# How a configuration is loaded

Loading a configuration changes nothing. A text that is no JSON is reported, and so is a file that
is not there or is a directory. Three things are faults instead: a file name that no file can have,
a file that is not UTF-8, and an integer with more than 4300 digits in a text that is in order up to
there.

## Main definitions

* `Configuration.sourced`, `Configuration.loaded`: what loading comes to in a workspace.
* `Configuration.Unread`: files that are not read, without a problem.
* `Json.HoldsOversized`: texts with an integer that has too many digits.

## Main results

* `Configuration.isFault_loaded_iff`: what is not reported.
* `Configuration.isReported_loaded`: any problem is one of the configuration.
-/

namespace DenoPackager

/-! ### Integers with too many digits -/

namespace Json

variable {s : List Char} {l : Lexeme} {ls : List Lexeme} {r : Reading}

/-- A value may come next. -/
def Reading.ExpectsValue (r : Reading) : Prop :=
  r.awaiting = .value ∨ r.awaiting = .firstItem

/-- **A text with an integer that has too many digits**, at a place where a value may stand and
behind tokens that are in order. -/
def HoldsOversized (s : List Char) : Prop :=
  ∃ before l after r, lexemes s = before ++ l :: after ∧ l.token = .oversized ∧
    parse .start before = .ok r ∧ r.ExpectsValue

/-- **One token too many**: such an integer, where a value may come next. -/
theorem step_eq_oversized_iff :
    r.step l = .error .oversized ↔ l.token = .oversized ∧ r.ExpectsValue := by
  obtain ⟨awaiting, stack⟩ := r
  obtain ⟨t, remaining⟩ := l
  cases awaiting with
  | separator =>
    cases stack with
    | nil => simp [Reading.step, Reading.ExpectsValue]
    | cons o stack => cases o <;> cases t <;> simp [Reading.step, Reading.ExpectsValue]
  | value | firstItem | firstName | name done | colon done key | finish v =>
    cases t <;> simp [Reading.step, startValue, Reading.ExpectsValue]

/-- **Where reading stops** because of an integer. -/
theorem parse_eq_oversized_iff : parse r ls = .error .oversized ↔
    ∃ before l after r', ls = before ++ l :: after ∧ l.token = .oversized ∧
      parse r before = .ok r' ∧ r'.ExpectsValue := by
  constructor
  · intro h
    induction ls generalizing r with
    | nil => exact nomatch h
    | cons l ls ih =>
      rw [parse] at h
      split at h
      · rename_i next hstep
        obtain ⟨before, k, after, r', rfl, hk, hbefore, hvalue⟩ := ih h
        refine ⟨l :: before, k, after, r', rfl, hk, ?_, hvalue⟩
        simp only [parse, hstep, hbefore]
      · rename_i e hstep
        obtain rfl := Except.error.inj h
        obtain ⟨hl, hvalue⟩ := step_eq_oversized_iff.1 hstep
        exact ⟨[], l, ls, r, rfl, hl, rfl, hvalue⟩
  · rintro ⟨before, l, after, r', rfl, hl, hbefore, hvalue⟩
    rw [parse_append, hbefore]
    have hstep := step_eq_oversized_iff.2 ⟨hl, hvalue⟩
    simp only [Except.bind, parse, hstep]

/-- Nothing begins with a byte order mark. -/
theorem lexemes_of_mark (h : s.head? = some '\uFEFF') : lexemes s = [⟨.bad, s⟩] := by
  obtain ⟨cs, rfl⟩ := List.head?_eq_some_iff.1 h
  have hgap : isGap '\uFEFF' = false := by decide
  have hpunctuation : punctuation? '\uFEFF' = none := by decide
  have hword : word? ('\uFEFF' :: cs) = none := rfl
  have hnumber : number? ('\uFEFF' :: cs) = none := rfl
  simp only [lexemes, hgap, hpunctuation, hword, Bool.false_eq_true, Char.reduceEq, if_false]
  split
  · rename_i heq
    cases hnumber.symm.trans heq
  · rfl

/-- **Which texts cannot be read because of an integer.** -/
theorem read_eq_oversized_iff : read s = .error .oversized ↔ HoldsOversized s := by
  rw [HoldsOversized, ← parse_eq_oversized_iff, read]
  split
  · rename_i hmark
    have hparse : parse .start (lexemes s) = .error (.malformed ⟨.noValue, s⟩) := by
      rw [lexemes_of_mark hmark]
      rfl
    simp [hparse]
  · split
    · rename_i hparse
      simp [hparse]
    · rename_i hparse
      simp [hparse]
    · rename_i e hparse
      rw [hparse]
      exact ⟨congrArg _ ∘ Except.error.inj, congrArg _ ∘ Except.error.inj⟩

end Json

/-! ### Files that are not read -/

namespace FileTree

variable {t : FileTree} {cwd p : Path} {f : Fault}

/-- A place is not located if no file can have its name, or the way there fails. -/
theorem of_locate_eq_error (h : t.locate cwd p = .error f) :
    p.parts.any Path.hasNul = true ∨ f = .notDirectory ∨ f = .notFound := by
  rw [locate] at h
  split at h
  · rename_i hnul
    exact .inl hnul
  · split at h
    · cases h
    · split at h
      · cases h
      · rename_i henter
        obtain rfl := Except.error.inj h
        exact .inr (enter_error henter)

/-- **Why a text is not read**, other than that no file is there: no file can have the name, or the
file is not UTF-8. -/
theorem of_readText_eq_error (h : t.readText cwd p = .error f)
    (hother : f ∉ [.notFound, .notDirectory, .isDirectory]) :
    p.parts.any Path.hasNul = true ∨
      ∃ content, t.readBytes cwd p = .ok content ∧ String.fromUTF8? content = none := by
  simp only [List.mem_cons, List.not_mem_nil, or_false, not_or] at hother
  rw [readText] at h
  split at h
  · rename_i content hcontent
    rw [textOfBytes] at h
    split at h
    · cases h
    · rename_i hnone
      exact .inr ⟨content, hcontent, hnone⟩
  · rename_i e hread
    obtain rfl := Except.error.inj h
    rw [readBytes] at hread
    split at hread
    · cases hread
    · exact absurd (Except.error.inj hread).symm hother.2.2
    · exact absurd (Except.error.inj hread).symm hother.1
    · rename_i hlocate
      obtain rfl := Except.error.inj hread
      exact .inl ((of_locate_eq_error hlocate).resolve_right fun hway =>
        hway.elim hother.2.1 hother.1)

end FileTree

namespace Configuration

variable {w : Workspace} {s text : String}

/-- The text that is meant, as it is found in a workspace. -/
def sourced (w : Workspace) (s : String) : Except Failure String :=
  if isInline s then .ok s else (w.tree.readText w.cwd (.ofString s)).mapError (fileFailure s)

/-- **What loading comes to** in a workspace. -/
def loaded (w : Workspace) (s : String) : Except Failure Members :=
  sourced w s >>= parse

theorem run_sourceText (w : Workspace) (s : String) :
    (sourceText s).run w = (sourced w s, w) := by
  rw [sourceText, sourced]
  split
  · rfl
  · rw [Action.run_bind_of_ok (Action.run_get w)]
    cases w.tree.readText w.cwd (.ofString s) <;> rfl

/-- **Loading changes nothing.** -/
theorem run_load (w : Workspace) (s : String) : (load s).run w = (loaded w s, w) := by
  have hsource := run_sourceText w s
  rw [load, loaded]
  cases htext : sourced w s with
  | error e => exact Action.run_bind_of_error (htext ▸ hsource)
  | ok text =>
    rw [Action.run_bind_of_ok (htext ▸ hsource)]
    show (Action.ofExcept (parse text)).run w = (parse text, w)
    cases parse text <;> rfl

/-- **Files that are not read**, and nobody is told: those whose name no file can have, and those
that are not UTF-8. -/
inductive Unread (w : Workspace) (s : String) : Prop where
  | noName (hfile : isInline s = false) (h : (Path.ofString s).parts.any Path.hasNul = true)
  | noText (hfile : isInline s = false) {content : ByteArray}
      (hread : w.tree.readBytes w.cwd (.ofString s) = .ok content)
      (h : String.fromUTF8? content = none)

/-- What a system says about a file that it does not open is reported, and nothing else is. -/
theorem fileFailure_cases (s : String) (f : Fault) :
    (f ∈ [.notFound, .notDirectory, .isDirectory] ∧
      ∃ reason, fileFailure s f = .problem (.unreadableConfiguration s reason)) ∨
    (f ∉ [.notFound, .notDirectory, .isDirectory] ∧ fileFailure s f = .fault f) := by
  cases f <;> simp [fileFailure]

/-- **Which sources are faults.** -/
theorem isFault_sourced_iff : IsFault (sourced w s) ↔ Unread w s := by
  rw [sourced]
  by_cases hinline : isInline s = true
  · rw [if_pos hinline]
    refine iff_of_false (by simp [IsFault]) fun h => ?_
    cases h with
    | noName hfile => simp [hinline] at hfile
    | noText hfile => simp [hinline] at hfile
  · have hfile := Bool.eq_false_iff.2 hinline
    rw [if_neg hinline]
    constructor
    · rintro ⟨f, hf⟩
      cases hread : w.tree.readText w.cwd (.ofString s) with
      | ok text =>
        rw [hread] at hf
        cases hf
      | error f' =>
        rw [hread] at hf
        have hfailure : fileFailure s f' = .fault f := Except.error.inj hf
        obtain ⟨-, reason, hreason⟩ | ⟨hother, -⟩ := fileFailure_cases s f'
        · cases hreason.symm.trans hfailure
        · obtain hnul | ⟨content, hcontent, hnone⟩ := FileTree.of_readText_eq_error hread hother
          · exact .noName hfile hnul
          · exact .noText hfile hcontent hnone
    · intro h
      cases h with
      | noName _ hnul =>
        have hread : w.tree.readText w.cwd (.ofString s) = .error .badValue := by
          simp only [FileTree.readText, FileTree.readBytes, FileTree.locate_of_hasNul hnul]
        rw [hread]
        exact ⟨_, rfl⟩
      | noText _ hcontent hnone =>
        have hread : w.tree.readText w.cwd (.ofString s) = .error .undecodable := by
          simp only [FileTree.readText, FileTree.textOfBytes, hcontent, hnone]
        rw [hread]
        exact ⟨_, rfl⟩

/-- A file that cannot be opened is reported. -/
theorem isReported_sourced (w : Workspace) (s : String) : IsReported (sourced w s) := by
  intro p hp
  rw [sourced] at hp
  split at hp
  · exact nomatch hp
  · cases hread : w.tree.readText w.cwd (.ofString s) with
    | ok text =>
      rw [hread] at hp
      exact nomatch hp
    | error f =>
      rw [hread] at hp
      have hfailure : fileFailure s f = .problem p := Except.error.inj hp
      obtain ⟨-, reason, hreason⟩ | ⟨-, hfault⟩ := fileFailure_cases s f
      · obtain rfl := Failure.problem.inj (hreason.symm.trans hfailure)
        exact isOfConfiguration_of_kind rfl
      · exact nomatch hfault.symm.trans hfailure

/-- **Which texts are faults.** -/
theorem isFault_parse_iff : IsFault (parse text) ↔ Json.HoldsOversized text.toList := by
  rw [← Json.read_eq_oversized_iff, parse]
  split
  all_goals
    rename_i hread
    simp [IsFault, hread]

/-- A text that is no JSON object is reported. -/
theorem isReported_parse (text : String) : IsReported (parse text) := by
  intro p hp
  rw [parse] at hp
  split at hp
  · exact nomatch hp
  · obtain rfl := Failure.problem.inj (Except.error.inj hp)
    exact isOfConfiguration_of_kind rfl
  · obtain rfl := Failure.problem.inj (Except.error.inj hp)
    exact isOfConfiguration_of_kind rfl
  · exact nomatch hp

/-- **What is said of a text that is no JSON** names a place in it: by line and column, and by the
number of characters in front of it. -/
theorem of_parse_eq_invalid {reason : String}
    (h : parse text = .error (.problem (.invalidConfiguration reason))) :
    ∃ (complaint : Json.Complaint) (before after : List Char), text.toList = before ++ after ∧
      reason = complaint.text ++ ": line " ++ toString (before.count '\n' + 1) ++ " column " ++
        toString ((before.reverse.takeWhile (· ≠ '\n')).length + 1) ++
        " (char " ++ toString before.length ++ ")" := by
  rw [parse] at h
  split at h
  · exact nomatch h
  · exact nomatch h
  · rename_i m hread
    obtain ⟨before, hbefore⟩ := Json.read_within hread
    refine ⟨m.complaint, before, m.remaining, hbefore.symm, ?_⟩
    cases h
    have htake : text.toList.take (text.toList.length - m.remaining.length) = before := by
      rw [← hbefore, List.length_append, Nat.add_sub_cancel, List.take_left]
    rw [Json.Mistake.report, htake]
  · exact nomatch h

/-- The members that a text stands for. -/
theorem parse_eq_ok_iff {ms : Members} :
    parse text = .ok ms ↔ Json.read text.toList = .ok (.obj ms) := by
  rw [parse]
  match Json.read text.toList with
  | .ok (.obj ms') => simp
  | .ok .null | .ok (.bool _) | .ok (.int _) | .ok (.float _) | .ok (.str _) | .ok (.arr _) => simp
  | .error (.malformed m) | .error .oversized => simp

/-- **Which configurations are not loaded**, and nobody is told. -/
theorem isFault_loaded_iff : IsFault (loaded w s) ↔
    Unread w s ∨ ∃ text, sourced w s = .ok text ∧ Json.HoldsOversized text.toList := by
  simp only [loaded, isFault_bind_iff, isFault_sourced_iff, isFault_parse_iff]

theorem loaded_eq_ok_iff {ms : Members} : loaded w s = .ok ms ↔
    ∃ text, sourced w s = .ok text ∧ Json.read text.toList = .ok (.obj ms) := by
  simp only [loaded, Except.bind_eq_ok_iff, parse_eq_ok_iff]

theorem isReported_loaded (w : Workspace) (s : String) : IsReported (loaded w s) :=
  (isReported_sourced w s).bind fun text _ => isReported_parse text

end Configuration

end DenoPackager
