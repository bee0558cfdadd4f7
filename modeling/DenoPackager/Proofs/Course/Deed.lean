import DenoPackager.Emission

/-!
# Deeds

The events of a build say more than what it does: they hold messages, starts that failed and
programs that ended badly. A **deed** is an event that brings a build forward: a file was written
or removed, a package manager command was tried or ended well, or the compiler was run. Runs of
the compiler are told apart by what their configuration asks for.

## Main definitions

* `Deed`, `Workspace.deeds`: what was done in a workspace so far.
* `Action.Follows`: what an action does is the start of a plan, and all of it if it succeeds.
* `Action.Fulfils`: moreover, it does all of the plan only if it succeeds.
* `Action.Quiet`: an action that does nothing that counts.

## Main results

* `Follows.bind`, `Fulfils.bind`, `Follows.bind_fulfils`: one action after the other follows one
  plan after the other.
* `Fulfils.forEach`: an action for each item follows the list of its deeds.
-/

namespace DenoPackager

/-- **What the compiler was run for**: the check, or one of the passes. -/
inductive Phase where
  | check
  | pass (p : Pass)
  deriving Repr, DecidableEq

/-- **Deeds.** -/
inductive Deed where
  | wrote (path : Path)
  | removed (path : String)
  /-- The start of a package manager command was tried. -/
  | started (command : List String)
  /-- A package manager command ended with exit code zero. -/
  | ended (command : List String)
  | compiled (phase : Phase)
  deriving Repr, DecidableEq

/-- The phase that emits scripts of a module format. -/
def Phase.ofModule : Option Json → Phase
  | some (.str "UMD") => .pass .umd
  | _ => .pass .esm

/-- The phase that compiler options of a configuration ask for. -/
def Phase.ofConfig (options : Members) : Phase :=
  if options.has "noEmit" then .check
  else if options.has "emitDeclarationOnly" then .pass .declarations
  else .ofModule (options.get? "module")

/-- **The phase of a run** of the compiler, read off its configuration. -/
def CompilerRun.phase (run : CompilerRun) : Phase :=
  .ofConfig ((run.config.get? "compilerOptions").getD .null).members

/-- The deed that an event is, if it is one. -/
def Deed.ofEvent : Event → Option Deed
  | .wrote path => some (.wrote path)
  | .removed path => some (.removed path)
  | .launched command _ => some (.started command)
  | .exited command code => if code = 0 then some (.ended command) else none
  | .compiled run => some (.compiled run.phase)
  | .logged _ _ | .absent _ | .killed _ => none

/-- **The deeds** in a workspace so far, in order. -/
def Workspace.deeds (w : Workspace) : List Deed :=
  w.events.filterMap Deed.ofEvent

namespace Action

variable {α β : Type} {m : Action α} {f : α → Action β} {w : Workspace} {p q : List Deed}

/-- **Following a plan**: what the action does in `w` is the start of the plan, and all of it if
the action succeeds. -/
def Follows (m : Action α) (w : Workspace) (plan : List Deed) : Prop :=
  ∃ done, (m.run w).2.deeds = w.deeds ++ done ∧ done <+: plan ∧
    ((∃ a, (m.run w).1 = .ok a) → done = plan)

/-- **Fulfilling a plan**: what the action does in `w` is the start of the plan, and all of it
exactly if the action succeeds. -/
def Fulfils (m : Action α) (w : Workspace) (plan : List Deed) : Prop :=
  ∃ done, (m.run w).2.deeds = w.deeds ++ done ∧ done <+: plan ∧
    ((∃ a, (m.run w).1 = .ok a) ↔ done = plan)

/-- **Quiet** actions do nothing that counts. -/
def Quiet (m : Action α) : Prop :=
  ∀ w, (m.run w).2.deeds = w.deeds

/-- What an action follows is a matter of its run. -/
theorem Fulfils.congr {m' : Action α} (h : m'.run w = m.run w) (hm : m.Fulfils w p) :
    m'.Fulfils w p := by
  rw [Fulfils, h]
  exact hm

theorem Follows.congr {m' : Action α} (h : m'.run w = m.run w) (hm : m.Follows w p) :
    m'.Follows w p := by
  rw [Follows, h]
  exact hm

theorem Fulfils.follows (h : m.Fulfils w p) : m.Follows w p := by
  obtain ⟨done, hdone, hpre, hall⟩ := h
  exact ⟨done, hdone, hpre, hall.1⟩

theorem Quiet.deeds_eq (h : m.Quiet) {r : Except Failure α} {v : Workspace}
    (hr : m.run w = (r, v)) : v.deeds = w.deeds := by
  rw [← h w, hr]

theorem Quiet.follows (h : m.Quiet) : m.Follows w [] :=
  ⟨[], by rw [h w, List.append_nil], List.nil_prefix, fun _ => rfl⟩

/-! ### One action after the other -/

/-- An action that succeeded did all of its plan. -/
theorem Follows.deeds_of_ok (h : m.Follows w p) {a : α} {v : Workspace}
    (hm : m.run w = (.ok a, v)) : v.deeds = w.deeds ++ p := by
  obtain ⟨done, hdone, -, hall⟩ := h
  rw [hm] at hdone hall
  rw [hdone, hall ⟨a, rfl⟩]

/-- **One plan after the other.** -/
theorem Follows.bind (hm : m.Follows w p)
    (hf : ∀ a v, m.run w = (.ok a, v) → (f a).Follows v q) : (m >>= f).Follows w (p ++ q) := by
  match hr : m.run w with
  | (.ok a, v) =>
    obtain ⟨done, hdone, hpre, hall⟩ := hf a v hr
    refine ⟨p ++ done, ?_, (List.prefix_append_right_inj p).2 hpre, ?_⟩
    · rw [run_bind_of_ok hr, hdone, hm.deeds_of_ok hr, List.append_assoc]
    · intro hok
      rw [run_bind_of_ok hr] at hok
      rw [hall hok]
  | (.error e, v) =>
    obtain ⟨done, hdone, hpre, -⟩ := hm
    rw [hr] at hdone
    refine ⟨done, ?_, hpre.trans (List.prefix_append p q), ?_⟩
    · rw [run_bind_of_error hr, hdone]
    · rintro ⟨b, hb⟩
      rw [run_bind_of_error hr] at hb
      simp at hb

/-- An action that failed before the end of its plan. -/
theorem fulfils_of_error {e : Failure} {v : Workspace} {done : List Deed}
    (hr : m.run w = (.error e, v)) (hdone : v.deeds = w.deeds ++ done) (hpre : done <+: p)
    (hne : done ≠ p) : m.Fulfils w p := by
  refine ⟨done, ?_, hpre, ?_⟩
  · rw [hr, hdone]
  · rw [hr]
    constructor
    · rintro ⟨a, ha⟩
      simp at ha
    · intro h
      exact absurd h hne

/-- An action that goes on from `v`, where the start of its plan is done. -/
theorem Fulfils.from {m' : Action β} {m : Action β} {v : Workspace} (hr : m.run w = m'.run v)
    (hv : v.deeds = w.deeds ++ p) (h : m'.Fulfils v q) : m.Fulfils w (p ++ q) := by
  obtain ⟨done, hdone, hpre, hall⟩ := h
  refine ⟨p ++ done, ?_, (List.prefix_append_right_inj p).2 hpre, ?_⟩
  · rw [hr, hdone, hv, List.append_assoc]
  · rw [hr, hall, List.append_right_inj]

/-- One plan after the other, if the last one is fulfilled and not empty. -/
theorem Follows.bind_fulfils (hm : m.Follows w p) (hq : q ≠ [])
    (hf : ∀ a v, m.run w = (.ok a, v) → (f a).Fulfils v q) : (m >>= f).Fulfils w (p ++ q) := by
  match hr : m.run w with
  | (.ok a, v) => exact .from (run_bind_of_ok hr) (hm.deeds_of_ok hr) (hf a v hr)
  | (.error e, v) =>
    obtain ⟨done, hdone, hpre, -⟩ := hm
    rw [hr] at hdone
    refine fulfils_of_error (run_bind_of_error hr) hdone (hpre.trans (List.prefix_append p q))
      fun he => hq ?_
    have hlen := hpre.length_le
    rw [he, List.length_append] at hlen
    exact List.length_eq_zero_iff.1 (by omega)

/-- **One plan after the other**, both fulfilled. -/
theorem Fulfils.bind (hm : m.Fulfils w p)
    (hf : ∀ a v, m.run w = (.ok a, v) → (f a).Fulfils v q) : (m >>= f).Fulfils w (p ++ q) := by
  by_cases hq : q = []
  · match hr : m.run w with
    | (.ok a, v) => exact .from (run_bind_of_ok hr) (hm.follows.deeds_of_ok hr) (hf a v hr)
    | (.error e, v) =>
      obtain ⟨done, hdone, hpre, hall⟩ := hm
      rw [hr] at hdone hall
      refine fulfils_of_error (run_bind_of_error hr) hdone (hpre.trans (List.prefix_append p q))
        fun he => ?_
      rw [hq, List.append_nil] at he
      obtain ⟨a, ha⟩ := hall.2 he
      simp at ha
  · exact hm.follows.bind_fulfils hq hf

/-- **Getting past an action.** A deed that is not in the plan of the first action is done by
the second one, so the first one succeeded. -/
theorem Follows.reached {done : List Deed} {d : Deed} (hm : m.Follows w p) (hd : d ∉ p)
    (hf : ∀ a v, m.run w = (.ok a, v) → ∃ q, (f a).Follows v q)
    (hdone : ((m >>= f).run w).2.deeds = w.deeds ++ done) (hmem : d ∈ done) :
    ∃ a v later, m.run w = (.ok a, v) ∧ ((f a).run v).2.deeds = v.deeds ++ later ∧
      done = p ++ later ∧ d ∈ later := by
  match hr : m.run w with
  | (.ok a, v) =>
    obtain ⟨q, later, hlater, -⟩ := hf a v hr
    have heq : done = p ++ later := by
      rw [run_bind_of_ok hr, hlater, hm.deeds_of_ok hr, List.append_assoc,
        List.append_right_inj] at hdone
      exact hdone.symm
    refine ⟨a, v, later, rfl, hlater, heq, ?_⟩
    rw [heq, List.mem_append] at hmem
    exact hmem.resolve_left hd
  | (.error e, v) =>
    obtain ⟨done', hdone', hpre, -⟩ := hm
    rw [run_bind_of_error hr] at hdone
    rw [hr, hdone, List.append_right_inj] at hdone'
    rw [hdone'] at hmem
    exact absurd (hpre.subset hmem) hd

/-- A deed that is not in the plan of the second action is done by the first one. -/
theorem Follows.mem_first {done : List Deed} {d : Deed} (hm : m.Follows w p)
    (hf : ∀ a v, m.run w = (.ok a, v) → (f a).Follows v q) (hd : d ∉ q)
    (hdone : ((m >>= f).run w).2.deeds = w.deeds ++ done) (hmem : d ∈ done) :
    ∃ first, (m.run w).2.deeds = w.deeds ++ first ∧ d ∈ first := by
  match hr : m.run w with
  | (.ok a, v) =>
    obtain ⟨later, hlater, hpre, -⟩ := hf a v hr
    refine ⟨p, hm.deeds_of_ok hr, ?_⟩
    rw [run_bind_of_ok hr, hlater, hm.deeds_of_ok hr, List.append_assoc,
      List.append_right_inj] at hdone
    rw [← hdone, List.mem_append] at hmem
    exact hmem.resolve_right fun h => hd (hpre.subset h)
  | (.error e, v) =>
    rw [run_bind_of_error hr] at hdone
    exact ⟨done, hdone, hmem⟩

/-- A quiet action first makes no difference to what is followed. -/
theorem Quiet.bind_follows (hm : m.Quiet)
    (hf : ∀ a v, m.run w = (.ok a, v) → (f a).Follows v q) : (m >>= f).Follows w q :=
  hm.follows.bind hf

/-- A quiet action first makes no difference to what is fulfilled. -/
theorem Quiet.bind_fulfils (hm : m.Quiet) (hq : q ≠ [])
    (hf : ∀ a v, m.run w = (.ok a, v) → (f a).Fulfils v q) : (m >>= f).Fulfils w q :=
  hm.follows.bind_fulfils hq hf

/-- A value made of the result is no deed. -/
theorem deeds_bind_pure (g : α → β) :
    ((m >>= fun a => pure (g a)).run w).2.deeds = (m.run w).2.deeds := by
  rw [run_bind]
  match m.run w with
  | (.ok a, v) => rfl
  | (.error e, v) => rfl

/-- A quiet action afterwards makes no difference to what is followed. -/
theorem Follows.bind_quiet (hm : m.Follows w p) (hf : ∀ a, (f a).Quiet) :
    (m >>= f).Follows w p := by
  have h := hm.bind (f := f) (q := []) fun a _ _ => (hf a).follows
  rwa [List.append_nil] at h

theorem fulfils_pure (a : α) (w : Workspace) : (pure a : Action α).Fulfils w [] :=
  ⟨[], (List.append_nil _).symm, List.nil_prefix, fun _ => rfl, fun _ => ⟨a, rfl⟩⟩

/-- A value made of the result makes no difference to what is fulfilled. -/
theorem Fulfils.bind_pure (hm : m.Fulfils w p) (g : α → β) :
    (m >>= fun a => pure (g a)).Fulfils w p := by
  have h := hm.bind (f := fun a => (pure (g a) : Action β)) (q := []) fun a v _ =>
    fulfils_pure (g a) v
  rwa [List.append_nil] at h

/-- **An action for each item** fulfils the list of their deeds. -/
theorem Fulfils.forEach {g : α → Action Unit} {d : α → Deed}
    (h : ∀ a w, (g a).Fulfils w [d a]) (as : List α) (w : Workspace) :
    (Action.forEach g as).Fulfils w (as.map d) := by
  induction as generalizing w with
  | nil => exact fulfils_pure () w
  | cons a as ih => exact (h a w).bind fun _ v _ => ih v

theorem Fulfils.mapEach {g : α → Action β} {d : α → Deed}
    (h : ∀ a w, (g a).Fulfils w [d a]) (as : List α) (w : Workspace) :
    (Action.mapEach g as).Fulfils w (as.map d) := by
  induction as generalizing w with
  | nil => exact fulfils_pure [] w
  | cons a as ih => exact (h a w).bind fun b v _ => (ih v).bind_pure (b :: ·)

theorem Fulfils.onlyIf {m : Action Unit} (wanted : Bool) (h : m.Fulfils w p) :
    (Action.onlyIf wanted m).Fulfils w (if wanted then p else []) := by
  cases wanted with
  | true => exact h
  | false => exact fulfils_pure () w

theorem Follows.onlyIf {m : Action Unit} (wanted : Bool) (h : m.Follows w p) :
    (Action.onlyIf wanted m).Follows w (if wanted then p else []) := by
  cases wanted with
  | true => exact h
  | false => exact (fulfils_pure () w).follows

end Action

end DenoPackager
