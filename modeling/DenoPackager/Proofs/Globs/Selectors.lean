import DenoPackager.Glob.Search
import DenoPackager.Proofs.Modules.Collect
import Mathlib.Data.List.Infix

/-!
# How a pattern is read

A pattern can be searched by if it is relative and has a component, and if two stars stand alone in
a component or not at all. It is then read as a selector for each of its components, and another one
for a slash at the end. Only a component that is a double dot leads up.

## Main definitions

* `IsGlob`: the patterns that can be searched by.
* `Selector.ofStep`, `Selector.atEnd`: what their parts are read as.

## Main results

* `Selector.ofPattern_eq_ok_iff`: what a pattern is read as.
-/

namespace DenoPackager.Glob

/-- A component of a pattern that can be searched by: two stars stand alone or not at all. -/
def IsStep (c : String) : Prop :=
  c = "**" ∨ ¬ ['*', '*'] <:+: c.toList

/-- **The patterns that can be searched by**: they are relative and have a component, and each of
their components is a step. -/
structure IsGlob (pattern : List Char) : Prop where
  relative : pattern.head? ≠ some '/'
  components_ne_nil : Path.components pattern ≠ []
  isStep : ∀ c ∈ Path.components pattern, IsStep c

instance : DecidablePred IsStep := fun c =>
  inferInstanceAs (Decidable (c = "**" ∨ ¬ ['*', '*'] <:+: c.toList))

instance : DecidablePred IsGlob := fun pattern =>
  decidable_of_iff (pattern.head? ≠ some '/' ∧ Path.components pattern ≠ [] ∧
      ∀ c ∈ Path.components pattern, IsStep c)
    ⟨fun h => ⟨h.1, h.2.1, h.2.2⟩, fun h => ⟨h.relative, h.components_ne_nil, h.isStep⟩⟩

namespace Selector

theorem hasTwoStars_iff {s : List Char} : hasTwoStars s = true ↔ ['*', '*'] <:+: s := by
  fun_induction hasTwoStars s with
  | case1 s => exact iff_of_true rfl ⟨[], s, rfl⟩
  | case2 c s h ih =>
    rw [ih, List.infix_cons_iff]
    refine (or_iff_right fun hp => ?_).symm
    obtain ⟨rest, hrest⟩ := hp
    obtain ⟨rfl, hs⟩ := List.cons.inj hrest
    exact h rest rfl hs.symm
  | case3 => simp

/-- The selector of a component that is a step. -/
def ofStep (c : String) : Selector :=
  if c = "**" then .everyDirectory else if isWild c then .matching c else .named c

theorem ofStep_stars : ofStep "**" = .everyDirectory := if_pos rfl

variable {c : String} {cs : List String} {s : Selector} {ss : List Selector}

theorem ofComponent_eq_ok_iff : ofComponent c = .ok s ↔ IsStep c ∧ s = ofStep c := by
  have hdepth : c.toList = anyDepth ↔ c = "**" := by
    rw [← String.toList_inj]
    rfl
  rw [ofComponent, ofStep, IsStep, ← hasTwoStars_iff]
  simp only [hdepth]
  by_cases hc : c = "**"
  · simp only [hc, if_pos, true_or, true_and, Except.ok.injEq, eq_comm]
  by_cases htwo : hasTwoStars c.toList = true
  · simp [hc, htwo]
  · by_cases hwild : isWild c = true <;> simp [hc, htwo, hwild, eq_comm]

/-- **The selectors of components** are there if every component is a step. -/
theorem ofComponents_eq_ok_iff :
    ofComponents cs = .ok ss ↔ (∀ c ∈ cs, IsStep c) ∧ ss = cs.map ofStep := by
  induction cs generalizing ss with
  | nil => simp [ofComponents, eq_comm]
  | cons c cs ih =>
    rw [ofComponents, List.forall_mem_cons, List.map_cons]
    cases hc : ofComponent c with
    | error e =>
      have hstep : ¬ IsStep c := fun h => by
        rw [ofComponent_eq_ok_iff.2 ⟨h, rfl⟩] at hc
        simp at hc
      simp [hstep]
    | ok s =>
      obtain ⟨hstep, rfl⟩ := ofComponent_eq_ok_iff.1 hc
      cases hcs : ofComponents cs with
      | error e =>
        have hsteps : ¬ ∀ c ∈ cs, IsStep c := fun h => by
          rw [ih.2 ⟨h, rfl⟩] at hcs
          simp at hcs
        simp [hsteps]
      | ok ss' =>
        obtain ⟨hsteps, rfl⟩ := ih.1 hcs
        rw [and_iff_right ⟨hstep, hsteps⟩]
        simp only [Except.ok.injEq, eq_comm]

/-- The selectors after those of the components of a pattern. -/
def atEnd (pattern : List Char) : List Selector :=
  if pattern.getLast? = some '/' then [.itself] else []

/-- **What a pattern is read as**, if it can be searched by. -/
theorem ofPattern_eq_ok_iff {pattern : List Char} : ofPattern (String.ofList pattern) = .ok ss ↔
    IsGlob pattern ∧ ss = (Path.components pattern).map ofStep ++ atEnd pattern := by
  have hends : (if pattern.getLast? = some '/' then [itself] else []) = atEnd pattern := rfl
  have hempty : String.ofList pattern = "" ↔ pattern = [] := by
    rw [← String.toList_inj, String.toList_ofList]
    rfl
  simp only [ofPattern, hempty, Path.isAbsolute, Path.ofString, String.toList_ofList, hends,
    decide_eq_true_eq, Path.rootOf_ne_none_iff]
  by_cases hparts : Path.components pattern = []
  · refine iff_of_false (fun h => ?_) fun h => h.1.components_ne_nil hparts
    rw [hparts] at h
    split at h
    · simp at h
    · split at h
      · simp at h
      · cases hend : atEnd pattern <;> simp [hend] at h
  by_cases habsolute : pattern.head? = some '/'
  · refine iff_of_false (fun h => ?_) fun h => h.1.relative habsolute
    rw [if_pos habsolute] at h
    split at h <;> simp at h
  have hne : pattern ≠ [] := by
    rintro rfl
    exact hparts rfl
  rw [if_neg hne, if_neg habsolute]
  obtain ⟨c, cs, hcs⟩ := List.exists_cons_of_ne_nil hparts
  rw [hcs]
  simp only [Except.map_eq_ok_iff, ofComponents_eq_ok_iff]
  constructor
  · rintro ⟨ss', ⟨hsteps, rfl⟩, rfl⟩
    exact ⟨⟨habsolute, hparts, hcs ▸ hsteps⟩, rfl⟩
  · rintro ⟨hglob, rfl⟩
    exact ⟨_, ⟨hcs ▸ hglob.isStep, rfl⟩, rfl⟩

/-- **A pattern goes up** only if it has a double dot. -/
theorem up_mem_of_ofPattern {pattern : String} (h : ofPattern pattern = .ok ss)
    (hup : .named Path.up ∈ ss) : Path.up ∈ (Path.ofString pattern).parts := by
  rw [← pattern.ofList_toList] at h
  obtain ⟨-, rfl⟩ := ofPattern_eq_ok_iff.1 h
  obtain hmem | hend := List.mem_append.1 hup
  · obtain ⟨c, hc, hstep⟩ := List.mem_map.1 hmem
    rw [ofStep] at hstep
    split_ifs at hstep
    exact named.inj hstep ▸ hc
  · rw [atEnd] at hend
    split_ifs at hend <;> simp at hend

end Selector

end DenoPackager.Glob
