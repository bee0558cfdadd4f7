import DenoPackager.Transform.Walk

/-!
# The layout of the output

All modules are laid out below one directory of the output as they are laid out below the
deepest directory that holds them all. Relative paths are compared as they are written: if one of
them climbs further than another one, the directory is what they start with, and the output path
climbs as well.

## Main results

* `commonDirectory_isPrefix`: the common directory holds every module.
-/

namespace DenoPackager.Transform

/-- The longest start that two places have in common. -/
def commonStart : Place → Place → Place
  | a :: as, b :: bs => if a = b then a :: commonStart as bs else []
  | _, _ => []

/-- **The deepest directory** that holds all of the given directories. -/
def commonDirectory : List Place → Place
  | [] => []
  | d :: ds => ds.foldl commonStart d

/-- **A layout**: the paths of the modules, and the directory that holds them all, seen from where
the paths start. -/
structure Layout where
  modules : List Path
  root : Place
  deriving Repr, DecidableEq

namespace Layout

/-- The layout of modules. Either all of them start from the root, or all of them from the current
directory. -/
def ofModules (modules : List Path) : Except Fault Layout :=
  if (∀ p ∈ modules, p.root = .single) ∨ ∀ p ∈ modules, p.root = .none then
    .ok { modules := modules, root := commonDirectory (modules.map fun p => p.parts.dropLast) }
  else .error .badValue

/-- **The output path** of a module. -/
def outPath (l : Layout) (p : Path) : String :=
  Path.text { root := .none, parts := p.parts.drop l.root.length }

end Layout

/-! ### The common directory holds every module -/

theorem commonStart_isPrefix_left (p q : Place) : (commonStart p q) <+: p := by
  induction p generalizing q with
  | nil => simp [commonStart]
  | cons a as ih =>
    cases q with
    | nil => simp [commonStart]
    | cons b bs =>
      simp only [commonStart]
      split
      · exact List.cons_prefix_cons.2 ⟨rfl, ih bs⟩
      · exact List.nil_prefix

theorem commonStart_isPrefix_right (p q : Place) : (commonStart p q) <+: q := by
  induction p generalizing q with
  | nil => simp [commonStart]
  | cons a as ih =>
    cases q with
    | nil => simp [commonStart]
    | cons b bs =>
      simp only [commonStart]
      split
      · subst_vars
        exact List.cons_prefix_cons.2 ⟨rfl, ih bs⟩
      · exact List.nil_prefix

theorem foldl_commonStart_isPrefix (d : Place) (ds : List Place) :
    ds.foldl commonStart d <+: d ∧ ∀ e ∈ ds, ds.foldl commonStart d <+: e := by
  induction ds generalizing d with
  | nil => simp
  | cons e es ih =>
    obtain ⟨h₁, h₂⟩ := ih (commonStart d e)
    refine ⟨h₁.trans (commonStart_isPrefix_left d e), ?_⟩
    intro x hx
    rcases List.mem_cons.1 hx with rfl | hx
    · exact h₁.trans (commonStart_isPrefix_right d x)
    · exact h₂ x hx

/-- **The common directory** holds every one of the directories. -/
theorem commonDirectory_isPrefix {ds : List Place} {d : Place} (h : d ∈ ds) :
    commonDirectory ds <+: d := by
  cases ds with
  | nil => simp at h
  | cons e es =>
    obtain ⟨h₁, h₂⟩ := foldl_commonStart_isPrefix e es
    rcases List.mem_cons.1 h with rfl | h
    · exact h₁
    · exact h₂ d h

end DenoPackager.Transform
