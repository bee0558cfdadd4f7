import DenoPackager.Path.Basic

/-!
# Normal paths

The normal form of a path has no double dot except at the start of a relative path: each double
dot cancels the component before it, and above a root there is nothing left to cancel. The
components are put on a stack one by one.

## Main results

* `mem_of_mem_normalParts`: normalising invents no component.
* `normalParts_absolute`: below a root the normal form has no double dot.
-/

namespace DenoPackager.Path

/-- The component that stands for the directory above. -/
def up : String := ".."

/-- One component goes onto the stack of the components before it, the last on top. -/
def push (absolute : Bool) (stack : List String) (c : String) : List String :=
  if c = up then
    match stack with
    | [] => if absolute then [] else [up]
    | top :: rest => if top = up then up :: top :: rest else rest
  else c :: stack

/-- The normal form of a component list. -/
def normalParts (absolute : Bool) (parts : List String) : List String :=
  (parts.foldl (push absolute) []).reverse

/-- **Normal form.** -/
def normal (p : Path) : Path :=
  { p with parts := normalParts p.isAbsolute p.parts }

/-- The path, seen from the directory `cwd` if it is relative. -/
def seenFrom (p cwd : Path) : Path :=
  cwd.join p

/-- The path, seen from the root if it is relative. The current directory is told in this way. -/
def rooted (p : Path) : Path :=
  p.seenFrom { root := .single, parts := [] }

/-- **The absolute normal form** of a path seen from `cwd`. -/
def absolute (p cwd : Path) : Path :=
  (p.seenFrom cwd).normal

/-- **The place a path names** when every directory on the way is there: its absolute normal
form below the plain root. -/
def resolved (p cwd : Path) : Path :=
  { p.absolute cwd with root := .single }

/-! ### What normalising keeps -/

theorem mem_of_mem_push {absolute : Bool} {stack : List String} {c x : String}
    (h : x ∈ push absolute stack c) : x ∈ stack ∨ x = c := by
  simp only [push] at h
  split at h
  · rename_i hc
    subst hc
    split at h
    · split at h
      · simp at h
      · simp only [List.mem_cons, List.not_mem_nil, or_false] at h
        exact .inr h
    · split at h
      · rcases List.mem_cons.1 h with h | h
        · exact .inr h
        · exact .inl h
      · exact .inl (List.mem_cons_of_mem _ h)
  · rcases List.mem_cons.1 h with h | h
    · exact .inr h
    · exact .inl h

theorem mem_of_mem_foldl_push {absolute : Bool} {parts stack : List String} {x : String}
    (h : x ∈ parts.foldl (push absolute) stack) : x ∈ stack ∨ x ∈ parts := by
  induction parts generalizing stack with
  | nil => exact .inl h
  | cons c cs ih =>
    rcases ih h with h | h
    · rcases mem_of_mem_push h with h | h
      · exact .inl h
      · exact .inr (h ▸ List.mem_cons_self)
    · exact .inr (List.mem_cons_of_mem _ h)

/-- Normalising invents no component. -/
theorem mem_of_mem_normalParts {absolute : Bool} {parts : List String} {x : String}
    (h : x ∈ normalParts absolute parts) : x ∈ parts := by
  rcases mem_of_mem_foldl_push (List.mem_reverse.1 h) with h | h
  · simp at h
  · exact h

theorem up_not_mem_push {stack : List String} (hs : up ∉ stack) (c : String) :
    up ∉ push true stack c := by
  simp only [push]
  split
  · split
    · simp
    · rename_i top rest
      have htop : top ≠ up := fun e => hs (e ▸ List.mem_cons_self)
      rw [if_neg htop]
      exact fun h => hs (List.mem_cons_of_mem _ h)
  · rename_i hc
    simp only [List.mem_cons, not_or]
    exact ⟨fun e => hc e.symm, hs⟩

/-- **Below a root** the normal form has no double dot. -/
theorem normalParts_absolute (parts : List String) : up ∉ normalParts true parts := by
  have : ∀ stack : List String, up ∉ stack → up ∉ parts.foldl (push true) stack := by
    induction parts with
    | nil => exact fun _ h => h
    | cons c cs ih => exact fun stack h => ih _ (up_not_mem_push h c)
  exact fun h => this [] (by simp) (List.mem_reverse.1 h)

end DenoPackager.Path
