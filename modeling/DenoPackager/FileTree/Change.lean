import DenoPackager.FileTree.Locate

/-!
# Changing a file tree

Making directories, writing files and removing them, by path. Each action either succeeds or
names the fault that stopped it. Making a directory with everything above it can stop half way;
what was made by then stays.

## Main results

* `write_eq_ok`, `makeDir_eq_ok`, `remove_eq_ok`: one place changes, and no other.
-/

namespace DenoPackager.FileTree

/-- **Making a directory** where nothing stands yet. -/
def makeDir (t : FileTree) (cwd p : Path) : Except Fault FileTree :=
  match t.locate cwd p with
  | .ok (place, none) => .ok (t.insert place .directory)
  | .ok (_, some _) => .error .alreadyExists
  | .error e => .error e

/-- Making a directory, or finding it there. -/
def ensureDir (t : FileTree) (cwd p : Path) : Except Fault FileTree :=
  match t.makeDir cwd p with
  | .ok t => .ok t
  | .error .alreadyExists => if t.isDirectory cwd p then .ok t else .error .alreadyExists
  | .error e => .error e

/-- **Making a directory and everything above it.** When the way to the directory is missing it
is made first, and then the directory is tried once more. -/
def makeDirs (t : FileTree) (cwd p : Path) : Except Fault Unit × FileTree :=
  match t.ensureDir cwd p with
  | .ok t => (.ok (), t)
  | .error .notFound =>
    if _h : p.parts = [] then (.error .notFound, t)
    else
      match makeDirs t cwd p.parent with
      | (.error e, t) => (.error e, t)
      | (.ok (), t) =>
        match t.ensureDir cwd p with
        | .ok t => (.ok (), t)
        | .error e => (.error e, t)
  | .error e => (.error e, t)
  termination_by p.parts.length
  decreasing_by
    have : p.parts.length ≠ 0 := fun e => _h (List.length_eq_zero_iff.1 e)
    simp only [Path.parent, List.length_dropLast]
    omega

/-- **Writing a file**, whose directory has to be there. A file that is there is replaced. -/
def write (t : FileTree) (cwd p : Path) (content : ByteArray) : Except Fault FileTree :=
  match t.locate cwd p with
  | .ok (_, some .directory) => .error .isDirectory
  | .ok (place, _) => .ok (t.insert place (.file content))
  | .error e => .error e

/-- The components of a text without the empty ones; single dots stay. -/
def rawComponents (s : String) : List String :=
  ((Text.splitOn '/' s.toList).map String.ofList).filter (· ≠ "")

/-- **Removing a file** by the text of its path. A text that ends in a dot, in two dots or at
the root names a directory, and a slash at the end asks for one. -/
def remove (t : FileTree) (cwd : Path) (s : String) : Except Fault FileTree :=
  let raw := rawComponents s
  if Path.hasNul s then .error .badValue
  else if s = "" then .error .notFound
  else
    match raw.getLast? with
    | none => .error .isDirectory
    | some c =>
      match t.enter ((Path.ofString s).start cwd) (raw.dropLast.filter (· ≠ ".")) with
      | .error e => .error e
      | .ok dir =>
        if c = "." then .error .isDirectory
        else
          match t.lastStep dir c with
          | (_, none) => .error .notFound
          | (_, some .directory) => .error .isDirectory
          | (place, some (.file _)) =>
            if s.toList.getLast? = some '/' then .error .notDirectory else .ok (t.erase place)

/-! ### One place changes -/

/-- **Writing** changes the place that the path leads to, and no other. -/
theorem write_eq_ok {t u : FileTree} {cwd p : Path} {content : ByteArray}
    (h : t.write cwd p content = .ok u) :
    ∃ place node, t.locate cwd p = .ok (place, node) ∧ u = t.insert place (.file content) := by
  simp only [write] at h
  split at h
  · simp at h
  · rename_i place node _ hl
    simp only [Except.ok.injEq] at h
    exact ⟨place, node, hl, h.symm⟩
  · simp at h

/-- **Making a directory** changes the empty place that the path leads to, and no other. -/
theorem makeDir_eq_ok {t u : FileTree} {cwd p : Path} (h : t.makeDir cwd p = .ok u) :
    ∃ place, t.locate cwd p = .ok (place, none) ∧ u = t.insert place .directory := by
  simp only [makeDir] at h
  split at h
  · rename_i place hl
    simp only [Except.ok.injEq] at h
    exact ⟨place, hl, h.symm⟩
  · simp at h
  · simp at h

/-- **Removing** erases the place of a file, and no other. -/
theorem remove_eq_ok {t u : FileTree} {cwd : Path} {s : String} (h : t.remove cwd s = .ok u) :
    ∃ place content, t.get? place = some (.file content) ∧ u = t.erase place := by
  simp only [remove] at h
  split at h
  · simp at h
  · split at h
    · simp at h
    · split at h
      · simp at h
      · split at h
        · simp at h
        · split at h
          · simp at h
          · split at h
            · simp at h
            · simp at h
            · rename_i place content hstep
              split at h
              · simp at h
              · simp only [Except.ok.injEq] at h
                rw [lastStep] at hstep
                split at hstep
                · simp at hstep
                · simp only [Prod.mk.injEq] at hstep
                  exact ⟨place, content, hstep.1 ▸ hstep.2, h.symm⟩

end DenoPackager.FileTree
