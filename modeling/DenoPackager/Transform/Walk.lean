import DenoPackager.FileTree.Locate
import DenoPackager.Source.Specifier

/-!
# Walking along imports

A module is a file with its path and its text. From some modules on, the imports by relative
specifiers are followed, breadth first, until no new module turns up. An import that leads to no
file is reported once and not followed.

Paths are told apart as they are written. A module at a relative path may import itself from the
directory above, so that its paths climb out of every directory; they do not climb for ever, since a
path that is too long is not looked up any more.

The walk ends because every step either visits one of the paths that can be loaded and was not
visited before, or shortens the queue.

## Main definitions

* `Module.imports`: the paths that a module imports.
* `visit`: a module, if all that it imports can be looked up.
* `walk`: the modules that can be reached, in the order of the visit.

## Main results

* `load_eq_ok_iff`, `visit_eq_ok_iff`: what is loaded and visited.
* `mem_filePaths_of_load`: the paths that can be loaded are finitely many.
-/

namespace DenoPackager.Transform

/-- **A module**: a file with its path and its text. -/
structure Module where
  path : Path
  text : String
  deriving Repr, DecidableEq

namespace Module

/-- The path that a relative specifier leads to from the module at `path`. -/
def target (path : Path) (specifier : String) : Path :=
  (path.parent.joinText specifier).normal

/-- The specifiers in the module. -/
def specifiers (m : Module) : List String :=
  Source.specifiers m.text.toList

/-- The paths that the module imports. -/
def imports (m : Module) : List Path :=
  (m.specifiers.filter Source.isRelative).map (target m.path)

end Module

/-- Whether the file of a module is there. A relative path is looked up from the current
directory. -/
def isThere (t : FileTree) (cwd path : Path) : Bool :=
  !path.isTooLong && t.isFile cwd path

/-- **Loading** the module at a path. -/
def load (t : FileTree) (cwd path : Path) : Except Fault Module :=
  if path.isTooLong then .error .tooLong
  else (t.readText cwd path).map fun text => ⟨path, text⟩

/-- **Visiting** a module: it is loaded, and what it imports is looked up. A path that cannot be
looked up, since it is too long, is a fault and not a module that is missing. -/
def visit (t : FileTree) (cwd path : Path) : Except Fault Module := do
  let m ← load t cwd path
  if m.imports.any Path.isTooLong then .error .tooLong else .ok m

/-! ### The walk ends -/

/-- The components that lead anywhere: the names of what stands in the tree, and the double dot. -/
def stepNames (t : FileTree) : List String :=
  Path.up :: (t.entriesFrom []).filterMap fun e => e.1.getLast?

/-- All ways of at most so many steps. -/
def waysOf (names : List String) : Nat → List (List String)
  | 0 => [[]]
  | n + 1 => [] :: names.flatMap fun name => (waysOf names n).map (name :: ·)

/-- The paths that modules can be loaded from. Relative paths may climb out of every directory, so
it is their length that bounds them. -/
def filePaths (t : FileTree) : List Path :=
  (waysOf (stepNames t) 4096).flatMap fun parts =>
    [⟨.none, parts⟩, ⟨.single, parts⟩, ⟨.double, parts⟩]

/-- The number of paths that were not visited yet. -/
def unvisited (t : FileTree) (seen : List Module) : Nat :=
  ((filePaths t).filter fun p => decide (p ∉ seen.map Module.path)).length

theorem mem_waysOf {names parts : List String} {n : Nat} (hlength : parts.length ≤ n)
    (hparts : ∀ c ∈ parts, c ∈ names) : parts ∈ waysOf names n := by
  induction n generalizing parts with
  | zero => exact List.mem_singleton.2 (List.eq_nil_of_length_eq_zero (Nat.le_zero.1 hlength))
  | succ n ih =>
    cases parts with
    | nil => exact List.mem_cons_self
    | cons c cs =>
      have hcs := ih (Nat.le_of_succ_le_succ hlength) fun x hx => hparts x (List.mem_cons_of_mem c hx)
      exact List.mem_cons_of_mem _
        (List.mem_flatMap.2 ⟨c, hparts c List.mem_cons_self, List.mem_map_of_mem hcs⟩)

/-- What stands somewhere is named by the last component of its place. -/
theorem mem_stepNames_of_get? {t : FileTree} {dir : Place} {c : String} {n : Node}
    (h : t.get? (dir ++ [c]) = some n) : c ∈ stepNames t :=
  List.mem_cons_of_mem _ (List.mem_filterMap.2
    ⟨_, FileTree.mem_entriesFrom.2 h, List.getLast?_concat⟩)

/-- Directories are walked through by such components only. -/
theorem mem_stepNames_of_enter {t : FileTree} {here dir : Place} {cs : List String}
    (h : t.enter here cs = .ok dir) : ∀ c ∈ cs, c ∈ stepNames t := by
  induction cs generalizing here with
  | nil => exact fun c hc => absurd hc List.not_mem_nil
  | cons d cs ih =>
    rw [FileTree.enter] at h
    have hd : d ∈ stepNames t ∧ ∃ next, t.enter next cs = .ok dir := by
      split at h
      · rename_i hup
        exact ⟨hup ▸ List.mem_cons_self, _, h⟩
      · split at h
        · rename_i hget
          exact ⟨mem_stepNames_of_get? hget, _, h⟩
        · cases h
        · cases h
    intro c hc
    rcases List.mem_cons.1 hc with rfl | hc
    · exact hd.1
    · exact hd.2.elim fun _ hnext => ih hnext c hc

/-- A file is located by such components only. -/
theorem mem_stepNames_of_locate {t : FileTree} {cwd p : Path} {place : Place} {content : ByteArray}
    (h : t.locate cwd p = .ok (place, some (.file content))) : ∀ c ∈ p.parts, c ∈ stepNames t := by
  obtain ⟨cs, c, dir, hparts, -, henter, -, hget⟩ := FileTree.exists_of_locate_file h
  intro x hx
  rw [hparts] at hx
  rcases List.mem_append.1 hx with hx | hx
  · exact mem_stepNames_of_enter henter x hx
  · rw [List.mem_singleton.1 hx]
    exact mem_stepNames_of_get? hget

/-- **What loading says** about a path: it is not too long, its file is there, and the module has
the text of the file. -/
theorem load_eq_ok_iff {t : FileTree} {cwd path : Path} {m : Module} :
    load t cwd path = .ok m ↔ path.isTooLong = false ∧
      ∃ text, t.readText cwd path = .ok text ∧ m = ⟨path, text⟩ := by
  rw [load]
  cases path.isTooLong with
  | true => simp
  | false =>
    cases t.readText cwd path with
    | error e => simp [Except.map]
    | ok text => simp [Except.map, eq_comm]

/-- What visiting says about a path: the module can be loaded, and all of its imports can be looked
up. -/
theorem visit_eq_ok_iff {t : FileTree} {cwd path : Path} {m : Module} :
    visit t cwd path = .ok m ↔
      load t cwd path = .ok m ∧ ∀ p ∈ m.imports, p.isTooLong = false := by
  rw [visit]
  cases load t cwd path with
  | error e => simp [bind, Except.bind]
  | ok k =>
    simp only [bind, Except.bind]
    split
    · rename_i hlong
      obtain ⟨p, hp, hptrue⟩ := List.any_eq_true.1 hlong
      constructor
      · intro h
        cases h
      · rintro ⟨hk, hshort⟩
        obtain rfl := Except.ok.inj hk
        rw [hshort p hp] at hptrue
        cases hptrue
    · rename_i hshort
      rw [Except.ok.injEq]
      constructor
      · rintro rfl
        refine ⟨rfl, fun p hp => ?_⟩
        rw [Bool.eq_false_iff]
        exact fun hptrue => hshort (List.any_eq_true.2 ⟨p, hp, hptrue⟩)
      · exact fun h => h.1

theorem path_of_load {t : FileTree} {cwd path : Path} {m : Module} (h : load t cwd path = .ok m) :
    m.path = path := by
  obtain ⟨-, text, -, rfl⟩ := load_eq_ok_iff.1 h
  rfl

theorem path_of_visit {t : FileTree} {cwd path : Path} {m : Module} (h : visit t cwd path = .ok m) :
    m.path = path :=
  path_of_load (visit_eq_ok_iff.1 h).1

/-- **A path that can be loaded** has no more components than fit into the longest path. -/
theorem length_parts_of_load {t : FileTree} {cwd path : Path} {m : Module}
    (h : load t cwd path = .ok m) : path.parts.length ≤ 4096 := by
  obtain ⟨hshort, text, hread, -⟩ := load_eq_ok_iff.1 h
  obtain ⟨place, content, hlocate, -⟩ := FileTree.readText_eq_ok_iff.1 hread
  rw [Path.isTooLong, (FileTree.locate_eq_ok_iff.1 hlocate).1] at hshort
  have hbytes : path.text.utf8ByteSize ≤ 4095 := by simpa using hshort
  have hparts := path.length_parts_le
  omega

theorem mem_filePaths_of_load {t : FileTree} {cwd path : Path} {m : Module}
    (h : load t cwd path = .ok m) : path ∈ filePaths t := by
  obtain ⟨-, text, hread, -⟩ := load_eq_ok_iff.1 h
  obtain ⟨place, content, hlocate, -⟩ := FileTree.readText_eq_ok_iff.1 hread
  refine List.mem_flatMap.2
    ⟨path.parts, mem_waysOf (length_parts_of_load h) (mem_stepNames_of_locate hlocate), ?_⟩
  obtain ⟨root, parts⟩ := path
  cases root <;> simp

theorem unvisited_lt {t : FileTree} {seen : List Module} {m : Module}
    (hmem : m.path ∈ filePaths t) (hnew : m.path ∉ seen.map Module.path) :
    unvisited t (seen ++ [m]) < unvisited t seen := by
  have hfilter : ((filePaths t).filter fun p => decide (p ∉ (seen ++ [m]).map Module.path)) =
      ((filePaths t).filter fun p => decide (p ∉ seen.map Module.path)).filter
        fun p => decide (p ≠ m.path) := by
    rw [List.filter_filter]
    congr 1
    funext p
    simp only [List.map_append, List.map_cons, List.map_nil, List.mem_append, List.mem_singleton,
      not_or, Bool.decide_and, Bool.and_comm]
  simp only [unvisited, hfilter]
  refine List.length_filter_lt_length_iff_exists.2 ⟨m.path, ?_, by simp⟩
  simp only [List.mem_filter, decide_eq_true_eq]
  exact ⟨hmem, hnew⟩

/-! ### The walk -/

/-- A message in front of which the same one has not been given yet is added. -/
def addWarning (warnings : List String) (message : String) : List String :=
  if message ∈ warnings then warnings else warnings ++ [message]

/-- What is said about an import that leads nowhere. -/
def missingText (source target : Path) : String :=
  "Could not find module " ++ target.text ++ " imported from " ++ source.text

/-- The imports of a module that were not visited yet and are there. -/
def newImports (t : FileTree) (cwd : Path) (seen : List Module) (m : Module) : List Path :=
  m.imports.filter fun p => decide (p ∉ seen.map Module.path) && isThere t cwd p

/-- What is said about the imports of a module that are not there. -/
def missingWarnings (t : FileTree) (cwd : Path) (seen : List Module) (m : Module) : List String :=
  (m.imports.filter fun p => decide (p ∉ seen.map Module.path) && !isThere t cwd p).map
    (missingText m.path)

/-- **The walk** along imports from the paths in the queue, with the modules seen and the
warnings given so far. -/
def walk (t : FileTree) (cwd : Path) (queue : List Path) (seen : List Module)
    (warnings : List String) : Except Fault (List Module × List String) :=
  match queue with
  | [] => .ok (seen, warnings)
  | p :: queue =>
    if _h : p ∈ seen.map Module.path then walk t cwd queue seen warnings
    else
      match _hv : visit t cwd p with
      | .error e => .error e
      | .ok m =>
        let seen' := seen ++ [m]
        walk t cwd (queue ++ newImports t cwd seen' m) seen'
          ((missingWarnings t cwd seen' m).foldl addWarning warnings)
  termination_by (unvisited t seen, queue.length)
  decreasing_by
    · exact Prod.Lex.right _ (by simp)
    · have hl := (visit_eq_ok_iff.1 _hv).1
      have hpath := path_of_load hl
      exact Prod.Lex.left _ _ (unvisited_lt (hpath ▸ mem_filePaths_of_load hl) (hpath ▸ _h))

end DenoPackager.Transform
