import DenoPackager.Proofs.Files.Package

/-!
# Where the files of a transformed program lie

All modules of a program and of its tests are laid out below one directory, the longest start that
all of their directories have as they are written. The name of a file in the output is the way from
there to its source, so that different modules have different names. That holds however the entry
points are written and wherever the imports climb.

Absolute modules lie below the deepest directory that holds them all, and no name leads out of the
output again. Relative modules may climb out of the current directory; where they do not climb
equally often, some of the names begin with a double dot.

If there are no modules, every directory holds them all and none of these is the deepest.

## Main definitions

* `IsDeepest`: the deepest directory that holds some paths.
* `NamedFrom`: a name that says how a path lies below a directory.
* `LaidOut`: a transformed program is laid out below a directory.

## Main results

* `commonDirectory_isDeepest`: the common directory of modules is the deepest one.
* `transform_layout`: every transformed program is laid out below such a directory.
* `climbing_output`: a file that climbs out of the output.
-/

namespace DenoPackager.Transform

/-! ### The deepest directory -/

/-- **The deepest directory** that holds some paths as they are written: every directory that holds
all of them lies above it. -/
structure IsDeepest (dir : Place) (paths : List Path) : Prop where
  holds : ∀ p ∈ paths, dir <+: p.parent.parts
  above : ∀ p ∈ paths, ∀ d : Place, (∀ q ∈ paths, d <+: q.parent.parts) → d <+: dir

variable {d p q : Place}

/-- What two places both start with is in what they have in common. -/
theorem prefix_commonStart (hp : d <+: p) (hq : d <+: q) : d <+: commonStart p q := by
  induction d generalizing p q with
  | nil => exact List.nil_prefix
  | cons name d ih =>
    obtain ⟨ps, rfl, hps⟩ := List.cons_prefix_iff.1 hp
    obtain ⟨qs, rfl, hqs⟩ := List.cons_prefix_iff.1 hq
    rw [commonStart, if_pos rfl]
    exact List.cons_prefix_cons.2 ⟨rfl, ih hps hqs⟩

/-- A directory that holds all of some directories lies above their common one. -/
theorem prefix_commonDirectory {ds : List Place} (hne : ds ≠ []) (h : ∀ e ∈ ds, d <+: e) :
    d <+: commonDirectory ds := by
  obtain ⟨e, ds, rfl⟩ := List.exists_cons_of_ne_nil hne
  rw [List.forall_mem_cons] at h
  obtain ⟨he, hds⟩ := h
  rw [commonDirectory]
  induction ds generalizing e with
  | nil => exact he
  | cons x ds ih =>
    rw [List.forall_mem_cons] at hds
    exact ih (commonStart e x) (by simp) (prefix_commonStart he hds.1) hds.2

/-- **The common directory** of modules is the deepest one that holds them. -/
theorem commonDirectory_isDeepest (paths : List Path) :
    IsDeepest (commonDirectory (paths.map fun p => p.parts.dropLast)) paths where
  holds p hp := commonDirectory_isPrefix (List.mem_map_of_mem hp)
  above p hp d hd := by
    refine prefix_commonDirectory (List.ne_nil_of_mem (List.mem_map_of_mem hp)) ?_
    rw [List.forall_mem_map]
    exact hd

/-! ### Names below a directory -/

/-- **A name that says how a path lies** below a directory: components with slashes between them,
none of which is empty or a dot, that lead from the directory to the path. There is no double dot
among them exactly if the path climbs as often as the directory. -/
structure NamedFrom (root path : Path) (name : String) : Prop where
  parts : ∃ parts : List String, parts ≠ [] ∧ (∀ x ∈ parts, Path.ProperPart x) ∧
    name = String.intercalate "/" parts ∧ (Path.up ∉ parts ↔ path.climbs = root.climbs)
  joined : root.joinText name = path

variable {t : FileTree} {cwd base root : Path} {request : Request} {c : Collection}
  {mainSeen testSeen : List Module} {m : Module}

/-- **The output path of a module** says how it lies below the directory of all modules. -/
theorem Collected.namedFrom (h : Collected t cwd base request mainSeen testSeen c)
    (hbase : base.Proper) (hm : m ∈ c.modules) :
    NamedFrom ⟨m.path.root, c.layout.root⟩ m.path (c.layout.outPath m.path) := by
  obtain ⟨dirs, name, hparts⟩ := h.parts_eq hm
  have hproper := h.proper_rest hbase hm hparts
  refine ⟨⟨dirs ++ [name], by simp, hproper, ?_, (h.settled hbase hm).up_not_mem_rest_iff hparts⟩,
    ?_⟩
  · rw [outPath_of_parts hparts, Path.text_relative (by simp)]
  · rw [outPath_of_parts hparts, Path.joinText, Path.ofString_text hproper, Path.join]
    exact Path.eq_of_root_of_parts rfl hparts.symm

/-- Where all modules climb equally often, so does the directory that holds them. -/
theorem Collected.climbs_eq (h : Collected t cwd base request mainSeen testSeen c)
    (hbase : base.Proper) (hlevel : ∀ k ∈ c.modules, k.path.climbs = m.path.climbs)
    (hm : m ∈ c.modules) : m.path.climbs = (⟨m.path.root, c.layout.root⟩ : Path).climbs := by
  -- the double dots of the modules stand in their directories
  have hstart : ∀ k ∈ c.modules, List.replicate m.path.climbs Path.up <+: k.path.parent.parts := by
    intro k hk
    obtain ⟨names, hparts, -⟩ := (h.settled hbase hk).climbs_first
    obtain ⟨-, _, _, hlocate⟩ := isThere_iff.1 (isThere_of_load (h.loaded hk))
    obtain ⟨front, last, -, hlast, hup, -⟩ := FileTree.exists_of_locate_file hlocate
    have hclimb : List.replicate m.path.climbs Path.up <+: front ++ [last] :=
      ⟨names, by rw [← hlast, hparts, hlevel k hk]⟩
    rw [Path.parent, hlast, List.dropLast_concat]
    refine (List.prefix_concat_iff.1 hclimb).resolve_left fun heq => hup ?_
    exact List.eq_of_mem_replicate (heq ▸ List.mem_append_right _ List.mem_cons_self)
  have hdeepest : IsDeepest c.layout.root (c.modules.map Module.path) := by
    rw [(ofModules_eq_ok_iff.1 h.layout).2]
    exact commonDirectory_isDeepest _
  obtain ⟨down, hdown⟩ := hdeepest.above m.path (List.mem_map_of_mem hm)
    (List.replicate m.path.climbs Path.up) (List.forall_mem_map.2 hstart)
  obtain ⟨dirs, name, hparts⟩ := h.parts_eq hm
  obtain ⟨names, hnames, hup⟩ := (h.settled hbase hm).climbs_first
  have hrest : down ++ (dirs ++ [name]) = names := by
    rw [hparts, ← hdown, List.append_assoc] at hnames
    exact List.append_cancel_left hnames
  refine ((h.settled hbase hm).up_not_mem_rest_iff hparts).1 fun hmem => hup ?_
  exact hrest ▸ List.mem_append_right _ hmem

/-! ### The whole output -/

/-- **A transformed program is laid out** below a directory: the deepest one that holds all of its
modules as they are written. These are files at paths in which nothing is left to be resolved, each
at a path of its own; the output has one file for each of them, in order, and names these files and
the entry points by how they lie below the directory. All of them climb as often as the directory
exactly if they climb equally often, and so they do if they are seen from an absolute directory. -/
structure LaidOut (t : FileTree) (base cwd : Path) (request : Request) (c : Collection)
    (output : TransformOutput) (root : Path) : Prop where
  deepest : IsDeepest root.parts (c.modules.map Module.path)
  sources : ∀ m ∈ c.modules, load t cwd m.path = .ok m ∧ m.path.root = root.root ∧ m.path.Settled
  files : List.Forall₂ (fun m f => f = (adaptModule cwd c.layout request m).1 ∧
    NamedFrom root m.path f.path) c.modules output.allFiles
  mainEntries : List.Forall₂ (fun e name => ∃ p, entryPath base e = .ok p ∧ NamedFrom root p name)
    request.entryPoints output.main.entryPoints
  testEntries : List.Forall₂ (fun e name => ∃ p, entryPath base e = .ok p ∧ NamedFrom root p name)
    request.testEntryPoints output.test.entryPoints
  distinct_sources : (c.modules.map Module.path).Nodup
  distinct_files : (output.allFiles.map TransformedFile.path).Nodup
  level : (∀ m ∈ c.modules, m.path.climbs = root.climbs) ↔
    ∀ m ∈ c.modules, ∀ k ∈ c.modules, m.path.climbs = k.path.climbs
  absolute : base.isAbsolute = true →
    root.root = .single ∧ ∀ m ∈ c.modules, m.path.climbs = root.climbs

/-- The names of entry points say how they lie below the directory of all modules. -/
theorem Collected.namedFrom_entries (h : Collected t cwd base request mainSeen testSeen c)
    (hbase : base.Proper) (hroot : ∀ m ∈ c.modules, m.path.root = root.root)
    (hparts : root.parts = c.layout.root) {es : List Json} {ps : List Path}
    (hes : List.Forall₂ (fun e p => entryPath base e = .ok p) es ps)
    (hps : ∀ p ∈ ps, ∃ m ∈ c.modules, m.path = p) :
    List.Forall₂ (fun e name => ∃ p, entryPath base e = .ok p ∧ NamedFrom root p name) es
      (ps.map c.layout.outPath) := by
  rw [List.forall₂_map_right_iff]
  induction hes with
  | nil => exact .nil
  | @cons e p es ps he _ ih =>
    rw [List.forall_mem_cons] at hps
    obtain ⟨m, hm, rfl⟩ := hps.1
    have hnamed := h.namedFrom hbase hm
    rw [hroot m hm, ← hparts] at hnamed
    exact .cons ⟨m.path, he, hnamed⟩ (ih hps.2)

/-- **What was collected is laid out** below a directory that starts from the root of its modules. -/
theorem Collected.laidOut (h : Collected t cwd base request mainSeen testSeen c)
    (hbase : base.Proper) {r : Root} (hr : ∀ m ∈ c.modules, m.path.root = r)
    (habs : base.isAbsolute = true → r = .single) :
    LaidOut t base cwd request c (c.adapt cwd request) ⟨r, c.layout.root⟩ where
  deepest := by
    rw [(ofModules_eq_ok_iff.1 h.layout).2]
    exact commonDirectory_isDeepest _
  sources m hm := ⟨h.loaded hm, hr m hm, h.settled hbase hm⟩
  files := by
    have hfiles : (c.adapt cwd request).allFiles =
        c.modules.map fun m => (adaptModule cwd c.layout request m).1 := by
      simp only [Collection.adapt, TransformOutput.allFiles, adaptGroup, Collection.modules,
        List.map_append, List.map_map]
      rfl
    rw [hfiles, List.forall₂_map_right_iff, List.forall₂_same]
    exact fun m hm => ⟨rfl, hr m hm ▸ h.namedFrom hbase hm⟩
  mainEntries := h.namedFrom_entries hbase hr rfl h.mainEntries fun e he => by
    obtain ⟨m, hm, hpath⟩ := h.mainEntry he
    exact ⟨m, List.mem_append_left _ hm, hpath⟩
  testEntries := h.namedFrom_entries hbase hr rfl h.testEntries fun e he => h.testEntry he
  distinct_sources := by
    refine .of_map c.layout.outPath ?_
    rw [List.map_map]
    exact h.nodup_outPaths hbase
  distinct_files := by
    rw [map_path_adapt]
    exact h.nodup_outPaths hbase
  level := by
    constructor
    · intro hlevel m hm k hk
      rw [hlevel m hm, hlevel k hk]
    · intro hlevel m hm
      rw [← hr m hm]
      exact h.climbs_eq hbase (fun k hk => hlevel k hk m hm) hm
  absolute := by
    intro hbaseAbs
    refine ⟨habs hbaseAbs, fun m hm => ?_⟩
    have hzero : ∀ k ∈ c.modules, k.path.climbs = 0 := fun k hk =>
      (h.settled hbase hk).climbs_eq_zero (h.isAbsolute hbaseAbs hk)
    rw [← hr m hm]
    exact h.climbs_eq hbase (fun k hk => (hzero k hk).trans (hzero m hm).symm) hm

/-- **Every transformed program is laid out** below the deepest directory that holds all of its
modules as they are written. -/
theorem transform_layout {w v : Workspace} {dir : String} {request : Request}
    {output : TransformOutput}
    (hrun : (transform (.ofString dir) request).run w = (.ok output, v)) :
    ∃ c root, collect w.tree w.cwd (.ofString dir) request = .ok c ∧
      LaidOut w.tree (.ofString dir) w.cwd request c output root := by
  obtain ⟨c, hc, rfl⟩ := collect_of_run_transform hrun
  obtain ⟨mainSeen, testSeen, h⟩ := collect_eq_ok_iff.1 hc
  have hbase : (Path.ofString dir).Proper := .ofString dir
  by_cases habs : (Path.ofString dir).isAbsolute = true
  · exact ⟨c, _, hc, h.laidOut hbase (fun m hm => h.root_eq_single habs hm) fun _ => rfl⟩
  · obtain ⟨r, -, hr⟩ := h.exists_root
    exact ⟨c, _, hc, h.laidOut hbase hr fun h => absurd h habs⟩

/-- A module whose import climbs out of its directory, and a test next to it. -/
def climbingTree : FileTree :=
  ((((FileTree.empty.insert ["p"] .directory).insert ["p", "lib"] .directory).insert
    ["p", "lib", "mod.ts"] (.file "import \"../util.ts\";\n".toUTF8)).insert
    ["p", "util.ts"] (.file "export const a = 1;\n".toUTF8)).insert
    ["p", "lib", "mod.test.ts"] (.file "import \"./mod.ts\";\n".toUTF8)

/-- One entry point is a detour, the other one is absolute. -/
def climbingRequest : Request where
  entryPoints := ["./gone/../mod.ts"].map .str
  testEntryPoints := ["/p/./lib/mod.test.ts"].map .str
  shimPackage := "deno.ns"
  mappings := []

theorem transform_layout_climbing : ∃ output v,
    (transform (.ofString "/p/lib") climbingRequest).run (.fresh (.ofString "/p") climbingTree) =
      (.ok output, v) ∧
    ∃ c root, collect climbingTree (.ofString "/p") (.ofString "/p/lib") climbingRequest = .ok c ∧
      LaidOut climbingTree (.ofString "/p/lib") (.ofString "/p") climbingRequest c output root := by
  have hruns : ∃ output, ((transform (.ofString "/p/lib") climbingRequest).run
      (.fresh (.ofString "/p") climbingTree)).1 = .ok output :=
    exists_run_transform 4 (by decide +kernel)
  obtain ⟨output, hrun⟩ := hruns
  exact ⟨_, _, Prod.ext hrun rfl, transform_layout (Prod.ext hrun rfl)⟩

/-- **A file that climbs out of the output**: a relative module imports one outside the current
directory. -/
theorem climbing_output : ∃ output,
    ((transform (.ofString ".") (plainRequest.naming ["./mod.ts"] [])).run
      (.fresh (.ofString "/p/lib") climbingTree)).1 = .ok output ∧
    output.allFiles.map TransformedFile.path = ["../util.ts", "mod.ts"] :=
  exists_run_transform_of_map 3 (by decide +kernel)

end DenoPackager.Transform
