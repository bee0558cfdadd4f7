import DenoPackager.Proofs.Modules.Walk
import DenoPackager.Proofs.Paths.Normal
import DenoPackager.Transform.Adapt
import Mathlib.Data.List.Forall2

/-!
# What is collected

Collecting succeeds exactly if the entry points are paths, both walks succeed, and all modules are
absolute or all of them are relative. The paths of what is collected are settled: nothing in them is
left to be resolved but what climbs out of the current directory, so that the layout tells different
modules apart.

## Main definitions

* `Collected`: how a collection comes about.
* `Layout.Inside`: paths that lie inside the output.

## Main results

* `collect_eq_ok_iff`: when collecting succeeds, and what it gives.
* `Collected.settled`: the paths of what is collected are settled.
* `Collected.parts_eq`: every module lies below the directory that holds them all.
* `Collected.inside`: absolute modules lie inside.
* `Collected.outPath_inj`: different modules have different output paths.
-/

namespace DenoPackager

/-- A path is its root and its components. -/
theorem Path.eq_of_root_of_parts {p q : Path} (hroot : p.root = q.root)
    (hparts : p.parts = q.parts) : p = q := by
  cases p
  cases q
  rw [Path.mk.injEq]
  exact ⟨hroot, hparts⟩

/-- The first of two computations has a value if both together have one. -/
theorem Except.bind_eq_ok_iff {ε α β : Type} {x : Except ε α} {f : α → Except ε β} {b : β} :
    (x >>= f) = .ok b ↔ ∃ a, x = .ok a ∧ f a = .ok b := by
  cases x with
  | error e => simp [bind, Except.bind]
  | ok a => simp [bind, Except.bind]

/-- A value that is left of a computation is its value. -/
theorem Except.eq_ok_of_toOption {ε α : Type} {x : Except ε α} {a : α}
    (h : x.toOption = some a) : x = .ok a := by
  cases x with
  | error e => cases h
  | ok b => exact congrArg _ (Option.some.inj h)

/-- What a function makes of a value comes from that value. -/
theorem Except.map_eq_ok_iff {ε α β : Type} {f : α → β} {x : Except ε α} {b : β} :
    x.map f = .ok b ↔ ∃ a, x = .ok a ∧ f a = b := by
  cases x with
  | error e => simp [Except.map]
  | ok a => simp [Except.map]

/-- A computation for each item of a list has values exactly if each one has. -/
theorem Except.mapM_eq_ok_iff {ε α β : Type} {f : α → Except ε β} {as : List α} {bs : List β} :
    as.mapM f = .ok bs ↔ List.Forall₂ (fun a b => f a = .ok b) as bs := by
  induction as generalizing bs with
  | nil => cases bs <;> simp [pure, Except.pure]
  | cons a as ih =>
    rw [List.mapM_cons, Except.bind_eq_ok_iff, List.forall₂_cons_left_iff]
    constructor
    · rintro ⟨b, hb, h⟩
      obtain ⟨bs', hbs', h⟩ := Except.bind_eq_ok_iff.1 h
      exact ⟨b, bs', hb, ih.1 hbs', (Except.ok.inj h).symm⟩
    · rintro ⟨b, bs', hb, hbs', rfl⟩
      exact ⟨b, hb, Except.bind_eq_ok_iff.2 ⟨bs', ih.2 hbs', rfl⟩⟩

namespace Transform

variable {t : FileTree} {cwd base : Path} {request : Request} {c : Collection}
  {mainSeen testSeen : List Module}

/-- **How a collection comes about**: the entry points are paths, one walk starts from those of the
program and one from those of its tests, and what both have seen is sorted and laid out. -/
structure Collected (t : FileTree) (cwd base : Path) (request : Request)
    (mainSeen testSeen : List Module) (c : Collection) : Prop where
  mainEntries : List.Forall₂ (fun e p => entryPath base e = .ok p) request.entryPoints c.mainEntries
  testEntries :
    List.Forall₂ (fun e p => entryPath base e = .ok p) request.testEntryPoints c.testEntries
  walks : ∃ warnings, walk t cwd c.mainEntries [] [] = .ok (mainSeen, warnings) ∧
    walk t cwd c.testEntries [] warnings = .ok (testSeen, c.warnings)
  main : c.main = sortModules mainSeen
  test : c.test =
    sortModules (testSeen.filter fun m => decide (m.path ∉ mainSeen.map Module.path))
  layout : Layout.ofModules (c.modules.map Module.path) = .ok c.layout

/-- **When collecting succeeds**, and what it gives. -/
theorem collect_eq_ok_iff :
    collect t cwd base request = .ok c ↔ ∃ mainSeen testSeen,
      Collected t cwd base request mainSeen testSeen c := by
  constructor
  · intro h
    obtain ⟨mainEntries, hmain, h⟩ := Except.bind_eq_ok_iff.1 h
    obtain ⟨testEntries, htest, h⟩ := Except.bind_eq_ok_iff.1 h
    obtain ⟨⟨mainSeen, mainWarnings⟩, hmainWalk, h⟩ := Except.bind_eq_ok_iff.1 h
    obtain ⟨⟨testSeen, warnings⟩, htestWalk, h⟩ := Except.bind_eq_ok_iff.1 h
    obtain ⟨layout, hlayout, h⟩ := Except.bind_eq_ok_iff.1 h
    obtain rfl := Except.ok.inj h
    exact ⟨mainSeen, testSeen,
      { mainEntries := Except.mapM_eq_ok_iff.1 hmain
        testEntries := Except.mapM_eq_ok_iff.1 htest
        walks := ⟨mainWarnings, hmainWalk, htestWalk⟩
        main := rfl
        test := rfl
        layout := hlayout }⟩
  · rintro ⟨mainSeen, testSeen, h⟩
    obtain ⟨mainWarnings, hmainWalk, htestWalk⟩ := h.walks
    obtain ⟨main, test, mainEntries, testEntries, layout, warnings⟩ := c
    obtain rfl : main = _ := h.main
    obtain rfl : test = _ := h.test
    refine Except.bind_eq_ok_iff.2 ⟨mainEntries, Except.mapM_eq_ok_iff.2 h.mainEntries, ?_⟩
    refine Except.bind_eq_ok_iff.2 ⟨testEntries, Except.mapM_eq_ok_iff.2 h.testEntries, ?_⟩
    refine Except.bind_eq_ok_iff.2 ⟨_, hmainWalk, ?_⟩
    refine Except.bind_eq_ok_iff.2 ⟨_, htestWalk, ?_⟩
    exact Except.bind_eq_ok_iff.2 ⟨layout, h.layout, rfl⟩

/-! ### Modules that were seen -/

/-- What was sorted is what was there. -/
theorem mem_sortModules {m : Module} {ms : List Module} : m ∈ sortModules ms ↔ m ∈ ms :=
  List.mem_mergeSort

/-- The modules of the program are those that its own walk has seen. -/
theorem Collected.mem_main (h : Collected t cwd base request mainSeen testSeen c) {m : Module} :
    m ∈ c.main ↔ m ∈ mainSeen := by
  rw [h.main, mem_sortModules]

/-- The modules of the tests are those that only their walk has seen. -/
theorem Collected.mem_test (h : Collected t cwd base request mainSeen testSeen c) {m : Module} :
    m ∈ c.test ↔ m ∈ testSeen ∧ m.path ∉ mainSeen.map Module.path := by
  rw [h.test, mem_sortModules, List.mem_filter, decide_eq_true_eq]

/-- What holds between two steps holds of both walks in the end. -/
theorem Collected.invariants (h : Collected t cwd base request mainSeen testSeen c) :
    WalkInvariant t cwd [] mainSeen ∧ WalkInvariant t cwd [] testSeen := by
  obtain ⟨_, hmain, htest⟩ := h.walks
  exact ⟨walk_invariant (.start t cwd _) hmain, walk_invariant (.start t cwd _) htest⟩

/-- **What is collected is in the tree.** -/
theorem Collected.loaded (h : Collected t cwd base request mainSeen testSeen c) {m : Module}
    (hm : m ∈ c.modules) : load t cwd m.path = .ok m := by
  rcases List.mem_append.1 hm with hm | hm
  · exact h.invariants.1.loaded m (h.mem_main.1 hm)
  · exact h.invariants.2.loaded m (h.mem_test.1 hm).1

/-! ### Settled paths -/

/-- From a proper path a specifier leads to a settled one. -/
theorem settled_target {p : Path} (hp : p.Proper) (s : String) : (Module.target p s).Settled :=
  .normal (hp.parent.join (.ofString s))

/-- The paths of entry points are settled. -/
theorem settled_of_entryPath (hbase : base.Proper) {e : Json} {p : Path}
    (h : entryPath base e = .ok p) : p.Settled := by
  cases e with
  | str s =>
    obtain rfl : (Path.ofString s).absolute base = p := Except.ok.inj h
    exact .normal (hbase.join (.ofString s))
  | _ => simp [entryPath, Json.path, Except.map] at h

/-- All that is visited from settled paths is settled. -/
theorem settled_of_walk {queue : List Path} {warnings : List String} {seen : List Module}
    {warnings' : List String} (hqueue : ∀ p ∈ queue, p.Settled)
    (hwalk : walk t cwd queue [] warnings = .ok (seen, warnings')) : ∀ m ∈ seen, m.path.Settled := by
  refine walk_subset (S := {p | p.Settled}) ?_ (by simp) hqueue hwalk
  rintro p hp q ⟨m, hm, hq, -⟩
  obtain ⟨s, -, rfl⟩ := List.mem_map.1 hq
  rw [path_of_load hm]
  exact settled_target hp.proper s

/-- **The paths of what is collected are settled.** -/
theorem Collected.settled (h : Collected t cwd base request mainSeen testSeen c) (hbase : base.Proper)
    {m : Module} (hm : m ∈ c.modules) : m.path.Settled := by
  have hentries : ∀ {es : List Json} {ps : List Path},
      List.Forall₂ (fun e p => entryPath base e = .ok p) es ps → ∀ p ∈ ps, p.Settled := by
    intro es ps hes
    induction hes with
    | nil => simp
    | cons he _ ih => exact List.forall_mem_cons.2 ⟨settled_of_entryPath hbase he, ih⟩
  obtain ⟨_, hmain, htest⟩ := h.walks
  rcases List.mem_append.1 hm with hm | hm
  · exact settled_of_walk (hentries h.mainEntries) hmain m (h.mem_main.1 hm)
  · exact settled_of_walk (hentries h.testEntries) htest m (h.mem_test.1 hm).1

/-! ### The layout -/

/-- **When modules can be laid out**, and how: below the directory that holds them all. -/
theorem ofModules_eq_ok_iff {ps : List Path} {l : Layout} :
    Layout.ofModules ps = .ok l ↔
      ((∀ p ∈ ps, p.root = .single) ∨ ∀ p ∈ ps, p.root = .none) ∧
        l = ⟨ps, commonDirectory (ps.map fun p => p.parts.dropLast)⟩ := by
  rw [Layout.ofModules]
  split
  · rename_i hroots
    rw [Except.ok.injEq]
    exact ⟨fun h => ⟨hroots, h.symm⟩, fun h => h.2.symm⟩
  · rename_i hroots
    exact ⟨fun h => by simp at h, fun h => absurd h.1 hroots⟩

/-- What is laid out is what was collected. -/
theorem Collected.modules_layout (h : Collected t cwd base request mainSeen testSeen c) :
    c.layout.modules = c.modules.map Module.path := by
  rw [(ofModules_eq_ok_iff.1 h.layout).2]

/-- **All modules start from the same root**, which is not written with two slashes. -/
theorem Collected.exists_root (h : Collected t cwd base request mainSeen testSeen c) :
    ∃ root, root ≠ .double ∧ ∀ m ∈ c.modules, m.path.root = root := by
  rcases (ofModules_eq_ok_iff.1 h.layout).1 with hroots | hroots
  · exact ⟨.single, by simp, fun m hm => hroots m.path (List.mem_map_of_mem hm)⟩
  · exact ⟨.none, by simp, fun m hm => hroots m.path (List.mem_map_of_mem hm)⟩

theorem Collected.root_eq (h : Collected t cwd base request mainSeen testSeen c) {m k : Module}
    (hm : m ∈ c.modules) (hk : k ∈ c.modules) : m.path.root = k.path.root := by
  obtain ⟨root, -, hroots⟩ := h.exists_root
  rw [hroots m hm, hroots k hk]

/-- A path without components names no file. -/
theorem parts_ne_nil_of_load {p : Path} {m : Module} (h : load t cwd p = .ok m) :
    p.parts ≠ [] := by
  obtain ⟨-, place, content, hlocate⟩ := isThere_iff.1 (isThere_of_load h)
  obtain ⟨_, _, _, hparts, -⟩ := FileTree.exists_of_locate_file hlocate
  rw [hparts]
  simp

/-- **Every module lies below the directory that holds them all.** -/
theorem Collected.parts_eq (h : Collected t cwd base request mainSeen testSeen c) {m : Module}
    (hm : m ∈ c.modules) : ∃ dirs name, m.path.parts = c.layout.root ++ (dirs ++ [name]) := by
  have hprefix : c.layout.root <+: m.path.parts.dropLast := by
    rw [(ofModules_eq_ok_iff.1 h.layout).2]
    exact commonDirectory_isPrefix
      (List.mem_map_of_mem (f := fun p : Path => p.parts.dropLast) (List.mem_map_of_mem hm))
  obtain ⟨dirs, hdirs⟩ := hprefix
  obtain ⟨name, hname⟩ : ∃ name, m.path.parts.dropLast ++ [name] = m.path.parts :=
    ⟨_, List.dropLast_concat_getLast (parts_ne_nil_of_load (h.loaded hm))⟩
  refine ⟨dirs, name, ?_⟩
  rw [← List.append_assoc, hdirs, hname]

/-- The output path of a module says where it lies below that directory. -/
theorem outPath_of_parts {l : Layout} {p : Path} {rest : List String}
    (hparts : p.parts = l.root ++ rest) : l.outPath p = Path.text ⟨.none, rest⟩ := by
  rw [Layout.outPath, hparts, List.drop_left]

/-- What stands below the directory of all modules is proper. -/
theorem Collected.proper_rest (h : Collected t cwd base request mainSeen testSeen c)
    (hbase : base.Proper) {m : Module} (hm : m ∈ c.modules) {rest : List String}
    (hparts : m.path.parts = c.layout.root ++ rest) : Path.Proper ⟨.none, rest⟩ := by
  intro x hx
  have hmem : x ∈ m.path.parts := hparts ▸ List.mem_append_right c.layout.root hx
  exact (h.settled hbase hm).proper x hmem

/-- **A path lies inside** the output: its output path does not climb. -/
def Layout.Inside (l : Layout) (p : Path) : Prop :=
  Path.up ∉ p.parts.drop l.root.length

theorem Layout.inside_iff {l : Layout} {p : Path} {rest : List String}
    (hparts : p.parts = l.root ++ rest) : l.Inside p ↔ Path.up ∉ rest := by
  rw [Inside, hparts, List.drop_left]

/-- From an absolute path specifiers lead to absolute ones. -/
theorem isAbsolute_of_walk {queue : List Path} {warnings : List String} {seen : List Module}
    {warnings' : List String} (hqueue : ∀ p ∈ queue, p.isAbsolute = true)
    (hwalk : walk t cwd queue [] warnings = .ok (seen, warnings')) :
    ∀ m ∈ seen, m.path.isAbsolute = true := by
  refine walk_subset (S := {p | p.isAbsolute = true}) ?_ (by simp) hqueue hwalk
  rintro p hp q ⟨m, hm, hq, -⟩
  show q.isAbsolute = true
  rw [Path.isAbsolute, root_of_mem_imports hq, path_of_load hm]
  exact hp

/-- Entry points that are seen from an absolute directory are absolute. -/
theorem isAbsolute_of_entryPath (habs : base.isAbsolute = true) {e : Json} {p : Path}
    (h : entryPath base e = .ok p) : p.isAbsolute = true := by
  obtain ⟨q, -, rfl⟩ := Except.map_eq_ok_iff.1 h
  exact Path.isAbsolute_join habs q

/-- **All modules are absolute** if the entry points are seen from an absolute directory. -/
theorem Collected.isAbsolute (h : Collected t cwd base request mainSeen testSeen c)
    (habs : base.isAbsolute = true) {m : Module} (hm : m ∈ c.modules) :
    m.path.isAbsolute = true := by
  have hentries : ∀ {es : List Json} {ps : List Path},
      List.Forall₂ (fun e p => entryPath base e = .ok p) es ps → ∀ p ∈ ps, p.isAbsolute = true := by
    intro es ps hes
    induction hes with
    | nil => simp
    | cons he _ ih => exact List.forall_mem_cons.2 ⟨isAbsolute_of_entryPath habs he, ih⟩
  obtain ⟨_, hmain, htest⟩ := h.walks
  rcases List.mem_append.1 hm with hm | hm
  · exact isAbsolute_of_walk (hentries h.mainEntries) hmain m (h.mem_main.1 hm)
  · exact isAbsolute_of_walk (hentries h.testEntries) htest m (h.mem_test.1 hm).1

theorem Collected.root_eq_single (h : Collected t cwd base request mainSeen testSeen c)
    (habs : base.isAbsolute = true) {m : Module} (hm : m ∈ c.modules) :
    m.path.root = .single := by
  obtain ⟨root, hdouble, hroots⟩ := h.exists_root
  have hroot := h.isAbsolute habs hm
  rw [Path.isAbsolute, hroots m hm, decide_eq_true_eq] at hroot
  rw [hroots m hm]
  cases root with
  | none => exact absurd rfl hroot
  | single => rfl
  | double => exact absurd rfl hdouble

/-- There is no double dot in the path of an absolute module. -/
theorem Collected.up_not_mem (h : Collected t cwd base request mainSeen testSeen c)
    (hbase : base.Proper) (habs : base.isAbsolute = true) {m : Module} (hm : m ∈ c.modules) :
    Path.up ∉ m.path.parts :=
  (h.settled hbase hm).up_not_mem (h.isAbsolute habs hm)

/-- **Absolute modules lie inside.** -/
theorem Collected.inside (h : Collected t cwd base request mainSeen testSeen c)
    (hbase : base.Proper) (habs : base.isAbsolute = true) {m : Module} (hm : m ∈ c.modules) :
    c.layout.Inside m.path :=
  fun hup => h.up_not_mem hbase habs hm (List.mem_of_mem_drop hup)

/-- **Different modules have different output paths.** -/
theorem Collected.outPath_inj (h : Collected t cwd base request mainSeen testSeen c)
    (hbase : base.Proper) {m k : Module} (hm : m ∈ c.modules) (hk : k ∈ c.modules)
    (heq : c.layout.outPath m.path = c.layout.outPath k.path) : m.path = k.path := by
  obtain ⟨dirsm, namem, hpm⟩ := h.parts_eq hm
  obtain ⟨dirsk, namek, hpk⟩ := h.parts_eq hk
  rw [outPath_of_parts hpm, outPath_of_parts hpk] at heq
  have hrest := Path.text_injective (h.proper_rest hbase hm hpm) (h.proper_rest hbase hk hpk) heq
  rw [Path.mk.injEq] at hrest
  have hparts : m.path.parts = k.path.parts := by rw [hpm, hpk, hrest.2]
  exact Path.eq_of_root_of_parts (h.root_eq hm hk) hparts

end Transform

end DenoPackager
