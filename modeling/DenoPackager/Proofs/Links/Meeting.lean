import DenoPackager.Proofs.Links.Kept
import DenoPackager.Proofs.Paths.Stem

/-!
# Modules that meet

Different modules have different output paths, but what is made of them later is named by their
stems. Two modules of one directory that have the same stem are compiled to the same file, and the
second one takes the place of the first one. If both are scripts, specifiers do not tell them apart
either. No other two modules meet, in one group or in both.

Nothing is said when two modules meet: the transformed program is returned all the same.

## Main definitions

* `Meeting`: how two modules meet in the output.

## Main results

* `Collected.compiledName?_inj_iff`: which modules are compiled to one file.
* `Collected.target_specifier`: where the specifier between two modules leads.
* `transform_meetings`: which modules of a transformed program meet.
* `clashing_modules`: two modules that do.
-/

namespace DenoPackager.Transform

open Source

variable {t : FileTree} {cwd base : Path} {request : Request} {c : Collection}
  {mainSeen testSeen : List Module} {m k source : Module}

/-- The parts of a module that lies below the directory of all modules. -/
theorem parent_and_name {root dirs : List String} {name : String}
    (hparts : m.path.parts = root ++ (dirs ++ [name])) :
    m.path.parent = ⟨m.path.root, root ++ dirs⟩ ∧ m.path.name = name := by
  rw [Path.parent, Path.name, hparts, ← List.append_assoc, List.dropLast_concat,
    List.getLast?_concat]
  exact ⟨rfl, rfl⟩

/-- **How a module lies** in the output: its directories there and its name. -/
theorem Collected.exists_place (h : Collected t cwd base request mainSeen testSeen c)
    (hbase : base.Proper) (hm : m ∈ c.modules) :
    ∃ dirs, m.path.parent = ⟨m.path.root, c.layout.root ++ dirs⟩ ∧
      (∀ x ∈ dirs ++ [m.path.name], Path.ProperPart x) ∧
      c.layout.outPath m.path = Path.text ⟨.none, dirs ++ [m.path.name]⟩ := by
  obtain ⟨dirs, name, hparts⟩ := h.parts_eq hm
  obtain ⟨hparent, hname⟩ := parent_and_name hparts
  rw [hname]
  exact ⟨dirs, hparent, h.proper_rest hbase hm hparts, outPath_of_parts hparts⟩

theorem Collected.properPart_name (h : Collected t cwd base request mainSeen testSeen c)
    (hbase : base.Proper) (hm : m ∈ c.modules) : Path.ProperPart m.path.name := by
  obtain ⟨dirs, -, hproper, -⟩ := h.exists_place hbase hm
  exact hproper _ (List.mem_append_right _ List.mem_cons_self)

/-- The texts of two files of the output are the same exactly if their modules lie in one
directory and the names of the files are the same. -/
theorem text_eq_iff (r : Root) (root : Place) {dirs dirs' : List String} {name name' : String}
    (h : ∀ x ∈ dirs ++ [name], Path.ProperPart x) (h' : ∀ x ∈ dirs' ++ [name'], Path.ProperPart x) :
    Path.text ⟨.none, dirs ++ [name]⟩ = Path.text ⟨.none, dirs' ++ [name']⟩ ↔
      (⟨r, root ++ dirs⟩ : Path) = ⟨r, root ++ dirs'⟩ ∧ name = name' := by
  constructor
  · intro heq
    have hparts := congrArg Path.parts
      (Path.text_injective (p := ⟨.none, dirs ++ [name]⟩) (q := ⟨.none, dirs' ++ [name']⟩) h h' heq)
    obtain ⟨hdirs, hname⟩ := List.append_inj' hparts rfl
    exact ⟨by rw [show dirs = dirs' from hdirs], List.singleton_inj.1 hname⟩
  · rintro ⟨hdirs, rfl⟩
    rw [List.append_cancel_left (congrArg Path.parts hdirs)]

/-- The names of a directory with another last name are proper as well. -/
theorem properPart_concat {dirs : List String} {name name' : String}
    (h : ∀ x ∈ dirs ++ [name], Path.ProperPart x) (h' : Path.ProperPart name') :
    ∀ x ∈ dirs ++ [name'], Path.ProperPart x := by
  rw [List.forall_mem_append] at h ⊢
  exact ⟨h.1, List.forall_mem_singleton.2 h'⟩

/-! ### Compiled files -/

/-- **Which modules are compiled to one file**: those of one directory with one stem. -/
theorem Collected.compiledName?_inj_iff (h : Collected t cwd base request mainSeen testSeen c)
    (hbase : base.Proper) (hm : m ∈ c.modules) (hk : k ∈ c.modules) {e a b : String}
    (he : '/' ∉ e.toList) (hlen : 2 < e.length)
    (ha : compiledName? e (c.layout.outPath m.path) = some a)
    (hb : compiledName? e (c.layout.outPath k.path) = some b) :
    a = b ↔ m.path.SameStem k.path := by
  obtain ⟨dirs, hparent, hproper, hout⟩ := h.exists_place hbase hm
  obtain ⟨dirs', hparent', hproper', hout'⟩ := h.exists_place hbase hk
  have hname := h.properPart_name hbase hm
  have hname' := h.properPart_name hbase hk
  rw [hout, compiledName?_text hname, Option.ite_none_left_eq_some, Option.some.injEq] at ha
  rw [hout', compiledName?_text hname', Option.ite_none_left_eq_some, Option.some.injEq] at hb
  rw [← ha.2, ← hb.2, Path.SameStem, hparent, hparent', h.root_eq hm hk,
    ← stemName_append_inj (e := e)]
  exact text_eq_iff _ _ (properPart_concat hproper (properPart_stemName_append hname he hlen))
    (properPart_concat hproper' (properPart_stemName_append hname' he hlen))

/-- **Which modules are compiled to the script that another one is named by**: those of its
directory with its stem, if it is a plain script. -/
theorem Collected.scriptPath_eq_compiled_iff (h : Collected t cwd base request mainSeen testSeen c)
    (hbase : base.Proper) (hm : m ∈ c.modules) (hk : k ∈ c.modules) {b : String}
    (hname : ∃ x ∈ k.path.name.toList, x ≠ '.')
    (hb : compiledName? ".js" (c.layout.outPath k.path) = some b) :
    EntryPoint.scriptPath (c.layout.outPath m.path) = b ↔
      m.path.SameStem k.path ∧ m.path.IsPlain := by
  obtain ⟨dirs, hparent, hproper, hout⟩ := h.exists_place hbase hm
  obtain ⟨dirs', hparent', hproper', hout'⟩ := h.exists_place hbase hk
  have hnameProper := h.properPart_name hbase hm
  have hnameProper' := h.properPart_name hbase hk
  have hscript := properPart_stemName_append hnameProper' (e := ".js") (by decide) (by decide)
  rw [hout', compiledName?_text hnameProper', Option.ite_none_left_eq_some, Option.some.injEq] at hb
  rw [hout, scriptPath_text, ← hb.2, text_eq_iff _ _ (properPart_concat hproper
      (properPart_scriptPath hnameProper)) (properPart_concat hproper' hscript),
    ← hparent', ← h.root_eq hm hk, ← hparent, scriptPath_eq_iff hname, Path.SameStem, Path.IsPlain,
    and_assoc]

/-! ### Specifiers -/

/-- **Where the specifier between two modules leads**, if they lie inside the output: to the name of
a script in the directory of the second one. -/
theorem Collected.target_specifier (h : Collected t cwd base request mainSeen testSeen c)
    (hbase : base.Proper) (hsource : source ∈ c.modules) (hm : m ∈ c.modules)
    (hsourceInside : c.layout.Inside source.path) (hmInside : c.layout.Inside m.path)
    {dirs : List String} (hparent : m.path.parent = ⟨m.path.root, c.layout.root ++ dirs⟩) :
    Module.target (.ofString (c.layout.outPath source.path))
      (relativeSpecifier cwd (c.layout.outPath source.path) (c.layout.outPath m.path)) =
        ⟨.none, dirs ++ [scriptName m.path.name]⟩ := by
  obtain ⟨common, climb, inner, sourceName, name, hsourceParts, hparts, hcut⟩ :=
    h.exists_common hsource hm
  have hsourceProper := h.proper_rest hbase hsource hsourceParts
  have hproper := h.proper_rest hbase hm hparts
  rw [Layout.inside_iff hsourceParts] at hsourceInside
  rw [Layout.inside_iff hparts] at hmInside
  have hclimbUp : Path.up ∉ common ++ climb := fun hmem =>
    hsourceInside (List.mem_append_left _ hmem)
  have hdownUp : Path.up ∉ inner ++ [name] := fun hmem => hmInside (List.mem_append_right _ hmem)
  have hparts' : m.path.parts = c.layout.root ++ ((common ++ inner) ++ [name]) := by
    rw [hparts, List.append_assoc]
  obtain ⟨hparentOf, hname⟩ := parent_and_name hparts'
  rw [hparent, Path.mk.injEq, List.append_cancel_left_eq] at hparentOf
  rw [outPath_of_parts hsourceParts, outPath_of_parts hparts,
    relativeSpecifier_eq cwd hsourceProper hproper
      (fun hmem => hclimbUp (List.mem_append_right _ hmem)) hdownUp hcut,
    Path.ofString_text hsourceProper, hparentOf.2, hname, List.append_assoc common inner]
  exact target_wayTo (properPart_script fun x hx => hproper x (List.mem_append_right _ hx))
    hclimbUp (up_not_mem_script hdownUp)

/-- **Which modules specifiers do not tell apart**, if they lie inside the output: scripts of one
directory with one stem. -/
theorem Collected.target_specifier_inj_iff (h : Collected t cwd base request mainSeen testSeen c)
    (hbase : base.Proper) (hsource : source ∈ c.modules) (hm : m ∈ c.modules) (hk : k ∈ c.modules)
    (hsourceInside : c.layout.Inside source.path) (hmInside : c.layout.Inside m.path)
    (hkInside : c.layout.Inside k.path) (hne : m.path ≠ k.path) :
    Module.target (.ofString (c.layout.outPath source.path))
        (relativeSpecifier cwd (c.layout.outPath source.path) (c.layout.outPath m.path)) =
      Module.target (.ofString (c.layout.outPath source.path))
        (relativeSpecifier cwd (c.layout.outPath source.path) (c.layout.outPath k.path)) ↔
      m.path.SameStem k.path ∧ m.path.IsScript ∧ k.path.IsScript := by
  obtain ⟨dirs, hparent, hproper, hout⟩ := h.exists_place hbase hm
  obtain ⟨dirs', hparent', hproper', hout'⟩ := h.exists_place hbase hk
  have hname := h.properPart_name hbase hm
  have hname' := h.properPart_name hbase hk
  rw [h.target_specifier hbase hsource hm hsourceInside hmInside hparent,
    h.target_specifier hbase hsource hk hsourceInside hkInside hparent', Path.mk.injEq,
    Path.SameStem, hparent, hparent', h.root_eq hm hk, Path.mk.injEq, List.append_cancel_left_eq]
  -- names in one directory are different, since the modules are
  have hnames : dirs = dirs' → m.path.name ≠ k.path.name := fun hdirs hsame =>
    hne (h.outPath_inj hbase hm hk (by rw [hout, hout', hdirs, hsame]))
  constructor
  · rintro ⟨-, heq⟩
    obtain ⟨hdirs, hlast⟩ := List.append_inj' heq rfl
    obtain ⟨hstem, hscripts⟩ :=
      (scriptName_eq_iff hname hname' (hnames hdirs)).1 (List.singleton_inj.1 hlast)
    exact ⟨⟨⟨rfl, hdirs⟩, hstem⟩, hscripts⟩
  · rintro ⟨⟨⟨-, hdirs⟩, hstem⟩, hscripts⟩
    rw [hdirs, (scriptName_eq_iff hname hname' (hnames hdirs)).2 ⟨hstem, hscripts⟩]
    exact ⟨rfl, rfl⟩

/-! ### All modules -/

/-- **How two modules meet**, before references to the namespace are routed: they are compiled to
one file exactly if they have the same stem, imports of them lead to one file inside the output
exactly if both are scripts as well, and the file that is removed for one of them is the one that the other is compiled
to exactly if the first one is a plain script. -/
structure Collection.MeetByStem (c : Collection) (cwd : Path) (request : Request) (m k : Module) :
    Prop where
  compiled : ∀ e ∈ [".js", ".d.ts"], ∀ a b, compiledName? e (c.layout.outPath m.path) = some a →
    compiledName? e (c.layout.outPath k.path) = some b → (a = b ↔ m.path.SameStem k.path)
  imported : ∀ source ∈ c.modules, (∀ p ∈ [source.path, m.path, k.path], c.layout.Inside p) →
    ∀ s s', isRelative s = true → isRelative s' = true →
    request.mappings.lookup s = none → request.mappings.lookup s' = none →
    Module.target source.path s = m.path → Module.target source.path s' = k.path →
      (Module.target (.ofString (c.layout.outPath source.path)) (c.replacing cwd request source s) =
        Module.target (.ofString (c.layout.outPath source.path))
          (c.replacing cwd request source s') ↔
        m.path.SameStem k.path ∧ m.path.IsScript ∧ k.path.IsScript)
  removed : (∃ x ∈ k.path.name.toList, x ≠ '.') → ∀ b,
    compiledName? ".js" (c.layout.outPath k.path) = some b →
      (TestLauncher.scriptPath (c.layout.outPath m.path) = b ↔
        m.path.SameStem k.path ∧ m.path.IsPlain)

/-- **Modules meet by their stems** only. -/
theorem Collected.meetByStem (h : Collected t cwd base request mainSeen testSeen c)
    (hbase : base.Proper) (hm : m ∈ c.modules) (hk : k ∈ c.modules) (hne : m.path ≠ k.path) :
    c.MeetByStem cwd request m k where
  compiled := by
    intro e he a b ha hb
    have hshape : '/' ∉ e.toList ∧ 2 < e.length := by
      have hall : ∀ e ∈ [".js", ".d.ts"], '/' ∉ e.toList ∧ 2 < e.length := by decide
      exact hall e he
    exact h.compiledName?_inj_iff hbase hm hk hshape.1 hshape.2 ha hb
  imported := by
    intro source hsource hinside s s' hrel hrel' hunmapped hunmapped' hs hs'
    have hsourceInside := hinside source.path (by simp)
    have hmInside := hinside m.path (by simp)
    have hkInside := hinside k.path (by simp)
    have hmem : ∀ {n : Module}, n ∈ c.modules → n.path ∈ c.layout.modules := fun hn =>
      h.modules_layout ▸ List.mem_map_of_mem hn
    rw [replacing_eq c cwd hrel hunmapped, replacing_eq c cwd hrel' hunmapped', hs, hs',
      if_pos (hmem hm), if_pos (hmem hk)]
    exact h.target_specifier_inj_iff hbase hsource hm hk hsourceInside hmInside hkInside hne
  removed := by
    intro hname b hb
    exact h.scriptPath_eq_compiled_iff hbase hm hk hname hb

/-- **Which modules of a transformed program meet** in its output. -/
theorem transform_meetings {w v : Workspace} {dir : String} {request : Request}
    {output : TransformOutput}
    (hrun : (transform (.ofString dir) request).run w = (.ok output, v)) :
    ∃ c, collect w.tree w.cwd (.ofString dir) request = .ok c ∧
      output = c.adapt w.cwd request ∧
      ((Path.ofString dir).isAbsolute = true → ∀ m ∈ c.modules, c.layout.Inside m.path) ∧
      ∀ m ∈ c.modules, ∀ k ∈ c.modules, m.path ≠ k.path → c.MeetByStem w.cwd request m k := by
  obtain ⟨c, hc, hout⟩ := collect_of_run_transform hrun
  obtain ⟨mainSeen, testSeen, h⟩ := collect_eq_ok_iff.1 hc
  refine ⟨c, hc, hout, fun habs m hm => h.inside (.ofString dir) habs hm, ?_⟩
  intro m hm k hk hne
  exact h.meetByStem (.ofString dir) hm hk hne

/-! ### Two modules that meet -/

/-- A module that imports two others, whose names differ only in their extensions. -/
def clashTree : FileTree :=
  (((FileTree.empty.insert ["p"] .directory).insert ["p", "mod.ts"]
    (.file "import \"./a.ts\";\nimport \"./a.js\";\n".toUTF8)).insert ["p", "a.ts"]
    (.file "export const a = 1;\n".toUTF8)).insert ["p", "a.js"]
    (.file "export const b = 2;\n".toUTF8)

/-- The first of them is the only entry point. -/
def clashRequest : Request where
  entryPoints := ["./mod.ts"].map .str
  testEntryPoints := []
  shimPackage := "deno.ns"
  mappings := []

theorem transform_meetings_clash : ∃ output v,
    (transform (.ofString "/p") clashRequest).run (.fresh (.ofString "/p") clashTree) =
      (.ok output, v) ∧
    ∃ c, collect clashTree (.ofString "/p") (.ofString "/p") clashRequest = .ok c ∧
      output = c.adapt (.ofString "/p") clashRequest ∧
      ((Path.ofString "/p").isAbsolute = true → ∀ m ∈ c.modules, c.layout.Inside m.path) ∧
      ∀ m ∈ c.modules, ∀ k ∈ c.modules, m.path ≠ k.path →
        c.MeetByStem (.ofString "/p") clashRequest m k := by
  have hruns : ∃ output, ((transform (.ofString "/p") clashRequest).run
      (.fresh (.ofString "/p") clashTree)).1 = .ok output :=
    exists_run_transform 4 (by decide +kernel)
  obtain ⟨output, hrun⟩ := hruns
  exact ⟨output, _, Prod.ext hrun rfl, transform_meetings (Prod.ext hrun rfl)⟩

/-- **Two modules that meet**: transforming succeeds, both are compiled to one file, and imports of
the two of them lead to one file. -/
theorem clashing_modules :
    ∃ c, collect clashTree (.ofString "/p") (.ofString "/p") clashRequest = .ok c ∧
    ∃ m ∈ c.modules, ∃ k ∈ c.modules, m.path = .ofString "/p/a.ts" ∧ k.path = .ofString "/p/a.js" ∧
      (∃ a, compiledName? ".js" (c.layout.outPath m.path) = some a ∧
        compiledName? ".js" (c.layout.outPath k.path) = some a) ∧
      ∃ source ∈ c.modules, source.path = .ofString "/p/mod.ts" ∧
        Module.target (.ofString (c.layout.outPath source.path))
          (c.replacing (.ofString "/p") clashRequest source "./a.ts") =
        Module.target (.ofString (c.layout.outPath source.path))
          (c.replacing (.ofString "/p") clashRequest source "./a.js") := by
  let mod : Module := ⟨.ofString "/p/mod.ts", "import \"./a.ts\";\nimport \"./a.js\";\n"⟩
  let typed : Module := ⟨.ofString "/p/a.ts", "export const a = 1;\n"⟩
  let plain : Module := ⟨.ofString "/p/a.js", "export const b = 2;\n"⟩
  have hmeet : ∃ c, collect clashTree (.ofString "/p") (.ofString "/p") clashRequest = .ok c ∧
      (typed ∈ c.modules ∧ plain ∈ c.modules ∧
        compiledName? ".js" (c.layout.outPath typed.path) = some "a.js" ∧
        compiledName? ".js" (c.layout.outPath plain.path) = some "a.js" ∧ mod ∈ c.modules ∧
        Module.target (.ofString (c.layout.outPath mod.path))
          (c.replacing (.ofString "/p") clashRequest mod "./a.ts") =
        Module.target (.ofString (c.layout.outPath mod.path))
          (c.replacing (.ofString "/p") clashRequest mod "./a.js")) :=
    exists_collect_of_any 4 (by decide +kernel)
  obtain ⟨c, hc, htyped, hplain, hnamed, hnamed', hmod, htarget⟩ := hmeet
  exact ⟨c, hc, typed, htyped, plain, hplain, rfl, rfl, ⟨"a.js", hnamed, hnamed'⟩, mod, hmod, rfl,
    htarget⟩

end DenoPackager.Transform
