import DenoPackager.Proofs.Links.Routing
import DenoPackager.Proofs.Modules.Partition

/-!
# Links between modules

Where a module imports another one that is there, the emitted text imports the other one's script:
the two lie to each other in the output as they lie in the tree, and what the specifier leads to
was collected together with the module. Where the import leads nowhere, it stays as it is.

Routing the references to the namespace comes last and does not know about specifiers. Code is
told from strings without reading regular expressions, so a quote in one of them may turn a string
that follows into code, and a specifier in which a reference begins is then led somewhere else.
That is the only way in which a link is lost.

## Main definitions

* `Occurrence`: an occurrence of a specifier in a module.
* `Occurrence.emitted`: what stands in its place in the emitted text.
* `Occurrence.Spared`: no reference begins in what replaces the specifier.
* `Occurrence.Linked`: the link is kept exactly if it is spared.

## Main results

* `Collected.exists_common`: how two files of the output lie to each other.
* `transform_links`: all links of a transformed program are such links.
* `misled_link`: a link that is lost.
-/

namespace DenoPackager.Transform

open Source
open Text (Piece pieces)

/-- **An occurrence of a specifier** in the text of a module. -/
structure Occurrence (m : Module) where
  before : List (Piece SpecifierMatch)
  found : SpecifierMatch
  after : List (Piece SpecifierMatch)
  pieces_eq : pieces specifierMatch none m.text.toList = before ++ .found found :: after

namespace Occurrence

variable {m : Module} (o : Occurrence m) (f : String → String)

/-- The specifier that occurs. -/
def specifier : String := String.ofList o.found.specifier

/-- The path that the specifier leads to. -/
def target : Path := Module.target m.path o.specifier

/-- The text of a piece when the specifiers are replaced. -/
def replaced : Piece SpecifierMatch → List Char :=
  Piece.render fun k => k.withSpecifier (f (String.ofList k.specifier)).toList

/-- What stands in front of the specifier when all of them are replaced. -/
def textBefore : List Char :=
  o.before.flatMap (replaced f) ++ (o.found.lead ++ [o.found.quote])

/-- What stands after the specifier when all of them are replaced. -/
def textAfter : List Char :=
  o.found.quote :: o.after.flatMap (replaced f)

/-- The characters that replace the specifier, with marks where references begin. -/
def marks : List (Char × Bool) :=
  part (o.textBefore f) (f o.specifier).toList (o.textAfter f)

/-- **What stands in place of the specifier** in the emitted text. -/
def emitted : String := String.ofList (routed (o.marks f))

/-- **Whether routing spares** the specifier: no reference begins in what replaces it. -/
def Spared : Prop := Unmarked (o.marks f)

/-- The specifier is one of those of the module. -/
theorem specifier_mem : o.specifier ∈ m.specifiers := by
  refine List.mem_map.2 ⟨o.found, ?_, rfl⟩
  rw [specifierMatches, Text.findAll, o.pieces_eq, List.filterMap_append, List.mem_append]
  exact .inr List.mem_cons_self

/-- What a relative specifier leads to is one of the imports of the module. -/
theorem target_mem (hrel : isRelative o.specifier = true) : o.target ∈ m.imports :=
  List.mem_map_of_mem (List.mem_filter.2 ⟨o.specifier_mem, hrel⟩)

/-- **The specifier in its place**, before the references are routed. -/
theorem replaceSpecifiers_eq : replaceSpecifiers f m.text.toList =
    o.textBefore f ++ ((f o.specifier).toList ++ o.textAfter f) := by
  rw [replaceSpecifiers, Text.replaceAll, o.pieces_eq, List.flatMap_append, List.flatMap_cons,
    textBefore, textAfter, List.append_assoc, List.append_assoc]
  refine congrArg _ ?_
  rw [Piece.render, SpecifierMatch.withSpecifier, List.append_assoc, List.cons_append,
    List.append_assoc]
  rfl

/-- The specifier is emitted as it replaces the old one exactly if routing spares it. -/
theorem emitted_eq_iff : o.emitted f = f o.specifier ↔ o.Spared f := by
  rw [emitted, Spared, ← routed_eq_iff, marks, map_part, ← String.toList_inj,
    String.toList_ofList]

/-- The import of the package in front of a script that needs it. -/
def heading (m : Module) (f : String → String) (package : String) : List Char :=
  if usesNamespace (replaceSpecifiers f m.text.toList) then shimImport package else []

/-- **The emitted text** around the specifier. -/
theorem routeNamespace_eq (package : String) :
    (routeNamespace package (replaceSpecifiers f m.text.toList)).1 =
      heading m f package ++
        (routed (part [] (o.textBefore f) ((f o.specifier).toList ++ o.textAfter f)) ++
          ((o.emitted f).toList ++
            routed (part (o.textBefore f ++ (f o.specifier).toList) (o.textAfter f) []))) := by
  rw [Source.routeNamespace_eq, heading, o.replaceSpecifiers_eq, routeReferences_append, emitted,
    marks, String.toList_ofList]

end Occurrence

/-- What replaces the specifiers of a module that was collected. -/
def Collection.replacing (c : Collection) (cwd : Path) (request : Request) (m : Module) :
    String → String :=
  replacement cwd c.layout request.mappings m.path

variable {m : Module}

/-- **An occurrence is linked**: its specifier is emitted as what replaces it, with the references
routed. If the import is there, its module was collected with the importing one, and the emitted
specifier leads to its script, just if routing spares it; relative modules have to lie inside the
output for that. If the import is not there, the specifier is kept, just if routing spares it. -/
structure Occurrence.Linked (o : Occurrence m) (t : FileTree) (cwd : Path) (request : Request)
    (c : Collection) : Prop where
  text : (adaptModule cwd c.layout request m).1.text.toList =
    heading m (c.replacing cwd request m) request.shimPackage ++
      (routed (part [] (o.textBefore (c.replacing cwd request m))
          ((c.replacing cwd request m o.specifier).toList ++
            o.textAfter (c.replacing cwd request m))) ++
        ((o.emitted (c.replacing cwd request m)).toList ++
          routed (part (o.textBefore (c.replacing cwd request m) ++
            (c.replacing cwd request m o.specifier).toList)
              (o.textAfter (c.replacing cwd request m)) [])))
  collected : isThere t cwd o.target = true → o.target ∈ c.modules.map Module.path
  collected_main : isThere t cwd o.target = true → m ∈ c.main → o.target ∈ c.main.map Module.path
  leads : isThere t cwd o.target = true → c.layout.Inside m.path → c.layout.Inside o.target →
    ((Module.target (.ofString (c.layout.outPath m.path))
        (o.emitted (c.replacing cwd request m))).text.toList =
      withScriptExtension (c.layout.outPath o.target).toList ↔
        o.Spared (c.replacing cwd request m))
  kept : isThere t cwd o.target = false →
    (o.emitted (c.replacing cwd request m) = o.specifier ↔ o.Spared (c.replacing cwd request m))

variable {t : FileTree} {cwd base : Path} {request : Request} {c : Collection}
  {mainSeen testSeen : List Module} {k : Module}

/-! ### How two files lie to each other -/

/-- Nothing stands below the file of a module. -/
theorem eq_nil_of_parts_append {rest : List String} (hm : load t cwd m.path = .ok m)
    (hk : load t cwd k.path = .ok k) (hroot : m.path.root = k.path.root)
    (hparts : m.path.parts = k.path.parts ++ rest) : rest = [] := by
  obtain ⟨-, _, _, hmLocate⟩ := isThere_iff.1 (isThere_of_load hm)
  obtain ⟨cs, x, dir, hcs, -, henter, -⟩ := FileTree.exists_of_locate_file hmLocate
  obtain ⟨-, _, _, hkLocate⟩ := isThere_iff.1 (isThere_of_load hk)
  obtain ⟨ds, y, dir', hds, hy, henter', -, hfile⟩ := FileTree.exists_of_locate_file hkLocate
  have hstart : m.path.start cwd = k.path.start cwd := by rw [Path.start, Path.start, hroot]
  rcases List.eq_nil_or_concat rest with hrest | ⟨front, last, hrest⟩
  · exact hrest
  -- the way to the first module would go on through the file of the second one
  · rw [hrest, List.concat_eq_append, hcs, hds, List.append_assoc, ← List.append_assoc [y],
      ← List.append_assoc ds] at hparts
    obtain ⟨rfl, -⟩ := List.append_inj' hparts rfl
    rw [hstart, FileTree.enter_append, henter'] at henter
    simp only [Except.bind, List.singleton_append, FileTree.enter, if_neg hy, hfile] at henter
    cases henter

/-- **How two files of the output lie to each other**: below the deepest directory that holds
both, the directories of the first one and the way to the second one have nothing in common. -/
theorem Collected.exists_common (h : Collected t cwd base request mainSeen testSeen c)
    (hm : m ∈ c.modules) (hk : k ∈ c.modules) :
    ∃ common climb dirs sourceName name,
      m.path.parts = c.layout.root ++ (common ++ climb ++ [sourceName]) ∧
      k.path.parts = c.layout.root ++ (common ++ (dirs ++ [name])) ∧
      dropCommon climb (dirs ++ [name]) = (climb, dirs ++ [name]) := by
  obtain ⟨sourceDirs, sourceName, hsource⟩ := h.parts_eq hm
  obtain ⟨targetDirs, targetName, htarget⟩ := h.parts_eq hk
  -- the second file is not a directory on the way to the first one
  have hfile : ¬ targetDirs ++ [targetName] <+: sourceDirs := by
    rintro ⟨climb, rfl⟩
    have hparts : m.path.parts = k.path.parts ++ (climb ++ [sourceName]) := by
      rw [hsource, htarget]
      simp only [List.append_assoc]
    have hbelow :=
      eq_nil_of_parts_append (h.loaded hm) (h.loaded hk) (h.root_eq hm hk) hparts
    simp at hbelow
  obtain ⟨common, climb, dirs, name, rfl, hrest, hcut⟩ := Source.exists_cut hfile
  exact ⟨common, climb, dirs, sourceName, name, hsource, by rw [htarget, hrest], hcut⟩

/-- **Where the specifier between two modules leads** once its marked characters are routed: to
the script of the second one, just if there are no marks. -/
theorem Collected.leads_iff (h : Collected t cwd base request mainSeen testSeen c)
    (hbase : base.Proper) (hm : m ∈ c.modules) (hk : k ∈ c.modules)
    (hmInside : c.layout.Inside m.path) (hkInside : c.layout.Inside k.path)
    {xs : List (Char × Bool)} (hs : SoundMarks xs)
    (hxs : xs.map Prod.fst =
      (relativeSpecifier cwd (c.layout.outPath m.path) (c.layout.outPath k.path)).toList) :
    (Module.target (.ofString (c.layout.outPath m.path))
        (String.ofList (routed xs))).text.toList =
      withScriptExtension (c.layout.outPath k.path).toList ↔ Unmarked xs := by
  obtain ⟨common, climb, dirs, sourceName, name, hsource, htarget, hcut⟩ :=
    h.exists_common hm hk
  have hsourceProper := h.proper_rest hbase hm hsource
  have htargetProper := h.proper_rest hbase hk htarget
  rw [Layout.inside_iff hsource] at hmInside
  rw [Layout.inside_iff htarget] at hkInside
  have hsourceUp : Path.up ∉ common ++ climb := fun hup => hmInside (List.mem_append_left _ hup)
  have hclimbUp : Path.up ∉ climb := fun hup => hsourceUp (List.mem_append_right _ hup)
  have htargetUp : Path.up ∉ dirs ++ [name] := fun hup => hkInside (List.mem_append_right _ hup)
  have hname : Path.ProperPart name := htargetProper name (by simp)
  have hdown : ∀ x ∈ dirs ++ [scriptName name], Path.ProperPart x :=
    properPart_script fun x hx => htargetProper x (List.mem_append_right _ hx)
  have hdownUp : Path.up ∉ dirs ++ [scriptName name] :=
    up_not_mem_script htargetUp
  have hscript : withScriptExtension (c.layout.outPath k.path).toList =
      (Path.text ⟨.none, common ++ (dirs ++ [scriptName name])⟩).toList := by
    rw [outPath_of_parts htarget, Path.text_relative (by simp), Path.text_relative (by simp),
      ← List.append_assoc, ← List.append_assoc, withScriptExtension_intercalate _ hname]
  rw [outPath_of_parts hsource, outPath_of_parts htarget,
    relativeSpecifier_eq cwd hsourceProper htargetProper hclimbUp htargetUp hcut] at hxs
  rw [hscript, String.toList_inj, outPath_of_parts hsource, Path.ofString_text hsourceProper]
  exact target_routed_iff (by simp) (fun x hx => hsourceProper x (by simp [hx])) hdown hsourceUp
    hdownUp hs hxs

/-! ### All links -/

/-- What replaces a relative specifier without a mapping: the way to the module that it leads to,
if there is one. -/
theorem replacing_eq (c : Collection) (cwd : Path) {s : String} (hrel : isRelative s = true)
    (hunmapped : request.mappings.lookup s = none) :
    c.replacing cwd request m s =
      if Module.target m.path s ∈ c.layout.modules then
        relativeSpecifier cwd (c.layout.outPath m.path)
          (c.layout.outPath (Module.target m.path s))
      else s := by
  rw [Collection.replacing, replacement, hunmapped]
  simp only [hrel, true_and]

/-- **Every occurrence is linked**, in the modules of a collection. -/
theorem Collected.linked (h : Collected t cwd base request mainSeen testSeen c)
    (hbase : base.Proper) (hm : m ∈ c.modules) (o : Occurrence m)
    (hrel : isRelative o.specifier = true)
    (hunmapped : request.mappings.lookup o.specifier = none) : o.Linked t cwd request c where
  text := by
    rw [adaptModule, String.toList_ofList]
    exact o.routeNamespace_eq (c.replacing cwd request m) request.shimPackage
  collected := by
    intro hthere
    obtain ⟨k, hk, hkt⟩ := h.closed hm (o.target_mem hrel) hthere
    exact List.mem_map.2 ⟨k, hk, hkt⟩
  collected_main := by
    intro hthere hmain
    obtain ⟨k, hk, hkt⟩ := h.main_closed hmain (o.target_mem hrel) hthere
    exact List.mem_map.2 ⟨k, hk, hkt⟩
  leads := by
    intro hthere hmInside htargetInside
    obtain ⟨k, hk, hkt⟩ := h.closed hm (o.target_mem hrel) hthere
    have hmem : Module.target m.path o.specifier ∈ c.layout.modules := by
      rw [h.modules_layout]
      exact List.mem_map.2 ⟨k, hk, hkt⟩
    have hway := replacing_eq (m := m) c cwd hrel hunmapped
    rw [if_pos hmem] at hway
    rw [← hkt]
    refine h.leads_iff hbase hm hk hmInside (hkt ▸ htargetInside) (soundMarks_part _ _ _) ?_
    rw [Occurrence.marks, map_part, hway, hkt]
    rfl
  kept := by
    intro hmissing
    have hnot : Module.target m.path o.specifier ∉ c.layout.modules := by
      rw [h.modules_layout]
      intro hmem
      obtain ⟨k, hk, hkt⟩ := List.mem_map.1 hmem
      have hthere := isThere_of_load (h.loaded hk)
      rw [hkt] at hthere
      exact absurd hthere (by rw [← Occurrence.target, hmissing]; simp)
    have hsame := replacing_eq (m := m) c cwd hrel hunmapped
    rw [if_neg hnot] at hsame
    rw [← o.emitted_eq_iff, hsame]

/-- **All links of a transformed program** are kept, but for those in which routing finds a
reference to the namespace. -/
theorem transform_links {w v : Workspace} {dir : String} {request : Request}
    {output : TransformOutput}
    (hrun : (transform (.ofString dir) request).run w = (.ok output, v)) :
    ∃ c, collect w.tree w.cwd (.ofString dir) request = .ok c ∧ output = c.adapt w.cwd request ∧
      ((Path.ofString dir).isAbsolute = true → ∀ m ∈ c.modules, c.layout.Inside m.path) ∧
      ∀ m ∈ c.modules, ∀ o : Occurrence m, isRelative o.specifier = true →
        request.mappings.lookup o.specifier = none → o.Linked w.tree w.cwd request c := by
  obtain ⟨c, hc, hout⟩ := collect_of_run_transform hrun
  obtain ⟨mainSeen, testSeen, h⟩ := collect_eq_ok_iff.1 hc
  refine ⟨c, hc, hout, fun habs m hm => h.inside (.ofString dir) habs hm, ?_⟩
  intro m hm o hrel hunmapped
  exact h.linked (.ofString dir) hm o hrel hunmapped

/-! ### A link that is lost -/

/-- A module with a quote in a regular expression, and an import after it. -/
def quoteModule : Module where
  path := .ofString "/p/mod.ts"
  text := "const quote = /\"/; import \"./Deno.ts\";\n"

/-- The module that it imports. -/
def denoModule : Module where
  path := .ofString "/p/Deno.ts"
  text := "export \x7b\x7d;\n"

/-- A tree with the two modules. -/
def quoteTree : FileTree :=
  ((FileTree.empty.insert ["p"] .directory).insert ["p", "mod.ts"]
    (.file quoteModule.text.toUTF8)).insert ["p", "Deno.ts"] (.file denoModule.text.toUTF8)

/-- The first of them is the only entry point. -/
def quoteRequest : Request where
  entryPoints := [.str "./mod.ts"]
  testEntryPoints := []
  shimPackage := "deno.ns"
  mappings := []

/-- Both of them are modules of the program. -/
def quoteCollection : Collection where
  main := [denoModule, quoteModule]
  test := []
  mainEntries := [quoteModule.path]
  testEntries := []
  layout := { modules := [denoModule.path, quoteModule.path], root := ["p"] }
  warnings := []

/-- The import of the second module. -/
def quoteOccurrence : Occurrence quoteModule where
  before := "const quote = /\"/; ".toList.map .plain
  found := { lead := "import ".toList, quote := '\x22', specifier := "./Deno.ts".toList }
  after := ";\n".toList.map .plain
  pieces_eq := by decide +kernel

theorem collect_quote : collect quoteTree (.ofString "/p") (.ofString "/p") quoteRequest =
    .ok quoteCollection :=
  collect_of_collectWithin 2 (by decide +kernel)

/-- **All links of the two modules**: transforming them succeeds. -/
theorem transform_links_quote : ∃ v, (transform (.ofString "/p") quoteRequest).run
      (.fresh (.ofString "/p") quoteTree) =
        (.ok (quoteCollection.adapt (.ofString "/p") quoteRequest), v) ∧
    ∃ c, collect quoteTree (.ofString "/p") (.ofString "/p") quoteRequest = .ok c ∧
      quoteCollection.adapt (.ofString "/p") quoteRequest = c.adapt (.ofString "/p") quoteRequest ∧
      ((Path.ofString "/p").isAbsolute = true → ∀ m ∈ c.modules, c.layout.Inside m.path) ∧
      ∀ m ∈ c.modules, ∀ o : Occurrence m, isRelative o.specifier = true →
        quoteRequest.mappings.lookup o.specifier = none →
          o.Linked quoteTree (.ofString "/p") quoteRequest c := by
  have hrun : (transform (.ofString "/p") quoteRequest).run
      (.fresh (.ofString "/p") quoteTree) =
        (.ok (quoteCollection.adapt (.ofString "/p") quoteRequest),
          ((transform (.ofString "/p") quoteRequest).run (.fresh (.ofString "/p") quoteTree)).2) :=
    Prod.ext (run_transform_of_ok (w := .fresh (.ofString "/p") quoteTree) collect_quote) rfl
  exact ⟨_, hrun, transform_links hrun⟩

/-- **A link that is lost**: the regular expression turns the string after it into code, and a
specifier in which a reference begins leads to a file that is not there. -/
theorem misled_link :
    collect quoteTree (.ofString "/p") (.ofString "/p") quoteRequest = .ok quoteCollection ∧
    quoteModule ∈ quoteCollection.modules ∧
    quoteOccurrence.specifier = "./Deno.ts" ∧
    isThere quoteTree (.ofString "/p") quoteOccurrence.target = true ∧
    quoteOccurrence.emitted (quoteCollection.replacing (.ofString "/p") quoteRequest quoteModule) =
      "./denoShim.Deno.js" ∧
    (Module.target (.ofString (quoteCollection.layout.outPath quoteModule.path))
      (quoteOccurrence.emitted
        (quoteCollection.replacing (.ofString "/p") quoteRequest quoteModule))).text.toList ≠
      withScriptExtension (quoteCollection.layout.outPath quoteOccurrence.target).toList := by
  refine ⟨collect_quote, ?_, ?_, ?_, ?_, ?_⟩
  · exact List.mem_cons_of_mem _ List.mem_cons_self
  · decide +kernel
  · decide +kernel
  · decide +kernel
  · decide +kernel

end DenoPackager.Transform
