import DenoPackager.Proofs.Links.Kept
import DenoPackager.TestLauncher

/-!
# Where tests are registered

A test is registered with the namespace that its script refers to. If the script is routed, this
is the package that provides the namespace; else it is what the launcher installs. The launcher is
told which by a flag of the group of the tests, which says whether a module of that group is
routed. The entry points of the tests need not be in that group: those that the program reaches
itself are in the other one, and do not count for the flag.

## Main definitions

* `Collection.Routed`: the modules whose references are led through the package.
* `Registration`: where the tests are registered, and where the launcher takes them from.
* `TestLauncher.TakesFromPackage`: launchers that take the registered tests from a package.

## Main results

* `TestLauncher.takesFromPackage_code`: the flag decides where the launcher takes the tests from.
* `launcher_definitions`: transforming a program gives such a registration, with the exact
  condition under which the tests are taken from where they are registered.
-/

namespace DenoPackager

/-! ### What the launcher takes -/

namespace TestLauncher

/-- The first line of the launcher. -/
def firstLine : String :=
  "const process = require(\"process\");\n"

/-- **Launchers that take the registered tests from a package**, with the line after their first
one. -/
def TakesFromPackage (package launcher : String) : Prop :=
  (firstLine ++ packageDefinitions package).toList <+: launcher.toList

theorem text_cons (line : String) (lines : List String) :
    text (line :: lines) = line ++ "\n" ++ text lines := by
  rw [text, List.map_cons, String.join_cons]
  rfl

theorem packageDefinitions_toList (package : String) :
    ∃ rest, (packageDefinitions package).toList =
      'c' :: 'o' :: 'n' :: 's' :: 't' :: ' ' :: '\x7b' :: rest := by
  rw [packageDefinitions, text_cons]
  simp only [String.toList_append]
  exact ⟨_, rfl⟩

theorem collectorDefinitions_toList :
    ∃ rest, collectorDefinitions.toList =
      'c' :: 'o' :: 'n' :: 's' :: 't' :: ' ' :: 't' :: rest := by
  rw [collectorDefinitions, text_cons]
  generalize text _ = lines
  simp only [String.toList_append]
  exact ⟨_, rfl⟩

/-- Where the launcher takes the tests from stands right after its first line. -/
theorem code_eq (package : String) (testFiles : List String) (shimUsed : Bool) :
    ∃ rest, code package testFiles shimUsed = firstLine ++
      ((if shimUsed then packageDefinitions package else collectorDefinitions) ++ rest) := by
  refine ⟨"\nconst filePaths = " ++ ((Json.arr ((scripts testFiles).map .str)).indentedText ++
    (";\n" ++ runnerText)), ?_⟩
  unfold code firstLine
  simp only [String.append_assoc]

/-- **The flag decides** where the launcher takes the tests from. -/
theorem takesFromPackage_code (package : String) (testFiles : List String) (shimUsed : Bool) :
    TakesFromPackage package (code package testFiles shimUsed) ↔ shimUsed = true := by
  obtain ⟨rest, hcode⟩ := code_eq package testFiles shimUsed
  rw [TakesFromPackage, hcode, String.toList_append, String.toList_append, String.toList_append,
    List.prefix_append_right_inj]
  cases shimUsed with
  | true => simp
  | false =>
    -- The collector begins with a name where the line of the package has a brace.
    obtain ⟨taken, htaken⟩ := packageDefinitions_toList package
    obtain ⟨own, hown⟩ := collectorDefinitions_toList
    rw [if_neg (by simp), htaken, hown]
    simp

end TestLauncher

namespace Transform

variable {t : FileTree} {base cwd : Path} {request : Request} {c : Collection}
  {mainSeen testSeen : List Module}

/-! ### Routed modules -/

/-- **The modules that are routed**: their references to the namespace are led through the
package. -/
def Collection.Routed (c : Collection) (cwd : Path) (request : Request) (m : Module) : Prop :=
  (adaptModule cwd c.layout request m).2 = true

/-- The script of a routed module begins with the import of the package. -/
theorem Collection.Routed.shimImport_isPrefix {m : Module} (h : c.Routed cwd request m) :
    Source.shimImport request.shimPackage <+:
      (adaptModule cwd c.layout request m).1.text.toList := by
  simp only [Routed, adaptModule] at h ⊢
  rw [Source.routeNamespace] at h ⊢
  split at h
  · rename_i huses
    rw [if_pos huses, String.toList_ofList]
    exact List.prefix_append _ _
  · simp at h

/-- **The flag of a group** says whether one of its modules is routed. -/
theorem adaptGroup_shimUsed {ms : List Module} {entries : List Path} :
    (adaptGroup cwd c.layout request ms entries).shimUsed = true ↔
      ∃ m ∈ ms, c.Routed cwd request m := by
  simp [adaptGroup, Collection.Routed]

/-- Every module has its file in the output. -/
theorem Collection.adapt_mem_allFiles {m : Module} (hm : m ∈ c.modules) :
    (adaptModule cwd c.layout request m).1 ∈ (c.adapt cwd request).allFiles := by
  rcases List.mem_append.1 hm with hm | hm
  · refine List.mem_append_left _ (List.mem_map_of_mem (List.mem_map_of_mem hm))
  · refine List.mem_append_right _ (List.mem_map_of_mem (List.mem_map_of_mem hm))

/-! ### Where tests are registered -/

/-- **Where the tests are registered, and where they are taken from.** The modules `c` of a program
and of its tests are put out as `output`. -/
structure Registration (w : Workspace) (request : Request) (c : Collection)
    (output : TransformOutput) : Prop where
  adapted : output = c.adapt w.cwd request
  /-- The two groups are what their entry points reach. -/
  partition : Partition w.tree w.cwd c.mainEntries c.testEntries c.main c.test
  /-- The entry points of the tests are listed, whichever group their modules are in. -/
  listed : Aligned c.layout.outPath c.test c.modules c.testEntries output.test
  /-- The script of a routed module imports the package. -/
  imports : ∀ m ∈ c.modules, c.Routed w.cwd request m → ∃ f ∈ output.allFiles,
    f.path = c.layout.outPath m.path ∧ Source.shimImport request.shimPackage <+: f.text.toList
  /-- The launcher goes by the flag. -/
  taken : TestLauncher.TakesFromPackage request.shimPackage
      (TestLauncher.code request.shimPackage output.test.entryPoints output.test.shimUsed) ↔
    output.test.shimUsed = true
  /-- The flag counts the modules of the tests' own group. -/
  flag : output.test.shimUsed = true ↔ ∃ m ∈ c.test, c.Routed w.cwd request m
  /-- The flag is right about all entry points, unless the routed ones all belong to the program
  and nothing else in the tests is routed. -/
  heard : (∀ m ∈ c.modules, m.path ∈ c.testEntries → c.Routed w.cwd request m →
      output.test.shimUsed = true) ↔
    (∃ m ∈ c.test, c.Routed w.cwd request m) ∨
      ∀ m ∈ c.main, m.path ∈ c.testEntries → ¬ c.Routed w.cwd request m

/-- The flag is right about the entry points of the tests just if some module of their own group is
routed, or no entry point that the program reaches is. -/
theorem Collection.heard_iff (c : Collection) (cwd : Path) (request : Request) :
    (∀ m ∈ c.modules, m.path ∈ c.testEntries → c.Routed cwd request m →
        ∃ k ∈ c.test, c.Routed cwd request k) ↔
      (∃ m ∈ c.test, c.Routed cwd request m) ∨
        ∀ m ∈ c.main, m.path ∈ c.testEntries → ¬ c.Routed cwd request m := by
  constructor
  · intro hall
    by_cases hsome : ∃ m ∈ c.test, c.Routed cwd request m
    · exact .inl hsome
    · refine .inr fun m hm hentry hrouted => hsome ?_
      exact hall m (List.mem_append_left _ hm) hentry hrouted
  · rintro (hsome | hmain) m hm hentry hrouted
    · exact hsome
    · rcases List.mem_append.1 hm with hm | hm
      · exact absurd hrouted (hmain m hm hentry)
      · exact ⟨m, hm, hrouted⟩

/-- **The launcher takes the tests from the package** just if a module of the tests' own group is
routed. So it misses what the routed scripts that it runs have registered there if and only if
there are some, all of them belong to the program, and no module of the other group is routed. -/
theorem launcher_definitions {output : TransformOutput} {w v : Workspace}
    (hrun : (transform base request).run w = (.ok output, v)) :
    ∃ c, Registration w request c output := by
  obtain ⟨c, hcollect, rfl⟩ := collect_of_run_transform hrun
  obtain ⟨mainSeen, testSeen, h⟩ := collect_eq_ok_iff.1 hcollect
  have hflag : (c.adapt w.cwd request).test.shimUsed = true ↔
      ∃ m ∈ c.test, c.Routed w.cwd request m := adaptGroup_shimUsed
  exact ⟨c,
    { adapted := rfl
      partition := h.partition
      listed := adaptGroup_aligned fun e he => h.testEntry he
      imports := fun m hm hrouted =>
        ⟨_, c.adapt_mem_allFiles hm, rfl, hrouted.shimImport_isPrefix⟩
      taken := TestLauncher.takesFromPackage_code _ _ _
      flag := hflag
      heard := by
        rw [hflag]
        exact c.heard_iff w.cwd request }⟩

/-- A workspace with a module that imports the test of it. -/
def reachingWorkspace : Workspace :=
  .fresh (.ofString "/p") <|
    ((FileTree.empty.insert ["p"] .directory).insert ["p", "mod.ts"]
      (.file "import \"./mod.test.ts\";\n".toUTF8)).insert ["p", "mod.test.ts"]
      (.file "Deno.test(\"a\", () => \x7b\x7d);\n".toUTF8)

/-- The module is the entry point of the program, and its test that of the tests. -/
def reachingRequest : Request where
  entryPoints := [.str "./mod.ts"]
  testEntryPoints := [.str "./mod.test.ts"]
  shimPackage := "deno.ns"
  mappings := []

theorem launcher_definitions_reaching : ∃ output v,
    (transform (.ofString "/p") reachingRequest).run reachingWorkspace = (.ok output, v) ∧
      ∃ c, Registration reachingWorkspace reachingRequest c output := by
  have hruns : ∃ output, ((transform (.ofString "/p") reachingRequest).run reachingWorkspace).1 =
      .ok output :=
    exists_run_transform 3 (by decide +kernel)
  obtain ⟨output, hrun⟩ := hruns
  exact ⟨output, _, Prod.ext hrun rfl, launcher_definitions (Prod.ext hrun rfl)⟩

/-- **A test that is registered elsewhere.** The only test is routed, and the launcher runs it, but
does not take the tests from the package. -/
theorem unheard_test : ∃ output v,
    (transform (.ofString "/p") reachingRequest).run reachingWorkspace = (.ok output, v) ∧
    output.test.entryPoints = ["mod.test.ts"] ∧
    ⟨"mod.test.ts", "import * as denoShim from \"deno.ns\";\n" ++
      "denoShim.Deno.test(\"a\", () => \x7b\x7d);\n"⟩ ∈ output.allFiles ∧
    output.test.shimUsed = false ∧
    ¬ TestLauncher.TakesFromPackage "deno.ns"
      (TestLauncher.code "deno.ns" output.test.entryPoints output.test.shimUsed) := by
  have hruns : ∃ output,
      ((transform (.ofString "/p") reachingRequest).run reachingWorkspace).1 = .ok output ∧
      (output.test.entryPoints, output.allFiles, output.test.shimUsed) =
        (["mod.test.ts"], [⟨"mod.test.ts", "import * as denoShim from \"deno.ns\";\n" ++
          "denoShim.Deno.test(\"a\", () => \x7b\x7d);\n"⟩,
          ⟨"mod.ts", "import \"./mod.test.js\";\n"⟩], false) :=
    exists_run_transform_of_map (f := fun o => (o.test.entryPoints, o.allFiles, o.test.shimUsed)) 3
      (by decide +kernel)
  obtain ⟨output, hrun, hseen⟩ := hruns
  obtain ⟨hentries, hfiles, hflag⟩ : _ ∧ _ ∧ _ := by simpa only [Prod.mk.injEq] using hseen
  refine ⟨output, _, Prod.ext hrun rfl, hentries, ?_, hflag, ?_⟩
  · rw [hfiles]
    exact List.mem_cons_self
  · rw [TestLauncher.takesFromPackage_code, hflag]
    exact Bool.false_ne_true

end Transform

end DenoPackager
