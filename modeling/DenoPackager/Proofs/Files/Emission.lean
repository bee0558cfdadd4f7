import DenoPackager.Proofs.Course.Passes
import DenoPackager.Proofs.Files.Run
import Mathlib.Data.List.Nodup

/-!
# What the passes leave in the package

A pass lets the compiler emit into a scratch directory, and hands on the files that it finds there
to a directory of its own in the package. If the compiler emits one file for each source and no
other ones, the pass leaves exactly these files, and outside of its directory it leaves everything
as it was.

## Main definitions

* `touched`: the places below some names of a directory.
* `Tools.Compiles`: compilers that emit one file for each source.
* `Pass.Leaves`: what a pass leaves in the package.

## Main results

* `Pass.of_run`: a pass leaves what its sources are compiled to.
* `Pass.of_run_emitAll`: passes in order do not disturb each other.
-/

namespace DenoPackager

open DenoPackager.Action
open DenoPackager.Path (ProperPart)

variable {w v : Workspace} {dir place : Place} {names : List String} {name : String}

/-! ### Places in the package -/

/-- **The places below some names of a directory**, and the place of temporary directories. -/
def touched (dir : Place) (names : List String) : Set Place :=
  {q | q = temporaryRoot ∨ ∃ name ∈ names, dir ++ [name] <+: q}

theorem touched_mono {names' : List String} (h : names ⊆ names') :
    touched dir names ⊆ touched dir names' := by
  rintro q (hq | ⟨name, hname, hpre⟩)
  · exact .inl hq
  · exact .inr ⟨name, h hname, hpre⟩

/-- A place below one name is not below another one. -/
theorem not_mem_touched (hname : name ∉ names) (htemporary : temporaryRoot ≠ [name])
    (parts : List String) : dir ++ name :: parts ∉ touched dir names := by
  rintro (heq | ⟨other, hother, hpre⟩)
  · cases dir with
    | nil =>
      rw [List.nil_append, temporaryRoot, List.cons.injEq] at heq
      exact htemporary (by rw [temporaryRoot, heq.1])
    | cons d ds => simp [temporaryRoot] at heq
  · rw [List.prefix_append_right_inj, List.cons_prefix_cons] at hpre
    exact hname (hpre.1 ▸ hother)

/-- **A scratch directory** is apart from a directory that was there before and from all names in it
that are not those of scratch directories. -/
theorem scratch_apart_name {t : FileTree} (hdir : t.get? dir = some .directory)
    (htemporary : temporaryRoot ≠ [name]) (hname : ¬ "dnt-emit-".toList <+: name.toList) :
    ¬ temporaryPlace t temporaryRoot "dnt-emit-" <+: dir ∧
      (∀ q, ¬ dir ++ [name] <+: temporaryPlace t temporaryRoot "dnt-emit-" ++ q) ∧
      ∀ q, ¬ temporaryPlace t temporaryRoot "dnt-emit-" <+: dir ++ name :: q := by
  have hfree := temporaryPlace_free t temporaryRoot "dnt-emit-"
  generalize hscratch : temporaryPlace t temporaryRoot "dnt-emit-" = scratch at hfree ⊢
  have hout : ¬ scratch <+: dir := by
    intro hpre
    rw [FileTree.get?_eq_none_below hfree hpre] at hdir
    simp at hdir
  have hin : ¬ dir ++ [name] <+: scratch := by
    intro hpre
    obtain ⟨more, hmore⟩ := exists_freshName (t.childNames temporaryRoot) "dnt-emit-"
    rw [temporaryPlace, hmore] at hscratch
    rw [← hscratch] at hpre
    rcases List.prefix_concat_iff.1 hpre with heq | habove
    · obtain ⟨-, hlast⟩ := List.append_inj' heq rfl
      refine hname ⟨more.toList, ?_⟩
      rw [List.singleton_inj.1 hlast, String.toList_append]
    · have hroot : dir ++ [name] <+: [] ++ temporaryRoot := habove
      rcases List.prefix_concat_iff.1 hroot with heq | hnil
      · exact not_mem_touched List.not_mem_nil htemporary [] (.inl heq)
      · simpa using List.prefix_nil.1 hnil
  have hnot : ¬ scratch <+: dir ++ [name] := by
    intro hpre
    rcases List.prefix_concat_iff.1 hpre with heq | habove
    · exact hin (heq ▸ List.prefix_refl _)
    · exact hout habove
  refine ⟨hout, fun q hpre => ?_, fun q hpre => ?_⟩
  · exact (List.prefix_or_prefix_of_prefix hpre (List.prefix_append scratch q)).elim hin hnot
  · have hbelow : dir ++ [name] <+: dir ++ name :: q :=
      ⟨q, by rw [List.append_assoc, List.singleton_append]⟩
    exact (List.prefix_or_prefix_of_prefix hpre hbelow).elim hnot hin

/-! ### Handing on -/

/-- A text is put together again from what was split off. -/
theorem encode_splitMark (text : String) :
    Writer.encode (splitMark text).1 (splitMark text).2 = text.toUTF8 := by
  rw [splitMark]
  split
  · rename_i c cs hcs
    split
    · rename_i hmark
      rw [Writer.encode, if_pos rfl]
      refine congrArg String.toUTF8 (String.toList_inj.1 ?_)
      rw [String.toList_append, String.toList_ofList, String.toList_singleton, hcs, hmark,
        List.singleton_append]
    · rfl
  · rfl

/-- **The bytes of a file that was handed on**: its text, written again. -/
def relayedBytes (content : ByteArray) : ByteArray :=
  match FileTree.textOfBytes content with
  | .ok text => text.toUTF8
  | .error _ => content

theorem relayedBytes_eq {content : ByteArray} {text : String}
    (h : FileTree.textOfBytes content = .ok text) : relayedBytes content = text.toUTF8 := by
  rw [relayedBytes, h]

/-- **Handing on** one file. -/
theorem of_run_relay (hw : w.Grounded) {scratch package : Path} (hscratch : w.Leads scratch place)
    (hpackage : w.Leads package dir) (hproper : package.Proper) {policy : Policy} {q : Place}
    (hq : ∀ c ∈ name :: q, ProperPart c) (hne : q ≠ []) (hup : Path.up ∉ name :: q)
    {content : ByteArray} (hcontent : w.tree.file? (place ++ q) = some content) {f : EmittedFile}
    (h : (Program.relay scratch (package.child name) (Pass.writeEmitted policy) q).run w =
      (.ok f, v)) :
    w.Wrote [(dir ++ name :: q, relayedBytes content)] v ∧
      v.Names { package with parts := package.parts ++ name :: q } (dir ++ name :: q) ∧
      ∃ text, FileTree.textOfBytes content = .ok text := by
  obtain ⟨text, u, hlook, hrest⟩ := of_run_bind_eq_ok h
  obtain ⟨hread, rfl⟩ := of_run_look_eq_ok hlook
  have hencode := encode_splitMark text
  rcases hsplit : splitMark text with ⟨rest, mark⟩
  rw [hsplit] at hrest hencode
  obtain ⟨_, u', hwrite, hend⟩ := of_run_bind_eq_ok hrest
  rw [run_pure, Prod.mk.injEq] at hend
  obtain rfl := hend.2
  rw [List.mem_cons, not_or] at hup
  have htext : FileTree.textOfBytes content = .ok text := by
    rw [FileTree.readText] at hread
    split at hread
    · rename_i found hfound
      have hfile : u.tree.file? (place ++ q) = some found :=
        hscratch.file?_of_readBytes hne hup.2 hfound
      rw [hcontent, Option.some.injEq] at hfile
      rwa [hfile]
    · simp at hread
  have hpath : Path.ofString ((package.child name).join ⟨.none, q⟩).text =
      { package with parts := package.parts ++ name :: q } := by
    have hjoin : (package.child name).join ⟨.none, q⟩ =
        { package with parts := package.parts ++ name :: q } := by
      rw [Path.join, Path.child, List.append_assoc, List.singleton_append]
    rw [hjoin]
    refine Path.ofString_text fun c hc => ?_
    rcases List.mem_append.1 hc with hc | hc
    · exact hproper c hc
    · exact hq c hc
  rw [Pass.writeEmitted, hpath] at hwrite
  obtain ⟨hnames, hwrote⟩ := Writer.wrote_below hw hpackage (by simp)
    (by rw [List.mem_cons, not_or]; exact hup) hwrite
  refine ⟨?_, hnames, text, htext⟩
  rw [relayedBytes_eq htext, ← hencode]
  exact hwrote

/-- **Handing on** files from outside of the directory that they are handed on to. -/
theorem of_run_relays (hw : w.Grounded) {scratch package : Path} (hscratch : w.Leads scratch place)
    (hpackage : w.Leads package dir) (hproper : package.Proper) {policy : Policy}
    (hapart : ∀ q, ¬ dir ++ [name] <+: place ++ q) {qs : List Place}
    (hqs : ∀ q ∈ qs, (∀ c ∈ name :: q, ProperPart c) ∧ q ≠ [] ∧ Path.up ∉ name :: q)
    {content : Place → ByteArray}
    (hcontent : ∀ q ∈ qs, w.tree.file? (place ++ q) = some (content q)) {fs : List EmittedFile}
    (h : (mapEach (Program.relay scratch (package.child name) (Pass.writeEmitted policy)) qs).run
      w = (.ok fs, v)) :
    w.Wrote (qs.map fun q => (dir ++ name :: q, relayedBytes (content q))) v ∧
      ∀ q ∈ qs, v.Names { package with parts := package.parts ++ name :: q } (dir ++ name :: q) ∧
        ∃ text, FileTree.textOfBytes (content q) = .ok text := by
  have hstep : ∀ q ∈ qs, ∀ x, w.SameOutside {q | dir ++ [name] <+: q} x → ∀ (f : EmittedFile) y,
      (Program.relay scratch (package.child name) (Pass.writeEmitted policy) q).run x = (.ok f, y) →
        x.Wrote [(dir ++ name :: q, relayedBytes (content q))] y ∧
          (y.Names { package with parts := package.parts ++ name :: q } (dir ++ name :: q) ∧
            ∃ text, FileTree.textOfBytes (content q) = .ok text) ∧ True := by
    intro q hq x hx f y hy
    obtain ⟨hparts, hne, hup⟩ := hqs q hq
    have hkept := (hx.tree.files _ (hapart q)).trans (hcontent q hq)
    obtain ⟨hwrote, hnames, htext⟩ := of_run_relay (hx.grounded hw) (hx.leads hscratch)
      (hx.leads hpackage) hproper hparts hne hup hkept hy
    exact ⟨hwrote, ⟨hnames, htext⟩, trivial⟩
  have hbelow : ∀ q ∈ qs, dir ++ name :: q ∈ {q | dir ++ [name] <+: q} := fun q _ =>
    ⟨q, by rw [List.append_assoc, List.singleton_append]⟩
  obtain ⟨hwrote, hnames, -⟩ := of_run_mapEach_eq_ok hstep hbelow
    (fun q x y hxy hx => ⟨hxy.names hx.1, hx.2⟩) h
  exact ⟨hwrote, hnames⟩

/-! ### Compiled files -/

namespace Pass

/-- The extension of what the compiler emits in the pass. -/
def extension : Pass → String
  | .declarations => ".d.ts"
  | _ => ".js"

/-- What the pass makes of a source, told by its path and its text, before the compiler gets it. -/
def prepare (pass : Pass) (path text : String) : String :=
  pass.transforms.foldl (fun text transform => transform path text) text

variable {pass : Pass}

theorem extension_shape (pass : Pass) :
    '/' ∉ pass.extension.toList ∧ 2 < pass.extension.length := by
  cases pass <;> decide

/-- The directory of a pass is a proper name, and holds no temporary files. -/
theorem directory_shape (pass : Pass) : ProperPart pass.directory ∧ pass.directory ≠ Path.up ∧
    temporaryRoot ≠ [pass.directory] ∧ ¬ "dnt-emit-".toList <+: pass.directory.toList := by
  cases pass <;> decide

/-- A path below the directory of a pass, as it is written in the package. -/
theorem ofString_directory (pass : Pass) (name : String) :
    Path.ofString ("./" ++ pass.directory ++ "/" ++ name) =
      ⟨.none, pass.directory :: (Path.ofString name).parts⟩ := by
  have hdirectory : Path.components ("./" ++ pass.directory).toList = [pass.directory] := by
    cases pass <;> decide
  have hroot (rest : List Char) : Path.rootOf ("./".toList ++ rest) = .none := by
    rw [show "./".toList = ['.', '/'] from rfl]
    exact Path.rootOf_append .none (s := ['.', '/'] ++ rest) (by simp)
  rw [Path.ofString, String.toList_append, String.toList_append, List.append_assoc,
    show "/".toList = ['/'] from rfl, List.singleton_append, Path.components_append, hdirectory,
    String.toList_append, List.append_assoc, hroot]
  rfl

theorem isBelow_compiled {source name : String} (h : IsBelow source)
    (hname : compiledName? pass.extension source = some name) : IsBelow name :=
  (h.parts_compiledName? pass.extension_shape.1 pass.extension_shape.2 hname).1

/-- No file is compiled to a small manifest. -/
theorem parts_ne_manifest {source name : String} (h : IsBelow source)
    (hname : compiledName? pass.extension source = some name) :
    (Path.ofString name).parts ≠ ["package.json"] := by
  obtain ⟨-, dirs, last, -, hparts⟩ :=
    h.parts_compiledName? pass.extension_shape.1 pass.extension_shape.2 hname
  rw [hparts]
  intro heq
  have hsplit : dirs ++ [stemName last ++ pass.extension] = [] ++ ["package.json"] := heq
  obtain ⟨-, hlast⟩ := List.append_inj' hsplit rfl
  have hend := congrArg (fun s => s.toList.getLast?) (List.singleton_inj.1 hlast)
  simp only [String.toList_append] at hend
  cases pass <;> simp [extension] at hend

end Pass

/-- **A compiler that emits one file for each source** that is no declaration file, under the path
of the source with another extension, and no other files. What it emits for a source is given by
`emit`. -/
def Tools.Compiles (tools : Tools) (emit : CompilerRun → String → ByteArray) : Prop :=
  ∀ w run pass code stdout stderr outputs, run.phase = .pass pass →
    tools.compiler w run = .exits code stdout stderr outputs →
      ∀ name content, (name, content) ∈ outputs ↔ ∃ source text, (source, text) ∈ run.files ∧
        compiledName? pass.extension source = some name ∧ content = emit run source

/-- What a compiler emits that leaves every source as it is. -/
def echo (run : CompilerRun) (source : String) : ByteArray :=
  ((run.files.lookup source).getD "").toUTF8

/-- The files that such a compiler emits. -/
def echoed (run : CompilerRun) : List (String × ByteArray) :=
  match run.phase with
  | .pass pass => run.files.filterMap fun f =>
      (compiledName? pass.extension f.1).map fun name => (name, echo run f.1)
  | _ => []

/-- External programs that find no fault, of which the compiler leaves every source as it is. -/
def echoTools : Tools where
  platform := "linux"
  packageManager := fun _ _ => .exits 0
  compiler := fun _ run => .exits 0 "" "" (echoed run)

/-- Such a compiler emits one file for each source. -/
theorem echoTools_compiles : echoTools.Compiles echo := by
  intro w run pass code stdout stderr outputs hphase hexits name content
  rw [echoTools, CompilerOutcome.exits.injEq, echoed, hphase] at hexits
  rw [← hexits.2.2.2, List.mem_filterMap]
  constructor
  · rintro ⟨⟨source, text⟩, hs, hmade⟩
    obtain ⟨made, hmade, hpair⟩ := Option.map_eq_some_iff.1 hmade
    rw [Prod.mk.injEq] at hpair
    exact ⟨source, text, hs, hpair.1 ▸ hmade, hpair.2.symm⟩
  · rintro ⟨source, text, hs, hmade, rfl⟩
    exact ⟨(source, text), hs, Option.map_eq_some_iff.2 ⟨name, hmade, rfl⟩⟩

/-! ### Sources in the package -/

/-- The path of a source in a package. -/
def sourcePath (package : Path) (name : String) : String :=
  ((package.child "src").joinText name).text

/-- **A source in a package** lies below the source root as it is named. -/
theorem isSource_sourcePath {package : Path} (hproper : package.Proper) (hname : IsBelow name) :
    IsSource (package.child "src") (sourcePath package name) ∧
      sourceParts (package.child "src") (sourcePath package name) = (Path.ofString name).parts ∧
      sourceName (package.child "src") (sourcePath package name) = name := by
  have hjoined : Path.ofString (sourcePath package name) =
      { package.child "src" with
        parts := (package.child "src").parts ++ (Path.ofString name).parts } := by
    rw [sourcePath, hname.joinText]
    refine Path.ofString_text fun c hc => ?_
    rcases List.mem_append.1 hc with hc | hc
    · exact hproper.child (by decide) c hc
    · exact Path.Proper.ofString name c hc
  have hbelow : (Path.ofString (sourcePath package name)).below? (package.child "src") =
      some ⟨.none, (Path.ofString name).parts⟩ := by
    rw [hjoined, Path.below?, if_pos, List.drop_left]
    simp [Path.isWithin]
  have hparts : sourceParts (package.child "src") (sourcePath package name) =
      (Path.ofString name).parts := by
    rw [sourceParts, hbelow]
    rfl
  refine ⟨⟨?_, ?_, ?_⟩, hparts, ?_⟩
  · rw [hparts, hbelow]
  · rw [hparts]
    exact hname.ne_nil
  · rw [hparts]
    exact hname.up_not_mem
  · rw [sourceName, hparts, ← hname.eq_text]

/-- **The sources of a project**: the given files, each one below the source root of the package. -/
structure Project.Holds (project : Project) (package : Path) (files : List TransformedFile) :
    Prop where
  root : project.options.path .rootDir = .ok (package.child "src")
  files_eq : project.files = files.map fun f => (sourcePath package f.path, f.text)
  below : ∀ f ∈ files, IsBelow f.path
  nodup : (files.map (·.path)).Nodup

/-- A pass changes no sources. -/
theorem Project.Holds.configure {project : Project} {package : Path} {files : List TransformedFile}
    (h : project.Holds package files) (pass : Pass) :
    (pass.configure package project).Holds package files where
  root := by
    rw [← h.root]
    cases pass <;> rfl
  files_eq := h.files_eq
  below := h.below
  nodup := h.nodup

/-- **What a pass leaves in the package**, if it runs the compiler as `run` says and was begun in
`w`: the run has the given sources, the directory of the pass has a file for each of them, and all
other files there are as they were. -/
structure Pass.Leaves (pass : Pass) (emit : CompilerRun → String → ByteArray) (package : Path)
    (dir : Place) (files : List TransformedFile) (w v : Workspace) (run : CompilerRun) : Prop where
  compiled : .compiled run ∈ v.events
  phase : run.phase = .pass pass
  sources : ∀ f ∈ files, f.path ≠ "tsconfig.json" →
    (f.path, pass.prepare (sourcePath package f.path) f.text) ∈ run.files
  emitted : ∀ f ∈ files, ∀ name, compiledName? pass.extension f.path = some name →
    v.Names { package with parts := package.parts ++ pass.directory :: (Path.ofString name).parts }
        (dir ++ pass.directory :: (Path.ofString name).parts) ∧
      ∃ g ∈ files, compiledName? pass.extension g.path = some name ∧
        ∃ text, FileTree.textOfBytes (emit run g.path) = .ok text ∧
          v.tree.file? (dir ++ pass.directory :: (Path.ofString name).parts) = some text.toUTF8
  kept : ∀ q, q ≠ ["package.json"] →
    (∀ f ∈ files, ∀ name, compiledName? pass.extension f.path = some name →
      (Path.ofString name).parts ≠ q) →
    v.tree.file? (dir ++ pass.directory :: q) = w.tree.file? (dir ++ pass.directory :: q)

namespace Pass

variable {pass : Pass} {c : Compiler} {tools : Tools} {compilerPolicy writerPolicy : Policy}
  {package : Path} {project : Project} {files : List TransformedFile} {run : CompilerRun}
  {emit : CompilerRun → String → ByteArray}

/-- The sources that the compiler gets in a pass are those of the project. -/
theorem of_stages (hproper : package.Proper) (hholds : project.Holds package files)
    (hstages : run.Stages (package.child "src") (project.program.prepared pass.transforms)) :
    (∀ s, (∃ text, (s, text) ∈ run.files) ↔ ∃ f ∈ files, s = f.path) ∧
      ∀ f ∈ files, f.path ≠ "tsconfig.json" →
        (f.path, pass.prepare (sourcePath package f.path) f.text) ∈ run.files := by
  have hprepared : project.program.prepared pass.transforms =
      files.map fun f =>
        (sourcePath package f.path, pass.prepare (sourcePath package f.path) f.text) := by
    rw [Program.prepared, Project.program, hholds.files_eq, List.map_map]
    rfl
  have hsource := fun f hf => isSource_sourcePath hproper (hholds.below f hf)
  rw [hprepared] at hstages
  refine ⟨fun s => ⟨?_, ?_⟩, ?_⟩
  · rintro ⟨text, hs⟩
    obtain ⟨_, hmem, rfl⟩ := hstages.source s text hs
    obtain ⟨f, hf, rfl⟩ := List.mem_map.1 hmem
    exact ⟨f, hf, (hsource f hf).2.2⟩
  · rintro ⟨f, hf, rfl⟩
    obtain ⟨text, hs⟩ := hstages.staged _ (List.mem_map_of_mem hf)
    rw [(hsource f hf).2.2] at hs
    exact ⟨text, hs⟩
  · intro f hf hne
    have htext := hstages.text _ (List.mem_map_of_mem hf) ?_ ?_
    · rwa [(hsource f hf).2.2] at htext
    · rw [(hsource f hf).2.1]
      intro hparts
      refine hne ?_
      rw [(hholds.below f hf).eq_text, hparts]
      rfl
    · intro _ hmem hparts
      obtain ⟨g, hg, rfl⟩ := List.mem_map.1 hmem
      rw [(hsource f hf).2.1, (hsource g hg).2.1,
        (hholds.below g hg).parts_inj (hholds.below f hf)] at hparts
      rw [List.inj_on_of_nodup_map hholds.nodup hg hf hparts]

/-- **What the compiler puts out in a pass**: one file for each source, below the directory that it
emits to. -/
theorem of_compiles (htools : tools.Compiles emit) (hbelow : ∀ f ∈ files, IsBelow f.path)
    (hsources : ∀ s, (∃ text, (s, text) ∈ run.files) ↔ ∃ f ∈ files, s = f.path)
    (hphase : run.phase = .pass pass) {code : Int} {stdout stderr : String}
    {outputs : List (String × ByteArray)}
    (hexits : tools.compiler w run = .exits code stdout stderr outputs) :
    (∀ o ∈ outputs, IsBelow o.1) ∧ ∀ name content, (name, content) ∈ outputs ↔
      ∃ f ∈ files, compiledName? pass.extension f.path = some name ∧ content = emit run f.path := by
  have hout : ∀ name content, (name, content) ∈ outputs ↔
      ∃ f ∈ files, compiledName? pass.extension f.path = some name ∧ content = emit run f.path := by
    intro name content
    rw [htools w run pass code stdout stderr outputs hphase hexits]
    constructor
    · rintro ⟨source, text, hs, hname, hcontent⟩
      obtain ⟨f, hf, rfl⟩ := (hsources source).1 ⟨text, hs⟩
      exact ⟨f, hf, hname, hcontent⟩
    · rintro ⟨f, hf, hname, hcontent⟩
      obtain ⟨text, hs⟩ := (hsources f.path).2 ⟨f, hf, rfl⟩
      exact ⟨f.path, text, hs, hname, hcontent⟩
  refine ⟨?_, hout⟩
  rintro ⟨name, content⟩ ho
  obtain ⟨f, hf, hname, -⟩ := (hout name content).1 ho
  exact isBelow_compiled (hbelow f hf) hname

/-- **A scratch directory** is apart from the package and its passes. -/
theorem scratch_apart (pass : Pass) {t : FileTree} (hdir : t.get? dir = some .directory) :
    ¬ temporaryPlace t temporaryRoot "dnt-emit-" <+: dir ∧
      (∀ q, ¬ dir ++ [pass.directory] <+: temporaryPlace t temporaryRoot "dnt-emit-" ++ q) ∧
      ∀ q, ¬ temporaryPlace t temporaryRoot "dnt-emit-" <+: dir ++ pass.directory :: q :=
  scratch_apart_name hdir pass.directory_shape.2.2.1 pass.directory_shape.2.2.2

/-- Only the place for temporary directories may hold something else above a scratch directory. -/
theorem eq_temporaryRoot {t : FileTree} {q : Place}
    (hq : q <+: temporaryPlace t temporaryRoot "dnt-emit-")
    (hne : q ≠ temporaryPlace t temporaryRoot "dnt-emit-") (hget : t.get? q ≠ some .directory) :
    q = temporaryRoot := by
  have hroot : q <+: [] ++ temporaryRoot := (List.prefix_concat_iff.1 hq).resolve_left hne
  refine (List.prefix_concat_iff.1 hroot).resolve_right fun hnil => hget ?_
  rw [List.prefix_nil.1 hnil, FileTree.get?_nil]

/-- **A scratch directory that holds what the files are compiled to**, and nothing else. -/
structure Compiled (pass : Pass) (emit : CompilerRun → String → ByteArray)
    (files : List TransformedFile) (run : CompilerRun) (u : FileTree) (scratch : Place) : Prop where
  found : ∀ q ∈ u.filesBelow scratch, ∃ f ∈ files, ∃ name,
    compiledName? pass.extension f.path = some name ∧ (Path.ofString name).parts = q ∧
      u.file? (scratch ++ q) = some (emit run f.path)
  there : ∀ f ∈ files, ∀ name, compiledName? pass.extension f.path = some name →
    (Path.ofString name).parts ∈ u.filesBelow scratch

/-- A scratch directory that was empty holds what the compiler puts out. -/
theorem compiled_of_outputs {t u : FileTree} {scratch : Place} {outputs : List (String × ByteArray)}
    (hempty : ∀ q, t.file? (scratch ++ q) = none)
    (hwrote : t.Wrote (outputs.map fun o => (scratch ++ (Path.ofString o.1).parts, o.2)) u)
    (houtputs : ∀ name content, (name, content) ∈ outputs ↔
      ∃ f ∈ files, compiledName? pass.extension f.path = some name ∧ content = emit run f.path) :
    pass.Compiled emit files run u scratch := by
  have hmem : ∀ q content, (scratch ++ q, content) ∈
      outputs.map (fun o => (scratch ++ (Path.ofString o.1).parts, o.2)) ↔ ∃ f ∈ files, ∃ name,
        compiledName? pass.extension f.path = some name ∧ (Path.ofString name).parts = q ∧
          content = emit run f.path := by
    intro q content
    rw [List.mem_map]
    constructor
    · rintro ⟨⟨name, content'⟩, ho, heq⟩
      rw [Prod.mk.injEq, List.append_cancel_left_eq] at heq
      obtain ⟨f, hf, hname, hcontent⟩ := (houtputs name content').1 ho
      exact ⟨f, hf, name, hname, heq.1, heq.2.symm.trans hcontent⟩
    · rintro ⟨f, hf, name, hname, rfl, hcontent⟩
      exact ⟨(name, content), (houtputs name content).2 ⟨f, hf, hname, hcontent⟩, rfl⟩
  refine ⟨fun q hq => ?_, fun f hf name hname => ?_⟩
  · obtain ⟨content, hcontent⟩ := FileTree.mem_filesBelow.1 hq
    rw [← FileTree.file?_eq_some_iff] at hcontent
    by_cases hplace : scratch ++ q ∈
        (outputs.map fun o => (scratch ++ (Path.ofString o.1).parts, o.2)).map Prod.fst
    · obtain ⟨content', hout, hfile⟩ := hwrote.written _ hplace
      obtain ⟨f, hf, name, hname, hparts, rfl⟩ := (hmem q content').1 hout
      exact ⟨f, hf, name, hname, hparts, hfile⟩
    · rw [hwrote.kept _ hplace, hempty] at hcontent
      simp at hcontent
  · have hout := (hmem _ _).2 ⟨f, hf, name, hname, rfl, rfl⟩
    obtain ⟨content, -, hfile⟩ := hwrote.written _ (List.mem_map_of_mem hout)
    exact FileTree.mem_filesBelow.2 ⟨content, FileTree.file?_eq_some_iff.1 hfile⟩

namespace Compiled

variable {u : FileTree} {scratch q : Place}

/-- What is found in a scratch directory has a proper path below the directory of the pass. -/
theorem proper (h : pass.Compiled emit files run u scratch)
    (hbelow : ∀ f ∈ files, IsBelow f.path) (hq : q ∈ u.filesBelow scratch) :
    (∀ c ∈ pass.directory :: q, ProperPart c) ∧ q ≠ [] ∧ Path.up ∉ pass.directory :: q := by
  obtain ⟨f, hf, name, hname, rfl, -⟩ := h.found q hq
  have hcompiled := isBelow_compiled (hbelow f hf) hname
  refine ⟨List.forall_mem_cons.2 ⟨pass.directory_shape.1, Path.Proper.ofString name⟩,
    hcompiled.ne_nil, ?_⟩
  rw [List.mem_cons, not_or]
  exact ⟨Ne.symm pass.directory_shape.2.1, hcompiled.up_not_mem⟩

/-- There is a file wherever one is found. -/
theorem file?_eq (h : pass.Compiled emit files run u scratch) (hq : q ∈ u.filesBelow scratch) :
    u.file? (scratch ++ q) = some ((u.file? (scratch ++ q)).getD .empty) := by
  obtain ⟨f, hf, name, -, -, hfile⟩ := h.found q hq
  rw [hfile, Option.getD_some]

/-- What is found under the name that a file is compiled to is what a file of that name is compiled
to. -/
theorem file?_compiled (h : pass.Compiled emit files run u scratch)
    (hbelow : ∀ f ∈ files, IsBelow f.path) {f : TransformedFile} (hf : f ∈ files)
    (hname : compiledName? pass.extension f.path = some name) :
    ∃ g ∈ files, compiledName? pass.extension g.path = some name ∧
      u.file? (scratch ++ (Path.ofString name).parts) = some (emit run g.path) := by
  obtain ⟨g, hg, name', hname', hparts, hfile⟩ := h.found _ (h.there f hf name hname)
  obtain rfl := ((isBelow_compiled (hbelow g hg) hname').parts_inj
    (isBelow_compiled (hbelow f hf) hname)).1 hparts
  exact ⟨g, hg, hname', hfile⟩

end Compiled

/-- **Running the compiler** on a scratch directory that is apart from the package and empty. -/
theorem compiled_of_run (htools : tools.Compiles emit) (hw : w.Grounded) (hproper : package.Proper)
    (hpackage : w.Leads package dir) (hholds : project.Holds package files) {scratch : Place}
    (hscratch : w.Leads ⟨.single, scratch⟩ scratch)
    (hempty : ∀ q, w.tree.file? (scratch ++ q) = none) (hout : ¬ scratch <+: dir)
    {diagnostics : List Diagnostic}
    (h : (c.run tools compilerPolicy (pass.configure package project).program.options
      ((pass.configure package project).program.prepared pass.transforms)
      (.emit (pass = .declarations) (some ⟨.single, scratch⟩))).run w = (.ok diagnostics, v)) :
    ∃ (run : CompilerRun) (written : List (Place × ByteArray)),
      .compiled run ∈ v.events ∧ run.phase = .pass pass ∧
      (∀ f ∈ files, f.path ≠ "tsconfig.json" →
        (f.path, pass.prepare (sourcePath package f.path) f.text) ∈ run.files) ∧
      w.Wrote (written.map fun o => (scratch ++ o.1, o.2)) v ∧
      pass.Compiled emit files run v.tree scratch := by
  have hconfigured := hholds.configure pass
  have hparent : (package.child "src").parent = package := by
    rw [Path.parent, Path.child, List.dropLast_concat]
  have hprepared : ∀ f ∈ (pass.configure package project).program.prepared pass.transforms,
      IsSource (package.child "src") f.1 := by
    intro f hf
    rw [Program.prepared, Project.program, hconfigured.files_eq, List.map_map, List.mem_map] at hf
    obtain ⟨g, hg, rfl⟩ := hf
    exact (isSource_sourcePath hproper (hholds.below g hg)).1
  obtain ⟨run, x, code, stdout, stderr, outputs, hphase, hstages, hexits, hleft⟩ :=
    Compiler.of_run_emit hw hconfigured.root (hparent.symm ▸ hpackage) hprepared hscratch hout h
  rw [phaseFor_emit _ _ _ none, phaseFor_configure] at hphase
  obtain ⟨hsources, htexts⟩ := of_stages hproper hconfigured hstages
  obtain ⟨houtBelow, houtputs⟩ := of_compiles htools hholds.below hsources hphase hexits
  obtain ⟨hevent, hwrote⟩ := hleft houtBelow
  refine ⟨run, outputs.map fun o => ((Path.ofString o.1).parts, o.2), hevent, hphase, htexts, ?_,
    compiled_of_outputs hempty hwrote.tree houtputs⟩
  rw [List.map_map]
  exact hwrote

/-- **Emitting through a scratch directory** that is apart from the package and empty. -/
theorem of_run_emitFrom (htools : tools.Compiles emit) (hw : w.Grounded) (hproper : package.Proper)
    (hpackage : w.Leads package dir) (hholds : project.Holds package files) {scratch : Place}
    (hscratch : w.Leads ⟨.single, scratch⟩ scratch)
    (hempty : ∀ q, w.tree.file? (scratch ++ q) = none) (hout : ¬ scratch <+: dir)
    (hin : ∀ q, ¬ dir ++ [pass.directory] <+: scratch ++ q) {r : EmitResult}
    (h : ((pass.configure package project).program.emitFrom c tools compilerPolicy
      (pass = .declarations) pass.transforms (writeEmitted writerPolicy) ⟨.single, scratch⟩).run w =
        (.ok r, v)) :
    w.SameOutside ({q | scratch <+: q} ∪ {q | dir ++ [pass.directory] <+: q}) v ∧
      ∃ run, pass.Leaves emit package dir files w v run := by
  obtain ⟨ds, u, hrun, hafterRun⟩ := of_run_bind_eq_ok h
  obtain ⟨outDir, u', hlook, hafterLook⟩ := of_run_bind_eq_ok hafterRun
  obtain ⟨hpath, rfl⟩ := of_run_look_eq_ok hlook
  obtain ⟨w', u'', hget, hafterGet⟩ := of_run_bind_eq_ok hafterLook
  rw [run_get, Prod.mk.injEq, Except.ok.injEq] at hget
  obtain ⟨rfl, rfl⟩ := hget
  obtain ⟨fs, v', hrelays, hend⟩ := of_run_bind_eq_ok hafterGet
  rw [run_pure, Prod.mk.injEq] at hend
  obtain rfl := hend.2
  have houtDir : package.child pass.directory = outDir := by
    have hset := (path_outDir_configure package).symm.trans hpath
    rw [Except.ok.injEq, target, Path.ofString_text (hproper.child pass.directory_shape.1)] at hset
    exact hset
  rw [← houtDir] at hrelays
  obtain ⟨run, written, hevent, hphase, htexts, hwrote, hcompiled⟩ :=
    compiled_of_run htools hw hproper hpackage hholds hscratch hempty hout hrun
  obtain ⟨hrelayed, hnames⟩ := of_run_relays (hwrote.sameOutside.grounded hw)
    (hwrote.sameOutside.leads hscratch) (hwrote.sameOutside.leads hpackage) hproper hin
    (fun _ hq => hcompiled.proper hholds.below hq) (fun _ hq => hcompiled.file?_eq hq) hrelays
  refine ⟨(hwrote.sameOutside.mono ?_).trans (hrelayed.sameOutside.mono ?_), run,
    hrelayed.events.subset hevent, hphase, htexts, ?_, ?_⟩
  · simp only [Set.subset_def, Set.mem_ofPred_eq, List.map_map, List.mem_map]
    rintro _ ⟨o, -, rfl⟩
    exact .inl (List.prefix_append _ _)
  · simp only [Set.subset_def, Set.mem_ofPred_eq, List.map_map, List.mem_map]
    rintro _ ⟨q, -, rfl⟩
    exact .inr ⟨q, by rw [List.append_assoc, List.singleton_append]; rfl⟩
  · intro f hf name hname
    have hq := hcompiled.there f hf name hname
    obtain ⟨hnamed, text, htext⟩ := hnames _ hq
    obtain ⟨g, hg, hgname, hfile⟩ := hcompiled.file?_compiled hholds.below hf hname
    rw [hfile, Option.getD_some] at htext
    refine ⟨hnamed, g, hg, hgname, text, htext, ?_⟩
    rw [← relayedBytes_eq htext, ← Option.getD_some (a := emit run g.path), ← hfile]
    refine hrelayed.tree.file?_eq (List.mem_map_of_mem hq) fun content hcontent => ?_
    obtain ⟨q, -, heq⟩ := List.mem_map.1 hcontent
    rw [Prod.mk.injEq, List.append_cancel_left_eq, List.cons.injEq] at heq
    rw [← heq.2, heq.1.2]
  · -- neither the compiler nor the relay writes to a place that no file is compiled to
    intro q _ hnone
    have hrelay : dir ++ pass.directory :: q ∉ ((u'.tree.filesBelow scratch).map fun q =>
        (dir ++ pass.directory :: q,
          relayedBytes ((u'.tree.file? (scratch ++ q)).getD .empty))).map Prod.fst := by
      simp only [List.map_map, List.mem_map, Function.comp_apply, List.append_cancel_left_eq,
        List.cons.injEq, true_and, exists_eq_right]
      intro hq
      obtain ⟨f, hf, name, hname, hparts, -⟩ := hcompiled.found q hq
      exact hnone f hf name hname hparts
    rw [hrelayed.tree.kept _ hrelay]
    refine hwrote.tree.kept _ fun hplace => ?_
    rw [List.map_map, List.mem_map] at hplace
    obtain ⟨o, -, ho⟩ := hplace
    refine hin o.1 ⟨q, ?_⟩
    rw [List.append_assoc, List.singleton_append]
    exact ho.symm

namespace Leaves

variable {s : Set Place} {u : Workspace}

/-- What happens before a pass elsewhere makes no difference. -/
theorem after (h : pass.Leaves emit package dir files v u run) (hsame : w.SameOutside s v)
    (hs : ∀ q, dir ++ pass.directory :: q ∉ s) : pass.Leaves emit package dir files w u run where
  compiled := h.compiled
  phase := h.phase
  sources := h.sources
  emitted := h.emitted
  kept q hne hnone := (h.kept q hne hnone).trans (hsame.tree.files _ (hs q))

/-- What happens after a pass makes no difference if it is elsewhere or at the small manifest. -/
theorem before (h : pass.Leaves emit package dir files w v run)
    (hbelow : ∀ f ∈ files, IsBelow f.path) (hsame : v.SameOutside s u)
    (hs : ∀ q, q ≠ ["package.json"] → dir ++ pass.directory :: q ∉ s) :
    pass.Leaves emit package dir files w u run where
  compiled := hsame.events.subset h.compiled
  phase := h.phase
  sources := h.sources
  emitted := by
    intro f hf name hname
    obtain ⟨hnamed, g, hg, hgname, text, htext, hfile⟩ := h.emitted f hf name hname
    refine ⟨hsame.names hnamed, g, hg, hgname, text, htext, ?_⟩
    rw [hsame.tree.files _ (hs _ (parts_ne_manifest (hbelow f hf) hname)), hfile]
  kept q hne hnone := (hsame.tree.files _ (hs q hne)).trans (h.kept q hne hnone)

end Leaves

/-- **Emitting in a pass** leaves what the sources are compiled to. -/
theorem of_run_emission (htools : tools.Compiles emit) (hw : w.Grounded) (hproper : package.Proper)
    (hpackage : w.Leads package dir) (hholds : project.Holds package files) {r : EmitResult}
    (h : ((pass.configure package project).program.emit c tools compilerPolicy (pass = .declarations)
      pass.transforms (writeEmitted writerPolicy)).run w = (.ok r, v)) :
    w.SameOutside (touched dir [pass.directory]) v ∧
      ∃ run, pass.Leaves emit package dir files w v run := by
  obtain ⟨u, hbody, rfl⟩ := of_run_withTemporary h
  have hne := temporaryPlace_ne_nil w.tree temporaryRoot "dnt-emit-"
  have hup : Path.up ∉ temporaryPlace w.tree temporaryRoot "dnt-emit-" := by
    rw [temporaryPlace, List.mem_append, List.mem_singleton, not_or]
    exact ⟨by decide, Ne.symm (freshName_ne_up _ (by decide))⟩
  have hfree := temporaryPlace_free w.tree temporaryRoot "dnt-emit-"
  obtain ⟨hout, hin, hoff⟩ := scratch_apart pass (hpackage.directory hw)
  have habove := fun q => eq_temporaryRoot (t := w.tree) (q := q)
  generalize temporaryPlace w.tree temporaryRoot "dnt-emit-" = scratch at *
  obtain ⟨hmadeTree, hself, hempty⟩ := FileTree.sameOutside_insert_empty hne hfree
  have hmade : w.SameOutside {temporaryRoot} (w.withDirectory scratch) :=
    ⟨rfl, hmadeTree.mono fun q hq => habove q hq.1 hq.2.1 hq.2.2, List.prefix_refl _⟩
  obtain ⟨hsame, run, hleaves⟩ := of_run_emitFrom htools (hmade.grounded hw) hproper
    (hmade.leads hpackage) hholds (Workspace.leads_place hself hup) hempty hout hin hbody
  have hgone : ∀ q, (u.tree.erase scratch).file? (dir ++ pass.directory :: q) =
      u.tree.file? (dir ++ pass.directory :: q) := by
    intro q
    refine FileTree.file?_congr ?_
    rw [FileTree.get?_erase hne, if_neg (hoff q)]
  have hafter : w.SameOutside (touched dir [pass.directory])
      { u with tree := u.tree.erase scratch } := by
    refine ⟨hsame.cwd.trans hmade.cwd, ?_, hmade.events.trans hsame.events⟩
    refine (FileTree.sameOutside_temporary hne hfree hsame.tree).mono ?_
    rintro q (⟨hq | hq, hnot⟩ | ⟨hq, hne, hget⟩)
    · exact absurd hq hnot
    · exact .inr ⟨_, List.mem_singleton_self _, hq⟩
    · exact .inl (habove q hq hne hget)
  refine ⟨hafter, run, hleaves.compiled, hleaves.phase, hleaves.sources, ?_, ?_⟩
  · intro f hf name hname
    obtain ⟨hnamed, g, hg, hgname, text, htext, hfile⟩ := hleaves.emitted f hf name hname
    rw [← hgone] at hfile
    refine ⟨?_, g, hg, hgname, text, htext, hfile⟩
    refine (hafter.leads hpackage).names (by simp) ?_ hnamed.1 hfile
    rw [List.mem_cons, not_or]
    exact ⟨Ne.symm pass.directory_shape.2.1,
      (isBelow_compiled (hholds.below f hf) hname).up_not_mem⟩
  · intro q hne hnone
    have hnot : dir ++ pass.directory :: q ∉ ({temporaryRoot} : Set Place) := fun heq =>
      not_mem_touched List.not_mem_nil pass.directory_shape.2.2.1 q (.inl heq)
    rw [hgone, hleaves.kept q hne hnone, hmade.tree.files _ hnot]

/-- **The last step of a pass** writes the small manifest, if there is one. -/
theorem of_run_conclude (hw : w.Grounded) (hpackage : w.Leads package dir) {result r : EmitResult}
    (h : (pass.conclude writerPolicy package result).run w = (.ok r, v)) :
    w.SameOutside {dir ++ [pass.directory, "package.json"]} v := by
  rw [conclude] at h
  split at h
  · obtain ⟨_, u, hmanifest, hrest⟩ := of_run_bind_eq_ok h
    obtain ⟨_, u', hlog, hend⟩ := of_run_bind_eq_ok hrest
    rw [run_pure, Prod.mk.injEq] at hend
    rw [← hend.2]
    refine Workspace.SameOutside.trans ?_ ((still_log _ _).touches _ _ hlog)
    rw [writeManifest] at hmanifest
    split at hmanifest
    · rename_i moduleType _
      have hpath : (pass.target package).child "package.json" =
          { package with parts := package.parts ++ [pass.directory, "package.json"] } := by
        rw [target, Path.child, Path.child, List.append_assoc]
        rfl
      rw [hpath] at hmanifest
      have hup : Path.up ∉ [pass.directory, "package.json"] := by cases pass <;> decide
      refine (Writer.wrote_below hw hpackage (by simp) hup hmanifest).2.sameOutside.mono ?_
      exact fun q hq => List.mem_singleton.1 hq
    · rw [run_pure, Prod.mk.injEq] at hmanifest
      rw [← hmanifest.2]
      exact .refl _ _
  · obtain ⟨_, u, -, hrest⟩ := of_run_bind_eq_ok h
    rw [run_fail] at hrest
    simp at hrest

/-- **A pass** leaves what its sources are compiled to, and nothing else but its small manifest. -/
theorem of_run (htools : tools.Compiles emit) (hw : w.Grounded) (hproper : package.Proper)
    (hpackage : w.Leads package dir) (hholds : project.Holds package files) {r : EmitResult}
    (h : (pass.run c tools compilerPolicy writerPolicy package (pass.configure package project)).run
      w = (.ok r, v)) :
    w.SameOutside (touched dir [pass.directory]) v ∧
      ∃ run, pass.Leaves emit package dir files w v run := by
  obtain ⟨program, u, hcompile, hrest⟩ := of_run_bind_eq_ok h
  have hstill : (pass.compile (pass.configure package project)).Still :=
    (still_log _ _).bind fun _ => (still_log _ _).bind fun _ => still_pure _
  have hbefore : w.SameOutside ∅ u := hstill.touches _ _ hcompile
  obtain rfl := (of_run_compile hcompile).1
  obtain ⟨result, u', hemit, hconclude⟩ := of_run_bind_eq_ok hrest
  obtain ⟨hsame, run, hleaves⟩ := of_run_emission htools (hbefore.grounded hw) hproper
    (hbefore.leads hpackage) hholds hemit
  have hlast := of_run_conclude (hsame.grounded (hbefore.grounded hw))
    (hsame.leads (hbefore.leads hpackage)) hconclude
  refine ⟨(hbefore.of_empty.trans hsame).trans (hlast.mono ?_), run, ?_⟩
  · rintro q rfl
    exact .inr ⟨_, List.mem_singleton_self _, ["package.json"], by simp⟩
  · refine (hleaves.after hbefore fun q => Set.notMem_empty _).before hholds.below hlast ?_
    intro q hne hmem
    have heq : dir ++ pass.directory :: q = dir ++ [pass.directory, "package.json"] := hmem
    rw [List.append_cancel_left_eq, List.cons.injEq] at heq
    exact hne heq.2

/-- **Passes in order** do not disturb each other. -/
theorem of_run_emitAll (htools : tools.Compiles emit) {passes : List Pass}
    (hnodup : (passes.map directory).Nodup) (hw : w.Grounded) (hproper : package.Proper)
    (hpackage : w.Leads package dir) (hholds : project.Holds package files)
    {results : List (Pass × EmitResult)}
    (h : (emitAll c tools compilerPolicy writerPolicy package project passes).run w =
      (.ok results, v)) :
    w.SameOutside (touched dir (passes.map directory)) v ∧
      ∀ pass ∈ passes, ∃ run, pass.Leaves emit package dir files w v run := by
  induction passes generalizing project w results with
  | nil =>
    obtain rfl : w = v := congrArg Prod.snd h
    exact ⟨.refl _ _, by simp⟩
  | cons pass passes ih =>
    rw [List.map_cons, List.nodup_cons] at hnodup
    rw [run_emitAll_cons] at h
    obtain ⟨result, u, hrun, hrest⟩ := of_run_bind_eq_ok h
    obtain ⟨later, u', hlater, hend⟩ := of_run_bind_eq_ok hrest
    rw [run_pure, Prod.mk.injEq] at hend
    obtain rfl := hend.2
    obtain ⟨hfirst, run, hleaves⟩ := of_run htools hw hproper hpackage hholds hrun
    obtain ⟨hothers, hall⟩ := ih hnodup.2 (hfirst.grounded hw) (hfirst.leads hpackage)
      (hholds.configure pass) hlater
    refine ⟨(hfirst.mono (touched_mono (by simp))).trans
      (hothers.mono (touched_mono (by simp))), ?_⟩
    intro q hq
    rcases List.mem_cons.1 hq with rfl | hq
    · refine ⟨run, hleaves.before hholds.below hothers fun parts _ => ?_⟩
      exact not_mem_touched hnodup.1 q.directory_shape.2.2.1 parts
    · obtain ⟨run, hleaves⟩ := hall q hq
      refine ⟨run, hleaves.after hfirst fun parts => ?_⟩
      refine not_mem_touched ?_ q.directory_shape.2.2.1 parts
      rw [List.mem_singleton]
      exact fun heq => hnodup.1 (heq ▸ List.mem_map_of_mem hq)

end Pass

end DenoPackager
