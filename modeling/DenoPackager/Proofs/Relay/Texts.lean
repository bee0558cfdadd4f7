import DenoPackager.Proofs.Files.Emission
import DenoPackager.Proofs.Relay.Room

/-!
# What is handed on from an emission

Whatever the compiler leaves in its scratch directory is handed on: one file for each that is found
there, at the same path below the output directory, in the order of their paths. A file is read as
a text and written as one. The byte order mark survives this, since it is taken off and put back.
Carriage returns do not: reading turns every line end into a line feed, and writing leaves it at
that. So a file arrives byte for byte if and only if there is no carriage return in it.

## Main definitions

* `Program.Relayable`: workspaces from which all that was emitted can be handed on.
* `Program.Relayed`: the outcome of handing it on.

## Main results

* `Text.unifyLineEnds_eq_self_iff`: what reading a text leaves as it is.
* `Program.run_relays`: handing on succeeds, file by file.
* `Program.relayed_emit`: an emission hands on what the compiler left.
-/

namespace DenoPackager

open DenoPackager.Action
open DenoPackager.Path (follow)

/-- **Temporary work** by what is done in the directory. -/
theorem run_withTemporary_of_run {α : Type} {dir place : Place} {start : String}
    {body : Path → Action α} {w u : Workspace} {r : Except Failure α}
    (hplace : place = temporaryPlace w.tree dir start)
    (h : (body ⟨.single, place⟩).run (w.withDirectory place) = (r, u)) :
    (withTemporary dir start body).run w = (r, { u with tree := u.tree.erase place }) := by
  rw [run] at h
  rw [hplace] at h ⊢
  rw [withTemporary, run_bind_of_ok (run_get w), run_bind_of_ok (run_modify _ _)]
  simp only [run, ensuring, h]

/-! ### Texts -/

/-- **Unified line ends** are those of a text without a carriage return. -/
theorem Text.unifyLineEnds_eq_self_iff (s : List Char) : unifyLineEnds s = s ↔ '\r' ∉ s := by
  fun_induction unifyLineEnds s with
  | case1 => simp
  | case2 cs ih => simp
  | case3 cs h ih => simp
  | case4 c cs h h' ih =>
    have hc : '\r' ≠ c := fun heq => h' heq.symm
    simp [ih, hc]

/-- Texts with the same bytes are the same. -/
theorem toUTF8_injective {s s' : String} (h : s.toUTF8 = s'.toUTF8) : s = s' := by
  have hread := fromUTF8?_toUTF8 s
  rw [h, fromUTF8?_toUTF8] at hread
  exact (Option.some.inj hread).symm

/-- A text with the line ends that it is read with. -/
def unified (s : String) : String :=
  String.ofList (Text.unifyLineEnds s.toList)

theorem textOfBytes_toUTF8 (s : String) : FileTree.textOfBytes s.toUTF8 = .ok (unified s) := by
  rw [FileTree.textOfBytes, fromUTF8?_toUTF8]
  rfl

theorem unified_eq_self_iff (s : String) : unified s = s ↔ '\r' ∉ s.toList := by
  rw [← Text.unifyLineEnds_eq_self_iff, ← String.toList_inj, unified, String.toList_ofList]

/-! ### Places -/

namespace FileTree

variable {t : FileTree} {dir p q : Place}

/-- What is taken from the places of a list are some of them, in the same order. -/
theorem filterMap_sublist_places {g : Place × Node → Option Place}
    (hg : ∀ e p, g e = some p → p = e.1) (es : List (Place × Node)) :
    (es.filterMap g).Sublist (es.map Prod.fst) := by
  induction es with
  | nil => exact .slnil
  | cons e es ih =>
    rw [List.map_cons]
    cases h : g e with
    | none =>
      rw [List.filterMap_cons_none h]
      exact ih.cons _
    | some p =>
      rw [List.filterMap_cons_some h, hg e p h]
      exact ih.cons_cons _

/-- No file is listed twice below a directory. -/
theorem nodup_filesBelow (t : FileTree) (dir : Place) : (t.filesBelow dir).Nodup := by
  rw [filesBelow, (List.mergeSort_perm _ _).nodup_iff]
  refine (t.nodup_places_entriesFrom dir).sublist (filterMap_sublist_places ?_ _)
  rintro ⟨q, n⟩ p h
  cases n with
  | directory => simp at h
  | file content => exact (Option.some.inj h).symm

/-- **The files below a directory are listed in ascending order**, each one once. -/
theorem filesBelow_ascending (t : FileTree) (dir : Place) :
    (t.filesBelow dir).Pairwise fun p q => Path.namesLe p q = true ∧ p ≠ q := by
  have hsorted : (t.filesBelow dir).Pairwise fun p q => Path.namesLe p q = true :=
    List.pairwise_mergeSort (fun a b c => @Path.namesLe_trans a b c) Path.namesLe_total _
  exact hsorted.and (t.nodup_filesBelow dir)

/-- No file is on the way to another one. -/
theorem eq_of_prefix_of_mem_filesBelow (hp : p ∈ t.filesBelow dir) (hq : q ∈ t.filesBelow dir)
    (hpre : p <+: q) : p = q := by
  obtain ⟨rest, rfl⟩ := hpre
  obtain ⟨content, hfile⟩ := mem_filesBelow.1 hp
  obtain ⟨content', hfile'⟩ := mem_filesBelow.1 hq
  by_cases hrest : rest = []
  · rw [hrest, List.append_nil]
  · rw [← List.append_assoc, get?_below hrest (by simp [hfile])] at hfile'
    simp at hfile'

end FileTree

theorem hasNul_freshName (names : List String) {start : String} (h : Path.hasNul start = false) :
    Path.hasNul (freshName names start) = false := by
  have hmore : ∃ n, freshName names start = start ++ String.ofList (List.replicate n 'X') := by
    rw [freshName]
    split
    · exact ⟨_, rfl⟩
    · exact ⟨1, rfl⟩
  obtain ⟨n, hn⟩ := hmore
  simp only [Path.hasNul, List.contains_eq_mem, decide_eq_false_iff_not] at h ⊢
  rw [hn, String.toList_append, String.toList_ofList, List.mem_append, not_or]
  exact ⟨h, fun hmem => absurd (List.eq_of_mem_replicate hmem) (by decide)⟩

namespace Program

variable {policy : Policy} {outDir : Path} {scratch q : Place} {w x : Workspace}

/-- **The path that a file is handed on to**, by its place below the scratch directory. -/
def relayPath (outDir : Path) (q : Place) : Path :=
  { outDir with parts := outDir.parts ++ q }

/-- Where that path leads. -/
def relayPlace (cwd outDir : Path) (q : Place) : Place :=
  follow (outDir.start cwd) (outDir.parts ++ q)

/-- Different files are handed on to different places. -/
theorem relayPlace_injective {cwd : Path} {q' : Place} (hq : PlainPlace q) (hq' : PlainPlace q')
    (h : relayPlace cwd outDir q = relayPlace cwd outDir q') : q = q' := by
  rwa [relayPlace, relayPlace, Path.follow_append, Path.follow_append,
    Path.follow_of_not_mem hq.up_not_mem, Path.follow_of_not_mem hq'.up_not_mem,
    List.append_cancel_left_eq] at h

/-! ### Handing on one file -/

/-- **A text in the scratch directory is read.** -/
theorem readText_scratch (hscratch : PlainPlace scratch)
    (hnulScratch : scratch.any Path.hasNul = false) (hq : PlainPlace q) (hne : q ≠ [])
    (hnul : q.any Path.hasNul = false) {s : String}
    (hfile : x.tree.file? (scratch ++ q) = some s.toUTF8) :
    x.tree.readText x.cwd ⟨.single, scratch ++ q⟩ = .ok (unified s) := by
  have hdir : x.tree.get? scratch = some .directory :=
    FileTree.get?_above hne (FileTree.file?_eq_some_iff.1 hfile)
  have hleads := Workspace.leads_place hdir hscratch.up_not_mem
  have hnul' : (scratch ++ q).any Path.hasNul = false := by
    rw [List.any_append, hnulScratch, hnul]
    rfl
  have hnames := hleads.names hne hq.up_not_mem hnul' hfile
  have hread : x.tree.readBytes x.cwd ⟨.single, scratch ++ q⟩ = .ok s.toUTF8 :=
    hnames.readBytes_eq_ok_iff.2 hfile
  rw [FileTree.readText, hread]
  exact textOfBytes_toUTF8 s

/-- **Handing on one file** where there is room for it. -/
theorem run_relay (hx : x.Grounded) (hremembers : x.Remembers) (hout : outDir.Proper)
    (hallowed : policy.allowsWrite x.cwd outDir = true) (hscratch : PlainPlace scratch)
    (hnulScratch : scratch.any Path.hasNul = false) (hq : PlainPlace q) (hne : q ≠ [])
    (hnul : (outDir.parts ++ q).any Path.hasNul = false) {s : String}
    (hfile : x.tree.file? (scratch ++ q) = some s.toUTF8)
    (hroom : x.tree.HasRoom x.cwd (relayPath outDir q)) :
    ∃ f y, (relay ⟨.single, scratch⟩ outDir (Pass.writeEmitted policy) q).run x = (.ok f, y) ∧
      f.path = (relayPath outDir q).text ∧ y.cwd = x.cwd ∧
      y.written = x.written ++ [relayPath outDir q] ∧ x.events <+: y.events ∧ y.Remembers ∧
      ∀ r, y.tree.get? r =
        if r = relayPlace x.cwd outDir q then some (.file (unified s).toUTF8)
        else if r ∈ x.tree.missingOn (outDir.start x.cwd) (relayPath outDir q).parent.parts
          then some .directory
        else x.tree.get? r := by
  have hnulq : q.any Path.hasNul = false := by
    rw [List.any_append, Bool.or_eq_false_iff] at hnul
    exact hnul.2
  have hread := readText_scratch hscratch hnulScratch hq hne hnulq hfile
  have hproper : (relayPath outDir q).Proper := by
    intro c hc
    rcases List.mem_append.1 hc with hc | hc
    · exact hout c hc
    · exact (hq c hc).1
  obtain ⟨cs, name, hparts⟩ : ∃ cs name, q = cs ++ [name] :=
    ⟨_, _, (List.dropLast_concat_getLast hne).symm⟩
  have hname : name ≠ Path.up := (hq name (by simp [hparts])).2
  have hsplit : (relayPath outDir q).parts = (outDir.parts ++ cs) ++ [name] := by
    rw [relayPath, hparts, List.append_assoc]
  rcases hmark : splitMark (unified s) with ⟨rest, mark⟩
  obtain ⟨y, hwrite, hcwd, hwritten, hevents, hremembers', hview⟩ :=
    Writer.run_writeMarked_of_hasRoom hx hremembers hproper
      (Policy.allowsWrite_below hq.up_not_mem hallowed) hsplit hname hnul hroom rest mark
  have hencode : Writer.encode rest mark = (unified s).toUTF8 := by
    have h := encode_splitMark (unified s)
    rwa [hmark] at h
  rw [hencode] at hview
  refine ⟨⟨(relayPath outDir q).text, rest, mark⟩, y, ?_, rfl, hcwd, hwritten, hevents,
    hremembers', hview⟩
  have hlook : (look fun t cwd => t.readText cwd
      ((⟨.single, scratch⟩ : Path).join ⟨.none, q⟩)).run x = (.ok (unified s), x) :=
    run_look_of_ok hread
  have hemitted : (Pass.writeEmitted policy ⟨(relayPath outDir q).text, rest, mark⟩).run x =
      (.ok (), y) := by
    rw [Pass.writeEmitted, Path.ofString_text hproper]
    exact hwrite
  rw [relay, run_bind_of_ok hlook, hmark]
  exact run_bind_of_ok hemitted

/-! ### Handing on all files -/

/-- A place on the way to one of two files that are handed on is not the place of the other. -/
theorem follow_ne_relayPlace {t : FileTree} {cwd : Path} {q' : Place} (hq : PlainPlace q)
    (hq' : PlainPlace q') (hne : q ≠ []) (hne' : q' ≠ [])
    (hcwd : t.get? cwd.parts = some .directory)
    (hroom : t.HasRoom cwd (relayPath outDir q')) (hapart : ¬ q' <+: q) (pre : List String)
    (hpre : pre <+: (relayPath outDir q).parent.parts) :
    follow (outDir.start cwd) pre ≠ relayPlace cwd outDir q' := by
  have hparent {r : Place} (hr : r ≠ []) :
      (relayPath outDir r).parent.parts = outDir.parts ++ r.dropLast := by
    rw [Path.parent, relayPath, List.dropLast_append_of_ne_nil hr]
  rw [hparent hne] at hpre
  rcases List.prefix_or_prefix_of_prefix hpre (List.prefix_append outDir.parts q.dropLast)
    with hpre | ⟨d, rfl⟩
  · -- This is on the way to the output directory, and so on the way to both files.
    refine ((((FileTree.hasRoom_iff hcwd).1 hroom).1 pre ?_).2)
    rw [hparent hne']
    exact hpre.trans (List.prefix_append _ _)
  · rw [List.prefix_append_right_inj] at hpre
    intro heq
    rw [relayPlace, Path.follow_append, Path.follow_append,
      Path.follow_of_not_mem hq'.up_not_mem, Path.follow_of_not_mem, List.append_cancel_left_eq]
      at heq
    · exact hapart (heq ▸ hpre.trans (List.dropLast_prefix q))
    · exact fun hmem => hq.up_not_mem ((hpre.trans (List.dropLast_prefix q)).subset hmem)

/-- What a file that was handed on has changed. -/
theorem wrote_of_view {t u : FileTree} {place : Place} {missing : List Place}
    {content : ByteArray}
    (hview : ∀ r, u.get? r = if r = place then some (.file content)
      else if r ∈ missing then some .directory else t.get? r)
    (hmissing : ∀ r ∈ missing, t.get? r = none) (hplace : t.get? place ≠ some .directory) :
    t.Wrote [(place, content)] u where
  directories r hr := by
    rw [hview, if_neg]
    · split
      · rfl
      · exact hr
    · rintro rfl
      exact hplace hr
  written r hr := by
    obtain rfl : r = place := by simpa using hr
    refine ⟨content, List.mem_singleton_self _, ?_⟩
    rw [FileTree.file?_eq_some_iff, hview, if_pos rfl]
  kept r hr := by
    have hne : r ≠ place := by simpa using hr
    by_cases hmem : r ∈ missing
    · rw [FileTree.file?, FileTree.file?, hview, if_neg hne, if_pos hmem, hmissing r hmem]
    · refine FileTree.file?_congr ?_
      rw [hview, if_neg hne, if_neg hmem]

/-- **Handing on files** that are not on the way to one another succeeds if there is room for each
of them at the beginning. -/
theorem run_relays (hout : outDir.Proper) (hscratch : PlainPlace scratch)
    (hnulScratch : scratch.any Path.hasNul = false) {qs : List Place} (content : Place → String)
    (hx : x.Grounded) (hremembers : x.Remembers)
    (hallowed : policy.allowsWrite x.cwd outDir = true)
    (hqs : ∀ q ∈ qs, PlainPlace q ∧ q ≠ [] ∧ (outDir.parts ++ q).any Path.hasNul = false ∧
      ¬ scratch <+: relayPlace x.cwd outDir q)
    (hapart : qs.Pairwise fun q q' => ¬ q <+: q' ∧ ¬ q' <+: q)
    (hfile : ∀ q ∈ qs, x.tree.file? (scratch ++ q) = some (content q).toUTF8)
    (hroom : ∀ q ∈ qs, x.tree.HasRoom x.cwd (relayPath outDir q)) :
    ∃ fs y, (mapEach (relay ⟨.single, scratch⟩ outDir (Pass.writeEmitted policy)) qs).run x =
        (.ok fs, y) ∧
      fs.map EmittedFile.path = qs.map (fun q => (relayPath outDir q).text) ∧
      y.written = x.written ++ qs.map (relayPath outDir) ∧
      x.Wrote (qs.map fun q => (relayPlace x.cwd outDir q, (unified (content q)).toUTF8)) y := by
  induction qs generalizing x with
  | nil =>
    exact ⟨[], x, rfl, rfl, (List.append_nil _).symm, .nil_of_sameOutside (.refl _ _)⟩
  | cons q qs ih =>
    rw [List.forall_mem_cons] at hqs hfile hroom
    rw [List.pairwise_cons] at hapart
    obtain ⟨⟨hq, hne, hnul, hoff⟩, hqs⟩ := hqs
    obtain ⟨f, y, hrelay, hpath, hcwd, hwritten, hevents, hremembers', hview⟩ :=
      run_relay hx hremembers hout hallowed hscratch hnulScratch hq hne hnul hfile.1 hroom.1
    have hplace : x.tree.get? (relayPlace x.cwd outDir q) ≠ some .directory :=
      ((FileTree.hasRoom_iff hx.directory).1 hroom.1).2
    have hfirst : x.Wrote [(relayPlace x.cwd outDir q, (unified (content q)).toUTF8)] y :=
      ⟨hcwd, wrote_of_view hview (fun r hr => FileTree.eq_none_of_mem_missingOn hr) hplace, hevents⟩
    have hy := hfirst.sameOutside.grounded hx
    -- what is left to do can be done as before
    have hkept : ∀ q' ∈ qs, y.tree.file? (scratch ++ q') = some (content q').toUTF8 := by
      intro q' hq'
      rw [hfirst.tree.kept, hfile.2 q' hq']
      intro hmem
      refine hoff ⟨q', ?_⟩
      simpa using hmem
    have hroom' : ∀ q' ∈ qs, y.tree.HasRoom y.cwd (relayPath outDir q') := by
      intro q' hq'
      obtain ⟨hplain', hne', -, -⟩ := hqs q' hq'
      rw [hcwd]
      refine (hroom.2 q' hq').of_written (relayPath outDir q) hx.directory
        (hcwd ▸ hy.directory) hview ?_ ?_
      · exact follow_ne_relayPlace hplain' hq hne' hne hx.directory hroom.1 (hapart.1 q' hq').1
      · exact follow_ne_relayPlace hq hplain' hne hne' hx.directory (hroom.2 q' hq')
          (hapart.1 q' hq').2
    obtain ⟨fs, z, hrelays, hpaths, hwritten', hrest⟩ := ih hy hremembers' (hcwd ▸ hallowed)
      (hcwd ▸ hqs) hapart.2 hkept hroom'
    rw [hcwd] at hrest
    refine ⟨f :: fs, z, ?_, ?_, ?_, hfirst.append hrest⟩
    · rw [mapEach, run_bind_of_ok hrelay, run_bind_of_ok hrelays]
      rfl
    · rw [List.map_cons, List.map_cons, hpath, hpaths]
    · rw [hwritten', hwritten, List.append_assoc]
      rfl

/-! ### Emitting -/

/-- **Workspaces from which all that was emitted can be handed on**: what the compiler left are
texts, the output directory may be written, and there is room in it for each of them. -/
structure Relayable (policy : Policy) (outDir : Path) (scratch : Place) (u : Workspace) : Prop where
  grounded : u.Grounded
  remembers : u.Remembers
  directory : u.tree.get? scratch = some .directory
  allowed : policy.allowsWrite u.cwd outDir = true
  texts : ∀ q ∈ u.tree.filesBelow scratch, ∃ s : String,
    u.tree.file? (scratch ++ q) = some s.toUTF8
  names : ∀ q ∈ u.tree.filesBelow scratch, (outDir.parts ++ q).any Path.hasNul = false
  room : ∀ q ∈ u.tree.filesBelow scratch, u.tree.HasRoom u.cwd (relayPath outDir q)
  apart : ∀ q ∈ u.tree.filesBelow scratch, ¬ scratch <+: relayPlace u.cwd outDir q

/-- **The outcome of handing on** what the compiler left in `u`: one file for each that was found,
in ascending order, and no other file outside of the scratch directory is touched. Each file has the
text that was found, with its line ends unified, so that it has the same bytes just if there was no
carriage return. -/
structure Relayed (outDir : Path) (scratch : Place) (u : Workspace) (ds : List Diagnostic)
    (r : EmitResult) (v : Workspace) : Prop where
  ascending : (u.tree.filesBelow scratch).Pairwise fun p q => Path.namesLe p q = true ∧ p ≠ q
  paths : r.files.map EmittedFile.path =
    (u.tree.filesBelow scratch).map fun q => (relayPath outDir q).text
  diagnostics : r.diagnostics = ds.filter Diagnostic.isDeclarationEmit
  written : v.written = u.written ++ (u.tree.filesBelow scratch).map (relayPath outDir)
  texts : ∀ q ∈ u.tree.filesBelow scratch, ∀ s : String,
    u.tree.file? (scratch ++ q) = some s.toUTF8 →
      v.tree.file? (relayPlace u.cwd outDir q) = some (unified s).toUTF8
  exact_iff : ∀ q ∈ u.tree.filesBelow scratch, ∀ s : String,
    u.tree.file? (scratch ++ q) = some s.toUTF8 →
      (v.tree.file? (relayPlace u.cwd outDir q) = some s.toUTF8 ↔ '\r' ∉ s.toList)
  kept : ∀ p, ¬ scratch <+: p → (∀ q ∈ u.tree.filesBelow scratch, p ≠ relayPlace u.cwd outDir q) →
    v.tree.file? p = u.tree.file? p
  gone : v.tree.get? scratch = none

/-- **Whatever the compiler puts below the scratch directory has a plain name.** -/
theorem plainBelow_of_run {p : Program} {c : Compiler} {tools : Tools} {compilerPolicy : Policy}
    {declarationsOnly : Bool} {files : List (String × String)} {u : Workspace}
    {ds : List Diagnostic} (hcwd : PlainPlace w.cwd.parts) (hscratch : PlainPlace scratch)
    (hfree : w.tree.get? scratch = none)
    (hrun : (c.run tools compilerPolicy p.options files
      (.emit declarationsOnly (some ⟨.single, scratch⟩))).run (w.withDirectory scratch) =
        (.ok ds, u)) : u.tree.PlainBelow scratch := by
  have hpurpose : ∀ only dir, Purpose.emit declarationsOnly (some ⟨.single, scratch⟩) =
      .emit only (some dir) → dir.Proper := by
    intro only dir heq
    rw [Purpose.emit.injEq, Option.some.injEq] at heq
    rw [← heq.2]
    exact fun c hc => (hscratch c hc).1
  have hundenied : (c.run tools compilerPolicy p.options files
      (.emit declarationsOnly (some ⟨.single, scratch⟩))).Undenied w.cwd
        (FileTree.PlainBelow scratch) :=
    Compiler.undenied_run (FileTree.lasting_plainBelow scratch) hcwd _ _ hpurpose
  have hkept := (hundenied (w.withDirectory scratch) ⟨rfl, FileTree.plainBelow_insert hfree⟩).1
  rw [hrun] at hkept
  exact hkept.tree

/-- **All that was emitted is handed on.** -/
theorem Relayable.run_relays {u : Workspace} (h : Relayable policy outDir scratch u)
    (hout : outDir.Proper) (hscratch : PlainPlace scratch)
    (hnul : scratch.any Path.hasNul = false) (hplain : u.tree.PlainBelow scratch)
    {content : Place → String} (hcontent : ∀ q ∈ u.tree.filesBelow scratch,
      u.tree.file? (scratch ++ q) = some (content q).toUTF8) :
    ∃ fs x, (mapEach (relay ⟨.single, scratch⟩ outDir (Pass.writeEmitted policy))
        (u.tree.filesBelow scratch)).run u = (.ok fs, x) ∧
      fs.map EmittedFile.path =
        (u.tree.filesBelow scratch).map (fun q => (relayPath outDir q).text) ∧
      x.written = u.written ++ (u.tree.filesBelow scratch).map (relayPath outDir) ∧
      u.Wrote ((u.tree.filesBelow scratch).map fun q =>
        (relayPlace u.cwd outDir q, (unified (content q)).toUTF8)) x := by
  refine Program.run_relays hout hscratch hnul content h.grounded h.remembers h.allowed ?_ ?_
    hcontent h.room
  · intro q hq
    obtain ⟨bytes, hfile⟩ := FileTree.mem_filesBelow.1 hq
    refine ⟨hplain q (by simp [hfile]), ?_, h.names q hq, h.apart q hq⟩
    rintro rfl
    rw [List.append_nil, h.directory] at hfile
    simp at hfile
  · refine (u.tree.nodup_filesBelow scratch).imp_of_mem fun {q q'} hq hq' hdifferent => ?_
    exact ⟨fun hpre => hdifferent (FileTree.eq_of_prefix_of_mem_filesBelow hq hq' hpre),
      fun hpre => hdifferent (FileTree.eq_of_prefix_of_mem_filesBelow hq' hq hpre).symm⟩

/-- What was handed on stands in its place once the scratch directory is gone. -/
theorem Relayable.file?_erase {u x : Workspace} (h : Relayable policy outDir scratch u)
    (hne : scratch ≠ []) (hplain : u.tree.PlainBelow scratch) {content : Place → String}
    (hwrote : u.Wrote ((u.tree.filesBelow scratch).map fun q =>
      (relayPlace u.cwd outDir q, (unified (content q)).toUTF8)) x)
    (hq : q ∈ u.tree.filesBelow scratch) :
    (x.tree.erase scratch).file? (relayPlace u.cwd outDir q) =
      some (unified (content q)).toUTF8 := by
  have hthere {r : Place} (hr : r ∈ u.tree.filesBelow scratch) : PlainPlace r := by
    obtain ⟨bytes, hfile⟩ := FileTree.mem_filesBelow.1 hr
    exact hplain r (by simp [hfile])
  rw [FileTree.file?_eq_some_iff, FileTree.get?_erase hne,
    if_neg (h.apart q hq),
    ← FileTree.file?_eq_some_iff]
  refine hwrote.tree.file?_eq (List.mem_map_of_mem hq) fun bytes hbytes => ?_
  obtain ⟨q', hq', heq⟩ := List.mem_map.1 hbytes
  rw [Prod.mk.injEq] at heq
  rw [← heq.2, relayPlace_injective (hthere hq') (hthere hq) heq.1]

/-- **An emission hands on what the compiler left.** If the compiler was run in the scratch
directory and there is room for everything that it left there, the emission succeeds, and hands on
every file. -/
theorem relayed_emit (p : Program) (c : Compiler) (tools : Tools) (compilerPolicy : Policy)
    (declarationsOnly : Bool) (transforms : List SourceTransform) {u : Workspace}
    {ds : List Diagnostic} (hcwd : PlainPlace w.cwd.parts)
    (hout : p.options.path .outDir = .ok outDir)
    (hscratch : scratch = temporaryPlace w.tree temporaryRoot "dnt-emit-")
    (hrun : (c.run tools compilerPolicy p.options (p.prepared transforms)
      (.emit declarationsOnly (some ⟨.single, scratch⟩))).run (w.withDirectory scratch) = (.ok ds, u))
    (hrelayable : Relayable policy outDir scratch u) :
    ∃ r v, (p.emit c tools compilerPolicy declarationsOnly transforms
        (Pass.writeEmitted policy)).run w = (.ok r, v) ∧ Relayed outDir scratch u ds r v := by
  have hplace : PlainPlace scratch := by
    rw [hscratch]
    exact .append (by decide) (plain_freshName _ (by decide) (by decide))
  have hnul : scratch.any Path.hasNul = false := by
    rw [hscratch, temporaryPlace, List.any_append, List.any_cons,
      hasNul_freshName _ (by decide)]
    rfl
  have hne : scratch ≠ [] := hscratch ▸ temporaryPlace_ne_nil w.tree _ _
  have hplain := plainBelow_of_run hcwd hplace (hscratch ▸ temporaryPlace_free w.tree _ _) hrun
  choose! content hcontent using hrelayable.texts
  obtain ⟨fs, x, hrelays, hpaths, hwritten, hwrote⟩ :=
    hrelayable.run_relays (Compiler.proper_of_path hout) hplace hnul hplain hcontent
  have hbody : (p.emitFrom c tools compilerPolicy declarationsOnly transforms
      (Pass.writeEmitted policy) ⟨.single, scratch⟩).run (w.withDirectory scratch) =
        (.ok ⟨fs, ds.filter Diagnostic.isDeclarationEmit⟩, x) := by
    have hlook : (look fun _ _ => p.options.path .outDir).run u = (.ok outDir, u) :=
      run_look_of_ok hout
    rw [emitFrom, run_bind_of_ok hrun, run_bind_of_ok hlook, run_bind_of_ok (run_get u),
      run_bind_of_ok hrelays]
    rfl
  have hplaced : ∀ q ∈ u.tree.filesBelow scratch, ∀ s : String,
      u.tree.file? (scratch ++ q) = some s.toUTF8 →
        (x.tree.erase scratch).file? (relayPlace u.cwd outDir q) = some (unified s).toUTF8 := by
    intro q hq s hs
    rw [hcontent q hq, Option.some.injEq] at hs
    rw [← toUTF8_injective hs]
    exact hrelayable.file?_erase hne hplain hwrote hq
  refine ⟨_, _, run_withTemporary_of_run hscratch hbody,
    { ascending := u.tree.filesBelow_ascending scratch
      paths := hpaths
      diagnostics := rfl
      written := hwritten
      texts := hplaced
      exact_iff := ?_
      kept := ?_
      gone := ?_ }⟩
  · intro q hq s hs
    rw [hplaced q hq s hs, Option.some.injEq, ← unified_eq_self_iff]
    exact ⟨toUTF8_injective, congrArg String.toUTF8⟩
  · intro r hr hother
    rw [← hwrote.tree.kept r]
    · refine FileTree.file?_congr ?_
      rw [FileTree.get?_erase hne, if_neg hr]
    · intro hmem
      rw [List.map_map, List.mem_map] at hmem
      obtain ⟨q, hq, heq⟩ := hmem
      exact hother q hq heq.symm
  · rw [FileTree.get?_erase hne, if_pos (List.prefix_refl _)]

/-! ### A carriage return -/

/-- External programs of which the compiler ends a line with a carriage return. -/
def returnTools : Tools :=
  { echoTools with
    compiler := fun _ _ => .exits 0 "" "" [("mod.js", "export const a = 1;\r\n".toUTF8)] }

/-- A program of one module, as it is emitted as ES modules. -/
def returnProgram : Program :=
  (Pass.esm.configure (.ofString "npm") ⟨.base (.ofString "npm") false none,
    [("npm/src/mod.ts", "export const a = 1;\n")]⟩).program

/-- An empty directory to emit it in. -/
def returnWorkspace : Workspace :=
  .fresh (.ofString "/p") (FileTree.empty.insert ["p"] .directory)

/-- The scratch directory of the emission. -/
def returnScratch : Place :=
  ["tmp", "dnt-emit-X"]

/-- The run of the compiler in it. -/
def returnRun : Except Failure (List Diagnostic) × Workspace :=
  (Compiler.standard.run returnTools .unrestricted returnProgram.options
    (returnProgram.prepared []) (.emit false (some ⟨.single, returnScratch⟩))).run
      (returnWorkspace.withDirectory returnScratch)

/-- All that the compiler left can be handed on. -/
theorem relayable_return :
    Relayable .unrestricted (.ofString "npm/esm") returnScratch returnRun.2 := by
  have hfiles : returnRun.2.tree.filesBelow returnScratch = [["mod.js"]] := by decide +kernel
  have hcwd : returnRun.2.cwd = .ofString "/p" := by decide +kernel
  refine
    { grounded := ⟨hcwd ▸ .ofString "/p", by decide +kernel, by decide +kernel⟩
      remembers := ?_
      directory := by decide +kernel
      allowed := by decide +kernel
      texts := ?_
      names := ?_
      room := ?_
      apart := ?_ }
  · have hcreated : returnRun.2.created = [] := by decide +kernel
    rw [Workspace.Remembers, hcreated]
    simp
  all_goals
    rw [hfiles]
    refine List.forall_mem_singleton.2 ?_
  · exact ⟨"export const a = 1;\r\n", by decide +kernel⟩
  · decide +kernel
  · decide +kernel
  · decide +kernel

theorem relayed_emit_return : ∃ ds r v,
    (returnProgram.emit .standard returnTools .unrestricted false []
      (Pass.writeEmitted .unrestricted)).run returnWorkspace = (.ok r, v) ∧
      Relayed (.ofString "npm/esm") returnScratch returnRun.2 ds r v := by
  have hok : returnRun.1.isOk = true := by decide +kernel
  match hrun : returnRun with
  | (.ok ds, u) =>
    have hrelayable := relayable_return
    rw [hrun] at hrelayable
    exact ⟨ds, relayed_emit returnProgram .standard returnTools .unrestricted false []
      (by decide) (by rfl) (by decide +kernel) hrun hrelayable⟩
  | (.error e, u) =>
    rw [hrun] at hok
    simp [Except.isOk, Except.toBool] at hok

/-- **A carriage return is lost**: the compiler left one, and the file that was written in the
package has none. -/
theorem lost_return :
    returnRun.2.tree.file? (returnScratch ++ ["mod.js"]) =
        some "export const a = 1;\r\n".toUTF8 ∧
      ((returnProgram.emit .standard returnTools .unrestricted false []
        (Pass.writeEmitted .unrestricted)).run returnWorkspace).1.isOk = true ∧
      ((returnProgram.emit .standard returnTools .unrestricted false []
        (Pass.writeEmitted .unrestricted)).run returnWorkspace).2.tree.file?
          ["p", "npm", "esm", "mod.js"] = some "export const a = 1;\n".toUTF8 ∧
      "export const a = 1;\n".toUTF8 ≠ "export const a = 1;\r\n".toUTF8 := by
  decide +kernel

end Program

end DenoPackager
