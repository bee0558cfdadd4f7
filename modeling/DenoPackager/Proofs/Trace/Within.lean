import DenoPackager.Proofs.Rebuild.Overlay

/-!
# What an action leaves alone, however it ends

An action that fails has often done something before. What it leaves alone is told for both ends
at once: whether it succeeds or not, nothing has changed outside of some places, and all directories
are still there. The places below a temporary directory are empty again when the work in it is over,
so they need not be among them.

## Main definitions

* `Workspace.Within`: nothing has changed outside of some places.
* `Action.Within`: the same of a run of an action, however it ends.

## Main results

* `Within.bind`, `Within.forEach`, `Within.mapEach`: one action after the other.
* `within_makeDirs_below`, `within_write_below`: a file that is put below a directory.
* `within_withTemporary`: temporary work changes nothing at its own place.
-/

namespace DenoPackager

open DenoPackager.Path (follow)

/-- **Nothing has changed outside of some places**, and no directory has gone away. -/
structure Workspace.Within (s : Set Place) (w v : Workspace) : Prop where
  cwd : v.cwd = w.cwd
  directories : ∀ q, w.tree.get? q = some .directory → v.tree.get? q = some .directory
  outside : ∀ q ∉ s, v.tree.get? q = w.tree.get? q

variable {w v u : Workspace} {s s' : Set Place} {place : Place} {rel : List String}

namespace Workspace.Within

theorem refl (s : Set Place) (w : Workspace) : Within s w w :=
  ⟨rfl, fun _ h => h, fun _ _ => rfl⟩

theorem trans (h : Within s w v) (h' : Within s v u) : Within s w u where
  cwd := h'.cwd.trans h.cwd
  directories q hq := h'.directories q (h.directories q hq)
  outside q hq := (h'.outside q hq).trans (h.outside q hq)

theorem mono (h : Within s w v) (hs : s ⊆ s') : Within s' w v :=
  { h with outside := fun q hq => h.outside q fun hmem => hq (hs hmem) }

/-- What changes no tree changes nothing anywhere. -/
theorem of_eq (hcwd : v.cwd = w.cwd) (htree : v.tree = w.tree) : Within s w v where
  cwd := hcwd
  directories _ hq := htree ▸ hq
  outside _ _ := htree ▸ rfl

theorem grounded (h : Within s w v) (hw : w.Grounded) : v.Grounded where
  proper := h.cwd ▸ hw.proper
  up_not_mem := h.cwd ▸ hw.up_not_mem
  directory := h.cwd ▸ h.directories _ hw.directory

end Workspace.Within

namespace Action

variable {α β : Type} {m : Action α}

/-- **However it ends**, a run of the action changes nothing outside of some places. -/
def Within (s : Set Place) (w : Workspace) (m : Action α) : Prop :=
  w.Within s (m.run w).2

theorem Within.mono (h : m.Within s w) (hs : s ⊆ s') : m.Within s' w :=
  Workspace.Within.mono h hs

theorem Within.of_run {r : Except Failure α} (h : m.Within s w) (hr : m.run w = (r, v)) :
    w.Within s v := by
  rwa [Within, hr] at h

/-- **One action after the other.** -/
theorem Within.bind {f : α → Action β} (hm : m.Within s w)
    (hf : ∀ a v, m.run w = (.ok a, v) → w.Within s v → (f a).Within s v) :
    (m >>= f).Within s w := by
  rw [Within] at hm ⊢
  match hr : m.run w with
  | (.ok a, v) =>
    rw [hr] at hm
    rw [run_bind_of_ok hr]
    exact hm.trans (hf a v hr hm)
  | (.error e, v) =>
    rw [hr] at hm
    rwa [run_bind_of_error hr]

theorem within_pure (a : α) : (pure a : Action α).Within s w := .refl s w

theorem within_fail (p : Problem) : (fail p : Action α).Within s w := .refl s w

theorem within_get : get.Within s w := .refl s w

theorem within_note (e : Event) : (note e).Within s w := .of_eq rfl rfl

theorem within_log (level : Level) (message : String) : (log level message).Within s w :=
  within_note _

theorem within_look (g : FileTree → Path → Except Fault α) : (look g).Within s w := by
  rw [Within, run, look]
  split <;> exact .refl s w

/-- **An action for each item**, each of which leaves the same places alone as long as all before
it did. -/
theorem Within.forEach {g : α → Action Unit} {as : List α}
    (h : ∀ a ∈ as, ∀ v, w.Within s v → (g a).Within s v) : (forEach g as).Within s w := by
  induction as generalizing w with
  | nil => exact within_pure ()
  | cons a as ih =>
    rw [List.forall_mem_cons] at h
    exact (h.1 w (.refl s w)).bind fun _ v _ hv => ih fun b hb u hu => h.2 b hb u (hv.trans hu)

theorem Within.mapEach {g : α → Action β} {as : List α}
    (h : ∀ a ∈ as, ∀ v, w.Within s v → (g a).Within s v) : (mapEach g as).Within s w := by
  induction as generalizing w with
  | nil => exact within_pure []
  | cons a as ih =>
    rw [List.forall_mem_cons] at h
    refine (h.1 w (.refl s w)).bind fun b v _ hv => ?_
    exact (ih fun b hb u hu => h.2 b hb u (hv.trans hu)).bind fun _ _ _ _ => within_pure _

/-- What is seen to succeed gives a value. -/
theorem exists_of_isOk {r : Except Failure α × Workspace} (h : r.1.isOk = true) :
    ∃ a v, r = (.ok a, v) := by
  rcases r with ⟨e | a, v⟩
  · simp [Except.isOk, Except.toBool] at h
  · exact ⟨a, v, rfl⟩

/-- Looking leaves the workspace as it is. -/
theorem run_look_snd (g : FileTree → Path → Except Fault α) (w : Workspace) :
    ((look g).run w).2 = w := by
  rw [run, look]
  split <;> rfl

/-- What leaves the workspace as it is makes no difference after an action. -/
theorem run_bind_snd {f : α → Action β} (h : ∀ a v, m.run w = (.ok a, v) → ((f a).run v).2 = v) :
    ((m >>= f).run w).2 = (m.run w).2 := by
  match hr : m.run w with
  | (.ok a, v) =>
    rw [run_bind_of_ok hr]
    exact h a v hr
  | (.error e, v) => rw [run_bind_of_error hr]

/-! ### Directories and files -/

/-- **Making directories** changes nothing but what is missing on the way, and makes directories
there. -/
theorem run_makeDirs (hw : w.Grounded) (path : Path) :
    ((change fun t cwd => t.makeDirs cwd path).run w).2 =
        { w with tree := (w.tree.makeDirs w.cwd path).2 } ∧
      ∀ q, (w.tree.makeDirs w.cwd path).2.get? q = w.tree.get? q ∨
        (w.tree.get? q = none ∧ (w.tree.makeDirs w.cwd path).2.get? q = some .directory ∧
          q ∈ w.tree.missingOn (path.start w.cwd) path.parts) := by
  constructor
  · rw [run, change]
    split <;> rename_i heq <;> rw [heq]
  · intro q
    cases hnul : path.parts.any Path.hasNul with
    | true => exact .inl (by rw [FileTree.makeDirs_of_hasNul hnul])
    | false =>
      rw [FileTree.get?_makeDirs hw.directory hnul]
      split
      · rename_i hmem
        exact .inr ⟨FileTree.eq_none_of_mem_missingOn hmem, rfl, hmem⟩
      · exact .inl rfl

theorem within_makeDirs (hw : w.Grounded) {path : Path}
    (hs : ∀ q ∈ w.tree.missingOn (path.start w.cwd) path.parts, q ∈ s) :
    (change fun t cwd => t.makeDirs cwd path).Within s w := by
  obtain ⟨hrun, hview⟩ := run_makeDirs hw path
  rw [Within, hrun]
  refine ⟨rfl, fun q hq => ?_, fun q hq => ?_⟩
  · rcases hview q with heq | ⟨hnone, -, -⟩
    · exact heq.trans hq
    · rw [hnone] at hq
      simp at hq
  · rcases hview q with heq | ⟨-, -, hmem⟩
    · exact heq
    · exact absurd (hs q hmem) hq

theorem within_write (hw : w.Grounded) {path : Path} {content : ByteArray}
    (hs : w.tree.get? (follow (path.start w.cwd) path.parts) ≠ some .directory →
      follow (path.start w.cwd) path.parts ∈ s) :
    (step fun t cwd => t.write cwd path content).Within s w := by
  rw [Within, run, step]
  split
  · rename_i t hwrite
    have hview := FileTree.get?_write hw.directory hwrite
    have hfree := ((FileTree.write_eq_ok_iff hw.directory).1 hwrite).2.1
    refine ⟨rfl, fun q hq => ?_, fun q hq => ?_⟩
    · rw [hview, if_neg]
      · exact hq
      · rintro rfl
        exact hfree hq
    · rw [hview, if_neg]
      rintro rfl
      exact hq (hs hfree)
  · exact .refl s w

/-- **Making the directory of a file below a directory** changes nothing outside of it. -/
theorem within_makeDirs_below (hw : w.Grounded) (hdir : w.tree.get? place = some .directory)
    (hplace : Path.up ∉ place) (hrel : Path.up ∉ rel) :
    (change fun t cwd => t.makeDirs cwd (⟨.single, place ++ rel⟩ : Path).parent).Within
      {q | place <+: q} w := by
  have hup : Path.up ∉ (place ++ rel).dropLast := by
    intro hmem
    rcases List.mem_append.1 (List.dropLast_subset _ hmem) with hmem | hmem
    · exact hplace hmem
    · exact hrel hmem
  refine within_makeDirs hw fun q hq => ?_
  -- everything above the directory is there, so what is missing lies below it
  have hway : q <+: place ++ rel :=
    (FileTree.prefix_of_mem_missingOn hup hq).trans (List.dropLast_prefix _)
  have hnone := FileTree.eq_none_of_mem_missingOn hq
  rcases List.prefix_or_prefix_of_prefix hway (List.prefix_append place rel) with habove | hbelow
  · rw [FileTree.directory_above hdir habove] at hnone
    simp at hnone
  · exact hbelow

/-- **Writing a file below a directory** changes nothing outside of it. -/
theorem within_write_below (hw : w.Grounded) (hplace : Path.up ∉ place) (hrel : Path.up ∉ rel)
    {content : ByteArray} :
    (step fun t cwd => t.write cwd ⟨.single, place ++ rel⟩ content).Within {q | place <+: q} w := by
  have hall : Path.up ∉ place ++ rel := by
    rw [List.mem_append, not_or]
    exact ⟨hplace, hrel⟩
  refine within_write hw fun _ => ?_
  have hstart : (⟨.single, place ++ rel⟩ : Path).start w.cwd = [] := rfl
  rw [hstart, Path.follow_of_not_mem hall]
  exact List.prefix_append place rel

end Action

open DenoPackager.Action

/-! ### Temporary work -/

/-- What stands anywhere when a temporary directory is gone. -/
theorem get?_erase_temporaryPlace {t u : FileTree} {dir : Place} {start : String} (q : Place) :
    (u.erase (temporaryPlace t dir start)).get? q =
      if temporaryPlace t dir start <+: q then t.get? q else u.get? q := by
  rw [FileTree.get?_erase (temporaryPlace_ne_nil t dir start)]
  split
  · rename_i hq
    exact (FileTree.get?_eq_none_below (temporaryPlace_free t dir start) hq).symm
  · rfl

/-- There is no double dot in the place of a temporary directory. -/
theorem up_not_mem_temporaryPlace {t : FileTree} {dir : Place} {start : String}
    (hdir : Path.up ∉ dir) (hstart : ¬ start.toList <+: Path.up.toList) :
    Path.up ∉ temporaryPlace t dir start := by
  rw [temporaryPlace, List.mem_append, List.mem_singleton, not_or]
  exact ⟨hdir, Ne.symm (freshName_ne_up _ hstart)⟩

/-- A directory for temporary work is there. -/
theorem get?_withDirectory_temporaryPlace (w : Workspace) (dir : Place) (start : String) :
    (w.withDirectory (temporaryPlace w.tree dir start)).tree.get?
      (temporaryPlace w.tree dir start) = some .directory :=
  FileTree.get?_insert_self (temporaryPlace_ne_nil w.tree dir start)

/-- A directory for temporary work is the only thing that is new. -/
theorem within_withDirectory {dir : Place} (start : String)
    (hdir : w.tree.get? dir = some .directory) :
    w.Within {q | temporaryPlace w.tree dir start <+: q}
      (w.withDirectory (temporaryPlace w.tree dir start)) := by
  have hview := FileTree.get?_insert_free (temporaryPlace_ne_nil w.tree dir start)
    (temporaryPlace_free w.tree dir start)
  refine ⟨rfl, fun q hq => (hview q).trans ?_, fun q hq => (hview q).trans ?_⟩
  · split
    · rfl
    · exact hq
  · split
    · rename_i hpre
      rcases List.prefix_concat_iff.1 hpre with heq | habove
      · exact absurd (heq ▸ List.prefix_refl _) hq
      · exact (FileTree.directory_above hdir habove).symm
    · rfl

/-- **Temporary work changes nothing at its own place**: that is empty before and afterwards. -/
theorem within_withTemporary {α : Type} {dir : Place} {start : String} {body : Path → Action α}
    (hdir : w.tree.get? dir = some .directory)
    (h : (body ⟨.single, temporaryPlace w.tree dir start⟩).Within
      ({q | temporaryPlace w.tree dir start <+: q} ∪ s)
      (w.withDirectory (temporaryPlace w.tree dir start))) :
    (withTemporary dir start body).Within s w := by
  have hall : w.Within ({q | temporaryPlace w.tree dir start <+: q} ∪ s) _ :=
    ((within_withDirectory start hdir).mono Set.subset_union_left).trans h
  refine ⟨hall.cwd, fun q hq => (get?_erase_temporaryPlace q).trans ?_,
    fun q hq => (get?_erase_temporaryPlace q).trans ?_⟩
  · split
    · exact hq
    · exact hall.directories q hq
  · split
    · rfl
    · rename_i hpre
      exact hall.outside q (by rintro (hbelow | hmem) <;> contradiction)

end DenoPackager
