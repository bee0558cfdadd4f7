import DenoPackager.Proofs.Confinement.Undenied
import DenoPackager.Proofs.Confinement.Waypoints

/-!
# What a confined writer changes outside of its roots

A write is allowed if the absolute normal form of its path lies in a write root. That is where the
file goes, so the file itself never stands outside. The directories on the way to it are another
matter: they are made as the path is written, and a path may leave the roots and come back by double
dots. What is missing out there is made, and nothing else changes.

## Main definitions

* `Policy.Outside`: places that are neither in a write root nor above one.
* `Writer.makes`: the directories that a write makes on its way.

## Main results

* `FileTree.get?_write`, `FileTree.get?_remove`: the place that is written or removed.
* `Writer.run_writeMarked_outside`: all that changes outside of the write roots.
* `Writer.detour_made`: a directory that is made there.
-/

namespace DenoPackager

open DenoPackager.Action
open DenoPackager.Path (follow)

namespace Action

variable {w : Workspace} {f : FileTree → Path → Except Fault Unit × FileTree} {t : FileTree}

theorem run_change_of_ok (h : f w.tree w.cwd = (.ok (), t)) :
    (change f).run w = (.ok (), { w with tree := t }) := by
  simp only [run, change, h]

theorem run_change_of_error {e : Fault} (h : f w.tree w.cwd = (.error e, t)) :
    (change f).run w = (.error (.fault e), { w with tree := t }) := by
  simp only [run, change, h]

theorem run_step_of_error {g : FileTree → Path → Except Fault FileTree} {e : Fault}
    (h : g w.tree w.cwd = .error e) : (step g).run w = (.error (.fault e), w) := by
  simp only [run, step, h]

end Action

/-! ### One place -/

namespace FileTree

variable {t u : FileTree} {cwd p : Path} {content : ByteArray} {s : String} {q : Place}

/-- **A file is written to a name** in a directory that is there, and not over a directory. -/
theorem of_write_eq_ok (hcwd : t.get? cwd.parts = some .directory)
    (h : t.write cwd p content = .ok u) :
    ∃ cs c dir, p.parts = cs ++ [c] ∧ c ≠ Path.up ∧ t.enter (p.start cwd) cs = .ok dir ∧
      follow (p.start cwd) p.parts = dir ++ [c] ∧ t.get? dir = some .directory ∧
      t.get? (dir ++ [c]) ≠ some .directory ∧ u = t.insert (dir ++ [c]) (.file content) := by
  have hfree : ∀ r, t.locate cwd p ≠ .ok (r, some .directory) := by
    intro r hr
    rw [write, hr] at h
    simp at h
  obtain ⟨place, n, hlocate, rfl⟩ := write_eq_ok h
  -- a path that ends in a double dot, or nowhere at all, leads to a directory
  obtain ⟨-, ⟨-, hfound⟩ | ⟨cs, c, dir, hparts, henter, hfound⟩⟩ := locate_eq_ok_iff.1 hlocate
  · exact absurd (hlocate.trans (congrArg _ hfound)) (hfree _)
  · rw [lastStep] at hfound
    split at hfound
    · exact absurd (hlocate.trans (congrArg _ hfound)) (hfree _)
    · rename_i hc
      obtain ⟨rfl, rfl⟩ := Prod.mk.inj hfound
      refine ⟨cs, c, dir, hparts, hc, henter, ?_,
        directory_of_enter (directory_start hcwd p) henter,
        fun hget => hfree _ (hlocate.trans (by rw [hget])), rfl⟩
      rw [hparts, Path.follow_append, ← follow_of_enter henter]
      exact if_neg hc

/-- **Writing changes the place where the path leads**, and no other. -/
theorem get?_write (hcwd : t.get? cwd.parts = some .directory)
    (h : t.write cwd p content = .ok u) (q : Place) :
    u.get? q = if q = follow (p.start cwd) p.parts then some (.file content) else t.get? q := by
  obtain ⟨cs, c, dir, -, -, -, hplace, hdir, hfree, rfl⟩ := of_write_eq_ok hcwd h
  rw [hplace]
  exact get?_insert (by simp) (by rwa [List.dropLast_concat]) (.inr hfree) q

/-- **Writing keeps all directories.** -/
theorem directories_write (hcwd : t.get? cwd.parts = some .directory)
    (h : t.write cwd p content = .ok u) (hq : t.get? q = some .directory) :
    u.get? q = some .directory := by
  obtain ⟨cs, c, dir, -, -, -, hplace, -, hfree, -⟩ := of_write_eq_ok hcwd h
  rw [get?_write hcwd h, if_neg, hq]
  rw [hplace]
  exact fun heq => hfree (heq ▸ hq)

/-- **Removing changes the place where the path leads**, and nothing that is not below it. -/
theorem get?_remove (h : t.remove cwd s = .ok u)
    (hq : ¬ follow ((Path.ofString s).start cwd) (Path.ofString s).parts <+: q) :
    u.get? q = t.get? q := by
  have hparts : (Path.ofString s).parts = (rawComponents s).filter (· ≠ ".") := by
    simp only [Path.ofString, Path.components, rawComponents, List.filter_filter]
    refine List.filter_congr fun c _ => ?_
    rw [Bool.and_comm, Bool.decide_and]
  simp only [remove] at h
  split at h
  · simp at h
  · split at h
    · simp at h
    · split at h
      · simp at h
      · rename_i c hlast
        obtain ⟨raw, hraw⟩ := List.getLast?_eq_some_iff.1 hlast
        split at h
        · simp at h
        · rename_i dir henter
          split at h
          · simp at h
          · rename_i hdot
            rw [hraw, List.dropLast_concat] at henter
            split at h
            · simp at h
            · simp at h
            · rename_i place content hstep
              have hc : c ≠ Path.up := by
                rintro rfl
                rw [lastStep, if_pos rfl] at hstep
                simp at hstep
              rw [lastStep, if_neg hc, Prod.mk.injEq] at hstep
              obtain ⟨rfl, -⟩ := hstep
              have hplace : follow ((Path.ofString s).start cwd) (Path.ofString s).parts =
                  dir ++ [c] := by
                rw [hparts, hraw, List.filter_append, Path.follow_append,
                  ← follow_of_enter henter, List.filter_cons_of_pos (by simpa using hdot)]
                exact if_neg hc
              split at h
              · simp at h
              · rw [hplace] at hq
                rw [← Except.ok.inj h, get?_erase (by simp), if_neg hq]

/-- Where something is missing, nothing stands. -/
theorem eq_none_of_mem_missingOn {here : Place} {cs : List String}
    (h : q ∈ t.missingOn here cs) : t.get? q = none := by
  induction cs generalizing here with
  | nil => simp [missingOn] at h
  | cons c cs ih =>
    rw [missingOn] at h
    split at h
    · exact ih h
    · split at h
      · exact ih h
      · simp at h
      · rename_i hget
        rcases List.mem_cons.1 h with rfl | h
        · exact hget
        · exact ih h

end FileTree

/-! ### Outside of the roots -/

namespace Policy

variable {policy : Policy} {roots : List Path} {cwd path : Path} {q : Place}

/-- **Outside of the write roots**: neither in one of them nor above one. -/
def Outside (roots : List Path) (cwd : Path) (q : Place) : Prop :=
  ∀ root ∈ roots, ¬ (root.absolute cwd).parts <+: q ∧ ¬ q <+: (root.absolute cwd).parts

instance (roots : List Path) (cwd : Path) (q : Place) : Decidable (Outside roots cwd q) :=
  inferInstanceAs (Decidable (∀ root ∈ roots, _))

/-- A path that may be written leads neither below such a place nor above it. -/
theorem Outside.of_allowed (hroots : policy.writeRoots = some roots) (hq : Outside roots cwd q)
    (h : policy.allowsWrite cwd path = true) :
    ¬ (path.absolute cwd).parts <+: q ∧ ¬ q <+: (path.absolute cwd).parts := by
  simp only [allowsWrite, hroots, List.any_eq_true, Path.isWithin, Bool.and_eq_true,
    List.isPrefixOf_iff_prefix] at h
  obtain ⟨root, hroot, -, hpre⟩ := h
  obtain ⟨hbelow, habove⟩ := hq root hroot
  refine ⟨fun hpath => hbelow (hpre.trans hpath), fun hpath => ?_⟩
  rcases List.prefix_or_prefix_of_prefix hpre hpath with hle | hle
  · exact hbelow hle
  · exact habove hle

end Policy

namespace Writer

variable {policy : Policy} {roots : List Path} {w : Workspace} {path : Path} {q : Place}

/-- What seeing to a directory does to the tree, and whether it may go on. -/
theorem run_seeTo (dir : Path) (w : Workspace) :
    ((seeTo dir).run w).2.cwd = w.cwd ∧ ((seeTo dir).run w).2.tree =
      if w.created.contains dir then w.tree else (w.tree.makeDirs w.cwd dir).2 := by
  rw [seeTo, run_bind_of_ok (run_get w)]
  by_cases hseen : w.created.contains dir = true
  · simp only [if_pos hseen]
    exact ⟨rfl, rfl⟩
  · rw [if_neg hseen]
    match hmake : w.tree.makeDirs w.cwd dir with
    | (.ok (), t) =>
      rw [if_neg hseen, run_bind_of_ok (run_change_of_ok hmake)]
      exact ⟨rfl, rfl⟩
    | (.error e, t) =>
      rw [if_neg hseen, run_bind_of_error (run_change_of_error hmake)]
      exact ⟨rfl, rfl⟩

/-- Seeing to a directory keeps all directories. -/
theorem directory_run_seeTo (hw : w.Grounded) (dir : Path) :
    ((seeTo dir).run w).2.tree.get? w.cwd.parts = some .directory := by
  rw [(run_seeTo dir w).2]
  split
  · exact hw.directory
  · exact (FileTree.sameOutside_makeDirs hw.directory dir).directories _ hw.directory

/-- **A write does no more elsewhere** than to see to the directory before the file. -/
theorem get?_run_writeMarked (hw : w.Grounded) (hpath : path.Proper) (text : String) (mark : Bool)
    (hq : policy.allowsWrite w.cwd path = true → q ≠ follow (path.start w.cwd) path.parts) :
    ((writeMarked policy path text mark).run w).2.tree.get? q =
      if policy.allowsWrite w.cwd path then ((seeTo path.parent).run w).2.tree.get? q
      else w.tree.get? q := by
  have htext := Path.ofString_text hpath
  by_cases h : policy.allowsWrite w.cwd path = true
  · rw [if_pos h, writeMarked, run_bind_of_ok (Policy.run_checkWrite_of_allowed (by rwa [htext]))]
    have hdir := directory_run_seeTo hw path.parent
    have hcwd := (run_seeTo path.parent w).1
    match hsee : (seeTo path.parent).run w with
    | (.error e, v) => rw [run_bind_of_error hsee]
    | (.ok (), v) =>
      rw [hsee] at hdir hcwd
      rw [run_bind_of_ok hsee]
      match hwrite : v.tree.write v.cwd path (encode text mark) with
      | .error e =>
        rw [run_bind_of_error (run_step_of_error hwrite)]
      | .ok t =>
        rw [run_bind_of_ok (run_step_of_ok hwrite)]
        have hget := FileTree.get?_write (hcwd.symm ▸ hdir) hwrite q
        rw [hcwd, if_neg (hq h)] at hget
        exact hget
  · rw [Bool.not_eq_true] at h
    rw [writeMarked, run_bind_of_error (Policy.run_checkWrite_of_refused (by rwa [htext]))]
    simp [h]

/-- **A removal does nothing elsewhere.** -/
theorem get?_run_remove (s : String)
    (hq : policy.allowsWrite w.cwd (.ofString s) = true →
      ¬ follow ((Path.ofString s).start w.cwd) (Path.ofString s).parts <+: q) :
    ((remove policy s).run w).2.tree.get? q = w.tree.get? q := by
  by_cases h : policy.allowsWrite w.cwd (.ofString s) = true
  · rw [remove, run_bind_of_ok (Policy.run_checkWrite_of_allowed h), log,
      run_bind_of_ok (run_note _ w)]
    cases hremove : w.tree.remove w.cwd s with
    | error e => rw [run_bind_of_error (run_step_of_error hremove)]
    | ok t =>
      rw [run_bind_of_ok (run_step_of_ok hremove)]
      exact FileTree.get?_remove hremove (hq h)
  · rw [Bool.not_eq_true] at h
    rw [remove, run_bind_of_error (Policy.run_checkWrite_of_refused h)]

/-- **The directories that a write makes** on its way, in the roots or outside: it has to be
allowed, and the directory of the file must not have been seen to before. -/
def makes (policy : Policy) (w : Workspace) (path : Path) : List Place :=
  if policy.allowsWrite w.cwd path ∧ ¬ w.created.contains path.parent ∧
      ¬ path.parent.parts.any Path.hasNul then
    w.tree.missingOn (path.start w.cwd) path.parent.parts
  else []

theorem mem_makes : q ∈ makes policy w path ↔ policy.allowsWrite w.cwd path = true ∧
    ¬ w.created.contains path.parent = true ∧ ¬ path.parent.parts.any Path.hasNul = true ∧
    q ∈ w.tree.missingOn (path.start w.cwd) path.parent.parts := by
  rw [makes]
  split
  · rename_i h
    exact ⟨fun hmem => ⟨h.1, h.2.1, h.2.2, hmem⟩, fun h => h.2.2.2⟩
  · rename_i h
    exact ⟨fun hmem => absurd hmem List.not_mem_nil, fun h' => absurd ⟨h'.1, h'.2.1, h'.2.2.1⟩ h⟩

/-- **What a write does** to any place but that of the file. -/
theorem get?_writeMarked_eq (hw : w.Grounded) (hpath : path.Proper) (text : String) (mark : Bool)
    (hq : policy.allowsWrite w.cwd path = true → q ≠ follow (path.start w.cwd) path.parts) :
    ((writeMarked policy path text mark).run w).2.tree.get? q =
      if q ∈ makes policy w path then some .directory else w.tree.get? q := by
  rw [get?_run_writeMarked hw hpath text mark hq, (run_seeTo path.parent w).2]
  by_cases hallowed : policy.allowsWrite w.cwd path = true
  · rw [if_pos hallowed]
    by_cases hseen : w.created.contains path.parent = true
    · rw [if_pos hseen, if_neg fun h => (mem_makes.1 h).2.1 hseen]
    · rw [if_neg hseen]
      by_cases hnul : path.parent.parts.any Path.hasNul = true
      · rw [FileTree.makeDirs_of_hasNul hnul, if_neg fun h => (mem_makes.1 h).2.2.1 hnul]
      · rw [FileTree.get?_makeDirs hw.directory (Bool.not_eq_true _ ▸ hnul)]
        refine if_congr ⟨fun h => mem_makes.2 ⟨hallowed, hseen, hnul, h⟩, fun h => ?_⟩ rfl rfl
        exact (mem_makes.1 h).2.2.2
  · rw [if_neg hallowed, if_neg fun h => hallowed (mem_makes.1 h).1]

/-- **A write that leads straight down** makes nothing but what lies on the way to the file. -/
theorem prefix_of_mem_makes (hup : Path.up ∉ path.parts) (h : q ∈ makes policy w path) :
    q <+: follow (path.start w.cwd) path.parts := by
  rw [Path.follow_of_not_mem hup]
  refine (FileTree.prefix_of_mem_missingOn ?_ (mem_makes.1 h).2.2.2).trans ?_
  · exact fun hmem => hup (List.dropLast_subset _ hmem)
  · exact (List.prefix_append_right_inj _).2 (List.dropLast_prefix _)

/-- **All that changes outside of the write roots** in a write, a write from a callback or a
removal, however it ends: the missing directories on the way are made as the path is written. What
stood there stays as it was, and a path without a double dot changes nothing at all. -/
theorem run_writeMarked_outside (hroots : policy.writeRoots = some roots) (hw : w.Grounded)
    (habs : w.cwd.isAbsolute = true) (s text : String) (mark : Bool)
    (hq : Policy.Outside roots w.cwd q) :
    ((writeMarked policy (.ofString s) text mark).run w).2.tree.get? q =
        (if q ∈ makes policy w (.ofString s) then some .directory else w.tree.get? q) ∧
      (w.tree.get? q ≠ none ∨ Path.up ∉ (Path.ofString s).parts →
        ((writeMarked policy (.ofString s) text mark).run w).2.tree.get? q = w.tree.get? q) ∧
      ((remove policy s).run w).2.tree.get? q = w.tree.get? q := by
  have hplace := Path.parts_absolute hw.up_not_mem habs (.ofString s)
  have hchange : ((writeMarked policy (.ofString s) text mark).run w).2.tree.get? q =
      if q ∈ makes policy w (.ofString s) then some .directory else w.tree.get? q := by
    refine get?_writeMarked_eq hw (.ofString s) text mark fun hallowed heq => ?_
    rw [← hplace] at heq
    exact (hq.of_allowed hroots hallowed).1 (heq ▸ List.prefix_refl _)
  refine ⟨hchange, fun hkept => ?_, ?_⟩
  · rw [hchange, if_neg]
    intro hmem
    rcases hkept with hthere | hup
    · exact hthere (FileTree.eq_none_of_mem_missingOn (mem_makes.1 hmem).2.2.2)
    · have hway := prefix_of_mem_makes hup hmem
      rw [← hplace] at hway
      exact (hq.of_allowed hroots (mem_makes.1 hmem).1).2 hway
  · refine get?_run_remove s fun hallowed => ?_
    rw [← hplace]
    exact (hq.of_allowed hroots hallowed).1

/-! ### A detour -/

/-- A directory with a package in it. -/
def packageWorkspace : Workspace :=
  .fresh (.ofString "/w/p") <|
    ((FileTree.empty.insert ["w"] .directory).insert ["w", "p"] .directory).insert
      ["w", "p", "npm"] .directory

/-- Nothing but the package may be written. -/
def packagePolicy : Policy :=
  .confinedTo (.ofString "npm") none

theorem grounded_packageWorkspace : packageWorkspace.Grounded :=
  ⟨.ofString _, by decide, by decide +kernel⟩

theorem run_writeMarked_outside_package :
    let w := packageWorkspace
    let after := ((writeMarked packagePolicy (.ofString "missing/../npm/a.txt") "x" false).run w).2
    packagePolicy.writeRoots = some [.ofString "npm"] ∧ w.Grounded ∧ w.cwd.isAbsolute = true ∧
      Policy.Outside [.ofString "npm"] w.cwd ["w", "p", "missing"] ∧
      after.tree.get? ["w", "p", "missing"] =
        if ["w", "p", "missing"] ∈ makes packagePolicy w (.ofString "missing/../npm/a.txt") then
          some .directory
        else w.tree.get? ["w", "p", "missing"] := by
  have houtside : Policy.Outside [.ofString "npm"] packageWorkspace.cwd ["w", "p", "missing"] := by
    decide
  exact ⟨rfl, grounded_packageWorkspace, rfl, houtside,
    (run_writeMarked_outside rfl grounded_packageWorkspace rfl "missing/../npm/a.txt" "x" false
      houtside).1⟩

/-- **A detour**: a write into the package makes a directory beside it. -/
theorem detour_made :
    let w := packageWorkspace
    let ended := (writeMarked packagePolicy (.ofString "missing/../npm/a.txt") "x" false).run w
    Policy.Outside [.ofString "npm"] w.cwd ["w", "p", "missing"] ∧ ended.1.isOk = true ∧
      w.tree.get? ["w", "p", "missing"] = none ∧
      ended.2.tree.get? ["w", "p", "missing"] = some .directory := by
  decide +kernel

end Writer

end DenoPackager
