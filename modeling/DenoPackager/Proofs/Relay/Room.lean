import DenoPackager.Proofs.Confinement.Writes

/-!
# Room for a file

A file can be written to a path if the directories on the way can be made and no directory is in
its place then. Both are told by what stands on the way: a file there blocks it, and what is
missing there is made. So a path keeps its room while files are written elsewhere, as long as none
of them stands on its way and the file itself not on the ways to them.

## Main definitions

* `FileTree.HasRoom`: paths that a file can be written to.
* `Workspace.Remembers`: workspaces in which all directories that were seen to are there.

## Main results

* `FileTree.hasRoom_iff`: room by what stands on the way.
* `FileTree.HasRoom.of_written`: room is kept while files are written elsewhere.
* `Writer.run_writeMarked_of_hasRoom`: a write succeeds where it is allowed and there is room.
-/

namespace DenoPackager

open DenoPackager.Action
open DenoPackager.Path (follow stepTo)

/-- A way that ends in a name leads one step below where it leads without the name. -/
theorem Path.follow_concat {here : Place} {cs : List String} {c : String} (hc : c ≠ up) :
    follow here (cs ++ [c]) = follow here cs ++ [c] := by
  rw [follow_append]
  exact if_neg hc

namespace FileTree

variable {t u : FileTree} {here : Place} {cs : List String} {name : String} {cwd p : Path}
  {q : Place}

/-! ### Ways that can be made -/

/-- **A way can be made** if no file stands on it. -/
theorem makeWay_eq_true_iff (hhere : t.get? here = some .directory) :
    (t.makeWay here cs).1 = true ↔
      ∀ pre, pre <+: cs → ∀ content, t.get? (follow here pre) ≠ some (.file content) := by
  induction cs generalizing t here with
  | nil =>
    refine iff_of_true rfl fun pre hpre content => ?_
    rw [List.prefix_nil.1 hpre, follow, List.foldl_nil, hhere]
    simp
  | cons c cs ih =>
    have hfirst : (∀ pre, pre <+: c :: cs → ∀ content,
        t.get? (follow here pre) ≠ some (.file content)) ↔
        ∀ pre, pre <+: cs → ∀ content,
          t.get? (follow (stepTo here c) pre) ≠ some (.file content) := by
      constructor
      · exact fun h pre hpre => h (c :: pre) (List.cons_prefix_cons.2 ⟨rfl, hpre⟩)
      · intro h pre hpre content
        cases pre with
        | nil => simp [follow, hhere]
        | cons d pre =>
          obtain ⟨rfl, hrest⟩ := List.cons_prefix_cons.1 hpre
          exact h pre hrest content
    rw [hfirst, makeWay, stepTo]
    by_cases hc : c = Path.up
    · rw [if_pos hc, if_pos hc]
      exact ih (directory_dropLast hhere)
    · rw [if_neg hc, if_neg hc]
      cases hget : t.get? (here ++ [c]) with
      | some n =>
        cases n with
        | directory => exact ih hget
        | file content =>
          refine iff_of_false Bool.false_ne_true fun h => ?_
          exact h [] List.nil_prefix content hget
      | none =>
        have hinsert (r : Place) := get?_insert (t := t) (p := here ++ [c]) (n := .directory)
          (by simp) (by rwa [List.dropLast_concat]) (.inl rfl) r
        simp only
        rw [ih (by rw [hinsert, if_pos rfl])]
        refine forall₃_congr fun pre _ content => not_congr ?_
        rw [hinsert]
        split
        · rename_i heq
          rw [heq, hget]
          simp
        · rfl

/-- What is missing on a way lies on it. -/
theorem exists_of_mem_missingOn (h : q ∈ t.missingOn here cs) :
    ∃ pre, pre <+: cs ∧ q = follow here pre := by
  induction cs generalizing here with
  | nil => simp [missingOn] at h
  | cons c cs ih =>
    have hstep {pre : List String} (hpre : pre <+: cs) :
        c :: pre <+: c :: cs ∧ follow (stepTo here c) pre = follow here (c :: pre) :=
      ⟨List.cons_prefix_cons.2 ⟨rfl, hpre⟩, rfl⟩
    rw [missingOn] at h
    by_cases hc : c = Path.up
    · rw [if_pos hc] at h
      obtain ⟨pre, hpre, rfl⟩ := ih h
      refine ⟨c :: pre, (hstep hpre).1, ?_⟩
      rw [← (hstep hpre).2, stepTo, if_pos hc]
    · rw [if_neg hc] at h
      have hdown : follow here [c] = here ++ [c] := if_neg hc
      split at h
      · obtain ⟨pre, hpre, rfl⟩ := ih h
        refine ⟨c :: pre, (hstep hpre).1, ?_⟩
        rw [← (hstep hpre).2, stepTo, if_neg hc]
      · simp at h
      · rcases List.mem_cons.1 h with rfl | h
        · exact ⟨[c], (hstep List.nil_prefix).1, hdown.symm⟩
        · obtain ⟨pre, hpre, rfl⟩ := ih h
          refine ⟨c :: pre, (hstep hpre).1, ?_⟩
          rw [← (hstep hpre).2, stepTo, if_neg hc]

/-- What stands anywhere once a way was made. -/
theorem get?_makeWay_snd (hhere : t.get? here = some .directory) (q : Place) :
    (t.makeWay here cs).2.get? q =
      if q ∈ t.missingOn here cs then some .directory else t.get? q := by
  have hnew : ∀ r ∈ ([] : List Place), t.get? r = none := by simp
  rw [get?_makeWay (by simp) hnew hhere]
  simp

/-! ### Room -/

/-- **Paths that a file can be written to**: the way to the directory can be made, and no directory
stands in the place of the file then. -/
def HasRoom (t : FileTree) (cwd p : Path) : Prop :=
  (t.makeWay (p.start cwd) p.parent.parts).1 = true ∧
    (t.makeWay (p.start cwd) p.parent.parts).2.get? (follow (p.start cwd) p.parts) ≠
      some .directory

instance (t : FileTree) (cwd p : Path) : Decidable (t.HasRoom cwd p) :=
  inferInstanceAs (Decidable (_ ∧ _))

/-- **Room by what stands on the way**: no file does, there is no directory in the place of the
file, and the way does not lead through that place. -/
theorem hasRoom_iff (hcwd : t.get? cwd.parts = some .directory) :
    t.HasRoom cwd p ↔
      (∀ pre, pre <+: p.parent.parts →
        (∀ content, t.get? (follow (p.start cwd) pre) ≠ some (.file content)) ∧
          follow (p.start cwd) pre ≠ follow (p.start cwd) p.parts) ∧
      t.get? (follow (p.start cwd) p.parts) ≠ some .directory := by
  have hstart := directory_start hcwd p
  rw [HasRoom, makeWay_eq_true_iff hstart, get?_makeWay_snd hstart]
  constructor
  · rintro ⟨hway, hplace⟩
    refine ⟨fun pre hpre => ⟨hway pre hpre, fun heq => ?_⟩, fun hdir => hplace ?_⟩
    · -- On a way that was made there are directories everywhere.
      have hmade := (makeWay_eq_true_iff hstart).2 hway
      obtain ⟨rest, hrest⟩ := hpre
      have henter := (enter_of_makeWay hstart (Prod.ext hmade rfl)).1
      rw [← hrest, enter_append] at henter
      cases hpart : (t.makeWay (p.start cwd) p.parent.parts).2.enter (p.start cwd) pre with
      | error e =>
        rw [← hrest] at hpart
        rw [hpart] at henter
        simp [Except.bind] at henter
      | ok dir =>
        have hthere := directory_of_enter
          ((enter_of_makeWay hstart (Prod.ext hmade rfl)).2 _ hstart) hpart
        rw [follow_of_enter hpart, heq, get?_makeWay_snd hstart] at hthere
        exact hplace hthere
    · split
      · rfl
      · exact hdir
  · rintro ⟨hway, hplace⟩
    refine ⟨fun pre hpre => (hway pre hpre).1, ?_⟩
    rw [if_neg]
    · exact hplace
    · intro hmem
      obtain ⟨pre, hpre, heq⟩ := exists_of_mem_missingOn hmem
      exact (hway pre hpre).2 heq.symm

/-- **Room is kept** while a file is written to another path, if neither file stands on the way to
the other one. -/
theorem HasRoom.of_written (other : Path) {content : ByteArray}
    (hcwd : t.get? cwd.parts = some .directory) (hcwd' : u.get? cwd.parts = some .directory)
    (h : t.HasRoom cwd p)
    (hview : ∀ q, u.get? q = if q = follow (other.start cwd) other.parts then some (.file content)
      else if q ∈ t.missingOn (other.start cwd) other.parent.parts then some .directory else t.get? q)
    (hon : ∀ pre, pre <+: p.parent.parts →
      follow (p.start cwd) pre ≠ follow (other.start cwd) other.parts)
    (hon' : ∀ pre, pre <+: other.parent.parts →
      follow (other.start cwd) pre ≠ follow (p.start cwd) p.parts) : u.HasRoom cwd p := by
  obtain ⟨hway, hplace⟩ := (hasRoom_iff hcwd).1 h
  refine (hasRoom_iff hcwd').2 ⟨fun pre hpre => ⟨fun c => ?_, (hway pre hpre).2⟩, ?_⟩
  · rw [hview, if_neg (hon pre hpre)]
    split
    · simp
    · exact (hway pre hpre).1 c
  · rw [hview]
    split
    · simp
    · rw [if_neg]
      · exact hplace
      · intro hmem
        obtain ⟨pre, hpre, heq⟩ := exists_of_mem_missingOn hmem
        exact hon' pre hpre heq.symm

/-- **Writing where there is room**, once the way was made. -/
theorem write_of_hasRoom (hcwd : t.get? cwd.parts = some .directory)
    (hparts : p.parts = cs ++ [name]) (hname : name ≠ Path.up)
    (hnul : p.parts.any Path.hasNul = false) (h : t.HasRoom cwd p) (content : ByteArray) :
    ∃ v, (t.makeWay (p.start cwd) p.parent.parts).2.write cwd p content = .ok v := by
  have hparent : p.parent.parts = cs := by rw [Path.parent, hparts, List.dropLast_concat]
  obtain ⟨hmade, hplace⟩ := h
  rw [hparts, Path.follow_concat hname] at hplace
  rw [hparent] at hmade hplace ⊢
  have henter : (t.makeWay (p.start cwd) cs).2.enter (p.start cwd) cs =
      .ok (follow (p.start cwd) cs) :=
    (enter_of_makeWay (directory_start hcwd p) (Prod.ext hmade rfl)).1
  generalize (t.makeWay (p.start cwd) cs).2 = made at henter hplace ⊢
  have hlocate : made.locate cwd p = .ok (follow (p.start cwd) cs ++ [name],
      made.get? (follow (p.start cwd) cs ++ [name])) := by
    rw [locate_of_parts hparts hname, hnul, henter]
    rfl
  rw [write, hlocate]
  cases hget : made.get? (follow (p.start cwd) cs ++ [name]) with
  | none => exact ⟨_, rfl⟩
  | some n =>
    cases n with
    | file c => exact ⟨_, rfl⟩
    | directory => exact absurd hget hplace

end FileTree

/-- **Workspaces in which all directories that were seen to are there.** -/
def Workspace.Remembers (w : Workspace) : Prop :=
  ∀ dir ∈ w.created, ∃ place, w.Leads dir place

namespace Writer

variable {policy : Policy} {path : Path} {cs : List String} {name : String} {w : Workspace}

/-- **Seeing to a directory** succeeds if the way to it can be made, and makes it. -/
theorem run_seeTo_of_makeWay (hw : w.Grounded) (hremembers : w.Remembers) {dir : Path}
    (hnul : dir.parts.any Path.hasNul = false)
    (h : (w.tree.makeWay (dir.start w.cwd) dir.parts).1 = true) :
    ∃ v, (seeTo dir).run w = (.ok (), v) ∧ v.cwd = w.cwd ∧ v.written = w.written ∧
      v.events = w.events ∧ v.Remembers ∧
      v.tree = (w.tree.makeWay (dir.start w.cwd) dir.parts).2 := by
  rw [seeTo, run_bind_of_ok (run_get w)]
  split
  · rename_i hseen
    obtain ⟨place, hplace⟩ := hremembers dir (List.contains_iff_mem.1 hseen)
    refine ⟨w, rfl, rfl, rfl, rfl, hremembers, ?_⟩
    rw [FileTree.makeWay_of_enter hplace]
  · obtain ⟨htree, hdone⟩ := FileTree.makeDirs_eq hw.directory hnul
    have hmake : w.tree.makeDirs w.cwd dir =
        (.ok (), (w.tree.makeWay (dir.start w.cwd) dir.parts).2) := Prod.ext (hdone.2 h) htree
    obtain ⟨henter, hkept⟩ := FileTree.enter_of_makeWay
      (FileTree.directory_start hw.directory dir) (Prod.ext h rfl)
    refine ⟨{ w with
      tree := (w.tree.makeWay (dir.start w.cwd) dir.parts).2
      created := w.created ++ [dir] }, ?_, rfl, rfl, rfl, ?_, rfl⟩
    · rw [run_bind_of_ok (run_change_of_ok hmake), run_modify]
    intro d hd
    rcases List.mem_append.1 hd with hd | hd
    · obtain ⟨place, hplace⟩ := hremembers d hd
      exact ⟨place, FileTree.enter_mono hkept hplace⟩
    · rw [List.mem_singleton.1 hd]
      exact ⟨_, henter⟩

/-- **A write succeeds where it is allowed and there is room**: it makes what is missing on the way
and puts the file in its place. -/
theorem run_writeMarked_of_hasRoom (hw : w.Grounded) (hremembers : w.Remembers)
    (hproper : path.Proper) (hallowed : policy.allowsWrite w.cwd path = true)
    (hparts : path.parts = cs ++ [name]) (hname : name ≠ Path.up)
    (hnul : path.parts.any Path.hasNul = false) (hroom : w.tree.HasRoom w.cwd path)
    (text : String) (mark : Bool) :
    ∃ v, (writeMarked policy path text mark).run w = (.ok (), v) ∧ v.cwd = w.cwd ∧
      v.written = w.written ++ [path] ∧ w.events <+: v.events ∧ v.Remembers ∧
      ∀ q, v.tree.get? q =
        if q = follow (path.start w.cwd) path.parts then some (.file (encode text mark))
        else if q ∈ w.tree.missingOn (path.start w.cwd) path.parent.parts then some .directory
        else w.tree.get? q := by
  have hnul' : path.parent.parts.any Path.hasNul = false := by
    rw [Path.parent, hparts, List.dropLast_concat]
    rw [hparts, List.any_append, Bool.or_eq_false_iff] at hnul
    exact hnul.1
  have hstart : path.parent.start w.cwd = path.start w.cwd := rfl
  have hbegin := FileTree.directory_start hw.directory path
  obtain ⟨u, hsee, hcwd, hwritten, hevents, hremembers', htree⟩ :=
    run_seeTo_of_makeWay hw hremembers hnul' hroom.1
  rw [hstart] at htree
  obtain ⟨t, hwrite⟩ := FileTree.write_of_hasRoom hw.directory hparts hname hnul hroom
    (encode text mark)
  rw [← htree, ← hcwd] at hwrite
  have hground : u.tree.get? u.cwd.parts = some .directory := by
    rw [hcwd, htree]
    exact (FileTree.enter_of_makeWay hbegin (Prod.ext hroom.1 rfl)).2 _ hw.directory
  have hview : ∀ q, t.get? q =
      if q = follow (path.start w.cwd) path.parts then some (.file (encode text mark))
      else if q ∈ w.tree.missingOn (path.start w.cwd) path.parent.parts then some .directory
      else w.tree.get? q := by
    intro q
    rw [FileTree.get?_write hground hwrite, hcwd, htree, FileTree.get?_makeWay_snd hbegin]
  have hplace : u.tree.get? (follow (path.start w.cwd) path.parts) ≠ some .directory := by
    rw [htree]
    exact hroom.2
  refine ⟨{ u with
    tree := t
    written := u.written ++ [path]
    events := u.events ++ [.wrote path] }, ?_, hcwd, ?_, ?_, ?_, hview⟩
  · have hcheck : policy.allowsWrite w.cwd (.ofString path.text) = true := by
      rwa [Path.ofString_text hproper]
    rw [writeMarked, run_bind_of_ok (Policy.run_checkWrite_of_allowed hcheck), run_bind_of_ok hsee,
      run_bind_of_ok (run_step_of_ok hwrite), run_bind_of_ok (run_modify _ _)]
    exact run_note _ _
  · exact congrArg (· ++ [path]) hwritten
  · exact ⟨[.wrote path], congrArg (· ++ [.wrote path]) hevents.symm⟩
  · intro dir hdir
    obtain ⟨place, hplace'⟩ := hremembers' dir hdir
    exact ⟨place, FileTree.enter_mono (fun _ => FileTree.directories_write hground hwrite) hplace'⟩

end Writer

end DenoPackager
