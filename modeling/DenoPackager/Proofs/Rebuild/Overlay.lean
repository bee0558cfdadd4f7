import DenoPackager.Proofs.Relay.Room

/-!
# File trees laid over leftovers

When something is done a second time, the tree holds what the first time has left. It is then the
tree of the first time laid over the leftovers: where something stood the first time, the same
stands now, and elsewhere there is what was left. A change that succeeded the first time does the
same to the tree that is laid over the leftovers, as long as these do not stand in its way: no
directory where it has put a file, no file where it has put a directory.

Leftovers do not stand in the way of anything if they are a part of what the first time has come to,
since nothing that was put into the tree changes its kind later on.

## Main definitions

* `FileTree.Over`: a tree laid over leftovers.
* `Leftovers.Fits`: leftovers that do not stand in the way.
* `FileTree.Grows`: trees in which more was put, on a building site.

## Main results

* `Over.locate`, `Over.readBytes`: a tree over leftovers looks the same where something stands.
* `Over.makeDirs`, `Over.write`: changes over leftovers.
* `Grows.makeDirs`, `Grows.write`: changes on a building site.
-/

namespace DenoPackager

open DenoPackager.Path (follow)

/-- **Leftovers**: what was left at which places. -/
abbrev Leftovers := Place → Option Node

/-- **A building site**: the places of directories that may be made on the way, and the places where
anything may be made. -/
structure Site where
  ways : Set Place
  grounds : Set Place

/-- All places of a building site. -/
def Site.places (s : Site) : Set Place :=
  s.ways ∪ s.grounds

/-- A building site with more ground below a place. -/
def Site.withGround (s : Site) (place : Place) : Site :=
  { s with grounds := s.grounds ∪ {q | place <+: q} }

namespace FileTree

variable {t u v : FileTree} {left : Leftovers} {s : Site} {cwd p : Path} {here place : Place}
  {cs : List String} {n : Option Node} {content : ByteArray}

/-! ### Places that are located -/

/-- What is located is what stands there. -/
theorem get?_of_locate (hcwd : t.get? cwd.parts = some .directory)
    (h : t.locate cwd p = .ok (place, n)) : n = t.get? place := by
  obtain ⟨-, ⟨-, hfound⟩ | ⟨cs, c, dir, -, henter, hfound⟩⟩ := locate_eq_ok_iff.1 h
  · obtain ⟨rfl, rfl⟩ := Prod.mk.inj hfound
    exact (directory_start hcwd p).symm
  · rw [lastStep] at hfound
    split at hfound
    · obtain ⟨rfl, rfl⟩ := Prod.mk.inj hfound
      exact (directory_dropLast (directory_of_enter (directory_start hcwd p) henter)).symm
    · obtain ⟨rfl, rfl⟩ := Prod.mk.inj hfound
      rfl

/-- What is located is where the way leads. -/
theorem follow_of_locate (h : t.locate cwd p = .ok (place, n)) :
    place = follow (p.start cwd) p.parts := by
  obtain ⟨-, ⟨hparts, hfound⟩ | ⟨cs, c, dir, hparts, henter, hfound⟩⟩ := locate_eq_ok_iff.1 h
  · rw [hparts]
    exact (Prod.mk.inj hfound).1
  · rw [hparts, Path.follow_append, ← follow_of_enter henter]
    rw [lastStep] at hfound
    split at hfound
    · rename_i hc
      exact (Prod.mk.inj hfound).1.trans (if_pos hc).symm
    · rename_i hc
      exact (Prod.mk.inj hfound).1.trans (if_neg hc).symm

/-- A path leads to the same place as long as no directory on the way goes away. -/
theorem locate_mono (hcwd : t.get? cwd.parts = some .directory)
    (hdirs : ∀ q, t.get? q = some .directory → u.get? q = some .directory)
    (h : t.locate cwd p = .ok (place, n)) : u.locate cwd p = .ok (place, u.get? place) := by
  refine locate_eq_ok_iff.2 ?_
  obtain ⟨hnul, ⟨hparts, hfound⟩ | ⟨cs, c, dir, hparts, henter, hfound⟩⟩ := locate_eq_ok_iff.1 h
  · obtain ⟨rfl, -⟩ := Prod.mk.inj hfound
    exact ⟨hnul, .inl ⟨hparts, by rw [directory_start (hdirs _ hcwd)]⟩⟩
  · refine ⟨hnul, .inr ⟨cs, c, dir, hparts, enter_mono hdirs henter, ?_⟩⟩
    rw [lastStep] at hfound ⊢
    split at hfound
    · obtain ⟨rfl, -⟩ := Prod.mk.inj hfound
      have hdir := directory_of_enter (directory_start hcwd p) henter
      rw [if_pos ‹_›, hdirs _ (directory_dropLast hdir)]
    · obtain ⟨rfl, -⟩ := Prod.mk.inj hfound
      rw [if_neg ‹_›]

/-- A path that holds the character that no name can hold makes no directory. -/
theorem hasNul_of_makeDirs (h : (t.makeDirs cwd p).1 = .ok ()) :
    p.parts.any Path.hasNul = false := by
  cases hnul : p.parts.any Path.hasNul with
  | false => rfl
  | true =>
    have hensure : t.ensureDir cwd p = .error .badValue := by
      rw [ensureDir, makeDir, locate_of_hasNul hnul]
    rw [makeDirs, hensure] at h
    simp at h

/-- There are directories all along a way that can be walked. -/
theorem directory_of_enter_prefix (hhere : t.get? here = some .directory)
    (h : t.enter here cs = .ok place) {pre : List String} (hpre : pre <+: cs) :
    t.get? (follow here pre) = some .directory := by
  obtain ⟨rest, rfl⟩ := hpre
  rw [enter_append] at h
  cases hpart : t.enter here pre with
  | error e => simp [hpart, Except.bind] at h
  | ok dir =>
    rw [← follow_of_enter hpart]
    exact directory_of_enter hhere hpart

/-- **What a way that was made comes to**: directories on the way, and elsewhere what stood there
before. -/
theorem get?_of_makeDirs (hcwd : t.get? cwd.parts = some .directory)
    (h : t.makeDirs cwd p = (.ok (), u)) :
    (∀ pre, pre <+: p.parts → u.get? (follow (p.start cwd) pre) = some .directory) ∧
      ∀ q, (∀ pre, pre <+: p.parts → q ≠ follow (p.start cwd) pre) → u.get? q = t.get? q := by
  have hnul : p.parts.any Path.hasNul = false := hasNul_of_makeDirs (congrArg Prod.fst h)
  obtain ⟨htree, hdone⟩ := makeDirs_eq hcwd hnul
  rw [h] at htree hdone
  have hstart := directory_start hcwd p
  obtain ⟨henter, hkept⟩ :=
    enter_of_makeWay (u := u) hstart (Prod.ext (hdone.1 rfl) htree.symm)
  refine ⟨fun pre hpre => directory_of_enter_prefix (hkept _ hstart) henter hpre,
    fun q hoff => ?_⟩
  · have hmissing : q ∉ t.missingOn (p.start cwd) p.parts := by
      intro hmem
      obtain ⟨pre, hpre, heq⟩ := exists_of_mem_missingOn hmem
      exact hoff pre hpre heq
    rw [show u = (t.makeWay (p.start cwd) p.parts).2 from htree, get?_makeWay_snd hstart,
      if_neg hmissing]

/-- **When directories can be made**: no file stands on the way. -/
theorem exists_makeDirs_iff (hcwd : t.get? cwd.parts = some .directory) :
    (∃ u, t.makeDirs cwd p = (.ok (), u)) ↔ p.parts.any Path.hasNul = false ∧
      ∀ pre, pre <+: p.parts → t.file? (follow (p.start cwd) pre) = none := by
  have hway : (∀ pre, pre <+: p.parts → t.file? (follow (p.start cwd) pre) = none) ↔
      ∀ pre, pre <+: p.parts → ∀ content,
        t.get? (follow (p.start cwd) pre) ≠ some (.file content) := by
    refine forall₂_congr fun pre _ => ?_
    rw [Option.eq_none_iff_forall_ne_some]
    exact forall_congr' fun content => not_congr file?_eq_some_iff
  rw [hway]
  constructor
  · rintro ⟨u, h⟩
    have hnul := hasNul_of_makeDirs (congrArg Prod.fst h)
    exact ⟨hnul, (makeWay_eq_true_iff (directory_start hcwd p)).1
      ((makeDirs_eq hcwd hnul).2.1 (congrArg Prod.fst h))⟩
  · rintro ⟨hnul, hfree⟩
    exact ⟨_, Prod.ext ((makeDirs_eq hcwd hnul).2.2
      ((makeWay_eq_true_iff (directory_start hcwd p)).2 hfree)) rfl⟩

/-- **When a file can be written**, and what comes of it: the path leads to a place where no
directory stands. -/
theorem write_eq_ok_iff (hcwd : t.get? cwd.parts = some .directory) :
    t.write cwd p content = .ok u ↔
      t.locate cwd p =
        .ok (follow (p.start cwd) p.parts, t.get? (follow (p.start cwd) p.parts)) ∧
      t.get? (follow (p.start cwd) p.parts) ≠ some .directory ∧
      u = t.insert (follow (p.start cwd) p.parts) (.file content) := by
  constructor
  · intro h
    obtain ⟨place, n, hlocate, rfl⟩ := write_eq_ok h
    obtain rfl := follow_of_locate hlocate
    obtain rfl := get?_of_locate hcwd hlocate
    refine ⟨hlocate, fun hdir => ?_, rfl⟩
    rw [write, hlocate, hdir] at h
    simp at h
  · rintro ⟨hlocate, hfree, rfl⟩
    rw [write, hlocate]
    cases hget : t.get? (follow (p.start cwd) p.parts) with
    | none => rfl
    | some node =>
      cases node with
      | file c => rfl
      | directory => exact absurd hget hfree

/-! ### Growing -/

/-- **A tree in which more was put**, on a building site: directories and files stay what they are,
new files stand on the grounds only, and elsewhere nothing but directories on the ways is new. -/
structure Grows (s : Site) (t u : FileTree) : Prop where
  directories : ∀ q, t.get? q = some .directory → u.get? q = some .directory
  files : ∀ q, (t.file? q).isSome → (u.file? q).isSome
  new_files : ∀ q, (u.file? q).isSome → (t.file? q).isSome ∨ q ∈ s.grounds
  outside : ∀ q, q ∉ s.ways → q ∉ s.grounds → u.get? q = t.get? q

namespace Grows

theorem refl (s : Site) (t : FileTree) : Grows s t t :=
  ⟨fun _ h => h, fun _ h => h, fun _ h => .inl h, fun _ _ _ => rfl⟩

theorem trans (h : Grows s t u) (h' : Grows s u v) : Grows s t v where
  directories q hq := h'.directories q (h.directories q hq)
  files q hq := h'.files q (h.files q hq)
  new_files q hq := (h'.new_files q hq).elim (h.new_files q) .inr
  outside q hways hgrounds := (h'.outside q hways hgrounds).trans (h.outside q hways hgrounds)

/-- **Making directories** on the ways and the grounds of a site. -/
theorem makeDirs (hcwd : t.get? cwd.parts = some .directory)
    (hway : ∀ pre, pre <+: p.parts → follow (p.start cwd) pre ∈ s.ways ∨
      follow (p.start cwd) pre ∈ s.grounds ∨
      t.get? (follow (p.start cwd) pre) = some .directory)
    (h : t.makeDirs cwd p = (.ok (), u)) : Grows s t u := by
  obtain ⟨hon, hoff⟩ := get?_of_makeDirs hcwd h
  obtain ⟨-, hnofile⟩ := (exists_makeDirs_iff hcwd).1 ⟨u, h⟩
  have hcases (q : Place) : (∃ pre, pre <+: p.parts ∧ q = follow (p.start cwd) pre) ∨
      u.get? q = t.get? q := by
    by_cases hq : ∃ pre, pre <+: p.parts ∧ q = follow (p.start cwd) pre
    · exact .inl hq
    · exact .inr (hoff q fun pre hpre heq => hq ⟨pre, hpre, heq⟩)
  have hfile (q : Place) : u.file? q = t.file? q := by
    rcases hcases q with ⟨pre, hpre, rfl⟩ | hsame
    · rw [hnofile pre hpre, file?, hon pre hpre]
    · exact file?_congr hsame
  refine ⟨fun q hq => ?_, fun q hq => (hfile q).symm ▸ hq, fun q hq => .inl (hfile q ▸ hq),
    fun q hways hgrounds => ?_⟩
  · rcases hcases q with ⟨pre, hpre, rfl⟩ | hsame
    · exact hon pre hpre
    · rw [hsame, hq]
  · rcases hcases q with ⟨pre, hpre, rfl⟩ | hsame
    · rw [hon pre hpre, ((hway pre hpre).resolve_left hways).resolve_left hgrounds]
    · exact hsame

/-- **Writing a file** on the grounds of a site. -/
theorem write (hcwd : t.get? cwd.parts = some .directory)
    (hground : follow (p.start cwd) p.parts ∈ s.grounds)
    (h : t.write cwd p content = .ok u) : Grows s t u := by
  have hview := get?_write hcwd h
  obtain ⟨-, hfree, -⟩ := (write_eq_ok_iff hcwd).1 h
  have hfile (q : Place) : u.file? q =
      if q = follow (p.start cwd) p.parts then some content else t.file? q := by
    by_cases hq : q = follow (p.start cwd) p.parts
    · rw [if_pos hq, file?, hview, if_pos hq]
    · rw [if_neg hq]
      exact file?_congr (by rw [hview, if_neg hq])
  refine ⟨fun q hq => ?_, fun q hq => ?_, fun q hq => ?_, fun q hways hgrounds => ?_⟩
  · rw [hview, if_neg]
    · exact hq
    · rintro rfl
      exact hfree hq
  · rw [hfile]
    split
    · rfl
    · exact hq
  · rw [hfile] at hq
    split at hq
    · rename_i heq
      exact .inr (heq ▸ hground)
    · exact .inl hq
  · rw [hview, if_neg]
    rintro rfl
    exact hgrounds hground

/-- **Nothing is left of temporary work** but directories on the way to it. -/
theorem temporary (hne : place ≠ []) (hfree : t.get? place = none)
    (hway : ∀ q, q <+: place → q ≠ place → t.file? q = none ∧
      (t.get? q = some .directory ∨ q ∈ s.ways ∨ q ∈ s.grounds))
    (h : Grows (s.withGround place) (t.insert place .directory) u) : Grows s t (u.erase place) := by
  have hbefore := get?_insert_free hne hfree
  have hafter := get?_erase (t := u) hne
  have hnotBelow {q : Place} {node : Node} (hq : t.get? q = some node) : ¬ place <+: q := by
    intro hpre
    rw [get?_eq_none_below hfree hpre] at hq
    simp at hq
  refine ⟨fun q hq => ?_, fun q hq => ?_, fun q hq => ?_, fun q hways hgrounds => ?_⟩
  · rw [hafter, if_neg (hnotBelow hq)]
    refine h.directories q ?_
    rw [hbefore]
    split
    · rfl
    · exact hq
  · obtain ⟨c, hc⟩ := Option.isSome_iff_exists.1 hq
    have hapart := hnotBelow (file?_eq_some_iff.1 hc)
    have hoff : ¬ q <+: place := by
      intro hpre
      rw [(hway q hpre (fun heq => hapart (heq ▸ List.prefix_refl _))).1] at hc
      simp at hc
    rw [file?_congr (t := u) (by rw [hafter, if_neg hapart])]
    refine h.files q ?_
    rwa [file?_congr (t := t) (by rw [hbefore, if_neg hoff])]
  · have hapart : ¬ place <+: q := by
      intro hpre
      rw [file?, hafter, if_pos hpre] at hq
      simp at hq
    rw [file?_congr (t := u) (by rw [hafter, if_neg hapart])] at hq
    rcases h.new_files q hq with hold | hnew
    · left
      by_cases hon : q <+: place
      · rw [file?, hbefore, if_pos hon] at hold
        simp at hold
      · rwa [file?_congr (t := t) (by rw [hbefore, if_neg hon])] at hold
    · exact .inr (hnew.resolve_right hapart)
  · rw [hafter]
    by_cases hpre : place <+: q
    · rw [if_pos hpre, get?_eq_none_below hfree hpre]
    · rw [if_neg hpre, h.outside q hways fun hmem => hmem.elim hgrounds hpre, hbefore]
      by_cases hon : q <+: place
      · rw [if_pos hon]
        have hne' : q ≠ place := fun heq => hpre (heq ▸ List.prefix_refl _)
        exact (((hway q hon hne').2.resolve_right fun hmem => hmem.elim hways hgrounds)).symm
      · rw [if_neg hon]

end Grows

/-! ### Leftovers -/

/-- **A tree laid over leftovers**: what stands in it stands there, and elsewhere what was left. -/
def Over (left : Leftovers) (t u : FileTree) : Prop :=
  ∀ q, u.get? q = (t.get? q).or (left q)

end FileTree

/-- **Leftovers that do not stand in the way** of a tree: a directory was left where it has a
directory, and a file where it has a file, if anything was left there. -/
structure Leftovers.Fits (left : Leftovers) (t : FileTree) : Prop where
  directories : ∀ q, t.get? q = some .directory → ∀ content, left q ≠ some (.file content)
  files : ∀ q, (t.file? q).isSome → left q ≠ some .directory

namespace FileTree

variable {t u v : FileTree} {left : Leftovers} {s : Site} {cwd p : Path} {place : Place}
  {n : Option Node} {content : ByteArray}

/-- What fits a tree has fitted it all the time. -/
theorem Grows.fits (h : Grows s t u) (hfits : left.Fits u) : left.Fits t where
  directories q hq := hfits.directories q (h.directories q hq)
  files q hq := hfits.files q (h.files q hq)

namespace Over

theorem get?_eq (h : Over left t u) {q : Place} {node : Node} (hq : t.get? q = some node) :
    u.get? q = some node := by
  rw [h q, hq, Option.some_or]

theorem file?_eq (h : Over left t u) {q : Place} (hq : t.file? q = some content) :
    u.file? q = some content :=
  file?_eq_some_iff.2 (h.get?_eq (file?_eq_some_iff.1 hq))

/-- **What is located over leftovers.** -/
theorem locate (h : Over left t u) (hcwd : t.get? cwd.parts = some .directory)
    (hlocate : t.locate cwd p = .ok (place, n)) :
    u.locate cwd p = .ok (place, n.or (left place)) := by
  rw [locate_mono hcwd (fun _ => h.get?_eq) hlocate, h place, get?_of_locate hcwd hlocate]

/-- **What is read over leftovers.** -/
theorem readBytes (h : Over left t u) (hcwd : t.get? cwd.parts = some .directory)
    (hread : t.readBytes cwd p = .ok content) : u.readBytes cwd p = .ok content := by
  rw [FileTree.readBytes] at hread ⊢
  cases hlocate : t.locate cwd p with
  | error e => simp [hlocate] at hread
  | ok found =>
    obtain ⟨place, n⟩ := found
    rw [h.locate hcwd hlocate]
    cases n with
    | none => simp [hlocate] at hread
    | some node =>
      cases node with
      | directory => simp [hlocate] at hread
      | file c =>
        rw [hlocate] at hread
        exact hread

theorem readText (h : Over left t u) (hcwd : t.get? cwd.parts = some .directory) {text : String}
    (hread : t.readText cwd p = .ok text) : u.readText cwd p = .ok text := by
  rw [FileTree.readText] at hread ⊢
  cases hbytes : t.readBytes cwd p with
  | error e => simp [hbytes] at hread
  | ok content =>
    rw [hbytes] at hread
    rw [h.readBytes hcwd hbytes]
    exact hread

/-- **Making directories over leftovers.** -/
theorem makeDirs (h : Over left t u) (hcwd : t.get? cwd.parts = some .directory)
    (hfits : left.Fits v) (hmake : t.makeDirs cwd p = (.ok (), v)) :
    ∃ v', u.makeDirs cwd p = (.ok (), v') ∧ Over left v v' := by
  have hcwd' := h.get?_eq hcwd
  obtain ⟨hnul, hnofile⟩ := (exists_makeDirs_iff hcwd).1 ⟨v, hmake⟩
  obtain ⟨hon, hoff⟩ := get?_of_makeDirs hcwd hmake
  have hnofile' : ∀ pre, pre <+: p.parts → u.file? (follow (p.start cwd) pre) = none := by
    intro pre hpre
    rw [Option.eq_none_iff_forall_ne_some]
    intro c hc
    rw [file?_eq_some_iff, h] at hc
    cases hget : t.get? (follow (p.start cwd) pre) with
    | none =>
      rw [hget, Option.none_or] at hc
      exact hfits.directories _ (hon pre hpre) c hc
    | some node =>
      rw [hget, Option.some_or] at hc
      have hfile := hnofile pre hpre
      rw [file?_eq_some_iff.2 (hget.trans hc)] at hfile
      simp at hfile
  obtain ⟨v', hmake'⟩ := (exists_makeDirs_iff hcwd').2 ⟨hnul, hnofile'⟩
  obtain ⟨hon', hoff'⟩ := get?_of_makeDirs hcwd' hmake'
  refine ⟨v', hmake', fun q => ?_⟩
  by_cases hq : ∃ pre, pre <+: p.parts ∧ q = follow (p.start cwd) pre
  · obtain ⟨pre, hpre, rfl⟩ := hq
    rw [hon pre hpre, hon' pre hpre, Option.some_or]
  · have hq' : ∀ pre, pre <+: p.parts → q ≠ follow (p.start cwd) pre :=
      fun pre hpre heq => hq ⟨pre, hpre, heq⟩
    rw [hoff q hq', hoff' q hq', h q]

/-- **Writing a file over leftovers.** -/
theorem write (h : Over left t u) (hcwd : t.get? cwd.parts = some .directory)
    (hfits : left.Fits v) (hwrite : t.write cwd p content = .ok v) :
    ∃ v', u.write cwd p content = .ok v' ∧ Over left v v' := by
  have hcwd' := h.get?_eq hcwd
  obtain ⟨hlocate, hfree, -⟩ := (write_eq_ok_iff hcwd).1 hwrite
  have hview := get?_write hcwd hwrite
  have hfree' : u.get? (follow (p.start cwd) p.parts) ≠ some .directory := by
    rw [h]
    cases hget : t.get? (follow (p.start cwd) p.parts) with
    | none =>
      rw [Option.none_or]
      refine hfits.files _ ?_
      rw [file?, hview, if_pos rfl]
      rfl
    | some node =>
      rw [Option.some_or]
      exact hget ▸ hfree
  have hwrite' : u.write cwd p content =
      .ok (u.insert (follow (p.start cwd) p.parts) (.file content)) :=
    (write_eq_ok_iff hcwd').2 ⟨locate_mono hcwd (fun _ => h.get?_eq) hlocate, hfree', rfl⟩
  refine ⟨_, hwrite', fun q => ?_⟩
  rw [get?_write hcwd' hwrite', hview]
  split
  · rw [Option.some_or]
  · exact h q

/-- **Temporary work over leftovers**, none of which stand below its place: the directory is
made. -/
theorem insert_directory (h : Over left t u) (hne : place ≠ []) (hfree : t.get? place = none)
    (hleft : left place = none) :
    Over left (t.insert place .directory) (u.insert place .directory) := by
  intro q
  rw [get?_insert_free hne hfree, get?_insert_free hne (by rw [h, hfree, hleft]; rfl)]
  split
  · rw [Option.some_or]
  · exact h q

/-- **Temporary work over leftovers** is over: the directory is gone. -/
theorem erase (h : Over left t u) (hne : place ≠ [])
    (hleft : ∀ q, place <+: q → left q = none) :
    Over left (t.erase place) (u.erase place) := by
  intro q
  rw [get?_erase hne, get?_erase hne]
  split
  · rename_i hq
    rw [hleft q hq]
    rfl
  · exact h q

end Over

/-- What fits a tree without a temporary directory fits it with one. -/
theorem fits_of_erase (hne : place ≠ []) (hleft : ∀ q, place <+: q → left q = none)
    (h : left.Fits (t.erase place)) : left.Fits t where
  directories q hq := by
    by_cases hpre : place <+: q
    · simp [hleft q hpre]
    · refine h.directories q ?_
      rw [get?_erase hne, if_neg hpre, hq]
  files q hq := by
    by_cases hpre : place <+: q
    · simp [hleft q hpre]
    · refine h.files q ?_
      rwa [file?_congr (t := t)]
      rw [get?_erase hne, if_neg hpre]

end FileTree

end DenoPackager
