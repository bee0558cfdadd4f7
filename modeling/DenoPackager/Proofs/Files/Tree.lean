import DenoPackager.FileTree.Change
import Mathlib.Data.Set.Basic

/-!
# What changes in a file tree

A build adds directories and writes files; only temporary directories go away again. So a path
that led to a directory at some time leads there for the rest of the build, and it is enough to say
which places the files changed at. Two relations say so: one names the places outside of which all
files are the same, the other one the files that were written.

## Main definitions

* `FileTree.file?`: the content of the file at a place.
* `FileTree.SameOutside`: trees with the same files outside of some places.
* `FileTree.Wrote`: the tree after files were written.

## Main results

* `SameOutside.enter`: a path leads to the same directory afterwards.
* `readBytes_eq_ok_iff`: reading a file is finding it in a directory.
* `wrote_of_write`, `sameOutside_makeDirs`: writing a file, and making directories.
* `sameOutside_insert_empty`, `sameOutside_temporary`: a temporary directory, and what is left of
  it.
-/

namespace DenoPackager.FileTree

variable {t u v : FileTree} {cwd p : Path} {here dir : Place} {cs : List String} {name : String}
  {content : ByteArray} {s s' : Set Place} {es es' : List (Place × ByteArray)}

/-- **The content of the file** at a place, if a file stands there. -/
def file? (t : FileTree) (p : Place) : Option ByteArray :=
  match t.get? p with
  | some (.file content) => some content
  | _ => none

theorem file?_eq_some_iff {q : Place} :
    t.file? q = some content ↔ t.get? q = some (.file content) := by
  rw [file?]
  split
  · rename_i found h
    rw [h]
    simp
  · rename_i h
    exact ⟨fun he => by simp at he, fun he => absurd he (h content)⟩

theorem file?_congr {q : Place} (h : u.get? q = t.get? q) : u.file? q = t.file? q := by
  rw [file?, file?, h]

/-- Nothing stands below what is no directory, in particular no file. -/
theorem file?_below {q : Place} (hcs : cs ≠ []) (h : t.get? q ≠ some .directory) :
    t.file? (q ++ cs) = none := by
  rw [file?, get?_below hcs h]

/-! ### Walking -/

/-- A way through directories that stay leads to the same place. -/
theorem enter_mono (hdirs : ∀ q, t.get? q = some .directory → u.get? q = some .directory)
    (h : t.enter here cs = .ok dir) : u.enter here cs = .ok dir := by
  induction cs generalizing here with
  | nil => exact h
  | cons c cs ih =>
    rw [enter] at h ⊢
    split at h
    · rename_i hc
      rw [if_pos hc]
      exact ih h
    · rename_i hc
      rw [if_neg hc]
      split at h
      · rename_i hg
        rw [hdirs _ hg]
        exact ih h
      · simp at h
      · simp at h

/-- Without a double dot, walking goes down. -/
theorem enter_down (hup : Path.up ∉ cs) (h : t.enter here cs = .ok dir) : dir = here ++ cs := by
  induction cs generalizing here with
  | nil => simpa [enter] using h.symm
  | cons c cs ih =>
    rw [List.mem_cons, not_or] at hup
    rw [enter, if_neg (Ne.symm hup.1)] at h
    split at h
    · rw [ih hup.2 h, List.append_assoc, List.singleton_append]
    · simp at h
    · simp at h

/-- A way down to a directory can be walked. -/
theorem enter_of_directory (hup : Path.up ∉ cs) (h : t.get? (here ++ cs) = some .directory) :
    t.enter here cs = .ok (here ++ cs) := by
  induction cs generalizing here with
  | nil => rw [enter, List.append_nil]
  | cons c cs ih =>
    rw [List.mem_cons, not_or] at hup
    rw [← List.singleton_append, ← List.append_assoc] at h ⊢
    have hnext : t.get? (here ++ [c]) = some .directory := by
      by_cases hcs : cs = []
      · rwa [hcs, List.append_nil] at h
      · exact get?_above hcs h
    rw [List.singleton_append, enter, if_neg (Ne.symm hup.1), hnext]
    exact ih hup.2 h

/-- Walking from a directory ends in a directory. -/
theorem directory_of_enter (hhere : t.get? here = some .directory)
    (h : t.enter here cs = .ok dir) : t.get? dir = some .directory :=
  enter_induction (P := fun q => t.get? q = some .directory) hhere
    (fun q hq => directory_above hq (List.dropLast_prefix q)) (fun _ _ _ _ hget _ => hget) h

/-- Walking invents no double dot. -/
theorem up_not_mem_of_enter (hhere : Path.up ∉ here) (h : t.enter here cs = .ok dir) :
    Path.up ∉ dir := by
  refine enter_induction (P := fun q => Path.up ∉ q) hhere (fun q hq hmem => ?_)
    (fun q c _ hc _ hq => ?_) h
  · exact hq (List.dropLast_subset q hmem)
  · rw [List.mem_append, List.mem_singleton, not_or]
    exact ⟨hq, Ne.symm hc⟩

/-! ### Trees with the same files -/

/-- **The same files outside** of some places; directories may have been added. -/
structure SameOutside (s : Set Place) (t u : FileTree) : Prop where
  directories : ∀ q, t.get? q = some .directory → u.get? q = some .directory
  files : ∀ q, q ∉ s → u.file? q = t.file? q

namespace SameOutside

theorem refl (s : Set Place) (t : FileTree) : SameOutside s t t :=
  ⟨fun _ h => h, fun _ _ => rfl⟩

theorem trans (h : SameOutside s t u) (h' : SameOutside s u v) : SameOutside s t v :=
  ⟨fun q hq => h'.directories q (h.directories q hq),
    fun q hq => (h'.files q hq).trans (h.files q hq)⟩

theorem mono (h : SameOutside s t u) (hs : s ⊆ s') : SameOutside s' t u :=
  ⟨h.directories, fun q hq => h.files q fun hmem => hq (hs hmem)⟩

/-- **A path leads to the same directory** afterwards. -/
theorem enter (h : SameOutside s t u) (henter : t.enter here cs = .ok dir) :
    u.enter here cs = .ok dir :=
  enter_mono h.directories henter

end SameOutside

/-- **The tree after files were written**, in some order: each of the places has one of the
contents that were written there, and no other place was touched. -/
structure Wrote (es : List (Place × ByteArray)) (t u : FileTree) : Prop where
  directories : ∀ q, t.get? q = some .directory → u.get? q = some .directory
  written : ∀ q ∈ es.map Prod.fst, ∃ c, (q, c) ∈ es ∧ u.file? q = some c
  kept : ∀ q, q ∉ es.map Prod.fst → u.file? q = t.file? q

namespace Wrote

theorem sameOutside (h : Wrote es t u) : SameOutside {q | q ∈ es.map Prod.fst} t u :=
  ⟨h.directories, h.kept⟩

theorem nil_of_sameOutside (h : SameOutside ∅ t u) : Wrote [] t u :=
  ⟨h.directories, by simp, fun q _ => h.files q (Set.notMem_empty q)⟩

/-- **More files written** after some were. -/
theorem append (h : Wrote es t u) (h' : Wrote es' u v) : Wrote (es ++ es') t v where
  directories q hq := h'.directories q (h.directories q hq)
  written := by
    intro q hq
    by_cases hq' : q ∈ es'.map Prod.fst
    · obtain ⟨c, hc, hfile⟩ := h'.written q hq'
      exact ⟨c, List.mem_append_right _ hc, hfile⟩
    · rw [List.map_append, List.mem_append] at hq
      obtain ⟨c, hc, hfile⟩ := h.written q (hq.resolve_right hq')
      exact ⟨c, List.mem_append_left _ hc, (h'.kept q hq').trans hfile⟩
  kept := by
    intro q hq
    rw [List.map_append, List.mem_append, not_or] at hq
    rw [h'.kept q hq.2, h.kept q hq.1]

/-- The content of a place at which no two different contents were written. -/
theorem file?_eq (h : Wrote es t u) {q : Place} {c : ByteArray} (hc : (q, c) ∈ es)
    (hone : ∀ c', (q, c') ∈ es → c' = c) : u.file? q = some c := by
  obtain ⟨c', hc', hfile⟩ := h.written q (List.mem_map_of_mem hc)
  rw [hfile, hone c' hc']

end Wrote

/-! ### Changes -/

/-- A file put into a directory. -/
theorem wrote_insert (hdir : t.get? dir = some .directory)
    (hfree : t.get? (dir ++ [name]) ≠ some .directory) :
    Wrote [(dir ++ [name], content)] t (t.insert (dir ++ [name]) (.file content)) := by
  have hne : dir ++ [name] ≠ [] := by simp
  have hget := fun q => get?_insert (n := .file content) hne
    (by rwa [List.dropLast_concat]) (.inr hfree) q
  refine ⟨?_, ?_, ?_⟩
  · intro q hq
    rw [hget, if_neg, hq]
    rintro rfl
    exact hfree hq
  · intro q hq
    obtain rfl : q = dir ++ [name] := by simpa using hq
    refine ⟨content, List.mem_singleton.2 rfl, file?_eq_some_iff.2 ?_⟩
    rw [hget, if_pos rfl]
  · intro q hq
    refine file?_congr ?_
    rw [hget, if_neg fun he => hq (by simp [he])]

/-- A directory made in a directory. -/
theorem sameOutside_insert_directory (hdir : t.get? dir = some .directory)
    (hfree : t.get? (dir ++ [name]) = none) :
    SameOutside ∅ t (t.insert (dir ++ [name]) .directory) := by
  have hget := fun q => get?_insert (t := t) (p := dir ++ [name]) (n := .directory) (by simp)
    (by rwa [List.dropLast_concat]) (.inl rfl) q
  refine ⟨?_, ?_⟩
  · intro q hq
    rw [hget, hq]
    split <;> rfl
  · intro q _
    by_cases hq : q = dir ++ [name]
    · rw [file?, file?, hget, if_pos hq, hq, hfree]
    · exact file?_congr (by rw [hget, if_neg hq])

/-! ### Paths -/

/-- The directory that a path starts from is there if the current one is. -/
theorem directory_start (hcwd : t.get? cwd.parts = some .directory) (p : Path) :
    t.get? (p.start cwd) = some .directory := by
  rw [Path.start]
  split
  · exact hcwd
  · exact get?_nil t

/-- **Where a path leads** that ends in a name: to that name in the directory before it. -/
theorem locate_of_parts (hparts : p.parts = cs ++ [name]) (hname : name ≠ Path.up) :
    t.locate cwd p =
      if p.parts.any Path.hasNul then .error .badValue
      else (t.enter (p.start cwd) cs).map fun dir => (dir ++ [name], t.get? (dir ++ [name])) := by
  split
  · rename_i hnul
    exact locate_of_hasNul hnul
  · rename_i hnul
    rw [locate_concat (Bool.eq_false_of_not_eq_true hnul) hparts]
    simp only [lastStep, if_neg hname]

/-- What a path leads to that ends in a name, if it leads anywhere. -/
theorem of_locate_eq_ok (hparts : p.parts = cs ++ [name]) (hname : name ≠ Path.up) {q : Place}
    {n : Option Node} (h : t.locate cwd p = .ok (q, n)) :
    ∃ dir, t.enter (p.start cwd) cs = .ok dir ∧ q = dir ++ [name] ∧ n = t.get? q ∧
      p.parts.any Path.hasNul = false := by
  obtain ⟨hnul, ⟨hnil, -⟩ | ⟨cs', c, dir, hparts', henter, hfound⟩⟩ := locate_eq_ok_iff.1 h
  · simp [hnil] at hparts
  · obtain ⟨rfl, hlast⟩ := List.append_inj' (hparts.symm.trans hparts') rfl
    obtain rfl := List.singleton_inj.1 hlast
    rw [lastStep, if_neg hname, Prod.mk.injEq] at hfound
    exact ⟨dir, henter, hfound.1, hfound.1 ▸ hfound.2, hnul⟩

/-- **Reading a file** is finding it in the directory before its name. -/
theorem readBytes_eq_ok_iff (hparts : p.parts = cs ++ [name]) (hname : name ≠ Path.up) :
    t.readBytes cwd p = .ok content ↔ p.parts.any Path.hasNul = false ∧
      ∃ dir, t.enter (p.start cwd) cs = .ok dir ∧ t.file? (dir ++ [name]) = some content := by
  rw [readBytes, locate_of_parts hparts hname]
  by_cases hnul : p.parts.any Path.hasNul = true
  · simp [hnul]
  · rw [if_neg hnul]
    cases t.enter (p.start cwd) cs with
    | error e => simp [Except.map]
    | ok dir =>
      simp only [Except.map, hnul, Except.ok.injEq, exists_eq_left', file?_eq_some_iff, true_and]
      cases t.get? (dir ++ [name]) with
      | none => simp
      | some n => cases n <;> simp

/-- **An absolute path that never climbs** leads to a file exactly if one stands at the place that it
spells. -/
theorem isFile_iff (habs : p.isAbsolute = true) (hup : Path.up ∉ p.parts) :
    t.isFile cwd p = true ↔ p.parts.any Path.hasNul = false ∧ t.isFileAt p.parts = true := by
  have hstart : p.start cwd = [] := by
    rw [Path.isAbsolute, decide_eq_true_eq] at habs
    rw [Path.start]
    split
    · exact absurd ‹_› habs
    · rfl
  rw [isFile_eq_true_iff, isFileAt_eq_true_iff]
  constructor
  · rintro ⟨place, content, hlocate⟩
    obtain ⟨cs, name, dir, hparts, -, henter, -, hget⟩ := exists_of_locate_file hlocate
    rw [hparts, List.mem_append, not_or] at hup
    rw [hstart] at henter
    obtain rfl := enter_down hup.1 henter
    exact ⟨(locate_eq_ok_iff.1 hlocate).1, content, hparts ▸ hget⟩
  · rintro ⟨hnul, content, hget⟩
    rcases List.eq_nil_or_concat p.parts with hparts | ⟨cs, name, hparts⟩
    · simp [hparts] at hget
    · rw [List.concat_eq_append] at hparts
      rw [hparts, List.mem_append, List.mem_singleton, not_or] at hup
      rw [hparts] at hget
      have hdir : t.get? ([] ++ cs) = some .directory :=
        get?_above (List.cons_ne_nil name []) hget
      refine ⟨cs ++ [name], content, ?_⟩
      rw [locate_of_parts hparts (Ne.symm hup.2), if_neg (by simp [hnul]), hstart,
        enter_of_directory hup.1 hdir, ← hget]
      rfl

/-- **Writing a file** to a path that ends in a name writes it in the directory before that. -/
theorem wrote_of_write (hcwd : t.get? cwd.parts = some .directory)
    (hparts : p.parts = cs ++ [name]) (hname : name ≠ Path.up)
    (h : t.write cwd p content = .ok u) :
    p.parts.any Path.hasNul = false ∧
      ∃ dir, t.enter (p.start cwd) cs = .ok dir ∧ Wrote [(dir ++ [name], content)] t u := by
  have hfree : ∀ q, t.locate cwd p ≠ .ok (q, some .directory) := by
    intro q hq
    rw [write, hq] at h
    simp at h
  obtain ⟨q, n, hlocate, rfl⟩ := write_eq_ok h
  obtain ⟨dir, henter, rfl, rfl, hnul⟩ := of_locate_eq_ok hparts hname hlocate
  have hdir := directory_of_enter (directory_start hcwd p) henter
  exact ⟨hnul, dir, henter,
    wrote_insert hdir fun hget => hfree _ (hlocate.trans (by rw [hget]))⟩

/-- A path that leads to an empty place ends in a name, and the directory before it is there. -/
theorem of_locate_eq_none (hcwd : t.get? cwd.parts = some .directory) {q : Place}
    (h : t.locate cwd p = .ok (q, none)) :
    ∃ dir name, q = dir ++ [name] ∧ t.get? dir = some .directory ∧ t.get? q = none := by
  obtain ⟨-, ⟨-, hfound⟩ | ⟨cs, c, dir, hparts, henter, hfound⟩⟩ := locate_eq_ok_iff.1 h
  · simp at hfound
  · have hname : c ≠ Path.up := by
      rintro rfl
      simp [lastStep] at hfound
    obtain ⟨dir, henter, rfl, hget, -⟩ := of_locate_eq_ok hparts hname h
    exact ⟨dir, c, rfl, directory_of_enter (directory_start hcwd p) henter, hget.symm⟩

/-- Making a directory, or finding it there, touches no file. -/
theorem sameOutside_ensureDir (hcwd : t.get? cwd.parts = some .directory)
    (h : t.ensureDir cwd p = .ok u) : SameOutside ∅ t u := by
  rw [ensureDir] at h
  split at h
  · rename_i made hmade
    obtain rfl := Except.ok.inj h
    obtain ⟨q, hlocate, rfl⟩ := makeDir_eq_ok hmade
    obtain ⟨dir, name, rfl, hdir, hfree⟩ := of_locate_eq_none hcwd hlocate
    exact sameOutside_insert_directory hdir hfree
  · split at h
    · obtain rfl := Except.ok.inj h
      exact .refl _ _
    · simp at h
  · simp at h

/-- **Making directories** touches no file, even if it stops half way. -/
theorem sameOutside_makeDirs (hcwd : t.get? cwd.parts = some .directory) (p : Path) :
    SameOutside ∅ t (t.makeDirs cwd p).2 := by
  fun_induction makeDirs t cwd p with
  | case1 p u hmade => exact sameOutside_ensureDir hcwd hmade
  | case2 p hmissing hnil => exact .refl _ _
  | case3 p hmissing hne e u habove ih =>
    rw [habove] at ih
    exact ih
  | case4 p hmissing hne u habove v hmade ih =>
    rw [habove] at ih
    exact ih.trans (sameOutside_ensureDir (ih.directories _ hcwd) hmade)
  | case5 p hmissing hne u habove e hfailed ih =>
    rw [habove] at ih
    exact ih
  | case6 p e hother hfailed => exact .refl _ _

/-! ### Temporary directories -/

/-- **A directory made at an empty place** touches no file, unless one stands in the way, and it is
empty. -/
theorem sameOutside_insert_empty {q : Place} (hq : q ≠ []) (hfree : t.get? q = none) :
    SameOutside {p | p <+: q ∧ p ≠ q ∧ t.get? p ≠ some .directory} t (t.insert q .directory) ∧
      (t.insert q .directory).get? q = some .directory ∧
      ∀ r, (t.insert q .directory).file? (q ++ r) = none := by
  have hview := get?_insert_free hq hfree
  refine ⟨⟨fun p hp => ?_, fun p hp => ?_⟩, get?_insert_self hq, fun r => ?_⟩
  · rw [hview]
    split
    · rfl
    · exact hp
  · by_cases hpre : p <+: q
    · rw [file?, file?, hview, if_pos hpre]
      by_cases hdir : t.get? p = some .directory
      · rw [hdir]
      · obtain rfl : p = q := by_contra fun hne => hp ⟨hpre, hne, hdir⟩
        rw [hfree]
    · exact file?_congr ((hview p).trans (if_neg hpre))
  · rw [file?, hview, get?_eq_none_below hfree (List.prefix_append q r)]
    by_cases hpre : q ++ r <+: q
    · rw [if_pos hpre]
    · rw [if_neg hpre]

/-- **What is done around a temporary directory** is all that is left of it in the end. -/
theorem sameOutside_temporary {q : Place} (hq : q ≠ []) (hfree : t.get? q = none)
    (h : SameOutside s (t.insert q .directory) u) :
    SameOutside ({p | p ∈ s ∧ ¬ q <+: p} ∪ {p | p <+: q ∧ p ≠ q ∧ t.get? p ≠ some .directory}) t
      (u.erase q) := by
  have hmade := (sameOutside_insert_empty hq hfree).1
  refine ⟨fun p hp => ?_, fun p hp => ?_⟩
  · rw [get?_erase hq, if_neg, h.directories p (hmade.directories p hp)]
    intro hqp
    rw [get?_eq_none_below hfree hqp] at hp
    simp at hp
  · by_cases hqp : q <+: p
    · rw [file?, file?, get?_erase hq, if_pos hqp, get?_eq_none_below hfree hqp]
    · rw [Set.mem_union, not_or] at hp
      rw [file?_congr ((get?_erase hq p).trans (if_neg hqp)), h.files p fun hs => hp.1 ⟨hs, hqp⟩]
      exact hmade.files p hp.2

/-- No file stands in the way below a directory that is there. -/
theorem above_eq_empty (hdir : t.get? dir = some .directory) :
    {p | p <+: dir ++ [name] ∧ p ≠ dir ++ [name] ∧ t.get? p ≠ some .directory} = ∅ := by
  refine Set.eq_empty_of_forall_notMem ?_
  rintro p ⟨hp, hne, hget⟩
  obtain ⟨r, rfl⟩ := (List.prefix_concat_iff.1 hp).resolve_left hne
  by_cases hr : r = []
  · exact hget (by rwa [hr, List.append_nil] at hdir)
  · exact hget (get?_above hr hdir)

/-- **Files written elsewhere** before a temporary directory goes away. -/
theorem wrote_temporary (hdir : t.get? dir = some .directory)
    (hfree : t.get? (dir ++ [name]) = none)
    (h : SameOutside {p | dir ++ [name] <+: p} (t.insert (dir ++ [name]) .directory) u)
    (hw : Wrote es u v) (hes : ∀ p ∈ es.map Prod.fst, ¬ dir ++ [name] <+: p) :
    Wrote es t (v.erase (dir ++ [name])) := by
  have hne : dir ++ [name] ≠ [] := by simp
  have hsame := sameOutside_temporary (s := {p | dir ++ [name] <+: p} ∪ {p | p ∈ es.map Prod.fst})
    hne hfree ((h.mono Set.subset_union_left).trans (hw.sameOutside.mono Set.subset_union_right))
  rw [above_eq_empty hdir, Set.union_empty] at hsame
  refine ⟨hsame.directories, ?_, ?_⟩
  · intro p hp
    obtain ⟨c, hc, hfile⟩ := hw.written p hp
    refine ⟨c, hc, (file?_congr ?_).trans hfile⟩
    rw [get?_erase hne, if_neg (hes p hp)]
  · intro p hp
    refine hsame.files p ?_
    rintro ⟨hp' | hp', hbelow⟩
    · exact hbelow hp'
    · exact hp hp'

end DenoPackager.FileTree
