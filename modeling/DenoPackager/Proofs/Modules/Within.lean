import DenoPackager.Proofs.Modules.Collect
import Mathlib.Data.List.Pairwise
import Mathlib.Data.List.Sort

/-!
# What is collected from a small tree

A walk ends, but what bounds it is all paths that can be loaded, which cannot be listed. On a small
tree it takes a few steps, and with a number of steps to go by it is computed, and so is what is
collected.

## Main definitions

* `walkWithin`: a walk of at most so many steps.
* `collectWithin`: what is collected in walks of at most so many steps.

## Main results

* `walk_of_walkWithin`: what such a walk visits.
* `collect_of_collectWithin`, `exists_collect_of_any`: what is collected in this way is what is
  collected.
-/

namespace DenoPackager.Transform

variable {t : FileTree} {cwd base : Path} {request : Request} {c : Collection} {n : ℕ}
  {queue : List Path} {seen : List Module} {warnings : List String}
  {r : List Module × List String}

/-- **A walk of at most so many steps**; nothing if it takes more, or fails. -/
def walkWithin (t : FileTree) (cwd : Path) :
    ℕ → List Path → List Module → List String → Option (List Module × List String)
  | _, [], seen, warnings => some (seen, warnings)
  | 0, _ :: _, _, _ => none
  | n + 1, p :: queue, seen, warnings =>
    if p ∈ seen.map Module.path then walkWithin t cwd n queue seen warnings
    else
      match visit t cwd p with
      | .error _ => none
      | .ok m =>
        walkWithin t cwd n (queue ++ newImports t cwd (seen ++ [m]) m) (seen ++ [m])
          ((missingWarnings t cwd (seen ++ [m]) m).foldl addWarning warnings)

/-- **What such a walk visits** is what the walk visits. -/
theorem walk_of_walkWithin (h : walkWithin t cwd n queue seen warnings = some r) :
    walk t cwd queue seen warnings = .ok r := by
  fun_induction walkWithin t cwd n queue seen warnings with
  | case1 n seen warnings => rw [walk, Option.some.inj h]
  | case2 => cases h
  | case3 seen warnings n p queue hp ih =>
    rw [walk, dif_pos hp]
    exact ih h
  | case4 => cases h
  | case5 seen warnings n p queue hp m hm ih =>
    rw [walk_cons_of_visit hp hm]
    exact ih h

/-- The modules in the order of their paths, if that order tells them apart. -/
def sortWithin (ms : List Module) : Option (List Module) :=
  let sorted := ms.insertionSort fun a b => a.path.le b.path = true
  if sorted.Pairwise fun a b => b.path.le a.path = false then some sorted else none

theorem sortModules_of_sortWithin {ms sorted : List Module} (h : sortWithin ms = some sorted) :
    sortModules ms = sorted := by
  rw [sortWithin, Option.ite_none_right_eq_some, Option.some.injEq] at h
  obtain ⟨hstrict, rfl⟩ := h
  have hperm := (List.mergeSort_perm ms fun a b => a.path.le b.path).trans
    (List.perm_insertionSort (fun a b : Module => a.path.le b.path = true) ms).symm
  have hle := List.pairwise_mergeSort
    (fun a b k : Module => @Path.namesLe_trans a.path.key b.path.key k.path.key)
    (fun a b => Path.namesLe_total a.path.key b.path.key) ms
  -- of two different modules only one comes before the other
  have hone : (ms.insertionSort fun a b => a.path.le b.path = true).Pairwise
      fun a b => ¬ (a.path.le b.path = true ∧ b.path.le a.path = true) := by
    refine hstrict.imp fun {a b} hab h => ?_
    rw [hab] at h
    cases h.2
  have hsymm : Std.Symm fun a b : Module => ¬ (a.path.le b.path = true ∧ b.path.le a.path = true) :=
    ⟨fun a b h hba => h hba.symm⟩
  refine List.Perm.eq_of_pairwise (fun a b ha hb hab hba => ?_) hle
    (hstrict.imp fun {a b} hab => ?_) hperm
  · by_contra hne
    exact hone.forall (hperm.subset ha) hb hne ⟨hab, hba⟩
  · have htotal := Path.namesLe_total a.path.key b.path.key
    rwa [show Path.namesLe b.path.key a.path.key = false from hab, Bool.or_false] at htotal

/-- **What is collected** in walks of at most so many steps. -/
def collectWithin (n : ℕ) (t : FileTree) (cwd base : Path) (request : Request) :
    Option Collection := do
  let mainEntries ← (request.entryPoints.mapM (entryPath base)).toOption
  let testEntries ← (request.testEntryPoints.mapM (entryPath base)).toOption
  let (mainSeen, mainWarnings) ← walkWithin t cwd n mainEntries [] []
  let (testSeen, warnings) ← walkWithin t cwd n testEntries [] mainWarnings
  let main ← sortWithin mainSeen
  let test ← sortWithin (testSeen.filter fun m => decide (m.path ∉ mainSeen.map Module.path))
  let layout ← (Layout.ofModules ((main ++ test).map Module.path)).toOption
  pure
    { main := main
      test := test
      mainEntries := mainEntries
      testEntries := testEntries
      layout := layout
      warnings := warnings }

/-- **What is collected in this way** is what is collected. -/
theorem collect_of_collectWithin (n : ℕ) (h : collectWithin n t cwd base request = some c) :
    collect t cwd base request = .ok c := by
  obtain ⟨mainEntries, hmain, h⟩ := Option.bind_eq_some_iff.1 h
  obtain ⟨testEntries, htest, h⟩ := Option.bind_eq_some_iff.1 h
  obtain ⟨⟨mainSeen, mainWarnings⟩, hmainWalk, h⟩ := Option.bind_eq_some_iff.1 h
  obtain ⟨⟨testSeen, warnings⟩, htestWalk, h⟩ := Option.bind_eq_some_iff.1 h
  obtain ⟨main, hmainSort, h⟩ := Option.bind_eq_some_iff.1 h
  obtain ⟨test, htestSort, h⟩ := Option.bind_eq_some_iff.1 h
  obtain ⟨layout, hlayout, h⟩ := Option.bind_eq_some_iff.1 h
  obtain rfl := Option.some.inj h
  exact collect_eq_ok_iff.2 ⟨mainSeen, testSeen,
    { mainEntries := Except.mapM_eq_ok_iff.1 (Except.eq_ok_of_toOption hmain)
      testEntries := Except.mapM_eq_ok_iff.1 (Except.eq_ok_of_toOption htest)
      walks := ⟨mainWarnings, walk_of_walkWithin hmainWalk, walk_of_walkWithin htestWalk⟩
      main := (sortModules_of_sortWithin hmainSort).symm
      test := (sortModules_of_sortWithin htestSort).symm
      layout := Except.eq_ok_of_toOption hlayout }⟩

/-- **What is found in it** is found in what is collected. -/
theorem exists_collect_of_any (n : ℕ) {P : Collection → Prop} [DecidablePred P]
    (h : (collectWithin n t cwd base request).any (fun c => decide (P c)) = true) :
    ∃ c, collect t cwd base request = .ok c ∧ P c := by
  obtain ⟨c, hc, hP⟩ := (Option.any_eq_true _ _).1 h
  exact ⟨c, collect_of_collectWithin n hc, of_decide_eq_true hP⟩

end DenoPackager.Transform
