import DenoPackager.Transform.Walk
import Mathlib.Order.Bounds.Defs

/-!
# What a walk reaches

A walk visits exactly what can be reached from its queue along imports that are there: what it has
seen is always closed under these imports up to what is still waiting in the queue, and it visits
nothing that a closed set could do without.

## Main definitions

* `Imports`: one path imports another, which is there.
* `Closed`: the sets of paths that hold the entry points and are closed under imports.
* `WalkInvariant`: what holds between two steps of a walk.

## Main results

* `walk_invariant`: every walk keeps the invariant.
* `walk_isLeast`: a walk from entry points visits the least closed set.
* `walk_ok`: a walk from files that are there succeeds, if all files are texts.
-/

namespace DenoPackager.Transform

/-- **Imports that are there**: the module at `p` imports the path `q`, and there is a file. -/
def Imports (t : FileTree) (cwd p q : Path) : Prop :=
  ∃ m, load t cwd p = .ok m ∧ q ∈ m.imports ∧ isThere t cwd q = true

/-- **Closed sets** of paths: they hold the entry points, and what their modules import as far as
it is there. -/
def Closed (t : FileTree) (cwd : Path) (entries : List Path) : Set (Set Path) :=
  {S | (∀ e ∈ entries, e ∈ S) ∧ ∀ p ∈ S, ∀ q, Imports t cwd p q → q ∈ S}

/-- **What holds between two steps** of a walk: the modules seen are those of the tree, their imports
can be looked up, each module is seen once, and what it imports is seen or waits in the queue. -/
structure WalkInvariant (t : FileTree) (cwd : Path) (queue : List Path) (seen : List Module) :
    Prop where
  loaded : ∀ m ∈ seen, load t cwd m.path = .ok m
  short : ∀ m ∈ seen, ∀ q ∈ m.imports, q.isTooLong = false
  nodup : (seen.map Module.path).Nodup
  imported : ∀ m ∈ seen, ∀ q ∈ m.imports, isThere t cwd q = true →
    q ∈ seen.map Module.path ∨ q ∈ queue

/-- **Paths with imports that can be looked up**: none of these is too long. -/
def LookedUp (t : FileTree) (cwd : Path) (paths : Set Path) : Prop :=
  ∀ p ∈ paths, ∀ m, load t cwd p = .ok m → ∀ q ∈ m.imports, q.isTooLong = false

variable {t : FileTree} {cwd : Path} {queue : List Path} {seen : List Module}

theorem WalkInvariant.start (t : FileTree) (cwd : Path) (queue : List Path) :
    WalkInvariant t cwd queue [] where
  loaded := by simp
  short := by simp
  nodup := by simp
  imported := by simp

/-- A path that was seen before is skipped. -/
theorem WalkInvariant.skip {p : Path} (h : WalkInvariant t cwd (p :: queue) seen)
    (hp : p ∈ seen.map Module.path) : WalkInvariant t cwd queue seen where
  loaded := h.loaded
  short := h.short
  nodup := h.nodup
  imported := by
    intro m hm q hq hthere
    rcases h.imported m hm q hq hthere with hseen | hqueue
    · exact .inl hseen
    · rcases List.mem_cons.1 hqueue with rfl | hqueue
      · exact .inl hp
      · exact .inr hqueue

/-- **A visit**: a new module is seen, and its new imports are put into the queue. -/
theorem WalkInvariant.visit {p : Path} {m : Module} (h : WalkInvariant t cwd (p :: queue) seen)
    (hp : p ∉ seen.map Module.path) (hm : visit t cwd p = .ok m) :
    WalkInvariant t cwd (queue ++ newImports t cwd (seen ++ [m]) m) (seen ++ [m]) where
  loaded := by
    intro k hk
    rcases List.mem_append.1 hk with hk | hk
    · exact h.loaded k hk
    · rw [List.mem_singleton.1 hk, path_of_visit hm]
      exact (visit_eq_ok_iff.1 hm).1
  short := by
    intro k hk
    rcases List.mem_append.1 hk with hk | hk
    · exact h.short k hk
    · rw [List.mem_singleton.1 hk]
      exact (visit_eq_ok_iff.1 hm).2
  nodup := by
    rw [List.map_append, List.nodup_append]
    refine ⟨h.nodup, by simp, ?_⟩
    intro q hq r hr
    rw [List.map_singleton, List.mem_singleton, path_of_visit hm] at hr
    rintro rfl
    exact hp (hr ▸ hq)
  imported := by
    intro k hk q hq hthere
    by_cases hseen : q ∈ (seen ++ [m]).map Module.path
    · exact .inl hseen
    · right
      rw [List.mem_append]
      rcases List.mem_append.1 hk with hk | hk
      · rcases h.imported k hk q hq hthere with hold | hqueue
        · exact absurd (by rw [List.map_append]; exact List.mem_append_left _ hold) hseen
        · rcases List.mem_cons.1 hqueue with rfl | hqueue
          · refine absurd ?_ hseen
            rw [List.map_append, List.map_singleton, path_of_visit hm]
            simp
          · exact .inl hqueue
      · rw [List.mem_singleton.1 hk] at hq
        right
        rw [newImports, List.mem_filter, Bool.and_eq_true, decide_eq_true_eq]
        exact ⟨hq, hseen, hthere⟩

/-- A new module in front of the queue is visited. -/
theorem walk_cons_of_visit {p : Path} {m : Module} {warnings : List String}
    (hp : p ∉ seen.map Module.path) (hm : visit t cwd p = .ok m) :
    walk t cwd (p :: queue) seen warnings =
      walk t cwd (queue ++ newImports t cwd (seen ++ [m]) m) (seen ++ [m])
        ((missingWarnings t cwd (seen ++ [m]) m).foldl addWarning warnings) := by
  rw [walk, dif_neg hp]
  split
  · rename_i e he
    rw [hm] at he
    simp at he
  · rename_i k hk
    rw [hm, Except.ok.injEq] at hk
    rw [hk]

/-- **Every walk keeps the invariant**, and ends with an empty queue. -/
theorem walk_invariant {warnings : List String} {seen' : List Module} {warnings' : List String}
    (h : WalkInvariant t cwd queue seen)
    (hwalk : walk t cwd queue seen warnings = .ok (seen', warnings')) :
    WalkInvariant t cwd [] seen' := by
  fun_induction walk t cwd queue seen warnings with
  | case1 seen warnings =>
    rw [Except.ok.injEq, Prod.mk.injEq] at hwalk
    exact hwalk.1 ▸ h
  | case2 seen warnings p queue hp ih => exact ih (h.skip hp) hwalk
  | case3 seen warnings p queue hp e he => simp at hwalk
  | case4 seen warnings p queue hp m hm seen₁ ih => exact ih (h.visit hp hm) hwalk

/-- What is seen or waits is seen in the end. -/
theorem subset_of_walk {warnings : List String} {seen' : List Module} {warnings' : List String}
    (hwalk : walk t cwd queue seen warnings = .ok (seen', warnings')) :
    (∀ m ∈ seen, m ∈ seen') ∧ ∀ p ∈ queue, p ∈ seen'.map Module.path := by
  fun_induction walk t cwd queue seen warnings with
  | case1 seen warnings =>
    rw [Except.ok.injEq, Prod.mk.injEq] at hwalk
    exact ⟨fun m hm => hwalk.1 ▸ hm, by simp⟩
  | case2 seen warnings p queue hp ih =>
    obtain ⟨hseen, hqueue⟩ := ih hwalk
    refine ⟨hseen, fun q hq => ?_⟩
    rcases List.mem_cons.1 hq with rfl | hq
    · obtain ⟨m, hm, hmp⟩ := List.mem_map.1 hp
      exact List.mem_map.2 ⟨m, hseen m hm, hmp⟩
    · exact hqueue q hq
  | case3 seen warnings p queue hp e he => simp at hwalk
  | case4 seen warnings p queue hp m hm seen₁ ih =>
    obtain ⟨hseen, hqueue⟩ := ih hwalk
    refine ⟨fun k hk => hseen k (List.mem_append_left _ hk), fun q hq => ?_⟩
    rcases List.mem_cons.1 hq with rfl | hq
    · exact List.mem_map.2 ⟨m, hseen m (by simp [seen₁]), path_of_visit hm⟩
    · exact hqueue q (List.mem_append_left _ hq)

/-- **Nothing is visited without need**: a set that holds what is seen and what waits, and is
closed under imports, holds all that is seen in the end. -/
theorem walk_subset {S : Set Path} {warnings : List String} {seen' : List Module}
    {warnings' : List String} (hclosed : ∀ p ∈ S, ∀ q, Imports t cwd p q → q ∈ S)
    (hseen : ∀ m ∈ seen, m.path ∈ S) (hqueue : ∀ p ∈ queue, p ∈ S)
    (hwalk : walk t cwd queue seen warnings = .ok (seen', warnings')) : ∀ m ∈ seen', m.path ∈ S := by
  fun_induction walk t cwd queue seen warnings with
  | case1 seen warnings =>
    rw [Except.ok.injEq, Prod.mk.injEq] at hwalk
    exact hwalk.1 ▸ hseen
  | case2 seen warnings p queue hp ih =>
    exact ih hseen (fun q hq => hqueue q (List.mem_cons_of_mem p hq)) hwalk
  | case3 seen warnings p queue hp e he => simp at hwalk
  | case4 seen warnings p queue hp m hm seen₁ ih =>
    have hpS : p ∈ S := hqueue p List.mem_cons_self
    refine ih ?_ ?_ hwalk
    · intro k hk
      rcases List.mem_append.1 hk with hk | hk
      · exact hseen k hk
      · rw [List.mem_singleton.1 hk, path_of_visit hm]
        exact hpS
    · intro q hq
      rcases List.mem_append.1 hq with hq | hq
      · exact hqueue q (List.mem_cons_of_mem p hq)
      · rw [newImports, List.mem_filter, Bool.and_eq_true] at hq
        exact hclosed p hpS q ⟨m, (visit_eq_ok_iff.1 hm).1, hq.1, hq.2.2⟩

/-- **A walk from entry points visits the least closed set.** -/
theorem walk_isLeast {entries : List Path} {warnings : List String} {seen : List Module}
    {warnings' : List String} (hwalk : walk t cwd entries [] warnings = .ok (seen, warnings')) :
    IsLeast (Closed t cwd entries) {p | p ∈ seen.map Module.path} := by
  have hinv := walk_invariant (.start t cwd entries) hwalk
  constructor
  · refine ⟨(subset_of_walk hwalk).2, ?_⟩
    rintro p hp q ⟨m, hm, hq, hthere⟩
    obtain ⟨k, hk, hkp⟩ := List.mem_map.1 hp
    have hkm : k = m := by
      have hload := hinv.loaded k hk
      rw [hkp, hm] at hload
      exact (Except.ok.inj hload).symm
    exact (hinv.imported k hk q (hkm ▸ hq) hthere).resolve_right (by simp)
  · intro S hS p hp
    obtain ⟨k, hk, hkp⟩ := List.mem_map.1 hp
    exact hkp ▸ walk_subset hS.2 (by simp) hS.1 hwalk k hk

/-! ### Walks that succeed -/

/-- Whether all files of a tree are texts. -/
def AllTexts (t : FileTree) : Prop :=
  ∀ p content, t.get? p = some (.file content) → ∃ s, String.fromUTF8? content = some s

/-- Whether a directory or a text stands there. -/
def isTextNode : Node → Bool
  | .directory => true
  | .file content => (String.fromUTF8? content).isSome

/-- Whether all files are texts can be read off the list of what is there. -/
theorem allTexts_of_entries (h : (t.entriesFrom []).all (fun e => isTextNode e.2) = true) :
    AllTexts t := by
  intro p content hp
  have hnode := List.all_eq_true.1 h (p, .file content) (FileTree.mem_entriesFrom.2 hp)
  exact Option.isSome_iff_exists.1 hnode

/-- A file is there exactly if it is located, at a path that is not too long. -/
theorem isThere_iff {p : Path} : isThere t cwd p = true ↔ p.isTooLong = false ∧
    ∃ place content, t.locate cwd p = .ok (place, some (.file content)) := by
  rw [isThere, Bool.and_eq_true, Bool.not_eq_true', FileTree.isFile_eq_true_iff]

/-- A module can be loaded only if its file is there. -/
theorem isThere_of_load {p : Path} {m : Module} (h : load t cwd p = .ok m) :
    isThere t cwd p = true := by
  obtain ⟨hshort, text, hread, -⟩ := load_eq_ok_iff.1 h
  obtain ⟨place, content, hlocate, -⟩ := FileTree.readText_eq_ok_iff.1 hread
  exact isThere_iff.2 ⟨hshort, place, content, hlocate⟩

/-- **What is there can be loaded**, if all files are texts. -/
theorem load_of_isThere (htexts : AllTexts t) {p : Path} (h : isThere t cwd p = true) :
    ∃ m, load t cwd p = .ok m := by
  obtain ⟨hshort, place, content, hlocate⟩ := isThere_iff.1 h
  obtain ⟨_, _, dir, -, -, -, -, hget⟩ := FileTree.exists_of_locate_file hlocate
  obtain ⟨s, hs⟩ := htexts _ content hget
  have htext : FileTree.textOfBytes content =
      .ok (String.ofList (Text.unifyLineEnds s.toList)) := by
    rw [FileTree.textOfBytes, hs]
  have hread := FileTree.readText_eq_ok_iff.2 ⟨place, content, hlocate, htext⟩
  exact ⟨_, load_eq_ok_iff.2 ⟨hshort, _, hread, rfl⟩⟩

/-- **A walk from files that are there succeeds** if no import that it comes to is too long: it never
gets to a path without a file, and the paths that it has not visited get fewer. -/
theorem walk_ok {S : Set Path} (htexts : AllTexts t) (warnings : List String)
    (hclosed : ∀ p ∈ S, ∀ q, Imports t cwd p q → q ∈ S) (hshort : LookedUp t cwd S)
    (hqueue : ∀ p ∈ queue, p ∈ S ∧ isThere t cwd p = true) :
    ∃ r, walk t cwd queue seen warnings = .ok r := by
  fun_induction walk t cwd queue seen warnings with
  | case1 seen warnings => exact ⟨_, rfl⟩
  | case2 seen warnings p queue hp ih => exact ih fun q hq => hqueue q (List.mem_cons_of_mem p hq)
  | case3 seen warnings p queue hp e he =>
    obtain ⟨hpS, hthere⟩ := hqueue p List.mem_cons_self
    obtain ⟨m, hm⟩ := load_of_isThere htexts hthere
    rw [visit_eq_ok_iff.2 ⟨hm, hshort p hpS m hm⟩] at he
    cases he
  | case4 seen warnings p queue hp m hm seen₁ ih =>
    refine ih ?_
    intro q hq
    rcases List.mem_append.1 hq with hq | hq
    · exact hqueue q (List.mem_cons_of_mem p hq)
    · rw [newImports, List.mem_filter, Bool.and_eq_true] at hq
      exact ⟨hclosed p (hqueue p List.mem_cons_self).1 q
        ⟨m, (visit_eq_ok_iff.1 hm).1, hq.1, hq.2.2⟩, hq.2.2⟩

/-! ### Roots -/

/-- A relative specifier does not start from a root. -/
theorem root_ofString_of_isRelative {s : String} (h : Source.isRelative s = true) :
    (Path.ofString s).root = .none := by
  have hhead : ∃ rest, s.toList = '.' :: rest := by
    rw [Source.isRelative, Bool.or_eq_true] at h
    rcases h with h | h
    · obtain ⟨rest, hrest⟩ := Option.isSome_iff_exists.1 h
      exact ⟨_, Text.afterStart?_eq_some_iff.1 hrest⟩
    · obtain ⟨rest, hrest⟩ := Option.isSome_iff_exists.1 h
      exact ⟨_, Text.afterStart?_eq_some_iff.1 hrest⟩
  obtain ⟨rest, hrest⟩ := hhead
  simp [Path.ofString, Path.rootOf, hrest]

/-- An imported module starts from the root that its importer starts from. -/
theorem root_of_mem_imports {m : Module} {q : Path} (h : q ∈ m.imports) :
    q.root = m.path.root := by
  obtain ⟨s, hs, rfl⟩ := List.mem_map.1 h
  have hroot := root_ofString_of_isRelative (List.mem_filter.1 hs).2
  simp only [Module.target, Path.normal, Path.joinText, Path.join, hroot, Path.parent]

/-- All that is visited from paths with one root has that root. -/
theorem root_of_walk {root : Root} {warnings : List String} {seen' : List Module}
    {warnings' : List String} (hqueue : ∀ p ∈ queue, p.root = root)
    (hseen : ∀ m ∈ seen, m.path.root = root)
    (hwalk : walk t cwd queue seen warnings = .ok (seen', warnings')) :
    ∀ m ∈ seen', m.path.root = root := by
  refine walk_subset (S := {p | p.root = root}) ?_ hseen hqueue hwalk
  rintro p hp q ⟨m, hm, hq, -⟩
  show q.root = root
  rw [root_of_mem_imports hq, path_of_load hm]
  exact hp

end DenoPackager.Transform
