import DenoPackager.Proofs.Globs.Rearrangement
import DenoPackager.Proofs.Globs.Selection
import Mathlib.Data.List.Sort

/-!
# Which tests are found

The tests below a directory are the files there that one of the globs of a pattern selects, except
for those in ignored directories and in directories that are left out. They are put in strictly
ascending order, so that this says which list they are. Nothing depends on how the alternatives of
the pattern are arranged.

The globs of a pattern are what its braces expand to, without a dot in front. The statements are
about patterns with valid globs, none of which goes up, and about trees in which no name is a double
dot, since no file has that name. The directories to be searched and to be left out may be spelled
in any way, but for the character that no path can have.

## Main definitions

* `globs`: the globs of a pattern.
* `TestsBelow`: the tests below a directory.

## Main results

* `testsIn_testsBelow`: what is found in a tree.
* `find_testsBelow`: what is found by the action.
-/

namespace DenoPackager

/-- **One path stands before another one**, strictly, by their component lists. -/
def Path.Before (p q : Path) : Prop :=
  p.le q = true ∧ p.key ≠ q.key

instance : Std.Irrefl Path.Before where
  irrefl _ h := h.2 rfl

instance : Std.Antisymm Path.Before where
  antisymm _ _ h h' := absurd (Path.namesLe_antisymm h.1 h'.1) h.2

namespace Discovery

open Glob (expandBraces Found IsGlob Matches)

/-- **The globs of a pattern**: what its braces expand to, without a dot in front. -/
def globs (pattern : String) : List (List Char) :=
  (expandBraces pattern.toList).map (Text.dropStart "./".toList)

/-- **The tests below a directory**, in strictly ascending order: the files that a glob selects by
the way to them, on which no name is ignored, and which are in no directory that is left out. -/
structure TestsBelow (t : FileTree) (root : Path) (globs : List (List Char)) (excluded : List Path)
    (tests : List Path) : Prop where
  ascending : tests.Pairwise Path.Before
  mem_iff : ∀ p, p ∈ tests ↔ ∃ way, p = { root with parts := root.parts ++ way } ∧
    t.isFileAt p.parts = true ∧ (∃ g ∈ globs, Matches g way) ∧ (∀ name ∈ way, name ∉ ignoredNames) ∧
    ∀ dir ∈ excluded, p.isWithin dir = false

variable {t : FileTree} {root : Path} {gs gs' ps : List (List Char)}
  {excluded tests tests' : List Path} {found : List Found} {g : Found} {s s' : String}

/-- **There is one list of the tests** below a directory. -/
theorem TestsBelow.unique (h : TestsBelow t root gs excluded tests)
    (h' : TestsBelow t root gs excluded tests') : tests = tests' :=
  h.ascending.eq_of_mem_iff h'.ascending fun p => (h.mem_iff p).trans (h'.mem_iff p).symm

/-- It is the same for other lists of the same globs. -/
theorem TestsBelow.congr (h : TestsBelow t root gs excluded tests) (hgs : ∀ g, g ∈ gs ↔ g ∈ gs') :
    TestsBelow t root gs' excluded tests where
  ascending := h.ascending
  mem_iff := by simpa only [hgs] using h.mem_iff

/-! ### Searching -/

/-- Valid globs can be searched by. -/
theorem exists_search (hps : ∀ p ∈ ps, IsGlob (Text.dropStart "./".toList p)) :
    ∃ found, search t root ps = .ok found := by
  induction ps with
  | nil => exact ⟨[], rfl⟩
  | cons p ps ih =>
    obtain ⟨hp, hps⟩ := List.forall_mem_cons.1 hps
    obtain ⟨others, hothers⟩ := ih hps
    obtain ⟨first, hfirst⟩ : ∃ first,
        Glob.search t root.parts (String.ofList (Text.dropStart "./".toList p)) = .ok first :=
      ⟨_, Except.map_eq_ok_iff.2 ⟨_, Glob.Selector.ofPattern_eq_ok_iff.2 ⟨hp, rfl⟩, rfl⟩⟩
    exact ⟨first ++ others, by rw [search, hfirst, hothers]; rfl⟩

/-- **What globs find**: among the files, those that one of them selects. -/
theorem mem_search_iff (ht : ∀ q, (t.get? q).isSome → Path.up ∉ q)
    (hps : ∀ p ∈ ps, Path.up ∉ Path.components p) (h : search t root ps = .ok found)
    (hfile : t.isFileAt g.place = true) :
    g ∈ found ↔ g.place = root.parts ++ g.way ∧
      ∃ p ∈ ps, Matches (Text.dropStart "./".toList p) g.way := by
  induction ps generalizing found with
  | nil =>
    rw [search, Except.ok.injEq] at h
    simp [← h]
  | cons p ps ih =>
    obtain ⟨hp, hps⟩ := List.forall_mem_cons.1 hps
    rw [search] at h
    split at h
    · simp at h
    · rename_i first hfirst
      obtain ⟨others, hothers, rfl⟩ := Except.map_eq_ok_iff.1 h
      rw [← components_dropStart] at hp
      rw [List.mem_append, ih hps hothers, Glob.mem_search_iff ht hp hfirst hfile, ← and_or_left,
        List.exists_mem_cons_iff]

/-! ### The tests in a tree -/

theorem isTest_iff : isTest t root excluded g = true ↔
    t.isFileAt g.place = true ∧ (∀ name ∈ g.way, name ∉ ignoredNames) ∧
      ∀ dir ∈ excluded, (pathOf root g).isWithin dir = false := by
  simp [isTest, and_assoc]

/-- **What is found in a tree** are its tests. -/
theorem testsIn_testsBelow (ht : ∀ q, (t.get? q).isSome → Path.up ∉ q)
    (hglobs : ∀ g ∈ globs s, IsGlob g) (hdown : StaysDown s) :
    ∃ tests, testsIn t root s excluded = .ok tests ∧
      TestsBelow t root (globs s) excluded tests := by
  obtain ⟨found, hfound⟩ : ∃ found, search t root (expandBraces s.toList) = .ok found :=
    exists_search fun p hp => hglobs _ (List.mem_map_of_mem hp)
  refine ⟨_, Except.map_eq_ok_iff.2 ⟨found, hfound, rfl⟩, ?_, fun p => ?_⟩
  · have hinj : ∀ p ∈ (found.filter (isTest t root excluded)).map (pathOf root),
        ∀ q ∈ (found.filter (isTest t root excluded)).map (pathOf root), p.key = q.key → p = q := by
      intro p hp q hq heq
      obtain ⟨f, -, rfl⟩ := List.mem_map.1 hp
      obtain ⟨g, -, rfl⟩ := List.mem_map.1 hq
      exact pathOf_eq_of_key_eq heq
    refine (Path.ascendingBy_pairwise hinj).imp_of_mem fun hp hq h => ⟨h.1, fun heq => h.2 ?_⟩
    exact hinj _ (Path.mem_ascendingBy.1 hp) _ (Path.mem_ascendingBy.1 hq) heq
  · simp only [Path.mem_ascendingBy, List.mem_map, List.mem_filter, isTest_iff]
    constructor
    · rintro ⟨f, ⟨hf, hfile, hnames, hkept⟩, rfl⟩
      obtain ⟨hplace, p, hp, hmatch⟩ := (mem_search_iff ht hdown hfound hfile).1 hf
      refine ⟨f.way, rfl, ?_, ⟨_, List.mem_map_of_mem hp, hmatch⟩, hnames, hkept⟩
      rwa [pathOf, ← hplace]
    · rintro ⟨way, rfl, hfile, ⟨_, hg, hmatch⟩, hnames, hkept⟩
      obtain ⟨p, hp, rfl⟩ := List.mem_map.1 hg
      have hf := (mem_search_iff (g := ⟨way, root.parts ++ way⟩) ht hdown hfound hfile).2
        ⟨rfl, p, hp, hmatch⟩
      exact ⟨_, ⟨hf, hfile, hnames, hkept⟩, rfl⟩

/-! ### The action -/

/-- **The action** gives what is found in the tree, and says how much that is. -/
theorem run_find {w : Workspace} {pattern : Json}
    (hnul : ∀ p ∈ root :: excluded, ∀ c ∈ p.parts, Path.hasNul c = false)
    (hpattern : patternOf pattern = .ok s)
    (h : testsIn w.tree (root.resolved w.cwd) s (excluded.map (·.resolved w.cwd)) = .ok tests) :
    (find root pattern excluded).run w = (.ok tests, { w with events := w.events ++ [.logged .debug
      ("Found " ++ Problem.count tests.length ++ " test file(s) in " ++
        (root.resolved w.cwd).text)] }) := by
  have hany : ((root :: excluded).any fun p => p.parts.any Path.hasNul) = false := by
    refine List.any_eq_false.2 fun p hp => ?_
    rw [Bool.not_eq_true, List.any_eq_false]
    exact fun c hc => Bool.eq_false_iff.1 (hnul p hp c hc)
  have hlook : (patternOf pattern >>= fun s =>
      testsIn w.tree (root.resolved w.cwd) s (excluded.map (·.resolved w.cwd))) = .ok tests :=
    Except.bind_eq_ok_iff.2 ⟨s, hpattern, h⟩
  rw [find, Action.run_bind_of_ok (Action.run_get w), hany]
  refine (Action.run_bind_of_ok (Action.run_pure () w)).trans ?_
  exact (Action.run_bind_of_ok (Action.run_look_of_ok hlook)).trans rfl

/-- **Finding tests** by a pattern with valid globs, none of which goes up: the tests below the
directory are found, none of them is in a directory that is left out, and a pattern with the
alternatives rearranged gives the same. -/
theorem find_testsBelow {w : Workspace} {pattern : Json}
    (ht : ∀ q, (w.tree.get? q).isSome → Path.up ∉ q)
    (hnul : ∀ p ∈ root :: excluded, ∀ c ∈ p.parts, Path.hasNul c = false)
    (hpattern : patternOf pattern = .ok s) (hglobs : ∀ g ∈ globs s, IsGlob g)
    (hdown : StaysDown s) :
    ∃ tests v, (find root pattern excluded).run w = (.ok tests, v) ∧
      TestsBelow w.tree (root.resolved w.cwd) (globs s) (excluded.map (·.resolved w.cwd)) tests ∧
      (∀ p ∈ tests, ∀ dir ∈ excluded, ¬ (dir.resolved w.cwd).parts <+: p.parts) ∧
      ∀ pattern' s' (p p' : Glob.Pattern), patternOf pattern' = .ok s' → p.text = s.toList →
        p'.text = s'.toList → p.Rearranged p' →
        (find root pattern' excluded).run w = (.ok tests, v) := by
  obtain ⟨tests, hfound, htests⟩ := testsIn_testsBelow ht hglobs hdown
  refine ⟨tests, _, run_find hnul hpattern hfound, htests, ?_, ?_⟩
  · intro p hp dir hdir hprefix
    obtain ⟨way, rfl, -, -, -, hkept⟩ := (htests.mem_iff p).1 hp
    have hwithin := hkept _ (List.mem_map_of_mem hdir)
    rw [Path.isWithin, List.isPrefixOf_iff_prefix.2 hprefix] at hwithin
    simp [Path.resolved] at hwithin
  · intro pattern' s' p p' hpattern' hp hp' h
    have hsame (e : List Char) : e ∈ expandBraces s.toList ↔ e ∈ expandBraces s'.toList := by
      rw [← hp, ← hp', h.mem_expandBraces_iff]
    have hglobs' (g : List Char) : g ∈ globs s ↔ g ∈ globs s' := by
      simp only [globs, List.mem_map, hsame]
    obtain ⟨tests', hfound', htests'⟩ := testsIn_testsBelow ht
      (fun g hg => hglobs g ((hglobs' g).2 hg)) fun e he => hdown e ((hsame e).2 he)
    obtain rfl := (htests.congr hglobs').unique htests'
    exact run_find hnul hpattern' hfound'

/-- Tests in a hidden directory, in ignored ones, and in one that is to be left out. -/
def hiddenTree : FileTree :=
  ["a_test.js", ".b/c.test.ts", ".b/.git/d.test.ts", "node_modules/e.test.ts",
    "npm/f.test.ts"].foldl (fun t s => t.insert ("p" :: Path.components s.toList) (.file .empty))
    (FileTree.empty.insert ["p"] .directory)

theorem find_testsBelow_hidden : ∃ tests v,
    (find (.ofString ".b/..") (.str "./\x7b**/*.test.ts,*_test.js\x7d") [.ofString ".//npm"]).run
        (.fresh (.ofString "/p") hiddenTree) = (.ok tests, v) ∧
      TestsBelow hiddenTree (.ofString "/p") (globs "./\x7b**/*.test.ts,*_test.js\x7d")
        [.ofString "/p/npm"] tests ∧
      (∀ p ∈ tests, ∀ dir ∈ [Path.ofString ".//npm"],
        ¬ (dir.resolved (.ofString "/p")).parts <+: p.parts) ∧
      ∀ pattern' s' (p p' : Glob.Pattern), patternOf pattern' = .ok s' →
        p.text = "./\x7b**/*.test.ts,*_test.js\x7d".toList → p'.text = s'.toList →
        p.Rearranged p' →
        (find (.ofString ".b/..") pattern' [.ofString ".//npm"]).run
          (.fresh (.ofString "/p") hiddenTree) = (.ok tests, v) :=
  find_testsBelow (w := .fresh (.ofString "/p") hiddenTree)
    (FileTree.up_not_mem_of_entries (by decide +kernel)) (by decide +kernel) rfl
    (by decide +kernel) (by decide +kernel)

end Discovery

end DenoPackager
