import DenoPackager.Discovery
import DenoPackager.Proofs.Globs.Selectors
import DenoPackager.Proofs.Rebuild.Overlay

/-!
# Tests that are found once more

Looking for tests in a tree that is laid over leftovers finds the same tests, if the files that were
left are below a directory that is left out. A search that never goes up finds things where the way
to them leads, and what it finds is told by what stands on the way to it. The only names that could
lead up are those of leftovers, and beyond these a way leads into the directory that is left out.

## Main definitions

* `Glob.Found.Straight`: what was found where the way to it leads.
* `Discovery.StaysDown`: patterns that never go up.

## Main results

* `Glob.mem_select_of_agree`: what a search finds is told by what stands on the way to it.
* `Discovery.testsIn_over`: the same tests are found over leftovers.
-/

namespace DenoPackager

/-- **Ascending lists of the same things** are the same, if things are told apart by their
names. -/
theorem Path.ascendingBy_congr {α : Type} [DecidableEq α] {names : α → List String} {as bs : List α}
    (inj : ∀ a ∈ as, ∀ b ∈ as, names a = names b → a = b) (h : ∀ a, a ∈ as ↔ a ∈ bs) :
    ascendingBy names as = ascendingBy names bs := by
  have has := ascendingBy_pairwise inj
  have hbs : (ascendingBy names bs).Pairwise fun a b =>
      namesLe (names a) (names b) = true ∧ a ≠ b :=
    ascendingBy_pairwise fun a ha b hb => inj a ((h a).2 ha) b ((h b).2 hb)
  have hle : (ascendingBy names as).Pairwise fun a b => namesLe (names a) (names b) = true :=
    has.imp And.left
  refine List.Perm.eq_of_pairwise (fun a b ha hb hab hba => ?_) hle (hbs.imp And.left) ?_
  · refine inj a (mem_ascendingBy.1 ha) b ?_ (namesLe_antisymm hab hba)
    exact (h b).2 (mem_ascendingBy.1 hb)
  · rw [List.perm_ext_iff_of_nodup (has.imp And.right) (hbs.imp And.right)]
    intro a
    rw [mem_ascendingBy, mem_ascendingBy, h]

/-- No name in a tree is a double dot if none is listed. -/
theorem FileTree.up_not_mem_of_entries {t : FileTree}
    (h : ∀ e ∈ t.entriesFrom [], Path.up ∉ e.1) : ∀ q, (t.get? q).isSome → Path.up ∉ q := by
  intro q hq
  obtain ⟨n, hn⟩ := Option.isSome_iff_exists.1 hq
  exact h (q, n) (FileTree.mem_entriesFrom.2 hn)

namespace Glob

variable {t u : FileTree} {root out : Place} {s : Selector} {ss rest : List Selector}
  {f g e : Found}

/-- **What was found straight ahead** below a directory: it is where the way to it leads, unless
that way leads into the directory `out`. -/
def Found.Straight (root out : Place) (f : Found) : Prop :=
  out <+: root ++ f.way ∨ f.place = root ++ f.way

theorem Found.Straight.place_eq (h : f.Straight root out) (hout : ¬ out <+: root ++ f.way) :
    f.place = root ++ f.way :=
  h.resolve_left hout

/-- What is found straight ahead of something. -/
def Found.ahead (f : Found) (names : List String) : Found :=
  ⟨f.way ++ names, f.place ++ names⟩

/-- **The directories from a directory on** lie straight ahead of it. -/
theorem mem_directoriesFrom_iff : e ∈ directoriesFrom t f ↔
    e = f ∨ ∃ p ≠ [], t.get? (f.place ++ p) = some .directory ∧ e = f.ahead p := by
  rw [directoriesFrom, List.mem_cons, List.mem_filterMap]
  refine or_congr_right ⟨?_, ?_⟩
  · rintro ⟨⟨p, n⟩, hp, he⟩
    cases n with
    | file content => simp at he
    | directory =>
      by_cases hnil : p = []
      · simp [hnil] at he
      · rw [if_neg hnil, Option.some.injEq] at he
        exact ⟨p, hnil, FileTree.mem_entriesFrom.1 hp, he.symm⟩
  · rintro ⟨p, hnil, hp, rfl⟩
    exact ⟨(p, .directory), FileTree.mem_entriesFrom.2 hp, if_neg hnil⟩

theorem Found.way_step (f : Found) (name : String) : (f.step name).way = f.way ++ [name] := by
  rw [step]
  split <;> rfl

/-- A step of a pattern makes the way longer. -/
theorem way_of_mem_advance (h : e ∈ advance t rest f s) : f.way <+: e.way := by
  cases s with
  | itself => exact List.mem_singleton.1 h ▸ List.prefix_refl _
  | everyDirectory =>
    obtain rfl | ⟨p, -, -, rfl⟩ := mem_directoriesFrom_iff.1 h
    · exact List.prefix_refl _
    · exact List.prefix_append _ _
  | matching pattern =>
    obtain ⟨name, -, rfl⟩ := List.mem_map.1 (List.mem_filter.1 h).1
    exact f.way_step name ▸ List.prefix_append _ _
  | named name =>
    rw [List.mem_singleton.1 (List.mem_filter.1 h).1, f.way_step]
    exact List.prefix_append _ _

/-- A step to a name goes straight ahead, unless it goes up. -/
theorem Found.straight_step {name : String} (hf : f.place = root ++ f.way)
    (hname : name ≠ Path.up) : (f.step name).Straight root out := by
  right
  rw [Found.step, if_neg hname, hf, List.append_assoc]

/-- **A step of a pattern goes straight ahead**, unless it is up, if no name outside of `out` is a
double dot. -/
theorem straight_of_mem_advance (ht : ∀ q, (t.get? q).isSome → Path.up ∈ q → out <+: q)
    (hs : s ≠ .named Path.up) (hf : f.Straight root out) (h : e ∈ advance t rest f s) :
    e.Straight root out := by
  obtain hout | hplace := hf
  · exact .inl (hout.trans ((List.prefix_append_right_inj root).2 (way_of_mem_advance h)))
  cases s with
  | itself => exact .inr (List.mem_singleton.1 h ▸ hplace)
  | everyDirectory =>
    obtain rfl | ⟨p, -, -, rfl⟩ := mem_directoriesFrom_iff.1 h
    · exact .inr hplace
    · right
      rw [Found.ahead, hplace, List.append_assoc]
  | matching pattern =>
    obtain ⟨name, hname, rfl⟩ := List.mem_map.1 (List.mem_filter.1 h).1
    by_cases hup : name = Path.up
    · have hthere := FileTree.mem_childNames.1 (List.mem_filter.1 hname).1
      left
      rw [Found.step, if_pos hup, ← List.append_assoc, ← hplace]
      exact ht _ hthere (by simp [hup])
    · exact Found.straight_step hplace hup
  | named name =>
    rw [List.mem_singleton.1 (List.mem_filter.1 h).1]
    exact Found.straight_step hplace fun hup => hs (hup ▸ rfl)

/-- **A step of a pattern is told by what stands on the way.** -/
theorem mem_advance_of_agree (hf : f.place = root ++ f.way) (he : e.place = root ++ e.way)
    (hsame : ∀ q, q <+: e.place → u.get? q = t.get? q) (h : e ∈ advance t rest f s) :
    e ∈ advance u rest f s := by
  have hmay : mayGoOn u rest e = mayGoOn t rest e := by
    cases rest with
    | nil => rw [mayGoOn, mayGoOn, hsame _ (List.prefix_refl _)]
    | cons s rest =>
      rw [mayGoOn, mayGoOn, FileTree.isDirectoryAt, FileTree.isDirectoryAt,
        hsame _ (List.prefix_refl _)]
  cases s with
  | itself => exact h
  | everyDirectory =>
    refine mem_directoriesFrom_iff.2 ((mem_directoriesFrom_iff.1 h).imp_right ?_)
    rintro ⟨p, hp, hdir, rfl⟩
    exact ⟨p, hp, (hsame _ (List.prefix_refl _)).trans hdir, rfl⟩
  | matching pattern =>
    obtain ⟨hmem, hgo⟩ := List.mem_filter.1 h
    obtain ⟨name, hname, rfl⟩ := List.mem_map.1 hmem
    obtain ⟨hchild, hmatch⟩ := List.mem_filter.1 hname
    refine List.mem_filter.2 ⟨List.mem_map.2 ⟨name, List.mem_filter.2 ⟨?_, hmatch⟩, rfl⟩,
      hmay.trans hgo⟩
    by_cases hup : name = Path.up
    · rw [Found.step, if_pos hup, hf] at he
      have hlength := congrArg List.length he
      simp only [List.length_dropLast, List.length_append, List.length_singleton] at hlength
      omega
    · rw [Found.step, if_neg hup] at hsame
      rw [FileTree.mem_childNames, hsame _ (List.prefix_refl _)]
      exact FileTree.mem_childNames.1 hchild
  | named name =>
    obtain ⟨hmem, hgo⟩ := List.mem_filter.1 h
    exact List.mem_filter.2 ⟨hmem, hmay.trans hgo⟩

/-- What a first step leads to is found from one of the places that it finds. -/
theorem mem_select_cons_iff : g ∈ select t (s :: rest) [f] ↔
    ∃ e ∈ advance t rest f s, g ∈ select t rest [e] := by
  rw [select, List.flatMap_singleton, mem_select_iff]
  simp only [Path.mem_ascendingBy]

/-- What is found lies behind the way so far. -/
theorem way_of_mem_select (h : g ∈ select t ss [f]) : f.way <+: g.way := by
  induction ss generalizing f with
  | nil => exact List.mem_singleton.1 h ▸ List.prefix_refl _
  | cons s rest ih =>
    obtain ⟨e, he, hg⟩ := mem_select_cons_iff.1 h
    exact (way_of_mem_advance he).trans (ih hg)

/-- **What selectors find lies straight ahead.** -/
theorem straight_of_mem_select (ht : ∀ q, (t.get? q).isSome → Path.up ∈ q → out <+: q)
    (hss : .named Path.up ∉ ss) (hf : f.Straight root out) (h : g ∈ select t ss [f]) :
    g.Straight root out := by
  induction ss generalizing f with
  | nil => exact List.mem_singleton.1 h ▸ hf
  | cons s rest ih =>
    rw [List.mem_cons, not_or] at hss
    obtain ⟨e, he, hg⟩ := mem_select_cons_iff.1 h
    exact ih hss.2 (straight_of_mem_advance ht (Ne.symm hss.1) hf he) hg

/-- **What selectors find is told by what stands on the way to it**, as long as that way does not
lead into `out`. -/
theorem mem_select_of_agree (ht : ∀ q, (t.get? q).isSome → Path.up ∈ q → out <+: q)
    (hss : .named Path.up ∉ ss) (hf : f.Straight root out) (hout : ¬ out <+: root ++ g.way)
    (hsame : ∀ q, q <+: root ++ g.way → u.get? q = t.get? q) (h : g ∈ select t ss [f]) :
    g ∈ select u ss [f] := by
  induction ss generalizing f with
  | nil => exact h
  | cons s rest ih =>
    rw [List.mem_cons, not_or] at hss
    obtain ⟨e, he, hg⟩ := mem_select_cons_iff.1 h
    have hestraight := straight_of_mem_advance ht (Ne.symm hss.1) hf he
    -- all places on the way lie straight ahead, since none of them leads into `out`
    have hway : root ++ e.way <+: root ++ g.way :=
      (List.prefix_append_right_inj root).2 (way_of_mem_select hg)
    have heplace := hestraight.place_eq fun h => hout (h.trans hway)
    have hfplace := hf.place_eq fun h =>
      hout ((h.trans ((List.prefix_append_right_inj root).2 (way_of_mem_advance he))).trans hway)
    refine mem_select_cons_iff.2 ⟨e, ?_, ih hss.2 hestraight hg⟩
    exact mem_advance_of_agree hfplace heplace (fun q hq => hsame q (hq.trans (heplace ▸ hway))) he

/-- **Searching by a pattern** that never goes up: what is found lies straight ahead, and is told by
what stands on the way to it. -/
theorem of_search (ht : ∀ q, (t.get? q).isSome → Path.up ∈ q → out <+: q) {pattern : String}
    (hup : Path.up ∉ (Path.ofString pattern).parts) {found : List Found}
    (h : search t root pattern = .ok found) : ∃ found', search u root pattern = .ok found' ∧
      ∀ g ∈ found, g.Straight root out ∧ (¬ out <+: root ++ g.way →
        (∀ q, q <+: root ++ g.way → u.get? q = t.get? q) → g ∈ found') := by
  obtain ⟨ss, hss, rfl⟩ := Except.map_eq_ok_iff.1 h
  refine ⟨_, Except.map_eq_ok_iff.2 ⟨ss, hss, rfl⟩, fun g hg => ?_⟩
  by_cases hdir : t.isDirectoryAt root = true
  · rw [if_pos hdir] at hg
    have hnamed : .named Path.up ∉ ss := fun hmem => hup (Selector.up_mem_of_ofPattern hss hmem)
    have hstart : Found.Straight root out ⟨[], root⟩ := .inr (List.append_nil root).symm
    refine ⟨straight_of_mem_select ht hnamed hstart hg, fun hout hsame => ?_⟩
    have hdir' : u.isDirectoryAt root = true := by
      rw [FileTree.isDirectoryAt, hsame root (List.prefix_append _ _)]
      exact hdir
    rw [if_pos hdir']
    exact mem_select_of_agree ht hnamed hstart hout hsame hg
  · rw [if_neg hdir] at hg
    exact absurd hg List.not_mem_nil

end Glob

/-- Files are seen alike over leftovers that are no files there. -/
theorem FileTree.Over.isFileAt_eq {left : Leftovers} {t u : FileTree} (h : t.Over left u)
    {q : Place} (hq : ∀ content, left q ≠ some (.file content)) : u.isFileAt q = t.isFileAt q := by
  rw [isFileAt, isFileAt, h q]
  cases t.get? q with
  | some n => rfl
  | none =>
    rw [Option.none_or]
    cases hleft : left q with
    | none => rfl
    | some n =>
      cases n with
      | directory => rfl
      | file content => exact absurd hleft (hq content)

namespace Discovery

open Glob (expandBraces Found)

/-- **Patterns that never go up**: once its braces are expanded, none of the patterns that such a
one stands for has a double dot for a component. -/
def StaysDown (pattern : String) : Prop :=
  ∀ p ∈ expandBraces pattern.toList, Path.up ∉ Path.components p

instance : DecidablePred StaysDown := fun pattern =>
  inferInstanceAs (Decidable (∀ p ∈ expandBraces pattern.toList, Path.up ∉ Path.components p))

/-- A dot in front says nothing about the components. -/
theorem components_dropStart (p : List Char) :
    Path.components (Text.dropStart "./".toList p) = Path.components p := by
  rw [Text.dropStart]
  cases h : Text.afterStart? "./".toList p with
  | none => rfl
  | some rest =>
    rw [Text.afterStart?_eq_some_iff.1 h]
    exact (Path.components_append ['.'] rest).symm

variable {t u : FileTree} {out : Place} {root : Path} {ps : List (List Char)} {found : List Found}
  {left : Leftovers}

/-- **Searching by patterns** that never go up. -/
theorem of_search (ht : ∀ q, (t.get? q).isSome → Path.up ∈ q → out <+: q)
    (hps : ∀ p ∈ ps, Path.up ∉ Path.components p) (h : search t root ps = .ok found) :
    ∃ found', search u root ps = .ok found' ∧
      ∀ g ∈ found, g.Straight root.parts out ∧ (¬ out <+: root.parts ++ g.way →
        (∀ q, q <+: root.parts ++ g.way → u.get? q = t.get? q) → g ∈ found') := by
  induction ps generalizing found with
  | nil =>
    rw [search, Except.ok.injEq] at h
    exact ⟨[], rfl, fun g hg => absurd (h ▸ hg) List.not_mem_nil⟩
  | cons p ps ih =>
    rw [search] at h
    cases hfirst : Glob.search t root.parts (String.ofList (Text.dropStart "./".toList p)) with
    | error e =>
      rw [hfirst] at h
      exact absurd h nofun
    | ok first =>
      rw [hfirst] at h
      cases hothers : search t root ps with
      | error e =>
        rw [hothers] at h
        exact absurd h nofun
      | ok others =>
        rw [hothers] at h
        obtain rfl : first ++ others = found := Except.ok.inj h
        have hup : Path.up ∉
            (Path.ofString (String.ofList (Text.dropStart "./".toList p))).parts := by
          rw [Path.ofString, String.toList_ofList, components_dropStart]
          exact hps p List.mem_cons_self
        obtain ⟨first', hfirst', hmem⟩ := Glob.of_search (u := u) ht hup hfirst
        obtain ⟨others', hothers', hmem'⟩ :=
          ih (fun q hq => hps q (List.mem_cons_of_mem p hq)) hothers
        refine ⟨first' ++ others', by rw [search, hfirst', hothers']; rfl, fun g hg => ?_⟩
        obtain hg | hg := List.mem_append.1 hg
        · exact (hmem g hg).imp_right fun h hout hsame =>
            List.mem_append_left _ (h hout hsame)
        · exact (hmem' g hg).imp_right fun h hout hsame =>
            List.mem_append_right _ (h hout hsame)

/-- Paths below a directory are told apart by their component lists. -/
theorem pathOf_eq_of_key_eq {f g : Found} (h : (pathOf root f).key = (pathOf root g).key) :
    pathOf root f = pathOf root g := by
  have hparts : (pathOf root f).parts = (pathOf root g).parts := by
    cases hroot : root.root <;> simpa [Path.key, pathOf, hroot] using h
  exact congrArg (fun parts => { root with parts := parts }) hparts

/-- **Tests that are found in one tree** are found in another one in which the same stands on the
way to them. -/
theorem isTest_of_agree (ht : ∀ q, (t.get? q).isSome → Path.up ∈ q → out <+: q)
    (hps : ∀ p ∈ ps, Path.up ∉ Path.components p) (hroot : root.root = .single)
    {excluded : List Path} (hexcluded : ⟨.single, out⟩ ∈ excluded) {found' : List Found}
    (h : search t root ps = .ok found) (h' : search u root ps = .ok found')
    (hsame : ∀ place, ¬ out <+: place → t.isFileAt place = true →
      ∀ q, q <+: place → u.get? q = t.get? q) {g : Found} (hg : g ∈ found)
    (htest : isTest t root excluded g = true) : g ∈ found' ∧ isTest u root excluded g = true := by
  obtain ⟨found'', hfound'', hmem⟩ := of_search (u := u) ht hps h
  obtain rfl : found'' = found' := by
    rw [h', Except.ok.injEq] at hfound''
    exact hfound''.symm
  obtain ⟨hstraight, hagree⟩ := hmem g hg
  rw [isTest, Bool.and_eq_true, Bool.and_eq_true, Bool.not_eq_true', Bool.not_eq_true'] at htest
  obtain ⟨⟨hfile, hignored⟩, hkept⟩ := htest
  have hout : ¬ out <+: root.parts ++ g.way := by
    intro hprefix
    have hwithin := List.any_eq_false.1 hkept _ hexcluded
    rw [Path.isWithin, pathOf, hroot, Bool.and_eq_true, decide_eq_true_eq,
      List.isPrefixOf_iff_prefix] at hwithin
    exact hwithin ⟨rfl, hprefix⟩
  have hplace := hstraight.place_eq hout
  have hway := hsame (root.parts ++ g.way) hout (hplace ▸ hfile)
  refine ⟨hagree hout hway, ?_⟩
  have hfile' : u.isFileAt g.place = true := by
    rw [FileTree.isFileAt, hplace, hway _ (List.prefix_refl _), ← hplace]
    exact hfile
  rw [isTest, hfile', hignored, hkept]
  rfl

/-- **The same tests are found over leftovers**, if their files are below a directory that is left
out, and no name of a file that was there before goes up. -/
theorem testsIn_over (hover : t.Over left u) (hdown : ∀ q, (t.get? q).isSome → Path.up ∉ q)
    (hup : ∀ q, left q ≠ none → Path.up ∈ q → out <+: q)
    (hfiles : ∀ q content, left q = some (.file content) → out <+: q)
    (hroot : root.root = .single) {excluded : List Path} (hexcluded : ⟨.single, out⟩ ∈ excluded)
    {pattern : String} (hpattern : StaysDown pattern) {tests : List Path}
    (h : testsIn t root pattern excluded = .ok tests) :
    testsIn u root pattern excluded = .ok tests := by
  obtain ⟨found, hfound, rfl⟩ := Except.map_eq_ok_iff.1 h
  have ht : ∀ q, (t.get? q).isSome → Path.up ∈ q → out <+: q := fun q hq hmem =>
    absurd hmem (hdown q hq)
  have hu : ∀ q, (u.get? q).isSome → Path.up ∈ q → out <+: q := by
    intro q hq hmem
    rw [hover q] at hq
    cases hthere : t.get? q with
    | some n => exact ht q (by rw [hthere]; rfl) hmem
    | none =>
      rw [hthere, Option.none_or] at hq
      exact hup q (Option.isSome_iff_ne_none.1 hq) hmem
  obtain ⟨found', hfound', -⟩ := of_search (u := u) ht hpattern hfound
  -- what stands on the way to a file outside of `out` was there before
  have hsame : ∀ place, ¬ out <+: place → t.isFileAt place = true →
      ∀ q, q <+: place → u.get? q = t.get? q := by
    intro place _ hfile q hq
    cases hthere : t.get? q with
    | some n => exact hover.get?_eq hthere
    | none => simp [FileTree.isFileAt, FileTree.get?_eq_none_below hthere hq] at hfile
  have hsame' : ∀ place, ¬ out <+: place → u.isFileAt place = true →
      ∀ q, q <+: place → t.get? q = u.get? q := by
    intro place hout hfile q hq
    rw [hover.isFileAt_eq fun content hleft => hout (hfiles place content hleft)] at hfile
    exact (hsame place hout hfile q hq).symm
  have hmem (g : Found) : g ∈ found.filter (isTest t root excluded) ↔
      g ∈ found'.filter (isTest u root excluded) := by
    rw [List.mem_filter, List.mem_filter]
    exact ⟨fun hg => isTest_of_agree ht hpattern hroot hexcluded hfound hfound' hsame hg.1 hg.2,
      fun hg => isTest_of_agree hu hpattern hroot hexcluded hfound' hfound hsame' hg.1 hg.2⟩
  refine Except.map_eq_ok_iff.2 ⟨found', hfound',
    (Path.ascendingBy_congr (fun a ha b hb heq => ?_) fun p => ?_).symm⟩
  · obtain ⟨f, -, rfl⟩ := List.mem_map.1 ha
    obtain ⟨g, -, rfl⟩ := List.mem_map.1 hb
    exact pathOf_eq_of_key_eq heq
  · rw [List.mem_map, List.mem_map]
    exact exists_congr fun g => and_congr_left' (hmem g)

end Discovery

end DenoPackager
