import DenoPackager.Proofs.Files.Touch
import DenoPackager.Proofs.Links.Way

/-!
# Removing files

The writer removes a file by the text of its path. It does so exactly if the path names a file that
is there and the policy allows it. Files that are removed one after the other are there until their
turn, so no file is removed twice.

## Main definitions

* `Workspace.Removed`: the workspace after files were removed.

## Main results

* `FileTree.remove_text_eq_ok_iff`: when a file can be removed by the text of its path.
* `Policy.allowsWrite_below`: what lies below a directory that may be written may be written.
* `Writer.of_run_removeAll`, `Writer.run_removeAll`: which files can be removed one after the other.
-/

namespace DenoPackager

open DenoPackager.Path (ProperPart)

/-! ### The text of a path -/

namespace Path

/-- A slash in front gives no component. -/
theorem rawComponents_slash (s : String) :
    FileTree.rawComponents ("/" ++ s) = FileTree.rawComponents s := by
  rw [FileTree.rawComponents, String.toList_append]
  exact congrArg (fun pieces => (pieces.map String.ofList).filter (· ≠ ""))
    (Text.splitOn_append [] s.toList)

/-- Proper components between slashes are read back. -/
theorem rawComponents_intercalate {cs : List String} (h : ∀ c ∈ cs, ProperPart c) (hne : cs ≠ []) :
    FileTree.rawComponents (String.intercalate "/" cs) = cs := by
  have hmap : (cs.map String.toList).map String.ofList = cs := by
    rw [List.map_map]
    exact List.map_id'' (fun c => String.ofList_toList) cs
  rw [FileTree.rawComponents, splitOn_intercalate h hne, hmap, List.filter_eq_self]
  exact fun c hc => decide_eq_true (h c hc).1

/-- The text of a path with components. -/
theorem text_of_ne_nil {p : Path} (hne : p.parts ≠ []) :
    p.text = rootText p.root ++ String.intercalate "/" p.parts := by
  obtain ⟨root, parts⟩ := p
  obtain ⟨c, cs, rfl⟩ := List.exists_cons_of_ne_nil hne
  cases root <;> rfl

/-- **The components of a path that was written** are those of the path. -/
theorem rawComponents_text {p : Path} (hp : p.Proper) (hne : p.parts ≠ []) :
    FileTree.rawComponents p.text = p.parts := by
  rw [text_of_ne_nil hne]
  have hparts := rawComponents_intercalate hp hne
  cases p.root with
  | none => rwa [rootText, String.empty_append]
  | single => rwa [rootText, rawComponents_slash]
  | double =>
    rwa [rootText, show "//" = "/" ++ "/" from rfl, String.append_assoc, rawComponents_slash,
      rawComponents_slash]

/-- A character other than a slash stands in a text exactly if it stands between two slashes. -/
theorem mem_intercalate {cs : List String} {c : Char} (hc : c ≠ '/') :
    c ∈ (String.intercalate "/" cs).toList ↔ ∃ x ∈ cs, c ∈ x.toList := by
  induction cs with
  | nil => simp
  | cons x cs ih =>
    by_cases hcs : cs = []
    · simp [hcs]
    · rw [← List.singleton_append, String.intercalate_append_of_ne_nil (by simp) hcs,
        String.intercalate_singleton, String.toList_append, String.toList_append, List.mem_append,
        List.mem_append, ih, show "/".toList = ['/'] from rfl]
      simp [hc]

/-- **A path that was written** holds the character that no name can hold exactly if one of its
components does. -/
theorem hasNul_text {p : Path} (hne : p.parts ≠ []) : hasNul p.text = p.parts.any hasNul := by
  have hroot : '\x00' ∉ (rootText p.root).toList := by
    cases p.root <;> decide
  rw [text_of_ne_nil hne, hasNul, Bool.eq_iff_iff, List.contains_iff_mem, String.toList_append,
    List.mem_append, or_iff_right hroot, mem_intercalate (by decide), List.any_eq_true]
  simp only [hasNul, List.contains_iff_mem]

end Path

/-! ### Removing one file -/

namespace FileTree

variable {t u : FileTree} {cwd p : Path} {cs : List String} {name : String} {q : Place}

/-- **Erasing a file** leaves all other files as they are. -/
theorem sameOutside_erase (hq : (t.file? q).isSome) :
    SameOutside {q} t (t.erase q) ∧ (t.erase q).file? q = none := by
  obtain ⟨content, hcontent⟩ := Option.isSome_iff_exists.1 hq
  rw [file?_eq_some_iff] at hcontent
  have hne : q ≠ [] := by
    rintro rfl
    rw [get?_nil] at hcontent
    exact absurd hcontent (by simp)
  have hview := get?_erase (t := t) hne
  refine ⟨⟨fun r hr => ?_, fun r hr => ?_⟩, ?_⟩
  · rw [hview, if_neg, hr]
    intro hpre
    rw [directory_above hr hpre] at hcontent
    simp at hcontent
  · by_cases hpre : q <+: r
    · have hgone : (t.erase q).file? r = none := by
        rw [file?, hview, if_pos hpre]
      obtain ⟨rest, rfl⟩ := hpre
      have hrest : rest ≠ [] := fun hnil => hr (by rw [hnil, List.append_nil]; rfl)
      rw [hgone, file?_below hrest (by simp [hcontent])]
    · exact file?_congr ((hview r).trans (if_neg hpre))
  · rw [file?, hview, if_pos (List.prefix_refl q)]

/-- The text of a path that ends in a name does not end in a slash. -/
theorem getLast?_text (hproper : p.Proper) (hparts : p.parts = cs ++ [name]) :
    p.text.toList.getLast? ≠ some '/' := by
  obtain ⟨hne, -, hslash⟩ := hproper name (hparts ▸ List.mem_append_right _ List.mem_cons_self)
  have hend : ∃ before, p.text.toList = before ++ name.toList := by
    rw [Path.text_of_ne_nil (by simp [hparts]), hparts]
    by_cases hcs : cs = []
    · exact ⟨(Path.rootText p.root).toList, by simp [hcs]⟩
    · rw [String.intercalate_append_of_ne_nil hcs (by simp), String.intercalate_singleton,
        ← String.append_assoc, String.toList_append]
      exact ⟨_, rfl⟩
  obtain ⟨before, htext⟩ := hend
  rw [htext, List.getLast?_append,
    List.getLast?_eq_some_getLast (mt String.toList_eq_nil_iff.1 hne), Option.some_or, ne_eq,
    Option.some.injEq]
  exact fun hlast => hslash (hlast ▸ List.getLast_mem _)

/-- **When a file can be removed** by the text of its path. -/
theorem remove_text_eq_ok_iff (hproper : p.Proper) (hparts : p.parts = cs ++ [name])
    (hname : name ≠ Path.up) :
    t.remove cwd p.text = .ok u ↔ p.parts.any Path.hasNul = false ∧
      ∃ dir, t.enter (p.start cwd) cs = .ok dir ∧ (t.file? (dir ++ [name])).isSome ∧
        u = t.erase (dir ++ [name]) := by
  have hne : p.parts ≠ [] := by simp [hparts]
  have hraw := Path.rawComponents_text hproper hne
  have htext : p.text ≠ "" := by
    intro hempty
    rw [hempty] at hraw
    exact hne hraw.symm
  have hdots : cs.filter (fun c => decide (c ≠ ".")) = cs := by
    rw [List.filter_eq_self]
    exact fun c hc => decide_eq_true (hproper c (hparts ▸ List.mem_append_left _ hc)).2.1
  have hdot : name ≠ "." := (hproper name (hparts ▸ List.mem_append_right _ List.mem_cons_self)).2.1
  by_cases hnul : p.parts.any Path.hasNul = true
  · rw [remove, Path.hasNul_text hne, if_pos hnul]
    simp [hnul]
  · rw [remove, Path.hasNul_text hne, if_neg hnul, if_neg htext, hraw, hparts,
      List.getLast?_concat, Path.ofString_text hproper, List.dropLast_concat, hdots]
    cases henter : t.enter (p.start cwd) cs with
    | error e => simp
    | ok dir =>
      simp only [if_neg hdot, lastStep, if_neg hname, Except.ok.injEq, exists_eq_left', file?]
      cases t.get? (dir ++ [name]) with
      | none => simp
      | some n =>
        cases n with
        | directory => simp
        | file content =>
          rw [Bool.not_eq_true, hparts] at hnul
          simp only [if_neg (getLast?_text hproper hparts), hnul, Except.ok.injEq,
            Option.isSome_some, true_and]
          exact eq_comm

end FileTree

/-! ### What may be removed -/

/-- **What lies below a directory that may be written** may be written. -/
theorem Policy.allowsWrite_below {policy : Policy} {cwd p : Path} {rel : List String}
    (hup : Path.up ∉ rel) (h : policy.allowsWrite cwd p = true) :
    policy.allowsWrite cwd { p with parts := p.parts ++ rel } = true := by
  rw [allowsWrite] at h ⊢
  split
  · rfl
  · rename_i roots hroots
    simp only [hroots, List.any_eq_true, Path.isWithin, Bool.and_eq_true, decide_eq_true_eq,
      List.isPrefixOf_iff_prefix] at h ⊢
    obtain ⟨root, hroot, heq, hpre⟩ := h
    rw [Path.absolute_append hup]
    exact ⟨root, hroot, heq, hpre.trans (List.prefix_append _ _)⟩

/-! ### Removing files one after the other -/

/-- **Names of files below a directory**, however they are written. -/
structure IsDown (name : String) : Prop where
  root : (Path.ofString name).root = .none
  ne_nil : (Path.ofString name).parts ≠ []
  up_not_mem : Path.up ∉ (Path.ofString name).parts

/-- What such a name adds to a path. -/
theorem IsDown.joinText {name : String} (h : IsDown name) (dir : Path) :
    dir.joinText name = { dir with parts := dir.parts ++ (Path.ofString name).parts } := by
  rw [Path.joinText, Path.join, h.root]

/-- **The workspace after files were removed**: each of them was there, and only once. -/
structure Workspace.Removed (qs : List Place) (w v : Workspace) : Prop where
  same : w.SameOutside {q | q ∈ qs} v
  there : ∀ q ∈ qs, (w.tree.file? q).isSome
  gone : ∀ q ∈ qs, v.tree.file? q = none
  nodup : qs.Nodup

namespace Workspace.Removed

variable {w v u : Workspace} {q : Place} {qs : List Place}

theorem of_sameFiles (h : w.SameFiles v) : Removed [] w v :=
  ⟨h.sameOutside, by simp, by simp, .nil⟩

/-- What changes no file makes no difference after files were removed. -/
theorem before (h : Removed qs w v) (h' : v.SameFiles u) : Removed qs w u :=
  ⟨h.same.trans h'.sameOutside, h.there, fun q hq => h'.tree ▸ h.gone q hq, h.nodup⟩

/-- Removing one file and then others is removing all of them. -/
theorem cons (h : Removed [q] w v) (h' : Removed qs v u) : Removed (q :: qs) w u := by
  have hgone := h.gone q (List.mem_singleton_self q)
  have hq : q ∉ qs := by
    intro hmem
    have hthere := h'.there q hmem
    rw [hgone] at hthere
    exact absurd hthere (by simp)
  refine ⟨(h.same.mono ?_).trans (h'.same.mono ?_), ?_, ?_, List.nodup_cons.2 ⟨hq, h'.nodup⟩⟩
  · exact fun r hr => List.mem_cons.2 (.inl (List.mem_singleton.1 hr))
  · exact fun r hr => List.mem_cons_of_mem q hr
  · intro r hr
    rcases List.mem_cons.1 hr with rfl | hr
    · exact h.there r (List.mem_singleton_self r)
    · rw [← h.same.tree.files r fun heq => hq (List.mem_singleton.1 heq ▸ hr)]
      exact h'.there r hr
  · intro r hr
    rcases List.mem_cons.1 hr with rfl | hr
    · rw [h'.same.tree.files r hq, hgone]
    · exact h'.gone r hr

end Workspace.Removed

namespace Writer

open DenoPackager.Action

variable {policy : Policy} {package : Path} {dir : Place} {name : String} {w v : Workspace}

/-- **What a removal comes to**: a file that was there is erased, and nothing else is different. -/
theorem erased_of_run_remove (hproper : package.Proper) (hdir : w.Leads package dir)
    (hname : IsDown name)
    (h : (remove policy (package.joinText name).text).run w = (.ok (), v)) :
    (w.tree.file? (dir ++ (Path.ofString name).parts)).isSome ∧
      v.tree = w.tree.erase (dir ++ (Path.ofString name).parts) ∧ v.cwd = w.cwd ∧
      w.events <+: v.events := by
  obtain ⟨_, u₁, hallowed, h₁⟩ := of_run_bind_eq_ok h
  obtain ⟨_, u₂, hlog, h₂⟩ := of_run_bind_eq_ok h₁
  obtain ⟨_, u₃, hstep, hnote⟩ := of_run_bind_eq_ok h₂
  have hsame := (policy.still_checkWrite _ _ _ _ hallowed).trans (still_log _ _ _ _ _ hlog)
  obtain ⟨t, hremove, rfl⟩ := of_run_step_eq_ok hstep
  rw [run_note, Prod.mk.injEq] at hnote
  obtain ⟨rest, last, hrel⟩ : ∃ rest last, (Path.ofString name).parts = rest ++ [last] :=
    ⟨_, _, (List.dropLast_concat_getLast hname.ne_nil).symm⟩
  have hup := hname.up_not_mem
  rw [hrel, List.mem_append, List.mem_singleton, not_or] at hup
  have hproper' : (package.joinText name).Proper := hproper.join (.ofString name)
  rw [hname.joinText, hrel] at hproper' hremove
  rw [hsame.tree, hsame.cwd, FileTree.remove_text_eq_ok_iff hproper' (List.append_assoc _ _ _).symm
    (Ne.symm hup.2)] at hremove
  obtain ⟨-, d, henter, hthere, rfl⟩ := hremove
  have hrest : w.Leads { package with parts := package.parts ++ rest } d := henter
  obtain rfl := (hdir.join hrest hup.1).1
  rw [List.append_assoc, ← hrel] at hthere hnote
  rw [← hnote.2]
  exact ⟨hthere, rfl, hsame.cwd, hsame.events.trans (List.prefix_append _ _)⟩

/-- **A file that was removed** was there. -/
theorem of_run_remove (hproper : package.Proper) (hdir : w.Leads package dir) (hname : IsDown name)
    (h : (remove policy (package.joinText name).text).run w = (.ok (), v)) :
    w.Removed [dir ++ (Path.ofString name).parts] v := by
  obtain ⟨hthere, htree, hcwd, hevents⟩ := erased_of_run_remove hproper hdir hname h
  obtain ⟨herased, hgone⟩ := FileTree.sameOutside_erase hthere
  refine ⟨⟨hcwd, ?_, hevents⟩, ?_, ?_, ?_⟩
  · rw [htree]
    exact herased.mono fun q hq => List.mem_singleton.2 hq
  · exact fun q hq => List.mem_singleton.1 hq ▸ hthere
  · rw [htree]
    exact fun q hq => List.mem_singleton.1 hq ▸ hgone
  · exact List.nodup_cons.2 ⟨List.not_mem_nil, .nil⟩

/-- **A file that is there** and may be written is removed. -/
theorem run_remove (hproper : package.Proper)
    (hallowed : policy.allowsWrite w.cwd (package.joinText name) = true) {q : Place}
    (hnames : w.Names (package.joinText name) q) (hthere : (w.tree.file? q).isSome) :
    ((remove policy (package.joinText name).text).run w).1 = .ok () := by
  have hproper' : (package.joinText name).Proper := hproper.join (.ofString name)
  obtain ⟨hnul, cs, last, d, hparts, hlast, hd, rfl⟩ := hnames
  have hremove : w.tree.remove w.cwd (package.joinText name).text =
      .ok (w.tree.erase (d ++ [last])) :=
    (FileTree.remove_text_eq_ok_iff hproper' hparts hlast).2 ⟨hnul, d, hd, hthere, rfl⟩
  have hcheck : (policy.checkWrite (package.joinText name).text).run w = (.ok (), w) := by
    rw [Policy.checkWrite, run_bind_of_ok (run_get w), Path.ofString_text hproper', if_pos hallowed]
    rfl
  rw [remove, run_bind_of_ok hcheck, log, run_bind_of_ok (run_note _ w), run_bind_of_ok
    (run_step_of_ok hremove)]
  rfl

/-- **Which files can be removed one after the other**: files that are there, each of them once. -/
theorem of_run_removeAll (hproper : package.Proper) (hdir : w.Leads package dir)
    {names : List String} (hnames : ∀ name ∈ names, IsDown name)
    (h : (removeAll policy package names).run w = (.ok (), v)) :
    w.Removed (names.map fun name => dir ++ (Path.ofString name).parts) v := by
  obtain ⟨_, u, hall, hlog⟩ := of_run_bind_eq_ok h
  have hend : u.SameFiles v := still_log _ _ _ _ _ hlog
  clear h hlog
  induction names generalizing w with
  | nil =>
    have hnil : (pure () : Action Unit).run w = (.ok (), u) := hall
    rw [run_pure, Prod.mk.injEq] at hnil
    exact .of_sameFiles (hnil.2 ▸ hend)
  | cons name names ih =>
    obtain ⟨_, x, hfirst, hrest⟩ := of_run_bind_eq_ok hall
    rw [List.forall_mem_cons] at hnames
    have hremoved := of_run_remove hproper hdir hnames.1 hfirst
    exact hremoved.cons (ih (hremoved.same.leads hdir) hnames.2 hrest)

/-- **Files that are there**, each of them once, are removed one after the other. -/
theorem run_removeAll (hproper : package.Proper) (hdir : w.Leads package dir)
    (hallowed : policy.allowsWrite w.cwd package = true) {names : List String}
    (hdown : ∀ name ∈ names, IsDown name)
    (hnodup : (names.map fun name => dir ++ (Path.ofString name).parts).Nodup)
    (hnames : ∀ name ∈ names,
      w.Names (package.joinText name) (dir ++ (Path.ofString name).parts))
    (hthere : ∀ name ∈ names, (w.tree.file? (dir ++ (Path.ofString name).parts)).isSome) :
    ((removeAll policy package names).run w).1 = .ok () := by
  obtain ⟨v, hv⟩ : ∃ v, (forEach (fun name => remove policy (package.joinText name).text) names).run
      w = (.ok (), v) := by
    induction names generalizing w with
    | nil => exact ⟨w, rfl⟩
    | cons name names ih =>
      rw [List.forall_mem_cons] at hdown hnames hthere
      rw [List.map_cons, List.nodup_cons] at hnodup
      have hmay : policy.allowsWrite w.cwd (package.joinText name) = true := by
        rw [hdown.1.joinText]
        exact Policy.allowsWrite_below hdown.1.up_not_mem hallowed
      have hfirst := run_remove hproper hmay hnames.1 hthere.1
      match hx : (remove policy (package.joinText name).text).run w with
      | (_, x) =>
        rw [hx] at hfirst
        obtain rfl : _ = Except.ok () := hfirst
        have hremoved := of_run_remove hproper hdir hdown.1 hx
        -- the files that are still to be removed are others
        have hstill : ∀ other ∈ names, x.tree.file? (dir ++ (Path.ofString other).parts) =
            w.tree.file? (dir ++ (Path.ofString other).parts) := fun other hother =>
          hremoved.same.tree.files _ fun hmem => hnodup.1
            (List.mem_map.2 ⟨other, hother, List.mem_singleton.1 hmem⟩)
        obtain ⟨y, hy⟩ := ih (hremoved.same.leads hdir) (hremoved.same.cwd.symm ▸ hallowed)
          hdown.2 hnodup.2 (fun other hother => hremoved.same.names (hnames.2 other hother))
          fun other hother => by
            rw [hstill other hother]
            exact hthere.2 other hother
        exact ⟨y, (run_bind_of_ok hx).trans hy⟩
  rw [removeAll, run_bind_of_ok hv]
  rfl

end Writer

end DenoPackager
