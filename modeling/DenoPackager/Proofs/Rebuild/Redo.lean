import DenoPackager.Proofs.Rebuild.Overlay
import DenoPackager.Proofs.Relay.Texts

/-!
# Actions that can be done once more

An action can be done once more if a successful run of it succeeds again over leftovers, with the
same value and the same events, and comes to the same tree over the leftovers. The leftovers must
not stand in the way of what the first run has come to. What an action looks at may depend on the
tree, so this is a property of an action together with the workspace that it was first done in.

An action that can be done once more has built on its site, and nowhere else. So what it has come to
fits the same leftovers as what any later one comes to, and that is what makes such actions compose.

## Main definitions

* `Workspace.Over`, `Workspace.Grows`: workspaces over leftovers, and with more built in them.
* `Action.Redoes`: actions that can be done once more.
* `Workspace.Admits`: paths that a file can be written to on a site.

## Main results

* `Redoes.bind`, `Redoes.forEach`, `Redoes.mapEach`: one action after the other.
* `redoes_makeDirs`, `redoes_write`, `redoes_withTemporary`: what changes the tree.
* `Writer.redoes_writeMarked`: the writer.
-/

namespace DenoPackager

open DenoPackager.Action
open DenoPackager.Path (follow)

namespace Workspace

/-- **A workspace over leftovers**: the tree is laid over them, and nothing else is different. -/
structure Over (left : Leftovers) (w w' : Workspace) : Prop where
  cwd : w'.cwd = w.cwd
  tree : w.tree.Over left w'.tree
  created : w'.created = w.created
  written : w'.written = w.written
  events : w'.events = w.events

/-- **A workspace in which more was built** on a site. -/
structure Grows (s : Site) (w v : Workspace) : Prop where
  cwd : v.cwd = w.cwd
  tree : w.tree.Grows s v.tree

/-- **Paths that a file can be written to** on a site. -/
structure Admits (s : Site) (w : Workspace) (path : Path) : Prop where
  way : ∀ pre, pre <+: path.parent.parts → follow (path.start w.cwd) pre ∈ s.ways ∨
    follow (path.start w.cwd) pre ∈ s.grounds ∨
    w.tree.get? (follow (path.start w.cwd) pre) = some .directory
  ground : follow (path.start w.cwd) path.parts ∈ s.grounds

variable {s : Site} {w v u : Workspace} {path : Path}

namespace Grows

theorem refl (s : Site) (w : Workspace) : Grows s w w :=
  ⟨rfl, .refl s _⟩

theorem trans (h : Grows s w v) (h' : Grows s v u) : Grows s w u :=
  ⟨h'.cwd.trans h.cwd, h.tree.trans h'.tree⟩

theorem of_eq (hcwd : v.cwd = w.cwd) (htree : v.tree = w.tree) : Grows s w v :=
  ⟨hcwd, htree ▸ .refl s _⟩

theorem grounded (h : Grows s w v) (hw : w.Grounded) : v.Grounded where
  proper := h.cwd ▸ hw.proper
  up_not_mem := h.cwd ▸ hw.up_not_mem
  directory := h.cwd ▸ h.tree.directories _ hw.directory

theorem leads (h : Grows s w v) {dir : Place} (hw : w.Leads path dir) : v.Leads path dir := by
  rw [Leads, h.cwd]
  exact FileTree.enter_mono h.tree.directories hw

theorem names (h : Grows s w v) {place : Place} (hw : w.Names path place) :
    v.Names path place :=
  hw.imp h.leads

theorem admits (h : Grows s w v) {s' : Site} (hpath : w.Admits s' path) : v.Admits s' path where
  way pre hpre := by
    rw [h.cwd]
    exact (hpath.way pre hpre).imp_right (Or.imp_right (h.tree.directories _))
  ground := by
    rw [h.cwd]
    exact hpath.ground

end Grows

end Workspace

namespace Action

variable {α β : Type} {s : Site} {left : Leftovers} {w v : Workspace} {m : Action α}
  {f : α → Action β}

/-- **An action that can be done once more** after it was done in `w`: it has built on the site
only, and over leftovers that are not in the way of what it came to it comes to the same. -/
structure Redoes (s : Site) (left : Leftovers) (w : Workspace) (m : Action α) : Prop where
  grows : ∀ a v, m.run w = (.ok a, v) → w.Grows s v
  again : ∀ a v, m.run w = (.ok a, v) → left.Fits v.tree → ∀ w', w.Over left w' →
    ∃ v', m.run w' = (.ok a, v') ∧ v.Over left v'

/-- **One action after the other.** -/
theorem Redoes.bind (hm : m.Redoes s left w)
    (hf : ∀ a v, m.run w = (.ok a, v) → w.Grows s v → (f a).Redoes s left v) :
    (m >>= f).Redoes s left w where
  grows b u hr := by
    obtain ⟨a, v, ha, hb⟩ := of_run_bind_eq_ok hr
    have hgrows := hm.grows a v ha
    exact hgrows.trans ((hf a v ha hgrows).grows b u hb)
  again b u hr hfits w' hw' := by
    obtain ⟨a, v, ha, hb⟩ := of_run_bind_eq_ok hr
    have hrest := hf a v ha (hm.grows a v ha)
    -- what fits the outcome of the second action fits that of the first one
    obtain ⟨v', ha', hv'⟩ := hm.again a v ha ((hrest.grows b u hb).tree.fits hfits) w' hw'
    obtain ⟨u', hb', hu'⟩ := hrest.again b u hb hfits v' hv'
    exact ⟨u', by rw [run_bind_of_ok ha', hb'], hu'⟩

/-- An action with the same successful runs. -/
theorem Redoes.congr {m' : Action α} (h : m.Redoes s left w)
    (hruns : ∀ w a v, m'.run w = (.ok a, v) ↔ m.run w = (.ok a, v)) : m'.Redoes s left w where
  grows a v hr := h.grows a v ((hruns w a v).1 hr)
  again a v hr hfits w' hw' := by
    obtain ⟨v', ha', hv'⟩ := h.again a v ((hruns w a v).1 hr) hfits w' hw'
    exact ⟨v', (hruns w' a v').2 ha', hv'⟩

/-! ### What leaves the tree alone -/

theorem redoes_pure (a : α) : (pure a : Action α).Redoes s left w where
  grows b v hr := by
    rw [run_pure, Prod.mk.injEq] at hr
    exact hr.2 ▸ .refl s w
  again b v hr _ w' hw' := by
    rw [run_pure, Prod.mk.injEq] at hr
    exact ⟨w', by rw [run_pure, hr.1], hr.2 ▸ hw'⟩

theorem redoes_failure (e : Failure) : (failure e : Action α).Redoes s left w where
  grows a v hr := by
    rw [run, failure, Prod.mk.injEq] at hr
    simp at hr
  again a v hr := by
    rw [run, failure, Prod.mk.injEq] at hr
    simp at hr

theorem redoes_fail (p : Problem) : (fail p : Action α).Redoes s left w :=
  redoes_failure _

theorem redoes_ofExcept (r : Except Failure α) : (ofExcept r).Redoes s left w := by
  cases r with
  | ok a => exact redoes_pure a
  | error e => exact redoes_failure e

/-- Changing what the writer remembers. -/
theorem redoes_modify {g : Workspace → Workspace} (hcwd : (g w).cwd = w.cwd)
    (htree : (g w).tree = w.tree)
    (hover : ∀ w', w.Over left w' → (g w).Over left (g w')) : (modify g).Redoes s left w where
  grows a v hr := by
    rw [run_modify, Prod.mk.injEq] at hr
    exact hr.2 ▸ .of_eq hcwd htree
  again a v hr _ w' hw' := by
    rw [run_modify, Prod.mk.injEq] at hr
    exact ⟨g w', rfl, hr.2 ▸ hover w' hw'⟩

theorem redoes_note (e : Event) : (note e).Redoes s left w :=
  redoes_modify rfl rfl fun _ h =>
    ⟨h.cwd, h.tree, h.created, h.written, congrArg (· ++ [e]) h.events⟩

theorem redoes_log (level : Level) (message : String) : (log level message).Redoes s left w :=
  redoes_note _

/-- **Going on with the workspace**, of which only what leftovers do not change is of interest. -/
theorem redoes_get_bind {g : Workspace → Action α} (hsame : ∀ w', w.Over left w' → g w' = g w)
    (h : (g w).Redoes s left w) : (get >>= g).Redoes s left w where
  grows a v hr := h.grows a v hr
  again a v hr hfits w' hw' := by
    obtain ⟨v', ha', hv'⟩ := h.again a v hr hfits w' hw'
    refine ⟨v', ?_, hv'⟩
    rw [run_bind_of_ok (run_get w'), hsame w' hw', ha']

/-- **Looking** at what leftovers do not change. -/
theorem redoes_look {g : FileTree → Path → Except Fault α}
    (hsame : ∀ a, g w.tree w.cwd = .ok a → ∀ w', w.Over left w' → g w'.tree w.cwd = .ok a) :
    (look g).Redoes s left w where
  grows a v hr := (of_run_look_eq_ok hr).2 ▸ .refl s w
  again a v hr _ w' hw' := by
    obtain ⟨hg, rfl⟩ := of_run_look_eq_ok hr
    refine ⟨w', run_look_of_ok ?_, hw'⟩
    rw [hw'.cwd]
    exact hsame a hg w' hw'

/-- Looking at nothing in the tree. -/
theorem redoes_look_const (r : Except Fault α) : (look fun _ _ => r).Redoes s left w :=
  redoes_look fun _ h _ _ => h

theorem Redoes.onlyIf {m : Action Unit} (wanted : Bool)
    (h : wanted = true → m.Redoes s left w) : (onlyIf wanted m).Redoes s left w := by
  cases wanted with
  | true => exact h rfl
  | false => exact redoes_pure ()

/-- **An action for each item**, each of which can be done once more when others were done on the
site before. -/
theorem Redoes.forEach {g : α → Action Unit} {as : List α}
    (h : ∀ a ∈ as, ∀ v, w.Grows s v → (g a).Redoes s left v) : (forEach g as).Redoes s left w := by
  induction as generalizing w with
  | nil => exact redoes_pure ()
  | cons a as ih =>
    refine (h a List.mem_cons_self w (.refl s w)).bind fun _ v _ hv => ih fun b hb u hu => ?_
    exact h b (List.mem_cons_of_mem a hb) u (hv.trans hu)

/-- **The values of an action for each item.** -/
theorem Redoes.mapEach {g : α → Action β} {as : List α}
    (h : ∀ a ∈ as, ∀ v, w.Grows s v → (g a).Redoes s left v) : (mapEach g as).Redoes s left w := by
  induction as generalizing w with
  | nil => exact redoes_pure []
  | cons a as ih =>
    refine (h a List.mem_cons_self w (.refl s w)).bind fun b v _ hv => ?_
    refine Redoes.bind (ih fun c hc u hu => ?_) fun bs u _ _ => redoes_pure (b :: bs)
    exact h c (List.mem_cons_of_mem a hc) u (hv.trans hu)

/-! ### What changes the tree -/

/-- **Making directories** on the site. -/
theorem redoes_makeDirs (hw : w.Grounded) {path : Path}
    (hway : ∀ pre, pre <+: path.parts → follow (path.start w.cwd) pre ∈ s.ways ∨
      follow (path.start w.cwd) pre ∈ s.grounds ∨
      w.tree.get? (follow (path.start w.cwd) pre) = some .directory) :
    (change fun t cwd => t.makeDirs cwd path).Redoes s left w := by
  have hmade {a : Unit} {v : Workspace}
      (hr : (change fun t cwd => t.makeDirs cwd path).run w = (.ok a, v)) :
      ∃ t, w.tree.makeDirs w.cwd path = (.ok (), t) ∧ v = { w with tree := t } := by
    refine ⟨(w.tree.makeDirs w.cwd path).2, ?_, of_run_change_eq_ok hr⟩
    cases hmake : w.tree.makeDirs w.cwd path with
    | mk r t =>
      cases r with
      | ok u => rfl
      | error e =>
        rw [run_change_of_error hmake, Prod.mk.injEq] at hr
        simp at hr
  constructor
  · intro a v hr
    obtain ⟨t, hmake, rfl⟩ := hmade hr
    exact ⟨rfl, FileTree.Grows.makeDirs hw.directory hway hmake⟩
  · intro a v hr hfits w' hw'
    obtain ⟨t, hmake, rfl⟩ := hmade hr
    obtain ⟨t', hmake', ht'⟩ := hw'.tree.makeDirs hw.directory hfits hmake
    refine ⟨{ w' with tree := t' }, run_change_of_ok ?_,
      hw'.cwd, ht', hw'.created, hw'.written, hw'.events⟩
    rw [hw'.cwd, hmake']

/-- **Writing a file** on the grounds of the site. -/
theorem redoes_write (hw : w.Grounded) {path : Path} {content : ByteArray}
    (hground : follow (path.start w.cwd) path.parts ∈ s.grounds) :
    (step fun t cwd => t.write cwd path content).Redoes s left w where
  grows a v hr := by
    obtain ⟨t, hwrite, rfl⟩ := of_run_step_eq_ok hr
    exact ⟨rfl, FileTree.Grows.write hw.directory hground hwrite⟩
  again a v hr hfits w' hw' := by
    obtain ⟨t, hwrite, rfl⟩ := of_run_step_eq_ok hr
    obtain ⟨t', hwrite', ht'⟩ := hw'.tree.write hw.directory hfits hwrite
    refine ⟨{ w' with tree := t' }, run_step_of_ok ?_,
      hw'.cwd, ht', hw'.created, hw'.written, hw'.events⟩
    rw [hw'.cwd, hwrite']

/-- **Temporary work**, in a directory that is made at the same place again and that has nothing
left in it. -/
theorem redoes_withTemporary {dir place : Place} {start : String} {body : Path → Action α}
    (hplace : place = temporaryPlace w.tree dir start)
    (hway : ∀ q, q <+: dir → w.tree.file? q = none ∧
      (w.tree.get? q = some .directory ∨ q ∈ s.ways ∨ q ∈ s.grounds))
    (hleft : ∀ q, place <+: q → left q = none)
    (hsame : ∀ w', w.Over left w' → place = temporaryPlace w'.tree dir start)
    (hbody : (body ⟨.single, place⟩).Redoes (s.withGround place) left (w.withDirectory place)) :
    (withTemporary dir start body).Redoes s left w := by
  have hfree : w.tree.get? place = none := by
    rw [hplace]
    exact temporaryPlace_free _ _ _
  have hne : place ≠ [] := by
    rw [hplace]
    exact List.append_ne_nil_of_right_ne_nil _ (List.cons_ne_nil _ _)
  have habove : ∀ q, q <+: place → q ≠ place → w.tree.file? q = none ∧
      (w.tree.get? q = some .directory ∨ q ∈ s.ways ∨ q ∈ s.grounds) := by
    intro q hq hne'
    rw [hplace, temporaryPlace] at hq hne'
    exact hway q ((List.prefix_concat_iff.1 hq).resolve_left hne')
  constructor
  · intro a v hr
    obtain ⟨u, hu, rfl⟩ := of_run_withTemporary hr
    rw [← hplace] at hu ⊢
    have hgrows := hbody.grows a u hu
    exact ⟨hgrows.cwd, FileTree.Grows.temporary hne hfree habove hgrows.tree⟩
  · intro a v hr hfits w' hw'
    obtain ⟨u, hu, rfl⟩ := of_run_withTemporary hr
    rw [← hplace] at hu hfits ⊢
    have hbefore : (w.withDirectory place).Over left (w'.withDirectory place) :=
      ⟨hw'.cwd, hw'.tree.insert_directory hne hfree (hleft place (List.prefix_refl _)),
        hw'.created, hw'.written, hw'.events⟩
    obtain ⟨u', hu', hover⟩ :=
      hbody.again a u hu (FileTree.fits_of_erase hne hleft hfits) _ hbefore
    refine ⟨_, run_withTemporary_of_run (hsame w' hw') hu', ?_⟩
    exact ⟨hover.cwd, hover.tree.erase hne hleft, hover.created, hover.written, hover.events⟩

end Action

/-! ### The writer -/

section

variable {s : Site} {left : Leftovers} {w : Workspace} {policy : Policy}

theorem Policy.redoes_checkWrite (text : String) :
    (policy.checkWrite text).Redoes s left w := by
  refine redoes_get_bind (fun w' hw' => by simp only [hw'.cwd]) ?_
  dsimp only
  split
  · exact redoes_pure ()
  · exact (redoes_log _ _).bind fun _ _ _ _ => redoes_fail _

theorem Policy.redoes_checkRun (command : String) :
    (policy.checkRun command).Redoes s left w := by
  rw [Policy.checkRun]
  split
  · exact redoes_pure ()
  · exact (redoes_log _ _).bind fun _ _ _ _ => redoes_fail _

namespace Writer

/-- **Seeing to a directory** on the site. -/
theorem redoes_seeTo (hw : w.Grounded) {dir : Path}
    (hway : ∀ pre, pre <+: dir.parts → follow (dir.start w.cwd) pre ∈ s.ways ∨
      follow (dir.start w.cwd) pre ∈ s.grounds ∨
      w.tree.get? (follow (dir.start w.cwd) pre) = some .directory) :
    (seeTo dir).Redoes s left w := by
  refine redoes_get_bind (fun w' hw' => by simp only [hw'.created]) ?_
  split
  · exact redoes_pure ()
  · refine (redoes_makeDirs hw hway).bind fun _ v _ _ => redoes_modify rfl rfl fun w' hw' => ?_
    exact ⟨hw'.cwd, hw'.tree, congrArg (· ++ [dir]) hw'.created, hw'.written, hw'.events⟩

/-- **Writing a file** that the site admits. -/
theorem redoes_writeMarked (hw : w.Grounded) {path : Path} (hpath : w.Admits s path)
    (text : String) (mark : Bool) : (writeMarked policy path text mark).Redoes s left w := by
  refine (Policy.redoes_checkWrite _).bind fun _ v _ hv => ?_
  have hpath := hv.admits hpath
  have hw := hv.grounded hw
  refine (redoes_seeTo hw hpath.way).bind fun _ u _ hu => ?_
  refine (redoes_write (hu.grounded hw) (hu.admits hpath).ground).bind fun _ x _ _ => ?_
  refine (redoes_modify rfl rfl fun w' hw' => ?_).bind fun _ _ _ _ => redoes_note _
  exact ⟨hw'.cwd, hw'.tree, hw'.created, congrArg (· ++ [path]) hw'.written, hw'.events⟩

end Writer

end

end DenoPackager
