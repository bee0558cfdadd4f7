import DenoPackager.Proofs.Files.Tree
import DenoPackager.Proofs.Paths.Text
import DenoPackager.Writer

/-!
# What an action touches

An action that succeeded has left the current directory alone, has kept all directories, and has
changed files at some places only. The places are given as a set; an action that changes no file
is still.

## Main definitions

* `Workspace.Grounded`: workspaces whose current directory is there.
* `Workspace.Leads`, `Workspace.Names`: where a path leads through directories, and the place that
  it names.
* `Workspace.SameOutside`, `Workspace.Wrote`: what changed between two workspaces.
* `Action.Touches`: what a successful run of an action changes.

## Main results

* `Touches.bind`, `Touches.forEach`: one action after the other.
* `Leads.join`, `Names.eq_append`: where a path below a directory leads, and what it names.
* `Writer.wrote_writeMarked`, `Writer.wrote_below`: the writer writes one file.
-/

namespace DenoPackager

/-- **A workspace whose current directory is there**, under a path that names it. -/
structure Workspace.Grounded (w : Workspace) : Prop where
  proper : w.cwd.Proper
  up_not_mem : Path.up ∉ w.cwd.parts
  directory : w.tree.get? w.cwd.parts = some .directory

/-- **Where a path leads** through directories. -/
def Workspace.Leads (w : Workspace) (path : Path) (dir : Place) : Prop :=
  w.tree.enter (path.start w.cwd) path.parts = .ok dir

/-- **The place that a path names**, where a file can stand: the path ends in a name, and leads
through directories before it. -/
def Workspace.Names (w : Workspace) (path : Path) (place : Place) : Prop :=
  path.parts.any Path.hasNul = false ∧ ∃ cs name dir, path.parts = cs ++ [name] ∧ name ≠ Path.up ∧
    w.Leads ⟨path.root, cs⟩ dir ∧ place = dir ++ [name]

/-- **The same files outside** of some places, with all directories kept, and more events. -/
structure Workspace.SameOutside (s : Set Place) (w v : Workspace) : Prop where
  cwd : v.cwd = w.cwd
  tree : w.tree.SameOutside s v.tree
  events : w.events <+: v.events

/-- **The same files** and directories, and more events. -/
structure Workspace.SameFiles (w v : Workspace) : Prop where
  cwd : v.cwd = w.cwd
  tree : v.tree = w.tree
  events : w.events <+: v.events

/-- **The workspace after files were written.** -/
structure Workspace.Wrote (es : List (Place × ByteArray)) (w v : Workspace) : Prop where
  cwd : v.cwd = w.cwd
  tree : w.tree.Wrote es v.tree
  events : w.events <+: v.events

namespace Workspace

variable {w v u : Workspace} {s s' : Set Place} {es es' : List (Place × ByteArray)} {path : Path}
  {dir : Place} {rel : List String}

/-- A path names the same place if paths still lead where they led. -/
theorem Names.imp {place : Place} (hw : w.Names path place)
    (h : ∀ {path dir}, w.Leads path dir → v.Leads path dir) : v.Names path place := by
  obtain ⟨hnul, cs, name, dir, hparts, hname, hdir, rfl⟩ := hw
  exact ⟨hnul, cs, name, dir, hparts, hname, h hdir, rfl⟩

namespace SameOutside

theorem refl (s : Set Place) (w : Workspace) : SameOutside s w w :=
  ⟨rfl, .refl s _, List.prefix_refl _⟩

theorem trans (h : SameOutside s w v) (h' : SameOutside s v u) : SameOutside s w u :=
  ⟨h'.cwd.trans h.cwd, h.tree.trans h'.tree, h.events.trans h'.events⟩

theorem mono (h : SameOutside s w v) (hs : s ⊆ s') : SameOutside s' w v :=
  ⟨h.cwd, h.tree.mono hs, h.events⟩

/-- What changed nothing changed nothing outside of any places. -/
theorem of_empty (h : SameOutside ∅ w v) : SameOutside s w v :=
  h.mono (Set.empty_subset s)

theorem grounded (h : SameOutside s w v) (hw : w.Grounded) : v.Grounded where
  proper := by
    rw [h.cwd]
    exact hw.proper
  up_not_mem := by
    rw [h.cwd]
    exact hw.up_not_mem
  directory := by
    rw [h.cwd]
    exact h.tree.directories _ hw.directory

theorem leads (h : SameOutside s w v) (hw : w.Leads path dir) : v.Leads path dir := by
  rw [Leads, h.cwd]
  exact h.tree.enter hw

theorem names (h : SameOutside s w v) {place : Place} (hw : w.Names path place) :
    v.Names path place :=
  hw.imp h.leads

end SameOutside

namespace SameFiles

theorem refl (w : Workspace) : SameFiles w w :=
  ⟨rfl, rfl, List.prefix_refl _⟩

theorem trans (h : SameFiles w v) (h' : SameFiles v u) : SameFiles w u :=
  ⟨h'.cwd.trans h.cwd, h'.tree.trans h.tree, h.events.trans h'.events⟩

theorem sameOutside (h : SameFiles w v) : SameOutside s w v :=
  ⟨h.cwd, h.tree ▸ .refl s _, h.events⟩

end SameFiles

namespace Wrote

theorem sameOutside (h : Wrote es w v) : SameOutside {q | q ∈ es.map Prod.fst} w v :=
  ⟨h.cwd, h.tree.sameOutside, h.events⟩

theorem nil_of_sameOutside (h : SameOutside ∅ w v) : Wrote [] w v :=
  ⟨h.cwd, .nil_of_sameOutside h.tree, h.events⟩

theorem append (h : Wrote es w v) (h' : Wrote es' v u) : Wrote (es ++ es') w u :=
  ⟨h'.cwd.trans h.cwd, h.tree.append h'.tree, h.events.trans h'.events⟩

/-- What touches no file makes no difference before files are written. -/
theorem after (h' : Wrote es v u) (h : SameOutside ∅ w v) : Wrote es w u :=
  (nil_of_sameOutside h).append h'

/-- What touches no file makes no difference after files were written. -/
theorem before (h : Wrote es w v) (h' : SameOutside ∅ v u) : Wrote es w u := by
  have happend := h.append (nil_of_sameOutside h')
  rwa [List.append_nil] at happend

end Wrote

/-! ### Where paths lead -/

theorem Leads.directory (h : w.Leads path dir) (hw : w.Grounded) :
    w.tree.get? dir = some .directory :=
  FileTree.directory_of_enter (FileTree.directory_start hw.directory path) h

theorem Leads.up_not_mem (h : w.Leads path dir) (hw : w.Grounded) : Path.up ∉ dir := by
  refine FileTree.up_not_mem_of_enter ?_ h
  rw [Path.start]
  split
  · exact hw.up_not_mem
  · simp

/-- **A path below a directory** leads below the place of that directory. -/
theorem Leads.join (h : w.Leads path dir) {place : Place}
    (hrel : w.Leads { path with parts := path.parts ++ rel } place) (hup : Path.up ∉ rel) :
    place = dir ++ rel ∧ w.tree.enter dir rel = .ok place := by
  have hstart : (⟨path.root, path.parts ++ rel⟩ : Path).start w.cwd = path.start w.cwd := rfl
  rw [Leads, hstart, FileTree.enter_append, h, Except.bind] at hrel
  exact ⟨FileTree.enter_down hup hrel, hrel⟩

/-- What leads to a place leads to no other one. -/
theorem Leads.unique (h : w.Leads path dir) {place : Place} (h' : w.Leads path place) :
    dir = place :=
  Except.ok.inj (h.symm.trans h')

/-- A directory is where its own place leads. -/
theorem leads_place (hdir : w.tree.get? dir = some .directory) (hup : Path.up ∉ dir) :
    w.Leads ⟨.single, dir⟩ dir := by
  have henter : w.tree.enter [] dir = .ok ([] ++ dir) := FileTree.enter_of_directory hup hdir
  exact henter

/-- The path that leads to a place starts a path to something below it. -/
theorem Leads.of_append {cs : List String}
    (h : w.Leads { path with parts := path.parts ++ cs } dir) : ∃ place, w.Leads path place := by
  have hstart : (⟨path.root, path.parts ++ cs⟩ : Path).start w.cwd = path.start w.cwd := rfl
  rw [Leads, hstart, FileTree.enter_append] at h
  cases hpath : w.tree.enter (path.start w.cwd) path.parts with
  | error e => simp [hpath, Except.bind] at h
  | ok place => exact ⟨place, hpath⟩

/-- **Reading a file** is finding it at the place that its path names. -/
theorem Names.readBytes_eq_ok_iff {place : Place} (h : w.Names path place) {content : ByteArray} :
    w.tree.readBytes w.cwd path = .ok content ↔ w.tree.file? place = some content := by
  obtain ⟨hnul, cs, name, dir, hparts, hname, hdir, rfl⟩ := h
  rw [FileTree.readBytes_eq_ok_iff hparts hname]
  constructor
  · rintro ⟨-, d, hd, hfile⟩
    obtain rfl : dir = d := hdir.unique hd
    exact hfile
  · intro hfile
    exact ⟨hnul, dir, hdir, hfile⟩

/-- What is read below a directory stands there. -/
theorem Leads.file?_of_readBytes (hdir : w.Leads path dir) (hne : rel ≠ []) (hup : Path.up ∉ rel)
    {content : ByteArray}
    (h : w.tree.readBytes w.cwd { path with parts := path.parts ++ rel } = .ok content) :
    w.tree.file? (dir ++ rel) = some content := by
  obtain ⟨rest, last, rfl⟩ : ∃ rest last, rel = rest ++ [last] :=
    ⟨_, _, (List.dropLast_concat_getLast hne).symm⟩
  rw [List.mem_append, List.mem_singleton, not_or] at hup
  obtain ⟨-, d, hd, hfile⟩ := (FileTree.readBytes_eq_ok_iff (List.append_assoc _ _ _).symm
    (Ne.symm hup.2)).1 h
  have hrest : w.Leads { path with parts := path.parts ++ rest } d := hd
  rwa [(hdir.join hrest hup.1).1, List.append_assoc] at hfile

/-- **A path below a directory** names a place below that directory. -/
theorem Names.eq_append (hdir : w.Leads path dir) {place : Place}
    (h : w.Names { path with parts := path.parts ++ rel } place) (hne : rel ≠ [])
    (hup : Path.up ∉ rel) : place = dir ++ rel := by
  obtain ⟨-, cs, name, d, hparts, -, hd, rfl⟩ := h
  obtain ⟨rest, last, rfl⟩ : ∃ rest last, rel = rest ++ [last] :=
    ⟨_, _, (List.dropLast_concat_getLast hne).symm⟩
  rw [← List.append_assoc] at hparts
  obtain ⟨rfl, hlast⟩ := List.append_inj' hparts rfl
  have hrest : Path.up ∉ rest := fun hmem => hup (List.mem_append_left _ hmem)
  rw [(hdir.join hd hrest).1, List.append_assoc, hlast]

/-- A file below a directory is named by the path to it. -/
theorem Leads.names (hdir : w.Leads path dir) (hne : rel ≠ []) (hup : Path.up ∉ rel)
    (hnul : (path.parts ++ rel).any Path.hasNul = false) {content : ByteArray}
    (hfile : w.tree.file? (dir ++ rel) = some content) :
    w.Names { path with parts := path.parts ++ rel } (dir ++ rel) := by
  obtain ⟨rest, last, rfl⟩ : ∃ rest last, rel = rest ++ [last] :=
    ⟨_, _, (List.dropLast_concat_getLast hne).symm⟩
  rw [List.mem_append, List.mem_singleton, not_or] at hup
  rw [← List.append_assoc, FileTree.file?_eq_some_iff] at hfile
  have habove := FileTree.get?_above (by simp) hfile
  refine ⟨hnul, path.parts ++ rest, last, dir ++ rest, (List.append_assoc _ _ _).symm,
    Ne.symm hup.2, ?_, (List.append_assoc _ _ _).symm⟩
  have hstart : (⟨path.root, path.parts ++ rest⟩ : Path).start w.cwd = path.start w.cwd := rfl
  rw [Leads, hstart, FileTree.enter_append, hdir, Except.bind]
  exact FileTree.enter_of_directory hup.1 habove

/-- The directory that stands before a path that names something. -/
theorem Names.leads {place : Place}
    (h : w.Names { path with parts := path.parts ++ rel } place) (hne : rel ≠ []) :
    ∃ dir, w.Leads path dir := by
  obtain ⟨-, cs, name, d, hparts, -, hd, rfl⟩ := h
  obtain ⟨rest, last, rfl⟩ : ∃ rest last, rel = rest ++ [last] :=
    ⟨_, _, (List.dropLast_concat_getLast hne).symm⟩
  rw [← List.append_assoc] at hparts
  obtain ⟨rfl, -⟩ := List.append_inj' hparts rfl
  exact Leads.of_append hd

end Workspace

/-! ### Actions -/

/-- **Actions one after the other**, however they are grouped. -/
instance : LawfulMonad Action :=
  LawfulMonad.mk' Action
    (fun m => by
      funext w
      change (m >>= fun a => pure (id a)).run w = m.run w
      rw [Action.run_bind]
      cases hr : m.run w with
      | mk r v => cases r <;> rfl)
    (fun _ _ => rfl)
    (fun m f g => by
      funext w
      change ((m >>= f) >>= g).run w = (m >>= fun a => f a >>= g).run w
      rw [Action.run_bind, Action.run_bind, Action.run_bind]
      cases hr : m.run w with
      | mk r v => cases r <;> rfl)

namespace Action

variable {α β : Type} {m : Action α} {f : α → Action β} {w v : Workspace} {s s' : Set Place}

/-- **What a successful run of an action changes**: files at the given places only. -/
def Touches (s : Set Place) (w : Workspace) (m : Action α) : Prop :=
  ∀ a v, m.run w = (.ok a, v) → w.SameOutside s v

/-- **Still** actions leave all files and directories as they are. -/
def Still (m : Action α) : Prop :=
  ∀ w a v, m.run w = (.ok a, v) → w.SameFiles v

theorem Still.touches (h : m.Still) : m.Touches s w :=
  fun a v hr => (h w a v hr).sameOutside

/-- **One action after the other.** -/
theorem Touches.bind (hm : m.Touches s w)
    (hf : ∀ a v, m.run w = (.ok a, v) → (f a).Touches s v) : (m >>= f).Touches s w := by
  intro b u hr
  obtain ⟨a, v, ha, hb⟩ := of_run_bind_eq_ok hr
  exact (hm a v ha).trans (hf a v ha b u hb)

theorem Still.bind (hm : m.Still) (hf : ∀ a, (f a).Still) : (m >>= f).Still := by
  intro w b u hr
  obtain ⟨a, v, ha, hb⟩ := of_run_bind_eq_ok hr
  exact (hm w a v ha).trans (hf a v b u hb)

theorem still_pure (a : α) : (pure a : Action α).Still := by
  intro w b v hr
  rw [run_pure, Prod.mk.injEq] at hr
  rw [← hr.2]
  exact .refl _

theorem still_failure (e : Failure) : (failure e : Action α).Still := by
  intro w b v hr
  rw [run, failure, Prod.mk.injEq] at hr
  simp at hr

theorem still_fail (p : Problem) : (fail p : Action α).Still := still_failure _

theorem still_get : get.Still := by
  intro w b v hr
  rw [run_get, Prod.mk.injEq] at hr
  rw [← hr.2]
  exact .refl _

theorem still_ofExcept (r : Except Failure α) : (ofExcept r).Still := by
  cases r with
  | ok a => exact still_pure a
  | error e => exact still_failure e

theorem still_note (e : Event) : (note e).Still := by
  intro w b v hr
  rw [run_note, Prod.mk.injEq] at hr
  rw [← hr.2]
  exact ⟨rfl, rfl, List.prefix_append _ _⟩

theorem still_log (level : Level) (message : String) : (log level message).Still :=
  still_note _

theorem still_look (g : FileTree → Path → Except Fault α) : (look g).Still := by
  intro w a v hr
  rw [run, look] at hr
  split at hr
  · rw [Prod.mk.injEq] at hr
    rw [← hr.2]
    exact .refl _
  · simp at hr

/-- The value of a computation is what it succeeded with. -/
theorem of_run_ofExcept_eq_ok {r : Except Failure α} {a : α}
    (h : (ofExcept r).run w = (.ok a, v)) : r = .ok a ∧ v = w := by
  cases r with
  | ok found =>
    have hpure : (pure found : Action α).run w = (.ok a, v) := h
    rw [run_pure, Prod.mk.injEq] at hpure
    exact ⟨hpure.1, hpure.2.symm⟩
  | error e => exact absurd (congrArg Prod.fst h) (by rintro ⟨⟩)

/-- Looking succeeds with what is seen. -/
theorem of_run_look_eq_ok {g : FileTree → Path → Except Fault α} {a : α}
    (h : (look g).run w = (.ok a, v)) : g w.tree w.cwd = .ok a ∧ v = w := by
  rw [run, look] at h
  split at h
  · rename_i found hg
    rw [Prod.mk.injEq, Except.ok.injEq] at h
    exact ⟨h.1 ▸ hg, h.2.symm⟩
  · simp at h

/-- A change of the tree that succeeded. -/
theorem of_run_change_eq_ok {g : FileTree → Path → Except Fault Unit × FileTree} {a : Unit}
    (h : (change g).run w = (.ok a, v)) : v = { w with tree := (g w.tree w.cwd).2 } := by
  rw [run, change] at h
  split at h
  · rename_i t hg
    rw [hg, ← (Prod.mk.inj h).2]
  · simp at h

/-- A step of the tree that was done. -/
theorem of_run_step_eq_ok {g : FileTree → Path → Except Fault FileTree} {a : Unit}
    (h : (step g).run w = (.ok a, v)) :
    ∃ t, g w.tree w.cwd = .ok t ∧ v = { w with tree := t } := by
  rw [run, step] at h
  split at h
  · rename_i t hg
    exact ⟨t, hg, (Prod.mk.inj h).2.symm⟩
  · simp at h

theorem run_step_of_ok {g : FileTree → Path → Except Fault FileTree} {t : FileTree}
    (h : g w.tree w.cwd = .ok t) : (step g).run w = (.ok (), { w with tree := t }) := by
  simp only [run, step, h]

/-- Making directories is still. -/
theorem touches_makeDirs (hw : w.Grounded) (p : Path) :
    (change fun t cwd => t.makeDirs cwd p).Touches ∅ w := by
  intro a v hr
  rw [of_run_change_eq_ok hr]
  exact ⟨rfl, FileTree.sameOutside_makeDirs hw.directory p, List.prefix_refl _⟩

/-- **Writing a file** writes it at the place that its path names. -/
theorem wrote_step (hw : w.Grounded) {path : Path} {cs : List String} {name : String}
    {content : ByteArray} (hparts : path.parts = cs ++ [name]) (hname : name ≠ Path.up) {a : Unit}
    (h : (step fun t cwd => t.write cwd path content).run w = (.ok a, v)) :
    ∃ place, v.Names path place ∧ w.Wrote [(place, content)] v := by
  obtain ⟨t, hwrite, rfl⟩ := of_run_step_eq_ok h
  obtain ⟨hnul, dir, henter, hwrote⟩ := FileTree.wrote_of_write hw.directory hparts hname hwrite
  exact ⟨dir ++ [name],
    ⟨hnul, cs, name, dir, hparts, hname, hwrote.sameOutside.enter henter, rfl⟩,
    rfl, hwrote, List.prefix_refl _⟩

/-- **Writing a file below a directory.** -/
theorem wrote_step_below (hw : w.Grounded) {path : Path} {dir : Place} {rel : List String}
    {content : ByteArray} (hdir : w.Leads path dir) (hne : rel ≠ []) (hup : Path.up ∉ rel) {a : Unit}
    (h : (step fun t cwd => t.write cwd { path with parts := path.parts ++ rel } content).run w =
      (.ok a, v)) :
    v.Names { path with parts := path.parts ++ rel } (dir ++ rel) ∧
      w.Wrote [(dir ++ rel, content)] v := by
  obtain ⟨rest, last, rfl⟩ : ∃ rest last, rel = rest ++ [last] :=
    ⟨_, _, (List.dropLast_concat_getLast hne).symm⟩
  obtain ⟨place, hnames, hwrote⟩ := wrote_step hw (List.append_assoc _ _ _).symm
    (fun hlast => hup (hlast ▸ List.mem_append_right _ List.mem_cons_self)) h
  obtain rfl := hnames.eq_append (hwrote.sameOutside.leads hdir) hne hup
  exact ⟨hnames, hwrote⟩

theorem Touches.onlyIf {m : Action Unit} (wanted : Bool) (h : m.Touches s w) :
    (onlyIf wanted m).Touches s w := by
  cases wanted with
  | true => exact h
  | false => exact (still_pure ()).touches

theorem Still.onlyIf {m : Action Unit} (wanted : Bool) (h : m.Still) : (onlyIf wanted m).Still := by
  cases wanted with
  | true => exact h
  | false => exact still_pure ()

/-- **An action for each item**, each of which touches the same places as long as nothing else was
touched. -/
theorem Touches.forEach {g : α → Action Unit} {as : List α}
    (h : ∀ a ∈ as, ∀ v, w.SameOutside s v → (g a).Touches s v) : (forEach g as).Touches s w := by
  induction as generalizing w with
  | nil => exact (still_pure ()).touches
  | cons a as ih =>
    have ha := h a List.mem_cons_self w (.refl s w)
    refine ha.bind fun _ v hv => ih fun b hb u hu => ?_
    exact h b (List.mem_cons_of_mem a hb) u ((ha _ _ hv).trans hu)

theorem Still.forEach {g : α → Action Unit} (h : ∀ a, (g a).Still) (as : List α) :
    (forEach g as).Still := by
  induction as with
  | nil => exact still_pure ()
  | cons a as ih => exact (h a).bind fun _ => ih

end Action

open DenoPackager.Action

theorem Policy.still_checkWrite (policy : Policy) (text : String) :
    (policy.checkWrite text).Still := by
  refine still_get.bind fun w => ?_
  simp only
  split
  · exact still_pure ()
  · exact (still_log _ _).bind fun _ => still_fail _

theorem Policy.still_checkRun (policy : Policy) (command : String) :
    (policy.checkRun command).Still := by
  simp only [Policy.checkRun]
  split
  · exact still_pure ()
  · exact (still_log _ _).bind fun _ => still_fail _

namespace Writer

variable {policy : Policy} {path : Path} {cs : List String} {name : String} {text : String}
  {mark : Bool} {w v : Workspace}

/-- Seeing to a directory touches no file. -/
theorem touches_seeTo (hw : w.Grounded) (dir : Path) : (seeTo dir).Touches ∅ w := by
  refine Touches.bind still_get.touches fun x u hu => ?_
  have hsame : w.SameOutside ∅ u := still_get.touches _ _ hu
  split
  · exact (still_pure ()).touches
  · refine (touches_makeDirs (hsame.grounded hw) dir).bind fun _ y _ => ?_
    intro a z hz
    rw [run_modify, Prod.mk.injEq] at hz
    rw [← hz.2]
    exact ⟨rfl, .refl _ _, List.prefix_refl _⟩

/-- Everything but the writing itself touches nothing. -/
theorem of_run_writeMarked (hw : w.Grounded)
    (h : (writeMarked policy path text mark).run w = (.ok (), v)) :
    ∃ u₁ u₂, w.SameOutside ∅ u₁ ∧
      (step fun t cwd => t.write cwd path (encode text mark)).run u₁ = (.ok (), u₂) ∧
      u₂.SameOutside ∅ v := by
  obtain ⟨_, u₁, h₁, h⟩ := of_run_bind_eq_ok h
  obtain ⟨_, u₂, h₂, h⟩ := of_run_bind_eq_ok h
  obtain ⟨_, u₃, h₃, h⟩ := of_run_bind_eq_ok h
  obtain ⟨_, u₄, h₄, h⟩ := of_run_bind_eq_ok h
  have hallowed : w.SameOutside ∅ u₁ := (policy.still_checkWrite path.text).touches _ _ h₁
  have hseen := touches_seeTo (hallowed.grounded hw) path.parent _ _ h₂
  rw [run_modify, Prod.mk.injEq] at h₄
  rw [run_note, Prod.mk.injEq, ← h₄.2] at h
  rw [← h.2]
  exact ⟨u₂, u₃, hallowed.trans hseen, h₃, rfl, .refl _ _, List.prefix_append _ _⟩

/-- **The writer writes one file**, at the place that its path names. -/
theorem wrote_writeMarked (hw : w.Grounded) (hparts : path.parts = cs ++ [name])
    (hname : name ≠ Path.up) (h : (writeMarked policy path text mark).run w = (.ok (), v)) :
    ∃ place, v.Names path place ∧ w.Wrote [(place, encode text mark)] v := by
  obtain ⟨u₁, u₂, hbefore, hstep, hafter⟩ := of_run_writeMarked hw h
  obtain ⟨place, hnames, hwrote⟩ := wrote_step (hbefore.grounded hw) hparts hname hstep
  exact ⟨place, hafter.names hnames, (hwrote.after hbefore).before hafter⟩

/-- **The writer writes below a directory.** -/
theorem wrote_below (hw : w.Grounded) {package : Path} {dir : Place} {rel : List String}
    (hdir : w.Leads package dir) (hne : rel ≠ []) (hup : Path.up ∉ rel)
    (h : (writeMarked policy { package with parts := package.parts ++ rel } text mark).run w =
      (.ok (), v)) :
    v.Names { package with parts := package.parts ++ rel } (dir ++ rel) ∧
      w.Wrote [(dir ++ rel, encode text mark)] v := by
  obtain ⟨u₁, u₂, hbefore, hstep, hafter⟩ := of_run_writeMarked hw h
  obtain ⟨hnames, hwrote⟩ :=
    wrote_step_below (hbefore.grounded hw) (hbefore.leads hdir) hne hup hstep
  exact ⟨hafter.names hnames, (hwrote.after hbefore).before hafter⟩

end Writer

end DenoPackager
