import DenoPackager.Proofs.Exit.Throws
import DenoPackager.Proofs.Memory.Forgetting

/-!
# Requests to a writer

A writer answers requests one after the other, and goes on after one that failed. What becomes of
them is the same with and without a memory of the directories that were seen to: the answers and the
failures, the tree, the files that count as written and the events, after every request.

On the way the memory holds nothing but directories that are there, and the files that count as
written are those of the writes that succeeded, in order. A denial changes nothing. The removal of
several files stops at the first one that is denied, and what was removed before it is gone.

## Main definitions

* `Writer.Request`, `Writer.answer`: what is asked of a writer, and the answer.
* `Writer.serve`: what becomes of requests that are answered one after the other.
* `Writer.Served.LeftAlone`: a denied request after which nothing is different.

## Main results

* `Writer.forget_serve`: the memory makes no difference.
* `Writer.written_serve`: the files that count as written.
* `Writer.leftAlone_of_denied`: what is left after a denial.
* `Writer.serve_unobserved`: all of it, for the requests to a new writer.
-/

namespace DenoPackager

open DenoPackager.Action

namespace Writer

/-- **What is asked of a writer.** -/
inductive Request where
  /-- Write a text to a path, with a byte order mark in front if `mark` is set. -/
  | write (path text : String) (mark : Bool)
  /-- The same, asked for by a compiler, which waits for no answer. -/
  | callback (path text : String) (mark : Bool)
  /-- Remove a file. -/
  | remove (path : String)
  /-- Remove files of a directory, one after the other. -/
  | removeAll (dir : String) (names : List String)

/-- The files that are written if the request succeeds. -/
def Request.paths : Request → List Path
  | .write path _ _ => [.ofString path]
  | .callback path _ _ => [.ofString path]
  | .remove _ => []
  | .removeAll _ _ => []

/-- **Answering a request**, for a way of writing. A write is answered by the path. -/
def answer (policy : Policy) (put : Path → String → Bool → Action Unit) :
    Request → Action (Option Path)
  | .write path text mark => do
    put (.ofString path) text mark
    pure (some (.ofString path))
  | .callback path text mark => do
    put (.ofString path) text mark
    pure none
  | .remove path => do
    remove policy path
    pure none
  | .removeAll dir names => do
    removeAll policy (.ofString dir) names
    pure none

/-- **What became of a request**, and the workspaces before and after it. -/
structure Served where
  request : Request
  before : Workspace
  result : Except Failure (Option Path)
  after : Workspace

/-- **Requests are answered one after the other**, whether or not one of them fails. -/
def serve (answer : Request → Action (Option Path)) : List Request → Workspace → List Served
  | [], _ => []
  | r :: rs, w =>
    { request := r, before := w, result := ((answer r).run w).1, after := ((answer r).run w).2 } ::
      serve answer rs ((answer r).run w).2

namespace Served

/-- The same without a memory. -/
def forget (s : Served) : Served :=
  { s with before := s.before.forget, after := s.after.forget }

/-- The files that were written. -/
def paths (s : Served) : List Path :=
  if s.result.isOk then s.request.paths else []

end Served

end Writer

/-! ### What counts as written -/

namespace Action

variable {α β : Type} {m : Action α} {paths : List Path}

/-- **An action adds files to those that count as written** if it succeeds, and none if not. -/
def Records (m : Action α) (paths : List Path) : Prop :=
  ∀ w, (m.run w).2.written = w.written ++ if (m.run w).1.isOk then paths else []

/-- **One action after another** that adds nothing. -/
theorem Records.after {f : α → Action β} (hm : m.Records []) (hf : ∀ a, (f a).Records paths) :
    (m >>= f).Records paths := by
  intro w
  have hfirst := hm w
  match hr : m.run w with
  | (.ok a, v) =>
    rw [hr] at hfirst
    rw [run_bind_of_ok hr, hf a v, hfirst, ite_self, List.append_nil]
  | (.error e, v) =>
    rw [hr] at hfirst
    rw [run_bind_of_error hr, hfirst]
    rfl

/-- An answer adds nothing to what was done before it. -/
theorem Records.answered (hm : m.Records paths) (b : β) :
    (m >>= fun _ => pure b).Records paths := by
  intro w
  have hfirst := hm w
  match hr : m.run w with
  | (.ok a, v) =>
    rw [hr] at hfirst
    rw [run_bind_of_ok hr]
    exact hfirst
  | (.error e, v) =>
    rw [hr] at hfirst
    rw [run_bind_of_error hr]
    exact hfirst

theorem records_modify {f : Workspace → Workspace} (h : ∀ w, (f w).written = w.written) :
    (modify f).Records [] :=
  fun w => (h w).trans (List.append_nil w.written).symm

theorem records_note (e : Event) : (note e).Records [] :=
  records_modify fun _ => rfl

theorem records_change (f : FileTree → Path → Except Fault Unit × FileTree) :
    (change f).Records [] := by
  intro w
  rw [ite_self, List.append_nil]
  match h : f w.tree w.cwd with
  | (.ok (), t) => rw [run_change_of_ok h]
  | (.error e, t) => rw [run_change_of_error h]

theorem records_step (f : FileTree → Path → Except Fault FileTree) : (step f).Records [] := by
  intro w
  rw [ite_self, List.append_nil]
  cases h : f w.tree w.cwd with
  | ok t => rw [run_step_of_ok h]
  | error e => rw [run_step_of_error h]

theorem Records.forEach {f : α → Action Unit} (h : ∀ a, (f a).Records []) (as : List α) :
    (forEach f as).Records [] := by
  induction as with
  | nil => exact fun w => (List.append_nil w.written).symm
  | cons a as ih => exact (h a).after fun _ => ih

end Action

theorem Policy.records_checkWrite (policy : Policy) (text : String) :
    (policy.checkWrite text).Records [] := by
  intro w
  rw [ite_self, List.append_nil]
  cases h : policy.allowsWrite w.cwd (.ofString text) with
  | true => rw [run_checkWrite_of_allowed h]
  | false => rw [run_checkWrite_of_refused h]

/-! ### Denials -/

/-- **Nothing is different** in the tree and for the writer. -/
structure Workspace.Untouched (w v : Workspace) : Prop where
  tree : v.tree = w.tree
  created : v.created = w.created
  written : v.written = w.written

/-- What is no denial of a write. -/
def Failure.Undenied (e : Failure) : Prop :=
  ∀ text, e ≠ .problem (.writeDenied text)

theorem Failure.undenied_fault (f : Fault) : (Failure.fault f).Undenied :=
  fun _ => Failure.noConfusion

/-- **A denial changes nothing** where all that is done is checked first. -/
theorem Policy.untouched_of_denied {policy : Policy} {text : String} {α : Type} {m : Action α}
    (hm : m.Throws Failure.Undenied) {w : Workspace}
    (h : WriteDenied ((policy.checkWrite text >>= fun _ => m).run w).1) :
    w.Untouched ((policy.checkWrite text >>= fun _ => m).run w).2 := by
  cases hallowed : policy.allowsWrite w.cwd (.ofString text) with
  | false =>
    rw [run_bind_of_error (run_checkWrite_of_refused hallowed)]
    exact ⟨rfl, rfl, rfl⟩
  | true =>
    rw [run_bind_of_ok (run_checkWrite_of_allowed hallowed)] at h
    obtain ⟨denied, hdenied⟩ := h
    exact absurd rfl (hm w _ _ (Prod.ext hdenied rfl) denied)

/-- **The denial of one of several actions**: those before it were done, and it comes last. -/
theorem Action.exists_of_denied_forEach {α : Type} {f : α → Action Unit} {as : List α}
    {w : Workspace} (h : WriteDenied ((forEach f as).run w).1) :
    ∃ done a rest u, as = done ++ a :: rest ∧ (forEach f done).run w = (.ok (), u) ∧
      WriteDenied ((f a).run u).1 ∧ ((f a).run u).2 = ((forEach f as).run w).2 := by
  induction as generalizing w with
  | nil => exact absurd h (not_writeDenied_ok ())
  | cons a as ih =>
    rw [forEach] at h ⊢
    match hr : (f a).run w with
    | (.ok (), v) =>
      rw [run_bind_of_ok hr] at h ⊢
      obtain ⟨done, b, rest, u, rfl, hdone, hdenied, hlast⟩ := ih h
      refine ⟨a :: done, b, rest, u, rfl, ?_, hdenied, hlast⟩
      rw [forEach, run_bind_of_ok hr, hdone]
    | (.error e, v) =>
      rw [run_bind_of_error hr] at h ⊢
      exact ⟨[], a, as, w, rfl, rfl, by rw [hr]; exact h, by rw [hr]⟩

namespace Writer

variable {policy : Policy} {w : Workspace} {requests : List Request}

/-! ### The actions of a writer -/

theorem records_seeTo (dir : Path) : (seeTo dir).Records [] := by
  intro w
  rw [seeTo, run_bind_of_ok (run_get w)]
  split
  · rw [run_pure, ite_self, List.append_nil]
  · refine Records.after (records_change _) (fun _ => ?_) w
    exact records_modify fun _ => rfl

/-- **A write adds its file** if it succeeds. -/
theorem records_writeMarked (policy : Policy) (path : Path) (text : String) (mark : Bool) :
    (writeMarked policy path text mark).Records [path] := by
  refine (policy.records_checkWrite path.text).after fun _ => ?_
  refine (records_seeTo path.parent).after fun _ => ?_
  exact (records_step _).after fun _ _ => rfl

theorem records_remove (policy : Policy) (path : String) : (remove policy path).Records [] := by
  refine (policy.records_checkWrite path).after fun _ => (records_note _).after fun _ => ?_
  exact (records_step _).after fun _ => records_note _

theorem records_removeAll (policy : Policy) (dir : Path) (names : List String) :
    (removeAll policy dir names).Records [] :=
  (Records.forEach (fun name => records_remove policy (dir.joinText name).text) names).after
    fun _ => records_note _

/-- **A denied write changes nothing.** -/
theorem untouched_writeMarked {path : Path} {text : String} {mark : Bool}
    (h : WriteDenied ((writeMarked policy path text mark).run w).1) :
    w.Untouched ((writeMarked policy path text mark).run w).2 := by
  refine Policy.untouched_of_denied (Throws.bind ?_ fun _ => ?_) h
  · rw [seeTo]
    refine throws_get.bind fun v => ?_
    split
    · exact throws_pure ()
    · exact (throws_change Failure.undenied_fault _).bind fun _ => throws_modify _
  · refine (throws_step Failure.undenied_fault _).bind fun _ => ?_
    exact (throws_modify _).bind fun _ => throws_modify _

/-- **A denied removal changes nothing.** -/
theorem untouched_remove {path : String} (h : WriteDenied ((remove policy path).run w).1) :
    w.Untouched ((remove policy path).run w).2 := by
  refine Policy.untouched_of_denied ((throws_log _ _).bind fun _ => ?_) h
  exact (throws_step Failure.undenied_fault _).bind fun _ => throws_modify _

/-- The files that are removed before one that is denied. -/
theorem untouched_removeAll {dir : Path} {names : List String}
    (h : WriteDenied ((removeAll policy dir names).run w).1) :
    ∃ done name rest u, names = done ++ name :: rest ∧
      (forEach (fun name => remove policy (dir.joinText name).text) done).run w = (.ok (), u) ∧
      WriteDenied ((remove policy (dir.joinText name).text).run u).1 ∧
      u.Untouched ((removeAll policy dir names).run w).2 := by
  rw [removeAll] at h ⊢
  rcases hr : (forEach (fun name => remove policy (dir.joinText name).text) names).run w with
    ⟨e | ⟨⟩, v⟩
  · rw [run_bind_of_error hr] at h ⊢
    have hdenied : WriteDenied
        ((forEach (fun name => remove policy (dir.joinText name).text) names).run w).1 := by
      rw [hr]
      exact h
    obtain ⟨done, name, rest, u, hnames, hdone, hdenied, hlast⟩ := exists_of_denied_forEach hdenied
    rw [hr] at hlast
    exact ⟨done, name, rest, u, hnames, hdone, hdenied, hlast ▸ untouched_remove hdenied⟩
  · rw [run_bind_of_ok hr] at h
    exact absurd h (not_writeDenied_ok ())

/-! ### One request -/

/-- **A denied request leaves everything as it was**, but for files that were to be removed before
the one that is denied: they are removed. -/
def Served.LeftAlone (policy : Policy) (s : Served) : Prop :=
  match s.request with
  | .removeAll dir names =>
    ∃ done name rest u, names = done ++ name :: rest ∧
      (forEach (fun name => remove policy ((Path.ofString dir).joinText name).text) done).run
        s.before = (.ok (), u) ∧
      WriteDenied ((remove policy ((Path.ofString dir).joinText name).text).run u).1 ∧
      u.Untouched s.after
  | _ => s.before.Untouched s.after

/-- **The answer to a request does not depend on the memory.** -/
theorem unobserved_answer (policy : Policy) (r : Request) :
    Unobserved (answer policy (writeMarked policy) r) (answer policy (writeAfresh policy) r) := by
  cases r with
  | write path text mark =>
    exact (unobserved_writeMarked policy _ text mark).bind fun _ => unobserved_pure _
  | callback path text mark =>
    exact (unobserved_writeMarked policy _ text mark).bind fun _ => unobserved_pure _
  | remove path => exact (unobserved_remove policy path).bind fun _ => unobserved_pure _
  | removeAll dir names =>
    exact (unobserved_removeAll policy _ names).bind fun _ => unobserved_pure _

theorem records_answer (policy : Policy) (r : Request) :
    (answer policy (writeMarked policy) r).Records r.paths := by
  cases r with
  | write path text mark => exact (records_writeMarked policy _ text mark).answered _
  | callback path text mark => exact (records_writeMarked policy _ text mark).answered _
  | remove path => exact (records_remove policy path).answered _
  | removeAll dir names => exact (records_removeAll policy _ names).answered _

/-- An answer fails, and leaves behind, what the action before it does. -/
theorem run_answered {α β : Type} {m : Action α} {b : β}
    (h : WriteDenied ((m >>= fun _ => pure b).run w).1) :
    WriteDenied (m.run w).1 ∧ ((m >>= fun _ => pure b).run w).2 = (m.run w).2 := by
  match hr : m.run w with
  | (.ok a, v) =>
    rw [run_bind_of_ok hr] at h
    exact absurd h (not_writeDenied_ok b)
  | (.error e, v) =>
    rw [run_bind_of_error hr] at h ⊢
    exact ⟨h.of_error, rfl⟩

/-- **What is left after a denial.** -/
theorem leftAlone_of_denied (r : Request)
    (h : WriteDenied ((answer policy (writeMarked policy) r).run w).1) :
    Served.LeftAlone policy
      { request := r, before := w
        result := ((answer policy (writeMarked policy) r).run w).1
        after := ((answer policy (writeMarked policy) r).run w).2 } := by
  cases r with
  | write path text mark =>
    obtain ⟨hdenied, hafter⟩ := run_answered (m := writeMarked policy _ text mark) h
    exact hafter ▸ untouched_writeMarked hdenied
  | callback path text mark =>
    obtain ⟨hdenied, hafter⟩ := run_answered (m := writeMarked policy _ text mark) h
    exact hafter ▸ untouched_writeMarked hdenied
  | remove path =>
    obtain ⟨hdenied, hafter⟩ := run_answered (m := remove policy path) h
    exact hafter ▸ untouched_remove hdenied
  | removeAll dir names =>
    obtain ⟨hdenied, hafter⟩ := run_answered (m := removeAll policy _ names) h
    obtain ⟨done, name, rest, u, hnames, hdone, hlast, hkept⟩ := untouched_removeAll hdenied
    exact ⟨done, name, rest, u, hnames, hdone, hlast, hafter ▸ hkept⟩

/-! ### All requests -/

/-- **The memory makes no difference**, and all that is remembered on the way is there. -/
theorem forget_serve (policy : Policy) (hw : w.Trusted) (requests : List Request) :
    (serve (answer policy (writeMarked policy)) requests w).map Served.forget =
        serve (answer policy (writeAfresh policy)) requests w.forget ∧
      ∀ s ∈ serve (answer policy (writeMarked policy)) requests w, s.after.Trusted := by
  induction requests generalizing w with
  | nil => exact ⟨rfl, fun s hs => absurd hs List.not_mem_nil⟩
  | cons r rs ih =>
    obtain ⟨hrun, htrusted⟩ := unobserved_answer policy r w hw
    obtain ⟨hrest, hothers⟩ := ih htrusted
    refine ⟨?_, List.forall_mem_cons.2 ⟨htrusted, hothers⟩⟩
    rw [serve, serve, List.map_cons, hrest, hrun]
    rfl

/-- **The files that count as written** are those of the writes that succeeded so far, in order. -/
theorem written_serve {done later : List Served} {s : Served}
    (h : serve (answer policy (writeMarked policy)) requests w = done ++ s :: later) :
    s.after.written = w.written ++ (done ++ [s]).flatMap Served.paths := by
  induction requests generalizing w done with
  | nil => exact absurd h.symm (by simp [serve])
  | cons r rs ih =>
    have hfirst := records_answer policy r w
    rw [serve] at h
    cases done with
    | nil =>
      rw [List.nil_append, List.cons.injEq] at h
      rw [← h.1]
      simpa [Served.paths] using hfirst
    | cons d done =>
      rw [List.cons_append, List.cons.injEq] at h
      rw [ih h.2, hfirst, List.cons_append, List.flatMap_cons, ← List.append_assoc, ← h.1]
      rfl

theorem leftAlone_serve {s : Served}
    (hs : s ∈ serve (answer policy (writeMarked policy)) requests w) (h : WriteDenied s.result) :
    s.LeftAlone policy := by
  induction requests generalizing w with
  | nil => exact absurd hs List.not_mem_nil
  | cons r rs ih =>
    rcases List.mem_cons.1 hs with rfl | hs
    · exact leftAlone_of_denied r h
    · exact ih hs

/-- **The memory of a writer cannot be seen.** For every policy and every sequence of requests to a
new writer, the answers and failures, the trees, the files that count as written and the events are
after every request those of a writer without a memory. All that is remembered is there, the files
that count as written are those of the writes that succeeded, in order, and a denial leaves
everything as it was. -/
theorem serve_unobserved (policy : Policy) {cwd : Path} {tree : FileTree}
    (hcwd : tree.get? cwd.parts = some .directory) (requests : List Request) :
    let served := serve (answer policy (writeMarked policy)) requests (.fresh cwd tree)
    served.map Served.forget =
        serve (answer policy (writeAfresh policy)) requests (.fresh cwd tree) ∧
      (∀ s ∈ served, ∀ dir ∈ s.after.created,
        s.after.tree.isDirectory s.after.cwd dir = true) ∧
      (∀ done s later, served = done ++ s :: later →
        s.after.written = (done ++ [s]).flatMap Served.paths) ∧
      ∀ s ∈ served, WriteDenied s.result → s.LeftAlone policy := by
  have hw : (Workspace.fresh cwd tree).Trusted :=
    ⟨hcwd, fun dir hdir => absurd hdir List.not_mem_nil⟩
  obtain ⟨hsame, htrusted⟩ := forget_serve policy hw requests
  exact ⟨hsame, fun s hs => (htrusted s hs).created, fun done s later h => written_serve h,
    fun s hs => leftAlone_serve hs⟩

/-- Requests of every sort, and some that fail. -/
def sampleRequests : List Request :=
  [.write "npm/src/a.txt" "a" false, .write "npm/src/../b.txt" "b" true, .remove "npm/src/a.txt",
    .callback "npm/src" "c" false, .callback "npm/src/d.txt" "d" false, .write "e.txt" "e" false,
    .removeAll "npm" ["src/d.txt", "src/a.txt"]]

/-- A writer with a memory and one without, before a few requests of which three fail. -/
theorem serve_unobserved_sample :
    let served := serve (answer packagePolicy (writeMarked packagePolicy)) sampleRequests
      packageWorkspace
    packageWorkspace.tree.get? packageWorkspace.cwd.parts = some .directory ∧
      served.map (·.result.isOk) = [true, true, true, false, true, false, false] ∧
      served.map Served.forget =
        serve (answer packagePolicy (writeAfresh packagePolicy)) sampleRequests
          packageWorkspace := by
  have hcwd : packageWorkspace.tree.get? packageWorkspace.cwd.parts = some .directory := by
    decide +kernel
  exact ⟨hcwd, by decide +kernel, (serve_unobserved packagePolicy hcwd sampleRequests).1⟩

end Writer

end DenoPackager
