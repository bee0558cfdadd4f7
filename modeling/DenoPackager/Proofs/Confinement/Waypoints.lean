import DenoPackager.Proofs.Files.Tree
import DenoPackager.Proofs.Links.Way
import Mathlib.Data.List.Induction

/-!
# The way that making directories takes

A path is checked by its absolute normal form, and walked as it is written. Both lead to the same
place when every directory on the way is there. Making a directory makes what is missing on the way
as it is written: a component that a double dot takes back right after it is made all the same, and
the normal form does not show it.

Directories are made by trying the last one first and going back where the way to it is missing.
What comes of that is told front to back: each missing directory on the way is made, up to the first
file that stands in the way.

## Main definitions

* `Path.follow`: where a way leads, whatever is there.
* `FileTree.makeWay`: making what is missing on a way, front to back.
* `FileTree.missingOn`: the places on a way at which nothing stands.

## Main results

* `Path.parts_absolute`: the absolute normal form is where the way leads.
* `FileTree.makeDirs_eq`: making directories is making the way front to back.
* `FileTree.get?_makeDirs`: exactly what is missing on the way is made.
* `FileTree.prefix_of_mem_missingOn`: without a double dot, that lies on the way down.
-/

namespace DenoPackager

namespace Path

/-! ### Where a way leads -/

/-- The place one component further: up or down, whether or not anything stands there. -/
def stepTo (here : Place) (c : String) : Place :=
  if c = up then here.dropLast else here ++ [c]

/-- **Where a way leads** from a place. -/
def follow (here : Place) (cs : List String) : Place :=
  cs.foldl stepTo here

theorem follow_append (here : Place) (cs ds : List String) :
    follow here (cs ++ ds) = follow (follow here cs) ds :=
  List.foldl_append

theorem follow_of_not_mem {here : Place} {cs : List String} (h : up ∉ cs) :
    follow here cs = here ++ cs := by
  induction cs generalizing here with
  | nil => exact (List.append_nil here).symm
  | cons c cs ih =>
    rw [List.mem_cons, not_or] at h
    have hstep : follow here (c :: cs) = follow (here ++ [c]) cs :=
      congrArg (follow · cs) (if_neg (Ne.symm h.1))
    rw [hstep, ih h.2, List.append_assoc, List.singleton_append]

/-- The stack of a normal form is a way, read from its end. -/
theorem push_reverse {here : Place} (h : up ∉ here) (c : String) :
    push true here.reverse c = (stepTo here c).reverse ∧ up ∉ stepTo here c := by
  by_cases hc : c = up
  · simp only [push, stepTo, if_pos hc]
    refine ⟨?_, fun hmem => h (List.dropLast_subset here hmem)⟩
    by_cases hnil : here = []
    · rw [hnil]
      rfl
    · rw [← List.dropLast_concat_getLast hnil, List.mem_append, List.mem_singleton, not_or] at h
      rw [← List.dropLast_concat_getLast hnil, List.reverse_append, List.dropLast_concat]
      exact if_neg (Ne.symm h.2)
  · simp only [push, stepTo, if_neg hc, List.mem_append, List.mem_singleton, not_or]
    exact ⟨by simp, h, Ne.symm hc⟩

theorem foldl_push_reverse {here : Place} (h : up ∉ here) (cs : List String) :
    cs.foldl (push true) here.reverse = (follow here cs).reverse := by
  induction cs generalizing here with
  | nil => rfl
  | cons c cs ih =>
    obtain ⟨hpush, hup⟩ := push_reverse h c
    rw [List.foldl_cons, hpush, ih hup]
    rfl

/-- Below a root, the normal form of a list of components is where they lead from the root. -/
theorem normalParts_eq_follow (cs : List String) : normalParts true cs = follow [] cs := by
  have hstack : cs.foldl (push true) [] = (follow [] cs).reverse :=
    foldl_push_reverse (List.not_mem_nil : up ∉ ([] : Place)) cs
  rw [normalParts, hstack, List.reverse_reverse]

/-- **The absolute normal form** of a path is where the way leads, seen from an absolute path. -/
theorem parts_absolute {cwd : Path} (hcwd : up ∉ cwd.parts) (habs : cwd.isAbsolute = true)
    (p : Path) : (p.absolute cwd).parts = follow (p.start cwd) p.parts := by
  obtain ⟨root, parts⟩ := p
  cases root with
  | none =>
    have hseen : (absolute ⟨.none, parts⟩ cwd).parts =
        normalParts cwd.isAbsolute (cwd.parts ++ parts) := rfl
    rw [hseen, habs, normalParts_eq_follow, follow_append, follow_of_not_mem hcwd]
    rfl
  | single => exact normalParts_eq_follow parts
  | double => exact normalParts_eq_follow parts

end Path

open DenoPackager.Path (follow stepTo)

namespace FileTree

variable {t u : FileTree} {here dir q : Place} {c : String} {cs ds : List String} {cwd p : Path}

/-! ### Walking and following -/

/-- **Walking leads where the way does.** -/
theorem follow_of_enter (h : t.enter here cs = .ok dir) : dir = follow here cs := by
  induction cs generalizing here with
  | nil => exact (Except.ok.inj h).symm
  | cons c cs ih =>
    have hfollow : follow here (c :: cs) = follow (stepTo here c) cs := rfl
    rw [hfollow, stepTo]
    rw [enter] at h
    split at h
    · rename_i hc
      rw [if_pos hc]
      exact ih h
    · rename_i hc
      rw [if_neg hc]
      split at h
      · exact ih h
      · simp at h
      · simp at h

/-- The directory above a directory is there. -/
theorem directory_dropLast (h : t.get? here = some .directory) :
    t.get? here.dropLast = some .directory :=
  directory_above h (List.dropLast_prefix here)

/-! ### Making a way -/

/-- **Making what is missing on a way**, front to back, up to the first file. The answer says
whether the way is there in the end. -/
def makeWay (t : FileTree) (here : Place) : List String → Bool × FileTree
  | [] => (true, t)
  | c :: cs =>
    if c = Path.up then makeWay t here.dropLast cs
    else
      match t.get? (here ++ [c]) with
      | some .directory => makeWay t (here ++ [c]) cs
      | some (.file _) => (false, t)
      | none => makeWay (t.insert (here ++ [c]) .directory) (here ++ [c]) cs

/-- **The places on a way at which nothing stands**, up to the first file. -/
def missingOn (t : FileTree) (here : Place) : List String → List Place
  | [] => []
  | c :: cs =>
    if c = Path.up then missingOn t here.dropLast cs
    else
      match t.get? (here ++ [c]) with
      | some .directory => missingOn t (here ++ [c]) cs
      | some (.file _) => []
      | none => (here ++ [c]) :: missingOn t (here ++ [c]) cs

/-- A way that is there does not have to be made. -/
theorem makeWay_of_enter (h : t.enter here cs = .ok dir) : t.makeWay here cs = (true, t) := by
  induction cs generalizing here with
  | nil => rfl
  | cons c cs ih =>
    rw [enter] at h
    rw [makeWay]
    by_cases hc : c = Path.up
    · rw [if_pos hc] at h ⊢
      exact ih h
    · rw [if_neg hc] at h ⊢
      cases hget : t.get? (here ++ [c]) with
      | none => simp [hget] at h
      | some n =>
        cases n with
        | directory =>
          rw [hget] at h
          exact ih h
        | file content => simp [hget] at h

/-- Nothing is made on a way with a file before anything that is missing. -/
theorem makeWay_of_notDirectory (h : t.enter here cs = .error .notDirectory) :
    t.makeWay here cs = (false, t) := by
  induction cs generalizing here with
  | nil => simp [enter] at h
  | cons c cs ih =>
    rw [enter] at h
    rw [makeWay]
    by_cases hc : c = Path.up
    · rw [if_pos hc] at h ⊢
      exact ih h
    · rw [if_neg hc] at h ⊢
      cases hget : t.get? (here ++ [c]) with
      | none => simp [hget] at h
      | some n =>
        cases n with
        | directory =>
          rw [hget] at h
          exact ih h
        | file content => rfl

/-- A walk that fails meets a file, or nothing at all. -/
theorem enter_error {e : Fault} (h : t.enter here cs = .error e) :
    e = .notDirectory ∨ e = .notFound := by
  induction cs generalizing here with
  | nil => simp [enter] at h
  | cons c cs ih =>
    rw [enter] at h
    split at h
    · exact ih h
    · split at h
      · exact ih h
      · exact .inl (Except.error.inj h).symm
      · exact .inr (Except.error.inj h).symm

/-- One way after the other. -/
theorem makeWay_append (t : FileTree) (here : Place) (cs ds : List String) :
    t.makeWay here (cs ++ ds) =
      match t.makeWay here cs with
      | (true, u) => u.makeWay (follow here cs) ds
      | (false, u) => (false, u) := by
  induction cs generalizing t here with
  | nil => rfl
  | cons c cs ih =>
    have hfollow : follow here (c :: cs) = follow (stepTo here c) cs := rfl
    rw [List.cons_append, makeWay, makeWay, hfollow, stepTo]
    by_cases hc : c = Path.up
    · simp only [if_pos hc]
      exact ih t _
    · simp only [if_neg hc]
      cases t.get? (here ++ [c]) with
      | none => exact ih _ _
      | some n =>
        cases n with
        | directory => exact ih t _
        | file content => rfl

/-- **A way that was made** can be walked, and no directory was lost. -/
theorem enter_of_makeWay (hhere : t.get? here = some .directory)
    (h : t.makeWay here cs = (true, u)) : u.enter here cs = .ok (follow here cs) ∧
      ∀ q, t.get? q = some .directory → u.get? q = some .directory := by
  induction cs generalizing t here with
  | nil =>
    rw [makeWay, Prod.mk.injEq] at h
    exact ⟨rfl, fun q hq => h.2 ▸ hq⟩
  | cons c cs ih =>
    have hfollow : follow here (c :: cs) = follow (stepTo here c) cs := rfl
    rw [makeWay] at h
    rw [enter, hfollow, stepTo]
    by_cases hc : c = Path.up
    · rw [if_pos hc] at h ⊢
      rw [if_pos hc]
      exact ih (directory_dropLast hhere) h
    · rw [if_neg hc] at h ⊢
      rw [if_neg hc]
      cases hget : t.get? (here ++ [c]) with
      | some n =>
        cases n with
        | directory =>
          simp only [hget] at h
          obtain ⟨henter, hkept⟩ := ih hget h
          simp only [hkept _ hget]
          exact ⟨henter, hkept⟩
        | file content => simp [hget] at h
      | none =>
        simp only [hget] at h
        have hmade := sameOutside_insert_directory hhere hget
        have hself : (t.insert (here ++ [c]) .directory).get? (here ++ [c]) = some .directory := by
          rw [get?_insert (by simp) (by rwa [List.dropLast_concat]) (.inl rfl), if_pos rfl]
        obtain ⟨henter, hkept⟩ := ih hself h
        simp only [hkept _ hself]
        exact ⟨henter, fun q hq => hkept q (hmade.directories q hq)⟩

/-- One component that cannot be made changes nothing. -/
theorem eq_of_makeWay_single (h : t.makeWay here [c] = (false, u)) : u = t := by
  rw [makeWay] at h
  by_cases hc : c = Path.up
  · simp [hc, makeWay] at h
  · rw [if_neg hc] at h
    cases hget : t.get? (here ++ [c]) with
    | none => simp [hget, makeWay] at h
    | some n =>
      cases n with
      | directory => simp [hget, makeWay] at h
      | file content =>
        simp only [hget, Prod.mk.injEq, true_and] at h
        exact h.symm

/-! ### Making directories -/

/-- **Making one directory**, or finding it there, is making the last component of the way. -/
theorem ensureDir_eq (hparts : p.parts = cs ++ [c]) (hnul : p.parts.any Path.hasNul = false) :
    t.ensureDir cwd p =
      match t.enter (p.start cwd) cs with
      | .error e => .error e
      | .ok dir =>
        match t.makeWay dir [c] with
        | (true, u) => .ok u
        | (false, _) => .error .alreadyExists := by
  rw [ensureDir, makeDir, isDirectory, locate_concat hnul hparts]
  cases henter : t.enter (p.start cwd) cs with
  | error e =>
    rcases enter_error henter with rfl | rfl <;> rfl
  | ok dir =>
    simp only [Except.map, lastStep, makeWay]
    by_cases hc : c = Path.up
    · simp only [if_pos hc, if_true]
    · simp only [if_neg hc]
      cases t.get? (dir ++ [c]) with
      | none => rfl
      | some n => cases n <;> rfl

/-- A path without components leads to a directory that is there. -/
theorem ensureDir_nil (hparts : p.parts = []) : t.ensureDir cwd p = .ok t := by
  rw [ensureDir, makeDir, isDirectory, locate_nil hparts]
  rfl

/-- **Making directories is making the way front to back**, unless the path cannot be one. -/
theorem makeDirs_eq (hcwd : t.get? cwd.parts = some .directory)
    (hnul : p.parts.any Path.hasNul = false) :
    (t.makeDirs cwd p).2 = (t.makeWay (p.start cwd) p.parts).2 ∧
      ((t.makeDirs cwd p).1 = .ok () ↔ (t.makeWay (p.start cwd) p.parts).1 = true) := by
  obtain ⟨root, parts⟩ := p
  induction parts using List.reverseRecOn with
  | nil =>
    rw [makeDirs, ensureDir_nil rfl]
    exact ⟨rfl, by simp [makeWay]⟩
  | append_singleton cs c ih =>
    have hstart : (⟨root, cs ++ [c]⟩ : Path).start cwd = (⟨root, cs⟩ : Path).start cwd := rfl
    have hparent : (⟨root, cs ++ [c]⟩ : Path).parent = ⟨root, cs⟩ := by
      rw [Path.parent, List.dropLast_concat]
    have hensure (t : FileTree) : t.ensureDir cwd ⟨root, cs ++ [c]⟩ = _ := ensureDir_eq rfl hnul
    rw [List.any_append, Bool.or_eq_false_iff] at hnul
    rw [makeDirs, hensure, hstart, makeWay_append]
    cases henter : t.enter ((⟨root, cs⟩ : Path).start cwd) cs with
    | ok dir =>
      -- the way before the last component is there
      rw [makeWay_of_enter henter, ← follow_of_enter henter]
      cases hway : t.makeWay dir [c] with
      | mk done u =>
        cases done with
        | true => simp [hway]
        | false => simp [hway, eq_of_makeWay_single hway]
    | error e =>
      rcases enter_error henter with rfl | rfl
      · rw [makeWay_of_notDirectory henter]
        simp
      -- the way before the last component is made first
      obtain ⟨htree, hdone⟩ := ih hnul.1
      cases hway : t.makeWay ((⟨root, cs⟩ : Path).start cwd) cs with
      | mk done u =>
      cases habove : t.makeDirs cwd ⟨root, cs⟩ with
      | mk ended v =>
      obtain rfl : v = u := by simpa [hway, habove] using htree
      cases ended with
      | error e =>
        obtain rfl : done = false := by simpa [hway, habove] using hdone
        simp [hparent, habove]
      | ok _ =>
        obtain rfl : done = true := by simpa [hway, habove] using hdone
        have hwalk := (enter_of_makeWay (directory_start hcwd _) hway).1
        simp only [hparent, habove, hensure, hstart, hwalk]
        cases hlast : v.makeWay (follow ((⟨root, cs⟩ : Path).start cwd) cs) [c] with
        | mk last x =>
          cases last with
          | true => simp
          | false => simp [eq_of_makeWay_single hlast]

/-! ### What is made -/

/-- **What a way makes**: with some directories made already, those and the missing ones. -/
theorem get?_makeWay {made : List Place}
    (hview : ∀ q, u.get? q = if q ∈ made then some .directory else t.get? q)
    (hnew : ∀ q ∈ made, t.get? q = none) (hhere : u.get? here = some .directory) (q : Place) :
    (u.makeWay here cs).2.get? q =
      if q ∈ made ∨ q ∈ t.missingOn here cs then some .directory else t.get? q := by
  induction cs generalizing u here made with
  | nil => simpa [makeWay, missingOn] using hview q
  | cons c cs ih =>
    rw [makeWay, missingOn]
    split
    · exact ih hview hnew (directory_dropLast hhere)
    · have hnext := hview (here ++ [c])
      by_cases hmade : here ++ [c] ∈ made
      · rw [if_pos hmade] at hnext
        rw [hnext, hnew _ hmade]
        rw [ih hview hnew hnext]
        refine if_congr ?_ rfl rfl
        rw [List.mem_cons]
        constructor
        · exact Or.imp_right .inr
        · rintro (h | rfl | h)
          · exact .inl h
          · exact .inl hmade
          · exact .inr h
      · rw [if_neg hmade] at hnext
        rw [hnext]
        cases hget : t.get? (here ++ [c]) with
        | some n =>
          cases n with
          | directory => exact ih hview hnew (hnext.trans hget)
          | file content => simpa using hview q
        | none =>
          have hinsert (r : Place) := get?_insert (t := u) (p := here ++ [c]) (n := .directory)
            (by simp) (by rwa [List.dropLast_concat]) (.inl rfl) r
          have hview' : ∀ r, (u.insert (here ++ [c]) .directory).get? r =
              if r ∈ (here ++ [c]) :: made then some .directory else t.get? r := by
            intro r
            rw [hinsert, hview]
            simp only [List.mem_cons]
            split <;> simp [*]
          have hnew' : ∀ r ∈ (here ++ [c]) :: made, t.get? r = none := by
            simpa [hget] using hnew
          rw [ih hview' hnew' (by rw [hinsert, if_pos rfl])]
          refine if_congr ?_ rfl rfl
          rw [List.mem_cons, List.mem_cons, or_assoc, or_left_comm]

/-- **Exactly what is missing on the way is made** when directories are made, whether that succeeds
or stops half way. -/
theorem get?_makeDirs (hcwd : t.get? cwd.parts = some .directory)
    (hnul : p.parts.any Path.hasNul = false) (q : Place) :
    (t.makeDirs cwd p).2.get? q =
      if q ∈ t.missingOn (p.start cwd) p.parts then some .directory else t.get? q := by
  have hnew : ∀ r ∈ ([] : List Place), t.get? r = none := by simp
  rw [(makeDirs_eq hcwd hnul).1, get?_makeWay (by simp) hnew (directory_start hcwd p)]
  simp

/-- A path that cannot be one makes nothing. -/
theorem makeDirs_of_hasNul (hnul : p.parts.any Path.hasNul = true) : (t.makeDirs cwd p).2 = t := by
  have hlocate : t.locate cwd p = .error .badValue := if_pos hnul
  have hensure : t.ensureDir cwd p = .error .badValue := by
    rw [ensureDir, makeDir, hlocate]
  rw [makeDirs, hensure]

/-- **Without a double dot**, what is missing lies on the way down. -/
theorem prefix_of_mem_missingOn (hup : Path.up ∉ cs) (h : q ∈ t.missingOn here cs) :
    q <+: here ++ cs := by
  induction cs generalizing here with
  | nil => simp [missingOn] at h
  | cons c cs ih =>
    rw [List.mem_cons, not_or] at hup
    have hway : here ++ c :: cs = here ++ [c] ++ cs := by simp
    rw [missingOn, if_neg (Ne.symm hup.1)] at h
    rw [hway]
    split at h
    · exact ih hup.2 h
    · simp at h
    · rcases List.mem_cons.1 h with rfl | h
      · exact List.prefix_append _ _
      · exact ih hup.2 h

end FileTree

end DenoPackager
