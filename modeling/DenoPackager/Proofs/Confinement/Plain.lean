import DenoPackager.Proofs.Files.Run

/-!
# Plain places

What is put into a file tree by path stands at a place whose names come from the path and from the
current directory. Walking takes the double dots away, so the names at such a place are plain: they
can be components of a path, and none of them leads up. A directory that was empty at some time has
only plain names below it from then on.

## Main definitions

* `PlainPlace`: places with plain names.
* `FileTree.Lasting`: properties of trees that outlast changes at plain places.
* `FileTree.PlainBelow`: trees in which everything below a place has a plain name.

## Main results

* `FileTree.plain_of_locate`: a path leads to a plain place.
* `Lasting.makeDirs`, `Lasting.write`: what changes by path keep.
* `lasting_plainBelow`, `plainBelow_insert`: where names are plain, and that they stay so.
-/

namespace DenoPackager

open DenoPackager.Path (ProperPart)

/-- **Plain places**: each name can be a component of a path, and none is a double dot. -/
def PlainPlace (q : Place) : Prop :=
  ∀ c ∈ q, ProperPart c ∧ c ≠ Path.up

instance (q : Place) : Decidable (PlainPlace q) :=
  inferInstanceAs (Decidable (∀ c ∈ q, _))

namespace PlainPlace

variable {p q : Place}

theorem up_not_mem (h : PlainPlace q) : Path.up ∉ q :=
  fun hmem => (h _ hmem).2 rfl

theorem subset (h : PlainPlace q) (hp : p ⊆ q) : PlainPlace p :=
  fun c hc => h c (hp hc)

theorem append (hp : PlainPlace p) (hq : PlainPlace q) : PlainPlace (p ++ q) := by
  intro c hc
  rcases List.mem_append.1 hc with hc | hc
  · exact hp c hc
  · exact hq c hc

end PlainPlace

/-- A fresh name is plain if what it starts with is longer than a double dot and has no slash. -/
theorem plain_freshName (names : List String) {start : String} (hlen : 2 < start.length)
    (hslash : '/' ∉ start.toList) : PlainPlace [freshName names start] := by
  have hends : ∃ more, freshName names start = start ++ more ∧ '/' ∉ more.toList := by
    rw [freshName]
    split
    · refine ⟨_, rfl, fun hmem => ?_⟩
      rw [String.toList_ofList] at hmem
      exact absurd (List.eq_of_mem_replicate hmem) (by decide)
    · exact ⟨_, rfl, by decide⟩
  obtain ⟨more, hmore, hrest⟩ := hends
  have hlong : 2 < (freshName names start).length := by
    rw [hmore, String.length_append]
    omega
  intro c hc
  rw [List.mem_singleton.1 hc]
  refine ⟨⟨fun heq => ?_, fun heq => ?_, ?_⟩, fun heq => ?_⟩
  · exact absurd (heq ▸ hlong) (by decide)
  · exact absurd (heq ▸ hlong) (by decide)
  · rw [hmore, String.toList_append, List.mem_append, not_or]
    exact ⟨hslash, hrest⟩
  · exact absurd (heq ▸ hlong) (by decide)

namespace FileTree

variable {t u : FileTree} {cwd p : Path} {here dir q r : Place} {cs : List String} {n : Node}

/-! ### Where paths lead -/

/-- A step from a plain place to a name leads to one. -/
theorem plain_concat {c : String} (hq : PlainPlace q) (hproper : ProperPart c)
    (hup : c ≠ Path.up) : PlainPlace (q ++ [c]) := by
  refine hq.append fun d hd => ?_
  rw [List.mem_singleton.1 hd]
  exact ⟨hproper, hup⟩

/-- Walking from a plain place leads to one. -/
theorem plain_of_enter (hhere : PlainPlace here) (hcs : ∀ c ∈ cs, ProperPart c)
    (h : t.enter here cs = .ok dir) : PlainPlace dir :=
  enter_induction hhere (fun q hq => hq.subset (List.dropLast_subset q))
    (fun _ c hc hup _ hq => plain_concat hq (hcs c hc) hup) h

theorem plain_start (hcwd : PlainPlace cwd.parts) (p : Path) : PlainPlace (p.start cwd) := by
  rw [Path.start]
  split
  · exact hcwd
  · exact fun _ hc => absurd hc List.not_mem_nil

/-- **A path leads to a plain place**, whatever is there. -/
theorem plain_of_locate (hcwd : PlainPlace cwd.parts) (hp : p.Proper) {found : Option Node}
    (h : t.locate cwd p = .ok (q, found)) : PlainPlace q := by
  obtain ⟨-, ⟨-, hfound⟩ | ⟨cs, c, dir, hparts, henter, hfound⟩⟩ := locate_eq_ok_iff.1 h
  · exact (Prod.mk.inj hfound).1 ▸ plain_start hcwd p
  · have hproper (d : String) (hd : d ∈ cs ++ [c]) : ProperPart d := hp d (hparts ▸ hd)
    have hdir := plain_of_enter (plain_start hcwd p)
      (fun d hd => hproper d (List.mem_append_left _ hd)) henter
    rw [lastStep] at hfound
    split at hfound
    · rw [(Prod.mk.inj hfound).1]
      exact hdir.subset (List.dropLast_subset dir)
    · rename_i hup
      rw [(Prod.mk.inj hfound).1]
      exact plain_concat hdir (hproper c (by simp)) hup

/-! ### Changes at plain places -/

/-- **Properties of trees that last**, whatever is put at plain places and whatever is taken
away. -/
structure Lasting (T : FileTree → Prop) : Prop where
  insert : ∀ {t q n}, T t → PlainPlace q → T (t.insert q n)
  erase : ∀ {t q}, T t → T (t.erase q)

theorem lasting_true : Lasting fun _ => True :=
  ⟨fun _ _ => trivial, fun _ => trivial⟩

namespace Lasting

variable {T : FileTree → Prop}

theorem ensureDir (hT : Lasting T) (hcwd : PlainPlace cwd.parts) (hp : p.Proper) (ht : T t)
    (h : t.ensureDir cwd p = .ok u) : T u := by
  rw [FileTree.ensureDir] at h
  split at h
  · rename_i made hmade
    obtain rfl := Except.ok.inj h
    obtain ⟨q, hlocate, rfl⟩ := makeDir_eq_ok hmade
    exact hT.insert ht (plain_of_locate hcwd hp hlocate)
  · split at h
    · exact Except.ok.inj h ▸ ht
    · simp at h
  · simp at h

/-- **Making directories**, even if it stops half way. -/
theorem makeDirs (hT : Lasting T) (hcwd : PlainPlace cwd.parts) (hp : p.Proper) (ht : T t) :
    T (t.makeDirs cwd p).2 := by
  fun_induction FileTree.makeDirs t cwd p with
  | case1 p u hmade => exact hT.ensureDir hcwd hp ht hmade
  | case2 p hmissing hnil => exact ht
  | case3 p hmissing hne e u habove ih =>
    rw [habove] at ih
    exact ih hp.parent
  | case4 p hmissing hne u habove v hmade ih =>
    rw [habove] at ih
    exact hT.ensureDir hcwd hp (ih hp.parent) hmade
  | case5 p hmissing hne u habove e hfailed ih =>
    rw [habove] at ih
    exact ih hp.parent
  | case6 p e hother hfailed => exact ht

/-- **Writing a file.** -/
theorem write (hT : Lasting T) (hcwd : PlainPlace cwd.parts) (hp : p.Proper) (ht : T t)
    {content : ByteArray} (h : t.write cwd p content = .ok u) : T u := by
  obtain ⟨q, found, hlocate, rfl⟩ := write_eq_ok h
  exact hT.insert ht (plain_of_locate hcwd hp hlocate)

/-- **Removing a file.** -/
theorem remove (hT : Lasting T) (ht : T t) {s : String} (h : t.remove cwd s = .ok u) : T u := by
  obtain ⟨q, -, -, rfl⟩ := remove_eq_ok h
  exact hT.erase ht

end Lasting

/-! ### Names below a place -/

/-- **Plain names below a place**: whatever stands there has one. -/
def PlainBelow (q : Place) (t : FileTree) : Prop :=
  ∀ r, (t.get? (q ++ r)).isSome → PlainPlace r

theorem Branch.reach?_bare_cons (name : String) (rest : Place) :
    Branch.bare.reach? (name :: rest) = none := rfl

/-- What stands somewhere after something was put at a place stood there before, or stands on the
way to that place. -/
theorem isSome_of_insert (h : ((t.insert q n).get? r).isSome) : (t.get? r).isSome ∨ r <+: q := by
  by_cases hrq : r <+: q
  · exact .inr hrq
  left
  by_cases hnil : q = []
  · subst hnil
    exact h
  by_cases hqr : q <+: r
  · obtain ⟨more, rfl⟩ := hqr
    have hmore : more ≠ [] := fun heq => hrq (by simp [heq])
    obtain ⟨name, rest, rfl⟩ := List.exists_cons_of_ne_nil hmore
    rw [insert, get?_change_append hnil] at h
    rw [get?_append]
    -- only a directory that was there before has something below it
    cases n with
    | file content => exact absurd h (by simp [place, Branch.reach?_file_cons])
    | directory =>
      cases hb : t.root.reach? q with
      | none => exact absurd h (by simp [hb, place, Branch.reach?_bare_cons])
      | some b =>
        cases b with
        | file content => exact absurd h (by simp [hb, place, Branch.reach?_bare_cons])
        | directory es =>
          rw [hb] at h
          exact h
  · rw [get?, insert, reach?_change hnil, Branch.reach?_alter_other hqr hrq] at h
    exact h

/-- **Plain names stay plain.** -/
theorem lasting_plainBelow (q : Place) : Lasting (PlainBelow q) := by
  refine ⟨fun {t p n} ht hp r hr => ?_, fun {t p} ht r hr => ?_⟩
  · rcases isSome_of_insert hr with hr | hpre
    · exact ht r hr
    · exact hp.subset fun c hc => hpre.subset (List.mem_append_right q hc)
  · by_cases hnil : p = []
    · subst hnil
      exact ht r hr
    · rw [get?_erase hnil] at hr
      split at hr
      · simp at hr
      · exact ht r hr

/-- **Where nothing stood**, nothing stands below a directory that is made. -/
theorem plainBelow_insert (hfree : t.get? q = none) : (t.insert q .directory).PlainBelow q := by
  intro r hr
  rcases isSome_of_insert hr with hr | hpre
  · rw [get?_eq_none_below hfree (List.prefix_append q r)] at hr
    simp at hr
  · obtain rfl : r = [] := List.append_right_eq_self.1 (hpre.eq_of_length_le (by simp))
    exact fun _ hc => absurd hc List.not_mem_nil

end FileTree

end DenoPackager
