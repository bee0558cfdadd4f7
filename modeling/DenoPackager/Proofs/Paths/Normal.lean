import DenoPackager.Proofs.Paths.Text

/-!
# Normal forms

A normal form climbs first, by double dots, and goes down after that; below a root it does not climb
at all. What goes down may be added to a path before or after it is brought into normal form, and
climbing by as many double dots undoes it.

## Main definitions

* `Path.climbs`: how often a path climbs at first.
* `Path.Settled`: proper paths in which nothing is left to be resolved.

## Main results

* `Path.Settled.normal`: normal forms are settled.
* `Path.Settled.normal_eq`: a settled path is its own normal form.
* `Path.absolute_append`: what goes down stays at the end of a path.
* `Path.normalParts_climb`: climbing undoes the way down.
-/

namespace DenoPackager.Path

variable {absolute : Bool} {common climb down cs names stack : List String} {n : Nat} {p : Path}

/-! ### Going down and climbing -/

/-- Components without a double dot are put on the stack as they are. -/
theorem foldl_push_of_not_mem (h : up ∉ cs) :
    cs.foldl (push absolute) stack = cs.reverse ++ stack := by
  induction cs generalizing stack with
  | nil => rfl
  | cons c cs ih =>
    rw [List.mem_cons, not_or] at h
    have hpush : push absolute stack c = c :: stack := if_neg (Ne.symm h.1)
    rw [List.foldl_cons, hpush, ih h.2, List.reverse_cons, List.append_assoc,
      List.singleton_append]

/-- What has no double dot is appended to a normal form. -/
theorem normalParts_append (h : up ∉ down) :
    normalParts absolute (cs ++ down) = normalParts absolute cs ++ down := by
  rw [normalParts, List.foldl_append, foldl_push_of_not_mem h, List.reverse_append,
    List.reverse_reverse, normalParts]

/-- **Seen from a directory**, a way down stays at the end of a path. -/
theorem absolute_append {cwd : Path} {rel : List String} (hup : up ∉ rel) :
    ({ p with parts := p.parts ++ rel } : Path).absolute cwd =
      { p.absolute cwd with parts := (p.absolute cwd).parts ++ rel } := by
  have hseen : ({ p with parts := p.parts ++ rel } : Path).seenFrom cwd =
      { p.seenFrom cwd with parts := (p.seenFrom cwd).parts ++ rel } := by
    simp only [seenFrom, join]
    split <;> simp
  rw [Path.absolute, hseen, normal, normalParts_append hup]
  rfl

/-- Double dots take as many components off the stack. -/
theorem foldl_push_up (h : up ∉ climb) :
    (List.replicate climb.length up).foldl (push absolute) (climb ++ stack) = stack := by
  induction climb with
  | nil => rfl
  | cons c cs ih =>
    rw [List.mem_cons, not_or] at h
    have hpush : push absolute (c :: (cs ++ stack)) up = cs ++ stack := by
      rw [push, if_pos rfl]
      exact if_neg (Ne.symm h.1)
    rw [List.length_cons, List.replicate_succ, List.foldl_cons, List.cons_append, hpush, ih h.2]

/-- **Climbing undoes the way down.** -/
theorem normalParts_climb (hclimb : up ∉ common ++ climb) (hdown : up ∉ down) :
    normalParts absolute (common ++ climb ++ (List.replicate climb.length up ++ down)) =
      common ++ down := by
  have hback : (List.replicate climb.length up).foldl (push absolute)
      (climb.reverse ++ common.reverse) = common.reverse := by
    rw [← List.length_reverse]
    exact foldl_push_up fun h => hclimb (List.mem_append_right _ (List.mem_reverse.1 h))
  rw [← List.append_assoc, normalParts_append hdown, normalParts, List.foldl_append,
    foldl_push_of_not_mem hclimb, List.append_nil, List.reverse_append, hback,
    List.reverse_reverse]

/-! ### How often a path climbs -/

/-- **How often a path climbs** before it goes down. -/
def climbs (p : Path) : Nat :=
  (p.parts.takeWhile (· = up)).length

theorem climbs_of_parts (hparts : p.parts = List.replicate n up ++ names) (hup : up ∉ names) :
    p.climbs = n := by
  have hnone : names.takeWhile (· = up) = [] := by
    cases names with
    | nil => rfl
    | cons c cs =>
      rw [List.mem_cons, not_or] at hup
      exact List.takeWhile_cons_of_neg (by simpa using Ne.symm hup.1)
  rw [climbs, hparts, List.takeWhile_append_of_pos (by simp), hnone, List.append_nil,
    List.length_replicate]

/-- **Settled paths**: proper paths that climb first and go down after that, and do not climb at all
below a root. -/
structure Settled (p : Path) : Prop where
  proper : p.Proper
  climbs_first : ∃ names, p.parts = List.replicate p.climbs up ++ names ∧ up ∉ names
  climbs_eq_zero : p.isAbsolute = true → p.climbs = 0

/-- **What follows a start of a settled path** does not climb exactly if the start climbs as often as
the path. -/
theorem Settled.up_not_mem_rest_iff {start : Path} {rest : List String} (h : p.Settled)
    (hparts : p.parts = start.parts ++ rest) : up ∉ rest ↔ p.climbs = start.climbs := by
  obtain ⟨names, hnames, hup⟩ := h.climbs_first
  rw [hparts] at hnames
  rcases List.append_eq_append_iff.1 hnames with ⟨more, hclimb, hrest⟩ | ⟨front, hstart, hback⟩
  -- the path climbs further than the start does
  · obtain ⟨hlength, hstart, hmore⟩ := List.append_eq_replicate_iff.1 hclimb.symm
    have hclimbs : start.climbs = start.parts.length := by
      refine climbs_of_parts (Eq.trans ?_ (List.append_nil _).symm) List.not_mem_nil
      rw [← hstart]
    rw [hrest, hclimbs, List.mem_append, not_or, hmore, List.mem_replicate]
    constructor
    · rintro ⟨hnone, -⟩
      have hzero : more.length = 0 := by simpa using hnone
      omega
    · intro heq
      have hzero : more.length = 0 := by omega
      exact ⟨fun hmem => hmem.1 hzero, hup⟩
  -- the start goes down already
  · rw [hback, List.mem_append, not_or] at hup
    rw [climbs_of_parts hstart hup.1]
    exact ⟨fun _ => rfl, fun _ => hup.2⟩

theorem Settled.up_not_mem (h : p.Settled) (habs : p.isAbsolute = true) : up ∉ p.parts := by
  obtain ⟨names, hparts, hup⟩ := h.climbs_first
  rw [hparts, h.climbs_eq_zero habs]
  exact hup

/-- What is put on a stack of names above double dots leaves such a stack. -/
theorem exists_push (absolute : Bool) (n : Nat) (h : up ∉ names) (c : String) :
    ∃ names' n', push absolute (names ++ List.replicate n up) c =
      names' ++ List.replicate n' up ∧ up ∉ names' := by
  simp only [push]
  split
  · cases names with
    | nil =>
      cases n with
      | zero =>
        cases absolute with
        | false => exact ⟨[], 1, rfl, List.not_mem_nil⟩
        | true => exact ⟨[], 0, rfl, List.not_mem_nil⟩
      | succ n => exact ⟨[], n + 2, if_pos rfl, List.not_mem_nil⟩
    | cons name names =>
      rw [List.mem_cons, not_or] at h
      exact ⟨names, n, if_neg (Ne.symm h.1), h.2⟩
  · rename_i hc
    refine ⟨c :: names, n, rfl, ?_⟩
    rw [List.mem_cons, not_or]
    exact ⟨Ne.symm hc, h⟩

theorem exists_foldl_push (absolute : Bool) (n : Nat) (h : up ∉ names) (cs : List String) :
    ∃ names' n', cs.foldl (push absolute) (names ++ List.replicate n up) =
      names' ++ List.replicate n' up ∧ up ∉ names' := by
  induction cs generalizing names n with
  | nil => exact ⟨names, n, rfl, h⟩
  | cons c cs ih =>
    obtain ⟨names', n', hpush, h'⟩ := exists_push absolute n h c
    rw [List.foldl_cons, hpush]
    exact ih n' h'

/-- **A normal form climbs first** and goes down after that. -/
theorem normalParts_climbs_first (absolute : Bool) (parts : List String) :
    ∃ n names, normalParts absolute parts = List.replicate n up ++ names ∧ up ∉ names := by
  obtain ⟨names, n, hfold, hup⟩ := exists_foldl_push absolute 0 List.not_mem_nil parts
  refine ⟨n, names.reverse, ?_, fun hmem => hup (List.mem_reverse.1 hmem)⟩
  rw [normalParts, ← List.reverse_replicate, ← List.reverse_append, ← hfold]
  rfl

/-- **The normal form** of a proper path is settled. -/
theorem Settled.normal (hp : p.Proper) : p.normal.Settled := by
  obtain ⟨n, names, hparts, hup⟩ := normalParts_climbs_first p.isAbsolute p.parts
  have hclimbs : p.normal.climbs = n := climbs_of_parts hparts hup
  refine ⟨hp.normal, ⟨names, hclimbs ▸ hparts, hup⟩, fun habs => ?_⟩
  -- below a root no double dot is left
  have habsolute : p.isAbsolute = true := habs
  have hnone := normalParts_absolute p.parts
  rw [← habsolute, hparts] at hnone
  rw [hclimbs]
  cases n with
  | zero => rfl
  | succ n => exact absurd List.mem_cons_self hnone

/-- Double dots stay where nothing bounds them. -/
theorem normalParts_replicate_up (n : Nat) :
    normalParts false (List.replicate n up) = List.replicate n up := by
  have hfold (m : Nat) : (List.replicate n up).foldl (push false) (List.replicate m up) =
      List.replicate (n + m) up := by
    induction n generalizing m with
    | zero => rw [Nat.zero_add, List.replicate_zero, List.foldl_nil]
    | succ n ih =>
      have hpush : push false (List.replicate m up) up = List.replicate (m + 1) up := by
        cases m <;> simp [push, List.replicate_succ]
      rw [List.replicate_succ, List.foldl_cons, hpush, ih, Nat.succ_add_eq_add_succ]
  have hstart := hfold 0
  rw [List.replicate_zero, Nat.add_zero] at hstart
  rw [normalParts, hstart, List.reverse_replicate]

/-- **A settled path** is its own normal form. -/
theorem Settled.normal_eq (h : p.Settled) : p.normal = p := by
  obtain ⟨names, hparts, hup⟩ := h.climbs_first
  have hnormal : normalParts p.isAbsolute p.parts = p.parts := by
    rw [hparts, normalParts_append hup]
    cases habs : p.isAbsolute with
    | false => rw [normalParts_replicate_up]
    | true =>
      rw [h.climbs_eq_zero habs]
      rfl
  rw [Path.normal, hnormal]

/-! ### Absolute paths -/

/-- What is joined to an absolute path is absolute. -/
theorem isAbsolute_join (h : p.isAbsolute = true) (q : Path) : (p.join q).isAbsolute = true := by
  rw [join]
  split
  · exact h
  · rename_i hroot
    exact decide_eq_true hroot

theorem isAbsolute_rooted (p : Path) : p.rooted.isAbsolute = true :=
  isAbsolute_join rfl p

theorem Proper.rooted (h : p.Proper) : p.rooted.Proper :=
  Proper.join (fun _ hc => absurd hc List.not_mem_nil) h

end DenoPackager.Path
