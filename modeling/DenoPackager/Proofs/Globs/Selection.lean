import DenoPackager.Proofs.Rebuild.Finding

/-!
# What a pattern selects

Which files a pattern selects can be told from the names on the way to them, without a search: the
components of the pattern match the names one by one, but for two stars, which match any number of
them. The last name is that of a file, and is left for the component after the two stars.

A search goes through a tree step by step, and what each step comes upon is an entry or a directory.
It finds a file just if the pattern matches the way to it, since there are directories all the way
down to a file. The search has to be for a pattern that does not go up, and no name in the tree may
be a double dot: only then is everything found where the way to it leads.

## Main definitions

* `matchesWay`: whether components match the names on a way.
* `Matches`: the files that a pattern selects.

## Main results

* `mem_select_iff_matchesWay`: what steps find is what their components match.
* `mem_search_iff`: what a search finds.
-/

namespace DenoPackager

namespace FileTree

variable {t : FileTree} {p q : Place}

/-- What stands on the way to a file is a directory. -/
theorem isDirectoryAt_of_isFileAt (h : t.isFileAt (p ++ q) = true) (hq : q ≠ []) :
    t.isDirectoryAt p = true := by
  rw [isFileAt] at h
  split at h
  · rename_i content hfile
    rw [isDirectoryAt, get?_above hq hfile, decide_eq_true rfl]
  · simp at h

theorem isSome_of_isFileAt (h : t.isFileAt (p ++ q) = true) : (t.get? p).isSome := by
  by_cases hq : q = []
  · rw [hq, List.append_nil, isFileAt] at h
    split at h
    · rename_i content hfile
      rw [hfile]
      rfl
    · simp at h
  · have hdir := isDirectoryAt_of_isFileAt h hq
    rw [isDirectoryAt, decide_eq_true_eq] at hdir
    rw [hdir]
    rfl

theorem not_isFileAt_of_isDirectoryAt (h : t.isDirectoryAt p = true) : t.isFileAt p ≠ true := by
  rw [isDirectoryAt, decide_eq_true_eq] at h
  simp [isFileAt, h]

end FileTree

namespace Glob

/-! ### Names -/

theorem CharSet.contains_single {c d : Char} : (CharSet.single c).contains d = true ↔ d = c := by
  simp only [contains, single, List.any_cons, List.any_nil, Bool.or_false, ne_eq,
    decide_eq_true_eq, Bool.false_eq, decide_eq_false_iff_not, not_not]
  exact ⟨fun h => Char.le_antisymm h.2 h.1, fun h => h ▸ ⟨Char.le_refl _, Char.le_refl _⟩⟩

/-- A text that says no more than itself matches itself. -/
theorem matchesElements_of_plain {s name : List Char}
    (h : ∀ c ∈ s, c ≠ '*' ∧ c ≠ '?' ∧ c ≠ '[') :
    matchesElements (elements s) name = true ↔ name = s := by
  induction s generalizing name with
  | nil => rw [elements, matchesElements, List.isEmpty_iff]
  | cons c s ih =>
    obtain ⟨hstar, hmark, hbracket⟩ := h c List.mem_cons_self
    rw [elements, if_neg hstar, if_neg hmark, if_neg hbracket]
    cases name with
    | nil => simp [matchesElements]
    | cons d name =>
      rw [matchesElements, Bool.and_eq_true, CharSet.contains_single,
        ih fun c hc => h c (List.mem_cons_of_mem _ hc), List.cons.injEq]

theorem matchesElements_of_not_isWild {c name : String} (h : isWild c = false) :
    matchesElements (elements c.toList) name.toList = true ↔ name = c := by
  rw [matchesElements_of_plain fun d hd => ?_, String.toList_inj]
  simpa [not_or, and_assoc] using List.any_eq_false.1 h d hd

/-! ### Ways -/

/-- **Whether components match the names on the way to a file.** Two stars match any number of
names, but not the last one. -/
def matchesWay : List String → List String → Bool
  | [], names => names.isEmpty
  | _ :: _, [] => false
  | c :: cs, name :: names =>
    if c = "**" then matchesWay cs (name :: names) || matchesWay (c :: cs) names
    else matchesElements (elements c.toList) name.toList && matchesWay cs names
  termination_by cs names => cs.length + names.length

/-- **The files that a pattern selects**, by the way to them. A pattern with a slash at the end
selects directories only. -/
def Matches (pattern : List Char) (way : List String) : Prop :=
  pattern.getLast? ≠ some '/' ∧ matchesWay (Path.components pattern) way = true

instance (pattern : List Char) (way : List String) : Decidable (Matches pattern way) :=
  inferInstanceAs (Decidable (_ ∧ _))

theorem matchesWay_ne_nil {c : String} {cs names : List String}
    (h : matchesWay (c :: cs) names = true) : names ≠ [] := by
  rintro rfl
  simp [matchesWay] at h

/-! ### Steps -/

section Steps

variable {t : FileTree} {f g e : Found} {s : Selector} {ss rest : List Selector} {c name : String}
  {cs names : List String}

theorem Found.ahead_nil (f : Found) : f.ahead [] = f := by
  rw [ahead, List.append_nil, List.append_nil]

theorem Found.ahead_append (f : Found) (xs ys : List String) :
    f.ahead (xs ++ ys) = (f.ahead xs).ahead ys := by
  rw [ahead, ahead, ahead, List.append_assoc, List.append_assoc]

/-- Every step may go on from a directory. -/
theorem mayGoOn_of_isDirectoryAt (h : t.isDirectoryAt f.place = true) :
    mayGoOn t ss f = true := by
  cases ss with
  | nil =>
    rw [FileTree.isDirectoryAt, decide_eq_true_eq] at h
    rw [mayGoOn, h]
    rfl
  | cons s ss => exact h

/-- A directory is one of those from it on. -/
theorem mem_directoriesFrom_iff_ahead (hf : t.isDirectoryAt f.place = true) :
    e ∈ directoriesFrom t f ↔ ∃ p, t.isDirectoryAt (f.place ++ p) = true ∧ e = f.ahead p := by
  rw [mem_directoriesFrom_iff]
  constructor
  · rintro (rfl | ⟨p, -, hp, rfl⟩)
    · exact ⟨[], by rwa [List.append_nil], e.ahead_nil.symm⟩
    · exact ⟨p, decide_eq_true hp, rfl⟩
  · rintro ⟨p, hp, rfl⟩
    by_cases hnil : p = []
    · exact .inl (hnil ▸ f.ahead_nil)
    · exact .inr ⟨p, hnil, of_decide_eq_true hp, rfl⟩

/-- **A step from a directory** leads to where the next one may go on. -/
theorem mayGoOn_of_mem_advance (hf : t.isDirectoryAt f.place = true)
    (h : e ∈ advance t rest f s) : mayGoOn t rest e = true := by
  cases s with
  | itself => exact List.mem_singleton.1 h ▸ mayGoOn_of_isDirectoryAt hf
  | everyDirectory =>
    obtain ⟨p, hp, rfl⟩ := (mem_directoriesFrom_iff_ahead hf).1 h
    exact mayGoOn_of_isDirectoryAt hp
  | matching pattern => exact (List.mem_filter.1 h).2
  | named name => exact (List.mem_filter.1 h).2

/-- **A step by a component** on a given way: to the next name, if the component matches it. -/
theorem mem_advance_ofStep_iff (hc : c ≠ "**") (hname : name ≠ Path.up)
    (hthere : (t.get? (f.place ++ [name])).isSome) (hway : e.way <+: f.way ++ name :: names) :
    e ∈ advance t rest f (.ofStep c) ↔
      matchesElements (elements c.toList) name.toList = true ∧ mayGoOn t rest e = true ∧
        e = f.ahead [name] := by
  have hstep : f.step name = f.ahead [name] := if_neg hname
  -- no other name is on the way
  have honly {n : String} (hn : e = f.step n) : n = name := by
    rw [hn, f.way_step, List.prefix_append_right_inj, List.cons_prefix_cons] at hway
    exact hway.1
  rw [Selector.ofStep, if_neg hc]
  by_cases hwild : isWild c = true
  · rw [if_pos hwild, advance, List.mem_filter, List.mem_map, ← matchesName_eq]
    constructor
    · rintro ⟨⟨n, hn, he⟩, hgo⟩
      obtain rfl := honly he.symm
      exact ⟨(List.mem_filter.1 hn).2, hgo, he ▸ hstep⟩
    · rintro ⟨hmatch, hgo, rfl⟩
      exact ⟨⟨name, List.mem_filter.2 ⟨FileTree.mem_childNames.2 hthere, hmatch⟩, hstep⟩, hgo⟩
  · rw [if_neg hwild, advance, List.mem_filter, List.mem_singleton,
      matchesElements_of_not_isWild (Bool.eq_false_iff.2 hwild)]
    constructor
    · rintro ⟨he, hgo⟩
      obtain rfl := honly he
      exact ⟨rfl, hgo, he.trans hstep⟩
    · rintro ⟨rfl, hgo, he⟩
      exact ⟨he.trans hstep.symm, hgo⟩

theorem mem_select_everyDirectory_iff (hf : t.isDirectoryAt f.place = true) :
    g ∈ select t (.everyDirectory :: rest) [f] ↔
      ∃ p, t.isDirectoryAt (f.place ++ p) = true ∧ g ∈ select t rest [f.ahead p] := by
  rw [mem_select_cons_iff]
  constructor
  · rintro ⟨e, he, hg⟩
    obtain ⟨p, hp, rfl⟩ := (mem_directoriesFrom_iff_ahead hf).1 he
    exact ⟨p, hp, hg⟩
  · rintro ⟨p, hp, hg⟩
    exact ⟨_, (mem_directoriesFrom_iff_ahead hf).2 ⟨p, hp, rfl⟩, hg⟩

/-- **Two stars** on a given way match no more names, or the next one. -/
theorem mem_select_everyDirectory_cons_iff (hf : t.isDirectoryAt f.place = true) :
    f.ahead (name :: names) ∈ select t (.everyDirectory :: rest) [f] ↔
      f.ahead (name :: names) ∈ select t rest [f] ∨
        t.isDirectoryAt (f.place ++ [name]) = true ∧
          f.ahead (name :: names) ∈ select t (.everyDirectory :: rest) [f.ahead [name]] := by
  rw [mem_select_everyDirectory_iff hf]
  constructor
  · rintro ⟨p, hp, hg⟩
    cases p with
    | nil => exact .inl (by rwa [f.ahead_nil] at hg)
    | cons n p =>
      have hway : f.way ++ n :: p <+: f.way ++ name :: names := way_of_mem_select hg
      rw [List.prefix_append_right_inj, List.cons_prefix_cons] at hway
      obtain rfl := hway.1
      have hnext : t.isDirectoryAt (f.place ++ [n]) = true := by
        by_cases hnil : p = []
        · exact hnil ▸ hp
        · rw [FileTree.isDirectoryAt, decide_eq_true_eq] at hp ⊢
          exact FileTree.get?_above hnil (by rwa [List.append_assoc])
      refine .inr ⟨hnext, (mem_select_everyDirectory_iff hnext).2 ⟨p, ?_, ?_⟩⟩
      · rwa [Found.ahead, List.append_assoc]
      · rwa [← f.ahead_append]
  · rintro (hg | ⟨hnext, hg⟩)
    · exact ⟨[], by rwa [List.append_nil], by rwa [f.ahead_nil]⟩
    · obtain ⟨p, hp, hg⟩ := (mem_select_everyDirectory_iff hnext).1 hg
      rw [Found.ahead, List.append_assoc] at hp
      exact ⟨name :: p, hp, f.ahead_append [name] p ▸ hg⟩

/-- Where components match the rest of the way to a file, their steps may go on. -/
theorem mayGoOn_of_matchesWay (hfile : t.isFileAt (f.place ++ names) = true)
    (h : matchesWay cs names = true) : mayGoOn t (cs.map .ofStep) f = true := by
  cases cs with
  | nil => exact FileTree.isSome_of_isFileAt hfile
  | cons c cs => exact FileTree.isDirectoryAt_of_isFileAt hfile (matchesWay_ne_nil h)

/-- **What steps find on the way to a file** is what their components match. -/
theorem mem_select_iff_matchesWay (hnames : Path.up ∉ names)
    (hfile : t.isFileAt (f.place ++ names) = true) (hf : mayGoOn t (cs.map .ofStep) f = true) :
    f.ahead names ∈ select t (cs.map .ofStep) [f] ↔ matchesWay cs names = true := by
  fun_induction matchesWay cs names generalizing f with
  | case1 names =>
    rw [List.map_nil, select, List.mem_singleton, List.isEmpty_iff]
    refine ⟨fun h => ?_, fun h => h ▸ f.ahead_nil⟩
    exact List.append_right_eq_self.1 (congrArg Found.way h)
  | case2 c cs =>
    rw [List.append_nil] at hfile
    exact absurd hfile (FileTree.not_isFileAt_of_isDirectoryAt hf)
  | case3 cs name names ih ihmore =>
    have hdir : t.isDirectoryAt f.place = true := hf
    have hfile' : t.isFileAt ((f.ahead [name]).place ++ names) = true := by
      rwa [Found.ahead, List.append_assoc]
    have hmore := @ihmore (f.ahead [name]) (mt (List.mem_cons_of_mem name) hnames) hfile'
    rw [← f.ahead_append, List.map_cons, Selector.ofStep_stars] at hmore
    rw [Bool.or_eq_true, ← ih hnames hfile (mayGoOn_of_isDirectoryAt hdir), List.map_cons,
      Selector.ofStep_stars, mem_select_everyDirectory_cons_iff hdir]
    refine or_congr_right ⟨fun h => (hmore h.1).1 h.2, fun h => ?_⟩
    have hnext := FileTree.isDirectoryAt_of_isFileAt hfile' (matchesWay_ne_nil h)
    exact ⟨hnext, (hmore hnext).2 h⟩
  | case4 c cs name names hc ih =>
    have hfile' : t.isFileAt ((f.ahead [name]).place ++ names) = true := by
      rwa [Found.ahead, List.append_assoc]
    have hthere : (t.get? (f.place ++ [name])).isSome := FileTree.isSome_of_isFileAt hfile'
    rw [List.mem_cons, not_or] at hnames
    have hadvance {e : Found} (he : e.way <+: f.way ++ name :: names) :
        e ∈ advance t (cs.map .ofStep) f (.ofStep c) ↔ _ :=
      mem_advance_ofStep_iff hc (Ne.symm hnames.1) hthere he
    rw [Bool.and_eq_true, List.map_cons, mem_select_cons_iff]
    constructor
    · rintro ⟨e, he, hg⟩
      obtain ⟨hmatch, hgo, rfl⟩ := (hadvance (way_of_mem_select hg)).1 he
      exact ⟨hmatch, (ih hnames.2 hfile' hgo).1 (f.ahead_append [name] names ▸ hg)⟩
    · rintro ⟨hmatch, h⟩
      have hgo := mayGoOn_of_matchesWay hfile' h
      have hway : (f.ahead [name]).way <+: f.way ++ name :: names :=
        (List.prefix_append_right_inj _).2 ⟨names, rfl⟩
      refine ⟨_, (hadvance hway).2 ⟨hmatch, hgo, rfl⟩, ?_⟩
      exact f.ahead_append [name] names ▸ (ih hnames.2 hfile' hgo).2 h

/-- A slash at the end leaves directories only. -/
theorem isDirectoryAt_of_mem_select (hf : t.isDirectoryAt f.place = true)
    (h : g ∈ select t (ss ++ [.itself]) [f]) : t.isDirectoryAt g.place = true := by
  induction ss generalizing f with
  | nil =>
    obtain ⟨e, he, hg⟩ := mem_select_cons_iff.1 h
    obtain rfl := List.mem_singleton.1 he
    exact List.mem_singleton.1 hg ▸ hf
  | cons s ss ih =>
    obtain ⟨e, he, hg⟩ := mem_select_cons_iff.1 h
    refine ih ?_ hg
    have hgo := mayGoOn_of_mem_advance hf he
    cases ss with
    | nil => exact hgo
    | cons s ss => exact hgo

/-! ### Searching -/

variable {root : Place} {pattern : List Char}

/-- What is found below a directory is where the way to it leads. -/
theorem place_of_mem_select (ht : ∀ q, (t.get? q).isSome → Path.up ∉ q)
    (hss : .named Path.up ∉ ss) (h : g ∈ select t ss [⟨[], root⟩]) : g.place = root ++ g.way := by
  -- no way leads into a directory that is behind it
  have hstraight : g.Straight root (root ++ g.way ++ [Path.up]) :=
    straight_of_mem_select (fun q hq hmem => absurd hmem (ht q hq)) hss
      (.inr (List.append_nil root).symm) h
  refine hstraight.place_eq fun hprefix => ?_
  have hlength := hprefix.length_le
  rw [List.length_append, List.length_singleton] at hlength
  omega

/-- What is found of the files straight ahead is what the pattern selects. -/
theorem mem_select_iff_matches (ht : ∀ q, (t.get? q).isSome → Path.up ∉ q)
    (hroot : t.isDirectoryAt root = true) (hfile : t.isFileAt g.place = true)
    (hplace : g.place = root ++ g.way) :
    g ∈ select t ((Path.components pattern).map .ofStep ++ Selector.atEnd pattern) [⟨[], root⟩] ↔
      Matches pattern g.way := by
  by_cases hend : pattern.getLast? = some '/'
  · rw [Selector.atEnd, if_pos hend]
    refine iff_of_false (fun h => ?_) fun h => h.1 hend
    exact FileTree.not_isFileAt_of_isDirectoryAt (isDirectoryAt_of_mem_select hroot h) hfile
  · have hnames : Path.up ∉ g.way := fun hmem =>
      ht (root ++ g.way) (FileTree.isSome_of_isFileAt (by rwa [List.append_nil, ← hplace]))
        (List.mem_append_right root hmem)
    have hahead : g = Found.ahead ⟨[], root⟩ g.way := congrArg (Found.mk g.way) hplace
    have hgo : mayGoOn t ((Path.components pattern).map .ofStep) ⟨[], root⟩ = true :=
      mayGoOn_of_isDirectoryAt hroot
    rw [hplace] at hfile
    rw [Selector.atEnd, if_neg hend, List.append_nil, Matches, and_iff_right hend,
      ← mem_select_iff_matchesWay hnames hfile hgo, ← hahead]

/-- **What a search finds**: among the files, those that the pattern selects. -/
theorem mem_search_iff (ht : ∀ q, (t.get? q).isSome → Path.up ∉ q)
    (hup : Path.up ∉ Path.components pattern) {found : List Found}
    (hfound : search t root (String.ofList pattern) = .ok found)
    (hfile : t.isFileAt g.place = true) :
    g ∈ found ↔ g.place = root ++ g.way ∧ Matches pattern g.way := by
  obtain ⟨ss, hss, rfl⟩ := Except.map_eq_ok_iff.1 hfound
  have hnamed : .named Path.up ∉ ss := by
    intro hmem
    have hmem' := Selector.up_mem_of_ofPattern hss hmem
    rw [Path.ofString, String.toList_ofList] at hmem'
    exact hup hmem'
  obtain ⟨hglob, rfl⟩ := Selector.ofPattern_eq_ok_iff.1 hss
  by_cases hroot : t.isDirectoryAt root = true
  · rw [if_pos hroot]
    constructor
    · intro h
      have hplace := place_of_mem_select ht hnamed h
      exact ⟨hplace, (mem_select_iff_matches ht hroot hfile hplace).1 h⟩
    · rintro ⟨hplace, h⟩
      exact (mem_select_iff_matches ht hroot hfile hplace).2 h
  · rw [if_neg hroot]
    refine iff_of_false List.not_mem_nil ?_
    rintro ⟨hplace, -, hway⟩
    obtain ⟨c, cs, hcs⟩ := List.exists_cons_of_ne_nil hglob.components_ne_nil
    rw [hcs] at hway
    rw [hplace] at hfile
    exact hroot (FileTree.isDirectoryAt_of_isFileAt hfile (matchesWay_ne_nil hway))

end Steps

end Glob

end DenoPackager
