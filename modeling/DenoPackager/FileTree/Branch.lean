/-!
# Branches of a file tree

A branch is what hangs at a place of a file tree: a file with its bytes, or a directory with the
branches that hang directly below it, by their names. Nothing hangs below a file. Looking
something up and changing it follow the names on the way down, so either takes as long as the
way and the siblings along it, whatever else the tree holds.

## Main definitions

* `Branch.reach?`: the branch that hangs at a place, if any does.
* `Branch.alter`: what hangs at a place changed, and the directories on the way made if need be.
* `Branch.entries`: everything that stands in a branch.
* `Branch.Proper`: no two branches with one name hang directly below the same place.

## Main results

* `Branch.node_of_reach?_append`: whatever hangs somewhere hangs below a directory.
* `Branch.reach?_alter_append`, `Branch.reach?_alter_other`: what a change does to what is reached.
* `Branch.mem_entries`, `Branch.nodup_places`: what stands in a branch is listed, and listed once.
-/

namespace DenoPackager

/-- **A place** in a file tree: the names on the way down from the root. -/
abbrev Place := List String

/-- **What stands at a place.** -/
inductive Node where
  | directory
  | file (content : ByteArray)

instance : DecidableEq Node
  | .directory, .directory => isTrue rfl
  | .directory, .file _ => isFalse Node.noConfusion
  | .file _, .directory => isFalse Node.noConfusion
  | .file a, .file b =>
    if h : a.data = b.data then isTrue (congrArg Node.file (ByteArray.ext h))
    else isFalse fun he => h (congrArg ByteArray.data (Node.file.inj he))

namespace FileTree

/-- **A branch**: a file, or a directory with the branches directly below it. -/
inductive Branch where
  | file (content : ByteArray)
  | directory (branches : List (String × Branch))

namespace Branch

/-- The directory with nothing in it. -/
def bare : Branch := .directory []

/-- What stands at the foot of a branch. -/
def node : Branch → Node
  | .file content => .file content
  | .directory _ => .directory

/-- The branches directly below a branch; there are none below a file. -/
def branches : Branch → List (String × Branch)
  | .file _ => []
  | .directory es => es

/-- The branch of a name, if there is one. -/
def child? (b : Branch) (name : String) : Option Branch :=
  b.branches.lookup name

/-- **The branch at a place**, if there is one. -/
def reach? (b : Branch) : Place → Option Branch
  | [] => some b
  | name :: rest =>
    match b.child? name with
    | some c => c.reach? rest
    | none => none

/-- Branches with the one of a name replaced; a new name comes last. -/
def replace (name : String) (c : Branch) : List (String × Branch) → List (String × Branch)
  | [] => [(name, c)]
  | e :: es => if e.1 = name then (name, c) :: es else e :: replace name c es

/-- **A branch with the one of a name put in or taken out.** What gets a branch below it is a
directory from then on. -/
def put (b : Branch) (name : String) : Option Branch → Branch
  | some c => .directory (replace name c b.branches)
  | none =>
    match b with
    | .file content => .file content
    | .directory es => .directory (es.filter fun e => e.1 ≠ name)

/-- The same where there need not be a branch yet: it is made if something is to hang there. -/
def hang (name : String) : Option Branch → Option Branch → Option Branch
  | none, none => none
  | none, some c => some (bare.put name (some c))
  | some b, c => some (b.put name c)

/-- **What hangs at a place changed.** Directories that are missing on the way are made if
something is to hang there. -/
def alter (f : Option Branch → Option Branch) (b : Option Branch) : Place → Option Branch
  | [] => f b
  | name :: rest => hang name b (alter f (b.bind (·.child? name)) rest)

mutual

/-- **Everything that stands in a branch**, with the way to it. -/
def entries : Branch → List (Place × Node)
  | .file content => [([], .file content)]
  | .directory es => ([], .directory) :: entriesOf es
  termination_by structural b => b

/-- Everything that stands in several branches, with the way to it. -/
def entriesOf : List (String × Branch) → List (Place × Node)
  | [] => []
  | (name, c) :: es => (entries c).map (fun e => (name :: e.1, e.2)) ++ entriesOf es
  termination_by structural es => es

end

/-- **No name twice**: the branches directly below a place have different names, here and at
every place further down. -/
inductive Proper : Branch → Prop where
  | intro {b : Branch} (names : (b.branches.map Prod.fst).Nodup)
      (below : ∀ e ∈ b.branches, Proper e.2) : Proper b

/-! ### Reaching -/

theorem reach?_cons (b : Branch) (name : String) (rest : Place) :
    b.reach? (name :: rest) = (b.child? name).bind fun c => c.reach? rest := by
  cases h : b.child? name <;> simp [reach?, h]

theorem reach?_append (b : Branch) (p q : Place) :
    b.reach? (p ++ q) = (b.reach? p).bind fun c => c.reach? q := by
  induction p generalizing b with
  | nil => rfl
  | cons name rest ih =>
    rw [List.cons_append, reach?_cons, reach?_cons]
    cases b.child? name with
    | none => rfl
    | some c => exact ih c

/-- Below a file nothing is reached. -/
theorem reach?_file_cons (content : ByteArray) (name : String) (rest : Place) :
    (Branch.file content).reach? (name :: rest) = none := rfl

/-- **Whatever hangs somewhere hangs below a directory.** -/
theorem node_of_reach?_append {b c d : Branch} {p q : Place} (hq : q ≠ [])
    (hp : b.reach? p = some c) (h : b.reach? (p ++ q) = some d) : c.node = .directory := by
  cases c with
  | directory es => rfl
  | file content =>
    obtain ⟨name, rest, rfl⟩ := List.exists_cons_of_ne_nil hq
    rw [reach?_append, hp, Option.bind_some, reach?_file_cons] at h
    simp at h

/-! ### Changing -/

theorem lookup_replace (name m : String) (c : Branch) (es : List (String × Branch)) :
    (replace name c es).lookup m = if m = name then some c else es.lookup m := by
  induction es with
  | nil =>
    by_cases h : m = name
    · simp [replace, h]
    · have hb : (m == name) = false := by simp [h]
      simp only [replace, List.lookup_cons, hb, h, if_false, List.lookup_nil]
  | cons e es ih =>
    obtain ⟨k, b⟩ := e
    by_cases hk : k = name
    · by_cases h : m = name
      · simp [replace, hk, h]
      · have hb : (m == name) = false := by simp [h]
        simp only [replace, hk, if_true, List.lookup_cons, hb, h, if_false]
    · by_cases h : m = k
      · have hne : m ≠ name := fun he => hk (h ▸ he)
        simp [replace, hk, h]
      · have hb : (m == k) = false := by simp [h]
        simp only [replace, hk, if_false, List.lookup_cons, hb, ih]

theorem lookup_filter_ne (name m : String) (es : List (String × Branch)) :
    (es.filter fun e => e.1 ≠ name).lookup m = if m = name then none else es.lookup m := by
  induction es with
  | nil => simp
  | cons e es ih =>
    obtain ⟨k, b⟩ := e
    by_cases hk : k = name
    · have hdrop : ((k, b) :: es).filter (fun e => e.1 ≠ name) = es.filter fun e => e.1 ≠ name := by
        simp [hk]
      rw [hdrop, ih]
      by_cases h : m = name
      · simp [h]
      · have hb : (m == k) = false := by simp [hk, h]
        simp only [h, if_false, List.lookup_cons, hb]
    · have hkeep : ((k, b) :: es).filter (fun e => e.1 ≠ name) =
          (k, b) :: es.filter fun e => e.1 ≠ name := by
        simp [hk]
      rw [hkeep, List.lookup_cons, List.lookup_cons, ih]
      by_cases h : m = k
      · have hne : m ≠ name := fun he => hk (h ▸ he)
        simp [h, hk]
      · have hb : (m == k) = false := by simp [h]
        simp only [hb]

/-- What is under a name after it was put in or taken out. -/
theorem child?_put (b : Branch) (name m : String) (c : Option Branch) :
    (b.put name c).child? m = if m = name then c else b.child? m := by
  cases c with
  | some c => exact lookup_replace name m c b.branches
  | none =>
    cases b with
    | directory es => exact lookup_filter_ne name m es
    | file content => simp [put, child?, branches]

theorem child?_hang (name m : String) (b c : Option Branch) :
    (hang name b c).bind (·.child? m) = if m = name then c else b.bind (·.child? m) := by
  cases b with
  | some b => exact child?_put b name m c
  | none =>
    cases c with
    | some c => exact child?_put bare name m (some c)
    | none => simp [hang]

/-- The way to a place begins with its first name. -/
theorem bind_reach?_cons (b : Option Branch) (name : String) (rest : Place) :
    b.bind (·.reach? (name :: rest)) = (b.bind (·.child? name)).bind (·.reach? rest) := by
  cases b with
  | none => rfl
  | some d => exact reach?_cons d name rest

/-- **At and below the place** of a change hangs what the change made. -/
theorem reach?_alter_append (f : Option Branch → Option Branch) (b : Option Branch) (p q : Place) :
    (alter f b p).bind (·.reach? (p ++ q)) = (f (b.bind (·.reach? p))).bind (·.reach? q) := by
  induction p generalizing b with
  | nil => cases b <;> rfl
  | cons name rest ih =>
    rw [List.cons_append, bind_reach?_cons, alter, child?_hang, if_pos rfl, ih, bind_reach?_cons]

/-- What hangs at a place beside the way to a change is what hung there. -/
theorem reach?_alter_other {f : Option Branch → Option Branch} {b : Option Branch} {p q : Place}
    (hpq : ¬ p <+: q) (hqp : ¬ q <+: p) :
    (alter f b p).bind (·.reach? q) = b.bind (·.reach? q) := by
  induction p generalizing b q with
  | nil => exact absurd List.nil_prefix hpq
  | cons name rest ih =>
    cases q with
    | nil => exact absurd List.nil_prefix hqp
    | cons m more =>
      rw [bind_reach?_cons, bind_reach?_cons, alter, child?_hang]
      by_cases hm : m = name
      · subst hm
        rw [List.cons_prefix_cons] at hpq hqp
        rw [if_pos rfl]
        exact ih (fun h => hpq ⟨rfl, h⟩) (fun h => hqp ⟨rfl, h⟩)
      · rw [if_neg hm]

theorem node_put {b : Branch} (h : b.node = .directory) (name : String) (c : Option Branch) :
    (b.put name c).node = .directory := by
  cases c with
  | some c => rfl
  | none =>
    cases b with
    | directory es => rfl
    | file content => exact h

/-- A directory above a change is a directory afterwards. -/
theorem node_reach?_alter_above {f : Option Branch → Option Branch} {b : Option Branch}
    {p r : Place} (hr : r ≠ []) (h : (b.bind (·.reach? p)).map node = some .directory) :
    ((alter f b (p ++ r)).bind (·.reach? p)).map node = some .directory := by
  induction p generalizing b with
  | nil =>
    obtain ⟨name, rest, rfl⟩ := List.exists_cons_of_ne_nil hr
    cases b with
    | none => simp at h
    | some d =>
      simp only [Option.bind_some, reach?, Option.map_some, Option.some.injEq] at h
      exact congrArg some (node_put h name _)
  | cons name rest ih =>
    rw [bind_reach?_cons] at h
    rw [List.cons_append, bind_reach?_cons, alter, child?_hang, if_pos rfl]
    exact ih h

theorem alter_none {f : Option Branch → Option Branch} (hf : f none = none) (p : Place) :
    alter f none p = none := by
  induction p with
  | nil => exact hf
  | cons name rest ih =>
    rw [alter, Option.bind_none, ih]
    rfl

/-- A change that makes nothing out of nothing changes what stands nowhere but below its place. -/
theorem node_reach?_alter_other {f : Option Branch → Option Branch} (hf : f none = none)
    {b : Option Branch} {p q : Place} (hpq : ¬ p <+: q) :
    ((alter f b p).bind (·.reach? q)).map node = (b.bind (·.reach? q)).map node := by
  induction p generalizing b q with
  | nil => exact absurd List.nil_prefix hpq
  | cons name rest ih =>
    cases q with
    | nil =>
      match b with
      | none => rw [alter_none hf]
      | some (.directory es) => exact congrArg some (node_put rfl name _)
      | some (.file content) =>
        have hchild : alter f ((Branch.file content).child? name) rest = none := alter_none hf rest
        rw [alter, Option.bind_some, hchild]
        rfl
    | cons m more =>
      rw [bind_reach?_cons, bind_reach?_cons, alter, child?_hang]
      by_cases hm : m = name
      · subst hm
        rw [if_pos rfl]
        exact ih fun h => hpq (List.cons_prefix_cons.2 ⟨rfl, h⟩)
      · rw [if_neg hm]

/-! ### No name twice -/

theorem Proper.bare : Proper bare := .intro List.nodup_nil fun _ h => absurd h List.not_mem_nil

theorem Proper.file (content : ByteArray) : Proper (.file content) :=
  .intro List.nodup_nil fun _ h => absurd h List.not_mem_nil

theorem mem_of_lookup {es : List (String × Branch)} {name : String} {c : Branch}
    (h : es.lookup name = some c) : (name, c) ∈ es := by
  obtain ⟨_, _, he, _⟩ := List.lookup_eq_some_iff.1 h
  rw [he]
  simp

theorem lookup_of_mem {es : List (String × Branch)} {name : String} {c : Branch}
    (hn : (es.map Prod.fst).Nodup) (h : (name, c) ∈ es) : es.lookup name = some c := by
  induction es with
  | nil => simp at h
  | cons e es ih =>
    obtain ⟨k, b⟩ := e
    simp only [List.map_cons, List.nodup_cons] at hn
    rcases List.mem_cons.1 h with he | he
    · obtain ⟨rfl, rfl⟩ := Prod.mk.inj he
      simp
    · have hne : name ≠ k := fun hk => hn.1 (List.mem_map.2 ⟨(name, c), he, hk⟩)
      have hb : (name == k) = false := by simp [hne]
      simp only [List.lookup_cons, hb]
      exact ih hn.2 he

theorem Proper.child {b c : Branch} {name : String} (h : b.Proper) (hc : b.child? name = some c) :
    c.Proper := by
  obtain ⟨_, below⟩ := h
  exact below _ (mem_of_lookup hc)

theorem Proper.reach {b c : Branch} {p : Place} (h : b.Proper) (hc : b.reach? p = some c) :
    c.Proper := by
  induction p generalizing b with
  | nil =>
    obtain rfl : b = c := Option.some.inj hc
    exact h
  | cons name rest ih =>
    rw [reach?_cons, Option.bind_eq_some_iff] at hc
    obtain ⟨d, hd, hc⟩ := hc
    exact ih (h.child hd) hc

theorem mem_replace {name : String} {c : Branch} {es : List (String × Branch)}
    {e : String × Branch} (h : e ∈ replace name c es) : e = (name, c) ∨ e ∈ es := by
  induction es with
  | nil => simpa [replace] using h
  | cons d es ih =>
    simp only [replace] at h
    split at h
    · rcases List.mem_cons.1 h with h | h
      · exact .inl h
      · exact .inr (List.mem_cons_of_mem _ h)
    · rcases List.mem_cons.1 h with h | h
      · exact .inr (h ▸ List.mem_cons_self)
      · exact (ih h).imp_right (List.mem_cons_of_mem _)

theorem nodup_names_replace {name : String} {c : Branch} {es : List (String × Branch)}
    (h : (es.map Prod.fst).Nodup) : ((replace name c es).map Prod.fst).Nodup := by
  induction es with
  | nil => simp [replace]
  | cons e es ih =>
    simp only [List.map_cons, List.nodup_cons] at h
    by_cases hk : e.1 = name
    · simp only [replace, hk, if_true, List.map_cons, List.nodup_cons]
      exact hk ▸ h
    · simp only [replace, hk, if_false, List.map_cons, List.nodup_cons]
      refine ⟨fun hm => ?_, ih h.2⟩
      obtain ⟨d, hd, he⟩ := List.mem_map.1 hm
      rcases mem_replace hd with hd | hd
      · exact hk (by rw [← he, hd])
      · exact h.1 (he ▸ List.mem_map_of_mem hd)

theorem Proper.put {b : Branch} {name : String} {c : Option Branch} (h : b.Proper)
    (hc : ∀ d ∈ c, Proper d) : (b.put name c).Proper := by
  obtain ⟨names, below⟩ := h
  cases c with
  | some c =>
    refine .intro (nodup_names_replace names) fun e he => ?_
    rcases mem_replace he with he | he
    · exact he ▸ hc c rfl
    · exact below e he
  | none =>
    cases b with
    | file content => exact Proper.file content
    | directory es =>
      refine .intro (names.sublist (List.filter_sublist.map Prod.fst)) fun e he => ?_
      exact below e ((List.mem_filter.1 he).1)

theorem Proper.hang {name : String} {b c : Option Branch} (hb : ∀ d ∈ b, Proper d)
    (hc : ∀ d ∈ c, Proper d) : ∀ d ∈ hang name b c, Proper d := by
  cases b with
  | some b => exact fun d hd => Option.some.inj hd ▸ (hb b rfl).put hc
  | none =>
    cases c with
    | some c => exact fun d hd => Option.some.inj hd ▸ Proper.bare.put hc
    | none => exact hb

/-- **A change keeps names apart** if it does so where it is made. -/
theorem Proper.alter {f : Option Branch → Option Branch}
    (hf : ∀ b, (∀ d ∈ b, Proper d) → ∀ d ∈ f b, Proper d) {b : Option Branch}
    (h : ∀ d ∈ b, Proper d) (p : Place) : ∀ d ∈ alter f b p, Proper d := by
  induction p generalizing b with
  | nil => exact hf b h
  | cons name rest ih =>
    have hbelow : ∀ d ∈ b.bind (·.child? name), Proper d := by
      intro d hd
      obtain ⟨a, ha, hda⟩ := Option.bind_eq_some_iff.1 hd
      exact (h a ha).child hda
    exact Proper.hang h (ih hbelow)

/-! ### What stands in a branch -/

theorem mem_entriesOf {es : List (String × Branch)} {e : Place × Node} :
    e ∈ entriesOf es ↔ ∃ name c, (name, c) ∈ es ∧ ∃ d ∈ c.entries, (name :: d.1, d.2) = e := by
  induction es with
  | nil => simp [entriesOf]
  | cons x es ih =>
    obtain ⟨name, c⟩ := x
    simp only [entriesOf, List.mem_append, List.mem_map, ih, List.mem_cons]
    constructor
    · rintro (⟨d, hd, he⟩ | ⟨m, b, hm, h⟩)
      · exact ⟨name, c, .inl rfl, d, hd, he⟩
      · exact ⟨m, b, .inr hm, h⟩
    · rintro ⟨m, b, hm | hm, h⟩
      · obtain ⟨rfl, rfl⟩ := Prod.mk.inj hm
        exact .inl h
      · exact .inr ⟨m, b, hm, h⟩

/-- What stands in a branch stands at its foot or in one of the branches below. -/
theorem entries_eq (b : Branch) : b.entries = ([], b.node) :: entriesOf b.branches := by
  cases b <;> simp [entries, entriesOf, node, branches]

/-- **Nothing is left out**, and nothing else is listed. -/
theorem mem_entries {b : Branch} (h : b.Proper) (p : Place) (n : Node) :
    (p, n) ∈ b.entries ↔ (b.reach? p).map node = some n := by
  rw [entries_eq, List.mem_cons, mem_entriesOf]
  induction p generalizing b with
  | nil =>
    simp only [Prod.mk.injEq, true_and, reach?, Option.map_some, Option.some.injEq]
    constructor
    · rintro (h | ⟨_, _, _, _, _, he, _⟩)
      · exact h.symm
      · exact absurd he (List.cons_ne_nil _ _)
    · exact fun h => .inl h.symm
  | cons name rest ih =>
    rw [reach?_cons]
    constructor
    · rintro (he | ⟨m, c, hm, d, hd, he⟩)
      · simp at he
      · simp only [Prod.mk.injEq, List.cons.injEq] at he
        obtain ⟨⟨rfl, rfl⟩, rfl⟩ := he
        obtain ⟨names, below⟩ := h
        have hc : b.child? m = some c := lookup_of_mem names hm
        rw [entries_eq, List.mem_cons, mem_entriesOf] at hd
        rw [hc, Option.bind_some]
        exact (ih (below _ hm)).1 hd
    · intro hn
      cases hc : b.child? name with
      | none => simp [hc] at hn
      | some c =>
        rw [hc, Option.bind_some] at hn
        refine .inr ⟨name, c, mem_of_lookup hc, (rest, n), ?_, rfl⟩
        rw [entries_eq, List.mem_cons, mem_entriesOf]
        exact (ih (h.child hc)).2 hn

theorem nodup_placesOf {es : List (String × Branch)} (names : (es.map Prod.fst).Nodup)
    (h : ∀ e ∈ es, (e.2.entries.map Prod.fst).Nodup) : ((entriesOf es).map Prod.fst).Nodup := by
  induction es with
  | nil => simp [entriesOf]
  | cons x es ih =>
    obtain ⟨name, c⟩ := x
    simp only [List.map_cons, List.nodup_cons] at names
    simp only [entriesOf, List.map_append, List.map_map]
    refine List.nodup_append.2 ⟨?_, ih names.2 fun e he => h e (List.mem_cons_of_mem _ he), ?_⟩
    · have hc := h _ List.mem_cons_self
      have hmap : Prod.fst ∘ (fun e : Place × Node => (name :: e.1, e.2)) =
          (name :: ·) ∘ Prod.fst := rfl
      rw [hmap, ← List.map_map]
      exact List.Pairwise.map _ (fun _ _ hne he => hne (List.cons.inj he).2) hc
    · intro p hp q hq hpq
      obtain ⟨d, _, hd⟩ := List.mem_map.1 hp
      obtain ⟨e, he, heq⟩ := List.mem_map.1 hq
      obtain ⟨m, b, hm, d', _, hd'⟩ := mem_entriesOf.1 he
      subst hd'
      have hname : name = m := (List.cons.inj (hd.trans (hpq.trans heq.symm))).1
      exact names.1 (hname ▸ List.mem_map_of_mem hm)

/-- **Nothing is listed twice.** -/
theorem nodup_places {b : Branch} (h : b.Proper) : (b.entries.map Prod.fst).Nodup := by
  induction h with
  | @intro b names _ ih =>
    rw [entries_eq, List.map_cons, List.nodup_cons]
    refine ⟨fun hm => ?_, nodup_placesOf names ih⟩
    obtain ⟨e, he, hnil⟩ := List.mem_map.1 hm
    obtain ⟨m, c, _, d, _, hd⟩ := mem_entriesOf.1 he
    subst hd
    exact List.cons_ne_nil _ _ hnil

end Branch

end FileTree

end DenoPackager
