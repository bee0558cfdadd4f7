import DenoPackager.FileTree.Branch
import DenoPackager.Path.Normal
import DenoPackager.Path.Order

/-!
# File trees

A file tree says what stands at each place below the root: a directory, a file with its bytes,
or nothing. A place is the list of names on the way down; the root itself is always a
directory, and whatever stands at a place stands in a directory.

Everything else looks at a tree through `get?`, and the lists of what stands below a place are
lists of what `get?` finds there.

## Main results

* `get?_above`: whatever stands at a place stands below directories only.
* `get?_insert`, `get?_insert_free`, `get?_erase`: what a change does to the view.
* `mem_entriesFrom`, `mem_childNames`, `mem_filesBelow`: the lists name what is there, and nothing
  else.
-/

namespace DenoPackager

/-- **File trees**: a directory with no name twice below a place. -/
structure FileTree where
  root : FileTree.Branch
  proper : root.Proper
  node_root : root.node = .directory

namespace FileTree

/-- The tree with nothing in it but the root. -/
def empty : FileTree where
  root := .bare
  proper := .bare
  node_root := rfl

/-- **What stands at a place.** -/
def get? (t : FileTree) (p : Place) : Option Node :=
  (t.root.reach? p).map Branch.node

/-- The tree with what hangs at a place changed; the root is not to be changed. -/
def change (t : FileTree) (f : Option Branch → Option Branch)
    (hf : ∀ b, (∀ d ∈ b, Branch.Proper d) → ∀ d ∈ f b, Branch.Proper d) : Place → FileTree
  | [] => t
  | name :: rest =>
    { root := t.root.put name (Branch.alter f (t.root.child? name) rest)
      proper := t.proper.put (Branch.Proper.alter hf (fun _ hd => t.proper.child hd) rest)
      node_root := Branch.node_put t.node_root name _ }

/-- What hangs at a place after a node was put there: a directory keeps what is in it. -/
def place (n : Node) (b : Option Branch) : Option Branch :=
  match n, b with
  | .file content, _ => some (.file content)
  | .directory, some (.directory es) => some (.directory es)
  | .directory, _ => some .bare

theorem proper_place (n : Node) (b : Option Branch) (h : ∀ d ∈ b, Branch.Proper d) :
    ∀ d ∈ place n b, Branch.Proper d := by
  intro d hd
  cases n with
  | file content => exact Option.some.inj hd ▸ Branch.Proper.file content
  | directory =>
    match b, h, hd with
    | none, _, hd => exact Option.some.inj hd ▸ Branch.Proper.bare
    | some (.file _), _, hd => exact Option.some.inj hd ▸ Branch.Proper.bare
    | some (.directory es), h, hd => exact h d hd

/-- **The tree with a node put at a place** below the root. What is missing on the way is made. -/
def insert (t : FileTree) (p : Place) (n : Node) : FileTree :=
  t.change (place n) (proper_place n) p

/-- **The tree without a place** below the root and everything below it. -/
def erase (t : FileTree) (p : Place) : FileTree :=
  t.change (fun _ => none) (fun _ _ d hd => by simp at hd) p

/-- Whether a directory stands at a place. -/
def isDirectoryAt (t : FileTree) (p : Place) : Bool :=
  t.get? p = some .directory

/-- Whether a file stands at a place. -/
def isFileAt (t : FileTree) (p : Place) : Bool :=
  match t.get? p with
  | some (.file _) => true
  | _ => false

/-- **What stands at a place and below it**, with the way from there. -/
def entriesFrom (t : FileTree) (dir : Place) : List (Place × Node) :=
  ((t.root.reach? dir).map Branch.entries).getD []

/-- The names of what stands directly below a directory. -/
def childNames (t : FileTree) (dir : Place) : List String :=
  (((t.root.reach? dir).map Branch.branches).getD []).map Prod.fst

/-- The places of the files below a directory, seen from there, in ascending order. -/
def filesBelow (t : FileTree) (dir : Place) : List Place :=
  let places := (t.entriesFrom dir).filterMap fun e =>
    match e.2 with
    | .file _ => some e.1
    | .directory => none
  places.mergeSort Path.namesLe

/-! ### What stands above -/

@[simp] theorem get?_nil (t : FileTree) : t.get? [] = some .directory :=
  congrArg some t.node_root

theorem isFileAt_eq_true_iff {t : FileTree} {p : Place} :
    t.isFileAt p = true ↔ ∃ content, t.get? p = some (.file content) := by
  rw [isFileAt]
  split
  · rename_i content hget
    exact ⟨fun _ => ⟨content, hget⟩, fun _ => rfl⟩
  · rename_i hnone
    refine ⟨fun h => absurd h Bool.false_ne_true, ?_⟩
    rintro ⟨content, hget⟩
    exact absurd hget (hnone content)

/-- What is reached on the way to a place, if anything stands there. -/
theorem get?_append (t : FileTree) (p q : Place) :
    t.get? (p ++ q) = (t.root.reach? p).bind fun b => (b.reach? q).map Branch.node := by
  rw [get?, Branch.reach?_append, Option.map_bind]
  rfl

/-- **Whatever stands at a place stands in a directory**, and so does that directory. -/
theorem get?_above {t : FileTree} {p q : Place} {n : Node} (hq : q ≠ [])
    (h : t.get? (p ++ q) = some n) : t.get? p = some .directory := by
  rw [get?, Option.map_eq_some_iff] at h
  obtain ⟨d, hd, -⟩ := h
  have hd' := hd
  rw [Branch.reach?_append, Option.bind_eq_some_iff] at hd'
  obtain ⟨c, hc, -⟩ := hd'
  rw [get?, hc, Option.map_some, Branch.node_of_reach?_append hq hc hd]

/-- Nothing stands below a file, or below nothing. -/
theorem get?_below {t : FileTree} {p q : Place} (hq : q ≠ [])
    (h : t.get? p ≠ some .directory) : t.get? (p ++ q) = none := by
  cases hg : t.get? (p ++ q) with
  | none => rfl
  | some n => exact absurd (get?_above hq hg) h

/-- Whatever a directory stands in is a directory. -/
theorem directory_above {t : FileTree} {p q : Place} (h : t.get? p = some .directory)
    (hq : q <+: p) : t.get? q = some .directory := by
  obtain ⟨rest, rfl⟩ := hq
  by_cases hrest : rest = []
  · rwa [hrest, List.append_nil] at h
  · exact get?_above hrest h

/-- Below an empty place nothing stands. -/
theorem get?_eq_none_below {t : FileTree} {p q : Place} (h : t.get? p = none) (hq : p <+: q) :
    t.get? q = none := by
  obtain ⟨rest, rfl⟩ := hq
  by_cases hrest : rest = []
  · rwa [hrest, List.append_nil]
  · exact get?_below hrest (by simp [h])

/-! ### What a change does to the view -/

section

variable {t : FileTree} {f : Option Branch → Option Branch}
  {hf : ∀ b, (∀ d ∈ b, Branch.Proper d) → ∀ d ∈ f b, Branch.Proper d} {p : Place}

/-- A change of a tree is a change of its root. -/
theorem reach?_change (hp : p ≠ []) (q : Place) :
    (t.change f hf p).root.reach? q = (Branch.alter f (some t.root) p).bind (·.reach? q) := by
  obtain ⟨name, rest, rfl⟩ := List.exists_cons_of_ne_nil hp
  rfl

theorem get?_change_append (hp : p ≠ []) (q : Place) :
    (t.change f hf p).get? (p ++ q) =
      ((f (t.root.reach? p)).bind (·.reach? q)).map Branch.node := by
  rw [get?, reach?_change hp, Branch.reach?_alter_append]
  rfl

/-- A change below a directory leaves all other places alone. -/
theorem get?_change_other (hp : p ≠ []) (hdir : t.get? p.dropLast = some .directory) {q : Place}
    (hq : ¬ p <+: q) : (t.change f hf p).get? q = t.get? q := by
  by_cases hqp : q <+: p
  · obtain ⟨r, rfl⟩ := hqp
    have hr : r ≠ [] := fun hr => hq (by simp [hr])
    have habove : t.get? q = some .directory := by
      rw [List.dropLast_append_of_ne_nil hr] at hdir
      by_cases hl : r.dropLast = []
      · rwa [hl, List.append_nil] at hdir
      · exact get?_above hl hdir
    rw [habove, get?, reach?_change hp]
    exact Branch.node_reach?_alter_above hr habove
  · rw [get?, reach?_change hp, Branch.reach?_alter_other hq hqp]
    rfl

end

/-- What was put at a place stands there. -/
theorem get?_insert_self {t : FileTree} {p : Place} {n : Node} (hp : p ≠ []) :
    (t.insert p n).get? p = some n := by
  have hself : (t.insert p n).get? (p ++ []) =
      ((FileTree.place n (t.root.reach? p)).bind (·.reach? [])).map Branch.node :=
    get?_change_append hp []
  rw [List.append_nil] at hself
  rw [hself]
  cases n with
  | file content => rfl
  | directory =>
    match t.root.reach? p with
    | none => rfl
    | some (.file _) => rfl
    | some (.directory _) => rfl

/-- **Inserting** changes the place and no other, if the place is in a directory and a directory
is not to be replaced by a file. -/
theorem get?_insert {t : FileTree} {p : Place} {n : Node} (hp : p ≠ [])
    (hdir : t.get? p.dropLast = some .directory)
    (hfit : n = .directory ∨ t.get? p ≠ some .directory) (q : Place) :
    (t.insert p n).get? q = if q = p then some n else t.get? q := by
  split
  · rename_i heq
    rw [heq, get?_insert_self hp]
  · rename_i hne
    by_cases h : p <+: q
    · obtain ⟨r, rfl⟩ := h
      have hr : r ≠ [] := fun hr => hne (by rw [hr, List.append_nil])
      rw [insert, get?_change_append hp, get?_append]
      obtain ⟨name, rest, rfl⟩ := List.exists_cons_of_ne_nil hr
      cases hb : t.root.reach? p with
      | none => cases n <;> rfl
      | some b =>
        cases b with
        | file content => cases n <;> rfl
        | directory es =>
          have hdirectory : t.get? p = some .directory := by rw [get?, hb]; rfl
          obtain rfl : n = .directory := hfit.resolve_right fun hn => hn hdirectory
          rfl
    · exact get?_change_other hp hdir h

/-- **A directory put at an empty place** comes with all directories above it. -/
theorem get?_insert_free {t : FileTree} {p : Place} (hp : p ≠ []) (hfree : t.get? p = none)
    (q : Place) :
    (t.insert p .directory).get? q = if q <+: p then some .directory else t.get? q := by
  split
  · rename_i hq
    exact directory_above (get?_insert_self hp) hq
  · rename_i hq
    by_cases hbelow : p <+: q
    · -- a directory that was not there before is bare
      have hreach : t.root.reach? p = none := by
        rw [get?, Option.map_eq_none_iff] at hfree
        exact hfree
      rw [get?_eq_none_below hfree hbelow]
      obtain ⟨r, rfl⟩ := hbelow
      obtain ⟨name, rest, rfl⟩ := List.exists_cons_of_ne_nil fun hr : r = [] => hq (by simp [hr])
      rw [insert, get?_change_append hp, hreach]
      rfl
    · rw [get?, insert, reach?_change hp, Branch.reach?_alter_other hbelow hq]
      rfl

/-- **Erasing** empties a place and everything below it and changes nothing else. -/
theorem get?_erase {t : FileTree} {p : Place} (hp : p ≠ []) (q : Place) :
    (t.erase p).get? q = if p <+: q then none else t.get? q := by
  split
  · rename_i h
    obtain ⟨r, rfl⟩ := h
    rw [erase, get?_change_append hp]
    rfl
  · rename_i h
    rw [get?, erase, reach?_change hp, Branch.node_reach?_alter_other rfl h]
    rfl

/-! ### What the lists name -/

/-- **What is listed below a place** is what stands there. -/
theorem mem_entriesFrom {t : FileTree} {dir q : Place} {n : Node} :
    (q, n) ∈ t.entriesFrom dir ↔ t.get? (dir ++ q) = some n := by
  rw [entriesFrom, get?_append]
  cases hb : t.root.reach? dir with
  | none => simp
  | some b => exact Branch.mem_entries (t.proper.reach hb) q n

/-- No place is listed twice. -/
theorem nodup_places_entriesFrom (t : FileTree) (dir : Place) :
    ((t.entriesFrom dir).map Prod.fst).Nodup := by
  rw [entriesFrom]
  cases hb : t.root.reach? dir with
  | none => simp
  | some b => exact Branch.nodup_places (t.proper.reach hb)

/-- **The names below a directory** are those of what stands directly below it. -/
theorem mem_childNames {t : FileTree} {dir : Place} {name : String} :
    name ∈ t.childNames dir ↔ (t.get? (dir ++ [name])).isSome := by
  rw [childNames, get?_append]
  cases hb : t.root.reach? dir with
  | none => simp
  | some b =>
    obtain ⟨names, -⟩ := t.proper.reach hb
    simp only [Option.map_some, Option.getD_some, Option.bind_some,
      Branch.child?, Branch.reach?, Option.isSome_map, List.mem_map]
    constructor
    · rintro ⟨⟨m, c⟩, hm, rfl⟩
      rw [Branch.lookup_of_mem names hm]
      rfl
    · intro hs
      cases hl : b.branches.lookup name with
      | none => simp [hl] at hs
      | some c => exact ⟨(name, c), Branch.mem_of_lookup hl, rfl⟩

/-- **The files below a directory** are those that stand there. -/
theorem mem_filesBelow {t : FileTree} {dir q : Place} :
    q ∈ t.filesBelow dir ↔ ∃ content, t.get? (dir ++ q) = some (.file content) := by
  simp only [filesBelow, List.mem_mergeSort, List.mem_filterMap]
  constructor
  · rintro ⟨⟨p, n⟩, hm, he⟩
    cases n with
    | directory => simp at he
    | file content =>
      simp only [Option.some.injEq] at he
      exact ⟨content, mem_entriesFrom.1 (he ▸ hm)⟩
  · rintro ⟨content, hg⟩
    exact ⟨(q, .file content), mem_entriesFrom.2 hg, rfl⟩

end FileTree

end DenoPackager
