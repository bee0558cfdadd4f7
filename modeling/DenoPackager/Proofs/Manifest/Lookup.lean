import DenoPackager.Proofs.Manifest.Merging

/-!
# Look-up in merged members

What is found in a table that pairs were put into is the last pair with the key, and what is found
in a member that was merged is what the user gives under the name, or else what is derived. So two
manifests of one user have the same member, up to the order in which it is written, if the derived
tables agree on all names that the user leaves open.

## Main definitions

* `Manifest.SameUpToOrder`: values that differ in the order of their members only.
* `Manifest.LeavesOpen`: the names that the user leaves open in a member.

## Main results

* `Table.get?_ofPairs`: of several pairs with one key the last one counts.
* `Table.perm_iff_get?`: tables that differ in their order only.
* `Manifest.sameUpToOrder_mergedValue_iff`, `Manifest.get?_membersOf_mergedValue`: what is found in
  a merged member.
-/

namespace DenoPackager

/-! ### The last of several pairs -/

namespace Table

section

variable {κ : Type} [BEq κ] [EquivBEq κ] {t base top : Table κ} {key : κ}

/-- **The last one counts** of several pairs that are laid over a table under one key. -/
theorem get?_overlay_reverse :
    (overlay base top).get? key = (get? top.reverse key).or (base.get? key) := by
  induction top generalizing base with
  | nil => rfl
  | cons m top ih =>
    obtain ⟨k, w⟩ := m
    have hlaid : overlay base ((k, w) :: top) = overlay (base.put k w) top := rfl
    rw [hlaid, ih, get?_put, List.reverse_cons, get?_append, get?_cons, get?_nil, Option.or_assoc]
    split <;> rfl

/-- Of several pairs with one key the last one gives the value. -/
theorem get?_ofPairs : (ofPairs t).get? key = get? t.reverse key := by
  rw [ofPairs, get?_overlay_reverse, get?_nil, Option.or_none]

omit [EquivBEq κ] in
/-- Look-up among the pairs that are chosen by their keys. -/
theorem get?_filter {p : κ → Bool} (hp : ∀ k, (key == k) = true → p k = p key) :
    get? (t.filter fun m => p m.1) key = if p key then t.get? key else none := by
  induction t with
  | nil => exact (ite_self _).symm
  | cons m t ih =>
    obtain ⟨k, w⟩ := m
    rw [List.filter_cons, get?_cons]
    by_cases hkey : (key == k) = true
    · rw [if_pos hkey, hp k hkey]
      split
      · rw [get?_cons, if_pos hkey]
      · rename_i hout
        rw [ih, if_neg hout]
    · rw [if_neg hkey, ← ih]
      split
      · rw [get?_cons, if_neg hkey]
      · rfl

end

section

variable {κ : Type} [BEq κ] [LawfulBEq κ] {t u : Table κ} {key : κ} {v : Json}

/-- The entries of a table in which no key occurs twice are what is found in it. -/
theorem mem_iff_get? (h : t.Distinct) : (key, v) ∈ t ↔ t.get? key = some v := by
  induction t with
  | nil => simp
  | cons m t ih =>
    obtain ⟨k, w⟩ := m
    rw [Distinct, keys_cons, List.pairwise_cons] at h
    rw [List.mem_cons, Prod.mk.injEq, ih h.2, get?_cons]
    by_cases hkey : (key == k) = true
    · obtain rfl := eq_of_beq hkey
      have hmissing : get? t key = none := get?_of_has (has_eq_false_iff.2 h.1)
      simp [hmissing, eq_comm]
    · rw [if_neg hkey]
      simp [ne_of_beq_false (Bool.eq_false_iff.2 hkey)]

theorem Distinct.nodup (h : t.Distinct) : t.Nodup :=
  (List.pairwise_map.1 h).imp fun hne heq => by
    rw [heq, BEq.rfl] at hne
    exact absurd hne (by decide)

/-- **Tables that differ in their order only** are those in which the same is found. -/
theorem perm_iff_get? (ht : t.Distinct) (hu : u.Distinct) :
    t.Perm u ↔ ∀ key, t.get? key = u.get? key := by
  rw [List.perm_ext_iff_of_nodup ht.nodup hu.nodup]
  constructor
  · intro h key
    refine Option.ext fun v => ?_
    rw [← mem_iff_get? ht, ← mem_iff_get? hu]
    exact h (key, v)
  · rintro h ⟨key, v⟩
    rw [mem_iff_get? ht, mem_iff_get? hu, h]

end

variable {t : Table Key} {name : String}

/-- Look-up in what is written for a table of texts. -/
theorem get?_toMembers (h : t.Textual) : t.toMembers.get? name = t.get? (.text name) := by
  have hkeys (ms : Members) : (ofMembers ms).get? (.text name) = ms.get? name := by
    induction ms with
    | nil => rfl
    | cons m ms ih =>
      obtain ⟨k, w⟩ := m
      rw [get?_cons, ← ih]
      show get? ((Key.text k, w) :: ofMembers ms) (.text name) = _
      rw [get?_cons]
      exact if_congr (Key.text_beq_text.trans beq_iff_eq.symm) rfl rfl
  rw [← hkeys, ofMembers_toMembers h]

theorem distinct_toMembers (ht : t.Distinct) (h : t.Textual) : t.toMembers.Distinct := by
  rw [Distinct, ← ofMembers_toMembers h, keys_ofMembers, List.pairwise_map] at ht
  exact ht.imp fun hne => beq_eq_false_iff_ne.2 (Key.text_beq_text_eq_false.1 hne)

end Table

namespace Manifest

variable {package t u : Table Key} {derived : Derived} {given : Option Json} {name : String}

/-! ### The same up to order -/

/-- **The same up to order**: the same value, or two objects whose members stand in different
orders. -/
def SameUpToOrder (a b : Option Json) : Prop :=
  a = b ∨ ∃ ms ns : Members, a = some (.obj ms) ∧ b = some (.obj ns) ∧ ms.Perm ns

/-- The members of the value of a member; none if there is no object. -/
def membersOf (v : Option Json) : Members :=
  (v.getD .null).members

theorem membersOf_written? : membersOf (written? t) = t.toMembers := by
  rw [written?]
  split
  · rename_i hnil
    rw [List.isEmpty_iff.1 hnil]
    rfl
  · rfl

/-- Two tables of texts are written alike if the same texts are found in them. -/
theorem sameUpToOrder_written?_iff (ht : t.Distinct ∧ t.Textual) (hu : u.Distinct ∧ u.Textual) :
    SameUpToOrder (written? t) (written? u) ↔
      ∀ name, t.get? (.text name) = u.get? (.text name) := by
  have hperm : t.toMembers.Perm u.toMembers ↔
      ∀ name, t.get? (.text name) = u.get? (.text name) := by
    rw [Table.perm_iff_get? (Table.distinct_toMembers ht.1 ht.2)
      (Table.distinct_toMembers hu.1 hu.2)]
    exact forall_congr' fun name => by rw [Table.get?_toMembers ht.2, Table.get?_toMembers hu.2]
  rw [← hperm]
  constructor
  · rintro (hsame | ⟨ms, ns, hms, hns, h⟩)
    · rw [← membersOf_written?, ← membersOf_written?, hsame]
    · rw [← membersOf_written?, ← membersOf_written?, hms, hns]
      exact h
  · intro h
    have hnil : t.isEmpty = u.isEmpty := by
      have hlength := h.length_eq
      rw [Table.toMembers, Table.toMembers, List.length_map, List.length_map] at hlength
      cases t <;> cases u <;> simp_all
    rw [written?, written?, hnil]
    split
    · exact .inl rfl
    · exact .inr ⟨_, _, rfl, rfl, h⟩

/-! ### What the user leaves open -/

/-- **A name that the user leaves open** in a merged member, whose value is given: it is not among
the members of an object. Any other value is kept, and leaves nothing open. -/
def LeavesOpen (given : Option Json) (name : String) : Prop :=
  match given with
  | none | some .null => True
  | some (.obj top) => name ∉ Table.keys top
  | some _ => False

theorem get?_reverse_ofMembers_of_not_mem {top : Members} (h : name ∉ Table.keys top) :
    Table.get? (Table.ofMembers top).reverse (.text name) = none := by
  refine Table.get?_of_has (Bool.eq_false_iff.2 fun hhas => h ?_)
  rw [Table.has_text, Table.keys, List.map_reverse, List.mem_reverse] at hhas
  have hkey : Key.text name ∈ (Table.ofMembers top).keys := hhas
  rw [Table.keys_ofMembers] at hkey
  simpa using hkey

theorem get?_reverse_ofMembers_of_mem {top : Members} (h : name ∈ Table.keys top) :
    ∃ v, Table.get? (Table.ofMembers top).reverse (.text name) = some v := by
  refine Option.isSome_iff_exists.1 (Table.has_of_mem ?_)
  rw [Table.keys, List.map_reverse, List.mem_reverse]
  show Key.text name ∈ (Table.ofMembers top).keys
  rw [Table.keys_ofMembers]
  exact List.mem_map_of_mem h

/-- **Merging is the same up to order** if the derived tables agree on what the user leaves open. -/
theorem sameUpToOrder_mergedValue_iff (ht : t.Distinct ∧ t.Textual) (hu : u.Distinct ∧ u.Textual) :
    SameUpToOrder (mergedValue t given) (mergedValue u given) ↔
      ∀ name, LeavesOpen given name → t.get? (.text name) = u.get? (.text name) := by
  have hopen (hopen : ∀ name, LeavesOpen given name) :
      SameUpToOrder (written? t) (written? u) ↔
        ∀ name, LeavesOpen given name → t.get? (.text name) = u.get? (.text name) := by
    rw [sameUpToOrder_written?_iff ht hu]
    exact forall_congr' fun name => ⟨fun h _ => h, fun h => h (hopen name)⟩
  cases given with
  | none => exact hopen fun _ => trivial
  | some v =>
    cases v with
    | null => exact hopen fun _ => trivial
    | obj top =>
      have hlaid {t : Table Key} (ht : t.Distinct ∧ t.Textual) :
          (Table.overlay t (Table.ofMembers top)).Distinct ∧
            (Table.overlay t (Table.ofMembers top)).Textual :=
        ⟨Table.distinct_overlay ht.1, Table.textual_overlay ht.2 (Table.textual_ofMembers top)⟩
      rw [mergedValue, mergedValue, sameUpToOrder_written?_iff (hlaid ht) (hlaid hu)]
      refine forall_congr' fun name => ?_
      rw [Table.get?_overlay_reverse, Table.get?_overlay_reverse]
      by_cases hname : name ∈ Table.keys top
      · obtain ⟨v, hv⟩ := get?_reverse_ofMembers_of_mem hname
        simp [hv, LeavesOpen, hname]
      · simp [get?_reverse_ofMembers_of_not_mem hname, LeavesOpen, hname]
    | bool b | int n | float x | str s | arr items => simp [SameUpToOrder, mergedValue, LeavesOpen]

/-- **What is found under a name that the user leaves open** is what is derived. -/
theorem get?_membersOf_mergedValue (ht : t.Textual) (hopen : LeavesOpen given name) :
    (membersOf (mergedValue t given)).get? name = t.get? (.text name) := by
  cases given with
  | none => rw [mergedValue, membersOf_written?, Table.get?_toMembers ht]
  | some v =>
    cases v with
    | null => rw [mergedValue, membersOf_written?, Table.get?_toMembers ht]
    | obj top =>
      rw [mergedValue, membersOf_written?,
        Table.get?_toMembers (Table.textual_overlay ht (Table.textual_ofMembers top)),
        Table.get?_overlay_reverse, get?_reverse_ofMembers_of_not_mem hopen, Option.none_or]
    | bool b | int n | float x | str s | arr items => exact absurd hopen id

/-! ### Members of a manifest -/

/-- The range that a member of a manifest has for a package. -/
def publishedRange? (manifest : Table Key) (member name : String) : Option Json :=
  (membersOf (manifest.get? (.text member))).get? name

/-- **The range of a package that the user leaves open** is the derived one. -/
theorem publishedRange?_assignAll {m : String × Table Key} (hm : m ∈ derived.members)
    (htextual : m.2.Textual) (hopen : LeavesOpen (package.get? (.text m.1)) name) :
    publishedRange? (package.assignAll (assignments package derived)) m.1 name =
      m.2.get? (.text name) := by
  rw [publishedRange?, Table.get?_assignAll_of_mem pairwise_assignments
    (mem_assignments_of_mem package hm)]
  exact get?_membersOf_mergedValue htextual hopen

/-- **Two manifests of one user** have the same member up to order if the derived tables agree on
what the user leaves open. -/
theorem sameUpToOrder_assignAll_iff {other : Derived} {member : String}
    (ht : (member, t) ∈ derived.members) (hu : (member, u) ∈ other.members)
    (htable : t.Distinct ∧ t.Textual) (hother : u.Distinct ∧ u.Textual) :
    SameUpToOrder ((package.assignAll (assignments package derived)).get? (.text member))
        ((package.assignAll (assignments package other)).get? (.text member)) ↔
      ∀ name, LeavesOpen (package.get? (.text member)) name →
        t.get? (.text name) = u.get? (.text name) := by
  rw [Table.get?_assignAll_of_mem pairwise_assignments (mem_assignments_of_mem package ht),
    Table.get?_assignAll_of_mem pairwise_assignments (mem_assignments_of_mem package hu)]
  exact sameUpToOrder_mergedValue_iff htable hother

end Manifest

end DenoPackager
