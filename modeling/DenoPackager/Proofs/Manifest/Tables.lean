import DenoPackager.Proofs.Files.Members

/-!
# Tables as ordered dictionaries

A table in which no key occurs twice is told by its keys, in order, and by what is found under them.
So every change of a table has two laws, one for the keys and one for look-up. A replacement keeps
the place of a key that is there and puts a new one at the end, and one table laid over another adds
what is new to the end, in order.

Laying a table over its own base once more does nothing.

## Main definitions

* `Table.keys`, `Table.Distinct`, `Table.Textual`: the keys of a table, and tables in which none
  occurs twice or all are texts.
* `Table.assign`, `Table.assignAll`: a key with a value or without one, and several such keys.

## Main results

* `Table.ext_of_keys`: a table is told by its keys and by look-up.
* `Table.keys_overlay`, `Table.get?_overlay`: one table laid over another.
* `Table.overlay_overlay`: the same once more.
* `Table.keys_assignAll`, `Table.get?_assignAll_of_mem`: several assignments.
-/

namespace DenoPackager.Table

/-! ### Keys -/

section

variable {κ : Type}

/-- **The keys of a table**, in order. -/
def keys (t : Table κ) : List κ :=
  t.map Prod.fst

@[simp] theorem keys_nil : keys ([] : Table κ) = [] := rfl

@[simp] theorem keys_cons (m : κ × Json) (t : Table κ) : keys (m :: t) = m.1 :: keys t := rfl

@[simp] theorem keys_append (t u : Table κ) : keys (t ++ u) = keys t ++ keys u := List.map_append

/-- **The keys of some entries**, chosen by their keys. -/
theorem keys_filter (t : Table κ) (p : κ → Bool) :
    keys (t.filter fun m => p m.1) = t.keys.filter p := by
  rw [keys, keys, List.filter_map]
  rfl

end

variable {κ : Type} [BEq κ] {t u base top : Table κ} {key other : κ} {v : Json}

/-- **No key occurs twice.** -/
def Distinct (t : Table κ) : Prop :=
  t.keys.Pairwise fun a b => (a == b) = false

instance (t : Table κ) : Decidable t.Distinct :=
  inferInstanceAs (Decidable (List.Pairwise _ _))

theorem has_cons (m : κ × Json) (t : Table κ) : has (m :: t) key = (key == m.1 || t.has key) := by
  rw [has, get?_cons, has]
  cases key == m.1 <;> rfl

/-- **Keys are found** that are among those of the table. -/
theorem has_iff : t.has key = true ↔ ∃ k ∈ t.keys, (key == k) = true := by
  induction t with
  | nil => simp [has]
  | cons m t ih => simp [has_cons, ih]

/-- A key is missing that differs from all of them. -/
theorem has_eq_false_iff : t.has key = false ↔ ∀ k ∈ t.keys, (key == k) = false := by
  rw [← Bool.not_eq_true, has_iff]
  simp

theorem has_of_get? (h : t.get? key = some v) : t.has key = true := by
  rw [has, h]
  rfl

theorem get?_of_has (h : t.has key = false) : t.get? key = none := by
  rwa [has, Option.isSome_eq_false_iff, Option.isNone_iff_eq_none] at h

/-- A key that is there gets no default. -/
theorem putDefault_of_has (h : t.has key = true) : t.putDefault key v = t :=
  if_pos h

/-- **Taking a key out.** -/
theorem keys_without : (t.without key).keys = t.keys.filter fun k => !(k == key) :=
  keys_filter t fun k => !(k == key)

variable [EquivBEq κ]

theorem has_of_mem (h : key ∈ t.keys) : t.has key = true :=
  has_iff.2 ⟨key, h, BEq.rfl⟩

/-- **A table is told by its keys and by look-up.** -/
theorem ext_of_keys (ht : t.Distinct) (hkeys : t.keys = u.keys)
    (hget : ∀ k, t.get? k = u.get? k) : t = u := by
  induction t generalizing u with
  | nil => exact (List.map_eq_nil_iff.1 hkeys.symm).symm
  | cons m t ih =>
    obtain ⟨n, u, rfl⟩ := List.exists_cons_of_ne_nil (l := u) (by rintro rfl; simp at hkeys)
    obtain ⟨k, v⟩ := m
    obtain ⟨j, w⟩ := n
    rw [keys_cons, keys_cons, List.cons.injEq] at hkeys
    obtain ⟨rfl, hkeys⟩ := hkeys
    rw [Distinct, keys_cons, List.pairwise_cons] at ht
    have hvalue : v = w := by simpa [get?_cons] using hget k
    have hrest : t = u := by
      refine ih ht.2 hkeys fun i => ?_
      by_cases hi : (i == k) = true
      · have hmissing {s : Table κ} (hs : keys t = keys s) : get? s i = none := by
          refine get?_of_has (has_eq_false_iff.2 fun j hj => ?_)
          rw [BEq.congr_left hi]
          exact ht.1 j (hs ▸ hj)
        rw [hmissing rfl, hmissing hkeys]
      · simpa [get?_cons, hi] using hget i
    rw [hvalue, hrest]

/-! ### One change -/

/-- **A key that is replaced keeps its place**, and a new one goes to the end. -/
theorem keys_put : (t.put key v).keys = if t.has key then t.keys else t.keys ++ [key] := by
  induction t with
  | nil => rfl
  | cons m t ih =>
    obtain ⟨k, w⟩ := m
    rw [put, has_cons]
    by_cases hk : (k == key) = true
    · rw [if_pos hk, BEq.symm hk]
      rfl
    · have hk' : (key == k) = false := BEq.symm_false (Bool.eq_false_iff.2 hk)
      rw [if_neg hk, keys_cons, ih, hk', Bool.false_or, keys_cons]
      split <;> rfl

/-- A new key goes to the end. -/
theorem put_of_has (h : t.has key = false) : t.put key v = t ++ [(key, v)] := by
  induction t with
  | nil => rfl
  | cons m t ih =>
    obtain ⟨k, w⟩ := m
    rw [has_cons, Bool.or_eq_false_iff] at h
    rw [put, if_neg (Bool.eq_false_iff.1 (BEq.symm_false h.1)), ih h.2]
    rfl

/-- Replacing a value by itself changes nothing. -/
theorem put_of_get? (h : t.get? key = some v) : t.put key v = t := by
  induction t with
  | nil => exact absurd h (by simp)
  | cons m t ih =>
    obtain ⟨k, w⟩ := m
    rw [get?_cons] at h
    rw [put]
    by_cases hk : (k == key) = true
    · rw [if_pos (BEq.symm hk)] at h
      rw [if_pos hk, Option.some.inj h]
    · rw [if_neg fun hkey => hk (BEq.symm hkey)] at h
      rw [if_neg hk, ih h]

theorem distinct_put (ht : t.Distinct) : (t.put key v).Distinct := by
  rw [Distinct, keys_put]
  split
  · exact ht
  · rename_i hnew
    refine List.pairwise_append.2 ⟨ht, List.pairwise_singleton _ _, fun k hk j hj => ?_⟩
    rw [List.mem_singleton.1 hj]
    exact BEq.symm_false (has_eq_false_iff.1 (Bool.eq_false_iff.2 hnew) k hk)

theorem get?_without_self : (t.without key).get? key = none := by
  refine get?_of_has (has_eq_false_iff.2 fun k hk => ?_)
  rw [keys_without, List.mem_filter, Bool.not_eq_true'] at hk
  exact BEq.symm_false hk.2

/-- Taking out a key that is not there changes nothing. -/
theorem without_of_get? (h : t.get? key = none) : t.without key = t := by
  have hmissing : t.has key = false := by
    rw [has, h]
    rfl
  refine List.filter_eq_self.2 fun m hm => ?_
  rw [Bool.not_eq_true']
  exact BEq.symm_false (has_eq_false_iff.1 hmissing m.1 (List.mem_map_of_mem hm))

/-! ### One table over another -/

/-- **Look-up in a table laid over another one**: the upper table comes first. -/
theorem get?_overlay (htop : top.Distinct) :
    (overlay base top).get? key = (top.get? key).or (base.get? key) := by
  induction top generalizing base with
  | nil => rfl
  | cons m top ih =>
    obtain ⟨k, w⟩ := m
    rw [Distinct, keys_cons, List.pairwise_cons] at htop
    have hlaid : overlay base ((k, w) :: top) = overlay (base.put k w) top := rfl
    rw [hlaid, ih htop.2, get?_put, get?_cons]
    by_cases hkey : (key == k) = true
    · -- the key is not in the rest of the upper table
      have hnone : get? top key = none := by
        refine get?_of_has (has_eq_false_iff.2 fun j hj => ?_)
        rw [BEq.congr_left hkey]
        exact htop.1 j hj
      rw [hnone, if_pos hkey, if_pos hkey, Option.none_or, Option.some_or]
    · rw [if_neg hkey, if_neg hkey]

/-- **The keys of a table laid over another one**: those of the lower table, and then those that are
new, in order. -/
theorem keys_overlay (htop : top.Distinct) :
    (overlay base top).keys = base.keys ++ top.keys.filter fun k => !base.has k := by
  induction top generalizing base with
  | nil => exact (List.append_nil _).symm
  | cons m top ih =>
    obtain ⟨k, w⟩ := m
    rw [Distinct, keys_cons, List.pairwise_cons] at htop
    have hlaid : overlay base ((k, w) :: top) = overlay (base.put k w) top := rfl
    have hfilter : ((keys top).filter fun j => !(base.put k w).has j) =
        (keys top).filter fun j => !base.has j := by
      refine List.filter_congr fun j hj => ?_
      rw [has_put, BEq.symm_false (htop.1 j hj), Bool.false_or]
    rw [hlaid, ih htop.2, hfilter, keys_put, keys_cons, List.filter_cons]
    cases base.has k <;> simp

/-- **What is found in a table laid over another one** is found in one of them. -/
theorem has_overlay : (overlay base top).has key = (base.has key || top.has key) := by
  induction top generalizing base with
  | nil => exact (Bool.or_false _).symm
  | cons m top ih =>
    obtain ⟨k, w⟩ := m
    have hlaid : overlay base ((k, w) :: top) = overlay (base.put k w) top := rfl
    rw [hlaid, ih, has_put, has_cons, Bool.or_left_comm, Bool.or_assoc]

theorem has_ofPairs (pairs : Table κ) : (ofPairs pairs).has key = pairs.has key :=
  has_overlay

/-- What is laid over a table brings no keys but its own. -/
theorem mem_keys_overlay (h : key ∈ (overlay base top).keys) :
    key ∈ base.keys ∨ key ∈ top.keys := by
  induction top generalizing base with
  | nil => exact .inl h
  | cons m top ih =>
    rcases ih h with h | h
    · rw [keys_put] at h
      split at h
      · exact .inl h
      · rcases List.mem_append.1 h with h | h
        · exact .inl h
        · exact .inr (List.mem_cons.2 (.inl (List.mem_singleton.1 h)))
    · exact .inr (List.mem_cons_of_mem _ h)

theorem distinct_overlay (hbase : base.Distinct) : (overlay base top).Distinct := by
  induction top generalizing base with
  | nil => exact hbase
  | cons m top ih => exact ih (distinct_put hbase)

/-- The table that pairs describe. -/
theorem distinct_ofPairs (pairs : Table κ) : (ofPairs pairs).Distinct :=
  distinct_overlay (List.Pairwise.nil : Distinct ([] : Table κ))

/-- **Laying a table over its base once more does nothing.** -/
theorem overlay_overlay (hbase : base.Distinct) (htop : top.Distinct) :
    overlay base (overlay base top) = overlay base top := by
  have hmerged : (overlay base top).Distinct := distinct_overlay hbase
  have hbelow {k : κ} (hk : k ∈ base.keys) : (overlay base top).has k = true := by
    refine has_of_mem ?_
    rw [keys_overlay htop]
    exact List.mem_append_left _ hk
  refine ext_of_keys (distinct_overlay hbase) ?_ fun k => ?_
  · have hold : (base.keys.filter fun k => !base.has k) = [] := by
      refine List.filter_eq_nil_iff.2 fun k hk => ?_
      rw [has_of_mem hk]
      decide
    rw [keys_overlay hmerged, keys_overlay htop, List.filter_append, hold, List.nil_append,
      List.filter_filter]
    simp
  · rw [get?_overlay hmerged, get?_overlay htop, Option.or_assoc, Option.or_self]

/-! ### Assignments -/

/-- **A key with a value**, or without one. -/
def assign (t : Table κ) (key : κ) : Option Json → Table κ
  | some v => t.put key v
  | none => t.without key

variable {value : Option Json}

theorem get?_assign : (t.assign key value).get? other =
    if other == key then value else t.get? other := by
  cases value with
  | some v => exact get?_put t key other v
  | none =>
    rw [assign]
    by_cases h : (other == key) = true
    · rw [if_pos h, get?_congr h, get?_without_self]
    · rw [if_neg h, get?_without (Bool.not_eq_true _ ▸ h)]

/-- **The keys after an assignment.** -/
theorem keys_assign : (t.assign key value).keys =
    if value.isNone then t.keys.filter fun k => !(k == key)
    else if t.has key then t.keys else t.keys ++ [key] := by
  cases value with
  | some v => exact keys_put
  | none => exact keys_without

/-- Assigning what is there changes nothing. -/
theorem assign_get? : t.assign key (t.get? key) = t := by
  cases h : t.get? key with
  | some v => exact put_of_get? h
  | none => exact without_of_get? h

/-- **Several assignments**, one after the other. -/
def assignAll (t : Table κ) (changes : List (κ × Option Json)) : Table κ :=
  changes.foldl (fun t c => t.assign c.1 c.2) t

variable {changes : List (κ × Option Json)}

theorem assignAll_cons {κ : Type} [BEq κ] (t : Table κ) (c : κ × Option Json)
    (changes : List (κ × Option Json)) :
    t.assignAll (c :: changes) = (t.assign c.1 c.2).assignAll changes := rfl

theorem assignAll_append {κ : Type} [BEq κ] (t : Table κ) (changes later : List (κ × Option Json)) :
    t.assignAll (changes ++ later) = (t.assignAll changes).assignAll later :=
  List.foldl_append

/-- Assigning what is there changes nothing, however often. -/
theorem assignAll_get? (h : ∀ c ∈ changes, c.2 = t.get? c.1) : t.assignAll changes = t := by
  induction changes with
  | nil => rfl
  | cons c changes ih =>
    rw [List.forall_mem_cons] at h
    rw [assignAll_cons, h.1, assign_get?]
    exact ih h.2

/-- Look-up of a key that is not assigned. -/
theorem get?_assignAll_of_not_mem (h : ∀ c ∈ changes, (key == c.1) = false) :
    (t.assignAll changes).get? key = t.get? key := by
  induction changes generalizing t with
  | nil => rfl
  | cons c changes ih =>
    rw [List.forall_mem_cons] at h
    rw [assignAll_cons, ih h.2, get?_assign, h.1, if_neg Bool.false_ne_true]

/-- **Look-up of a key that is assigned** once among several. -/
theorem get?_assignAll_of_mem (hchanges : changes.Pairwise fun a b => (a.1 == b.1) = false)
    (h : (key, value) ∈ changes) : (t.assignAll changes).get? key = value := by
  induction changes generalizing t with
  | nil => exact absurd h List.not_mem_nil
  | cons c changes ih =>
    rw [List.pairwise_cons] at hchanges
    rw [assignAll_cons]
    rcases List.mem_cons.1 h with rfl | h
    · rw [get?_assignAll_of_not_mem hchanges.1, get?_assign, if_pos BEq.rfl]
    · exact ih hchanges.2 h

/-- **The keys after several assignments** to different keys: those that were there, and then those
that are new, in order, as far as they have a value. -/
theorem keys_assignAll (hchanges : changes.Pairwise fun a b => (a.1 == b.1) = false) :
    (t.assignAll changes).keys =
      (t.keys ++ (changes.map Prod.fst).filter fun k => !t.has k).filter
        (t.assignAll changes).has := by
  induction changes generalizing t with
  | nil =>
    rw [List.map_nil, List.filter_nil, List.append_nil]
    exact (List.filter_eq_self.2 fun k hk => has_of_mem hk).symm
  | cons c changes ih =>
    obtain ⟨key, value⟩ := c
    have hlast := get?_assignAll_of_mem (t := t) hchanges List.mem_cons_self
    rw [List.pairwise_cons] at hchanges
    -- the assignment makes no difference to whether a later key is there
    have hlater : ((changes.map Prod.fst).filter fun k => !(t.assign key value).has k) =
        (changes.map Prod.fst).filter fun k => !t.has k := by
      refine List.filter_congr fun k hk => ?_
      obtain ⟨c, hc, rfl⟩ := List.mem_map.1 hk
      rw [has, get?_assign, if_neg (Bool.eq_false_iff.1 (BEq.symm_false (hchanges.1 c hc))), has]
    rw [assignAll_cons] at hlast
    rw [assignAll_cons, ih hchanges.2, hlater, keys_assign]
    generalize assignAll (t.assign key value) changes = last at hlast
    have hkey : last.has key = value.isSome := congrArg Option.isSome hlast
    rw [List.filter_append, List.filter_append, List.map_cons, List.filter_cons]
    cases value with
    | none =>
      have hold :
          (t.keys.filter fun k => !(k == key)).filter last.has = t.keys.filter last.has := by
        rw [List.filter_filter]
        refine List.filter_congr fun k _ => ?_
        cases hk : k == key
        · simp
        · rw [has, get?_congr hk, hlast]
          rfl
      rw [Option.isNone_none, if_pos rfl, hold]
      split
      · rw [List.filter_cons_of_neg (by rw [hkey]; decide)]
      · rfl
    | some v =>
      cases hhas : t.has key
      · simp [hkey]
      · simp

end DenoPackager.Table

/-! ### Keys that are texts -/

namespace DenoPackager

/-- A value has the key that it is. -/
theorem Json.key_eq_ok_iff {v : Json} {key : Key} : v.key = .ok key ↔ v = key.toJson := by
  cases v <;> cases key <;> simp [Json.key, Key.ofJson?, Key.toJson]

namespace Table

variable {t base top : Table Key} {s : String}

/-- **All keys are texts**, as in an object. -/
def Textual (t : Table Key) : Prop :=
  ∀ k ∈ t.keys, ∃ s, k = .text s

/-- A text has one spelling as a key. -/
theorem has_text : t.has (.text s) = true ↔ .text s ∈ t.keys := by
  refine ⟨fun h => ?_, has_of_mem⟩
  obtain ⟨k, hk, heq⟩ := has_iff.1 h
  rw [Key.beq_iff] at heq
  cases k with
  | text w =>
    obtain rfl := Key.Identity.text.inj heq
    exact hk
  | float x =>
    rw [Key.identity, Key.identity, Key.numberIdentity] at heq
    split at heq <;> exact absurd heq (by simp)
  | null | bool b | int n => exact absurd heq (by simp [Key.identity])

/-- The keys of an object's members. -/
theorem keys_ofMembers (ms : Members) : (ofMembers ms).keys = (keys ms).map Key.text := by
  rw [ofMembers, keys, List.map_map, keys, List.map_map]
  rfl

theorem textual_ofMembers (ms : Members) : (ofMembers ms).Textual := by
  intro k hk
  rw [keys_ofMembers] at hk
  obtain ⟨s, -, rfl⟩ := List.mem_map.1 hk
  exact ⟨s, rfl⟩

theorem distinct_ofMembers {ms : Members} (h : Distinct ms) : (ofMembers ms).Distinct := by
  rw [Distinct, keys_ofMembers, List.pairwise_map]
  exact h.imp fun hab => Key.text_beq_text_eq_false.2 (beq_eq_false_iff_ne.1 hab)

theorem textual_overlay (hbase : base.Textual) (htop : top.Textual) :
    (overlay base top).Textual := fun k hk =>
  (mem_keys_overlay hk).elim (hbase k) (htop k)

/-- **A table of texts is written as it is.** -/
theorem ofMembers_toMembers (h : t.Textual) : ofMembers t.toMembers = t := by
  rw [ofMembers, toMembers, List.map_map]
  refine (List.map_congr_left fun m hm => ?_).trans (List.map_id t)
  obtain ⟨s, hs⟩ := h m.1 (List.mem_map_of_mem hm)
  obtain ⟨k, v⟩ := m
  obtain rfl : k = .text s := hs
  rfl

end Table

end DenoPackager
