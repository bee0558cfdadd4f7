import DenoPackager.Number.Binary64

/-!
# JSON values

The value type of the configuration and of the package manifest. An object is a list of members
in order: the order is part of what a manifest says. Reading gives at most one member a name; a
manifest in which two names come out alike is written with both. Integers are exact and apart
from doubles.

Members are one kind of **table**: values under keys, in order, where the kind of the keys says
which of them are equal.

## Main definitions

* `Json`: the values.
* `Table`: values under keys, with look-up, replacement and overlay.
* `Members`: the members of an object.
* `Json.truthy`: which values count as given.

## Main results

* `Table.get?_put`: what replacing a value does to look-up.
-/

namespace DenoPackager

/-- **JSON values.** -/
inductive Json where
  | null
  | bool (b : Bool)
  | int (n : Int)
  | float (x : Number.Binary64)
  | str (s : String)
  | arr (items : List Json)
  | obj (members : List (String × Json))
  deriving Repr

instance : Inhabited Json := ⟨.null⟩

/-- **Tables**: values under keys, in order. -/
abbrev Table (κ : Type) := List (κ × Json)

/-- **The members of an object**, in order. -/
abbrev Members := Table String

namespace Table

variable {κ : Type} [BEq κ]

/-- The value under a key. -/
def get? (t : Table κ) (key : κ) : Option Json :=
  t.lookup key

/-- Whether there is a value under a key. -/
def has (t : Table κ) (key : κ) : Bool :=
  (t.get? key).isSome

/-- **Replacing a value.** A key that is there keeps its place and its spelling; a new one goes
to the end. -/
def put : Table κ → κ → Json → Table κ
  | [], key, v => [(key, v)]
  | (k, w) :: t, key, v => if k == key then (k, v) :: t else (k, w) :: put t key v

/-- The table with a default for a key that is missing. -/
def putDefault (t : Table κ) (key : κ) (v : Json) : Table κ :=
  if t.has key then t else t ++ [(key, v)]

/-- The table without a key. -/
def without (t : Table κ) (key : κ) : Table κ :=
  t.filter fun m => !(m.1 == key)

/-- **Overlay.** The values of `base`, with those of `top` put over them in order. -/
def overlay (base top : Table κ) : Table κ :=
  top.foldl (fun acc m => acc.put m.1 m.2) base

/-- The table that a list of pairs describes: of two pairs with equal keys the first gives the
place and the spelling, and the last the value. -/
def ofPairs (pairs : Table κ) : Table κ :=
  overlay [] pairs

/-! ### Look-up after a change -/

@[simp] theorem get?_nil (key : κ) : get? [] key = none := rfl

theorem get?_cons (k key : κ) (v : Json) (t : Table κ) :
    get? ((k, v) :: t) key = if key == k then some v else get? t key := by
  simp only [get?, List.lookup_cons]
  cases key == k <;> rfl

/-- **Look-up after a replacement.** -/
theorem get?_put [EquivBEq κ] (t : Table κ) (key other : κ) (v : Json) :
    (t.put key v).get? other = if other == key then some v else t.get? other := by
  induction t with
  | nil => simp [put, get?_cons]
  | cons m t ih =>
    obtain ⟨k, w⟩ := m
    simp only [put]
    split
    · rename_i h
      have hk : (other == k) = (other == key) := BEq.congr_right h
      simp only [get?_cons, hk]
      split <;> rfl
    · rename_i h
      simp only [get?_cons, ih]
      split
      · rename_i hk
        have hn : ¬(other == key) = true := fun ho => h (BEq.trans (BEq.symm hk) ho)
        simp [hn]
      · rfl

theorem get?_put_self [EquivBEq κ] (t : Table κ) (key : κ) (v : Json) :
    (t.put key v).get? key = some v := by
  simp [get?_put]

theorem get?_put_other [EquivBEq κ] (t : Table κ) {key other : κ} (v : Json)
    (h : (other == key) = false) : (t.put key v).get? other = t.get? other := by
  simp [get?_put, h]

theorem has_put [EquivBEq κ] (t : Table κ) (key other : κ) (v : Json) :
    (t.put key v).has other = (other == key || t.has other) := by
  rw [has, get?_put, has]
  cases other == key <;> rfl

end Table

namespace Json

/-- **Given or not.** Nothing, false, zero and what is empty count as not given. -/
def truthy : Json → Bool
  | .null => false
  | .bool b => b
  | .int n => n ≠ 0
  | .float x => !x.isZero
  | .str s => s ≠ ""
  | .arr items => !items.isEmpty
  | .obj members => !members.isEmpty

/-- The members of an object; any other value has none. -/
def members : Json → Members
  | .obj ms => ms
  | _ => []

/-- A value, if it is given and not empty. -/
def given? (v : Option Json) : Option Json :=
  v.filter truthy

/-- The text of a string value. -/
def str? : Json → Option String
  | .str s => some s
  | _ => none

end Json

end DenoPackager
