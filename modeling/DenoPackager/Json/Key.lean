import DenoPackager.Json.Display
import DenoPackager.Json.Printer

/-!
# Keys

In a configuration a name may be anything but an array or an object. Names keep their spelling
until the manifest is written, and are compared by what they are: texts by their characters,
numbers by their value, whether they are whole numbers or doubles, and the truth values as the
numbers one and zero. So `1` and `true` are one key, and `1` and `"1"` are two, although the
manifest writes both as `"1"`.

## Main definitions

* `Key`: the keys, with their equality.
* `Key.memberName`: the name of the member that is written for a key.
* `Table.ofMembers`, `Table.toMembers`: between the members of an object and a table.

## Main results

* `Key.ofJson?_toJson`: every key is the key of a value.
* `Table.toMembers_ofMembers`: the members of an object are written as they are.
-/

namespace DenoPackager

open DenoPackager.Number (Binary64)

/-- **Keys.** -/
inductive Key where
  | null
  | bool (b : Bool)
  | int (n : Int)
  | float (x : Binary64)
  | text (s : String)
  deriving Repr

namespace Key

/-- **What a key is**, whatever its spelling. -/
inductive Identity where
  | nothing
  | whole (n : Int)
  | fraction (x : Binary64)
  | text (s : String)
  deriving DecidableEq

/-- What a double is: a whole number if it is one. -/
def numberIdentity (x : Binary64) : Identity :=
  match x.integer? with
  | some n => .whole n
  | none => .fraction x

/-- What a key is. -/
def identity : Key → Identity
  | .null => .nothing
  | .bool b => .whole (if b then 1 else 0)
  | .int n => .whole n
  | .float x => numberIdentity x
  | .text s => .text s

/-- Two keys are equal if they are the same thing. -/
instance : BEq Key := ⟨fun a b => decide (a.identity = b.identity)⟩

theorem beq_iff {a b : Key} : (a == b) = true ↔ a.identity = b.identity :=
  decide_eq_true_iff

instance : EquivBEq Key where
  rfl := beq_iff.2 rfl
  symm h := beq_iff.2 (beq_iff.1 h).symm
  trans h g := beq_iff.2 ((beq_iff.1 h).trans (beq_iff.1 g))

/-- Texts are equal keys only if they are the same text. -/
theorem text_beq_text {s t : String} : (Key.text s == Key.text t) = true ↔ s = t := by
  simp [beq_iff, identity]

/-- Different texts are different keys. -/
theorem text_beq_text_eq_false {s t : String} : (Key.text s == Key.text t) = false ↔ s ≠ t := by
  rw [Bool.eq_false_iff, Ne, text_beq_text]

/-- The key that a value is; an array or an object is none. -/
def ofJson? : Json → Option Key
  | .null => some .null
  | .bool b => some (.bool b)
  | .int n => some (.int n)
  | .float x => some (.float x)
  | .str s => some (.text s)
  | .arr _ => none
  | .obj _ => none

/-- The value that a key is. -/
def toJson : Key → Json
  | .null => .null
  | .bool b => .bool b
  | .int n => .int n
  | .float x => .float x
  | .text s => .str s

/-- Every key is the key of a value. -/
@[simp] theorem ofJson?_toJson (k : Key) : ofJson? k.toJson = some k := by
  cases k <;> rfl

/-- **The name of the member** that is written for a key: a text as it is, any other key as its
value is written. -/
def memberName : Key → String
  | .text s => s
  | k => k.toJson.compactText

@[simp] theorem memberName_text (s : String) : (Key.text s).memberName = s := rfl

end Key

/-- The table of an object's members. -/
def Table.ofMembers (ms : Members) : Table Key :=
  ms.map fun m => (.text m.1, m.2)

/-- **The members that are written** for a table, in its order. -/
def Table.toMembers (t : Table Key) : Members :=
  t.map fun m => (m.1.memberName, m.2)

/-- **The members of an object** are written as they are. -/
@[simp] theorem Table.toMembers_ofMembers (ms : Members) : (Table.ofMembers ms).toMembers = ms := by
  simp [Table.ofMembers, Table.toMembers, Function.comp_def]

end DenoPackager
