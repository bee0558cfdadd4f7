import DenoPackager.Text.Pieces

/-!
# Paths

A path is a root and a list of components. Empty components and single dots say nothing and are
dropped when a path is read; a double dot stays where it is, since what it means depends on the
directories that are there. Two slashes in front are a root of their own, three or more are one.

## Main definitions

* `Path.ofString`, `Path.text`: reading and writing a path.
* `Path.join`, `Path.parent`, `Path.ancestors`, `Path.name`: moving around.
* `Path.below?`: the way from a directory down to a path.

## Main results

* `join_below?`: the way down leads back.
-/

namespace DenoPackager

/-- **What a path starts from**: the current directory, the root, or the root written with two
slashes. -/
inductive Root where
  | none
  | single
  | double
  deriving Repr, DecidableEq

/-- **Paths.** -/
structure Path where
  root : Root
  parts : List String
  deriving Repr, DecidableEq

namespace Path

/-- The slashes that a root is written with. -/
def rootText : Root → String
  | .none => ""
  | .single => "/"
  | .double => "//"

/-- The components of a text: what stands between slashes, less what is empty or a single dot. -/
def components (s : List Char) : List String :=
  ((Text.splitOn '/' s).map String.ofList).filter fun c => c ≠ "" ∧ c ≠ "."

/-- The root that a text starts from. -/
def rootOf (s : List Char) : Root :=
  match (s.takeWhile (· = '/')).length with
  | 0 => .none
  | 2 => .double
  | _ => .single

/-- **Reading a path.** -/
def ofString (s : String) : Path :=
  { root := rootOf s.toList, parts := components s.toList }

/-- **Writing a path.** A relative path without components is a single dot. -/
def text (p : Path) : String :=
  match p.root, p.parts with
  | .none, [] => "."
  | r, ps => rootText r ++ String.intercalate "/" ps

/-- Whether the path starts from a root. -/
def isAbsolute (p : Path) : Bool :=
  p.root ≠ .none

/-- **Joining.** An absolute path replaces what it is joined to. -/
def join (p q : Path) : Path :=
  match q.root with
  | .none => { p with parts := p.parts ++ q.parts }
  | _ => q

/-- The path with a component added. -/
def child (p : Path) (name : String) : Path :=
  { p with parts := p.parts ++ [name] }

/-- The path with the components of a text added. -/
def joinText (p : Path) (s : String) : Path :=
  p.join (ofString s)

/-- **Parent.** The path without its last component; a path without components is its own
parent. -/
def parent (p : Path) : Path :=
  { p with parts := p.parts.dropLast }

/-- The last component, or nothing if there is none. -/
def name (p : Path) : String :=
  p.parts.getLast?.getD ""

/-- Whether `p` is `dir` or lies below it, component by component. -/
def isWithin (p dir : Path) : Bool :=
  p.root = dir.root && dir.parts.isPrefixOf p.parts

/-- **The way down** from a directory: the components of `p` below `dir`, if `p` is `dir` or
starts with it. -/
def below? (p dir : Path) : Option Path :=
  if p.isWithin dir then some { root := .none, parts := p.parts.drop dir.parts.length } else none

/-! ### Small laws -/

/-- A component that was read is neither empty nor a single dot and holds no slash. -/
theorem mem_components {s : List Char} {c : String} (h : c ∈ components s) :
    c ≠ "" ∧ c ≠ "." ∧ '/' ∉ c.toList := by
  simp only [components, List.mem_filter, List.mem_map, decide_eq_true_eq] at h
  obtain ⟨⟨piece, hp, rfl⟩, hne, hdot⟩ := h
  refine ⟨hne, hdot, ?_⟩
  simpa using Text.not_mem_of_mem_splitOn hp

/-- A text made of pieces with slashes between them is at least as long as there are slashes. -/
theorem length_le_intercalate (cs : List String) :
    cs.length ≤ (String.intercalate "/" cs).utf8ByteSize + 1 := by
  induction cs with
  | nil => exact Nat.zero_le _
  | cons c cs ih =>
    by_cases hcs : cs = []
    · rw [hcs]
      exact Nat.le_add_left _ _
    · have hslash : ("/" : String).utf8ByteSize = 1 := by decide
      rw [String.intercalate_cons_of_ne_nil hcs, String.utf8ByteSize_append,
        String.utf8ByteSize_append, hslash, List.length_cons]
      omega

/-- A path has at most one component more than its text has bytes. -/
theorem length_parts_le (p : Path) : p.parts.length ≤ p.text.utf8ByteSize + 1 := by
  rw [text]
  split
  · rename_i hparts
    rw [hparts]
    exact Nat.zero_le _
  · have hlength := length_le_intercalate p.parts
    rw [String.utf8ByteSize_append]
    omega

/-- The way down leads back: joining it to the directory gives the path. -/
theorem join_below? {p dir q : Path} (h : p.below? dir = some q) : dir.join q = p := by
  by_cases hw : p.isWithin dir = true
  · rw [below?, if_pos hw, Option.some.injEq] at h
    simp only [isWithin, Bool.and_eq_true, decide_eq_true_eq] at hw
    obtain ⟨hr, hp⟩ := hw
    obtain ⟨rest, hrest⟩ := List.isPrefixOf_iff_prefix.1 hp
    subst h
    simp only [join, ← hr, ← hrest, List.drop_left]
    rw [hrest]
  · rw [below?, if_neg hw] at h
    simp at h

end Path

end DenoPackager
