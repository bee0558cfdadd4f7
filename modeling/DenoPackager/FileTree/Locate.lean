import DenoPackager.FileTree.Basic
import DenoPackager.Failure

/-!
# Finding things in a file tree

A path is walked component by component. A name leads to the directory of that name, a double
dot to the directory above, which for the root is the root itself. Every component but the last
has to lead to a directory; the last one may lead to anything, or to nothing yet.

## Main definitions

* `Path.isTooLong`: paths that cannot be looked up.
* `FileTree.enter`: walking through directories.
* `FileTree.locate`: the place that a path leads to, and what stands there.
* `FileTree.isFile`, `FileTree.isDirectory`: what a path leads to, false if it leads nowhere.
* `FileTree.readBytes`, `FileTree.readText`: the content of a file.

## Main results

* `FileTree.enter_induction`: what every step of a walk keeps.
* `FileTree.locate_eq_ok_iff`: what is located.
* `FileTree.readText_eq_ok_iff`: what is read.
-/

namespace DenoPackager

/-- Whether a text holds the character that no file name can hold. -/
def Path.hasNul (s : String) : Bool :=
  s.toList.contains '\x00'

/-- Whether a path is longer than what can be looked up: with the character that ends it, its text
has more than 4096 bytes. The character that no file name can hold is noticed first. -/
def Path.isTooLong (p : Path) : Bool :=
  !p.parts.any Path.hasNul && 4095 < p.text.utf8ByteSize

/-- The place that a path starts from, for a given current directory. -/
def Path.start (p cwd : Path) : Place :=
  match p.root with
  | .none => cwd.parts
  | _ => []

namespace FileTree

/-- **Walking through directories**, from a directory on. -/
def enter (t : FileTree) : Place → List String → Except Fault Place
  | here, [] => .ok here
  | here, c :: cs =>
    if c = Path.up then enter t here.dropLast cs
    else
      match t.get? (here ++ [c]) with
      | some .directory => enter t (here ++ [c]) cs
      | some (.file _) => .error .notDirectory
      | none => .error .notFound

/-- What the last component of a path leads to from the directory before it. -/
def lastStep (t : FileTree) (dir : Place) (c : String) : Place × Option Node :=
  if c = Path.up then (dir.dropLast, some .directory) else (dir ++ [c], t.get? (dir ++ [c]))

/-- **Locating.** The place that a path leads to, and what stands there. -/
def locate (t : FileTree) (cwd p : Path) : Except Fault (Place × Option Node) :=
  if p.parts.any Path.hasNul then .error .badValue
  else
    match p.parts.getLast? with
    | none => .ok (p.start cwd, some .directory)
    | some c =>
      match t.enter (p.start cwd) p.parts.dropLast with
      | .ok dir => .ok (t.lastStep dir c)
      | .error e => .error e

/-- Whether a path leads to a file. -/
def isFile (t : FileTree) (cwd p : Path) : Bool :=
  match t.locate cwd p with
  | .ok (_, some (.file _)) => true
  | _ => false

/-- Whether a path leads to a directory. -/
def isDirectory (t : FileTree) (cwd p : Path) : Bool :=
  match t.locate cwd p with
  | .ok (_, some .directory) => true
  | _ => false

/-- **Reading** the bytes of a file. -/
def readBytes (t : FileTree) (cwd p : Path) : Except Fault ByteArray :=
  match t.locate cwd p with
  | .ok (_, some (.file content)) => .ok content
  | .ok (_, some .directory) => .error .isDirectory
  | .ok (_, none) => .error .notFound
  | .error e => .error e

/-- **The text of a file**: its bytes are UTF-8, and every line end is read as a line feed. -/
def textOfBytes (content : ByteArray) : Except Fault String :=
  match String.fromUTF8? content with
  | some s => .ok (String.ofList (Text.unifyLineEnds s.toList))
  | none => .error .undecodable

/-- Reading the text of a file. -/
def readText (t : FileTree) (cwd p : Path) : Except Fault String :=
  match t.readBytes cwd p with
  | .ok content => textOfBytes content
  | .error e => .error e

/-! ### Small laws -/

/-- Walking through two stretches of directories is walking through one after the other. -/
theorem enter_append (t : FileTree) (here : Place) (cs ds : List String) :
    t.enter here (cs ++ ds) = (t.enter here cs).bind fun mid => t.enter mid ds := by
  induction cs generalizing here with
  | nil => rfl
  | cons c cs ih =>
    simp only [List.cons_append, enter]
    split
    · exact ih _
    · split
      · exact ih _
      · rfl
      · rfl

/-- **What every step of a walk keeps** holds where the walk ends. -/
theorem enter_induction {t : FileTree} {P : Place → Prop} {here dir : Place} {cs : List String}
    (hhere : P here) (habove : ∀ q, P q → P q.dropLast)
    (hbelow : ∀ q, ∀ c ∈ cs, c ≠ Path.up → t.get? (q ++ [c]) = some .directory → P q →
      P (q ++ [c])) (h : t.enter here cs = .ok dir) : P dir := by
  induction cs generalizing here with
  | nil => exact Except.ok.inj h ▸ hhere
  | cons c cs ih =>
    have hrest : ∀ q, ∀ d ∈ cs, d ≠ Path.up → t.get? (q ++ [d]) = some .directory → P q →
        P (q ++ [d]) := fun q d hd => hbelow q d (List.mem_cons_of_mem c hd)
    rw [enter] at h
    split at h
    · exact ih (habove here hhere) hrest h
    · rename_i hc
      split at h
      · rename_i hget
        exact ih (hbelow here c List.mem_cons_self hc hget hhere) hrest h
      · cases h
      · cases h

/-- A path that holds the character that no name can hold leads nowhere. -/
theorem locate_of_hasNul {t : FileTree} {cwd p : Path} (h : p.parts.any Path.hasNul = true) :
    t.locate cwd p = .error .badValue := by
  rw [locate, if_pos h]

/-- A path without components leads to where it starts from. -/
theorem locate_nil {t : FileTree} {cwd p : Path} (hparts : p.parts = []) :
    t.locate cwd p = .ok (p.start cwd, some .directory) := by
  rw [locate, hparts]
  rfl

/-- Any other path leads to its last component from the directory before that. -/
theorem locate_concat {t : FileTree} {cwd p : Path} {cs : List String} {c : String}
    (hnul : p.parts.any Path.hasNul = false) (hparts : p.parts = cs ++ [c]) :
    t.locate cwd p = (t.enter (p.start cwd) cs).map fun dir => t.lastStep dir c := by
  rw [locate, if_neg (by simp [hnul]), hparts, List.getLast?_concat, List.dropLast_concat]
  cases t.enter (p.start cwd) cs with
  | error e => rfl
  | ok dir => rfl

/-- **What is located**: the start of a path without components, and else what its last component
leads to. -/
theorem locate_eq_ok_iff {t : FileTree} {cwd p : Path} {found : Place × Option Node} :
    t.locate cwd p = .ok found ↔ p.parts.any Path.hasNul = false ∧
      (p.parts = [] ∧ found = (p.start cwd, some .directory) ∨
        ∃ cs c dir, p.parts = cs ++ [c] ∧ t.enter (p.start cwd) cs = .ok dir ∧
          found = t.lastStep dir c) := by
  cases hnul : p.parts.any Path.hasNul with
  | true => simp [locate_of_hasNul hnul]
  | false =>
    constructor
    · intro h
      refine ⟨rfl, ?_⟩
      rcases List.eq_nil_or_concat p.parts with hparts | ⟨cs, c, hparts⟩
      · rw [locate_nil hparts] at h
        exact .inl ⟨hparts, (Except.ok.inj h).symm⟩
      · rw [List.concat_eq_append] at hparts
        rw [locate_concat hnul hparts] at h
        cases henter : t.enter (p.start cwd) cs with
        | error e =>
          rw [henter] at h
          cases h
        | ok dir =>
          rw [henter] at h
          exact .inr ⟨cs, c, dir, hparts, henter, (Except.ok.inj h).symm⟩
    · rintro ⟨-, ⟨hparts, rfl⟩ | ⟨cs, c, dir, hparts, henter, rfl⟩⟩
      · exact locate_nil hparts
      · rw [locate_concat hnul hparts, henter]
        rfl

/-- A file that is located stands there, below the directory that its way leads through. -/
theorem exists_of_locate_file {t : FileTree} {cwd p : Path} {place : Place} {content : ByteArray}
    (h : t.locate cwd p = .ok (place, some (.file content))) : ∃ cs c dir, p.parts = cs ++ [c] ∧
      c ≠ Path.up ∧ t.enter (p.start cwd) cs = .ok dir ∧ place = dir ++ [c] ∧
        t.get? (dir ++ [c]) = some (.file content) := by
  obtain ⟨-, ⟨-, hfound⟩ | ⟨cs, c, dir, hparts, henter, hfound⟩⟩ := locate_eq_ok_iff.1 h
  · simp at hfound
  · rw [lastStep] at hfound
    split at hfound
    · simp at hfound
    · rename_i hc
      obtain ⟨hplace, hget⟩ := Prod.mk.inj hfound
      exact ⟨cs, c, dir, hparts, hc, henter, hplace, hget.symm⟩

/-- A path leads to a file exactly if one is located. -/
theorem isFile_eq_true_iff {t : FileTree} {cwd p : Path} : t.isFile cwd p = true ↔
    ∃ place content, t.locate cwd p = .ok (place, some (.file content)) := by
  rw [isFile]
  constructor
  · intro h
    split at h
    · rename_i place content hlocate
      exact ⟨place, content, hlocate⟩
    · cases h
  · rintro ⟨place, content, hlocate⟩
    rw [hlocate]

/-- **What is read** is the text of the file that is located. -/
theorem readText_eq_ok_iff {t : FileTree} {cwd p : Path} {text : String} :
    t.readText cwd p = .ok text ↔ ∃ place content,
      t.locate cwd p = .ok (place, some (.file content)) ∧ textOfBytes content = .ok text := by
  rw [readText, readBytes]
  cases t.locate cwd p with
  | error e => simp
  | ok found =>
    obtain ⟨place, _ | (_ | content)⟩ := found
    · simp
    · simp
    · constructor
      · exact fun h => ⟨place, content, rfl, h⟩
      · rintro ⟨_, _, hfound, h⟩
        obtain ⟨-, ⟨⟩⟩ := Prod.mk.inj (Except.ok.inj hfound)
        exact h

end FileTree

end DenoPackager
