import DenoPackager.Path.Normal

/-!
# Paths and their texts

A path that was read, or made from paths that were read, has components that can stand between
two slashes. Such a path is told by its text: reading the text gives the path back.

## Main definitions

* `ProperPart`: what can be a component of a path that was read.
* `Path.Proper`: paths with such components only.

## Main results

* `Path.Proper.ofString`, `Path.Proper.join`: where proper paths come from.
* `Path.ofString_text`: a proper path that was written is read back.
* `Path.text_injective`: proper paths with the same text are the same.
-/

namespace DenoPackager

namespace Text

variable {sep : Char} {a : List Char}

/-- A text without the character it is split at is one stretch. -/
theorem splitOn_of_not_mem (h : sep ∉ a) : splitOn sep a = [a] := by
  induction a with
  | nil => rfl
  | cons c cs ih =>
    rw [List.mem_cons, not_or] at h
    rw [splitOn, ih h.2]
    exact if_neg (Ne.symm h.1)

/-- What stands on the two sides of a separator is split on its own. -/
theorem splitOn_append (a b : List Char) :
    splitOn sep (a ++ sep :: b) = splitOn sep a ++ splitOn sep b := by
  induction a with
  | nil =>
    obtain ⟨piece, pieces, hb⟩ := List.exists_cons_of_ne_nil (splitOn_ne_nil sep b)
    have hnil : splitOn sep [] = [[]] := rfl
    rw [List.nil_append, hnil, hb, List.singleton_append, splitOn, hb]
    exact if_pos rfl
  | cons c cs ih =>
    obtain ⟨piece, pieces, hcs⟩ := List.exists_cons_of_ne_nil (splitOn_ne_nil sep cs)
    rw [List.cons_append, splitOn, splitOn, ih, hcs]
    by_cases hc : c = sep
    · simp only [List.cons_append, if_pos hc]
    · simp only [List.cons_append, if_neg hc]

/-- **Stretches are told apart** by a separator that is in none of them. -/
theorem splitOn_intercalate {pieces : List (List Char)} (h : ∀ piece ∈ pieces, sep ∉ piece)
    (hne : pieces ≠ []) : splitOn sep ([sep].intercalate pieces) = pieces := by
  induction pieces with
  | nil => exact absurd rfl hne
  | cons piece pieces ih =>
    have hpiece := splitOn_of_not_mem (h piece List.mem_cons_self)
    cases pieces with
    | nil => rw [List.intercalate_singleton, hpiece]
    | cons next rest =>
      have hrest := ih (fun p hp => h p (List.mem_cons_of_mem piece hp)) (by simp)
      rw [List.intercalate_cons_cons, List.append_assoc, List.singleton_append, splitOn_append,
        hpiece, hrest, List.singleton_append]

end Text

namespace Path

/-- **Proper components**: what can stand between two slashes of a path that was read. -/
def ProperPart (c : String) : Prop :=
  c ≠ "" ∧ c ≠ "." ∧ '/' ∉ c.toList

instance (c : String) : Decidable (ProperPart c) :=
  inferInstanceAs (Decidable (_ ∧ _))

/-- **Proper paths** have proper components. -/
def Proper (p : Path) : Prop :=
  ∀ c ∈ p.parts, ProperPart c

theorem properPart_up : ProperPart up := by
  refine ⟨by decide, by decide, by decide⟩

/-- What was read is proper. -/
theorem Proper.ofString (s : String) : (Path.ofString s).Proper :=
  fun _ hc => mem_components hc

variable {p q : Path}

theorem Proper.join (hp : p.Proper) (hq : q.Proper) : (p.join q).Proper := by
  intro c hc
  rw [Path.join] at hc
  split at hc
  · rcases List.mem_append.1 hc with hc | hc
    · exact hp c hc
    · exact hq c hc
  · exact hq c hc

theorem Proper.normal (hp : p.Proper) : p.normal.Proper :=
  fun c hc => hp c (mem_of_mem_normalParts hc)

theorem Proper.child (hp : p.Proper) {name : String} (hname : ProperPart name) :
    (p.child name).Proper := by
  intro c hc
  rcases List.mem_append.1 hc with hc | hc
  · exact hp c hc
  · rw [List.mem_singleton.1 hc]
    exact hname

theorem Proper.parent (hp : p.Proper) : p.parent.Proper :=
  fun c hc => hp c (List.dropLast_subset _ hc)

/-! ### Reading what was written -/

/-- The components on the two sides of a slash are read on their own. -/
theorem components_append (a b : List Char) :
    components (a ++ '/' :: b) = components a ++ components b := by
  rw [components, Text.splitOn_append, List.map_append, List.filter_append]
  rfl

/-- A slash in front says nothing about the components. -/
theorem components_slash (s : List Char) : components ('/' :: s) = components s :=
  components_append [] s

/-- Between slashes there is what was put there. -/
theorem splitOn_intercalate {cs : List String} (h : ∀ c ∈ cs, ProperPart c) (hne : cs ≠ []) :
    Text.splitOn '/' (String.intercalate "/" cs).toList = cs.map String.toList := by
  rw [String.toList_intercalate]
  refine Text.splitOn_intercalate ?_ (by simpa using hne)
  intro piece hpiece
  obtain ⟨c, hc, rfl⟩ := List.mem_map.1 hpiece
  exact (h c hc).2.2

/-- **Proper components are read back.** -/
theorem components_intercalate {cs : List String} (h : ∀ c ∈ cs, ProperPart c) :
    components (String.intercalate "/" cs).toList = cs := by
  by_cases hne : cs = []
  · rw [hne]
    rfl
  · have hmap : (cs.map String.toList).map String.ofList = cs := by
      rw [List.map_map]
      exact List.map_id'' (fun c => String.ofList_toList) cs
    rw [components, splitOn_intercalate h hne, hmap, List.filter_eq_self]
    intro c hc
    exact decide_eq_true ⟨(h c hc).1, (h c hc).2.1⟩

/-- What proper components are written as does not start with a slash. -/
theorem head?_intercalate {cs : List String} (h : ∀ c ∈ cs, ProperPart c) :
    (String.intercalate "/" cs).toList.head? ≠ some '/' := by
  rw [String.toList_intercalate]
  cases cs with
  | nil => simp
  | cons c cs =>
    obtain ⟨hne, -, hslash⟩ := h c List.mem_cons_self
    obtain ⟨x, xs, hx⟩ := List.exists_cons_of_ne_nil (mt String.toList_eq_nil_iff.1 hne)
    rw [hx, List.mem_cons, not_or] at hslash
    cases cs with
    | nil => simpa [hx] using Ne.symm hslash.1
    | cons d ds => simpa [hx, List.intercalate_cons_cons] using Ne.symm hslash.1

/-- A text starts from a root if it starts with a slash. -/
theorem rootOf_ne_none_iff {s : List Char} : rootOf s ≠ .none ↔ s.head? = some '/' := by
  cases s with
  | nil => simp [rootOf]
  | cons c s =>
    by_cases hc : c = '/'
    · rw [rootOf, List.takeWhile_cons_of_pos (by simpa using hc)]
      refine iff_of_true ?_ (by rw [hc]; rfl)
      split <;> simp_all
    · rw [rootOf, List.takeWhile_cons_of_neg (by simpa using hc)]
      simp [hc]

/-- The root is read back, if no further slash follows it. -/
theorem rootOf_append (r : Root) {s : List Char} (h : s.head? ≠ some '/') :
    rootOf ((rootText r).toList ++ s) = r := by
  have hs : s.takeWhile (· = '/') = [] := by
    cases s with
    | nil => rfl
    | cons c cs => exact List.takeWhile_cons_of_neg (by simpa using h)
  cases r with
  | none => simp [rootOf, rootText, hs]
  | single => simp [rootOf, rootText, hs]
  | double => simp [rootOf, rootText, hs]

/-- The slashes of a root say nothing about the components. -/
theorem components_rootText (r : Root) (s : List Char) :
    components ((rootText r).toList ++ s) = components s := by
  cases r with
  | none => rfl
  | single => exact components_slash s
  | double => exact (components_slash _).trans (components_slash s)

/-- A root and proper components are read back. -/
theorem ofString_rootText (r : Root) {cs : List String} (h : ∀ c ∈ cs, ProperPart c) :
    ofString (rootText r ++ String.intercalate "/" cs) = ⟨r, cs⟩ := by
  rw [ofString, String.toList_append, rootOf_append r (head?_intercalate h),
    components_rootText, components_intercalate h]

/-- Proper components with slashes between them are read as a relative path. -/
theorem ofString_intercalate {cs : List String} (h : ∀ c ∈ cs, ProperPart c) :
    ofString (String.intercalate "/" cs) = ⟨.none, cs⟩ := by
  have hread := ofString_rootText .none h
  rwa [rootText, String.empty_append] at hread

/-- A relative path with components is written as its components. -/
theorem text_relative {cs : List String} (hne : cs ≠ []) :
    text ⟨.none, cs⟩ = String.intercalate "/" cs := by
  cases cs with
  | nil => exact absurd rfl hne
  | cons c cs => exact String.empty_append

/-- **A proper path that was written is read back.** -/
theorem ofString_text (hp : p.Proper) : ofString p.text = p := by
  obtain ⟨root, parts⟩ := p
  cases root with
  | none =>
    cases parts with
    | nil => decide
    | cons c cs => exact ofString_rootText .none hp
  | single => exact ofString_rootText .single hp
  | double => exact ofString_rootText .double hp

/-- **Proper paths with the same text are the same.** -/
theorem text_injective (hp : p.Proper) (hq : q.Proper) (h : p.text = q.text) : p = q := by
  rw [← ofString_text hp, ← ofString_text hq, h]

end Path

end DenoPackager
