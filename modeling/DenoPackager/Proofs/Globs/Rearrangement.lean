import DenoPackager.Proofs.Globs.Expansion

/-!
# Rearranging the alternatives of a pattern

The alternatives of a group may be put into another order, and repeated, in groups at any depth.
What the pattern stands for is then listed in another order, and perhaps more than once, but it is
the same, and so the pattern expands to the same patterns, in some order.

## Main definitions

* `Alternative.Rearranged`, `Group.Rearranged`, `Pattern.Rearranged`: rearrangements of trees.

## Main results

* `Pattern.Rearranged.mem_choices_iff`: a rearranged pattern stands for the same.
* `Pattern.Rearranged.mem_expandBraces_iff`: it expands to the same patterns.
-/

namespace DenoPackager.Glob

/-! ### Rearrangements -/

mutual

/-- **Rearrangements of an alternative**: groups in it are rearranged. -/
inductive Alternative.Rearranged : Alternative → Alternative → Prop
  | done : Alternative.Rearranged .done .done
  | plain (c : Char) (hc : IsInner c) {rest rest' : Alternative}
    (h : Alternative.Rearranged rest rest') :
    Alternative.Rearranged (.plain c hc rest) (.plain c hc rest')
  | group {g g' : Group} {rest rest' : Alternative} (hg : Group.Rearranged g g')
    (h : Alternative.Rearranged rest rest') :
    Alternative.Rearranged (.group g rest) (.group g' rest')

/-- **Rearrangements of a group**: its alternatives are put into another order or repeated, or are
rearranged themselves. -/
inductive Group.Rearranged : Group → Group → Prop
  | members {g g' : Group} (h : ∀ a, a ∈ g.members ↔ a ∈ g'.members) : Group.Rearranged g g'
  | last {a a' : Alternative} (h : Alternative.Rearranged a a') :
    Group.Rearranged (.last a) (.last a')
  | more {a a' : Alternative} {rest rest' : Group} (ha : Alternative.Rearranged a a')
    (h : Group.Rearranged rest rest') : Group.Rearranged (.more a rest) (.more a' rest')
  | trans {g g' g'' : Group} (h : Group.Rearranged g g') (h' : Group.Rearranged g' g'') :
    Group.Rearranged g g''

end

/-- **Rearrangements of a pattern**: groups in it are rearranged. -/
inductive Pattern.Rearranged : Pattern → Pattern → Prop
  | done : Rearranged .done .done
  | plain (c : Char) (hc : c ≠ '{') {rest rest' : Pattern} (h : Rearranged rest rest') :
    Rearranged (.plain c hc rest) (.plain c hc rest')
  | group {g g' : Group} {rest rest' : Pattern} (hg : g.Rearranged g')
    (h : Rearranged rest rest') : Rearranged (.group g rest) (.group g' rest')
  | unclosed (tail : List Char) (h : NeverCloses tail) :
    Rearranged (.unclosed tail h) (.unclosed tail h)

/-! ### What they stand for -/

theorem mem_product_iff {xs ys : List (List Char)} {s : List Char} :
    s ∈ product xs ys ↔ ∃ x ∈ xs, ∃ y ∈ ys, x ++ y = s := by
  simp only [product, List.mem_flatMap, List.mem_map]

mutual

/-- **A rearranged alternative stands for the same.** -/
theorem Alternative.Rearranged.mem_choices_iff {a a' : Alternative} (h : a.Rearranged a')
    (s : List Char) : s ∈ a.choices ↔ s ∈ a'.choices := by
  match h with
  | .done => rfl
  | .plain c hc h => simp only [Alternative.choices, List.mem_map, h.mem_choices_iff]
  | .group hg h =>
    simp only [Alternative.choices, mem_product_iff, hg.mem_choices_iff, h.mem_choices_iff]

/-- So does a rearranged group. -/
theorem Group.Rearranged.mem_choices_iff {g g' : Group} (h : g.Rearranged g') (s : List Char) :
    s ∈ g.choices ↔ s ∈ g'.choices := by
  match h with
  | .members h => simp only [Group.choices_eq, List.mem_flatMap, h]
  | .last h => exact h.mem_choices_iff s
  | .more ha h =>
    simp only [Group.choices, List.mem_append, ha.mem_choices_iff, h.mem_choices_iff]
  | .trans h h' => exact (h.mem_choices_iff s).trans (h'.mem_choices_iff s)

end

/-- **A rearranged pattern stands for the same.** -/
theorem Pattern.Rearranged.mem_choices_iff {p p' : Pattern} (h : p.Rearranged p') (s : List Char) :
    s ∈ p.choices ↔ s ∈ p'.choices := by
  induction h generalizing s with
  | done => rfl
  | plain c hc h ih => simp only [Pattern.choices, List.mem_map, ih]
  | group hg h ih => simp only [Pattern.choices, mem_product_iff, hg.mem_choices_iff, ih]
  | unclosed tail h => rfl

/-- **A rearranged pattern expands to the same patterns**, in some order. -/
theorem Pattern.Rearranged.mem_expandBraces_iff {p p' : Pattern} (h : p.Rearranged p')
    (s : List Char) : s ∈ expandBraces p.text ↔ s ∈ expandBraces p'.text := by
  rw [expandBraces_text, expandBraces_text, List.mem_eraseDups, List.mem_eraseDups,
    h.mem_choices_iff]

end DenoPackager.Glob
