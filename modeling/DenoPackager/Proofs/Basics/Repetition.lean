import Mathlib.Data.List.Nodup

/-!
# Lists without repetitions

Erasing repetitions keeps what occurs in a list, and which of two elements comes first. So it can be
done at any time, or more than once, and the result is the same.

## Main results

* `eraseDups_filter`, `eraseDups_map`: erasing repetitions before or after.
* `eraseDups_of_nodup`: a list in which nothing is to be erased.
* `eraseDups_flatMap_congr`: erasing repetitions on the way.
* `firstUses_eraseDups`: what is left is in order of first use, whatever counts as a repetition.
-/

namespace DenoPackager

section

variable {α : Type} [BEq α]

/-- **In order of first use**: no two of the items that are kept are equal, every item that is used
is kept or equal to one that is, and each one stands where it was used first, that is behind a start
of the uses in which there is nothing but what is kept before it. -/
structure FirstUses (uses kept : List α) : Prop where
  distinct : kept.Pairwise fun a b => (b == a) = false
  complete : ∀ a ∈ uses, ∃ b ∈ kept, b = a ∨ (a == b) = true
  first : ∀ before a after, kept = before ++ a :: after → ∃ earlier later,
    uses = earlier ++ a :: later ∧ ∀ e ∈ earlier, ∃ b ∈ before, b = e ∨ (e == b) = true

namespace FirstUses

variable {uses kept : List α} {a : α}

/-- Nothing is kept that is not used. -/
theorem subset (h : FirstUses uses kept) : kept ⊆ uses := by
  intro a ha
  obtain ⟨before, after, hkept⟩ := List.append_of_mem ha
  obtain ⟨earlier, later, huses, -⟩ := h.first before a after hkept
  exact huses ▸ List.mem_append_right _ List.mem_cons_self

/-- **A first item** is kept in front of all others that are not equal to it. -/
theorem cons (h : FirstUses (uses.filter fun b => !b == a) kept) :
    FirstUses (a :: uses) (a :: kept) where
  distinct := by
    refine List.pairwise_cons.2 ⟨fun b hb => ?_, h.distinct⟩
    simpa using (List.mem_filter.1 (h.subset hb)).2
  complete := by
    intro b hb
    obtain rfl | hb := List.mem_cons.1 hb
    · exact ⟨b, List.mem_cons_self, .inl rfl⟩
    by_cases heq : (b == a) = true
    · exact ⟨a, List.mem_cons_self, .inr heq⟩
    · obtain ⟨k, hk, hbk⟩ := h.complete b (List.mem_filter.2 ⟨hb, by simpa using heq⟩)
      exact ⟨k, List.mem_cons_of_mem a hk, hbk⟩
  first := by
    intro before b after hsplit
    cases before with
    | nil =>
      obtain ⟨rfl, rfl⟩ := List.cons.inj hsplit
      exact ⟨[], uses, rfl, by simp⟩
    | cons x before =>
      obtain ⟨rfl, hkept⟩ := List.cons.inj hsplit
      obtain ⟨earlier, later, hfilter, hearlier⟩ := h.first before b after hkept
      obtain ⟨front, rest, rfl, rfl, hrest⟩ := List.filter_eq_append_iff.1 hfilter
      obtain ⟨skipped, last, rfl, hskipped, -⟩ := List.filter_eq_cons_iff.1 hrest
      refine ⟨a :: (front ++ skipped), last, by simp, ?_⟩
      -- what was left out in front is equal to the first item
      have hequal : ∀ e, (!e == a) ≠ true → ∃ k ∈ a :: before, k = e ∨ (e == k) = true :=
        fun e he => ⟨a, List.mem_cons_self, .inr (by simpa using he)⟩
      intro e he
      obtain rfl | he := List.mem_cons.1 he
      · exact ⟨e, List.mem_cons_self, .inl rfl⟩
      obtain he | he := List.mem_append.1 he
      · by_cases hkeep : (!e == a) = true
        · obtain ⟨k, hk, hek⟩ := hearlier e (List.mem_filter.2 ⟨he, hkeep⟩)
          exact ⟨k, List.mem_cons_of_mem a hk, hek⟩
        · exact hequal e hkeep
      · exact hequal e (hskipped e he)

end FirstUses

/-- **Erasing repetitions** leaves the items in order of first use. -/
theorem firstUses_eraseDups (xs : List α) : FirstUses xs xs.eraseDups := by
  match xs with
  | [] =>
    rw [List.eraseDups_nil]
    exact ⟨.nil, by simp, by simp⟩
  | x :: xs =>
    have hlen : (xs.filter fun b => !b == x).length < (x :: xs).length :=
      Nat.lt_succ_of_le (List.length_filter_le _ _)
    rw [List.eraseDups_cons]
    exact .cons (firstUses_eraseDups (xs.filter fun b => !b == x))
  termination_by xs.length
  decreasing_by exact hlen

end

variable {α β : Type} [BEq α] [LawfulBEq α] [BEq β] [LawfulBEq β]

/-- Erasing repetitions and leaving elements out can be done in any order. -/
theorem eraseDups_filter (p : α → Bool) (xs : List α) :
    (xs.filter p).eraseDups = xs.eraseDups.filter p := by
  match xs with
  | [] => rfl
  | x :: xs =>
    have hlen : (xs.filter fun y => !y == x).length < (x :: xs).length :=
      Nat.lt_succ_of_le (List.length_filter_le _ _)
    have ih := eraseDups_filter p (xs.filter fun y => !y == x)
    by_cases hx : p x = true
    · rw [List.filter_cons_of_pos hx, List.eraseDups_cons, List.eraseDups_cons,
        List.filter_cons_of_pos hx, ← ih, List.filter_comm]
    · have hleft : (xs.filter fun y => !y == x).filter p = xs.filter p := by
        rw [List.filter_filter]
        refine List.filter_congr fun y _ => ?_
        by_cases hy : y = x
        · simp [hy, hx]
        · simp [hy]
      rw [List.filter_cons_of_neg hx, List.eraseDups_cons, List.filter_cons_of_neg hx, ← ih, hleft]
  termination_by xs.length
  decreasing_by exact hlen

/-- The first element is left out of what follows. -/
theorem eraseDups_cons_filter (x : α) (xs : List α) :
    (x :: xs).eraseDups = x :: xs.eraseDups.filter fun y => !y == x := by
  rw [List.eraseDups_cons, eraseDups_filter]

theorem nodup_eraseDups (xs : List α) : xs.eraseDups.Nodup := by
  induction xs with
  | nil => exact .nil
  | cons x xs ih =>
    rw [eraseDups_cons_filter, List.nodup_cons]
    exact ⟨by simp, ih.filter _⟩

/-- Without repetitions there is nothing to erase. -/
theorem eraseDups_of_nodup {xs : List α} (h : xs.Nodup) : xs.eraseDups = xs := by
  induction xs with
  | nil => rfl
  | cons x xs ih =>
    rw [List.nodup_cons] at h
    have hrest : (xs.filter fun y => !y == x) = xs := by
      rw [List.filter_eq_self]
      intro y hy
      simpa using fun heq : y = x => h.1 (heq ▸ hy)
    rw [eraseDups_cons_filter, ih h.2, hrest]

theorem eraseDups_eraseDups (xs : List α) : xs.eraseDups.eraseDups = xs.eraseDups :=
  eraseDups_of_nodup (nodup_eraseDups xs)

/-- Different elements stay different. -/
theorem eraseDups_map {f : α → β} (hf : Function.Injective f) (xs : List α) :
    (xs.map f).eraseDups = xs.eraseDups.map f := by
  induction xs with
  | nil => rfl
  | cons x xs ih =>
    rw [List.map_cons, eraseDups_cons_filter, eraseDups_cons_filter, ih, List.map_cons,
      List.filter_map]
    simp [Function.comp_def, hf.beq_eq]

/-- Which elements come first does not depend on repetitions. -/
theorem eraseDups_append_congr {xs xs' ys ys' : List α} (hx : xs.eraseDups = xs'.eraseDups)
    (hy : ys.eraseDups = ys'.eraseDups) : (xs ++ ys).eraseDups = (xs' ++ ys').eraseDups := by
  have hmem : ∀ y, xs.elem y = xs'.elem y := by
    intro y
    rw [Bool.eq_iff_iff, List.elem_iff, List.elem_iff, ← List.mem_eraseDups, hx,
      List.mem_eraseDups]
  rw [List.eraseDups_append, List.eraseDups_append, hx, List.removeAll, List.removeAll,
    eraseDups_filter, eraseDups_filter, hy]
  simp only [hmem]

/-- **Erasing repetitions on the way** does not show at the end. -/
theorem eraseDups_flatMap_congr {γ : Type} {f g : γ → List α} {xs : List γ}
    (h : ∀ x ∈ xs, (f x).eraseDups = (g x).eraseDups) :
    (xs.flatMap f).eraseDups = (xs.flatMap g).eraseDups := by
  induction xs with
  | nil => rfl
  | cons x xs ih =>
    rw [List.flatMap_cons, List.flatMap_cons]
    exact eraseDups_append_congr (h x List.mem_cons_self)
      (ih fun y hy => h y (List.mem_cons_of_mem x hy))

end DenoPackager
