import Mathlib.Data.List.Infix

/-!
# Braces that are closed

A text is read with a number of braces open in front of it. It closes none that is not open, if
wherever it is cut off, no more braces were closed in it than opened there or in front of it.

## Main results

* `closes_cons_iff`: the condition, one character at a time.
-/

namespace DenoPackager.Text

/-- **One character of a text that closes no brace that is not open**, behind `d` open ones. -/
theorem closes_cons_iff {d : Nat} {c : Char} {s : List Char} :
    (∀ p, p <+: c :: s → p.count '\x7d' ≤ d + p.count '\x7b') ↔
      (c = '\x7d' → d ≠ 0) ∧ ∀ p, p <+: s →
        p.count '\x7d' ≤
          (if c = '\x7b' then d + 1 else if c = '\x7d' then d - 1 else d) + p.count '\x7b' := by
  simp only [← List.mem_inits, List.inits_cons, List.forall_mem_cons, List.forall_mem_map,
    List.count_nil, Nat.zero_le, true_and]
  simp only [List.mem_inits]
  by_cases hopen : c = '\x7b'
  · subst hopen
    rw [if_pos rfl, and_iff_right fun hc => absurd hc (by decide)]
    refine forall₂_congr fun p _ => ?_
    rw [List.count_cons_self, List.count_cons_of_ne (by decide)]
    omega
  by_cases hclose : c = '\x7d'
  · subst hclose
    rw [if_neg hopen, if_pos rfl]
    constructor
    · intro h
      have hd : 1 ≤ d := by simpa using h [] List.nil_prefix
      refine ⟨fun _ => Nat.ne_of_gt hd, fun p hp => ?_⟩
      have hcount := h p hp
      rw [List.count_cons_self, List.count_cons_of_ne (by decide)] at hcount
      omega
    · rintro ⟨hd, h⟩ p hp
      have hcount := h p hp
      have hpos := hd rfl
      rw [List.count_cons_self, List.count_cons_of_ne (by decide)]
      omega
  · rw [if_neg hopen, if_neg hclose, and_iff_right fun hc => absurd hc hclose]
    refine forall₂_congr fun p _ => ?_
    rw [List.count_cons_of_ne hclose, List.count_cons_of_ne hopen]

end DenoPackager.Text
