/-!
# Brace alternatives

A pattern may hold groups of alternatives between braces, divided by commas; groups may be
nested. Expanding a pattern writes out every choice. A closing brace without an open one stands
for itself, and so does everything from an opening brace that is never closed.

## Main definitions

* `firstGroup?`: a pattern taken apart at its first group.
* `alternatives`: the alternatives of a group.
* `expandBraces`: the patterns that a pattern stands for.
-/

namespace DenoPackager.Glob

/-- The body of a group that is open and the text after it, with `depth` further groups open
inside. -/
def closeGroup? (depth : Nat) : List Char → Option (List Char × List Char)
  | [] => none
  | c :: cs =>
    if c = '{' then (closeGroup? (depth + 1) cs).map fun (body, after) => (c :: body, after)
    else if c = '}' then
      match depth with
      | 0 => some ([], cs)
      | d + 1 => (closeGroup? d cs).map fun (body, after) => (c :: body, after)
    else (closeGroup? depth cs).map fun (body, after) => (c :: body, after)

/-- **The first group** of a pattern: the text before it, its body, and the text after it. -/
def firstGroup? (s : List Char) : Option (List Char × List Char × List Char) :=
  match s.dropWhile (· ≠ '{') with
  | _ :: rest => (closeGroup? 0 rest).map fun (body, after) => (s.takeWhile (· ≠ '{'), body, after)
  | [] => none

/-- Putting a character in front of the first of some texts. -/
def consFirst (c : Char) : List (List Char) → List (List Char)
  | [] => [[c]]
  | a :: as => (c :: a) :: as

/-- **The alternatives** of a group's body: it is divided at the commas outside inner groups, of
which `depth` are open. -/
def alternatives (depth : Nat) : List Char → List (List Char)
  | [] => [[]]
  | c :: cs =>
    if c = ',' ∧ depth = 0 then [] :: alternatives depth cs
    else if c = '{' then consFirst c (alternatives (depth + 1) cs)
    else if c = '}' then consFirst c (alternatives (depth - 1) cs)
    else consFirst c (alternatives depth cs)

/-! ### Fewer braces -/

/-- A character in front of a body adds no more braces than it adds to the text. -/
theorem count_map_cons {c : Char} {cs body after : List Char}
    {found : Option (List Char × List Char)}
    (hfound : ∀ b a, found = some (b, a) → b.count '{' + a.count '{' ≤ cs.count '{')
    (h : found.map (fun (body, after) => (c :: body, after)) = some (body, after)) :
    body.count '{' + after.count '{' ≤ (c :: cs).count '{' := by
  obtain ⟨⟨b, a⟩, hb, he⟩ := Option.map_eq_some_iff.1 h
  simp only [Prod.mk.injEq] at he
  obtain ⟨rfl, rfl⟩ := he
  have hle := hfound b a hb
  simp only [List.count_cons]
  omega

theorem count_closeGroup? {depth : Nat} {s body after : List Char}
    (h : closeGroup? depth s = some (body, after)) :
    body.count '{' + after.count '{' ≤ s.count '{' := by
  induction s generalizing depth body after with
  | nil => simp [closeGroup?] at h
  | cons c cs ih =>
    simp only [closeGroup?] at h
    split at h
    · exact count_map_cons (fun _ _ => ih) h
    · split at h
      · split at h
        · simp only [Option.some.injEq, Prod.mk.injEq] at h
          obtain ⟨rfl, rfl⟩ := h
          simp only [List.count_nil, List.count_cons]
          omega
        · exact count_map_cons (fun _ _ => ih) h
      · exact count_map_cons (fun _ _ => ih) h

theorem count_le_of_mem_consFirst {c x : Char} {as : List (List Char)} {a : List Char} {n : Nat}
    (h : a ∈ consFirst c as) (hn : ∀ b ∈ as, b.count x ≤ n) :
    a.count x ≤ n + (if c = x then 1 else 0) := by
  cases as with
  | nil =>
    simp only [consFirst, List.mem_singleton] at h
    subst h
    by_cases hc : c = x <;> simp [hc]
  | cons b bs =>
    simp only [consFirst, List.mem_cons] at h
    rcases h with rfl | h
    · have := hn b List.mem_cons_self
      by_cases hc : c = x <;> simp [hc] <;> omega
    · have := hn a (List.mem_cons_of_mem _ h)
      omega

theorem count_alternatives {depth : Nat} {s a : List Char} (h : a ∈ alternatives depth s) :
    a.count '{' ≤ s.count '{' := by
  induction s generalizing depth a with
  | nil => simp_all [alternatives]
  | cons c cs ih =>
    have step : ∀ d, a ∈ consFirst c (alternatives d cs) → a.count '{' ≤ (c :: cs).count '{' := by
      intro d hd
      have := count_le_of_mem_consFirst hd fun b hb => ih hb
      simpa only [List.count_cons, beq_iff_eq] using this
    simp only [alternatives] at h
    split at h
    · rcases List.mem_cons.1 h with rfl | h
      · simp
      · exact Nat.le_trans (ih h) (List.count_le_count_cons)
    · split at h
      · exact step _ h
      · split at h
        · exact step _ h
        · exact step _ h

theorem count_firstGroup? {s before body after : List Char}
    (h : firstGroup? s = some (before, body, after)) :
    before.count '{' + body.count '{' + after.count '{' < s.count '{' := by
  simp only [firstGroup?] at h
  split at h
  · rename_i c rest hd
    obtain ⟨⟨b, a⟩, hb, he⟩ := Option.map_eq_some_iff.1 h
    simp only [Prod.mk.injEq] at he
    obtain ⟨rfl, rfl, rfl⟩ := he
    have hc : c = '{' := by
      have hhead := List.head?_dropWhile_not (fun c => decide (c ≠ '{')) s
      rw [hd] at hhead
      simpa using hhead
    subst hc
    have hle := count_closeGroup? hb
    have hs : s.count '{' = (s.takeWhile (· ≠ '{')).count '{' + ('{' :: rest).count '{' := by
      rw [← List.count_append, ← hd, List.takeWhile_append_dropWhile]
    rw [hs, List.count_cons_self]
    omega
  · simp at h

/-- **Expanding** a pattern, without repetition, the choice in the first group varying
slowest. The text before the first group stands in front of every choice. -/
def expandBraces (s : List Char) : List (List Char) :=
  match _h : firstGroup? s with
  | none => [s]
  | some (before, body, after) =>
    (((alternatives 0 body).attach.flatMap fun ⟨a, _ha⟩ => expandBraces (a ++ after)).eraseDups).map
      (before ++ ·)
  termination_by s.count '{'
  decreasing_by
    have h₁ := count_firstGroup? _h
    have h₂ := count_alternatives _ha
    simp only [List.count_append]
    omega

end DenoPackager.Glob
