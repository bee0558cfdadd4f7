import DenoPackager.Proofs.Basics.Repetition
import DenoPackager.Proofs.Globs.Grammar

/-!
# Expanding a pattern

A pattern is expanded by writing each alternative of its first group in place of the group and
expanding what comes of it, without repetition each time. This gives what the pattern stands for as
a tree, without repetition at the end: an alternative closes all braces that it opens, so with the
text behind the group it is the text of a tree again, that of the alternative in front of the rest.

## Main results

* `Group.alternatives_text`, `Pattern.firstGroup?_text`: what is found in the text of a tree.
* `expandBraces_text`: what a pattern expands to.
* `expandBraces_choices`: the same for every text, which need not be expanded again.
-/

namespace DenoPackager.Glob

/-! ### The alternatives of a group -/

theorem foldr_consFirst (w x : List Char) (xs : List (List Char)) :
    w.foldr consFirst (x :: xs) = (w ++ x) :: xs := by
  induction w with
  | nil => rfl
  | cons c w ih => rw [List.foldr_cons, ih]; rfl

section Alternatives

variable {d : Nat} {c : Char} {s : List Char}

theorem alternatives_open :
    alternatives d ('{' :: s) = consFirst '{' (alternatives (d + 1) s) := rfl

theorem alternatives_close :
    alternatives (d + 1) ('}' :: s) = consFirst '}' (alternatives d s) := rfl

theorem alternatives_comma : alternatives 0 (',' :: s) = [] :: alternatives 0 s := rfl

/-- A comma in an inner group divides nothing. -/
theorem alternatives_comma_succ :
    alternatives (d + 1) (',' :: s) = consFirst ',' (alternatives (d + 1) s) := rfl

theorem alternatives_plain (h : IsInner c) :
    alternatives d (c :: s) = consFirst c (alternatives d s) := by
  rw [alternatives, if_neg fun hc => h.2.2 hc.1, if_neg h.1, if_neg h.2.1]

end Alternatives

mutual

/-- **An alternative is not divided.** -/
theorem Alternative.alternatives_text (a : Alternative) (d : Nat) (s : List Char) :
    alternatives d (a.text ++ s) = a.text.foldr consFirst (alternatives d s) := by
  cases a with
  | done => rfl
  | plain c h rest =>
    rw [Alternative.text, List.cons_append, alternatives_plain h, rest.alternatives_text]
    rfl
  | group g rest =>
    rw [Alternative.text, List.cons_append, List.append_assoc, List.cons_append,
      alternatives_open, g.alternatives_text_inner, alternatives_close, rest.alternatives_text,
      List.foldr_cons, List.foldr_append]
    rfl

/-- Neither is a group in another one. -/
theorem Group.alternatives_text_inner (g : Group) (d : Nat) (s : List Char) :
    alternatives (d + 1) (g.text ++ s) = g.text.foldr consFirst (alternatives (d + 1) s) := by
  cases g with
  | last a => exact a.alternatives_text (d + 1) s
  | more a rest =>
    rw [Group.text, List.append_assoc, List.cons_append, a.alternatives_text,
      alternatives_comma_succ, rest.alternatives_text_inner, List.foldr_append]
    rfl

end

/-- **A group is divided into its alternatives.** -/
theorem Group.alternatives_text (g : Group) :
    alternatives 0 g.text = g.members.map Alternative.text := by
  cases g with
  | last a =>
    have h := a.alternatives_text 0 []
    rw [List.append_nil, alternatives, foldr_consFirst, List.append_nil] at h
    exact h
  | more a rest =>
    rw [Group.text, a.alternatives_text, alternatives_comma, foldr_consFirst, List.append_nil,
      rest.alternatives_text]
    rfl

/-! ### The first group of a pattern -/

section FirstGroup

variable {c : Char} {s : List Char}

theorem firstGroup?_plain (hc : c ≠ '{') :
    firstGroup? (c :: s) = (firstGroup? s).map fun r => (c :: r.1, r.2.1, r.2.2) := by
  rw [firstGroup?, firstGroup?, List.dropWhile_cons_of_pos (by simpa using hc),
    List.takeWhile_cons_of_pos (by simpa using hc)]
  cases s.dropWhile (· ≠ '{') with
  | nil => rfl
  | cons x rest => simp [Function.comp_def]

theorem firstGroup?_open :
    firstGroup? ('{' :: s) = (closeGroup? 0 s).map fun r => ([], r.1, r.2) := rfl

end FirstGroup

/-- A brace that is never closed starts no group. -/
theorem NeverCloses.firstGroup?_eq_none {s : List Char} (h : NeverCloses s) :
    firstGroup? ('{' :: s) = none := by
  rw [firstGroup?_open, Option.map_eq_none_iff, closeGroup?_eq_none_iff]
  intro p hp
  rw [Nat.zero_add]
  exact h p hp

/-- **The first group of a pattern**: if there is none, the pattern stands for itself. -/
theorem Pattern.firstGroup?_text (p : Pattern) :
    (firstGroup? p.text = none ∧ p.choices = [p.text]) ∨
      ∃ (before : List Char) (g : Group) (rest : Pattern),
        firstGroup? p.text = some (before, g.text, rest.text) ∧
        p.choices = (product g.choices rest.choices).map (before ++ ·) := by
  induction p with
  | done => exact .inl ⟨rfl, rfl⟩
  | unclosed tail h => exact .inl ⟨h.firstGroup?_eq_none, rfl⟩
  | group g rest _ =>
    refine .inr ⟨[], g, rest, ?_, (List.map_id _).symm⟩
    rw [Pattern.text, firstGroup?_open, g.closeGroup?_text, closeGroup?_close_zero]
    simp
  | plain c h rest ih =>
    rcases ih with ⟨hnone, hchoices⟩ | ⟨before, g, rest', hsome, hchoices⟩
    · left
      rw [Pattern.text, firstGroup?_plain h, hnone, Pattern.choices, hchoices]
      exact ⟨rfl, rfl⟩
    · refine .inr ⟨c :: before, g, rest', ?_, ?_⟩
      · rw [Pattern.text, firstGroup?_plain h, hsome]
        rfl
      · rw [Pattern.choices, hchoices, List.map_map]
        rfl

/-! ### Expanding -/

theorem expandBraces_of_none {s : List Char} (h : firstGroup? s = none) : expandBraces s = [s] := by
  rw [expandBraces]
  split
  · rfl
  · rename_i hsome
    exact absurd (h.symm.trans hsome) (by simp)

theorem expandBraces_of_some {s before body after : List Char}
    (h : firstGroup? s = some (before, body, after)) :
    expandBraces s =
      ((alternatives 0 body).flatMap fun a => expandBraces (a ++ after)).eraseDups.map
        (before ++ ·) := by
  rw [expandBraces]
  split
  · rename_i hnone
    exact absurd (h.symm.trans hnone) (by simp)
  · rename_i before' body' after' hsome
    obtain ⟨rfl, rfl, rfl⟩ : before' = before ∧ body' = body ∧ after' = after := by
      simpa using hsome.symm.trans h
    have hattach : ∀ as : List (List Char), (as.attach.flatMap fun x => expandBraces (x.1 ++ after'))
        = as.flatMap fun a => expandBraces (a ++ after') := by
      intro as
      rw [List.flatMap_subtype (g := fun a => expandBraces (a ++ after')) fun _ _ => rfl,
        List.unattach_attach]
    rw [← hattach]

/-- **What a pattern expands to**: what it stands for, without repetition. -/
theorem expandBraces_text (p : Pattern) : expandBraces p.text = p.choices.eraseDups := by
  rcases p.firstGroup?_text with ⟨hnone, hchoices⟩ | ⟨before, g, rest, hsome, hchoices⟩
  · rw [expandBraces_of_none hnone, hchoices]
    rfl
  · have hmembers : ∀ a ∈ g.members, (expandBraces (a.text ++ rest.text)).eraseDups =
        (product a.choices rest.choices).eraseDups := by
      intro a ha
      have hfewer : (a.before rest).text.count '{' < p.text.count '{' := by
        have hgroup := count_firstGroup? hsome
        have halternative : a.text.count '{' ≤ g.text.count '{' := by
          have hmem : a.text ∈ alternatives 0 g.text := by
            rw [g.alternatives_text]
            exact List.mem_map_of_mem ha
          exact count_alternatives hmem
        rw [a.text_before, List.count_append]
        omega
      rw [← a.text_before, expandBraces_text (a.before rest), eraseDups_eraseDups,
        a.choices_before]
    have hinjective : Function.Injective (before ++ · : List Char → List Char) :=
      fun _ _ => List.append_cancel_left
    rw [expandBraces_of_some hsome, g.alternatives_text, List.flatMap_map,
      eraseDups_flatMap_congr hmembers, hchoices, eraseDups_map hinjective, g.choices_eq, product,
      List.flatMap_assoc]
    rfl
  termination_by p.text.count '{'

/-! ### Nothing is left to be expanded -/

mutual

/-- An alternative stands for texts without groups. -/
theorem Alternative.not_mem_of_mem_choices (a : Alternative) {x : List Char}
    (hx : x ∈ a.choices) : '{' ∉ x := by
  cases a with
  | done =>
    rw [Alternative.choices, List.mem_singleton] at hx
    simp [hx]
  | plain c h rest =>
    obtain ⟨y, hy, rfl⟩ := List.mem_map.1 hx
    rw [List.mem_cons, not_or]
    exact ⟨Ne.symm h.1, rest.not_mem_of_mem_choices hy⟩
  | group g rest =>
    obtain ⟨y, hy, hmap⟩ := List.mem_flatMap.1 hx
    obtain ⟨z, hz, rfl⟩ := List.mem_map.1 hmap
    rw [List.mem_append, not_or]
    exact ⟨g.not_mem_of_mem_choices hy, rest.not_mem_of_mem_choices hz⟩

/-- So does a group. -/
theorem Group.not_mem_of_mem_choices (g : Group) {x : List Char} (hx : x ∈ g.choices) :
    '{' ∉ x := by
  cases g with
  | last a => exact a.not_mem_of_mem_choices hx
  | more a rest =>
    rcases List.mem_append.1 hx with hx | hx
    · exact a.not_mem_of_mem_choices hx
    · exact rest.not_mem_of_mem_choices hx

end

theorem firstGroup?_append {x : List Char} (hx : '{' ∉ x) {s : List Char}
    (h : firstGroup? s = none) : firstGroup? (x ++ s) = none := by
  induction x with
  | nil => exact h
  | cons c x ih =>
    rw [List.mem_cons, not_or] at hx
    rw [List.cons_append, firstGroup?_plain (Ne.symm hx.1), ih hx.2]
    rfl

/-- **What a pattern stands for has no group.** -/
theorem Pattern.firstGroup?_of_mem_choices (p : Pattern) {x : List Char} (hx : x ∈ p.choices) :
    firstGroup? x = none := by
  induction p generalizing x with
  | done =>
    rw [Pattern.choices, List.mem_singleton] at hx
    rw [hx]
    rfl
  | unclosed tail h =>
    rw [Pattern.choices, List.mem_singleton] at hx
    rw [hx, h.firstGroup?_eq_none]
  | plain c h rest ih =>
    obtain ⟨y, hy, rfl⟩ := List.mem_map.1 hx
    rw [firstGroup?_plain h, ih hy]
    rfl
  | group g rest ih =>
    obtain ⟨y, hy, hmap⟩ := List.mem_flatMap.1 hx
    obtain ⟨z, hz, rfl⟩ := List.mem_map.1 hmap
    exact firstGroup?_append (g.not_mem_of_mem_choices hy) (ih hz)

/-- **Expanding a pattern** writes out what it stands for. Every text is that of a pattern, and it
expands to what the pattern stands for, in order and without repetition. What comes of it stands for
itself, so that expanding it again changes nothing. -/
theorem expandBraces_choices (s : List Char) :
    (∃ p : Pattern, p.text = s) ∧
      (∀ p : Pattern, p.text = s → expandBraces s = p.choices.eraseDups) ∧
      (expandBraces s).Nodup ∧ ∀ r ∈ expandBraces s, expandBraces r = [r] := by
  obtain ⟨p, rfl⟩ := Pattern.exists_text s
  refine ⟨⟨p, rfl⟩, fun q hq => hq ▸ expandBraces_text q, ?_, fun r hr => ?_⟩
  · rw [expandBraces_text]
    exact nodup_eraseDups _
  · rw [expandBraces_text, List.mem_eraseDups] at hr
    exact expandBraces_of_none (p.firstGroup?_of_mem_choices hr)

end DenoPackager.Glob
