import DenoPackager.Glob.Braces
import DenoPackager.Proofs.Basics.Braces

/-!
# The grammar of patterns with alternatives

A pattern is read as a tree: characters and groups, and perhaps an opening brace at the end that is
never closed, with everything behind it. A group has one alternative or more, each of them
characters and groups again. What a tree stands for can be written down without looking at any
text: a sequence stands for every way to put what its items stand for together, and a group for
what its alternatives stand for, one after the other.

Every text is that of a tree. A closing brace outside all groups is a character like any other
there, and so is a comma.

## Main definitions

* `Alternative`, `Group`, `Pattern`: the trees.
* `Alternative.text`, `Group.text`, `Pattern.text`: how they are written.
* `Alternative.choices`, `Group.choices`, `Pattern.choices`: what they stand for.

## Main results

* `Pattern.exists_text`: every text is that of a tree.
-/

namespace DenoPackager.Glob

/-! ### Trees -/

/-- A character that stands for itself in a group: no brace, and no comma. -/
def IsInner (c : Char) : Prop :=
  c ≠ '{' ∧ c ≠ '}' ∧ c ≠ ','

/-- A text behind an opening brace that it never closes: wherever it is cut off, no more braces
were closed in it than opened. -/
def NeverCloses (s : List Char) : Prop :=
  ∀ p, p <+: s → p.count '}' ≤ p.count '{'

mutual

/-- **An alternative** of a group. -/
inductive Alternative where
  | done
  | plain (c : Char) (h : IsInner c) (rest : Alternative)
  | group (g : Group) (rest : Alternative)

/-- **A group**: its alternatives, of which there is at least one. -/
inductive Group where
  | last (a : Alternative)
  | more (a : Alternative) (rest : Group)

end

/-- **A pattern.** Outside all groups only an opening brace does not stand for itself. -/
inductive Pattern where
  | done
  | plain (c : Char) (h : c ≠ '{') (rest : Pattern)
  | group (g : Group) (rest : Pattern)
  | unclosed (tail : List Char) (h : NeverCloses tail)

/-! ### How they are written -/

mutual

/-- The text of an alternative. -/
def Alternative.text : Alternative → List Char
  | .done => []
  | .plain c _ rest => c :: rest.text
  | .group g rest => '{' :: (g.text ++ '}' :: rest.text)

/-- The text of a group between its braces. -/
def Group.text : Group → List Char
  | .last a => a.text
  | .more a rest => a.text ++ ',' :: rest.text

end

/-- **The text of a pattern.** -/
def Pattern.text : Pattern → List Char
  | .done => []
  | .plain c _ rest => c :: rest.text
  | .group g rest => '{' :: (g.text ++ '}' :: rest.text)
  | .unclosed tail _ => '{' :: tail

/-! ### What they stand for -/

/-- All ways to put two choices together, the first one varying slowest. -/
def product (xs ys : List (List Char)) : List (List Char) :=
  xs.flatMap fun x => ys.map (x ++ ·)

mutual

/-- What an alternative stands for. -/
def Alternative.choices : Alternative → List (List Char)
  | .done => [[]]
  | .plain c _ rest => rest.choices.map (c :: ·)
  | .group g rest => product g.choices rest.choices

/-- What a group stands for. -/
def Group.choices : Group → List (List Char)
  | .last a => a.choices
  | .more a rest => a.choices ++ rest.choices

end

/-- **What a pattern stands for.** -/
def Pattern.choices : Pattern → List (List Char)
  | .done => [[]]
  | .plain c _ rest => rest.choices.map (c :: ·)
  | .group g rest => product g.choices rest.choices
  | .unclosed tail _ => ['{' :: tail]

theorem product_map_cons (c : Char) (xs ys : List (List Char)) :
    product (xs.map (c :: ·)) ys = (product xs ys).map (c :: ·) := by
  simp only [product, List.flatMap_map, List.map_flatMap, List.map_map, Function.comp_def,
    List.cons_append]

theorem product_assoc (xs ys zs : List (List Char)) :
    product (product xs ys) zs = product xs (product ys zs) := by
  simp only [product, List.flatMap_assoc, List.flatMap_map, List.map_flatMap, List.map_map,
    Function.comp_def, List.append_assoc]

theorem product_singleton_nil (ys : List (List Char)) : product [[]] ys = ys := by
  rw [product, List.flatMap_singleton]
  exact List.map_id ys

/-! ### An alternative in front of a pattern -/

/-- A pattern with an alternative in front of it. -/
def Alternative.before : Alternative → Pattern → Pattern
  | .done, p => p
  | .plain c h rest, p => .plain c h.1 (rest.before p)
  | .group g rest, p => .group g (rest.before p)

theorem Alternative.text_before (a : Alternative) (p : Pattern) :
    (a.before p).text = a.text ++ p.text := by
  cases a with
  | done => simp only [Alternative.before, Alternative.text, List.nil_append]
  | plain c h rest =>
    simp only [Alternative.before, Alternative.text, Pattern.text, rest.text_before p,
      List.cons_append]
  | group g rest =>
    simp only [Alternative.before, Alternative.text, Pattern.text, rest.text_before p,
      List.cons_append, List.append_assoc]

/-- It stands for every way to put the two together. -/
theorem Alternative.choices_before (a : Alternative) (p : Pattern) :
    (a.before p).choices = product a.choices p.choices := by
  cases a with
  | done => simp only [Alternative.before, Alternative.choices, product_singleton_nil]
  | plain c h rest =>
    simp only [Alternative.before, Alternative.choices, Pattern.choices, rest.choices_before p,
      product_map_cons]
  | group g rest =>
    simp only [Alternative.before, Alternative.choices, Pattern.choices, rest.choices_before p,
      product_assoc]

/-! ### The alternatives of a group -/

/-- The alternatives of a group, in order. -/
def Group.members : Group → List Alternative
  | .last a => [a]
  | .more a rest => a :: rest.members

theorem Group.choices_eq (g : Group) : g.choices = g.members.flatMap Alternative.choices := by
  cases g with
  | last a => simp only [Group.choices, Group.members, List.flatMap_singleton]
  | more a rest => simp only [Group.choices, Group.members, List.flatMap_cons, rest.choices_eq]

/-- A group with its first alternative changed. -/
def Group.mapFirst (f : Alternative → Alternative) : Group → Group
  | .last a => .last (f a)
  | .more a rest => .more (f a) rest

theorem Group.text_mapFirst {f : Alternative → Alternative} {w : List Char}
    (hf : ∀ a, (f a).text = w ++ a.text) (g : Group) : (g.mapFirst f).text = w ++ g.text := by
  cases g with
  | last a => simp only [Group.mapFirst, Group.text, hf]
  | more a rest => simp only [Group.mapFirst, Group.text, hf, List.append_assoc]

/-! ### Where groups are closed -/

section Close

variable {d : Nat} {c : Char} {s : List Char}

theorem closeGroup?_open :
    closeGroup? d ('{' :: s) =
      (closeGroup? (d + 1) s).map fun r => ('{' :: r.1, r.2) := rfl

theorem closeGroup?_close_zero : closeGroup? 0 ('}' :: s) = some ([], s) := rfl

theorem closeGroup?_close_succ :
    closeGroup? (d + 1) ('}' :: s) = (closeGroup? d s).map fun r => ('}' :: r.1, r.2) := rfl

theorem closeGroup?_plain (hopen : c ≠ '{') (hclose : c ≠ '}') :
    closeGroup? d (c :: s) = (closeGroup? d s).map fun r => (c :: r.1, r.2) := by
  simp only [closeGroup?, if_neg hopen, if_neg hclose]

/-- **A brace is closed** unless the text behind it never does so. -/
theorem closeGroup?_eq_none_iff :
    closeGroup? d s = none ↔ ∀ p, p <+: s → p.count '}' ≤ d + p.count '{' := by
  induction s generalizing d with
  | nil => simp [closeGroup?]
  | cons c s ih =>
    rw [Text.closes_cons_iff]
    by_cases hopen : c = '{'
    · subst hopen
      rw [closeGroup?_open, Option.map_eq_none_iff, ih, if_pos rfl,
        and_iff_right fun hc => absurd hc (by decide)]
    by_cases hclose : c = '}'
    · subst hclose
      cases d with
      | zero =>
        rw [closeGroup?_close_zero]
        exact iff_of_false (by simp) fun h => h.1 rfl rfl
      | succ d =>
        rw [closeGroup?_close_succ, Option.map_eq_none_iff, ih, if_neg hopen, if_pos rfl,
          Nat.add_sub_cancel, and_iff_right fun _ => d.succ_ne_zero]
    · rw [closeGroup?_plain hopen hclose, Option.map_eq_none_iff, ih, if_neg hopen, if_neg hclose,
        and_iff_right fun hc => absurd hc hclose]

/-- Behind more open braces than one, the first of them to be closed is the innermost. -/
theorem closeGroup?_add (e d : Nat) (s : List Char) :
    closeGroup? (e + (d + 1)) s = (closeGroup? e s).bind fun r =>
      (closeGroup? d r.2).map fun r' => (r.1 ++ '}' :: r'.1, r'.2) := by
  induction s generalizing e with
  | nil => rfl
  | cons c s ih =>
    by_cases hopen : c = '{'
    · subst hopen
      have h := ih (e + 1)
      rw [Nat.add_right_comm] at h
      rw [closeGroup?_open, closeGroup?_open, h]
      cases closeGroup? (e + 1) s with
      | none => rfl
      | some r => simp [Function.comp_def]
    by_cases hclose : c = '}'
    · subst hclose
      cases e with
      | zero => rw [Nat.zero_add, closeGroup?_close_succ, closeGroup?_close_zero]; rfl
      | succ e =>
        rw [Nat.add_right_comm, closeGroup?_close_succ, closeGroup?_close_succ, ih]
        cases closeGroup? e s with
        | none => rfl
        | some r => simp [Function.comp_def]
    · rw [closeGroup?_plain hopen hclose, closeGroup?_plain hopen hclose, ih]
      cases closeGroup? e s with
      | none => rfl
      | some r => simp [Function.comp_def]

end Close

mutual

/-- **An alternative closes the braces that it opens**, and no other. -/
theorem Alternative.closeGroup?_text (a : Alternative) (d : Nat) (s : List Char) :
    closeGroup? d (a.text ++ s) = (closeGroup? d s).map fun r => (a.text ++ r.1, r.2) := by
  cases a with
  | done => simp [Alternative.text]
  | plain c h rest =>
    rw [Alternative.text, List.cons_append, closeGroup?_plain h.1 h.2.1, rest.closeGroup?_text]
    simp [Function.comp_def]
  | group g rest =>
    simp only [Alternative.text, List.cons_append, List.append_assoc]
    rw [closeGroup?_open, g.closeGroup?_text, closeGroup?_close_succ, rest.closeGroup?_text]
    simp [Function.comp_def]

/-- So does a group. -/
theorem Group.closeGroup?_text (g : Group) (d : Nat) (s : List Char) :
    closeGroup? d (g.text ++ s) = (closeGroup? d s).map fun r => (g.text ++ r.1, r.2) := by
  cases g with
  | last a => exact a.closeGroup?_text d s
  | more a rest =>
    rw [Group.text, List.append_assoc, List.cons_append, a.closeGroup?_text,
      closeGroup?_plain (by decide) (by decide), rest.closeGroup?_text]
    simp [Function.comp_def]

end

/-! ### Every text is that of a tree -/

/-- What stands between a brace and the one that closes it is the text of a group. -/
theorem exists_group {s body after : List Char} (h : closeGroup? 0 s = some (body, after)) :
    ∃ g : Group, g.text = body ∧ s = body ++ '}' :: after := by
  match s with
  | [] => simp [closeGroup?] at h
  | c :: s =>
    by_cases hopen : c = '{'
    · subst hopen
      -- An inner group, and then what goes on behind it.
      rw [closeGroup?_open, ← Nat.zero_add (0 + 1), closeGroup?_add] at h
      obtain ⟨⟨body', after'⟩, h', heq⟩ := Option.map_eq_some_iff.1 h
      obtain ⟨⟨inner, behind⟩, hinner, hmap⟩ := Option.bind_eq_some_iff.1 h'
      obtain ⟨⟨rest, end'⟩, hrest, hparts⟩ := Option.map_eq_some_iff.1 hmap
      obtain ⟨g, rfl, rfl⟩ := exists_group hinner
      obtain ⟨g', rfl, rfl⟩ := exists_group hrest
      obtain ⟨rfl, rfl⟩ := Prod.mk.inj hparts
      obtain ⟨rfl, rfl⟩ := Prod.mk.inj heq
      refine ⟨g'.mapFirst (.group g), ?_, by simp⟩
      rw [Group.text_mapFirst (w := '{' :: (g.text ++ ['}'])) (fun a => by simp [Alternative.text])]
      simp
    by_cases hclose : c = '}'
    · subst hclose
      rw [closeGroup?_close_zero, Option.some.injEq, Prod.mk.injEq] at h
      obtain ⟨rfl, rfl⟩ := h
      exact ⟨.last .done, rfl, rfl⟩
    · rw [closeGroup?_plain hopen hclose] at h
      obtain ⟨⟨body', after'⟩, h', heq⟩ := Option.map_eq_some_iff.1 h
      obtain ⟨g, rfl, rfl⟩ := exists_group h'
      obtain ⟨rfl, rfl⟩ := Prod.mk.inj heq
      by_cases hcomma : c = ','
      · subst hcomma
        exact ⟨.more .done g, rfl, rfl⟩
      · refine ⟨g.mapFirst (.plain c ⟨hopen, hclose, hcomma⟩), ?_, rfl⟩
        exact Group.text_mapFirst (w := [c]) (fun a => rfl) g
  termination_by s.length

/-- **Every text is that of a pattern.** -/
theorem Pattern.exists_text (s : List Char) : ∃ p : Pattern, p.text = s := by
  match s with
  | [] => exact ⟨.done, rfl⟩
  | c :: s =>
    by_cases hopen : c = '{'
    · subst hopen
      cases hclosed : closeGroup? 0 s with
      | none =>
        rw [closeGroup?_eq_none_iff] at hclosed
        exact ⟨.unclosed s fun p hp => by simpa using hclosed p hp, rfl⟩
      | some r =>
        obtain ⟨body, after⟩ := r
        obtain ⟨g, rfl, rfl⟩ := exists_group hclosed
        obtain ⟨p, rfl⟩ := Pattern.exists_text after
        exact ⟨.group g p, rfl⟩
    · obtain ⟨p, rfl⟩ := Pattern.exists_text s
      exact ⟨.plain c hopen p, rfl⟩
  termination_by s.length

end DenoPackager.Glob
