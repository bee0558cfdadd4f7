import DenoPackager.Path.Basic

/-!
# The order of paths

Paths are ordered by their components, not by their texts. What is found on several ways is put
into this order, where equal things stand next to each other, and repetitions are dropped.

## Main definitions

* `Path.le`: the order.
* `Path.ascendingBy`: things in ascending order without repetition.

## Main results

* `mem_ascendingBy`, `ascendingBy_pairwise`: nothing is lost, and everything stands before what
  is greater.
-/

namespace DenoPackager.Path

/-- The components with the root in front: what paths are ordered by. -/
def key (p : Path) : List String :=
  match p.root with
  | .none => p.parts
  | r => rootText r :: p.parts

/-- **The order of lists of names**: name by name, each by its characters, and a list before its
continuations. -/
def namesLe : List String → List String → Bool
  | [], _ => true
  | _ :: _, [] => false
  | a :: as, b :: bs => if a = b then namesLe as bs else decide (a ≤ b)

/-- **The order of paths** is that of their component lists. -/
def le (p q : Path) : Bool :=
  namesLe p.key q.key

/-- A list without the items that are followed by an equal one. -/
def unrepeated {α : Type} [DecidableEq α] : List α → List α
  | [] => []
  | a :: as => if as.head? = some a then unrepeated as else a :: unrepeated as

/-- **In ascending order without repetition**, by lists of names. -/
def ascendingBy {α : Type} [DecidableEq α] (names : α → List String) (as : List α) : List α :=
  unrepeated (as.mergeSort fun a b => namesLe (names a) (names b))

/-! ### The order -/

/-- Of two lists of names one comes first. -/
theorem namesLe_total (as bs : List String) : (namesLe as bs || namesLe bs as) = true := by
  induction as generalizing bs with
  | nil => rfl
  | cons a as ih =>
    cases bs with
    | nil => rfl
    | cons b bs =>
      by_cases h : a = b
      · simpa [namesLe, h] using ih bs
      · simpa [namesLe, h, Ne.symm h] using String.le_total a b

/-- The order of lists of names is transitive. -/
theorem namesLe_trans {as bs cs : List String} (hab : namesLe as bs = true)
    (hbc : namesLe bs cs = true) : namesLe as cs = true := by
  induction as generalizing bs cs with
  | nil => rfl
  | cons a as ih =>
    cases bs with
    | nil => simp [namesLe] at hab
    | cons b bs =>
      cases cs with
      | nil => simp [namesLe] at hbc
      | cons c cs =>
        by_cases h₁ : a = b
        · subst h₁
          by_cases h₂ : a = c
          · subst h₂
            simp only [namesLe, if_true] at hab hbc ⊢
            exact ih hab hbc
          · simpa [namesLe, h₂] using hbc
        · by_cases h₂ : b = c
          · subst h₂
            simpa [namesLe, h₁] using hab
          · simp only [namesLe, h₁, h₂, if_false, decide_eq_true_eq] at hab hbc
            have h₃ : a ≠ c := fun h => h₁ (String.le_antisymm hab (h ▸ hbc))
            simpa [namesLe, h₃] using String.le_trans hab hbc

/-- Lists of names that come before each other are equal. -/
theorem namesLe_antisymm {as bs : List String} (hab : namesLe as bs = true)
    (hba : namesLe bs as = true) : as = bs := by
  induction as generalizing bs with
  | nil =>
    cases bs with
    | nil => rfl
    | cons b bs => simp [namesLe] at hba
  | cons a as ih =>
    cases bs with
    | nil => simp [namesLe] at hab
    | cons b bs =>
      by_cases h : a = b
      · subst h
        simp only [namesLe, if_true] at hab hba
        rw [ih hab hba]
      · simp only [namesLe, h, Ne.symm h, if_false, decide_eq_true_eq] at hab hba
        exact absurd (String.le_antisymm hab hba) h

/-! ### Without repetition -/

section

variable {α : Type} [DecidableEq α]

@[simp] theorem mem_unrepeated {a : α} {as : List α} : a ∈ unrepeated as ↔ a ∈ as := by
  induction as with
  | nil => simp [unrepeated]
  | cons b as ih =>
    simp only [unrepeated]
    split
    · rename_i h
      have hb : b ∈ as := List.mem_of_head? h
      rw [ih, List.mem_cons]
      exact ⟨Or.inr, fun h => h.elim (fun e => e ▸ hb) id⟩
    · rw [List.mem_cons, List.mem_cons, ih]

/-- **Nothing is lost** and nothing is added. -/
@[simp] theorem mem_ascendingBy {names : α → List String} {a : α} {as : List α} :
    a ∈ ascendingBy names as ↔ a ∈ as := by
  simp [ascendingBy]

/-- In an ascending list whose items are told apart by their names, what is left without
repetitions stands before what is greater. -/
theorem unrepeated_pairwise {names : α → List String} {as : List α}
    (inj : ∀ a ∈ as, ∀ b ∈ as, names a = names b → a = b)
    (h : as.Pairwise fun a b => namesLe (names a) (names b) = true) :
    (unrepeated as).Pairwise fun a b => namesLe (names a) (names b) = true ∧ a ≠ b := by
  induction as with
  | nil => simp [unrepeated]
  | cons a as ih =>
    obtain ⟨hle, hrest⟩ := List.pairwise_cons.1 h
    have hinj : ∀ b ∈ as, ∀ c ∈ as, names b = names c → b = c := fun b hb c hc =>
      inj b (List.mem_cons_of_mem _ hb) c (List.mem_cons_of_mem _ hc)
    simp only [unrepeated]
    split
    · exact ih hinj hrest
    · rename_i hhead
      refine List.pairwise_cons.2 ⟨fun b hb => ?_, ih hinj hrest⟩
      have hb' : b ∈ as := mem_unrepeated.1 hb
      refine ⟨hle b hb', ?_⟩
      rintro rfl
      cases as with
      | nil => simp at hb'
      | cons c cs =>
        have hca : namesLe (names c) (names a) = true := by
          rcases List.mem_cons.1 hb' with rfl | hmem
          · simp at hhead
          · exact (List.pairwise_cons.1 hrest).1 a hmem
        have heq := namesLe_antisymm (hle c List.mem_cons_self) hca
        have hac := inj a List.mem_cons_self c (List.mem_cons_of_mem _ List.mem_cons_self) heq
        simp [hac] at hhead

/-- **Everything stands before what is greater**, if things are told apart by their names. -/
theorem ascendingBy_pairwise {names : α → List String} {as : List α}
    (inj : ∀ a ∈ as, ∀ b ∈ as, names a = names b → a = b) :
    (ascendingBy names as).Pairwise fun a b => namesLe (names a) (names b) = true ∧ a ≠ b := by
  refine unrepeated_pairwise (fun a ha b hb => ?_) (List.pairwise_mergeSort
    (fun a b c => @namesLe_trans (names a) (names b) (names c))
    (fun a b => namesLe_total (names a) (names b)) as)
  exact inj a (List.mem_mergeSort.1 ha) b (List.mem_mergeSort.1 hb)

end

end DenoPackager.Path
