import DenoPackager.Compiler.Output

/-!
# Diagnostics that go unnoticed

A bad exit of the compiler counts as long as nothing can be read in what it printed. Once there is
a diagnostic, the exit code is forgotten; and an emission reports only those diagnostics that come
from declarations. So a bad exit goes **unnoticed** if there are diagnostics and none of them comes
from declarations.

## Main definitions

* `CompilerOutput.Unnoticed`: what is printed goes unnoticed.

## Main results

* `unnoticed_iff`: file names make no difference.
-/

namespace DenoPackager

/-- Whether a diagnostic comes from declarations is a matter of its code. -/
theorem Diagnostic.isDeclarationEmit_congr {d e : Diagnostic} (h : d.code = e.code) :
    d.isDeclarationEmit = e.isDeclarationEmit := by
  rw [isDeclarationEmit, isDeclarationEmit, h]

namespace CompilerOutput

/-- The codes of the diagnostics. -/
def codes (r : Reading) : List (Option Int) :=
  r.diagnostics.map (·.code)

/-- **Printed text that goes unnoticed** in an emission: there are diagnostics in it, and none of
them comes from declarations. -/
def Unnoticed (printed : String) : Prop :=
  ∃ reading, parse printed [] = .ok reading ∧ reading.diagnostics ≠ [] ∧
    ∀ d ∈ reading.diagnostics, d.isDeclarationEmit = false

/-! ### File names make no difference -/

theorem map_code_continueLast (text : List Char) (ds : List Diagnostic) :
    (continueLast text ds).map (·.code) = ds.map (·.code) := by
  induction ds with
  | nil => rfl
  | cons d ds ih =>
    cases ds with
    | nil => rfl
    | cons e ds =>
      rw [continueLast, List.map_cons, ih, ← List.map_cons]
      simp

theorem map_code_ofLine? (names others : List (String × String)) (line : List Char) :
    (ofLine? names line).map (Except.map (·.code)) =
      (ofLine? others line).map (Except.map (·.code)) := by
  simp only [ofLine?]
  split
  · rename_i file line column head _
    simp only [Option.map_some, Option.some.injEq]
    cases ofHead head with
    | error e => rfl
    | ok d =>
      cases number line with
      | error e => rfl
      | ok l =>
        cases number column with
        | error e => rfl
        | ok c => rfl
  · rfl

theorem codes_eq_nil_iff {r : Reading} : codes r = [] ↔ r.diagnostics = [] :=
  List.map_eq_nil_iff

/-- Two readings that agree on the codes so far agree on them after one more line. -/
theorem map_codes_readLine (names others : List (String × String)) {r s : Reading}
    (h : codes r = codes s) (line : List Char) :
    (readLine names r line).map codes = (readLine others s line).map codes := by
  have hnil : r.diagnostics = [] ↔ s.diagnostics = [] := by
    rw [← codes_eq_nil_iff, h, codes_eq_nil_iff]
  have hline := map_code_ofLine? names others line
  simp only [readLine, ne_eq, hnil]
  split
  · exact congrArg Except.ok h
  · split
    · refine congrArg Except.ok ?_
      rw [codes, codes, map_code_continueLast, map_code_continueLast]
      exact h
    · match hr : ofLine? names line, hs : ofLine? others line with
      | none, none => exact congrArg Except.ok h
      | none, some _ => simp [hr, hs] at hline
      | some _, none => simp [hr, hs] at hline
      | some (.ok d), some (.error e) => simp [hr, hs, Except.map] at hline
      | some (.error e), some (.ok d) => simp [hr, hs, Except.map] at hline
      | some (.error e), some (.error f) => simpa [hr, hs, Except.map] using hline
      | some (.ok d), some (.ok e) =>
        have hcode : d.code = e.code := by simpa [hr, hs, Except.map] using hline
        refine congrArg Except.ok ?_
        rw [codes, codes, List.map_append, List.map_append, List.map_singleton,
          List.map_singleton, hcode]
        exact congrArg (· ++ [e.code]) h

theorem map_codes_readLines (names others : List (String × String)) {r s : Reading}
    (h : codes r = codes s) (ls : List (List Char)) :
    (readLines names r ls).map codes = (readLines others s ls).map codes := by
  induction ls generalizing r s with
  | nil => exact congrArg Except.ok h
  | cons l ls ih =>
    have hstep := map_codes_readLine names others h l
    simp only [readLines]
    match hr : readLine names r l, hs : readLine others s l with
    | .ok r', .ok s' =>
      rw [hr, hs] at hstep
      exact ih (Except.ok.inj hstep)
    | .error e, .error f =>
      rw [hr, hs] at hstep
      simpa [Except.map] using hstep
    | .ok _, .error _ => simp [hr, hs, Except.map] at hstep
    | .error _, .ok _ => simp [hr, hs, Except.map] at hstep

/-- **File names make no difference** to the codes that are read. -/
theorem map_codes_parse (printed : String) (names others : List (String × String)) :
    (parse printed names).map codes = (parse printed others).map codes :=
  map_codes_readLines names others rfl _

/-- Nothing of a reading comes from declarations, by its codes. -/
theorem forall_isDeclarationEmit_congr {r s : Reading} (h : codes r = codes s)
    (hr : ∀ d ∈ r.diagnostics, d.isDeclarationEmit = false) :
    ∀ d ∈ s.diagnostics, d.isDeclarationEmit = false := by
  intro d hd
  have hcode : d.code ∈ codes r := by
    rw [h]
    exact List.mem_map_of_mem hd
  obtain ⟨e, he, hecode⟩ := List.mem_map.1 hcode
  rw [← Diagnostic.isDeclarationEmit_congr hecode]
  exact hr e he

/-- **What goes unnoticed**, whatever the files are called. -/
theorem unnoticed_iff {printed : String} {names : List (String × String)} {r : Reading}
    (h : parse printed names = .ok r) :
    Unnoticed printed ↔
      r.diagnostics ≠ [] ∧ ∀ d ∈ r.diagnostics, d.isDeclarationEmit = false := by
  have hcodes := map_codes_parse printed names []
  rw [h] at hcodes
  constructor
  · rintro ⟨s, hs, hne, hall⟩
    rw [hs] at hcodes
    have hrs : codes s = codes r := (Except.ok.inj hcodes).symm
    refine ⟨fun hnil => hne ?_, forall_isDeclarationEmit_congr hrs hall⟩
    rw [← codes_eq_nil_iff, hrs, codes_eq_nil_iff, hnil]
  · rintro ⟨hne, hall⟩
    match hs : parse printed [] with
    | .ok s =>
      rw [hs] at hcodes
      have hrs : codes r = codes s := Except.ok.inj hcodes
      refine ⟨s, hs, fun hnil => hne ?_, forall_isDeclarationEmit_congr hrs hall⟩
      rw [← codes_eq_nil_iff, hrs, codes_eq_nil_iff, hnil]
    | .error f => simp [hs, Except.map] at hcodes

end CompilerOutput

end DenoPackager
