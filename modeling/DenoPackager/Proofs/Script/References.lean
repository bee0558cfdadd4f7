import DenoPackager.Proofs.Script.Ending
import DenoPackager.Source.Namespace

/-!
# References to the namespace

A reference to the namespace is the name `Deno` with a dot right behind it, where the name is an
identifier of its own and not a property of something else. Which ones are led through the import
is decided by the single character in front of the name, if that belongs to the same segment of
code. This is the same thing unless the code in front of the name ends in one of four ways:

* in three dots that spread a value, or in the point of a number: the reference is missed;
* in a member access with white space or a comment behind it, or in the mark of a private name:
  a property is taken for a reference.

## Main results

* `routeNamespace_references`: what is led through the import, and what is said about it.
* `routeNamespace_misled`: a script of each kind.
-/

namespace DenoPackager.Source

open Text (Matcher)

/-- The name of the namespace with the dot behind it. -/
def namespaceDot : List Char :=
  ['D', 'e', 'n', 'o', '.']

/-- What a reference is made of. -/
theorem namespaceReference_eq_some_iff {prev : Option Char} {s : List Char} {extra : Nat} :
    namespaceReference prev s = some ((), extra) ↔
      mayPrecede prev = true ∧ (∃ rest, s = namespaceDot ++ rest) ∧ extra = 4 := by
  have hstart : Text.startsWith "Deno.".toList s = true ↔ ∃ rest, s = namespaceDot ++ rest := by
    rw [Text.startsWith, Option.isSome_iff_exists]
    exact exists_congr fun rest => Text.afterStart?_eq_some_iff
  rw [namespaceReference, ← hstart]
  by_cases h : (mayPrecede prev && Text.startsWith "Deno.".toList s) = true
  · rw [if_pos h, ← and_assoc, ← Bool.and_eq_true, Option.some.injEq, Prod.mk.injEq]
    exact ⟨fun hextra => ⟨h, hextra.2.symm⟩, fun hextra => ⟨rfl, hextra.2.symm⟩⟩
  · rw [if_neg h, ← and_assoc, ← Bool.and_eq_true]
    exact iff_of_false (by simp) fun h' => h h'.1

/-- References do not overlap: the letter they begin with is in them once. -/
theorem namespaceReference_apart : namespaceReference.Apart := by
  refine .of_first 'D' fun prev s extra h => ?_
  obtain ⟨-, ⟨rest, rfl⟩, rfl⟩ := namespaceReference_eq_some_iff.1 h
  exact ⟨['e', 'n', 'o', '.'], rest, rfl, rfl, by decide⟩

/-- **What is led through the import**, and what is said about it. A script is cut into the
references that were found and what is kept; each one found gets the name of the import in front
of it, nothing else is changed, and the import is put in front exactly if there is one. Wherever
the name and the dot stand in the code of the script, they are found exactly if the name is free
there, but for the four endings that mislead, and behind these exactly if it is not. -/
theorem routeNamespace_references (package : String) (s : List Char) :
    ∃ ps : List Part, ps.flatMap Part.original = lexemes [] s ∧
      (∀ text, .found text ∈ ps → text = namespaceDot) ∧
      routeNamespace package s =
        (if ps.any Part.isFound then
          shimImport package ++ ps.flatMap (Part.rendered (shimName ++ '.' :: namespaceDot))
        else s, ps.any Part.isFound) ∧
      ∀ before after, lexemes [] s = before ++ (codes namespaceDot ++ after) →
        ((FoundAt ps before ↔ (ending before).isFree = true) ↔
          (ending before).misleads = false) := by
  have hm := namespaceReference_apart
  refine ⟨cut namespaceReference none (lexemes [] s), flatMap_original_cut hm none _, ?_, ?_, ?_⟩
  · intro text htext
    obtain ⟨qs, rs, hcut⟩ := List.append_of_mem htext
    obtain ⟨c, w, rfl, hmatch⟩ := fits_of_cut hm hcut
    obtain ⟨-, ⟨rest, hrest⟩, hw⟩ := namespaceReference_eq_some_iff.1 hmatch
    rw [← List.cons_append] at hrest
    exact (List.append_inj hrest (congrArg (· + 1) hw)).1
  · rw [← any_findAll hm, ← usesNamespace, routeNamespace, routeReferences, mapCode_replaceAll hm]
    cases usesNamespace s <;> rfl
  · intro before after hs
    have hfound : FoundAt (cut namespaceReference none (lexemes [] s)) before ↔
        (!((ending before).isWord || (ending before).isDot)) = true := by
      rw [hs, foundAt_cut_iff hm, leadingCode_codes_append, ← mayPrecede_lastCode]
      simp only [namespaceReference_eq_some_iff]
      constructor
      · rintro ⟨extra, hprev, -, -⟩
        exact hprev
      · intro hprev
        exact ⟨4, hprev, ⟨_, rfl⟩, rfl⟩
    rw [hfound, ← Bool.eq_iff_iff]
    exact (ending before).isFree_eq_iff

/-- **A reference that is missed**, behind the dots that spread a value, **and a property that is
taken for a reference**, with its member access on the line before. -/
theorem routeNamespace_misled :
    (∃ before after : List Lexeme,
      lexemes [] "f(...Deno.args);\n".toList = before ++ (codes namespaceDot ++ after) ∧
        (ending before).isFree = true ∧
        routeNamespace "deno.ns" "f(...Deno.args);\n".toList =
          ("f(...Deno.args);\n".toList, false)) ∧
      ∃ before after : List Lexeme,
        lexemes [] "host.\n  Deno.exit();\n".toList = before ++ (codes namespaceDot ++ after) ∧
          (ending before).isFree = false ∧
          (routeNamespace "deno.ns" "host.\n  Deno.exit();\n".toList).2 = true :=
  ⟨⟨codes "f(...".toList, codes "args);\n".toList, by decide +kernel⟩,
    codes "host.\n  ".toList, codes "exit();\n".toList, by decide +kernel⟩

end DenoPackager.Source
