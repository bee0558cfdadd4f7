import DenoPackager.Proofs.Script.Parts
import Mathlib.Data.List.Chain

/-!
# Runs of code

The segments of a script follow from its lexemes: every stretch of inert text is a segment of its
own, and between two stretches all characters of code are one. This says what segments are without
saying how they are put together, and there is only one way to put them together so.

## Main definitions

* `Segmentation`: the segments that lexemes make up.

## Main results

* `segmentation_iff`: there is one list of such segments, as long as no stretch of inert text is
  empty.
* `ne_nil_of_inert_mem`: none is, in a script.
-/

namespace DenoPackager.Source

/-- The lexemes of a segment. -/
def Segment.lexemes (g : Segment) : List Lexeme :=
  if g.isCode then codes g.text else [.inert g.text]

/-- Two segments that may stand side by side: one of them is inert. -/
def Segment.Apart (g g' : Segment) : Prop :=
  ¬(g.isCode = true ∧ g'.isCode = true)

/-- **The segments that lexemes make up**: none is empty, and runs of code are as long as can
be. -/
structure Segmentation (gs : List Segment) (ls : List Lexeme) : Prop where
  lexemes_eq : gs.flatMap Segment.lexemes = ls
  ne_nil : ∀ g ∈ gs, g.text ≠ []
  apart : gs.IsChain Segment.Apart

/-! ### Putting characters of code together -/

/-- Code that inert text follows, or nothing, is a segment. -/
theorem ofLexemes_codes_append {text : List Char} {ls : List Lexeme} (htext : text ≠ [])
    (hls : leadingCode ls = []) :
    ofLexemes (codes text ++ ls) = ⟨true, text⟩ :: ofLexemes ls := by
  have hbehind : behindCode ls = ls := by
    have h := codes_leadingCode ls
    rw [hls] at h
    exact h
  cases text with
  | nil => exact absurd rfl htext
  | cons c text =>
    rw [codes_cons, List.cons_append, ofLexemes_code, leadingCode_codes_append,
      behindCode_codes_append, hls, hbehind, List.append_nil]

/-- Code with nothing behind it. -/
theorem ofLexemes_codes (text : List Char) :
    ofLexemes (codes text) = if text = [] then [] else [⟨true, text⟩] := by
  split
  · rename_i htext
    rw [htext]
    rfl
  · rename_i htext
    have h : ofLexemes (codes text ++ []) = ⟨true, text⟩ :: ofLexemes [] :=
      ofLexemes_codes_append htext rfl
    rwa [List.append_nil] at h

/-- Inert text ends the code in front of it. -/
theorem ofLexemes_codes_inert (text u : List Char) (ls : List Lexeme) :
    ofLexemes (codes text ++ .inert u :: ls) =
      ofLexemes (codes text) ++ ⟨false, u⟩ :: ofLexemes ls := by
  by_cases htext : text = []
  · rw [htext]
    rfl
  · rw [ofLexemes_codes_append htext rfl, ofLexemes_codes, if_neg htext]
    rfl

/-! ### There is one way to do so -/

/-- What a character of code is put in front of stays segments of lexemes. -/
theorem Segmentation.consCode {gs : List Segment} {ls : List Lexeme} (h : Segmentation gs ls)
    (c : Char) : Segmentation (consCode c gs) (.code c :: ls) := by
  obtain ⟨rfl, hne, hchain⟩ := h
  match gs with
  | [] => exact ⟨rfl, by simp [Source.consCode], by simp [Source.consCode]⟩
  | ⟨false, text⟩ :: gs =>
    refine ⟨rfl, ?_, ?_⟩
    · exact List.forall_mem_cons.2 ⟨by simp, hne⟩
    · exact List.isChain_cons_cons.2 ⟨by simp [Segment.Apart], hchain⟩
  | ⟨true, text⟩ :: gs =>
    obtain ⟨-, hgs⟩ := List.forall_mem_cons.1 hne
    refine ⟨rfl, List.forall_mem_cons.2 ⟨by simp, hgs⟩, ?_⟩
    cases gs with
    | nil => exact .singleton _
    | cons g gs =>
      obtain ⟨hapart, hrest⟩ := List.isChain_cons_cons.1 hchain
      exact List.isChain_cons_cons.2 ⟨hapart, hrest⟩

/-- Lexemes make up segments if none of their inert texts is empty. -/
theorem segmentation_ofLexemes {ls : List Lexeme} (h : ∀ u, .inert u ∈ ls → u ≠ []) :
    Segmentation (ofLexemes ls) ls := by
  induction ls with
  | nil => exact ⟨rfl, by simp [ofLexemes], .nil⟩
  | cons l ls ih =>
    have hrest := ih fun u hu => h u (List.mem_cons_of_mem l hu)
    cases l with
    | code c => exact hrest.consCode c
    | inert u =>
      refine ⟨?_, ?_, ?_⟩
      · rw [ofLexemes, List.flatMap_cons, hrest.lexemes_eq]
        rfl
      · exact List.forall_mem_cons.2 ⟨h u List.mem_cons_self, hrest.ne_nil⟩
      · exact List.isChain_cons.2 ⟨by simp [Segment.Apart], hrest.apart⟩

/-- **The segments of lexemes** are put together in one way only. -/
theorem Segmentation.eq_ofLexemes {gs : List Segment} {ls : List Lexeme}
    (h : Segmentation gs ls) : gs = ofLexemes ls := by
  obtain ⟨rfl, hne, hchain⟩ := h
  induction gs with
  | nil => rfl
  | cons g gs ih =>
    obtain ⟨hg, hgs⟩ := List.forall_mem_cons.1 hne
    have hrest := ih hgs (List.isChain_cons.1 hchain).2
    obtain ⟨isCode, text⟩ := g
    rw [List.flatMap_cons]
    cases isCode with
    | false => exact congrArg _ hrest
    | true =>
      have hlead : leadingCode (gs.flatMap Segment.lexemes) = [] := by
        match gs with
        | [] => rfl
        | ⟨false, u⟩ :: gs => rfl
        | ⟨true, u⟩ :: gs => exact absurd ⟨rfl, rfl⟩ (List.isChain_cons_cons.1 hchain).1
      exact (congrArg _ hrest).trans (ofLexemes_codes_append hg hlead).symm

/-- **There is one list of segments** that lexemes make up. -/
theorem segmentation_iff {gs : List Segment} {ls : List Lexeme}
    (h : ∀ u, .inert u ∈ ls → u ≠ []) : Segmentation gs ls ↔ gs = ofLexemes ls := by
  constructor
  · exact Segmentation.eq_ofLexemes
  · rintro rfl
    exact segmentation_ofLexemes h

/-! ### Scripts -/

/-- There is no empty stretch of inert text in a script. -/
theorem ne_nil_of_inert_mem {ds : Depths} {s u : List Char} (h : .inert u ∈ lexemes ds s) :
    u ≠ [] := by
  fun_induction lexemes ds s with
  | case1 => exact absurd h (by simp)
  | case2 ds c cs n ds' _ ih =>
    rcases List.mem_cons.1 h with h | h
    · rw [Lexeme.inert.inj h]
      simp
    · exact ih h
  | case3 ds c cs _ ih =>
    rcases List.mem_cons.1 h with h | h
    · exact absurd h (by simp)
    · exact ih h

/-- The segments of a script are those that its lexemes make up. -/
theorem segmentation_segments (s : List Char) : Segmentation (segments s) (lexemes [] s) :=
  segmentation_ofLexemes fun _ hu => ne_nil_of_inert_mem hu

end DenoPackager.Source
