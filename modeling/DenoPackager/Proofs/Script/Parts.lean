import DenoPackager.Proofs.Script.Relex
import DenoPackager.Text.Search

/-!
# What a matcher finds in a script

A matcher is run over each segment of code by itself: it sees the character before a position
only if that belongs to the same segment, and it sees the text up to the end of the segment. On
the lexemes of a script this is a single pass, which cuts them into what is kept and what was
found. Changing what was found gives the new script, and if the new code is steady, its lexemes
are known too.

Where the matcher's matches never overlap, a part is found wherever the matcher matches, however
the script was cut in front of it.

## Main definitions

* `cut`: the parts of a script for a matcher.
* `FoundAt`: whether a part was found behind some lexemes.
* `Matcher.Apart`: matches do not overlap.

## Main results

* `mapCode_replaceAll`: replacing what was found in the code of a script, by parts.
* `fits_of_cut`, `foundAt_cut_iff`: where parts are found.
* `lexed_replaced`: the lexemes of the new script.
-/

namespace DenoPackager.Source

open Text (Matcher Piece pieces findAll replaceAll)

/-! ### Parts -/

/-- **A part of a script**: a lexeme that is kept, or code that was found. -/
inductive Part where
  | kept (l : Lexeme)
  | found (text : List Char)
  deriving Repr, DecidableEq

/-- The lexemes that a part was made of. -/
def Part.original : Part → List Lexeme
  | .kept l => [l]
  | .found text => codes text

/-- The lexemes of a part with others in place of what was found. -/
def Part.replaced (new : List Lexeme) : Part → List Lexeme
  | .kept l => [l]
  | .found _ => new

/-- The text of a part with another one in place of what was found. -/
def Part.rendered (new : List Char) : Part → List Char
  | .kept l => l.text
  | .found _ => new

/-- Whether a part was found. -/
def Part.isFound : Part → Bool
  | .kept _ => false
  | .found _ => true

/-- Whether one of the parts was found behind the lexemes `before`. -/
def FoundAt (ps : List Part) (before : List Lexeme) : Prop :=
  ∃ qs text rs, ps = qs ++ .found text :: rs ∧ qs.flatMap Part.original = before

theorem render_flatMap_replaced (new : List Lexeme) (ps : List Part) :
    render (ps.flatMap (Part.replaced new)) = ps.flatMap (Part.rendered (render new)) := by
  rw [render, List.flatMap_assoc]
  refine List.flatMap_congr fun p _ => ?_
  cases p with
  | kept l => exact List.flatMap_singleton _ _
  | found text => rfl

/-- Where nothing was found, the text does not change. -/
theorem flatMap_rendered_of_kept {ps : List Part} (h : ∀ text, .found text ∉ ps)
    (new : List Char) : ps.flatMap (Part.rendered new) = render (ps.flatMap Part.original) := by
  rw [render, List.flatMap_assoc]
  refine List.flatMap_congr fun p hp => ?_
  cases p with
  | kept l => exact (List.flatMap_singleton _ _).symm
  | found text => exact absurd hp (h text)

/-- **The lexemes of a changed script.** Steady code may be changed for steady code: everything
else is read as before, and what stands in front of the parts does not notice. -/
theorem lexed_replaced {ps : List Part} {new : List Lexeme} (hnew : Steady new)
    (hfound : ∀ text, .found text ∈ ps → Steady (codes text)) {ds : Depths}
    (h : Lexed ds (ps.flatMap Part.original)) :
    Lexed ds (ps.flatMap (Part.replaced new)) ∧
      Alike (render (ps.flatMap Part.original)) (render (ps.flatMap (Part.replaced new))) := by
  induction ps generalizing ds with
  | nil => exact ⟨h, .inl rfl⟩
  | cons p ps ih =>
    have ih := @ih fun text htext => hfound text (List.mem_cons_of_mem _ htext)
    rw [List.flatMap_cons] at h
    rw [List.flatMap_cons, List.flatMap_cons]
    cases p with
    | kept l =>
      obtain ⟨ds', hps, hkeep⟩ := Lexed.cons h
      obtain ⟨hps', halike⟩ := ih hps
      exact ⟨hkeep _ hps' halike, halike.append_left _⟩
    | found text =>
      have hold := hfound text List.mem_cons_self
      rw [Part.original, Lexed, render_append, hold.selfContained] at h
      obtain ⟨hps', -⟩ := ih (List.append_cancel_left h)
      rw [Part.original, Part.replaced, render_append, render_append]
      refine ⟨?_, hold.alike hnew _ _⟩
      rw [Lexed, render_append, hnew.selfContained]
      exact congrArg _ hps'

/-! ### Where lexemes come from -/

section Origin

variable {f : Part → List Lexeme} {ps : List Part} {before ls : List Lexeme}

/-- A position in what parts are made into is one between two parts, if what follows it does not
start inside a part that was found. -/
theorem exists_parts_of_flatMap (hkept : ∀ l, f (.kept l) = [l])
    (hinside : ∀ text, .found text ∈ ps → ∀ x y rest, f (.found text) = x ++ y → x ≠ [] →
      y ≠ [] → ls ≠ y ++ rest)
    (h : ps.flatMap f = before ++ ls) :
    ∃ qs rs, ps = qs ++ rs ∧ qs.flatMap f = before ∧ rs.flatMap f = ls := by
  induction ps generalizing before with
  | nil =>
    obtain ⟨rfl, rfl⟩ := List.append_eq_nil_iff.1 h.symm
    exact ⟨[], [], rfl, rfl, rfl⟩
  | cons p ps ih =>
    have hps := fun text htext => hinside text (List.mem_cons_of_mem p htext)
    by_cases hbefore : before = []
    · exact ⟨[], p :: ps, rfl, hbefore.symm, by rw [h, hbefore, List.nil_append]⟩
    have hcons : ∀ before', before = f p ++ before' → ps.flatMap f = before' ++ ls →
        ∃ qs rs, p :: ps = qs ++ rs ∧ qs.flatMap f = before ∧ rs.flatMap f = ls := by
      rintro before' rfl hrest
      obtain ⟨qs, rs, rfl, rfl, hls⟩ := ih hps hrest
      exact ⟨p :: qs, rs, rfl, List.flatMap_cons, hls⟩
    rw [List.flatMap_cons] at h
    rcases List.append_eq_append_iff.1 h with ⟨rest, hrest, hps'⟩ | ⟨rest, hrest, hls⟩
    · exact hcons rest hrest hps'
    · by_cases hnil : rest = []
      · rw [hnil, List.append_nil] at hrest
        refine hcons [] (by rw [List.append_nil, hrest]) ?_
        rw [hls, hnil, List.nil_append, List.nil_append]
      · cases p with
        | kept l =>
          rw [hkept] at hrest
          have hlen := congrArg List.length hrest
          rw [List.length_append, List.length_singleton] at hlen
          have hbefore' := List.length_pos_of_ne_nil hbefore
          have hrest' := List.length_pos_of_ne_nil hnil
          omega
        | found text =>
          exact absurd hls (hinside text List.mem_cons_self before rest _ hrest hbefore hnil)

/-- Lexemes were all kept if none of them is the one that found parts are made to start with. -/
theorem exists_kept_of_flatMap (hkept : ∀ l, f (.kept l) = [l]) {first : Lexeme}
    (hfound : ∀ text, .found text ∈ ps → ∃ rest, f (.found text) = first :: rest)
    (hfirst : first ∉ before) (h : ps.flatMap f = before ++ ls) :
    ∃ rs, ps = before.map .kept ++ rs ∧ rs.flatMap f = ls := by
  induction before generalizing ps with
  | nil => exact ⟨ps, rfl, h⟩
  | cons l before ih =>
    cases ps with
    | nil => exact absurd h (by simp)
    | cons p ps =>
      cases p with
      | kept l' =>
        rw [List.flatMap_cons, hkept] at h
        obtain ⟨rfl, hrest⟩ := List.cons.inj h
        obtain ⟨rs, rfl, hls⟩ := ih (fun text htext => hfound text (List.mem_cons_of_mem _ htext))
          (fun hmem => hfirst (List.mem_cons_of_mem _ hmem)) hrest
        exact ⟨rs, rfl, hls⟩
      | found text =>
        obtain ⟨rest, hrest⟩ := hfound text List.mem_cons_self
        rw [List.flatMap_cons, hrest] at h
        exact absurd ((List.cons.inj h).1 ▸ List.mem_cons_self) hfirst

/-- What is kept is what it was. -/
theorem flatMap_map_kept (hkept : ∀ l, f (.kept l) = [l]) (ls : List Lexeme) :
    (ls.map Part.kept).flatMap f = ls := by
  rw [List.flatMap_map]
  simp only [hkept, List.flatMap_singleton']

end Origin

/-! ### Cutting a script -/

/-- The code that lexemes start with. -/
def leadingCode : List Lexeme → List Char
  | .code c :: ls => c :: leadingCode ls
  | _ => []

/-- The lexemes behind the code that they start with. -/
def behindCode : List Lexeme → List Lexeme
  | .code _ :: ls => behindCode ls
  | ls => ls

/-- The character of code that lexemes end with, if they do, where `prev` is the one in front of
them. -/
def lastCode (prev : Option Char) : List Lexeme → Option Char
  | [] => prev
  | .code c :: ls => lastCode (some c) ls
  | .inert _ :: ls => lastCode none ls

/-- **The parts of a script** for a matcher, with `prev` as the character of code in front of
it. -/
def cut (m : Matcher Unit) (prev : Option Char) : List Lexeme → List Part
  | [] => []
  | .inert text :: ls => .kept (.inert text) :: cut m none ls
  | .code c :: ls =>
    match m prev (c :: leadingCode ls) with
    | some ((), extra) =>
      .found (c :: (leadingCode ls).take extra) ::
        cut m ((c :: leadingCode ls)[extra]?) (ls.drop extra)
    | none => .kept (.code c) :: cut m (some c) ls
  termination_by ls => ls.length
  decreasing_by all_goals (simp only [List.length_drop, List.length_cons]; omega)

end DenoPackager.Source

namespace DenoPackager.Text

/-- A matcher whose matches are in the text, and **do not overlap**: no match starts inside
another one. -/
structure Matcher.Apart (m : Matcher Unit) : Prop where
  nil : ∀ prev, m prev [] = none
  length_le : ∀ prev c cs extra, m prev (c :: cs) = some ((), extra) → extra ≤ cs.length
  apart : ∀ prev c cs extra, m prev (c :: cs) = some ((), extra) →
    ∀ k < extra, m ((c :: cs)[k]?) (cs.drop k) = none

/-- A matcher whose matches all start with one character, and have it nowhere else. -/
theorem Matcher.Apart.of_first {m : Matcher Unit} (first : Char)
    (h : ∀ prev s extra, m prev s = some ((), extra) →
      ∃ w rest, s = first :: (w ++ rest) ∧ w.length = extra ∧ first ∉ w) : m.Apart where
  nil prev := by
    rw [Option.eq_none_iff_forall_ne_some]
    rintro ⟨⟨⟩, extra⟩ hmatch
    obtain ⟨w, rest, hs, -⟩ := h prev [] extra hmatch
    exact absurd hs (by simp)
  length_le prev c cs extra hmatch := by
    obtain ⟨w, rest, hs, rfl, -⟩ := h prev (c :: cs) extra hmatch
    obtain ⟨-, rfl⟩ := List.cons.inj hs
    simp
  apart prev c cs extra hmatch k hk := by
    obtain ⟨w, rest, hs, rfl, hfirst⟩ := h prev (c :: cs) extra hmatch
    obtain ⟨-, rfl⟩ := List.cons.inj hs
    rw [Option.eq_none_iff_forall_ne_some]
    rintro ⟨⟨⟩, extra⟩ hinside
    obtain ⟨w', rest', hs', -⟩ := h _ _ extra hinside
    rw [List.drop_append_of_le_length (Nat.le_of_lt hk), List.drop_eq_getElem_cons hk,
      List.cons_append] at hs'
    exact hfirst ((List.cons.inj hs').1 ▸ List.getElem_mem hk)

end DenoPackager.Text

namespace DenoPackager.Source

open Text (Matcher Piece pieces findAll replaceAll)

theorem codes_leadingCode (ls : List Lexeme) : codes (leadingCode ls) ++ behindCode ls = ls := by
  induction ls with
  | nil => rfl
  | cons l ls ih =>
    cases l with
    | code c => exact congrArg _ ih
    | inert text => rfl

@[simp] theorem leadingCode_codes_append (w : List Char) (ls : List Lexeme) :
    leadingCode (codes w ++ ls) = w ++ leadingCode ls := by
  induction w with
  | nil => rfl
  | cons c w ih => exact congrArg _ ih

@[simp] theorem behindCode_codes_append (w : List Char) (ls : List Lexeme) :
    behindCode (codes w ++ ls) = behindCode ls := by
  induction w with
  | nil => rfl
  | cons c w ih => exact ih

theorem lastCode_codes_append (prev : Option Char) (w : List Char) (ls : List Lexeme) :
    lastCode prev (codes w ++ ls) = lastCode (w.getLast?.or prev) ls := by
  induction w generalizing prev with
  | nil => rfl
  | cons c w ih =>
    rw [codes_cons, List.cons_append, lastCode, ih, List.getLast?_cons]
    cases w.getLast? <;> rfl

/-- The first characters of the code that lexemes start with. -/
theorem exists_eq_codes_append {ls : List Lexeme} {k : Nat} (h : k ≤ (leadingCode ls).length) :
    ∃ w rest, w.length = k ∧ ls = codes w ++ rest := by
  refine ⟨(leadingCode ls).take k, codes ((leadingCode ls).drop k) ++ behindCode ls,
    List.length_take_of_le h, ?_⟩
  rw [← List.append_assoc, ← codes_append, List.take_append_drop, codes_leadingCode]

/-- The last character that a match takes. -/
theorem getElem?_length (c : Char) (w rest : List Char) :
    (c :: (w ++ rest))[w.length]? = (c :: w).getLast? := by
  rw [← List.cons_append, List.getElem?_append_left (by simp), List.getLast?_eq_getElem?]
  rfl

section Cut

variable {m : Matcher Unit} {prev : Option Char} {c : Char} {w : List Char} {ls : List Lexeme}

theorem cut_inert (text : List Char) :
    cut m prev (.inert text :: ls) = .kept (.inert text) :: cut m none ls := by
  rw [cut]

theorem cut_kept (h : m prev (c :: leadingCode ls) = none) :
    cut m prev (.code c :: ls) = .kept (.code c) :: cut m (some c) ls := by
  rw [cut, h]

theorem cut_found (h : m prev (c :: (w ++ leadingCode ls)) = some ((), w.length)) :
    cut m prev (.code c :: (codes w ++ ls)) = .found (c :: w) :: cut m (c :: w).getLast? ls := by
  have hlen : (codes w).length = w.length := List.length_map _
  rw [cut, leadingCode_codes_append, h]
  simp only [List.take_left, List.drop_left' hlen, getElem?_length]

/-- **Induction along a cut**: at an inert lexeme, at code that is found, at code that is kept. -/
theorem cut_induction {motive : Option Char → List Lexeme → Prop} (hm : m.Apart)
    (nil : ∀ prev, motive prev [])
    (inert : ∀ prev text ls, motive none ls → motive prev (.inert text :: ls))
    (found : ∀ prev c w ls, m prev (c :: (w ++ leadingCode ls)) = some ((), w.length) →
      motive (c :: w).getLast? ls → motive prev (.code c :: (codes w ++ ls)))
    (kept : ∀ prev c ls, m prev (c :: leadingCode ls) = none → motive (some c) ls →
      motive prev (.code c :: ls))
    (prev : Option Char) (ls : List Lexeme) : motive prev ls := by
  fun_induction cut m prev ls with
  | case1 prev => exact nil prev
  | case2 prev text ls ih => exact inert prev text ls ih
  | case3 prev c ls extra hmatch ih =>
    obtain ⟨w, ls, rfl, rfl⟩ := exists_eq_codes_append (hm.length_le prev c _ extra hmatch)
    have hlen : (codes w).length = w.length := List.length_map _
    rw [leadingCode_codes_append] at hmatch ih
    rw [List.drop_left' hlen, getElem?_length] at ih
    exact found prev c w ls hmatch ih
  | case4 prev c ls hmatch ih => exact kept prev c ls hmatch ih

/-- **Nothing is lost** when a script is cut. -/
theorem flatMap_original_cut (hm : m.Apart) (prev : Option Char) (ls : List Lexeme) :
    (cut m prev ls).flatMap Part.original = ls := by
  induction prev, ls using cut_induction hm with
  | nil prev => rw [cut]; rfl
  | inert prev text ls ih => rw [cut_inert, List.flatMap_cons, ih]; rfl
  | found prev c w ls hmatch ih => rw [cut_found hmatch, List.flatMap_cons, ih]; rfl
  | kept prev c ls hmatch ih => rw [cut_kept hmatch, List.flatMap_cons, ih]; rfl

/-! ### Where parts are found -/

/-- What the matcher said about a part, with `prev` in front of it and the lexemes `ls` behind it:
what was found is what it took, and where a character of code was kept it did not match. -/
def Part.Fits (m : Matcher Unit) (prev : Option Char) (ls : List Lexeme) : Part → Prop
  | .kept (.code c) => m prev (c :: leadingCode ls) = none
  | .kept (.inert _) => True
  | .found text => ∃ c w, text = c :: w ∧ m prev (c :: (w ++ leadingCode ls)) = some ((), w.length)

/-- **Every part of a script is what the matcher made of it.** -/
theorem fits_of_cut (hm : m.Apart) {qs rs : List Part} {p : Part}
    (h : cut m prev ls = qs ++ p :: rs) :
    p.Fits m (lastCode prev (qs.flatMap Part.original)) (rs.flatMap Part.original) := by
  induction prev, ls using cut_induction hm generalizing qs with
  | nil prev =>
    rw [cut] at h
    exact absurd h (by simp)
  | inert prev text ls ih =>
    rw [cut_inert] at h
    cases qs with
    | nil =>
      obtain ⟨rfl, rfl⟩ := List.cons.inj h
      exact trivial
    | cons q qs =>
      obtain ⟨rfl, hrest⟩ := List.cons.inj h
      exact ih hrest
  | found prev c w ls hmatch ih =>
    rw [cut_found hmatch] at h
    cases qs with
    | nil =>
      obtain ⟨rfl, rfl⟩ := List.cons.inj h
      rw [flatMap_original_cut hm]
      exact ⟨c, w, rfl, hmatch⟩
    | cons q qs =>
      obtain ⟨rfl, hrest⟩ := List.cons.inj h
      rw [List.flatMap_cons, Part.original, lastCode_codes_append, Option.or_of_isSome (by simp)]
      exact ih hrest
  | kept prev c ls hmatch ih =>
    rw [cut_kept hmatch] at h
    cases qs with
    | nil =>
      obtain ⟨rfl, rfl⟩ := List.cons.inj h
      rw [flatMap_original_cut hm]
      exact hmatch
    | cons q qs =>
      obtain ⟨rfl, hrest⟩ := List.cons.inj h
      exact ih hrest

/-- What is found stays found when a part is put in front. -/
theorem FoundAt.cons {ps : List Part} {before : List Lexeme} (h : FoundAt ps before) (p : Part) :
    FoundAt (p :: ps) (p.original ++ before) := by
  obtain ⟨qs, text, rs, rfl, rfl⟩ := h
  exact ⟨p :: qs, text, rs, rfl, List.flatMap_cons⟩

/-- **A part is found wherever the matcher matches.** -/
theorem foundAt_of_matches (hm : m.Apart) {before after : List Lexeme} {extra : Nat}
    (hls : ls = before ++ after)
    (h : m (lastCode prev before) (leadingCode after) = some ((), extra)) :
    FoundAt (cut m prev ls) before := by
  have hafter : leadingCode after ≠ [] := by
    intro hnil
    rw [hnil, hm.nil] at h
    exact absurd h (by simp)
  induction prev, ls using cut_induction hm generalizing before with
  | nil prev =>
    obtain ⟨-, rfl⟩ := List.append_eq_nil_iff.1 hls.symm
    exact absurd rfl hafter
  | inert prev text ls ih =>
    rw [cut_inert]
    cases before with
    | nil =>
      rw [List.nil_append] at hls
      exact absurd rfl (hls ▸ hafter)
    | cons l before =>
      obtain ⟨rfl, hrest⟩ := List.cons.inj hls
      exact (ih hrest h).cons _
  | found prev c w ls hmatch ih =>
    rw [cut_found hmatch]
    cases before with
    | nil => exact ⟨[], c :: w, _, rfl, rfl⟩
    | cons l before =>
      obtain ⟨rfl, hrest⟩ := List.cons.inj hls
      have hlast : ∀ w rest, lastCode prev (.code c :: (codes w ++ rest)) =
          lastCode (c :: w).getLast? rest := by
        intro w rest
        rw [← List.cons_append, ← codes_cons, lastCode_codes_append, Option.or_of_isSome (by simp)]
      rcases List.append_eq_append_iff.1 hrest with ⟨rest, rfl, hls'⟩ | ⟨rest, hw, rfl⟩
      · rw [hlast] at h
        exact (ih hls' h).cons _
      · obtain ⟨w₁, w₂, rfl, rfl, rfl⟩ := List.map_eq_append_iff.1 hw
        rw [← codes, ← List.append_nil (codes w₁), hlast] at h
        cases w₂ with
        | nil =>
          rw [List.append_nil] at ih ⊢
          have hnext := (ih rfl h).cons (.found (c :: w₁))
          rw [List.append_nil] at hnext
          exact hnext
        | cons d w₂ =>
          -- The position is inside the match, where no other one starts.
          have hinside := hm.apart prev c _ _ hmatch w₁.length (by simp)
          rw [List.append_assoc, List.drop_left, getElem?_length] at hinside
          rw [lastCode, ← codes, leadingCode_codes_append] at h
          exact absurd (hinside.symm.trans h) (by simp)
  | kept prev c ls hmatch ih =>
    rw [cut_kept hmatch]
    cases before with
    | nil =>
      rw [List.nil_append] at hls
      rw [← hls, leadingCode, lastCode, hmatch] at h
      exact absurd h (by simp)
    | cons l before =>
      obtain ⟨rfl, hrest⟩ := List.cons.inj hls
      exact (ih hrest h).cons _

/-- **Where parts are found**: exactly where the matcher matches. -/
theorem foundAt_cut_iff (hm : m.Apart) (before after : List Lexeme) :
    FoundAt (cut m prev (before ++ after)) before ↔
      ∃ extra, m (lastCode prev before) (leadingCode after) = some ((), extra) := by
  constructor
  · rintro ⟨qs, text, rs, hcut, rfl⟩
    obtain ⟨c, w, rfl, hmatch⟩ := fits_of_cut hm hcut
    have hafter := flatMap_original_cut hm prev (qs.flatMap Part.original ++ after)
    rw [hcut, List.flatMap_append, List.flatMap_cons] at hafter
    rw [← List.append_cancel_left hafter, Part.original, leadingCode_codes_append]
    exact ⟨_, hmatch⟩
  · rintro ⟨extra, h⟩
    exact foundAt_of_matches hm rfl h

/-- What is kept was not found. -/
theorem not_foundAt_of_cut (hm : m.Apart) {qs rs : List Part} {l : Lexeme}
    (h : cut m prev ls = qs ++ .kept l :: rs) :
    ¬FoundAt (cut m prev ls) (qs.flatMap Part.original) := by
  have hls : ls = qs.flatMap Part.original ++ (l :: rs.flatMap Part.original) := by
    rw [← flatMap_original_cut hm prev ls, h, List.flatMap_append]
    rfl
  intro hfound
  rw [hls, foundAt_cut_iff hm] at hfound
  obtain ⟨extra, hmatch⟩ := hfound
  cases l with
  | code c => exact absurd (hmatch.symm.trans (fits_of_cut hm h)) (by simp)
  | inert text => exact absurd (hmatch.symm.trans (hm.nil _)) (by simp)

/-! ### Segments -/

/-- The code that lexemes start with makes up one segment. -/
theorem ofLexemes_code (c : Char) (ls : List Lexeme) :
    ofLexemes (.code c :: ls) = ⟨true, c :: leadingCode ls⟩ :: ofLexemes (behindCode ls) := by
  induction ls generalizing c with
  | nil => rfl
  | cons l ls ih =>
    cases l with
    | code d => rw [ofLexemes, ih]; rfl
    | inert text => rfl

section Segments

variable {β : Type} (plain : Piece Unit → List β) (other : List Char → List β)

/-- What is done to a segment: one thing to the pieces of code, another one to inert text. -/
def onSegment (m : Matcher Unit) (g : Segment) : List β :=
  if g.isCode then (pieces m none g.text).flatMap plain else other g.text

/-- The same for a part. -/
def onPart : Part → List β
  | .kept (.code c) => plain (.plain c)
  | .kept (.inert text) => other text
  | .found _ => plain (.found ())

/-- **Running a matcher over the segments of a script cuts its lexemes.** -/
theorem flatMap_onSegment (hm : m.Apart) (s : List Char) :
    (segments s).flatMap (onSegment plain other m) =
      (cut m none (lexemes [] s)).flatMap (onPart plain other) := by
  have hsplit : ∀ ls, (ofLexemes ls).flatMap (onSegment plain other m) =
      (pieces m none (leadingCode ls)).flatMap plain ++
        (ofLexemes (behindCode ls)).flatMap (onSegment plain other m) := by
    intro ls
    cases ls with
    | nil => simp [ofLexemes, leadingCode, behindCode, pieces]
    | cons l ls =>
      cases l with
      | code c => rw [ofLexemes_code]; rfl
      | inert text => simp [leadingCode, behindCode, pieces]
  -- In the middle of a segment, the matcher has seen the character before.
  have hrun : ∀ prev ls, (pieces m prev (leadingCode ls)).flatMap plain ++
      (ofLexemes (behindCode ls)).flatMap (onSegment plain other m) =
        (cut m prev ls).flatMap (onPart plain other) := by
    intro prev ls
    induction prev, ls using cut_induction hm with
    | nil prev => simp [ofLexemes, leadingCode, behindCode, pieces, cut]
    | inert prev text ls ih =>
      rw [cut_inert, List.flatMap_cons, ← ih, ← hsplit]
      simp only [leadingCode, behindCode, pieces, List.flatMap_nil, List.nil_append, ofLexemes,
        List.flatMap_cons]
      rfl
    | found prev c w ls hmatch ih =>
      rw [cut_found hmatch, List.flatMap_cons, ← ih]
      simp only [leadingCode, behindCode, leadingCode_codes_append, behindCode_codes_append]
      rw [pieces, hmatch]
      simp only [List.flatMap_cons, List.append_assoc, List.drop_left, getElem?_length]
      rfl
    | kept prev c ls hmatch ih =>
      rw [cut_kept hmatch, List.flatMap_cons, ← ih]
      simp only [leadingCode, behindCode]
      rw [pieces, hmatch]
      simp only [List.flatMap_cons, List.append_assoc]
      rfl
  rw [segments, hsplit, hrun]

end Segments

/-- **Replacing what is found in the code of a script**, part by part. -/
theorem mapCode_replaceAll (hm : m.Apart) (new s : List Char) :
    mapCode (replaceAll m fun _ => new) s =
      (cut m none (lexemes [] s)).flatMap (Part.rendered new) := by
  have hpart : onPart (Piece.render fun _ => new) id = Part.rendered new := by
    funext p
    cases p with
    | kept l => cases l <;> rfl
    | found text => rfl
  rw [← hpart, ← flatMap_onSegment _ _ hm]
  rfl

/-- Whether anything is found in the code of a script. -/
theorem any_findAll (hm : m.Apart) (s : List Char) :
    ((segments s).any fun g => g.isCode && !(findAll m g.text).isEmpty) =
      (cut m none (lexemes [] s)).any Part.isFound := by
  have hsegment : ∀ g, onSegment (fun p => p.found?.toList) (fun _ => []) m g = [] ↔
      ¬(g.isCode && !(findAll m g.text).isEmpty) = true := by
    intro g
    rw [onSegment, findAll, List.filterMap_eq_flatMap_toList]
    cases g.isCode <;> simp
  have hpart : ∀ p : Part, onPart (fun p => p.found?.toList) (fun _ => []) p = [] ↔
      ¬p.isFound = true := by
    intro p
    cases p with
    | kept l => cases l <;> simp [onPart, Part.isFound, Piece.found?]
    | found text => simp [onPart, Part.isFound, Piece.found?]
  rw [Bool.eq_iff_iff, ← not_iff_not, Bool.not_eq_true, Bool.not_eq_true, List.any_eq_false,
    List.any_eq_false]
  have hnil := congrArg (· = []) (flatMap_onSegment (fun p => p.found?.toList) (fun _ => []) hm s)
  simp only [List.flatMap_eq_nil_iff, hsegment, hpart] at hnil
  exact iff_of_eq hnil

end Cut

end DenoPackager.Source
