import DenoPackager.Proofs.Script.MetaAccess
import DenoPackager.Source.Specifier

/-!
# Phrases that name a specifier

Specifiers are looked for in the text of a script as it is, and not only in its code: wherever one
of the words `from` and `import` stands with a quoted specifier behind it, in code, in a string or
in a comment, a specifier is found. What decides is the phrase alone. Nothing behind it matters, and
in front of it only whether the word in it goes on to the left.

So the stretches of inert text that no phrase touches may be reworded: what is found before and
after such a stretch stays the same. The last character of a stretch would matter if it were a
letter, for it could hide the word of a phrase right behind it; but inert text never ends with a
letter in the middle of a line.

## Main definitions

* `SpecifierMatch.IsPhrase`: the phrases.
* `Untouched`: no phrase touches a part of a script.
* `Reworded`: two scripts are the same but for a stretch of inert text.
* `SameBut`: two texts are the same but for a part of them.

## Main results

* `specifierMatch_eq_some_iff`: what is found at a position.
* `pieces_unique`, `pieces_behind`: a cut is settled by the text that it covers.
* `endsClearly_of_lexemes`: how a stretch of inert text ends.
* `Reworded.exists_pieces`: what is found in a reworded script.
* `Reworded.replaceSpecifiers`: what is replaced in it.
-/

namespace DenoPackager.Source

open Text (Piece pieces isBlank isWordChar dropBlanks)

/-! ### Phrases -/

/-- **Text that leads to a specifier**: a word and blanks, and a parenthesis between blanks where a
module is imported by a call. -/
inductive Leads : List Char → Prop
  | ofFrom {b : List Char} (hb : ∀ c ∈ b, isBlank c = true) : Leads ("from".toList ++ b)
  | ofImport {b : List Char} (hb : ∀ c ∈ b, isBlank c = true) : Leads ("import".toList ++ b)
  | ofCall {b b' : List Char} (hb : ∀ c ∈ b, isBlank c = true)
      (hb' : ∀ c ∈ b', isBlank c = true) : Leads ("import".toList ++ b ++ ['('] ++ b')

/-- **A quoted specifier**: there is one, and neither a quote nor a line feed in it. -/
structure SpecifierMatch.IsQuoted (k : SpecifierMatch) : Prop where
  quote : k.quote = '\x22' ∨ k.quote = '\x27'
  ne_nil : k.specifier ≠ []
  plain : ∀ c ∈ k.specifier, isSpecifierChar c = true

/-- **A phrase**: what leads to a specifier, and the specifier in quotes. -/
structure SpecifierMatch.IsPhrase (k : SpecifierMatch) : Prop extends k.IsQuoted where
  leads : Leads k.lead

theorem quotedSpecifier?_eq_some_iff {k : SpecifierMatch} {s : List Char} :
    quotedSpecifier? s = some (k.quote, k.specifier) ↔
      k.IsQuoted ∧ ∃ tail, s = k.quote :: (k.specifier ++ k.quote :: tail) := by
  constructor
  · intro h
    refine ⟨?_, quotedSpecifier?_eq_some h⟩
    cases s with
    | nil => simp [quotedSpecifier?] at h
    | cons q cs =>
      rw [quotedSpecifier?] at h
      split at h
      · rename_i hq
        simp only [ne_eq] at h
        split at h
        · rename_i hspecifier
          obtain ⟨rfl, hs⟩ := Prod.mk.inj (Option.some.inj h)
          exact ⟨hq, hs ▸ hspecifier.1, fun c hc => List.mem_takeWhile_imp (by rw [hs]; exact hc)⟩
        · cases h
      · cases h
  · rintro ⟨hk, tail, rfl⟩
    have hstop : isSpecifierChar k.quote = false := by
      obtain h | h := hk.quote <;> rw [h] <;> decide
    have hneg : ¬isSpecifierChar k.quote = true := by simp [hstop]
    have htake : (k.specifier ++ k.quote :: tail).takeWhile isSpecifierChar = k.specifier := by
      rw [List.takeWhile_append_of_pos hk.plain, List.takeWhile_cons_of_neg hneg, List.append_nil]
    have hdrop : (k.specifier ++ k.quote :: tail).dropWhile isSpecifierChar = k.quote :: tail := by
      rw [List.dropWhile_append_of_pos hk.plain, List.dropWhile_cons_of_neg hneg]
    rw [quotedSpecifier?, if_pos hk.quote]
    simp only [htake, hdrop, List.head?_cons, ne_eq, hk.ne_nil, not_false_eq_true, and_self,
      if_true]

theorem isBlank_quote {k : SpecifierMatch} (hk : k.IsQuoted) : isBlank k.quote = false := by
  obtain h | h := hk.quote <;> rw [h] <;> decide

theorem takeWhile_isBlank {b t : List Char} {c : Char} (hb : ∀ d ∈ b, isBlank d = true)
    (hc : isBlank c = false) : (b ++ c :: t).takeWhile isBlank = b := by
  rw [List.takeWhile_append_of_pos hb, List.takeWhile_cons_of_neg (by simp [hc]), List.append_nil]

/-- What stands behind a lead: blanks and a quoted specifier. -/
theorem afterLead?_eq_some_iff {lead rest : List Char} {k : SpecifierMatch} :
    afterLead? lead rest = some k ↔ k.IsQuoted ∧ ∃ b tail, (∀ c ∈ b, isBlank c = true) ∧
      k.lead = lead ++ b ∧ rest = b ++ k.quote :: (k.specifier ++ k.quote :: tail) := by
  simp only [afterLead?, Option.map_eq_some_iff, Prod.exists]
  constructor
  · rintro ⟨quote, specifier, hq, rfl⟩
    obtain ⟨hk, tail, htail⟩ := (quotedSpecifier?_eq_some_iff
      (k := ⟨lead ++ rest.takeWhile isBlank, quote, specifier⟩)).1 hq
    refine ⟨hk, rest.takeWhile isBlank, tail, fun c hc => List.mem_takeWhile_imp hc, rfl, ?_⟩
    rw [← htail, dropBlanks, List.takeWhile_append_dropWhile]
  · rintro ⟨hk, b, tail, hb, hlead, rfl⟩
    refine ⟨k.quote, k.specifier, ?_, ?_⟩
    · exact quotedSpecifier?_eq_some_iff.2
        ⟨hk, tail, (dropBlanks_eq_cons_iff (isBlank_quote hk)).2 ⟨b, hb, rfl⟩⟩
    · rw [takeWhile_isBlank hb (isBlank_quote hk), ← hlead]

theorem afterParenthesis?_eq_some_iff {rest : List Char} {k : SpecifierMatch} :
    afterParenthesis? rest = some k ↔ ∃ b inner, (∀ c ∈ b, isBlank c = true) ∧
      rest = b ++ '(' :: inner ∧ afterLead? ("import".toList ++ b ++ ['(']) inner = some k := by
  have hopen : isBlank '(' = false := by decide
  rw [afterParenthesis?]
  constructor
  · intro h
    split at h
    · rename_i inner hinner
      obtain ⟨b, hb, rfl⟩ := (dropBlanks_eq_cons_iff hopen).1 hinner
      rw [takeWhile_isBlank hb hopen] at h
      exact ⟨b, inner, hb, rfl, h⟩
    · cases h
  · rintro ⟨b, inner, hb, rfl, h⟩
    rw [(dropBlanks_eq_cons_iff hopen).2 ⟨b, hb, rfl⟩]
    simp only [takeWhile_isBlank hb hopen]
    exact h

/-- **What is found at the start of a text** is the phrase that it starts with. -/
theorem specifierAt?_eq_some_iff {s : List Char} {k : SpecifierMatch} :
    specifierAt? s = some k ↔ k.IsPhrase ∧ ∃ tail, s = k.text ++ tail := by
  constructor
  · intro h
    refine ⟨?_, specifierAt?_eq_some h⟩
    rw [specifierAt?] at h
    split at h
    · obtain ⟨hk, b, -, hb, hlead, -⟩ := afterLead?_eq_some_iff.1 h
      exact ⟨hk, hlead ▸ .ofFrom hb⟩
    · split at h
      · obtain h | ⟨-, h⟩ := Option.or_eq_some_iff.1 h
        · obtain ⟨b, inner, hb, -, h⟩ := afterParenthesis?_eq_some_iff.1 h
          obtain ⟨hk, b', -, hb', hlead, -⟩ := afterLead?_eq_some_iff.1 h
          exact ⟨hk, hlead ▸ .ofCall hb hb'⟩
        · obtain ⟨hk, b, -, hb, hlead, -⟩ := afterLead?_eq_some_iff.1 h
          exact ⟨hk, hlead ▸ .ofImport hb⟩
      · cases h
  · rintro ⟨hk, tail, rfl⟩
    have hfrom : ∀ rest, Text.afterStart? "from".toList ("import".toList ++ rest) = none :=
      fun _ => rfl
    have hleads := hk.leads
    rw [SpecifierMatch.text, SpecifierMatch.withSpecifier]
    generalize hlead : k.lead = lead at hleads
    cases hleads with
    | @ofFrom b hb =>
      have hafter : afterLead? "from".toList
          (b ++ k.quote :: (k.specifier ++ k.quote :: tail)) = some k :=
        afterLead?_eq_some_iff.2 ⟨hk.toIsQuoted, b, tail, hb, hlead, rfl⟩
      simp only [specifierAt?, List.append_assoc, List.cons_append, List.nil_append,
        Text.afterStart?_eq_some_iff.2 rfl]
      exact hafter
    | @ofImport b hb =>
      have hnone : afterParenthesis? (b ++ k.quote :: (k.specifier ++ k.quote :: tail)) = none := by
        refine Option.eq_none_iff_forall_ne_some.2 fun j hj => ?_
        obtain ⟨b', inner, hb', heq, -⟩ := afterParenthesis?_eq_some_iff.1 hj
        have hdrop := (dropBlanks_eq_cons_iff (isBlank_quote hk.toIsQuoted)).2 ⟨b, hb, heq.symm⟩
        rw [(dropBlanks_eq_cons_iff (by decide)).2 ⟨b', hb', rfl⟩] at hdrop
        have hquote := (List.cons.inj hdrop).1
        obtain h | h := hk.quote <;> rw [h] at hquote <;> exact absurd hquote (by decide)
      have hafter : afterLead? "import".toList
          (b ++ k.quote :: (k.specifier ++ k.quote :: tail)) = some k :=
        afterLead?_eq_some_iff.2 ⟨hk.toIsQuoted, b, tail, hb, hlead, rfl⟩
      simp only [specifierAt?, List.append_assoc, List.cons_append, List.nil_append, hfrom,
        Text.afterStart?_eq_some_iff.2 rfl, hnone, Option.none_or]
      exact hafter
    | @ofCall b b' hb hb' =>
      have hafter : afterParenthesis? (b ++ '(' :: (b' ++ k.quote ::
          (k.specifier ++ k.quote :: tail))) = some k :=
        afterParenthesis?_eq_some_iff.2 ⟨b, _, hb, rfl,
          afterLead?_eq_some_iff.2 ⟨hk.toIsQuoted, b', tail, hb', hlead, rfl⟩⟩
      simp only [specifierAt?, List.append_assoc, List.cons_append, List.nil_append, hfrom,
        Text.afterStart?_eq_some_iff.2 rfl, hafter, Option.some_or]

/-- Whether a word may go on behind the character. -/
def endsWord (prev : Option Char) : Bool :=
  (prev.map isWordChar).getD false

/-- **What is found at a position**: the phrase that stands there, if its word does not begin
earlier. -/
theorem specifierMatch_eq_some_iff {prev : Option Char} {s : List Char} {k : SpecifierMatch}
    {extra : Nat} :
    specifierMatch prev s = some (k, extra) ↔ endsWord prev = false ∧ k.IsPhrase ∧
      (∃ tail, s = k.text ++ tail) ∧ extra = k.text.length - 1 := by
  rw [specifierMatch, ← endsWord]
  by_cases hprev : endsWord prev = true
  · rw [if_pos hprev]
    exact iff_of_false (by simp) fun h => by simp [h.1] at hprev
  · rw [if_neg hprev, Option.map_eq_some_iff]
    simp only [Prod.mk.injEq, specifierAt?_eq_some_iff]
    constructor
    · rintro ⟨j, ⟨hj, htail⟩, rfl, rfl⟩
      exact ⟨eq_false_of_ne_true hprev, hj, htail, rfl⟩
    · rintro ⟨-, hk, htail, rfl⟩
      exact ⟨k, ⟨hk, htail⟩, rfl, rfl⟩

/-! ### Cuts -/

/-- The text that pieces were cut from. -/
def uncut (ps : List (Piece SpecifierMatch)) : List Char :=
  ps.flatMap (Piece.render SpecifierMatch.text)

@[simp] theorem uncut_plain (c : Char) (ps : List (Piece SpecifierMatch)) :
    uncut (.plain c :: ps) = c :: uncut ps := rfl

@[simp] theorem uncut_found (k : SpecifierMatch) (ps : List (Piece SpecifierMatch)) :
    uncut (.found k :: ps) = k.text ++ uncut ps := rfl

/-- A phrase ends with its quote. -/
theorem exists_text_eq (k : SpecifierMatch) : ∃ w, k.text = w ++ [k.quote] :=
  ⟨k.lead ++ k.quote :: k.specifier, by
    simp only [SpecifierMatch.text, SpecifierMatch.withSpecifier, List.append_assoc,
      List.cons_append]⟩

theorem uncut_eq_nil_iff {ps : List (Piece SpecifierMatch)} : uncut ps = [] ↔ ps = [] := by
  constructor
  · intro h
    match ps with
    | [] => rfl
    | .plain _ :: _ => cases h
    | .found k :: _ =>
      obtain ⟨w, hw⟩ := exists_text_eq k
      simp [hw] at h
  · rintro rfl
    rfl

variable {prev prev' : Option Char} {s x y r r' : List Char}
  {ps ps' qs qs' : List (Piece SpecifierMatch)}

/-- Where a phrase is found, the search goes on behind it. -/
theorem pieces_eq_found {k : SpecifierMatch}
    (h : pieces specifierMatch prev s = .found k :: ps) :
    endsWord prev = false ∧ k.IsPhrase ∧
      ∃ tail, s = k.text ++ tail ∧ ps = pieces specifierMatch (some k.quote) tail := by
  cases s with
  | nil => simp [pieces] at h
  | cons c cs =>
    rw [pieces] at h
    split at h
    · rename_i j extra hj
      obtain ⟨hfound, hrest⟩ := List.cons.inj h
      obtain rfl : j = k := Piece.found.inj hfound
      obtain ⟨hprev, hphrase, ⟨tail, htail⟩, rfl⟩ := specifierMatch_eq_some_iff.1 hj
      obtain ⟨w, hw⟩ := exists_text_eq j
      refine ⟨hprev, hphrase, tail, htail, ?_⟩
      have hlast : (c :: cs)[j.text.length - 1]? = some j.quote := by
        rw [htail, hw, List.length_append, List.length_singleton, Nat.add_sub_cancel,
          List.append_assoc, List.getElem?_append_right (Nat.le_refl _), Nat.sub_self]
        rfl
      have hdrop : cs.drop (j.text.length - 1) = tail := by
        have hlength : j.text.length - 1 + 1 = j.text.length := by
          rw [hw, List.length_append, List.length_singleton, Nat.add_sub_cancel]
        rw [← List.drop_succ_cons (a := c), hlength, htail, List.drop_left]
      rw [← hrest, hlast, hdrop]
    · cases h

/-- Where no phrase is found, the search goes on with the next character. -/
theorem pieces_eq_plain {c : Char} (h : pieces specifierMatch prev s = .plain c :: ps) :
    specifierMatch prev s = none ∧
      ∃ cs, s = c :: cs ∧ ps = pieces specifierMatch (some c) cs := by
  cases s with
  | nil => simp [pieces] at h
  | cons d cs =>
    rw [pieces] at h
    split at h
    · cases h
    · rename_i hnone
      obtain ⟨hplain, hrest⟩ := List.cons.inj h
      obtain rfl : d = c := Piece.plain.inj hplain
      exact ⟨hnone, cs, rfl, hrest.symm⟩

/-- **What is found behind a cut** depends on the character in front of it only. -/
theorem pieces_behind (h : pieces specifierMatch prev (x ++ r) = ps ++ qs) (hps : uncut ps = x) :
    qs = pieces specifierMatch (x.getLast?.or prev) r := by
  induction ps generalizing prev x with
  | nil =>
    obtain rfl : x = [] := hps.symm
    exact h.symm
  | cons p ps ih =>
    rw [List.cons_append] at h
    cases p with
    | plain c =>
      obtain ⟨-, cs, hcs, hrest⟩ := pieces_eq_plain h
      rw [uncut_plain] at hps
      rw [← hps, List.cons_append] at hcs
      obtain ⟨-, rfl⟩ := List.cons.inj hcs
      rw [ih hrest.symm rfl, ← hps, List.getLast?_cons]
      cases (uncut ps).getLast? <;> rfl
    | found k =>
      obtain ⟨-, -, tail, htail, hrest⟩ := pieces_eq_found h
      rw [uncut_found] at hps
      rw [← hps, List.append_assoc] at htail
      obtain rfl := List.append_cancel_left htail
      obtain ⟨w, hw⟩ := exists_text_eq k
      rw [ih hrest.symm rfl, ← hps, List.getLast?_append, hw, List.getLast?_concat]
      cases (uncut ps).getLast? <;> rfl

/-- A phrase that lies in a text is found there, whatever follows the text. -/
theorem not_found_of_plain {k : SpecifierMatch} {c : Char}
    (h : pieces specifierMatch prev (k.text ++ x ++ r) = .plain c :: ps) :
    pieces specifierMatch prev (k.text ++ x ++ r') ≠ .found k :: qs := by
  intro hfound
  obtain ⟨hprev, hphrase, -⟩ := pieces_eq_found hfound
  have hsome := specifierMatch_eq_some_iff.2
    ⟨hprev, hphrase, ⟨x ++ r, List.append_assoc _ _ _⟩, rfl⟩
  rw [(pieces_eq_plain h).1] at hsome
  cases hsome

/-- **A cut is settled by the text that it covers**: a phrase depends on nothing behind it. -/
theorem pieces_unique (h : pieces specifierMatch prev (x ++ r) = ps ++ qs) (hps : uncut ps = x)
    (h' : pieces specifierMatch prev (x ++ r') = ps' ++ qs') (hps' : uncut ps' = x) :
    ps = ps' := by
  induction ps generalizing prev x ps' with
  | nil =>
    obtain rfl : x = [] := hps.symm
    exact (uncut_eq_nil_iff.1 hps').symm
  | cons p ps ih =>
    cases ps' with
    | nil =>
      obtain rfl : x = [] := hps'.symm
      exact absurd (uncut_eq_nil_iff.1 hps) (List.cons_ne_nil p ps)
    | cons p' ps' =>
      rw [List.cons_append] at h h'
      cases p with
      | plain c =>
        rw [uncut_plain] at hps
        cases p' with
        | plain c' =>
          rw [uncut_plain, ← hps] at hps'
          obtain ⟨rfl, hsame⟩ := List.cons.inj hps'
          rw [← hps, List.cons_append] at h h'
          obtain ⟨-, cs, hcs, hrest⟩ := pieces_eq_plain h
          obtain ⟨-, cs', hcs', hrest'⟩ := pieces_eq_plain h'
          obtain rfl := (List.cons.inj hcs).2
          obtain rfl := (List.cons.inj hcs').2
          rw [ih hrest.symm rfl hrest'.symm hsame]
        | found k =>
          rw [← hps', uncut_found] at h h'
          exact (not_found_of_plain h h').elim
      | found k =>
        rw [uncut_found] at hps
        cases p' with
        | plain c =>
          rw [← hps] at h h'
          exact (not_found_of_plain h' h).elim
        | found k' =>
          rw [uncut_found] at hps'
          obtain ⟨-, hphrase, tail, htail, hrest⟩ := pieces_eq_found h
          obtain ⟨-, hphrase', tail', htail', hrest'⟩ := pieces_eq_found h'
          obtain rfl : k = k' := Option.some.inj
            ((specifierAt?_eq_some_iff.2 ⟨hphrase, _, hps.symm⟩).symm.trans
              (specifierAt?_eq_some_iff.2 ⟨hphrase', _, hps'.symm⟩))
          rw [← hps, List.append_assoc] at htail htail'
          obtain rfl := List.append_cancel_left htail
          obtain rfl := List.append_cancel_left htail'
          rw [← hps] at hps'
          rw [ih hrest.symm rfl hrest'.symm (List.append_cancel_left hps')]

/-- A character in front of a text matters only if a word goes on behind it. -/
theorem pieces_congr (h : endsWord prev = endsWord prev' ∨ y = [] ∨ y.head? = some '\n') :
    pieces specifierMatch prev y = pieces specifierMatch prev' y := by
  cases y with
  | nil => simp only [pieces]
  | cons c cs =>
    have hmatch : specifierMatch prev (c :: cs) = specifierMatch prev' (c :: cs) := by
      rw [specifierMatch, specifierMatch, ← endsWord, ← endsWord]
      obtain h | h | h := h
      · rw [h]
      · cases h
      · obtain rfl : c = '\n' := Option.some.inj h
        have hnone : specifierAt? ('\n' :: cs) = none := rfl
        rw [hnone, Option.map_none, ite_self, ite_self]
    rw [pieces, pieces, hmatch]

/-! ### How inert text ends -/

/-- **A stretch that ends clearly**: no word goes on behind it, or it ends with its line or with the
script. -/
def EndsClearly (prev : Option Char) (u y : List Char) : Prop :=
  endsWord (u.getLast?.or prev) = false ∨ y = [] ∨ y.head? = some '\n'

theorem EndsClearly.cons {c : Char} {u : List Char} (h : EndsClearly (some c) u y)
    (prev : Option Char) : EndsClearly prev (c :: u) y := by
  refine h.imp_left fun hword => ?_
  rw [List.getLast?_cons]
  rw [← hword]
  cases u.getLast? <;> rfl

theorem endsClearly_singleton {c : Char} (hc : isWordChar c = false) (prev : Option Char) :
    EndsClearly prev [c] y :=
  .inl hc

theorem stringLength_endsClearly {quote : Char} (hquote : isWordChar quote = false)
    (prev : Option Char) (cs : List Char) :
    EndsClearly prev (cs.take (stringLength quote cs)) (cs.drop (stringLength quote cs)) := by
  induction cs using stringLength.induct quote generalizing prev with
  | case1 => exact .inr (.inl rfl)
  | case2 => exact .inr (.inl rfl)
  | case3 x cs ih =>
    rw [stringLength]
    exact ((ih (some x)).cons (some '\\')).cons prev
  | case4 cs hend hcover =>
    rw [stringLength_cons (ne_backslash hend hcover), if_pos rfl]
    exact endsClearly_singleton hquote prev
  | case5 cs _ _ hopen =>
    rw [stringLength_cons (by decide), if_neg hopen, if_pos rfl]
    exact .inr (.inr rfl)
  | case6 c cs hend hcover hopen hline ih =>
    rw [stringLength_cons (ne_backslash hend hcover), if_neg hopen, if_neg hline]
    exact (ih (some c)).cons prev

theorem lineLength_endsClearly (prev : Option Char) (cs : List Char) :
    EndsClearly prev (cs.take (lineLength cs)) (cs.drop (lineLength cs)) := by
  induction cs generalizing prev with
  | nil => exact .inr (.inl rfl)
  | cons c cs ih =>
    rw [lineLength]
    by_cases hline : c = '\n'
    · rw [if_pos hline, hline]
      exact .inr (.inr rfl)
    · rw [if_neg hline]
      exact (ih (some c)).cons prev

theorem blockLength_endsClearly (prev : Option Char) (cs : List Char) :
    EndsClearly prev (cs.take (blockLength cs)) (cs.drop (blockLength cs)) := by
  induction cs using blockLength.induct generalizing prev with
  | case1 => exact .inr (.inl rfl)
  | case2 cs => exact (endsClearly_singleton (c := '/') (by decide) (some '*')).cons prev
  | case3 c cs hopen ih =>
    rw [blockLength.eq_3 c cs hopen]
    exact (ih (some c)).cons prev

theorem templateLength_endsClearly (prev : Option Char) (cs : List Char) :
    EndsClearly prev (cs.take (templateLength cs).1) (cs.drop (templateLength cs).1) := by
  induction cs using templateLength.induct generalizing prev with
  | case1 => exact .inr (.inl rfl)
  | case2 => exact .inr (.inl rfl)
  | case3 x cs ih =>
    rw [templateLength]
    exact ((ih (some x)).cons (some '\\')).cons prev
  | case4 cs => exact (endsClearly_singleton (c := '\x7b') (by decide) (some '$')).cons prev
  | case5 cs => exact endsClearly_singleton (by decide) prev
  | case6 c cs hend hcover hopen hclose ih =>
    rw [templateLength_cons (ne_backslash hend hcover) hopen, if_neg hclose]
    exact (ih (some c)).cons prev

/-- **How a stretch of inert text ends.** -/
theorem inertFrom?_endsClearly {ds ds' : Depths} {c : Char} {cs : List Char} {n : Nat}
    (h : inertFrom? ds c cs = some (n, ds')) (prev : Option Char) :
    EndsClearly prev (c :: cs.take n) (cs.drop n) := by
  obtain ⟨hc, rfl, -⟩ | ⟨-, -, rfl, -⟩ | ⟨-, ⟨t, rfl, rfl⟩, -⟩ | ⟨-, rfl, -⟩ |
    ⟨-, -, -, rfl, -⟩ := inertFrom?_eq_some_iff.1 h
  · have hquote : isWordChar c = false := by obtain rfl | rfl := hc <;> decide
    exact (stringLength_endsClearly hquote (some c) cs).cons prev
  · exact (lineLength_endsClearly (some c) cs).cons prev
  · exact ((blockLength_endsClearly (some '*') t).cons (some c)).cons prev
  · exact (templateLength_endsClearly (some c) cs).cons prev
  · exact (templateLength_endsClearly (some c) cs).cons prev

/-- **How inert text ends** wherever it stands in a script. -/
theorem endsClearly_of_lexemes {ds : Depths} {s u : List Char} {before after : List Lexeme}
    (h : lexemes ds s = before ++ .inert u :: after) (prev : Option Char) :
    EndsClearly prev u (render after) := by
  fun_induction lexemes ds s generalizing before with
  | case1 => cases before <;> cases h
  | case2 ds c cs n ds' hinert ih =>
    cases before with
    | nil =>
      obtain ⟨hu, hafter⟩ := List.cons.inj h
      rw [← Lexeme.inert.inj hu, ← hafter, render_lexemes]
      exact inertFrom?_endsClearly hinert prev
    | cons l before => exact ih (List.cons.inj h).2
  | case3 ds c cs hcode ih =>
    cases before with
    | nil => cases h
    | cons l before => exact ih (List.cons.inj h).2

/-! ### Reworded scripts -/

/-- **No phrase touches** the part `u` of the script `x ++ (u ++ y)`. -/
def Untouched (x u y : List Char) : Prop :=
  ∃ ps qs, pieces specifierMatch none (x ++ (u ++ y)) = ps ++ (u.map .plain ++ qs) ∧ uncut ps = x

/-- **Two scripts are the same but for a stretch** of inert text, which no phrase touches in either
of them. -/
def Reworded (u u' s s' : List Char) : Prop :=
  ∃ before after, lexemes [] s = before ++ .inert u :: after ∧
    lexemes [] s' = before ++ .inert u' :: after ∧
    Untouched (render before) u (render after) ∧ Untouched (render before) u' (render after)

/-- Two texts are the same but for a part of them. -/
def SameBut (u u' s s' : List Char) : Prop :=
  ∃ x y, s = x ++ (u ++ y) ∧ s' = x ++ (u' ++ y)

theorem uncut_map_plain (u : List Char) : uncut (u.map .plain) = u := by
  induction u with
  | nil => rfl
  | cons c u ih => rw [List.map_cons, uncut_plain, ih]

variable {u u' : List Char}

theorem eq_render_of_lexemes {before after : List Lexeme}
    (h : lexemes [] s = before ++ .inert u :: after) :
    s = render before ++ (u ++ render after) := by
  rw [← render_lexemes [] s, h, render_append, render_cons]
  rfl

/-- **What is found in a reworded script** is what was found before. -/
theorem Reworded.exists_pieces (h : Reworded u u' s s') : ∃ ps qs,
    pieces specifierMatch none s = ps ++ (u.map .plain ++ qs) ∧
      pieces specifierMatch none s' = ps ++ (u'.map .plain ++ qs) := by
  obtain ⟨before, after, hs, hs', ⟨ps, qs, hcut, hps⟩, ⟨ps', qs', hcut', hps'⟩⟩ := h
  have hbehind : ∀ {v : List Char} {ps qs : List (Piece SpecifierMatch)},
      pieces specifierMatch none (render before ++ (v ++ render after)) =
        ps ++ (v.map .plain ++ qs) → uncut ps = render before →
      qs = pieces specifierMatch (v.getLast?.or ((render before).getLast?.or none))
        (render after) := by
    intro v ps qs hcut hps
    exact pieces_behind (pieces_behind hcut hps).symm (uncut_map_plain v)
  obtain rfl : ps = ps' := pieces_unique hcut hps hcut' hps'
  have hend := endsClearly_of_lexemes hs ((render before).getLast?.or none)
  have hend' := endsClearly_of_lexemes hs' ((render before).getLast?.or none)
  have hqs : qs = qs' := by
    rw [hbehind hcut hps, hbehind hcut' hps']
    refine pieces_congr ?_
    obtain hword | hrest := hend
    · obtain hword' | hrest := hend'
      · exact .inl (hword.trans hword'.symm)
      · exact .inr hrest
    · exact .inr hrest
  refine ⟨ps, qs, ?_, ?_⟩
  · rw [eq_render_of_lexemes hs, hcut]
  · rw [eq_render_of_lexemes hs', hcut', hqs]

theorem Reworded.sameBut (h : Reworded u u' s s') : SameBut u u' s s' := by
  obtain ⟨before, after, hs, hs', -⟩ := h
  exact ⟨_, _, eq_render_of_lexemes hs, eq_render_of_lexemes hs'⟩

theorem filterMap_found?_map_plain (u : List Char) :
    (u.map Piece.plain : List (Piece SpecifierMatch)).filterMap Piece.found? = [] := by
  rw [List.filterMap_map]
  exact List.filterMap_eq_nil_iff.2 fun _ _ => rfl

/-- The specifiers of a reworded script are the same. -/
theorem Reworded.specifiers_eq (h : Reworded u u' s s') : specifiers s' = specifiers s := by
  obtain ⟨ps, qs, hcut, hcut'⟩ := h.exists_pieces
  simp only [specifiers, specifierMatches, Text.findAll, hcut, hcut', List.filterMap_append,
    filterMap_found?_map_plain]

/-- **Replacing the specifiers of a reworded script** changes the same, and keeps the stretch. -/
theorem Reworded.replaceSpecifiers (h : Reworded u u' s s') (f : String → String) :
    SameBut u u' (replaceSpecifiers f s) (replaceSpecifiers f s') := by
  obtain ⟨ps, qs, hcut, hcut'⟩ := h.exists_pieces
  have hplain : ∀ v : List Char, (v.map Piece.plain).flatMap (Piece.render fun m =>
      SpecifierMatch.withSpecifier m (f (String.ofList m.specifier)).toList) = v := by
    intro v
    rw [List.flatMap_map]
    exact List.flatMap_singleton' v
  simp only [SameBut, Source.replaceSpecifiers, Text.replaceAll, hcut, hcut',
    List.flatMap_append, hplain]
  exact ⟨_, _, rfl, rfl⟩

end DenoPackager.Source
