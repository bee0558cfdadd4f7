import DenoPackager.Compiler.Output
import Mathlib.Data.List.TakeWhile

/-!
# Headings in the compiler's output

The line of a diagnostic starts with a heading: the category, the code and a colon. Where the file
is known, a place stands before the heading and the file before the place:

    error TS5023: The message.
    src/mod.ts(3,7): error TS2322: The message.

A file may hold parentheses, digits and colons, so its end has to be found. The reading takes the
shortest file with a place and a heading behind it. A place opens with its only parenthesis of this
kind, so no other one lies across the end of a file that holds none itself.

## Main definitions

* `Category`, `heading`, `located`: how headings and places are written.
* `OpensHeading`, `OpensPlace`, `HoldsPlace`: texts with a heading or a place in them.

## Main results

* `natOfDigits?_decimal`: a number is read as it is written.
* `head?_heading`, `place?_located`: what is written is read.
* `isSome_head?`, `isSome_place?`, `located?_eq_none_iff`: nothing else is read.
* `located?_append`: a file ends where its place starts.
-/

namespace DenoPackager.CompilerOutput

open DenoPackager.Text

/-! ### How headings and places are written -/

/-- **The categories of diagnostics.** -/
inductive Category where
  | error
  | warning
  | message
  deriving Repr, DecidableEq

/-- How a category is written. -/
def Category.name : Category → String
  | .error => "error"
  | .warning => "warning"
  | .message => "message"

/-- **A numeral**: decimal digits of any script, one at least. -/
structure IsNumeral (ds : List Char) : Prop where
  ne_nil : ds ≠ []
  isDigit : ∀ c ∈ ds, isDigit c = true

/-- **A heading** with a text behind it. -/
def heading (category : Category) (code rest : List Char) : List Char :=
  category.name.toList ++ (" TS".toList ++ (code ++ (": ".toList ++ rest)))

/-- **A place** with a text behind it. -/
def located (line column rest : List Char) : List Char :=
  '(' :: (line ++ ',' :: (column ++ ("): ".toList ++ rest)))

/-- The text starts with a heading. -/
def OpensHeading (s : List Char) : Prop :=
  ∃ category code rest, IsNumeral code ∧ s = heading category code rest

/-- The text starts with a place and a heading behind it. -/
def OpensPlace (s : List Char) : Prop :=
  ∃ line column rest, IsNumeral line ∧ IsNumeral column ∧ OpensHeading rest ∧
    s = located line column rest

/-- **The text holds a place** with a heading behind it. -/
def HoldsPlace (s : List Char) : Prop :=
  ∃ t, t <:+ s ∧ OpensPlace t

theorem HoldsPlace.mono {s t : List Char} (h : HoldsPlace s) (hs : s <:+ t) : HoldsPlace t := by
  obtain ⟨u, hu, hopens⟩ := h
  exact ⟨u, hu.trans hs, hopens⟩

/-! ### Numbers -/

theorem toNat_of_isDigit {c : Char} (h : c.isDigit = true) : 48 ≤ c.toNat ∧ c.toNat ≤ 57 := by
  simpa [Char.isDigit, UInt32.le_iff_toNat_le] using h

/-- The value of an ASCII digit. -/
theorem digitValue?_of_isDigit {c : Char} (h : c.isDigit = true) :
    digitValue? c = some (c.toNat - '0'.toNat) := by
  have hrange := toNat_of_isDigit h
  have hfind : findRange? digitRanges c.toNat = some (0x30, 0x39) := by
    rw [digitRanges, findRange?, if_neg (by omega), if_pos (by omega)]
  rw [digitValue?, hfind, Option.map_some]
  congr 1
  show (c.toNat - 48) % 10 = c.toNat - 48
  omega

/-- A number is written in ASCII digits. -/
theorem isDigit_of_mem_decimal {n : Nat} {c : Char} (h : c ∈ decimal n) : c.isDigit = true :=
  Nat.isDigit_of_mem_toDigits (by decide) (by decide) h

theorem isNumeral_decimal (n : Nat) : IsNumeral (decimal n) := by
  refine ⟨Nat.toDigits_ne_nil, fun c hc => ?_⟩
  rw [isDigit, digitValue?_of_isDigit (isDigit_of_mem_decimal hc)]
  rfl

theorem foldl_digits {ds : List Char} (h : ∀ c ∈ ds, c.isDigit = true) (n : Nat) :
    ds.foldl (fun acc d => acc.bind fun n => (digitValue? d).map (10 * n + ·)) (some n) =
      some (Nat.ofDigitChars 10 ds n) := by
  induction ds generalizing n with
  | nil => rfl
  | cons d ds ih =>
    rw [List.foldl_cons, Option.bind_some, digitValue?_of_isDigit (h d List.mem_cons_self),
      Option.map_some, ih fun c hc => h c (List.mem_cons_of_mem d hc)]
    rfl

/-- **A number is read as it is written.** -/
theorem natOfDigits?_decimal (n : Nat) : natOfDigits? (decimal n) = some n := by
  have hfold := foldl_digits (fun c hc => isDigit_of_mem_decimal (n := n) hc) 0
  rw [decimal, Nat.ofDigitChars_toDigits (by decide) (by decide), ← decimal] at hfold
  rw [← hfold]
  match hd : decimal n with
  | [] => exact absurd hd Nat.toDigits_ne_nil
  | d :: ds => rfl

/-- A number is read if it has no more than 4300 digits. -/
theorem number_decimal (n : Nat) :
    number (decimal n) = if (decimal n).length ≤ 4300 then .ok (n : Int) else .error .badValue := by
  rw [number, natOfDigits?_decimal, Option.getD_some]
  by_cases h : (decimal n).length ≤ 4300
  · rw [if_neg (Nat.not_lt.2 h), if_pos h]
  · rw [if_pos (Nat.not_le.1 h), if_neg h]

/-! ### Reading a heading -/

theorem digits?_append {ds rest : List Char} (hds : IsNumeral ds)
    (hrest : ∀ c ∈ rest.head?, isDigit c = false) :
    digits? (ds ++ rest) = some (ds, rest) := by
  have hstop : rest.takeWhile isDigit = [] ∧ rest.dropWhile isDigit = rest := by
    cases rest with
    | nil => exact ⟨rfl, rfl⟩
    | cons c rest =>
      have hc : ¬isDigit c = true := by simp [hrest c rfl]
      exact ⟨List.takeWhile_cons_of_neg hc, List.dropWhile_cons_of_neg hc⟩
  rw [digits?, List.takeWhile_append_of_pos hds.isDigit, List.dropWhile_append_of_pos hds.isDigit,
    hstop.1, hstop.2, List.append_nil]
  match ds, hds.ne_nil with
  | _ :: _, _ => rfl

theorem digits?_eq_some {s ds rest : List Char} (h : digits? s = some (ds, rest)) :
    IsNumeral ds ∧ s = ds ++ rest := by
  rw [digits?] at h
  split at h
  · cases h
  · rename_i hne
    obtain ⟨rfl, rfl⟩ := Prod.mk.inj (Option.some.inj h)
    exact ⟨⟨hne, fun c hc => List.mem_takeWhile_imp hc⟩, List.takeWhile_append_dropWhile.symm⟩

theorem category?_name (k : Category) (rest : List Char) :
    category? (k.name.toList ++ rest) = some (k.name, rest) := by
  cases k <;> rfl

theorem category?_eq_some {s rest : List Char} {name : String}
    (h : category? s = some (name, rest)) :
    ∃ k : Category, name = k.name ∧ s = k.name.toList ++ rest := by
  rw [category?] at h
  obtain ⟨c, hc, hrest⟩ := List.exists_of_findSome?_eq_some h
  obtain ⟨t, ht, heq⟩ := Option.map_eq_some_iff.1 hrest
  obtain ⟨rfl, rfl⟩ := Prod.mk.inj heq
  rw [afterStart?_eq_some_iff] at ht
  have hname : ∃ k : Category, c = k.name := by
    simp only [List.mem_cons, List.not_mem_nil, or_false] at hc
    obtain rfl | rfl | rfl := hc
    exacts [⟨.error, rfl⟩, ⟨.warning, rfl⟩, ⟨.message, rfl⟩]
  obtain ⟨k, rfl⟩ := hname
  exact ⟨k, rfl, ht⟩

/-- **A heading is read** with whatever message there is. -/
theorem head?_heading (k : Category) {code : List Char} (hcode : IsNumeral code)
    (message : List Char) :
    head? (heading k code message) =
      some { category := k.name, code := code, message := message } := by
  have hdigits : digits? (code ++ (": ".toList ++ message)) =
      some (code, ": ".toList ++ message) := by
    refine digits?_append hcode fun c hc => ?_
    obtain rfl : ':' = c := Option.some.inj hc
    decide
  rw [head?, heading, category?_name]
  simp only [Option.bind_eq_bind, Option.bind_some]
  rw [afterStart?_eq_some_iff.2 rfl, Option.bind_some, hdigits, Option.bind_some,
    afterStart?_eq_some_iff.2 rfl]
  rfl

theorem opensHeading_of_head? {s : List Char} {h : Head} (hs : head? s = some h) :
    OpensHeading s := by
  simp only [head?, Option.bind_eq_bind, Option.bind_eq_some_iff, Prod.exists] at hs
  obtain ⟨name, s₁, hcategory, s₂, hts, code, s₃, hdigits, message, hcolon, -⟩ := hs
  obtain ⟨k, -, rfl⟩ := category?_eq_some hcategory
  obtain ⟨hcode, rfl⟩ := digits?_eq_some hdigits
  rw [afterStart?_eq_some_iff] at hts hcolon
  subst hts hcolon
  exact ⟨k, code, message, hcode, rfl⟩

/-- **Only a heading is read.** -/
theorem isSome_head? {s : List Char} : (head? s).isSome = true ↔ OpensHeading s := by
  constructor
  · intro h
    obtain ⟨_, hs⟩ := Option.isSome_iff_exists.1 h
    exact opensHeading_of_head? hs
  · rintro ⟨k, code, rest, hcode, rfl⟩
    rw [head?_heading k hcode]
    rfl

/-! ### Reading a place -/

/-- **A place is read** with the heading behind it. -/
theorem place?_located {line column rest : List Char} {h : Head} (hline : IsNumeral line)
    (hcolumn : IsNumeral column) (hrest : head? rest = some h) :
    place? (located line column rest) = some (line, column, h) := by
  have hcomma : digits? (line ++ ',' :: (column ++ ("): ".toList ++ rest))) =
      some (line, [','] ++ (column ++ ("): ".toList ++ rest))) := by
    refine digits?_append hline fun c hc => ?_
    obtain rfl : ',' = c := Option.some.inj hc
    decide
  have hclose : digits? (column ++ ("): ".toList ++ rest)) =
      some (column, "): ".toList ++ rest) := by
    refine digits?_append hcolumn fun c hc => ?_
    obtain rfl : ')' = c := Option.some.inj hc
    decide
  have hopen : afterStart? ['('] (located line column rest) =
      some (line ++ ',' :: (column ++ ("): ".toList ++ rest))) :=
    afterStart?_eq_some_iff.2 rfl
  simp only [place?, hopen, hcomma, Option.bind_eq_bind, Option.bind_some]
  rw [afterStart?_eq_some_iff.2 rfl, Option.bind_some, hclose, Option.bind_some,
    afterStart?_eq_some_iff.2 rfl, Option.bind_some, hrest]
  rfl

theorem opensPlace_of_place? {s : List Char} {p : List Char × List Char × Head}
    (hs : place? s = some p) : OpensPlace s := by
  simp only [place?, Option.bind_eq_bind, Option.bind_eq_some_iff, Prod.exists] at hs
  obtain ⟨s₁, hopen, line, s₂, hline, s₃, hcomma, column, s₄, hcolumn, s₅, hclose, h, hhead, -⟩ :=
    hs
  obtain ⟨hnumeral, rfl⟩ := digits?_eq_some hline
  obtain ⟨hnumeral', rfl⟩ := digits?_eq_some hcolumn
  rw [afterStart?_eq_some_iff] at hopen hcomma hclose
  subst hopen hcomma hclose
  exact ⟨line, column, s₅, hnumeral, hnumeral', opensHeading_of_head? hhead, rfl⟩

/-- **Only a place is read.** -/
theorem isSome_place? {s : List Char} : (place? s).isSome = true ↔ OpensPlace s := by
  constructor
  · intro h
    obtain ⟨_, hs⟩ := Option.isSome_iff_exists.1 h
    exact opensPlace_of_place? hs
  · rintro ⟨line, column, rest, hline, hcolumn, hrest, rfl⟩
    obtain ⟨_, hhead⟩ := Option.isSome_iff_exists.1 (isSome_head?.2 hrest)
    rw [place?_located hline hcolumn hhead]
    rfl

/-! ### Finding the end of a file -/

/-- **No place is found** if there is none behind the first character. -/
theorem located?_eq_none_iff {s : List Char} : located? s = none ↔ ¬HoldsPlace s.tail := by
  induction s with
  | nil =>
    refine iff_of_true rfl ?_
    rintro ⟨t, ht, line, column, rest, -, -, -, rfl⟩
    exact absurd (List.suffix_nil.1 ht) (List.cons_ne_nil _ _)
  | cons c cs ih =>
    have hholds : HoldsPlace cs ↔ OpensPlace cs ∨ HoldsPlace cs.tail := by
      constructor
      · rintro ⟨t, ht, hopens⟩
        cases cs with
        | nil => exact .inl (List.suffix_nil.1 ht ▸ hopens)
        | cons d ds =>
          obtain rfl | ht := List.suffix_cons_iff.1 ht
          exacts [.inl hopens, .inr ⟨t, ht, hopens⟩]
      · rintro (hopens | hholds)
        exacts [⟨cs, List.suffix_rfl, hopens⟩, hholds.mono (List.tail_suffix cs)]
    rw [List.tail_cons, hholds, not_or, ← ih, ← isSome_place?, located?]
    cases place? cs with
    | some p => exact iff_of_false (by simp) (by simp)
    | none => simp

theorem located_append (line column rest more : List Char) :
    located line column rest ++ more = located line column (rest ++ more) := by
  simp only [located, List.cons_append, List.append_assoc]

theorem heading_append (k : Category) (code rest more : List Char) :
    heading k code rest ++ more = heading k code (rest ++ more) := by
  simp only [heading, List.append_assoc]

theorem IsNumeral.not_mem {ds : List Char} (h : IsNumeral ds) : '(' ∉ ds := fun hmem =>
  absurd (h.isDigit _ hmem) (by decide)

/-- No parenthesis opens in a heading. -/
theorem not_mem_heading (k : Category) {code : List Char} (hcode : IsNumeral code) :
    '(' ∉ heading k code [] := by
  have hname : '(' ∉ k.name.toList := by cases k <;> decide
  have hmarks : '(' ∉ " TS".toList ∧ '(' ∉ ": ".toList := by decide
  simp only [heading, List.mem_append, List.not_mem_nil, hcode.not_mem, hname, hmarks, or_self,
    not_false_eq_true]

/-- In a place, a parenthesis opens with its first character only. -/
theorem not_mem_located (k : Category) {line column code : List Char} (hline : IsNumeral line)
    (hcolumn : IsNumeral column) (hcode : IsNumeral code) :
    '(' ∉ (located line column (heading k code [])).tail := by
  have hmarks : '(' ∉ "): ".toList ∧ '(' ≠ ',' := by decide
  simp only [located, List.tail_cons, List.mem_append, List.mem_cons, hline.not_mem,
    hcolumn.not_mem, not_mem_heading k hcode, hmarks, or_self, not_false_eq_true]

/-- A place starts where a parenthesis opens. -/
theorem HoldsPlace.of_append {s t : List Char} (hs : '(' ∉ s) (h : HoldsPlace (s ++ t)) :
    HoldsPlace t := by
  induction s with
  | nil => exact h
  | cons c s ih =>
    rw [List.mem_cons, not_or] at hs
    obtain ⟨u, hu, hopens⟩ := h
    obtain rfl | hu := List.suffix_cons_iff.1 hu
    · obtain ⟨line, column, rest, -, -, -, heq⟩ := hopens
      exact absurd (List.cons.inj heq).1.symm hs.1
    · exact ih hs.2 ⟨u, hu, hopens⟩

/-- **No place lies across a parenthesis that opens.** -/
theorem opensPlace_of_append {s rest : List Char} (hs : s ≠ [])
    (h : OpensPlace (s ++ '(' :: rest)) : OpensPlace s := by
  obtain ⟨line, column, r, hline, hcolumn, ⟨k, code, message, hcode, rfl⟩, heq⟩ := h
  have hwhole : located line column (heading k code message) =
      located line column (heading k code []) ++ message := by
    rw [located_append, heading_append, List.nil_append]
  rw [hwhole, List.append_eq_append_iff] at heq
  obtain ⟨mid, hmid, hrest⟩ | ⟨mid, rfl, -⟩ := heq
  · -- The place would go on behind `s`, over the parenthesis, or end there.
    match mid with
    | [] =>
      refine ⟨line, column, heading k code [], hline, hcolumn, ⟨k, code, [], hcode, rfl⟩, ?_⟩
      rw [hmid, List.append_nil]
    | d :: mid =>
      obtain ⟨rfl, -⟩ := List.cons.inj hrest
      refine absurd ?_ (not_mem_located k hline hcolumn hcode)
      match s, hs with
      | c :: s, _ =>
        rw [hmid, List.cons_append, List.tail_cons]
        exact List.mem_append_right _ List.mem_cons_self
  · refine ⟨line, column, heading k code mid, hline, hcolumn, ⟨k, code, mid, hcode, rfl⟩, ?_⟩
    rw [located_append, heading_append, List.nil_append]

/-- **A file ends where its place starts**, whatever it holds that is no place. One that it starts
with does no harm, as a file has one character at least. -/
theorem located?_append {file line column rest : List Char} {h : Head} (hne : file ≠ [])
    (hfile : ¬HoldsPlace file.tail) (hline : IsNumeral line) (hcolumn : IsNumeral column)
    (hrest : head? rest = some h) :
    located? (file ++ located line column rest) = some (file, line, column, h) := by
  have hplace := place?_located hline hcolumn hrest
  induction file with
  | nil => exact absurd rfl hne
  | cons c file ih =>
    cases file with
    | nil =>
      rw [List.cons_append, List.nil_append, located?, hplace]
    | cons d file =>
      have hnone : place? (d :: file ++ located line column rest) = none := by
        refine Option.not_isSome_iff_eq_none.1 fun hsome => hfile ?_
        exact ⟨d :: file, List.suffix_rfl,
          opensPlace_of_append (List.cons_ne_nil d file) (isSome_place?.1 hsome)⟩
      rw [List.cons_append, located?, hnone]
      simp only
      rw [ih (List.cons_ne_nil d file) fun hholds => hfile (hholds.mono (List.suffix_cons d _))]
      rfl

end DenoPackager.CompilerOutput
