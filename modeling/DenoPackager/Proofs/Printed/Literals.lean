import DenoPackager.Json.Printer
import DenoPackager.Json.Reader

/-!
# Reading back string literals

What is written for a string, in ASCII and between quotes, is read as that string again: every
escape is undone, and the two units of a character beyond the basic plane come together. The same
holds of an array of strings on lines of its own.

## Main definitions

* `elements`: what the escape of a character is read as.

## Main results

* `joinUnits_elements`: the units of all characters are joined to the characters.
* `lexemes_literal`: a literal is one token, whatever follows it.
* `parse_indentedItems`: the items of an array are read one after the other.
* `read_compactText_str`, `read_indentedText_strings`: strings are read back.
* `compactText_str_isAscii`, `indentedText_strings_isAscii`: all that is written is ASCII.
-/

namespace DenoPackager.Json

variable {opening cs rest : List Char} {es : List Element} {n : Nat}

/-! ### Hexadecimal digits -/

theorem hexValue?_digitChar (h : n < 16) : hexValue? (Nat.digitChar n) = some n := by
  have hall : ∀ n : Fin 16, hexValue? (Nat.digitChar n) = some n.val := by decide
  exact hall ⟨n, h⟩

/-- **A unit is read back** from its four digits, if the literal goes on behind them. -/
theorem scanText_unitEscape (h : n < 0x10000) (hscan : scanText opening cs = .ok (es, rest)) :
    scanText opening (unitEscape n ++ cs) = .ok (.unit n :: es, rest) := by
  have hunit : hexUnit? (Nat.digitChar (n / 4096 % 16)) (Nat.digitChar (n / 256 % 16))
      (Nat.digitChar (n / 16 % 16)) (Nat.digitChar (n % 16)) = some n := by
    have hlt (k : Nat) : k % 16 < 16 := Nat.mod_lt k (by decide)
    simp only [hexUnit?, hexValue?_digitChar (hlt _), Option.bind_eq_bind, Option.bind_some,
      Option.pure_def, Option.some.injEq]
    omega
  have hnonempty : cs.isEmpty = false := by
    cases cs with
    | nil => exact nomatch hscan
    | cons c cs => rfl
  simp only [unitEscape, hex4, List.map_cons, List.map_nil, List.cons_append, List.nil_append,
    scanText, hnonempty, Bool.false_eq_true, if_false, hunit, hscan]
  rfl

/-! ### Characters -/

/-- The first unit of a character beyond the basic plane. -/
def highUnit (c : Char) : Nat := 0xD800 + (c.toNat - 0x10000) / 0x400

/-- The second unit of a character beyond the basic plane. -/
def lowUnit (c : Char) : Nat := 0xDC00 + (c.toNat - 0x10000) % 0x400

/-- Characters that are written as they are, or as a backslash and a letter. -/
def IsPlain (c : Char) : Prop :=
  c ∈ ['\n', '\r', '\t', '\x0c', '\x08'] ∨ ' ' ≤ c ∧ c ≤ '~'

instance (c : Char) : Decidable (IsPlain c) :=
  inferInstanceAs (Decidable (_ ∨ _))

/-- **The four ways to write a character**: a backslash and a letter, the character itself, and one
unit or two. -/
theorem escapeChar_cases (c : Char) :
    (∃ e, e ≠ 'u' ∧ simpleEscape? e = some c ∧ IsPlain c ∧ escapeChar c = ['\\', e]) ∨
    (c ≠ '\x22' ∧ c ≠ '\\' ∧ (' ' ≤ c ∧ c ≤ '~') ∧ escapeChar c = [c]) ∨
    (¬IsPlain c ∧ c.toNat < 0x10000 ∧ escapeChar c = unitEscape c.toNat) ∨
    (¬IsPlain c ∧ ¬c.toNat < 0x10000 ∧
      escapeChar c = unitEscape (highUnit c) ++ unitEscape (lowUnit c)) := by
  by_cases hsimple : c ∈ ['\x22', '\\', '\n', '\r', '\t', '\x0c', '\x08']
  · left
    simp only [List.mem_cons, List.not_mem_nil, or_false] at hsimple
    rcases hsimple with rfl | rfl | rfl | rfl | rfl | rfl | rfl
    · exact ⟨'\x22', by decide⟩
    · exact ⟨'\\', by decide⟩
    · exact ⟨'n', by decide⟩
    · exact ⟨'r', by decide⟩
    · exact ⟨'t', by decide⟩
    · exact ⟨'f', by decide⟩
    · exact ⟨'b', by decide⟩
  · right
    simp only [List.mem_cons, List.not_mem_nil, or_false, not_or] at hsimple
    obtain ⟨hquote, hslash, hn, hr, ht, hf, hb⟩ := hsimple
    have hescape : escapeChar c = if ' ' ≤ c ∧ c ≤ '~' then [c]
        else if c.toNat < 0x10000 then unitEscape c.toNat
        else unitEscape (highUnit c) ++ unitEscape (lowUnit c) := by
      simp only [escapeChar, highUnit, lowUnit, hquote, hslash, hn, hr, ht, hf, hb, if_false]
    rw [hescape]
    by_cases hprintable : ' ' ≤ c ∧ c ≤ '~'
    · exact .inl ⟨hquote, hslash, hprintable, if_pos hprintable⟩
    · have hplain : ¬IsPlain c := by simp [IsPlain, hn, hr, ht, hf, hb, hprintable]
      rw [if_neg hprintable]
      by_cases hbasic : c.toNat < 0x10000
      · exact .inr (.inl ⟨hplain, hbasic, if_pos hbasic⟩)
      · exact .inr (.inr ⟨hplain, hbasic, if_neg hbasic⟩)

/-- **What the escape of a character is read as.** -/
def elements (c : Char) : List Element :=
  if IsPlain c then [.char c]
  else if c.toNat < 0x10000 then [.unit c.toNat]
  else [.unit (highUnit c), .unit (lowUnit c)]

/-- A character has no more than 21 bits and is no surrogate. -/
theorem toNat_bounds (c : Char) : c.toNat < 0xD800 ∨ 0xDFFF < c.toNat ∧ c.toNat < 0x110000 :=
  c.valid

/-- A backslash and a letter are one character. -/
theorem scanText_simpleEscape {e c : Char} (he : e ≠ 'u') (h : simpleEscape? e = some c)
    (opening cs : List Char) :
    scanText opening ('\\' :: e :: cs) = (scanText opening cs).cons (.char c) := by
  rw [scanText.eq_5 opening e cs (fun _ _ _ _ _ hu _ => he hu) fun hu => he hu, h]

/-- A printable character stands for itself. -/
theorem scanText_printable {c : Char} (hquote : c ≠ '\x22') (hslash : c ≠ '\\') (h : ' ' ≤ c)
    (opening cs : List Char) :
    scanText opening (c :: cs) = (scanText opening cs).cons (.char c) := by
  rw [scanText.eq_6 opening c cs hquote (fun _ _ _ _ _ hc _ => hslash hc)
    (fun _ hc _ => hslash hc) fun _ _ hc _ => hslash hc, if_neg hslash, if_neg (by simpa using h)]

/-- **A character is read back** from its escape. -/
theorem scanText_escapeChar (c : Char) (hscan : scanText opening cs = .ok (es, rest)) :
    scanText opening (escapeChar c ++ cs) = .ok (elements c ++ es, rest) := by
  have hbounds := toNat_bounds c
  rw [elements]
  obtain ⟨e, he, hsimple, hplain, hc⟩ | ⟨hquote, hslash, hprintable, hc⟩ | ⟨hplain, hbasic, hc⟩ |
    ⟨hplain, hbasic, hc⟩ := escapeChar_cases c
  · rw [hc, if_pos hplain]
    show scanText opening ('\\' :: e :: cs) = _
    rw [scanText_simpleEscape he hsimple, hscan]
    rfl
  · rw [hc, if_pos (.inr hprintable)]
    show scanText opening (c :: cs) = _
    rw [scanText_printable hquote hslash hprintable.1, hscan]
    rfl
  · rw [hc, if_neg hplain, if_pos hbasic]
    exact scanText_unitEscape hbasic hscan
  · have hhigh : highUnit c < 0x10000 := by
      rw [highUnit]
      omega
    have hlow : lowUnit c < 0x10000 := by
      rw [lowUnit]
      omega
    rw [hc, if_neg hplain, if_neg hbasic, List.append_assoc]
    exact scanText_unitEscape hhigh (scanText_unitEscape hlow hscan)

/-- A unit that is no high one is not joined to what follows. -/
theorem joinUnits_unit (h : isHighUnit n = false) (es : List Element) :
    joinUnits (.unit n :: es) =
      (if isLowUnit n then '\uFFFD' else Char.ofNat n) :: joinUnits es := by
  cases es with
  | nil => simp [joinUnits, h]
  | cons e es => cases e <;> simp [joinUnits, h]

/-- **A character is joined again** from its units. -/
theorem joinUnits_elements (c : Char) (es : List Element) :
    joinUnits (elements c ++ es) = c :: joinUnits es := by
  have hbounds := toNat_bounds c
  rw [elements]
  split
  · rfl
  · split
    · have hhigh : isHighUnit c.toNat = false := by
        simp only [isHighUnit, Bool.and_eq_false_iff, decide_eq_false_iff_not]
        omega
      have hlow : isLowUnit c.toNat = false := by
        simp only [isLowUnit, Bool.and_eq_false_iff, decide_eq_false_iff_not]
        omega
      rw [List.singleton_append, joinUnits_unit hhigh, hlow, Char.ofNat_toNat]
      rfl
    · have hhigh : isHighUnit (highUnit c) = true := by
        rw [isHighUnit, highUnit, Bool.and_eq_true, decide_eq_true_eq, decide_eq_true_eq]
        omega
      have hlow : isLowUnit (lowUnit c) = true := by
        rw [isLowUnit, lowUnit, Bool.and_eq_true, decide_eq_true_eq, decide_eq_true_eq]
        omega
      have hjoined : 0x10000 + (highUnit c - 0xD800) * 0x400 + (lowUnit c - 0xDC00) = c.toNat := by
        rw [highUnit, lowUnit]
        omega
      simp only [List.cons_append, List.nil_append, joinUnits, hhigh, hlow, Bool.and_self, if_true,
        hjoined, Char.ofNat_toNat]

/-! ### Literals -/

/-- **A literal is read** up to its closing quote. -/
theorem scanText_escapeChars (opening s rest : List Char) :
    scanText opening (escapeChars s ++ '\x22' :: rest) = .ok (s.flatMap elements, rest) := by
  induction s with
  | nil => rfl
  | cons c s ih =>
    rw [escapeChars, List.flatMap_cons, List.append_assoc, ← escapeChars, List.flatMap_cons]
    exact scanText_escapeChar c ih

theorem joinUnits_flatMap (s : List Char) : joinUnits (s.flatMap elements) = s := by
  induction s with
  | nil => rfl
  | cons c s ih => rw [List.flatMap_cons, joinUnits_elements, ih]

/-- A quote begins a literal. -/
theorem lexemes_quote (h : scanText ('\x22' :: cs) cs = .ok (es, rest)) :
    lexemes ('\x22' :: cs) =
      ⟨.text (String.ofList (joinUnits es)), '\x22' :: cs⟩ :: lexemes rest := by
  have hgap : isGap '\x22' = false := by decide
  have hpunctuation : punctuation? '\x22' = none := by decide
  rw [lexemes]
  simp only [hgap, hpunctuation, Bool.false_eq_true, if_false, if_true]
  split
  · rename_i es' rest' heq
    cases h.symm.trans heq
    rfl
  · rename_i heq
    cases h.symm.trans heq

/-- **A literal is one token**, whatever follows it. -/
theorem lexemes_literal (s rest : List Char) :
    lexemes (literal s ++ rest) =
      ⟨.text (String.ofList s), literal s ++ rest⟩ :: lexemes rest := by
  have hcons : literal s ++ rest = '\x22' :: (escapeChars s ++ '\x22' :: rest) := by
    rw [literal, List.cons_append, List.append_assoc, List.singleton_append]
  rw [hcons, lexemes_quote (scanText_escapeChars _ s rest), joinUnits_flatMap]

/-- What is written for a string is read as that string. -/
theorem read_compactText_str (s : String) :
    read (Json.str s).compactText.toList = .ok (.str s) := by
  have hlexemes := lexemes_literal s.toList []
  rw [List.append_nil, String.ofList_toList, lexemes] at hlexemes
  rw [compactText, String.toList_ofList, compact]
  refine read_of_parse [] (by simp [literal]) ?_
  rw [hlexemes]
  rfl

/-! ### Arrays of strings -/

/-- The blanks of a new line are no tokens. -/
theorem lexemes_newLine (level : Nat) (rest : List Char) :
    lexemes (newLine level ++ rest) = lexemes rest := by
  have hblanks (k : Nat) : lexemes (List.replicate k ' ' ++ rest) = lexemes rest := by
    induction k with
    | zero => rfl
    | succ k ih =>
      rw [List.replicate_succ, List.cons_append, lexemes]
      exact ih
  rw [newLine, List.cons_append, lexemes]
  exact hblanks _

/-- **The items after the first are read** one after the other. -/
theorem parse_indentedItems (level : Nat) (done : List Json) (stack : List Open)
    (ss : List String) (rest : List Char) :
    parse ⟨.separator, .items done :: stack⟩
        (lexemes (indentedItems level (ss.map .str) ++ rest)) =
      parse ⟨.separator, .items ((ss.map .str).reverse ++ done) :: stack⟩ (lexemes rest) := by
  induction ss generalizing done with
  | nil => rfl
  | cons s ss ih =>
    rw [List.map_cons, List.reverse_cons, List.append_assoc, List.singleton_append, ← ih,
      indentedItems, List.cons_append, lexemes_punctuation (t := .comma) rfl, List.append_assoc,
      List.append_assoc, lexemes_newLine, indented, lexemes_literal, String.ofList_toList]
    rfl

/-- **What is written for an array of strings is read** as the array. -/
theorem read_indentedText_strings (ss : List String) :
    read (Json.arr (ss.map .str)).indentedText.toList = .ok (.arr (ss.map .str)) := by
  have hopen := lexemes_punctuation (c := '[') (t := .openBracket) rfl
  have hclose := lexemes_punctuation (c := ']') (t := .closeBracket) rfl []
  rw [indentedText, String.toList_ofList]
  cases ss with
  | nil =>
    refine read_of_parse [] (by decide) ?_
    rw [List.map_nil, indented, hopen, hclose, lexemes]
    rfl
  | cons s ss =>
    have hitems := parse_indentedItems 1 [.str s] [] ss (newLine 0 ++ [']'])
    rw [lexemes_newLine, hclose, lexemes] at hitems
    refine read_of_parse [] (by simp [indented]) ?_
    rw [List.map_cons, indented, hopen, List.append_assoc, List.append_assoc, List.append_assoc,
      lexemes_newLine, indented, lexemes_literal, String.ofList_toList]
    refine Eq.trans hitems ?_
    simp [parse, Reading.step, deliver]

/-! ### Plain ASCII -/

/-- All characters are ASCII characters. -/
def IsAscii (s : List Char) : Prop :=
  ∀ c ∈ s, c.toNat < 128

instance (s : List Char) : Decidable (IsAscii s) :=
  List.decidableBAll (fun c : Char => c.toNat < 128) s

theorem IsAscii.append {s t : List Char} (hs : IsAscii s) (ht : IsAscii t) : IsAscii (s ++ t) :=
  fun c hc => (List.mem_append.1 hc).elim (hs c) (ht c)

theorem compactText_str_isAscii (s : String) : IsAscii (Json.str s).compactText.toList := by
  rw [compactText, String.toList_ofList, compact]
  exact fun _ => literal_isAscii

theorem newLine_isAscii (level : Nat) : IsAscii (newLine level) := by
  intro c hc
  rw [newLine, List.mem_cons, List.mem_replicate] at hc
  rcases hc with rfl | ⟨-, rfl⟩ <;> decide

theorem indentedItems_isAscii (level : Nat) (ss : List String) :
    IsAscii (indentedItems level (ss.map .str)) := by
  induction ss with
  | nil => exact fun _ hc => absurd hc List.not_mem_nil
  | cons s ss ih =>
    have hitem : IsAscii (newLine level ++ literal s.toList) :=
      (newLine_isAscii level).append fun _ => literal_isAscii
    exact IsAscii.append (s := [',']) (by decide) (hitem.append ih)

theorem indentedText_strings_isAscii (ss : List String) :
    IsAscii (Json.arr (ss.map .str)).indentedText.toList := by
  rw [indentedText, String.toList_ofList]
  cases ss with
  | nil => decide
  | cons s ss =>
    have hitem : IsAscii (newLine 1 ++ literal s.toList ++ indentedItems 1 (ss.map .str)) :=
      ((newLine_isAscii 1).append fun _ => literal_isAscii).append (indentedItems_isAscii 1 ss)
    exact IsAscii.append (s := ['[']) (by decide)
      ((hitem.append (newLine_isAscii 0)).append (by decide))

end DenoPackager.Json
