/-!
# Taking text apart

Splitting at a character, at line breaks, at a known start or at the last occurrence of a
character. Text is handled as a list of characters throughout, so that every function here is
a plain recursion on its argument.

## Main results

* `afterStart?_eq_some_iff`: a known start is removed exactly when it is there.
* `splitLast?_eq_some`: the two sides of the last occurrence make up the text.
-/

namespace DenoPackager.Text

/-- **Splitting at a character.** The stretches between the occurrences of `sep`, empty ones
included; a text without `sep` is its own single stretch. -/
def splitOn (sep : Char) : List Char → List (List Char)
  | [] => [[]]
  | c :: cs =>
    match splitOn sep cs with
    | [] => [[c]]
    | piece :: pieces => if c = sep then [] :: piece :: pieces else (c :: piece) :: pieces

/-- The text after a known start, or `none` when the text starts otherwise. -/
def afterStart? : List Char → List Char → Option (List Char)
  | [], s => some s
  | _ :: _, [] => none
  | p :: ps, c :: cs => if p = c then afterStart? ps cs else none

/-- Whether the text starts with `start`. -/
def startsWith (start s : List Char) : Bool :=
  (afterStart? start s).isSome

/-- The text without `start` in front, if it is there. -/
def dropStart (start s : List Char) : List Char :=
  (afterStart? start s).getD s

/-- The text before and after the last occurrence of `sep`. -/
def splitLast? (sep : Char) : List Char → Option (List Char × List Char)
  | [] => none
  | c :: cs =>
    match splitLast? sep cs with
    | some (before, after) => some (c :: before, after)
    | none => if c = sep then some ([], cs) else none

/-- **Line breaks.** The characters that end a line of a program's printed output: the ASCII
line, vertical tab and form feeds and the carriage return, the ASCII separators, and the
breaks of Latin-1 and of the general punctuation block. -/
def isLineBreak (c : Char) : Bool :=
  c.toNat ∈ [0x0A, 0x0B, 0x0C, 0x0D, 0x1C, 0x1D, 0x1E, 0x85, 0x2028, 0x2029]

/-- **Lines.** The lines of a text without their breaks; a carriage return and a line feed
together are one break, and a break at the end opens no further line. -/
def lines : List Char → List (List Char)
  | [] => []
  | '\r' :: '\n' :: cs => [] :: lines cs
  | c :: cs =>
    if isLineBreak c then [] :: lines cs
    else
      match lines cs with
      | [] => [[c]]
      | l :: ls => (c :: l) :: ls

/-- **Line ends of a text file.** A carriage return, alone or before a line feed, is read as a
line feed. -/
def unifyLineEnds : List Char → List Char
  | [] => []
  | '\r' :: '\n' :: cs => '\n' :: unifyLineEnds cs
  | '\r' :: cs => '\n' :: unifyLineEnds cs
  | c :: cs => c :: unifyLineEnds cs

/-- The text with its ASCII letters in lower case. -/
def lowerAscii (s : List Char) : List Char :=
  s.map Char.toLower

/-! ### Nothing is lost -/

theorem splitOn_ne_nil (sep : Char) (s : List Char) : splitOn sep s ≠ [] := by
  cases s with
  | nil => simp [splitOn]
  | cons c cs =>
    simp only [splitOn]
    split
    · simp
    · split <;> simp

/-- No stretch holds the character that the text was split at. -/
theorem not_mem_of_mem_splitOn {sep : Char} {s piece : List Char} (h : piece ∈ splitOn sep s) :
    sep ∉ piece := by
  induction s generalizing piece with
  | nil => simp_all [splitOn]
  | cons c cs ih =>
    simp only [splitOn] at h
    cases hs : splitOn sep cs with
    | nil => exact absurd hs (splitOn_ne_nil sep cs)
    | cons p ps =>
      rw [hs] at h ih
      simp only at h
      split at h
      · rcases List.mem_cons.1 h with rfl | h
        · simp
        · exact ih h
      · rename_i hc
        rcases List.mem_cons.1 h with rfl | h
        · have : sep ∉ p := ih List.mem_cons_self
          simp only [List.mem_cons, not_or]
          exact ⟨fun e => hc e.symm, this⟩
        · exact ih (List.mem_cons_of_mem _ h)

/-- **A known start** is removed exactly when the text is that start and something after it. -/
theorem afterStart?_eq_some_iff {start s rest : List Char} :
    afterStart? start s = some rest ↔ s = start ++ rest := by
  induction start generalizing s with
  | nil => simp [afterStart?]
  | cons p ps ih =>
    cases s with
    | nil => simp [afterStart?]
    | cons c cs =>
      simp only [afterStart?]
      split
      · subst_vars
        simp [ih]
      · rename_i h
        simp only [reduceCtorEq, List.cons_append, List.cons.injEq, false_iff, not_and]
        exact fun e => absurd e.symm h

/-- The last occurrence of `sep` and its two sides make up the text, and there is none after it. -/
theorem splitLast?_eq_some {sep : Char} {s before after : List Char}
    (h : splitLast? sep s = some (before, after)) : s = before ++ sep :: after ∧ sep ∉ after := by
  induction s generalizing before with
  | nil => simp [splitLast?] at h
  | cons c cs ih =>
    simp only [splitLast?] at h
    split at h
    · rename_i b a hs
      simp only [Option.some.injEq, Prod.mk.injEq] at h
      obtain ⟨rfl, rfl⟩ := h
      obtain ⟨rfl, hm⟩ := ih hs
      exact ⟨rfl, hm⟩
    · rename_i hs
      split at h
      · simp only [Option.some.injEq, Prod.mk.injEq] at h
        obtain ⟨rfl, rfl⟩ := h
        subst_vars
        refine ⟨rfl, fun hm => ?_⟩
        clear ih
        induction cs with
        | nil => simp at hm
        | cons d ds ihd =>
          simp only [splitLast?] at hs
          split at hs
          · simp at hs
          · rename_i hd
            split at hs
            · simp at hs
            · rename_i hne
              rcases List.mem_cons.1 hm with rfl | hm
              · exact hne rfl
              · exact ihd hd hm
      · simp at h

end DenoPackager.Text
