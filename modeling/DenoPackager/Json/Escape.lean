/-!
# String literals

A string between quotes, in ASCII: a quote and a backslash are escaped by a backslash, five
control characters by a letter, and every other character outside the printable ASCII range by
its UTF-16 units in hexadecimal.
-/

namespace DenoPackager.Json

/-- The four hexadecimal digits of a UTF-16 unit, in lower case. -/
def hex4 (n : Nat) : List Char :=
  [n / 4096 % 16, n / 256 % 16, n / 16 % 16, n % 16].map Nat.digitChar

/-- The escape of one UTF-16 unit. -/
def unitEscape (n : Nat) : List Char :=
  '\\' :: 'u' :: hex4 n

/-- **A character inside quotes.** A character beyond the basic plane is a pair of surrogates. -/
def escapeChar (c : Char) : List Char :=
  if c = '\x22' then ['\\', '\x22']
  else if c = '\\' then ['\\', '\\']
  else if c = '\n' then ['\\', 'n']
  else if c = '\r' then ['\\', 'r']
  else if c = '\t' then ['\\', 't']
  else if c = '\x0c' then ['\\', 'f']
  else if c = '\x08' then ['\\', 'b']
  else if ' ' ≤ c ∧ c ≤ '~' then [c]
  else if c.toNat < 0x10000 then unitEscape c.toNat
  else
    unitEscape (0xD800 + (c.toNat - 0x10000) / 0x400) ++
      unitEscape (0xDC00 + (c.toNat - 0x10000) % 0x400)

/-- The characters of a literal, between its quotes. -/
def escapeChars (s : List Char) : List Char :=
  s.flatMap escapeChar

/-- **A string literal.** -/
def literal (s : List Char) : List Char :=
  '\x22' :: (escapeChars s ++ ['\x22'])

/-! ### Literals are plain ASCII -/

theorem digitChar_isAscii (n : Nat) (h : n < 16) : (Nat.digitChar n).toNat < 128 := by
  revert n
  decide

theorem unitEscape_isAscii {n : Nat} {c : Char} (h : c ∈ unitEscape n) : c.toNat < 128 := by
  simp only [unitEscape, hex4, List.map_cons, List.map_nil, List.mem_cons, List.not_mem_nil,
    or_false] at h
  rcases h with rfl | rfl | rfl | rfl | rfl | rfl
  · decide
  · decide
  all_goals exact digitChar_isAscii _ (Nat.mod_lt _ (by omega))

/-- A backslash and a letter are ASCII characters. -/
theorem pair_isAscii {x y c : Char} (hx : x.toNat < 128) (hy : y.toNat < 128) (h : c ∈ [x, y]) :
    c.toNat < 128 := by
  simp only [List.mem_cons, List.not_mem_nil, or_false] at h
  rcases h with rfl | rfl
  · exact hx
  · exact hy

theorem escapeChar_isAscii {d c : Char} (h : c ∈ escapeChar d) : c.toNat < 128 := by
  rw [escapeChar] at h
  -- seven characters that are escaped by a letter or by themselves
  iterate 7 (split at h; · exact pair_isAscii (by decide) (by decide) h)
  split at h
  · rename_i hprintable
    rw [List.mem_singleton.1 h]
    exact Nat.lt_of_le_of_lt hprintable.2 (by decide)
  · split at h
    · exact unitEscape_isAscii h
    · rcases List.mem_append.1 h with h | h <;> exact unitEscape_isAscii h

/-- Every character of a literal is an ASCII character. -/
theorem literal_isAscii {s : List Char} {c : Char} (h : c ∈ literal s) : c.toNat < 128 := by
  simp only [literal, List.mem_cons, List.mem_append, escapeChars, List.mem_flatMap,
    List.not_mem_nil, or_false] at h
  rcases h with rfl | ⟨d, _, h⟩ | rfl
  · decide
  · exact escapeChar_isAscii h
  · decide

end DenoPackager.Json
