import DenoPackager.Json.Token

/-!
# Reading JSON

The reader walks once over the tokens, with the values that are still open on a stack: one
recursion on the token list, and no depth or fuel to run out of. Of two members with one name
the later gives the value and the earlier the place.

## Main results

* `parse_append`: the reader is a left-to-right automaton; reading two token lists one after the
  other is reading their concatenation.
* `read_within`: a mistake is in the text that is read.
-/

namespace DenoPackager.Json

/-- **Why a text is no value**: there is a mistake in it, or an integer with too many digits. -/
inductive Unreadable where
  | malformed (m : Mistake)
  | oversized
  deriving Repr, DecidableEq

/-- A value that is still open: an array with the items read so far, the last one first, or an
object with the members read so far and the name whose value comes next. -/
inductive Open where
  | items (done : List Json)
  | member (done : Members) (key : String)
  deriving Repr

/-- What may come next. -/
inductive Awaiting where
  /-- A value. -/
  | value
  /-- The first item of an array, or its end. -/
  | firstItem
  /-- The first name of an object, or its end. -/
  | firstName
  /-- A further name of an object with these members. -/
  | name (done : Members)
  /-- The colon after a name. -/
  | colon (done : Members) (key : String)
  /-- A comma or the end of the innermost open value, whose last part is complete. -/
  | separator
  /-- Nothing: the value is complete. -/
  | finish (v : Json)
  deriving Repr

/-- What is wrong if something else comes. -/
def Awaiting.complaint : Awaiting → Complaint
  | .value | .firstItem => .noValue
  | .firstName | .name _ => .noName
  | .colon _ _ => .noColon
  | .separator => .noComma
  | .finish _ => .moreText

/-- Where the reader stands. -/
structure Reading where
  awaiting : Awaiting
  stack : List Open
  deriving Repr

/-- A complete value goes into the innermost open one. -/
def deliver (v : Json) : List Open → Reading
  | [] => ⟨.finish v, []⟩
  | .items done :: stack => ⟨.separator, .items (v :: done) :: stack⟩
  | .member done key :: stack => ⟨.separator, .member (done.put key v) key :: stack⟩

/-- The reader at the first token of a value. -/
def startValue (stack : List Open) (l : Lexeme) : Except Unreadable Reading :=
  match l.token with
  | .openBrace => .ok ⟨.firstName, stack⟩
  | .openBracket => .ok ⟨.firstItem, stack⟩
  | .text s => .ok (deliver (.str s) stack)
  | .scalar v => .ok (deliver v stack)
  | .oversized => .error .oversized
  | .broken m => .error (.malformed m)
  | _ => .error (.malformed ⟨.noValue, l.remaining⟩)

/-- **One token.** -/
def Reading.step (r : Reading) (l : Lexeme) : Except Unreadable Reading :=
  match r.awaiting, l.token with
  | .value, _ => startValue r.stack l
  | .firstItem, .closeBracket => .ok (deliver (.arr []) r.stack)
  | .firstItem, _ => startValue (.items [] :: r.stack) l
  | .firstName, .closeBrace => .ok (deliver (.obj []) r.stack)
  | .firstName, .text key => .ok ⟨.colon [] key, r.stack⟩
  | .name done, .text key => .ok ⟨.colon done key, r.stack⟩
  | .firstName, .broken m | .name _, .broken m => .error (.malformed m)
  | .colon done key, .colon => .ok ⟨.value, .member done key :: r.stack⟩
  | .separator, t =>
    match r.stack, t with
    | .items _ :: _, .comma => .ok ⟨.value, r.stack⟩
    | .items done :: stack, .closeBracket => .ok (deliver (.arr done.reverse) stack)
    | .member done _ :: stack, .comma => .ok ⟨.name done, stack⟩
    | .member done _ :: stack, .closeBrace => .ok (deliver (.obj done) stack)
    | _, _ => .error (.malformed ⟨.noComma, l.remaining⟩)
  | awaiting, _ => .error (.malformed ⟨awaiting.complaint, l.remaining⟩)

/-- The reader after a list of tokens. -/
def parse (r : Reading) : List Lexeme → Except Unreadable Reading
  | [] => .ok r
  | l :: ls =>
    match r.step l with
    | .ok r => parse r ls
    | .error e => .error e

/-- The reader before the first token. -/
def Reading.start : Reading := ⟨.value, []⟩

/-- **Reading a value** from a text that holds nothing else. -/
def read (s : List Char) : Except Unreadable Json :=
  if s.head? = some '\uFEFF' then .error (.malformed ⟨.byteOrderMark, s⟩)
  else
    match parse .start (lexemes s) with
    | .ok ⟨.finish v, _⟩ => .ok v
    | .ok ⟨awaiting, _⟩ => .error (.malformed ⟨awaiting.complaint, []⟩)
    | .error e => .error e

/-- Reading two token lists one after the other is reading their concatenation. -/
theorem parse_append (r : Reading) (ls ks : List Lexeme) :
    parse r (ls ++ ks) = (parse r ls).bind fun r => parse r ks := by
  induction ls generalizing r with
  | nil => rfl
  | cons l ls ih =>
    simp only [List.cons_append, parse]
    cases r.step l with
    | ok r => exact ih r
    | error e => rfl

/-- A text is read if all its tokens are. -/
theorem read_of_parse {s : List Char} {v : Json} (stack : List Open)
    (hmark : s.head? ≠ some '\uFEFF') (h : parse .start (lexemes s) = .ok ⟨.finish v, stack⟩) :
    read s = .ok v := by
  rw [read, if_neg hmark, h]

/-! ### Where mistakes are -/

variable {s : List Char} {r : Reading} {l : Lexeme} {ls : List Lexeme} {m : Mistake}

theorem remaining_of_startValue {stack : List Open} (hl : l.Within s)
    (h : startValue stack l = .error (.malformed m)) : m.remaining <:+ s := by
  revert h
  fun_cases startValue stack l with
  | case6 m' hm =>
    rintro ⟨⟩
    exact hl.mistake m hm
  | case7 =>
    rintro ⟨⟩
    exact hl.remaining
  | _ => exact fun h => nomatch h

/-- The mistake that a token is refused for is in the token, or it is where the token begins. -/
theorem remaining_of_step (hl : l.Within s) (h : r.step l = .error (.malformed m)) :
    m.remaining <:+ s := by
  revert h
  fun_cases Reading.step r l with
  | case1 => exact remaining_of_startValue hl
  | case3 => exact remaining_of_startValue hl
  | case7 m' hm =>
    rintro ⟨⟩
    exact hl.mistake m hm
  | case8 _ m' hm =>
    rintro ⟨⟩
    exact hl.mistake m hm
  | case14 =>
    rintro ⟨⟩
    exact hl.remaining
  | case15 =>
    rintro ⟨⟩
    exact hl.remaining
  | _ => exact fun h => nomatch h

theorem remaining_of_parse (hls : ∀ l ∈ ls, l.Within s)
    (h : parse r ls = .error (.malformed m)) : m.remaining <:+ s := by
  induction ls generalizing r with
  | nil => exact nomatch h
  | cons l ls ih =>
    rw [parse] at h
    split at h
    · exact ih (fun k hk => hls k (List.mem_cons_of_mem l hk)) h
    · rename_i hstep
      cases h
      exact remaining_of_step (hls l List.mem_cons_self) hstep

/-- **A mistake is in the text** that is read: what is left of the text there is an end of it. -/
theorem read_within (h : read s = .error (.malformed m)) : m.remaining <:+ s := by
  rw [read] at h
  split at h
  · cases h
    exact List.suffix_rfl
  · split at h
    · exact nomatch h
    · cases h
      exact List.nil_suffix
    · rename_i hparse
      cases h
      exact remaining_of_parse (lexemes_within s) hparse

end DenoPackager.Json
