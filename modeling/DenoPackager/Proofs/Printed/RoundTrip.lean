import Mathlib.Algebra.Group.Nat.Defs
import DenoPackager.Proofs.Printed.Heading

/-!
# Reading back what a compiler prints

A compiler prints its reports one after the other: a line with the heading and the first line of
the message, then the further lines of the message, each behind some blanks. Lines end with a line
feed, with a carriage return in front or not. Between all of them there may be blank lines, and
lines that start at the margin and are no report.

What is read back is the list of the reports, with the names of files replaced, and the lines that
are none. The only limit is that of the numbers: one with more than 4300 digits cannot be read.

## Main definitions

* `Report`: a report with its category, code, place and message.
* `Printed`: the lines that reports are printed as.
* `Joined`: the text that lines make up.

## Main results

* `ofLine?_line`: the line of a report is read as it.
* `readLines_printed`: what is read from printed lines, whatever was read before.
* `parse_printed`: reports that are printed are read back.
* `parse_vast`: a code that cannot be read.
-/

namespace DenoPackager.CompilerOutput

open DenoPackager.Text

/-! ### Reports -/

/-- No character of the text ends a line. -/
def Unbroken (s : List Char) : Prop :=
  ∀ c ∈ s, isLineBreak c = false

instance (s : List Char) : Decidable (Unbroken s) :=
  List.decidableBAll (fun c => isLineBreak c = false) s

/-- A text that holds a place is one behind which a file could end. -/
instance (s : List Char) : Decidable (HoldsPlace s) :=
  decidable_of_iff (¬located? (' ' :: s) = none) (by rw [located?_eq_none_iff, not_not]; rfl)

instance (s : List Char) : Decidable (OpensHeading s) :=
  decidable_of_iff _ isSome_head?

/-- **A place** in a file whose name starts at the margin and holds no place itself, behind its
first character. -/
structure Place where
  file : List Char
  line : Nat
  column : Nat
  file_ne_nil : file ≠ []
  unindented : ∀ c ∈ file.head?, isBlank c = false
  unbroken : Unbroken file
  plain : ¬HoldsPlace file.tail

/-- **A report** with the first line of its message and the further ones, which are trimmed and not
empty. Without a place in front, the first line must not look as if there were one. -/
structure Report where
  category : Category
  code : Nat
  place : Option Place
  first : List Char
  further : List (List Char)
  first_unbroken : Unbroken first
  further_unbroken : ∀ t ∈ further, Unbroken t
  further_trimmed : ∀ t ∈ further, t ≠ [] ∧ trim t = t
  plain : place = none → ¬HoldsPlace first

namespace Report

/-- The numbers in a report. -/
def numbers (r : Report) : List Nat :=
  r.code :: (r.place.map fun p => [p.line, p.column]).getD []

/-- **The numbers can be read**: they have at most 4300 digits. -/
def Readable (r : Report) : Prop :=
  ∀ n ∈ r.numbers, (decimal n).length ≤ 4300

instance (r : Report) : Decidable r.Readable :=
  List.decidableBAll (fun n => (decimal n).length ≤ 4300) r.numbers

/-- The heading of a report and the first line of its message. -/
def opening (r : Report) : List Char :=
  heading r.category (decimal r.code) r.first

/-- **The line of a report.** -/
def line (r : Report) : List Char :=
  match r.place with
  | none => r.opening
  | some p => p.file ++ located (decimal p.line) (decimal p.column) r.opening

/-- The diagnostic with a message and everything else from the report. -/
def withMessage (names : List (String × String)) (r : Report) (message : List Char) : Diagnostic :=
  { message := String.ofList message
    code := some r.code
    category := r.category.name
    file := r.place.map fun p => (names.lookup (String.ofList p.file)).getD (String.ofList p.file)
    line := r.place.map fun p => p.line
    column := r.place.map fun p => p.column }

/-- **The diagnostic of a report**, with all lines of the message. File names are replaced as
`names` says. -/
def diagnostic (names : List (String × String)) (r : Report) : Diagnostic :=
  r.withMessage names (r.first ++ r.further.flatMap ('\n' :: ·))

end Report

/-! ### How reports are printed -/

/-- All characters are blank. -/
def Blank (s : List Char) : Prop :=
  ∀ c ∈ s, isBlank c = true

instance (s : List Char) : Decidable (Blank s) :=
  List.decidableBAll (fun c => isBlank c = true) s

/-- **A line that is no report**, at the margin. -/
structure Aside (l : List Char) : Prop where
  unindented : ∃ c ∈ l.head?, isBlank c = false
  no_heading : ¬OpensHeading l
  no_place : ¬HoldsPlace l.tail

/-- **Printed lines**: `Printed further reports asides ls` says that the lines `ls` go on with the
lines `further` of the last message, and then with `reports`. The `asides` among them are no
reports. -/
inductive Printed : List (List Char) → List Report → List (List Char) → List (List Char) → Prop
  | done : Printed [] [] [] []
  | blank {further reports asides ls l} (hblank : Blank l) (hunbroken : Unbroken l)
      (rest : Printed further reports asides ls) : Printed further reports asides (l :: ls)
  | aside {further reports asides ls l} (haside : Aside l) (hunbroken : Unbroken l)
      (rest : Printed further reports asides ls) :
      Printed further reports (l :: asides) (l :: ls)
  | further {further reports asides ls t} (indent : List Char) (hne : indent ≠ [])
      (hblank : Blank indent) (hunbroken : Unbroken indent)
      (rest : Printed further reports asides ls) :
      Printed (t :: further) reports asides ((indent ++ t) :: ls)
  | report {reports asides ls} (r : Report) (rest : Printed r.further reports asides ls) :
      Printed [] (r :: reports) asides (r.line :: ls)

/-- **Joined lines**: each one ends with a line feed, behind a carriage return or not; the last one
need not. -/
inductive Joined : List (List Char) → List Char → Prop
  | nil : Joined [] []
  | last (l : List Char) : Joined [l] l
  | cons {l stop ls text} (hstop : stop = ['\n'] ∨ stop = ['\r', '\n']) (rest : Joined ls text) :
      Joined (l :: ls) (l ++ (stop ++ text))

/-! ### Blanks -/

theorem dropBlanks_append {s : List Char} (h : Blank s) (t : List Char) :
    dropBlanks (s ++ t) = dropBlanks t :=
  List.dropWhile_append_of_pos h

theorem trim_append {s : List Char} (h : Blank s) (t : List Char) : trim (s ++ t) = trim t := by
  rw [trim, trim, dropBlanks_append h]

theorem trim_eq_nil {s : List Char} (h : Blank s) : trim s = [] := by
  rw [← List.append_nil s, trim_append h]
  rfl

/-- Trimming keeps what starts at the margin. -/
theorem trim_ne_nil {c : Char} {s : List Char} (h : isBlank c = false) : trim (c :: s) ≠ [] := by
  have hdrop : dropBlanks (c :: s) = c :: s := List.dropWhile_cons_of_neg (by simp [h])
  rw [trim, hdrop, ne_eq, List.reverse_eq_nil_iff, dropBlanks, List.dropWhile_eq_nil_iff]
  intro hall
  have hc := hall c (List.mem_reverse.2 List.mem_cons_self)
  simp [h] at hc

/-! ### Lines -/

theorem lines_cons {c : Char} (hc : isLineBreak c = false) (s : List Char) :
    lines (c :: s) = match lines s with
      | [] => [[c]]
      | l :: ls => (c :: l) :: ls := by
  have hr : c ≠ '\r' := by
    rintro rfl
    exact absurd hc (by decide)
  exact (lines.eq_3 c s fun _ h => absurd h hr).trans (if_neg (by simp [hc]))

/-- A line ends where its line feed stands. -/
theorem lines_append {l stop : List Char} (hl : Unbroken l)
    (hstop : stop = ['\n'] ∨ stop = ['\r', '\n']) (text : List Char) :
    lines (l ++ (stop ++ text)) = l :: lines text := by
  induction l with
  | nil =>
    obtain rfl | rfl := hstop
    · rfl
    · rfl
  | cons c l ih =>
    rw [List.cons_append, lines_cons (hl c List.mem_cons_self),
      ih fun d hd => hl d (List.mem_cons_of_mem c hd)]

theorem lines_of_unbroken {l : List Char} (hl : Unbroken l) (hne : l ≠ []) : lines l = [l] := by
  induction l with
  | nil => exact absurd rfl hne
  | cons c l ih =>
    rw [lines_cons (hl c List.mem_cons_self)]
    cases l with
    | nil => rfl
    | cons d l =>
      rw [ih (fun e he => hl e (List.mem_cons_of_mem c he)) (List.cons_ne_nil d l)]

/-- **Lines are found again** in the text they make up, but for an empty one at the end. -/
theorem readLines_joined {ls : List (List Char)} {text : List Char} (h : Joined ls text)
    (hls : ∀ l ∈ ls, Unbroken l) (names : List (String × String)) (r : Reading) :
    readLines names r (lines text) = readLines names r ls := by
  induction h generalizing r with
  | nil => rfl
  | last l =>
    cases l with
    | nil => rfl
    | cons c l => rw [lines_of_unbroken (hls _ List.mem_cons_self) (List.cons_ne_nil c l)]
  | cons hstop rest ih =>
    rw [lines_append (hls _ List.mem_cons_self) hstop]
    simp only [readLines]
    split
    · exact ih (fun l hl => hls l (List.mem_cons_of_mem _ hl)) _
    · rfl

/-! ### The line of a report -/

theorem head?_opening (r : Report) :
    head? r.opening =
      some { category := r.category.name, code := decimal r.code, message := r.first } :=
  head?_heading r.category (isNumeral_decimal r.code) r.first

theorem ofHead_opening (r : Report) :
    ofHead { category := r.category.name, code := decimal r.code, message := r.first } =
      (number (decimal r.code)).map fun code =>
        { Diagnostic.ofMessage (String.ofList r.first) with
          code := some code, category := r.category.name } := rfl

/-- Behind a heading, a place can only stand in the message. -/
theorem holdsPlace_of_opening {r : Report} (h : HoldsPlace r.opening.tail) :
    HoldsPlace r.first := by
  have hopening : r.opening = heading r.category (decimal r.code) [] ++ r.first := by
    rw [heading_append, List.nil_append, Report.opening]
  refine .of_append (not_mem_heading r.category (isNumeral_decimal r.code)) ?_
  rw [← hopening]
  exact h.mono (List.tail_suffix _)

/-- **The line of a report is read** as it, if its numbers can be read. -/
theorem ofLine?_line (names : List (String × String)) (r : Report) :
    ofLine? names r.line =
      some (if r.Readable then .ok (r.withMessage names r.first) else .error .badValue) := by
  rw [ofLine?, Report.line]
  cases hplace : r.place with
  | none =>
    have hnone : located? r.opening = none :=
      located?_eq_none_iff.2 fun h => r.plain hplace (holdsPlace_of_opening h)
    simp only [hnone, head?_opening, Option.map_some, ofHead_opening, number_decimal,
      Report.Readable, Report.numbers, hplace, Report.withMessage]
    split <;> simp_all [Except.map, Diagnostic.ofMessage]
  | some p =>
    have hsome := located?_append p.file_ne_nil p.plain (isNumeral_decimal p.line)
      (isNumeral_decimal p.column) (head?_opening r)
    have hreadable : r.Readable ↔ (decimal r.code).length ≤ 4300 ∧
        (decimal p.line).length ≤ 4300 ∧ (decimal p.column).length ≤ 4300 := by
      simp [Report.Readable, Report.numbers, hplace]
    simp only [hsome, ofHead_opening, number_decimal, hreadable, Report.withMessage, hplace]
    by_cases hcode : (decimal r.code).length ≤ 4300
    · by_cases hline : (decimal p.line).length ≤ 4300
      · by_cases hcolumn : (decimal p.column).length ≤ 4300
        · simp only [hcode, hline, hcolumn, if_pos, and_self]
          rfl
        · simp only [hcode, hline, hcolumn, if_pos, if_false, and_false]
          rfl
      · simp only [hcode, hline, if_pos, if_false, and_false, false_and]
        rfl
    · simp only [hcode, if_false, false_and]
      rfl

/-- **What stands at the margin** is read as a line of its own. -/
theorem readLine_of_unindented {l : List Char} (h : ∃ c ∈ l.head?, isBlank c = false)
    (names : List (String × String)) (r : Reading) :
    readLine names r l =
      match ofLine? names l with
      | some (.ok d) => .ok { r with diagnostics := r.diagnostics ++ [d] }
      | some (.error e) => .error e
      | none => .ok { r with ignored := r.ignored ++ [String.ofList l] } := by
  obtain ⟨c, hc, hblank⟩ := h
  obtain ⟨s, rfl⟩ := List.head?_eq_some_iff.1 hc
  have hempty : ¬(trim (c :: s)).isEmpty = true := by simpa using trim_ne_nil hblank
  have hindent : ¬(((c :: s).head?.map isBlank).getD false = true ∧ r.diagnostics ≠ []) := by
    simp [hblank]
  exact (if_neg hempty).trans (if_neg hindent)

/-- The line of a report starts at the margin. -/
theorem unindented_line (r : Report) : ∃ c ∈ r.line.head?, isBlank c = false := by
  rw [Report.line]
  cases r.place with
  | none =>
    have hname : ∃ c s, r.category.name.toList = c :: s ∧ isBlank c = false := by
      cases r.category
      exacts [⟨'e', _, rfl, by decide⟩, ⟨'w', _, rfl, by decide⟩, ⟨'m', _, rfl, by decide⟩]
    obtain ⟨c, s, hcs, hc⟩ := hname
    refine ⟨c, ?_, hc⟩
    simp only [Report.opening, heading, hcs, List.cons_append, List.head?_cons, Option.mem_def]
  | some p =>
    obtain ⟨c, s, hfile⟩ := List.exists_cons_of_ne_nil p.file_ne_nil
    have hhead : c ∈ p.file.head? := by rw [hfile]; rfl
    refine ⟨c, ?_, p.unindented c hhead⟩
    simp only [hfile, List.cons_append, List.head?_cons, Option.mem_def]

theorem readLine_report {r : Report} (hr : r.Readable) (names : List (String × String))
    (reading : Reading) :
    readLine names reading r.line =
      .ok { reading with
        diagnostics := reading.diagnostics ++ [r.withMessage names r.first] } := by
  rw [readLine_of_unindented (unindented_line r), ofLine?_line, if_pos hr]

/-- **A report that cannot be read** ends the reading. -/
theorem readLine_unreadable {r : Report} (hr : ¬r.Readable) (names : List (String × String))
    (reading : Reading) : readLine names reading r.line = .error .badValue := by
  rw [readLine_of_unindented (unindented_line r), ofLine?_line, if_neg hr]

/-! ### Other lines -/

theorem readLine_blank {l : List Char} (hl : Blank l) (names : List (String × String))
    (reading : Reading) : readLine names reading l = .ok reading := by
  rw [readLine, trim_eq_nil hl]
  rfl

theorem ofLine?_aside {l : List Char} (hl : Aside l) (names : List (String × String)) :
    ofLine? names l = none := by
  have hhead : head? l = none :=
    Option.not_isSome_iff_eq_none.1 fun h => hl.no_heading (isSome_head?.1 h)
  rw [ofLine?, located?_eq_none_iff.2 hl.no_place]
  simp only [hhead, Option.map_none]

theorem readLine_aside {l : List Char} (hl : Aside l) (names : List (String × String))
    (reading : Reading) :
    readLine names reading l =
      .ok { reading with ignored := reading.ignored ++ [String.ofList l] } := by
  rw [readLine_of_unindented hl.unindented, ofLine?_aside hl]

theorem readLine_further {indent t : List Char} (hindent : Blank indent) (hne : indent ≠ [])
    (ht : t ≠ [] ∧ trim t = t) (names : List (String × String)) {reading : Reading}
    (hreading : reading.diagnostics ≠ []) :
    readLine names reading (indent ++ t) =
      .ok { reading with diagnostics := continueLast t reading.diagnostics } := by
  obtain ⟨c, s, rfl⟩ := List.exists_cons_of_ne_nil hne
  have htrim : trim (c :: (s ++ t)) = t := (trim_append hindent t).trans ht.2
  have hempty : t.isEmpty = false := by simpa using ht.1
  have hc : isBlank c = true := hindent c List.mem_cons_self
  simp only [readLine, htrim, hempty, List.cons_append, List.head?_cons, Option.map_some,
    Option.getD_some, hc, Bool.false_eq_true, if_false, hreading, ne_eq, not_false_eq_true,
    and_self, if_true]

/-! ### The whole of it -/

theorem continueLast_concat (t : List Char) (ds : List Diagnostic) (d : Diagnostic) :
    continueLast t (ds ++ [d]) =
      ds ++ [{ d with message := d.message ++ "\n" ++ String.ofList t }] := by
  induction ds with
  | nil => rfl
  | cons e ds ih =>
    rw [List.cons_append, continueLast, ih]
    · rfl
    · simp

/-- **Further lines** all go to the message of the last report. -/
theorem foldl_continueLast (names : List (String × String)) (r : Report) (ts : List (List Char))
    (message : List Char) (ds : List Diagnostic) :
    ts.foldl (fun ds t => continueLast t ds) (ds ++ [r.withMessage names message]) =
      ds ++ [r.withMessage names (message ++ ts.flatMap ('\n' :: ·))] := by
  induction ts generalizing message with
  | nil => rw [List.foldl_nil, List.flatMap_nil, List.append_nil]
  | cons t ts ih =>
    have hmessage : (r.withMessage names message).message ++ "\n" ++ String.ofList t =
        String.ofList (message ++ '\n' :: t) := by
      rw [← String.toList_inj]
      simp [Report.withMessage]
    have hnext : { r.withMessage names message with
        message := (r.withMessage names message).message ++ "\n" ++ String.ofList t } =
        r.withMessage names (message ++ '\n' :: t) := by
      rw [hmessage]
      rfl
    rw [List.foldl_cons, continueLast_concat, hnext, ih, List.flatMap_cons, List.append_assoc]

theorem continueLast_ne_nil {t : List Char} {ds : List Diagnostic} (h : ds ≠ []) :
    continueLast t ds ≠ [] := by
  match ds, h with
  | [_], _ => simp [continueLast]
  | _ :: _ :: _, _ => simp [continueLast]

/-- **What is read from printed lines**, whatever was read before: the further lines of the last
message go to it, and the reports come after it. -/
theorem readLines_printed {further asides ls : List (List Char)} {reports : List Report}
    (h : Printed further reports asides ls) (names : List (String × String))
    (hreadable : ∀ r ∈ reports, r.Readable)
    (hfurther : ∀ t ∈ further, t ≠ [] ∧ trim t = t) (reading : Reading)
    (hreading : further ≠ [] → reading.diagnostics ≠ []) :
    readLines names reading ls =
      .ok {
        diagnostics := further.foldl (fun ds t => continueLast t ds) reading.diagnostics ++
          reports.map (Report.diagnostic names)
        ignored := reading.ignored ++ asides.map String.ofList } := by
  induction h generalizing reading with
  | done => simp [readLines]
  | blank hblank _ _ ih =>
    rw [readLines, readLine_blank hblank]
    exact ih hreadable hfurther reading hreading
  | @aside _ _ _ _ l haside _ _ ih =>
    rw [readLines, readLine_aside haside]
    simp only
    rw [ih hreadable hfurther ⟨_, reading.ignored ++ [String.ofList l]⟩ hreading, List.map_cons,
      List.append_assoc, List.singleton_append]
  | @further further _ _ _ t indent hne hblank _ _ ih =>
    have hds := hreading (List.cons_ne_nil t further)
    rw [readLines, readLine_further hblank hne (hfurther t List.mem_cons_self) names hds]
    exact ih hreadable (fun u hu => hfurther u (List.mem_cons_of_mem t hu)) _
      fun _ => continueLast_ne_nil hds
  | report r rest ih =>
    rw [readLines, readLine_report (hreadable r List.mem_cons_self)]
    simp only
    rw [ih (fun s hs => hreadable s (List.mem_cons_of_mem r hs)) r.further_trimmed _
      fun _ => by simp]
    simp only [foldl_continueLast, List.foldl_nil, List.map_cons, List.append_assoc,
      List.singleton_append]
    rfl

/-! ### Lines of reports are lines -/

theorem unbroken_append {s t : List Char} (hs : Unbroken s) (ht : Unbroken t) :
    Unbroken (s ++ t) := fun c hc => (List.mem_append.1 hc).elim (hs c) (ht c)

theorem unbroken_decimal (n : Nat) : Unbroken (decimal n) := by
  intro c hc
  have hdigit := toNat_of_isDigit (isDigit_of_mem_decimal hc)
  simp only [isLineBreak, decide_eq_false_iff_not, List.mem_cons, List.not_mem_nil, or_false]
  omega

theorem unbroken_line (r : Report) : Unbroken r.line := by
  have hname : Unbroken r.category.name.toList := by cases r.category <;> decide
  have hopening : Unbroken r.opening :=
    unbroken_append hname (unbroken_append (by decide) (unbroken_append (unbroken_decimal _)
      (unbroken_append (by decide) r.first_unbroken)))
  rw [Report.line]
  cases r.place with
  | none => exact hopening
  | some p =>
    have hcolumn : Unbroken (',' :: (decimal p.column ++ ("): ".toList ++ r.opening))) :=
      unbroken_append (s := [',']) (by decide) (unbroken_append (unbroken_decimal _)
        (unbroken_append (by decide) hopening))
    exact unbroken_append p.unbroken (unbroken_append (s := ['(']) (by decide)
      (unbroken_append (unbroken_decimal _) hcolumn))

theorem Printed.unbroken {further asides ls : List (List Char)} {reports : List Report}
    (h : Printed further reports asides ls) (hfurther : ∀ t ∈ further, Unbroken t) :
    ∀ l ∈ ls, Unbroken l := by
  induction h with
  | done => exact fun l hl => absurd hl List.not_mem_nil
  | blank _ hunbroken _ ih => exact List.forall_mem_cons.2 ⟨hunbroken, ih hfurther⟩
  | aside _ hunbroken _ ih => exact List.forall_mem_cons.2 ⟨hunbroken, ih hfurther⟩
  | further _ _ _ hunbroken _ ih =>
    obtain ⟨ht, hts⟩ := List.forall_mem_cons.1 hfurther
    exact List.forall_mem_cons.2 ⟨unbroken_append hunbroken ht, ih hts⟩
  | report r _ ih => exact List.forall_mem_cons.2 ⟨unbroken_line r, ih r.further_unbroken⟩

/-! ### Reading a printout -/

/-- **Reports that are printed are read back**, in their order and with all lines of their
messages, if their numbers have at most 4300 digits. -/
theorem parse_printed {reports : List Report} {asides ls : List (List Char)} {output : String}
    (names : List (String × String)) (hreadable : ∀ r ∈ reports, r.Readable)
    (hprinted : Printed [] reports asides ls) (hjoined : Joined ls output.toList) :
    parse output names =
      .ok { diagnostics := reports.map (Report.diagnostic names)
            ignored := asides.map String.ofList } := by
  have hunbroken := hprinted.unbroken fun _ ht => absurd ht List.not_mem_nil
  rw [parse, readLines_joined hjoined hunbroken,
    readLines_printed hprinted names hreadable (fun _ ht => absurd ht List.not_mem_nil) _
      fun h => absurd rfl h]
  rfl

/-- A report with two further lines. -/
def mismatch : Report where
  category := .error
  code := 2322
  place := some {
    file := "a.ts".toList
    line := 3
    column := 7
    file_ne_nil := by decide
    unindented := by rintro c ⟨⟩; decide
    unbroken := by decide
    plain := by decide }
  first := "Bad.".toList
  further := ["In (1,2).".toList, "End.".toList]
  first_unbroken := by decide
  further_unbroken := by decide
  further_trimmed := by decide
  plain := nofun

/-- A report without a place. -/
def obsolete : Report where
  category := .warning
  code := 5023
  place := none
  first := "Old.".toList
  further := []
  first_unbroken := by decide
  further_unbroken := by decide
  further_trimmed := by decide
  plain := fun _ => by decide

/-- What is printed for the two, with a line that is no report and blank ones. -/
def printout : List (List Char) :=
  ["Version 5".toList, mismatch.line, "  In (1,2).".toList, [], [' '], "\tEnd.".toList,
    obsolete.line]

/-- Two reports, and blank lines between the lines of a message. -/
theorem parse_printout :
    (∀ r ∈ [mismatch, obsolete], r.Readable) ∧
      Printed [] [mismatch, obsolete] ["Version 5".toList] printout ∧
      Joined printout
        ("Version 5\r\na.ts(3,7): error TS2322: Bad.\n  In (1,2).\n\n \r\n\tEnd.\n" ++
          "warning TS5023: Old.").toList ∧
      parse
        ("Version 5\r\na.ts(3,7): error TS2322: Bad.\n  In (1,2).\n\n \r\n\tEnd.\n" ++
          "warning TS5023: Old.") [("a.ts", "npm/src/a.ts")] =
        .ok {
          diagnostics := [
            { message := "Bad.\nIn (1,2).\nEnd.", code := some 2322, category := "error",
              file := some "npm/src/a.ts", line := some 3, column := some 7 },
            { message := "Old.", code := some 5023, category := "warning", file := none,
              line := none, column := none }]
          ignored := ["Version 5"] } := by
  have hreadable : ∀ r ∈ [mismatch, obsolete], r.Readable := by decide
  have hprinted : Printed [] [mismatch, obsolete] ["Version 5".toList] printout :=
    .aside ⟨⟨'V', rfl, by decide⟩, by decide, by decide⟩ (by decide) <|
      .report mismatch <| .further [' ', ' '] (by decide) (by decide) (by decide) <|
      .blank (by decide) (by decide) <| .blank (by decide) (by decide) <|
      .further ['\t'] (by decide) (by decide) (by decide) <| .report obsolete .done
  have hjoined : Joined printout
      ("Version 5\r\na.ts(3,7): error TS2322: Bad.\n  In (1,2).\n\n \r\n\tEnd.\n" ++
        "warning TS5023: Old.").toList := by
    have hends : Joined printout _ :=
      .cons (.inr rfl) <| .cons (.inl rfl) <| .cons (.inl rfl) <| .cons (.inl rfl) <|
        .cons (.inr rfl) <| .cons (.inl rfl) <| .last _
    exact (congrArg (Joined printout) (by decide)).mp hends
  exact ⟨hreadable, hprinted, hjoined, parse_printed _ hreadable hprinted hjoined⟩

/-- A report with a code of 4301 digits. -/
def vast : Report where
  category := .error
  code := 10 ^ 4300
  place := none
  first := ['x']
  further := []
  first_unbroken := by decide
  further_unbroken := by decide
  further_trimmed := by decide
  plain := fun _ => by decide

/-- **A code that cannot be read**: nothing is made of the whole printout. -/
theorem parse_vast :
    Printed [] [vast] [] [vast.line] ∧ Joined [vast.line] (String.ofList vast.line).toList ∧
      parse (String.ofList vast.line) [] = .error .badValue := by
  have hunreadable : ¬vast.Readable := by
    intro h
    have hlength : (decimal vast.code).length ≤ 4300 := h vast.code List.mem_cons_self
    exact Nat.lt_irrefl _ ((Nat.length_toDigits_le_iff (by decide) (by decide)).1 hlength)
  have hjoined : Joined [vast.line] (String.ofList vast.line).toList := by
    rw [String.toList_ofList]
    exact .last _
  refine ⟨.report vast .done, hjoined, ?_⟩
  rw [parse, readLines_joined hjoined (List.forall_mem_singleton.2 (unbroken_line vast)), readLines,
    readLine_unreadable hunreadable]

end DenoPackager.CompilerOutput
