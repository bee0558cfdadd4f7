import DenoPackager.Proofs.Links.Way
import DenoPackager.Source.Namespace
import Mathlib.Data.List.Basic

/-!
# What routing does to a part of a script

Routing the references to the namespace puts the name of an import in front of every reference
that the code of a script makes, and changes nothing else. So a part of a script is kept exactly
if no reference begins in it. A way between files is such a part: where a reference begins in it,
one of the names on the way becomes longer, and the way leads somewhere else.

Whether a part is code depends on everything in front of it.

## Main definitions

* `marked`: a script with a mark on every character that a reference begins with.
* `routed`: what marked characters become.
* `part`: the marked characters of a part of a script.

## Main results

* `routeReferences_eq`, `routeReferences_append`: routing by marks, and part by part.
* `routed_eq_iff`: what is kept.
* `target_routed_iff`: when a way still leads to where it led.
-/

namespace DenoPackager

namespace Source

open Text (Piece pieces)

/-- The characters of a piece, with a mark on the one that a reference begins with. -/
def markedPiece : Piece Unit → List (Char × Bool)
  | .plain c => [(c, false)]
  | .found _ => [('D', true), ('e', false), ('n', false), ('o', false), ('.', false)]

/-- The characters of a segment. No reference begins in inert text. -/
def markedSegment (g : Segment) : List (Char × Bool) :=
  if g.isCode then (pieces namespaceReference none g.text).flatMap markedPiece
  else g.text.map fun c => (c, false)

/-- **A script with marks** on the characters that the references in its code begin with. -/
def marked (s : List Char) : List (Char × Bool) :=
  (segments s).flatMap markedSegment

/-- A marked character gets the name of the import in front of it. -/
def routedChar (x : Char × Bool) : List Char :=
  if x.2 then shimName ++ ['.', x.1] else [x.1]

/-- **What marked characters become.** -/
def routed (xs : List (Char × Bool)) : List Char :=
  xs.flatMap routedChar

/-- Whether no reference begins with one of the characters. -/
def Unmarked (xs : List (Char × Bool)) : Prop :=
  ∀ x ∈ xs, x.2 = false

/-- **The marked characters of a part** of the script `before ++ (text ++ after)`. -/
def part (before text after : List Char) : List (Char × Bool) :=
  ((marked (before ++ (text ++ after))).drop before.length).take text.length

/-! ### Routing by marks -/

/-- A reference stands for the name and the dot it was found in. -/
theorem namespaceReference_takes : namespaceReference.Takes fun _ => "Deno.".toList := by
  intro prev c cs a extra h
  rw [namespaceReference] at h
  split at h
  · rename_i hstart
    rw [Option.some.injEq, Prod.mk.injEq] at h
    obtain ⟨rest, hrest⟩ := Option.isSome_iff_exists.1 (Bool.and_eq_true_iff.1 hstart).2
    have htext := Text.afterStart?_eq_some_iff.1 hrest
    rw [← h.2]
    have htake := congrArg (List.take 5) htext
    rw [List.take_succ_cons] at htake
    exact htake.symm
  · simp at h

/-- The marked characters of a segment are its characters. -/
theorem map_markedSegment (g : Segment) : (markedSegment g).map Prod.fst = g.text := by
  rw [markedSegment]
  split
  · have hpiece : ∀ p : Piece Unit,
        (markedPiece p).map Prod.fst = p.render fun _ => "Deno.".toList := by
      intro p
      cases p with
      | plain c => rfl
      | found u => rfl
    rw [List.map_flatMap]
    simp only [hpiece]
    exact Text.flatMap_pieces namespaceReference_takes none g.text
  · rw [List.map_map]
    exact List.map_id g.text

/-- **The marked characters of a script are its characters.** -/
theorem map_marked (s : List Char) : (marked s).map Prod.fst = s := by
  rw [marked, List.map_flatMap]
  simp only [map_markedSegment]
  exact flatten_segments s

/-- Only one letter is ever marked. -/
theorem eq_of_mem_marked {s : List Char} {x : Char × Bool} (h : x ∈ marked s)
    (hx : x.2 = true) : x.1 = 'D' := by
  obtain ⟨g, -, hg⟩ := List.mem_flatMap.1 h
  rw [markedSegment] at hg
  split at hg
  · obtain ⟨p, -, hp⟩ := List.mem_flatMap.1 hg
    cases p with
    | plain c =>
      rw [List.mem_singleton.1 hp] at hx
      exact absurd hx (by simp)
    | found u =>
      have hall : ∀ y ∈ markedPiece (.found ()), y.2 = true → y.1 = 'D' := by decide
      exact hall x hp hx
  · obtain ⟨c, -, rfl⟩ := List.mem_map.1 hg
    exact absurd hx (by simp)

/-- **Routing is done by the marks.** -/
theorem routeReferences_eq (s : List Char) : routeReferences s = routed (marked s) := by
  rw [routeReferences, mapCode, routed, marked, List.flatMap_assoc]
  refine List.flatMap_congr fun g _ => ?_
  rw [markedSegment]
  split
  · rw [Text.replaceAll, List.flatMap_assoc]
    refine List.flatMap_congr fun p _ => ?_
    cases p with
    | plain c => rfl
    | found u => rfl
  · rw [List.flatMap_map]
    exact (List.flatMap_singleton' g.text).symm

/-- A script refers to the namespace exactly if a character of it is marked. -/
theorem unmarked_of_not_usesNamespace {s : List Char} (h : usesNamespace s = false) :
    Unmarked (marked s) := by
  intro x hx
  obtain ⟨g, hg, hxg⟩ := List.mem_flatMap.1 hx
  rw [usesNamespace, List.any_eq_false] at h
  have hnone := h g hg
  rw [markedSegment] at hxg
  split at hxg
  · rename_i hcode
    rw [hcode, Bool.true_and, Bool.not_eq_true, Bool.not_eq_false', List.isEmpty_iff,
      Text.findAll, List.filterMap_eq_nil_iff] at hnone
    obtain ⟨p, hp, hxp⟩ := List.mem_flatMap.1 hxg
    cases p with
    | plain c => rw [List.mem_singleton.1 hxp]
    | found u => exact absurd (hnone _ hp) (by simp [Text.Piece.found?])
  · obtain ⟨c, -, rfl⟩ := List.mem_map.1 hxg
    rfl

/-! ### What is kept -/

@[simp] theorem routed_append (xs ys : List (Char × Bool)) :
    routed (xs ++ ys) = routed xs ++ routed ys :=
  List.flatMap_append

@[simp] theorem routed_cons (x : Char × Bool) (xs : List (Char × Bool)) :
    routed (x :: xs) = routedChar x ++ routed xs :=
  List.flatMap_cons

/-- Characters without marks are kept. -/
theorem routed_of_unmarked {xs : List (Char × Bool)} (h : Unmarked xs) :
    routed xs = xs.map Prod.fst := by
  induction xs with
  | nil => rfl
  | cons x xs ih =>
    obtain ⟨hx, hxs⟩ := List.forall_mem_cons.1 h
    rw [routed_cons, ih hxs, routedChar, hx]
    rfl

/-- Routing makes nothing shorter. -/
theorem length_le_routed (xs : List (Char × Bool)) : xs.length ≤ (routed xs).length := by
  induction xs with
  | nil => exact Nat.le_refl 0
  | cons x xs ih =>
    have hx : 1 ≤ (routedChar x).length := by
      rw [routedChar]
      split
      · exact Nat.le_add_left 1 _
      · exact Nat.le_refl 1
    rw [routed_cons, List.length_append, List.length_cons]
    omega

/-- Every mark makes the text longer. -/
theorem length_lt_routed {xs : List (Char × Bool)} {x : Char × Bool} (hx : x ∈ xs)
    (hmark : x.2 = true) : xs.length + shimName.length < (routed xs).length := by
  obtain ⟨ys, zs, rfl⟩ := List.append_of_mem hx
  have hchar : (routedChar x).length = shimName.length + 2 := by
    rw [routedChar, hmark]
    simp
  have hys := length_le_routed ys
  have hzs := length_le_routed zs
  rw [routed_append, routed_cons, List.length_append, List.length_append, List.length_append,
    List.length_cons]
  omega

/-- **What is kept**: exactly what has no mark. -/
theorem routed_eq_iff {xs : List (Char × Bool)} :
    routed xs = xs.map Prod.fst ↔ Unmarked xs := by
  constructor
  · intro h x hx
    by_cases hmark : x.2 = true
    · have hlen := length_lt_routed hx hmark
      rw [h, List.length_map] at hlen
      omega
    · exact eq_false_of_ne_true hmark
  · exact routed_of_unmarked

/-- A script that does not refer to the namespace is kept by routing, too. -/
theorem routeNamespace_eq (package : String) (s : List Char) :
    (routeNamespace package s).1 =
      (if usesNamespace s then shimImport package else []) ++ routeReferences s := by
  rw [routeNamespace]
  split
  · rfl
  · rename_i hnone
    have hkept := routed_of_unmarked
      (unmarked_of_not_usesNamespace (eq_false_of_ne_true hnone))
    rw [routeReferences_eq, hkept, map_marked, List.nil_append]

/-! ### Parts -/

/-- The marked characters of a part are its characters. -/
theorem map_part (before text after : List Char) :
    (part before text after).map Prod.fst = text := by
  rw [part, List.map_take, List.map_drop, map_marked, List.drop_left, List.take_left]

/-- **Routing goes part by part.** -/
theorem routeReferences_append (before text after : List Char) :
    routeReferences (before ++ (text ++ after)) =
      routed (part [] before (text ++ after)) ++
        (routed (part before text after) ++ routed (part (before ++ text) after [])) := by
  have hlen : (marked (before ++ (text ++ after))).length =
      before.length + (text.length + after.length) := by
    rw [← List.length_map (f := Prod.fst), map_marked, List.length_append, List.length_append]
  have hrest : (((marked (before ++ (text ++ after))).drop before.length).drop
      text.length).take after.length =
        ((marked (before ++ (text ++ after))).drop before.length).drop text.length := by
    refine List.take_of_length_le ?_
    rw [List.length_drop, List.length_drop, hlen]
    omega
  rw [routeReferences_eq, ← routed_append, ← routed_append]
  refine congrArg _ ?_
  rw [part, part, part, List.length_nil, List.drop_zero, List.nil_append, List.append_nil,
    List.append_assoc before, List.length_append, ← List.drop_drop, hrest,
    List.take_append_drop, List.take_append_drop]

/-! ### Ways with marks -/

open DenoPackager.Path (ProperPart)

/-- Whether only the letter that a reference begins with is marked. -/
def SoundMarks (xs : List (Char × Bool)) : Prop :=
  ∀ x ∈ xs, x.2 = true → x.1 = 'D'

variable {xs : List (Char × Bool)} {names down : List String} {name : String}

/-- The marks of a part are sound. -/
theorem soundMarks_part (before text after : List Char) : SoundMarks (part before text after) :=
  fun _ hx => eq_of_mem_marked (List.mem_of_mem_drop (List.mem_of_mem_take hx))

/-- Where the letter does not occur, nothing is marked. -/
theorem SoundMarks.unmarked (hs : SoundMarks xs) (h : 'D' ∉ xs.map Prod.fst) : Unmarked xs := by
  intro x hx
  refine eq_false_of_ne_true fun hmark => h ?_
  rw [← hs x hx hmark]
  exact List.mem_map_of_mem hx

/-- What routing puts out was there, or is the name of the import. -/
theorem mem_routed {c : Char} (h : c ∈ routed xs) :
    c ∈ shimName ++ ['.'] ∨ c ∈ xs.map Prod.fst := by
  obtain ⟨x, hx, hc⟩ := List.mem_flatMap.1 h
  have hmem : x.1 ∈ xs.map Prod.fst := List.mem_map_of_mem hx
  rw [routedChar] at hc
  split at hc
  · rw [List.append_cons, List.mem_append, List.mem_singleton] at hc
    rcases hc with hc | hc
    · exact .inl hc
    · exact .inr (hc ▸ hmem)
  · rw [List.mem_singleton] at hc
    exact .inr (hc ▸ hmem)

/-- **A name stays a name**, however its characters are marked. -/
theorem properPart_routed (h : ProperPart name) (hup : name ≠ Path.up)
    (hxs : xs.map Prod.fst = name.toList) :
    ProperPart (String.ofList (routed xs)) ∧ String.ofList (routed xs) ≠ Path.up := by
  by_cases hmarks : Unmarked xs
  · rw [routed_of_unmarked hmarks, hxs, String.ofList_toList]
    exact ⟨h, hup⟩
  · obtain ⟨x, hx⟩ := not_forall.1 hmarks
    obtain ⟨hmem, hmark⟩ := Classical.not_imp.1 hx
    have hlong := length_lt_routed hmem (eq_true_of_ne_false hmark)
    have hne : ∀ s : String, s.toList.length ≤ shimName.length →
        String.ofList (routed xs) ≠ s := by
      intro s hs heq
      rw [← heq, String.toList_ofList] at hs
      omega
    refine ⟨⟨hne _ (by decide), hne _ (by decide), ?_⟩, hne _ (by decide)⟩
    rw [String.toList_ofList]
    intro hslash
    rcases mem_routed hslash with hnew | hold
    · exact absurd hnew (by decide)
    · exact h.2.2 (hxs ▸ hold)

/-- **Names stay names** between their slashes. -/
theorem exists_routed_intercalate (h : ∀ c ∈ names, ProperPart c) (hup : Path.up ∉ names)
    (hs : SoundMarks xs) (hxs : xs.map Prod.fst = (String.intercalate "/" names).toList) :
    ∃ names', names'.length = names.length ∧ (∀ c ∈ names', ProperPart c) ∧
      Path.up ∉ names' ∧ routed xs = (String.intercalate "/" names').toList := by
  induction names generalizing xs with
  | nil =>
    rw [String.intercalate_nil] at hxs
    have hnil : xs = [] := List.map_eq_nil_iff.1 hxs
    refine ⟨[], rfl, by simp, by simp, ?_⟩
    rw [hnil, String.intercalate_nil]
    rfl
  | cons name names ih =>
    rw [List.mem_cons, not_or] at hup
    have hname : ∀ {ys : List (Char × Bool)}, ys.map Prod.fst = name.toList →
        ProperPart (String.ofList (routed ys)) ∧ String.ofList (routed ys) ≠ Path.up :=
      properPart_routed (h name List.mem_cons_self) (Ne.symm hup.1)
    cases names with
    | nil =>
      rw [String.intercalate_singleton] at hxs
      refine ⟨[String.ofList (routed xs)], rfl, ?_, ?_, ?_⟩
      · simpa using (hname hxs).1
      · simpa using Ne.symm (hname hxs).2
      · rw [String.intercalate_singleton, String.toList_ofList]
    | cons next rest =>
      rw [String.intercalate_cons_cons, String.toList_append, String.toList_append,
        List.append_assoc] at hxs
      obtain ⟨ys, zs, rfl, hys, hzs⟩ := List.map_eq_append_iff.1 hxs
      obtain ⟨slash, zs, rfl, hslash, hzs⟩ := List.map_eq_cons_iff.1 hzs
      have hkeep : routedChar slash = ['/'] := by
        have hmark : slash.2 = false := by
          refine eq_false_of_ne_true fun hmark => ?_
          have hD := hs slash (by simp) hmark
          rw [hslash] at hD
          exact absurd hD (by decide)
        rw [routedChar, hmark, hslash]
        rfl
      obtain ⟨names', hlen, hproper, hnup, hrouted⟩ :=
        ih (fun c hc => h c (List.mem_cons_of_mem name hc)) hup.2
          (fun x hx => hs x (by simp [hx])) hzs
      have hne : names' ≠ [] := List.ne_nil_of_length_eq_add_one hlen
      refine ⟨String.ofList (routed ys) :: names', by rw [List.length_cons, hlen]; rfl, ?_, ?_, ?_⟩
      · exact List.forall_mem_cons.2 ⟨(hname hys).1, hproper⟩
      · rw [List.mem_cons, not_or]
        exact ⟨Ne.symm (hname hys).2, hnup⟩
      · rw [routed_append, routed_cons, hkeep, hrouted, String.intercalate_cons_of_ne_nil hne,
          String.toList_append, String.toList_append, String.toList_ofList, List.append_assoc]
        rfl

/-- What a way starts with before it goes down. -/
def wayLead (climbs : Nat) : String :=
  if climbs = 0 then "./" else String.intercalate "/" (List.replicate climbs Path.up) ++ "/"

theorem wayTo_eq (climbs : Nat) (hne : down ≠ []) :
    wayTo climbs down = wayLead climbs ++ String.intercalate "/" down := by
  rw [wayTo, wayLead]
  split
  · rfl
  · rename_i hclimbs
    exact String.intercalate_append_of_ne_nil (by simpa using hclimbs) hne

/-- No reference begins where a way climbs. -/
theorem not_mem_wayLead (climbs : Nat) : 'D' ∉ (wayLead climbs).toList := by
  have hups : ∀ n, 'D' ∉ (String.intercalate "/" (List.replicate n Path.up)).toList := by
    intro n
    induction n with
    | zero => decide
    | succ n ih =>
      cases n with
      | zero => decide
      | succ n =>
        rw [List.replicate_succ, String.intercalate_cons_of_ne_nil (by simp),
          String.toList_append, List.mem_append, not_or]
        exact ⟨by decide, ih⟩
  rw [wayLead]
  split
  · decide
  · rw [String.toList_append, List.mem_append, not_or]
    exact ⟨hups climbs, by decide⟩

/-- **A way stays a way** that climbs as far, however its characters are marked. -/
theorem exists_routed_wayTo (climbs : Nat) (hne : down ≠ []) (h : ∀ c ∈ down, ProperPart c)
    (hup : Path.up ∉ down) (hs : SoundMarks xs)
    (hxs : xs.map Prod.fst = (wayTo climbs down).toList) :
    ∃ down', (∀ c ∈ down', ProperPart c) ∧ Path.up ∉ down' ∧
      routed xs = (wayTo climbs down').toList := by
  rw [wayTo_eq climbs hne, String.toList_append] at hxs
  obtain ⟨ys, zs, rfl, hys, hzs⟩ := List.map_eq_append_iff.1 hxs
  have hsy : SoundMarks ys := fun x hx => hs x (List.mem_append_left zs hx)
  have hsz : SoundMarks zs := fun x hx => hs x (List.mem_append_right ys hx)
  obtain ⟨down', hlen, hproper, hnup, hrouted⟩ := exists_routed_intercalate h hup hsz hzs
  have hne' : down' ≠ [] := by
    rintro rfl
    exact hne (List.length_eq_zero_iff.1 hlen.symm)
  have hlead : Unmarked ys := hsy.unmarked (hys ▸ not_mem_wayLead climbs)
  refine ⟨down', hproper, hnup, ?_⟩
  rw [wayTo_eq climbs hne', String.toList_append, routed_append, routed_of_unmarked hlead, hys,
    hrouted]

end Source

namespace Transform

open Source

/-- **When a way still leads** to where it led: exactly if no reference begins in it. -/
theorem target_routed_iff {common climb down : List String} {name : String}
    {xs : List (Char × Bool)} (hne : down ≠ []) (hcommon : ∀ c ∈ common, Path.ProperPart c)
    (hdown : ∀ c ∈ down, Path.ProperPart c) (hclimbUp : Path.up ∉ common ++ climb)
    (hdownUp : Path.up ∉ down) (hs : SoundMarks xs)
    (hxs : xs.map Prod.fst = (wayTo climb.length down).toList) :
    (Module.target ⟨.none, common ++ climb ++ [name]⟩ (String.ofList (routed xs))).text =
      Path.text ⟨.none, common ++ down⟩ ↔ Unmarked xs := by
  have hproper : ∀ {ds : List String}, (∀ c ∈ ds, Path.ProperPart c) →
      Path.Proper ⟨.none, common ++ ds⟩ := by
    intro ds hds c hc
    rcases List.mem_append.1 hc with hc | hc
    · exact hcommon c hc
    · exact hds c hc
  constructor
  · intro htext
    obtain ⟨down', hproper', hnup, hrouted⟩ :=
      exists_routed_wayTo climb.length hne hdown hdownUp hs hxs
    rw [hrouted, String.ofList_toList, target_wayTo hproper' hclimbUp hnup] at htext
    have hpath := Path.text_injective (hproper hproper') (hproper hdown) htext
    rw [Path.mk.injEq] at hpath
    have hsame : down' = down := List.append_cancel_left hpath.2
    rw [← routed_eq_iff, hrouted, hsame, hxs]
  · intro hmarks
    rw [routed_of_unmarked hmarks, hxs, String.ofList_toList,
      target_wayTo hdown hclimbUp hdownUp]

end Transform

end DenoPackager
