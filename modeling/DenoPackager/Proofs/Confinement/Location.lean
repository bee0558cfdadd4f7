import DenoPackager.Proofs.Confinement.Undenied
import DenoPackager.Proofs.Confinement.Waypoints

/-!
# Where a path may be written is a matter of location

The text of a path is walked piece by piece, as it is written. An empty piece and a single dot stay
where they are, a double dot steps to the directory above, which for the root is the root itself,
and any other piece goes down. The walk begins at the root if the text begins with a slash, and in
the current directory if not. Where it ends is the location of the path, whether or not anything
stands there.

The check of a write knows nothing but locations. It accepts a path if the location of the path is
that of a write root or lies below it, and no other path.

## Convention

A text with exactly two slashes in front names a root of its own, and no such text is spoken of
here. With one slash in front, or with three and more, there is but one root.

## Main definitions

* `Path.walkText`: walking a text piece by piece.
* `Path.location`: where the walk of a path ends.
* `Policy.rooted`: the policy that some directories may be written below.

## Main results

* `Path.absolute_ofString`: the absolute normal form of a path is its location.
* `Policy.run_checkWrite_located`: what the check accepts, and what follows for directories, for
  other spellings of the roots and for more roots.
-/

namespace DenoPackager

open DenoPackager.Action

namespace Path

variable {cwd s : String}

/-! ### Locations -/

/-- The place one piece of a text further. -/
def stepPiece (here : Place) (piece : List Char) : Place :=
  if piece = [] ∨ piece = ['.'] then here
  else if piece = ['.', '.'] then here.dropLast
  else here ++ [String.ofList piece]

/-- **Walking a text** piece by piece from a place. -/
def walkText (here : Place) (s : String) : Place :=
  (Text.splitOn '/' s.toList).foldl stepPiece here

/-- **The location of a path**, for the text of the current directory. -/
def location (cwd s : String) : Place :=
  walkText (if s.toList.head? = some '/' then [] else walkText [] cwd) s

/-- **Exactly two slashes in front.** -/
def IsDoubled (s : String) : Prop :=
  ∃ rest, s.toList = '/' :: '/' :: rest ∧ rest.head? ≠ some '/'

/-! ### Walking a text and following its components -/

/-- The pieces of a text lead where its components do. -/
theorem foldl_stepPiece (here : Place) (pieces : List (List Char)) :
    pieces.foldl stepPiece here =
      follow here ((pieces.map String.ofList).filter fun c => c ≠ "" ∧ c ≠ ".") := by
  have hword (piece word : List Char) : String.ofList piece = String.ofList word ↔ piece = word :=
    String.ofList_inj
  induction pieces generalizing here with
  | nil => rfl
  | cons piece pieces ih =>
    rw [List.foldl_cons, ih, List.map_cons, List.filter_cons, stepPiece]
    have hempty : String.ofList piece = "" ↔ piece = [] := hword piece []
    have hdot : String.ofList piece = "." ↔ piece = ['.'] := hword piece ['.']
    have hup : String.ofList piece = up ↔ piece = ['.', '.'] := hword piece ['.', '.']
    by_cases hstay : piece = [] ∨ piece = ['.']
    · rw [if_pos hstay, if_neg]
      simpa [hempty, hdot, or_iff_not_imp_left] using hstay
    · have hkept : String.ofList piece ≠ "" ∧ String.ofList piece ≠ "." := by
        simpa [hempty, hdot] using hstay
      rw [if_neg hstay, if_pos (decide_eq_true hkept)]
      exact congrArg (fun place => follow place _) (if_congr hup.symm rfl rfl)

/-- **Walking a text** is following the components that are read from it. -/
theorem walkText_eq (here : Place) (s : String) :
    walkText here s = follow here (ofString s).parts :=
  foldl_stepPiece here _

/-- What is read as two slashes. -/
theorem rootOf_eq_double_iff : rootOf s.toList = .double ↔ IsDoubled s := by
  rw [IsDoubled]
  generalize s.toList = cs
  rcases cs with _ | ⟨a, _ | ⟨b, rest⟩⟩
  · simp [rootOf]
  · by_cases ha : a = '/' <;> simp [rootOf, ha]
  · by_cases ha : a = '/'
    · by_cases hb : b = '/'
      · cases rest with
        | nil => simp [rootOf, ha, hb]
        | cons c rest => by_cases hc : c = '/' <;> simp [rootOf, ha, hb, hc]
      · simp [rootOf, ha, hb]
    · simp [rootOf, ha]

instance (s : String) : Decidable (IsDoubled s) :=
  decidable_of_iff _ rootOf_eq_double_iff

/-- **The absolute normal form of a path is its location**, below the plain root. -/
theorem absolute_ofString (hcwd : cwd.toList.head? = some '/') (hdouble : ¬ IsDoubled cwd)
    (hs : ¬ IsDoubled s) :
    (ofString s).absolute (ofString cwd) = ⟨.single, location cwd s⟩ := by
  have hsingle {t : String} (ht : t.toList.head? = some '/') (hd : ¬ IsDoubled t) :
      rootOf t.toList = .single := by
    cases hroot : rootOf t.toList with
    | none => exact absurd hroot (rootOf_ne_none_iff.2 ht)
    | single => rfl
    | double => exact absurd (rootOf_eq_double_iff.1 hroot) hd
  have hbase : ofString cwd = ⟨.single, components cwd.toList⟩ := by
    rw [ofString, hsingle hcwd hdouble]
  rw [location, walkText_eq]
  by_cases hhead : s.toList.head? = some '/'
  · rw [if_pos hhead, ofString, hsingle hhead hs, ← normalParts_eq_follow]
    rfl
  · have hroot : rootOf s.toList = .none := by
      by_contra hne
      exact hhead (rootOf_ne_none_iff.1 hne)
    rw [if_neg hhead, walkText_eq, ← follow_append, hbase, ofString, hroot,
      ← normalParts_eq_follow]
    rfl

end Path

/-! ### The check -/

namespace Policy

open DenoPackager.Path (location IsDoubled)

variable {w : Workspace} {cwd s : String} {roots : List String}

/-- **The policy that some directories may be written below**, given by their texts. -/
def rooted (roots : List String) (commands : Option (List String)) : Policy :=
  { writeRoots := some (roots.map .ofString), runCommands := commands }

/-- **What may be written** lies at the location of a write root, or below it. -/
theorem allowsWrite_iff_location (hcwd : cwd.toList.head? = some '/') (hdouble : ¬ IsDoubled cwd)
    (hroots : ∀ root ∈ roots, ¬ IsDoubled root) (hs : ¬ IsDoubled s)
    (commands : Option (List String)) :
    (rooted roots commands).allowsWrite (.ofString cwd) (.ofString s) = true ↔
      ∃ root ∈ roots, location cwd root <+: location cwd s := by
  have hwithin : ∀ root ∈ roots, ((Path.ofString s).absolute (.ofString cwd)).isWithin
      ((Path.ofString root).absolute (.ofString cwd)) = true ↔
        location cwd root <+: location cwd s := by
    intro root hroot
    rw [Path.absolute_ofString hcwd hdouble hs,
      Path.absolute_ofString hcwd hdouble (hroots root hroot), Path.isWithin]
    simp
  simp only [allowsWrite, rooted, List.any_map, List.any_eq_true, Function.comp_apply]
  exact exists_congr fun root => and_congr_right (hwithin root)

/-- **The check accepts** what may be written. -/
theorem run_checkWrite_eq_ok_iff {policy : Policy} :
    ((policy.checkWrite s).run w).1 = .ok () ↔ policy.allowsWrite w.cwd (.ofString s) = true := by
  cases h : policy.allowsWrite w.cwd (.ofString s) with
  | true => simp [run_checkWrite_of_allowed h]
  | false => simp [run_checkWrite_of_refused h]

/-- **The check of a write decides by location.** It accepts a path if its location is that of a
write root or lies below it, and denies any other path. So it accepts everything below what it
accepts, roots that are spelt in another way accept the same paths, and more roots do not deny
anything. -/
theorem run_checkWrite_located (hw : w.cwd = .ofString cwd) (hcwd : cwd.toList.head? = some '/')
    (hdouble : ¬ IsDoubled cwd) (hroots : ∀ root ∈ roots, ¬ IsDoubled root) (hs : ¬ IsDoubled s)
    (commands : Option (List String)) :
    (((rooted roots commands).checkWrite s).run w).1 =
        (if ∃ root ∈ roots, location cwd root <+: location cwd s then .ok ()
        else .error (.problem (.writeDenied s))) ∧
      (∀ below, ¬ IsDoubled below → location cwd s <+: location cwd below →
        (((rooted roots commands).checkWrite s).run w).1 = .ok () →
        (((rooted roots commands).checkWrite below).run w).1 = .ok ()) ∧
      (∀ spelt : List String, (∀ root ∈ spelt, ¬ IsDoubled root) →
        (∀ q, q ∈ spelt.map (location cwd) ↔ q ∈ roots.map (location cwd)) →
        ((((rooted spelt commands).checkWrite s).run w).1 = .ok () ↔
          (((rooted roots commands).checkWrite s).run w).1 = .ok ())) ∧
      ∀ more : List String, roots ⊆ more →
        (((rooted roots commands).checkWrite s).run w).1 = .ok () →
        (((rooted more commands).checkWrite s).run w).1 = .ok () := by
  have haccepts {rs : List String} (hrs : ∀ root ∈ rs, ¬ IsDoubled root) {t : String}
      (ht : ¬ IsDoubled t) : (((rooted rs commands).checkWrite t).run w).1 = .ok () ↔
        ∃ root ∈ rs, location cwd root <+: location cwd t := by
    rw [run_checkWrite_eq_ok_iff, hw, allowsWrite_iff_location hcwd hdouble hrs ht]
  refine ⟨?_, ?_, ?_, ?_⟩
  · split
    · rename_i h
      exact (haccepts hroots hs).2 h
    · rename_i h
      rw [← haccepts hroots hs, run_checkWrite_eq_ok_iff, Bool.not_eq_true] at h
      rw [run_checkWrite_of_refused h]
  · intro below hbelow hpre h
    obtain ⟨root, hroot, hle⟩ := (haccepts hroots hs).1 h
    exact (haccepts hroots hbelow).2 ⟨root, hroot, hle.trans hpre⟩
  · intro spelt hspelt hsame
    have hplaces (rs : List String) : (∃ root ∈ rs, location cwd root <+: location cwd s) ↔
        ∃ q ∈ rs.map (location cwd), q <+: location cwd s := by simp
    rw [haccepts hspelt hs, haccepts hroots hs, hplaces, hplaces]
    exact exists_congr fun q => and_congr_left fun _ => hsame q
  · intro more hmore h
    rw [run_checkWrite_eq_ok_iff] at h ⊢
    simp only [allowsWrite, rooted, List.any_map, List.any_eq_true] at h ⊢
    obtain ⟨root, hroot, hle⟩ := h
    exact ⟨root, hmore hroot, hle⟩

/-- A root in another spelling: a path below it, and one that only begins with the same text. -/
theorem run_checkWrite_located_spelt :
    let w : Workspace := .fresh (.ofString "/w/p/") .empty
    w.cwd = .ofString "/w/p/" ∧ ("/w/p/" : String).toList.head? = some '/' ∧
      ¬ IsDoubled "/w/p/" ∧ (∀ root ∈ ["../p/./npm//"], ¬ IsDoubled root) ∧
      ¬ IsDoubled "/../w/x/../p/npm/mod.js" ∧
      (((rooted ["../p/./npm//"] none).checkWrite "/../w/x/../p/npm/mod.js").run w).1 = .ok () ∧
      (((rooted ["../p/./npm//"] none).checkWrite "npm/../npm-other").run w).1 =
        .error (.problem (.writeDenied "npm/../npm-other")) := by
  have hcwd : ¬ IsDoubled "/w/p/" := by decide
  have hroots : ∀ root ∈ ["../p/./npm//"], ¬ IsDoubled root := by decide
  have hpath : ¬ IsDoubled "/../w/x/../p/npm/mod.js" := by decide
  have hother : ¬ IsDoubled "npm/../npm-other" := by decide
  refine ⟨rfl, rfl, hcwd, hroots, hpath, ?_, ?_⟩
  · exact (run_checkWrite_located rfl rfl hcwd hroots hpath none).1.trans (if_pos (by decide))
  · exact (run_checkWrite_located rfl rfl hcwd hroots hother none).1.trans (if_neg (by decide))

end Policy

end DenoPackager
