import DenoPackager.Emission
import DenoPackager.Manifest
import DenoPackager.Proofs.Modules.Collect

/-!
# What the manifest names

Each entry point has an export of its own, with one condition for each pass of the build, and the
export of the package itself is named by members of the manifest as well. Both stand in the manifest
that is written, if the user gives no members of these names.

## Main definitions

* `Pass.exportPath`: the path that the manifest names for a module and a pass.

## Main results

* `Table.get?_overlay_of_mem`: look-up in a table that pairs were put into.
* `EntryPoint.pairwise_of_register`: no two names of entry points are one key.
* `Manifest.exports_of_build`: the exports of a manifest, and the members that name the package's own.
-/

namespace DenoPackager

/-! ### Tables -/

namespace Table

variable {κ : Type} [BEq κ] {base top t : Table κ} {key other : κ} {v : Json}

theorem get?_append : (t ++ top).get? key = (t.get? key).or (top.get? key) := by
  induction t with
  | nil => rfl
  | cons m t ih =>
    obtain ⟨k, w⟩ := m
    rw [List.cons_append, get?_cons, get?_cons, ih]
    split <;> rfl

variable [EquivBEq κ]

/-- Equal keys have the same value. -/
theorem get?_congr (h : (key == other) = true) : t.get? key = t.get? other := by
  induction t with
  | nil => rfl
  | cons m t ih =>
    obtain ⟨k, w⟩ := m
    rw [get?_cons, get?_cons, BEq.congr_left h, ih]

/-- What is laid over a table under other keys makes no difference. -/
theorem get?_overlay_of_not_mem (h : ∀ m ∈ top, (key == m.1) = false) :
    (overlay base top).get? key = base.get? key := by
  induction top generalizing base with
  | nil => rfl
  | cons m top ih =>
    rw [List.forall_mem_cons] at h
    exact (ih h.2).trans (get?_put_other base m.2 h.1)

/-- **What is laid over a table** under different keys is found there. -/
theorem get?_overlay_of_mem (hkeys : top.Pairwise fun a b => (a.1 == b.1) = false)
    (h : (key, v) ∈ top) : (overlay base top).get? key = some v := by
  induction top generalizing base with
  | nil => exact absurd h List.not_mem_nil
  | cons m top ih =>
    rw [List.pairwise_cons] at hkeys
    rcases List.mem_cons.1 h with rfl | h
    · exact (get?_overlay_of_not_mem hkeys.1).trans (get?_put_self base key v)
    · exact ih hkeys.2 h

/-- Look-up of another key after one was taken out. -/
theorem get?_without (h : (other == key) = false) : (t.without key).get? other = t.get? other := by
  induction t with
  | nil => rfl
  | cons m t ih =>
    obtain ⟨k, w⟩ := m
    rw [without, List.filter_cons]
    split
    · rw [get?_cons, get?_cons, ← ih]
      rfl
    · rename_i hk
      have hne : (other == k) = false := by
        rw [Bool.eq_false_iff]
        intro hok
        rw [BEq.trans hok (by simpa using hk)] at h
        exact absurd h (by decide)
      rw [get?_cons, hne, if_neg (by decide), ← ih]
      rfl

/-- **Look-up after a default was given.** -/
theorem get?_putDefault : (t.putDefault key v).get? other =
    if other == key then (t.get? other).or (some v) else t.get? other := by
  rw [putDefault, has]
  cases hkey : t.get? key with
  | some w =>
    rw [Option.isSome_some, if_pos rfl]
    split
    · rename_i hother
      rw [get?_congr hother, hkey, Option.some_or]
    · rfl
  | none =>
    rw [Option.isSome_none, if_neg (by decide), get?_append, get?_cons, get?_nil]
    split
    · rfl
    · rw [Option.or_none]

end Table

/-- Computations that all have values give the list of these values. -/
theorem Except.mapM_eq_map {ε α β : Type} {f : α → Except ε β} {g : α → β} {as : List α}
    (h : ∀ a ∈ as, f a = .ok (g a)) : as.mapM f = .ok (as.map g) :=
  Except.mapM_eq_ok_iff.2 (List.forall₂_map_right_iff.2 (List.forall₂_same.2 h))

/-! ### Names of entry points -/

namespace EntryPoint

/-- The key that an entry point is exported under, if its name is one. -/
def key (entry : EntryPoint) : Key :=
  (Key.ofJson? entry.name).getD .null

/-- **Names that are put into a table** are keys, different from each other and from those that
were there. -/
theorem pairwise_of_register {entries : List EntryPoint} {seen all : Table Key}
    (h : register seen entries = .ok all) :
    (∀ e ∈ entries, e.name.key = .ok e.key ∧ seen.get? e.key = none) ∧
      entries.Pairwise fun a b => (a.key == b.key) = false := by
  induction entries generalizing seen with
  | nil => simp
  | cons e es ih =>
    rw [register] at h
    split at h
    · exact absurd h (by simp)
    · rename_i key hkey
      split at h
      · exact absurd h (by simp)
      · rename_i hnew
        obtain ⟨hkeys, hdifferent⟩ := ih h
        have hown : key = e.key := by
          rw [Json.key] at hkey
          rw [EntryPoint.key]
          split at hkey
          · rename_i k hk
            rw [hk, Option.getD_some, Except.ok.inj hkey]
          · exact absurd hkey (by simp)
        subst hown
        simp only [Table.get?_append, Option.or_eq_none_iff] at hkeys
        refine ⟨List.forall_mem_cons.2 ⟨⟨hkey, hnew⟩, fun k hk => ⟨(hkeys k hk).1, (hkeys k hk).2.1⟩⟩,
          List.pairwise_cons.2 ⟨fun k hk => ?_, hdifferent⟩⟩
        have hother := (hkeys k hk).2.2
        rw [Table.get?_cons] at hother
        rw [Bool.eq_false_iff]
        intro heq
        rw [if_pos (BEq.symm heq)] at hother
        exact absurd hother (by simp)

end EntryPoint

/-! ### Passes in the manifest -/

namespace Pass

/-- The condition of an export that names what the pass emits. -/
def condition : Pass → String
  | .declarations => "types"
  | .esm => "import"
  | .umd => "require"

/-- The member of the manifest that names what the pass emits for the package itself. -/
def member : Pass → String
  | .declarations => "types"
  | .esm => "module"
  | .umd => "main"

/-- **The name that the manifest has** for what a module is compiled to, below the directory of the
pass. -/
def exportName (pass : Pass) (outPath : String) : String :=
  match pass with
  | .declarations => Manifest.stem (EntryPoint.scriptPath outPath) ++ ".d.ts"
  | _ => EntryPoint.scriptPath outPath

/-- **The path that the manifest names** for a module and a pass. -/
def exportPath (pass : Pass) (outPath : String) : String :=
  "./" ++ pass.directory ++ "/" ++ pass.exportName outPath

end Pass

namespace Manifest

variable {package manifest derived exports : Table Key} {name condition : String} {key : Key}

/-- **The conditions of an export** are the passes of the build. -/
theorem get?_conditions (declaration : Bool) (outPath : String) (pass : Pass) :
    (conditions declaration outPath).get? pass.condition =
      if pass ∈ Pass.all declaration then some (.str (pass.exportPath outPath)) else none := by
  cases declaration <;> cases pass <;>
    simp [conditions, Pass.condition, Pass.all, Table.get?_cons, Pass.exportPath, Pass.exportName,
      Pass.directory, String.append_assoc]

/-- **The exports** of entry points that can be told apart are a table of their conditions. -/
theorem exports_eq {declaration : Bool} {entries : List EntryPoint} {outPaths : List String}
    {seen : Table Key} (hregister : EntryPoint.register [] entries = .ok seen) :
    Manifest.exports declaration entries outPaths = .ok (Table.ofPairs
      ((entries.zip outPaths).map fun m => (m.1.key, .obj (conditions declaration m.2)))) := by
  have hkey : ∀ m ∈ entries.zip outPaths, m.1.name.key = .ok m.1.key := fun m hm =>
    ((EntryPoint.pairwise_of_register hregister).1 _ (List.of_mem_zip hm).1).1
  rw [Manifest.exports, Except.mapM_eq_map
    (g := fun m => (m.1.key, .obj (conditions declaration m.2)))]
  · rfl
  · rintro ⟨e, path⟩ hm
    simp only [hkey _ hm]
    rfl

/-- Each export is found under the name of its entry point. -/
theorem get?_exports {declaration : Bool} {entries : List EntryPoint} {outPaths : List String}
    {seen : Table Key} (hregister : EntryPoint.register [] entries = .ok seen)
    (hlength : outPaths.length = entries.length)
    (h : Manifest.exports declaration entries outPaths = .ok exports) {entry : EntryPoint}
    {outPath : String} (hmem : (entry, outPath) ∈ entries.zip outPaths) :
    ∃ key, entry.name.key = .ok key ∧
      exports.get? key = some (.obj (conditions declaration outPath)) := by
  obtain ⟨hkeys, hdifferent⟩ := EntryPoint.pairwise_of_register hregister
  rw [exports_eq hregister] at h
  obtain rfl := Except.ok.inj h
  refine ⟨entry.key, (hkeys _ (List.of_mem_zip hmem).1).1,
    Table.get?_overlay_of_mem ?_ (List.mem_map_of_mem hmem)⟩
  rw [List.pairwise_map]
  rw [← List.map_fst_zip (Nat.le_of_eq hlength.symm), List.pairwise_map] at hdifferent
  exact hdifferent

/-! ### Merging -/

/-- A member is found in the manifest as before if another one is merged. -/
theorem get?_merge_other (h : (key == .text name) = false) :
    (merge package manifest name derived).get? key = manifest.get? key := by
  have hoverlaid (top : Members) :
      (if (Table.overlay derived (Table.ofMembers top)).isEmpty then manifest.without (.text name)
        else manifest.put (.text name)
          (.obj (Table.overlay derived (Table.ofMembers top)).toMembers)).get? key =
        manifest.get? key := by
    split
    · exact Table.get?_without h
    · exact Table.get?_put_other manifest _ h
  rw [merge]
  split
  · exact hoverlaid []
  · exact hoverlaid []
  · exact hoverlaid _
  · rfl

/-- Derived members that the user gives nothing for are in the manifest, unless there are none. -/
theorem get?_merge_self (hnone : package.get? (.text name) = none) (hne : derived ≠ []) :
    (merge package manifest name derived).get? (.text name) = some (.obj derived.toMembers) := by
  have hsome : derived.isEmpty = false := List.isEmpty_eq_false_iff.2 hne
  simp only [merge, hnone]
  rw [show Table.overlay derived (Table.ofMembers []) = derived from rfl, hsome, if_neg (by decide)]
  exact Table.get?_put_self manifest _ _

/-- **A member that may be taken from the package's own export.** -/
theorem get?_withRoot : (withRoot exports name condition manifest).get? key =
    if key == .text name then (manifest.get? key).or (rootCondition? exports condition)
    else manifest.get? key := by
  rw [withRoot]
  split
  · rename_i v hv
    rw [Table.get?_putDefault, hv]
  · rename_i hv
    rw [hv, Option.or_none, ite_self]

/-- The members that name the package's own export are taken from it, if the user gives none. -/
theorem get?_withRoots_member
    (hnone : ∀ pass : Pass, package.get? (.text pass.member) = none) (pass : Pass) :
    (withRoots exports package).get? (.text pass.member) =
      rootCondition? exports pass.condition := by
  have htypes := hnone .declarations
  have hmodule := hnone .esm
  have hmain := hnone .umd
  cases pass <;>
    simp_all [withRoots, get?_withRoot, Pass.member, Pass.condition, Key.beq_iff, Key.identity]

/-- There is an export, if there is an entry point. -/
theorem exports_ne_nil {declaration : Bool} {entries : List EntryPoint} {outPaths : List String}
    {seen : Table Key} (hregister : EntryPoint.register [] entries = .ok seen)
    (hlength : outPaths.length = entries.length) (hentries : entries ≠ [])
    (h : Manifest.exports declaration entries outPaths = .ok exports) : exports ≠ [] := by
  obtain ⟨entry, entries, rfl⟩ := List.exists_cons_of_ne_nil hentries
  obtain ⟨outPath, outPaths, rfl⟩ := List.exists_cons_of_length_eq_add_one hlength
  obtain ⟨key, -, hget⟩ := get?_exports hregister hlength h List.mem_cons_self
  rintro rfl
  exact absurd hget (by simp)

/-- **What is derived** from a transformed program. -/
theorem Derived.ofOutput_eq_ok_iff {entries : List EntryPoint} {shim : Shim}
    {output : TransformOutput} {test declaration : Bool} {derived : Derived} :
    ofOutput entries shim output test declaration = .ok derived ↔
      Manifest.exports declaration entries output.main.entryPoints = .ok derived.exports ∧
      derived.scripts = (if test then [(.text "test", .str testScript)] else []) ∧
      Manifest.dependencies shim output.main = .ok derived.dependencies ∧
      (if test then Manifest.devDependencies shim derived.dependencies output.test else .ok []) =
        .ok derived.devDependencies := by
  constructor
  · intro h
    obtain ⟨exports, hexports, h⟩ := Except.bind_eq_ok_iff.1 h
    obtain ⟨main, hmain, h⟩ := Except.bind_eq_ok_iff.1 h
    cases test
    all_goals
      obtain ⟨dev, hdev, h⟩ := Except.bind_eq_ok_iff.1 h
      obtain rfl := Except.ok.inj h
      exact ⟨hexports, rfl, hmain, hdev⟩
  · rintro ⟨hexports, hscripts, hmain, hdev⟩
    obtain ⟨exports, scripts, main, dev⟩ := derived
    obtain rfl : scripts = _ := hscripts
    refine Except.bind_eq_ok_iff.2 ⟨exports, hexports, Except.bind_eq_ok_iff.2 ⟨main, hmain, ?_⟩⟩
    cases test
    all_goals exact Except.bind_eq_ok_iff.2 ⟨dev, hdev, rfl⟩

/-- **The exports of a manifest** whose user gives none: each entry point has an export under its
name, whose conditions are the passes of the build, and the package's own export is named by members
of the manifest as well. -/
theorem exports_of_build {entries : List EntryPoint} {shim : Shim} {output : TransformOutput}
    {test declaration : Bool}
    (h : build entries shim output package test declaration = .ok manifest)
    (hexports : package.get? (.text "exports") = none)
    (hmembers : ∀ pass : Pass, package.get? (.text pass.member) = none) :
    output.main.entryPoints.length = entries.length ∧
      ∃ exports : Table Key, manifest.get? (.text "exports") = some (.obj exports.toMembers) ∧
        ∀ entry outPath, (entry, outPath) ∈ entries.zip output.main.entryPoints →
          ∃ key, entry.name.key = .ok key ∧
            exports.get? key = some (.obj (conditions declaration outPath)) ∧
            (key = .text EntryPoint.rootName → ∀ pass : Pass,
              manifest.get? (.text pass.member) =
                if pass ∈ Pass.all declaration then some (.str (pass.exportPath outPath))
                else none) := by
  rw [build] at h
  split at h
  · exact absurd h (by simp)
  rename_i hcheck
  obtain ⟨hentries, seen, hregister, hroot⟩ := (EntryPoint.check_ok_iff entries).1 hcheck
  split at h
  · exact absurd h (by simp)
  rename_i hlength
  split at h
  · exact absurd h (by simp)
  rename_i derived hderived
  have hexported := (Derived.ofOutput_eq_ok_iff.1 hderived).1
  rw [Decidable.not_not] at hlength
  obtain rfl := Except.ok.inj h
  have hother : ∀ {a b : String}, a ≠ b → (Key.text a == Key.text b) = false :=
    Key.text_beq_text_eq_false.2
  simp only [Derived.members, List.foldl_cons, List.foldl_nil]
  refine ⟨hlength, derived.exports, ?_, fun entry outPath hmem => ?_⟩
  · rw [get?_merge_other (hother (by decide)), get?_merge_other (hother (by decide)),
      get?_merge_other (hother (by decide)), get?_merge_self hexports
        (exports_ne_nil hregister hlength hentries hexported)]
  · obtain ⟨key, hkey, hget⟩ := get?_exports hregister hlength hexported hmem
    refine ⟨key, hkey, hget, ?_⟩
    rintro rfl pass
    have hnames : pass.member ≠ "exports" ∧ pass.member ≠ "scripts" ∧
        pass.member ≠ "dependencies" ∧ pass.member ≠ "devDependencies" := by
      cases pass <;> decide
    rw [get?_merge_other (hother hnames.2.2.2), get?_merge_other (hother hnames.2.2.1),
      get?_merge_other (hother hnames.2.1), get?_merge_other (hother hnames.1),
      get?_withRoots_member hmembers, rootCondition?, hget]
    exact get?_conditions declaration outPath pass

end Manifest

end DenoPackager
