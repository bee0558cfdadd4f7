import DenoPackager.Proofs.Manifest.Tables

/-!
# What is derived

A program and its tests need the package that provides the Deno namespace, if it is used, and the
packages that they import. The derived members exist as soon as the names of all these are keys, and
each of them is a table in which no key occurs twice.

## Main definitions

* `Manifest.Needs`: the packages that a group of files needs.
* `Manifest.Buildable`: entry points and a transformed program that have a manifest.
* `Manifest.TextNames`: those whose names are all texts.

## Main results

* `Manifest.mem_keys_needs`: what is needed has an entry.
* `Manifest.Buildable.exists_ofOutput`: the derived members exist.
* `Manifest.Derived.distinct_of_mem`, `Manifest.Derived.textual_of_mem`: what kind of tables they
  are.
* `Manifest.Buildable.exists_root`: the package itself is exported.
-/

namespace DenoPackager.Manifest

variable {entries : List EntryPoint} {shim : Shim} {output : TransformOutput} {group : FileGroup}
  {test declaration : Bool} {derived : Derived} {needed main : Table Key} {key : Key}

/-! ### Needs -/

/-- **The packages that a group of files needs**: the one that provides the Deno namespace, if it is
used, and those that are imported. -/
def Needs (shim : Shim) (group : FileGroup) (name : Json) : Prop :=
  (group.shimUsed = true ∧ shim.name = name) ∨ ∃ d ∈ group.dependencies, d.name = name

/-- An entry stands under the name of its package. -/
theorem dependencyEntry_eq_ok {d : Dependency} {m : Key × Json} (h : dependencyEntry d = .ok m) :
    d.name = m.1.toJson := by
  obtain ⟨key, hkey, h⟩ := Except.bind_eq_ok_iff.1 h
  obtain rfl := Except.ok.inj h
  exact Json.key_eq_ok_iff.1 hkey

theorem shimEntry_eq_ok {m : Key × Json} (h : shimEntry shim = .ok m) :
    shim.name = m.1.toJson := by
  obtain ⟨key, hkey, h⟩ := Except.bind_eq_ok_iff.1 h
  obtain rfl := Except.ok.inj h
  exact Json.key_eq_ok_iff.1 hkey

/-- Different keys are different values. -/
theorem toJson_inj {a b : Key} : a.toJson = b.toJson ↔ a = b := by
  rw [← Json.key_eq_ok_iff, Json.key, Key.ofJson?_toJson]
  simp

/-- What is imported has an entry each. -/
theorem mem_keys_imported {ds : List Dependency} {imported : Table Key}
    (h : ds.mapM dependencyEntry = .ok imported) :
    key ∈ imported.keys ↔ ∃ d ∈ ds, d.name = key.toJson := by
  have hnames := (Except.mapM_eq_ok_iff.1 h).imp fun _ _ hm => dependencyEntry_eq_ok hm
  clear h
  induction hnames with
  | nil => simp
  | cons hname _ ih => simp [ih, hname, toJson_inj, eq_comm]

/-- **How needs are written down**: the entry for the package that provides the Deno namespace comes
first, if there is one. -/
theorem needs_eq_ok_iff : needs shim group = .ok needed ↔
    ∃ imported, group.dependencies.mapM dependencyEntry = .ok imported ∧
      if group.shimUsed then ∃ m, shimEntry shim = .ok m ∧ needed = m :: imported
      else needed = imported := by
  rw [needs]
  cases group.shimUsed
  · constructor
    · intro h
      obtain ⟨none, hnone, h⟩ := Except.bind_eq_ok_iff.1 h
      obtain ⟨imported, himported, h⟩ := Except.bind_eq_ok_iff.1 h
      obtain rfl := Except.ok.inj hnone
      exact ⟨imported, himported, (Except.ok.inj h).symm⟩
    · rintro ⟨imported, himported, rfl⟩
      exact Except.bind_eq_ok_iff.2 ⟨_, rfl, Except.bind_eq_ok_iff.2 ⟨_, himported, rfl⟩⟩
  · constructor
    · intro h
      obtain ⟨shimEntries, hshim, h⟩ := Except.bind_eq_ok_iff.1 h
      obtain ⟨imported, himported, h⟩ := Except.bind_eq_ok_iff.1 h
      obtain ⟨m, hm, rfl⟩ := Except.map_eq_ok_iff.1 hshim
      exact ⟨imported, himported, m, hm, (Except.ok.inj h).symm⟩
    · rintro ⟨imported, himported, m, hm, rfl⟩
      exact Except.bind_eq_ok_iff.2 ⟨_, Except.map_eq_ok_iff.2 ⟨m, hm, rfl⟩,
        Except.bind_eq_ok_iff.2 ⟨_, himported, rfl⟩⟩

/-- **What is needed has an entry**, and nothing else has one. -/
theorem mem_keys_needs (h : needs shim group = .ok needed) :
    key ∈ needed.keys ↔ Needs shim group key.toJson := by
  obtain ⟨imported, himported, h⟩ := needs_eq_ok_iff.1 h
  rw [Needs, ← mem_keys_imported himported]
  split at h
  · rename_i hused
    obtain ⟨m, hm, rfl⟩ := h
    rw [shimEntry_eq_ok hm, toJson_inj]
    simp [hused, eq_comm]
  · rename_i hunused
    rw [h]
    simp [hunused]

/-- Needs can be written down as soon as names are keys. -/
theorem exists_needs (hshim : ∃ k, shim.name.key = .ok k)
    (hnames : ∀ d ∈ group.dependencies, ∃ k, d.name.key = .ok k) :
    ∃ needed, needs shim group = .ok needed := by
  obtain ⟨imported, himported⟩ :
      ∃ imported, group.dependencies.mapM dependencyEntry = .ok imported := by
    refine ⟨_, Except.mapM_eq_map (g := fun d =>
      ((Key.ofJson? d.name).getD .null, .str (versionRange d))) fun d hd => ?_⟩
    obtain ⟨k, hk⟩ := hnames d hd
    refine Except.bind_eq_ok_iff.2 ⟨k, hk, ?_⟩
    rw [Json.key_eq_ok_iff.1 hk, Key.ofJson?_toJson]
    rfl
  obtain ⟨shimKey, hshim⟩ := hshim
  have hentry : shimEntry shim = .ok (shimKey, .str (compatibleWith shim.version)) :=
    Except.bind_eq_ok_iff.2 ⟨shimKey, hshim, rfl⟩
  cases hused : group.shimUsed
  · exact ⟨imported, needs_eq_ok_iff.2 ⟨imported, himported, by simp [hused]⟩⟩
  · exact ⟨_, needs_eq_ok_iff.2 ⟨imported, himported, by
      rw [if_pos hused]
      exact ⟨_, hentry, rfl⟩⟩⟩

/-- The packages that the program depends on are those that it needs. -/
theorem dependencies_eq_ok_iff : dependencies shim group = .ok main ↔
    ∃ needed, needs shim group = .ok needed ∧ Table.ofPairs needed = main :=
  Except.map_eq_ok_iff

/-- The entries for what a table does not have. -/
theorem mem_keys_missing : key ∈ Table.keys (needed.filter fun m => !main.has m.1) ↔
    key ∈ needed.keys ∧ main.has key = false := by
  have hkeys : Table.keys (needed.filter fun m => !main.has m.1) =
      needed.keys.filter fun k => !main.has k := Table.keys_filter needed fun k => !main.has k
  rw [hkeys, List.mem_filter, Bool.not_eq_true']

/-- The packages that only the tests depend on are those that the tests need and the program does
not. -/
theorem devDependencies_eq_ok_iff {dev : Table Key} :
    devDependencies shim main group = .ok dev ↔
      ∃ needed, needs shim group = .ok needed ∧
        Table.ofPairs (needed.filter fun m => !main.has m.1) = dev :=
  Except.map_eq_ok_iff

/-! ### Programs that have a manifest -/

/-- **A manifest can be built**: the entry points are accepted and each has an output path, and the
names of packages are keys. -/
structure Buildable (entries : List EntryPoint) (shim : Shim) (output : TransformOutput) :
    Prop where
  accepted : EntryPoint.check entries = .ok ()
  paired : output.main.entryPoints.length = entries.length
  shim : ∃ k, shim.name.key = .ok k
  dependencies : ∀ group ∈ [output.main, output.test], ∀ d ∈ group.dependencies,
    ∃ k, d.name.key = .ok k

/-- **All names are texts**, as they are meant to be. Any other key is written as a text, and would
not be the same key if it were read again. -/
structure TextNames (entries : List EntryPoint) (shim : Shim) (output : TransformOutput) :
    Prop where
  entries : ∀ e ∈ entries, ∃ s, e.name = .str s
  shim : ∃ s, shim.name = .str s
  dependencies : ∀ group ∈ [output.main, output.test], ∀ d ∈ group.dependencies,
    ∃ s, d.name = .str s

/-- Texts are keys. -/
theorem TextNames.buildable (h : TextNames entries shim output)
    (haccepted : EntryPoint.check entries = .ok ())
    (hpaired : output.main.entryPoints.length = entries.length) :
    Buildable entries shim output where
  accepted := haccepted
  paired := hpaired
  shim := h.shim.imp' Key.text fun _ hs => Json.key_eq_ok_iff.2 hs
  dependencies group hgroup d hd :=
    (h.dependencies group hgroup d hd).imp' Key.text fun _ hs => Json.key_eq_ok_iff.2 hs

namespace Buildable

/-- The names of accepted entry points are keys of their own. -/
theorem exists_register (h : Buildable entries shim output) :
    ∃ seen, EntryPoint.register [] entries = .ok seen ∧ seen.has (.text EntryPoint.rootName) :=
  ((EntryPoint.check_ok_iff entries).1 h.accepted).2

/-- **The derived members exist.** -/
theorem exists_ofOutput (h : Buildable entries shim output) (test declaration : Bool) :
    ∃ derived, Derived.ofOutput entries shim output test declaration = .ok derived := by
  obtain ⟨seen, hseen, -⟩ := h.exists_register
  obtain ⟨main, hmain⟩ := exists_needs h.shim (h.dependencies output.main (by simp))
  obtain ⟨dev, hdev⟩ := exists_needs h.shim (h.dependencies output.test (by simp))
  refine ⟨⟨_, _, Table.ofPairs main, if test then
      Table.ofPairs (dev.filter fun m => !(Table.ofPairs main).has m.1) else []⟩,
    Derived.ofOutput_eq_ok_iff.2 ⟨exports_eq hseen, rfl, ?_, ?_⟩⟩
  · exact dependencies_eq_ok_iff.2 ⟨main, hmain, rfl⟩
  · split
    · exact devDependencies_eq_ok_iff.2 ⟨dev, hdev, rfl⟩
    · rfl

end Buildable

/-! ### The derived tables -/

namespace Derived

/-- **No key occurs twice** in a derived member. -/
theorem distinct_of_mem (hbuild : Buildable entries shim output)
    (h : ofOutput entries shim output test declaration = .ok derived) {m : String × Table Key}
    (hm : m ∈ derived.members) : m.2.Distinct := by
  obtain ⟨hexports, hscripts, hmain, hdev⟩ := ofOutput_eq_ok_iff.1 h
  obtain ⟨seen, hseen, -⟩ := hbuild.exists_register
  rw [exports_eq hseen] at hexports
  obtain ⟨needed, -, hmain⟩ := dependencies_eq_ok_iff.1 hmain
  rw [members] at hm
  simp only [List.mem_cons, List.not_mem_nil, or_false] at hm
  rcases hm with rfl | rfl | rfl | rfl
  · rw [← Except.ok.inj hexports]
    exact Table.distinct_ofPairs _
  · rw [hscripts]
    cases test
    · exact List.Pairwise.nil
    · exact List.pairwise_singleton _ _
  · rw [← hmain]
    exact Table.distinct_ofPairs _
  · split at hdev
    · obtain ⟨dev, -, hdev⟩ := devDependencies_eq_ok_iff.1 hdev
      rw [← hdev]
      exact Table.distinct_ofPairs _
    · rw [← Except.ok.inj hdev]
      exact List.Pairwise.nil

end Derived

/-! ### Names that are texts -/

/-- The packages that are needed have texts as names. -/
theorem textual_of_needs (hshim : ∃ s, shim.name = .str s)
    (hnames : ∀ d ∈ group.dependencies, ∃ s, d.name = .str s)
    (h : needs shim group = .ok needed) : needed.Textual := by
  intro k hk
  obtain ⟨s, hs⟩ : ∃ s, k.toJson = .str s := by
    rcases (mem_keys_needs h).1 hk with ⟨-, hname⟩ | ⟨d, hd, hname⟩
    · exact hname ▸ hshim
    · exact hname ▸ hnames d hd
  exact ⟨s, toJson_inj.1 hs⟩

/-- **The derived members are objects** if names are texts. -/
theorem Derived.textual_of_mem (hbuild : Buildable entries shim output)
    (htexts : TextNames entries shim output)
    (h : ofOutput entries shim output test declaration = .ok derived) {m : String × Table Key}
    (hm : m ∈ derived.members) : m.2.Textual := by
  obtain ⟨hexports, hscripts, hmain, hdev⟩ := ofOutput_eq_ok_iff.1 h
  obtain ⟨seen, hseen, -⟩ := hbuild.exists_register
  rw [exports_eq hseen] at hexports
  obtain ⟨needed, hneeded, hmain⟩ := dependencies_eq_ok_iff.1 hmain
  have hnone : Table.Textual [] := fun k hk => absurd hk List.not_mem_nil
  rw [members] at hm
  simp only [List.mem_cons, List.not_mem_nil, or_false] at hm
  rcases hm with rfl | rfl | rfl | rfl
  · rw [← Except.ok.inj hexports]
    refine Table.textual_overlay hnone fun k hk => ?_
    rw [Table.keys, List.map_map] at hk
    obtain ⟨⟨e, outPath⟩, hmem, rfl⟩ := List.mem_map.1 hk
    obtain ⟨s, hs⟩ := htexts.entries e (List.of_mem_zip hmem).1
    refine ⟨s, ?_⟩
    rw [Function.comp_apply, EntryPoint.key, hs]
    rfl
  · rw [hscripts]
    cases test
    · exact hnone
    · exact Table.textual_ofMembers [("test", .str testScript)]
  · rw [← hmain]
    exact Table.textual_overlay hnone
      (textual_of_needs htexts.shim (htexts.dependencies output.main (by simp)) hneeded)
  · split at hdev
    · obtain ⟨dev, hneeded, hdev⟩ := devDependencies_eq_ok_iff.1 hdev
      have htextual :=
        textual_of_needs htexts.shim (htexts.dependencies output.test (by simp)) hneeded
      rw [← hdev]
      exact Table.textual_overlay hnone fun k hk => htextual k (mem_keys_missing.1 hk).1
    · rw [← Except.ok.inj hdev]
      exact hnone

/-! ### The package's own export -/

/-- The names of entry points are put into a table in order. -/
theorem keys_of_register {seen all : Table Key} (h : EntryPoint.register seen entries = .ok all) :
    all.keys = seen.keys ++ entries.map EntryPoint.key := by
  induction entries generalizing seen with
  | nil =>
    rw [← Except.ok.inj h, List.map_nil, List.append_nil]
  | cons e es ih =>
    have hkey := ((EntryPoint.pairwise_of_register h).1 e List.mem_cons_self).1
    have hnew := ((EntryPoint.pairwise_of_register h).1 e List.mem_cons_self).2
    rw [EntryPoint.register] at h
    simp only [hkey, hnew] at h
    rw [ih h, Table.keys_append, List.append_assoc]
    rfl

/-- **The package itself is exported**: an accepted entry point has its name, and the conditions of
its export are the passes of the build. -/
theorem Buildable.exists_root (hbuild : Buildable entries shim output)
    (h : Derived.ofOutput entries shim output test declaration = .ok derived) :
    ∃ entry rootPath, (entry, rootPath) ∈ entries.zip output.main.entryPoints ∧
      entry.name = .str EntryPoint.rootName ∧
      ∀ pass : Pass, rootCondition? derived.exports pass.condition =
        if pass ∈ Pass.all declaration then some (.str (pass.exportPath rootPath)) else none := by
  obtain ⟨seen, hseen, hroot⟩ := hbuild.exists_register
  rw [Table.has_text, keys_of_register hseen] at hroot
  obtain ⟨entry, hentry, hkey⟩ := List.mem_map.1 hroot
  rw [← List.map_fst_zip (Nat.le_of_eq hbuild.paired.symm)] at hentry
  obtain ⟨⟨entry, rootPath⟩, hmem, rfl⟩ := List.mem_map.1 hentry
  obtain ⟨key, hname, hget⟩ :=
    get?_exports hseen hbuild.paired (Derived.ofOutput_eq_ok_iff.1 h).1 hmem
  have hown := ((EntryPoint.pairwise_of_register hseen).1 entry (List.of_mem_zip hmem).1).1
  obtain rfl : entry.key = key := Except.ok.inj (hown.symm.trans hname)
  rw [hkey] at hname hget
  refine ⟨entry, rootPath, hmem, Json.key_eq_ok_iff.1 hname, fun pass => ?_⟩
  rw [rootCondition?, hget]
  exact get?_conditions declaration rootPath pass

end DenoPackager.Manifest
