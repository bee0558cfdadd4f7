import DenoPackager.Configuration.Basic
import DenoPackager.Proofs.Modules.Collect

/-!
# How configurations are refused

A configuration may be refused with a problem of the configuration: an option is missing, an entry
point is none, or no target has the name that is asked for. All else that an option may hold is
taken as it comes, and a value of another kind is a fault. Here are the kinds that options are
meant to have; a configuration is a fault exactly if nothing is missing, every entry point is one,
and an option has another kind.

## Main definitions

* `Configuration.IsFault`, `Configuration.IsReported`: the two ways to fail.
* `Configuration.WellTyped`: the kinds that options are meant to have.
* `Configuration.Unchecked`: configurations that are refused without a problem.

## Main results

* `Configuration.isFault_ofMembers_iff`: which configurations are faults.
* `Configuration.isReported_ofMembers`: any problem is one of the configuration.
-/

namespace DenoPackager

/-! ### Ways to fail -/

namespace Configuration

variable {α β : Type}

/-- The computation has a value. -/
def IsOk {ε : Type} (x : Except ε α) : Prop :=
  ∃ a, x = .ok a

/-- **The computation fails with a fault**, and nobody is told what is wrong. -/
def IsFault (x : Except Failure α) : Prop :=
  ∃ f, x = .error (.fault f)

/-- The problem is one of the configuration. -/
def IsOfConfiguration (p : Problem) : Prop :=
  Kind.configuration ∈ p.report.kind.lineage

theorem isOfConfiguration_of_kind {p : Problem} (h : p.report.kind = .configuration) :
    IsOfConfiguration p := by
  rw [IsOfConfiguration, h]
  simp [Kind.lineage, Kind.general?]

/-- **Any problem of the computation** is one of the configuration. -/
def IsReported (x : Except Failure α) : Prop :=
  ∀ p, x = .error (.problem p) → IsOfConfiguration p

/-- **A fault of two computations** is one of the first, or else of the second. -/
theorem isFault_bind_iff {x : Except Failure α} {f : α → Except Failure β} :
    IsFault (x >>= f) ↔ IsFault x ∨ ∃ a, x = .ok a ∧ IsFault (f a) := by
  cases x with
  | ok a =>
    have hnone : ¬IsFault (Except.ok a : Except Failure α) := by simp [IsFault]
    rw [or_iff_right hnone]
    exact ⟨fun h => ⟨a, rfl, h⟩, fun ⟨b, hb, h⟩ => Except.ok.inj hb ▸ h⟩
  | error e =>
    rw [or_iff_left (by simp), IsFault, IsFault]
    exact exists_congr fun _ => ⟨congrArg _ ∘ Except.error.inj, congrArg _ ∘ Except.error.inj⟩

theorem IsReported.bind {x : Except Failure α} {f : α → Except Failure β} (hx : IsReported x)
    (hf : ∀ a, x = .ok a → IsReported (f a)) : IsReported (x >>= f) := by
  cases x with
  | ok a => exact hf a rfl
  | error e => exact fun p hp => hx p (congrArg _ (Except.error.inj hp))

theorem isFault_ofFault_iff {x : Except Fault α} : IsFault (ofFault x) ↔ ¬IsOk x := by
  cases x <;> simp [ofFault, IsFault, IsOk]

theorem isOk_ofFault_iff {x : Except Fault α} : IsOk (ofFault x) ↔ IsOk x := by
  cases x <;> simp [ofFault, IsOk]

theorem isReported_ofFault (x : Except Fault α) : IsReported (ofFault x) := by
  cases x <;> simp [ofFault, IsReported]

/-- A computation that can only fail with a fault, and another one. -/
theorem isFault_ofFault_bind_iff {x : Except Fault α} {f : α → Except Failure β} {P : Prop}
    (h : ∀ a, IsFault (f a) ↔ ¬P) : IsFault (ofFault x >>= f) ↔ ¬(IsOk x ∧ P) := by
  simp only [isFault_bind_iff, isFault_ofFault_iff, h, exists_and_right]
  rw [← IsOk, isOk_ofFault_iff]
  constructor
  · rintro (hnone | ⟨-, hnot⟩) ⟨hok, hp⟩
    · exact hnone hok
    · exact hnot hp
  · intro h
    by_cases hok : IsOk x
    · exact .inr ⟨hok, fun hp => h ⟨hok, hp⟩⟩
    · exact .inl hok

/-- A computation for each item of a list has values if each one has. -/
theorem isOk_mapM_iff {ε : Type} {f : α → Except ε β} {as : List α} :
    IsOk (as.mapM f) ↔ ∀ a ∈ as, IsOk (f a) := by
  induction as with
  | nil => exact iff_of_true ⟨[], rfl⟩ fun a ha => absurd ha List.not_mem_nil
  | cons a as ih =>
    rw [List.mapM_cons, List.forall_mem_cons, ← ih]
    constructor
    · rintro ⟨bs, hbs⟩
      obtain ⟨b, hb, h⟩ := Except.bind_eq_ok_iff.1 hbs
      obtain ⟨bs', hbs', -⟩ := Except.bind_eq_ok_iff.1 h
      exact ⟨⟨b, hb⟩, bs', hbs'⟩
    · rintro ⟨⟨b, hb⟩, bs, hbs⟩
      exact ⟨b :: bs, Except.bind_eq_ok_iff.2 ⟨b, hb, Except.bind_eq_ok_iff.2 ⟨bs, hbs, rfl⟩⟩⟩

/-- Both of two computations have values if they have one together. -/
theorem isOk_bind_iff {ε : Type} {x : Except ε α} {f : α → Except ε β} :
    IsOk (x >>= f) ↔ ∃ a, x = .ok a ∧ IsOk (f a) := by
  simp only [IsOk, Except.bind_eq_ok_iff]
  exact ⟨fun ⟨b, a, ha, hb⟩ => ⟨a, ha, b, hb⟩, fun ⟨a, ha, b, hb⟩ => ⟨b, a, ha, hb⟩⟩

/-- A failure of a computation for each item of a list is one of an item. -/
theorem exists_of_mapM_eq_error {ε : Type} {f : α → Except ε β} {as : List α} {e : ε}
    (h : as.mapM f = .error e) : ∃ a ∈ as, f a = .error e := by
  induction as with
  | nil => exact nomatch h
  | cons a as ih =>
    rw [List.mapM_cons] at h
    cases ha : f a with
    | error e' =>
      rw [ha] at h
      exact ⟨a, List.mem_cons_self, ha.trans (congrArg _ (Except.error.inj h))⟩
    | ok b =>
      cases has : as.mapM f with
      | error e' =>
        rw [ha, has] at h
        obtain rfl : e' = e := Except.error.inj h
        obtain ⟨a', ha', hfail⟩ := ih has
        exact ⟨a', List.mem_cons_of_mem a ha', hfail⟩
      | ok bs =>
        rw [ha, has] at h
        exact nomatch h

/-! ### Values of the kinds that are meant -/

/-- A value that consists of parts: an array, a text or an object. -/
def IsIterable (v : Json) : Prop :=
  (∃ items, v = .arr items) ∨ (∃ s, v = .str s) ∨ ∃ ms, v = .obj ms

/-- A text. -/
def IsText (v : Json) : Prop :=
  ∃ s, v = .str s

/-- An object with members of these names. -/
def HasMembers (names : List String) (v : Json) : Prop :=
  ∃ ms, v = .obj ms ∧ ∀ name ∈ names, Table.has ms name = true

/-- A name and a value: what consists of two parts, the first of which is no array and no object. -/
def IsPair (v : Json) : Prop :=
  ∃ name value, v.parts = .ok [name, value] ∧ ∃ key, name.key = .ok key

/-- **A table**: an object, or what consists of pairs. -/
def IsTable (v : Json) : Prop :=
  (∃ ms, v = .obj ms) ∨ ∃ pairs, v.parts = .ok pairs ∧ ∀ pair ∈ pairs, IsPair pair

/-- **Mappings**: an object of objects that have a name. -/
def IsMappings (v : Json) : Prop :=
  ∃ ms, v = .obj ms ∧ ∀ m ∈ ms, HasMembers ["name"] m.2

/-- **Compiler options**: an object whose target, if one is given, is a text. -/
def IsCompilerOptions (v : Json) : Prop :=
  ∃ ms, v = .obj ms ∧ ∀ target ∈ Json.given? (Table.get? ms "target"), IsText target

/-- **An entry point**: a text, or an object with a name and a path. -/
def IsEntry (v : Json) : Prop :=
  IsText v ∨ HasMembers ["name", "path"] v

/-- **The kinds that options are meant to have.** The value of an option that is not required only
counts if it is given and not empty; that of a flag may be anything. -/
structure WellTyped (ms : Members) : Prop where
  entryPoints : IsIterable (optionOr ms "entryPoints" .null)
  outDir : IsText (optionOr ms "outDir" .null)
  package : IsTable (optionOr ms "package" .null)
  mappings : ∀ v ∈ Json.given? (ms.get? "mappings"), IsMappings v
  rootTestDir : ∀ v ∈ Json.given? (ms.get? "rootTestDir"), IsText v
  shimPackage : ∀ v ∈ Json.given? (ms.get? "shimPackage"), HasMembers ["name", "version"] v
  compilerOptions : ∀ v ∈ Json.given? (ms.get? "compilerOptions"), IsCompilerOptions v

/-- **Configurations that are refused without a problem**: nothing is missing and no entry point is
wrong, but an option has another kind than it is meant to have. -/
structure Unchecked (ms : Members) : Prop where
  complete : ∀ key ∈ requiredKeys, ms.has key = true
  entries : ∀ parts, (optionOr ms "entryPoints" .null).parts = .ok parts → ∀ v ∈ parts, IsEntry v
  mistyped : ¬WellTyped ms

/-! ### Reading the options -/

variable {v : Json} {given : Option Json} {ms : Members}

theorem isOk_parts_iff : IsOk v.parts ↔ IsIterable v := by
  cases v <;> simp [Json.parts, IsOk, IsIterable]

theorem isOk_path_iff : IsOk v.path ↔ IsText v := by
  cases v <;> simp [Json.path, IsOk, IsText]

/-- A member that an object has to have. -/
theorem isOk_member_iff {name : String} : IsOk (v.member name) ↔ HasMembers [name] v := by
  cases v with
  | obj ms =>
    rw [Json.member]
    cases hget : Table.get? ms name <;> simp [IsOk, HasMembers, Table.has, hget]
  | null | bool b | int n | float x | str s | arr items => simp [Json.member, IsOk, HasMembers]

/-- Members that an object has to have. -/
theorem hasMembers_pair_iff {name other : String} :
    HasMembers [name, other] v ↔ HasMembers [name] v ∧ HasMembers [other] v := by
  constructor
  · rintro ⟨ms, rfl, hall⟩
    rw [List.forall_mem_cons] at hall
    exact ⟨⟨ms, rfl, List.forall_mem_singleton.2 hall.1⟩, ms, rfl, hall.2⟩
  · rintro ⟨⟨ms, rfl, hname⟩, ms', hms, hother⟩
    obtain rfl : ms = ms' := Json.obj.inj hms
    exact ⟨ms, rfl, List.forall_mem_cons.2 ⟨hname name List.mem_cons_self, hother⟩⟩

/-- **Reading an entry point.** -/
theorem isOk_entrySpec_iff : IsOk (entrySpec v) ↔ IsEntry v := by
  cases v with
  | str s => exact iff_of_true ⟨_, rfl⟩ (.inl ⟨s, rfl⟩)
  | obj ms =>
    rw [entrySpec]
    cases hname : Table.get? ms "name" <;> cases hpath : Table.get? ms "path" <;>
      simp [IsOk, IsEntry, IsText, HasMembers, Table.has, hname, hpath]
  | null | bool b | int n | float x | arr items =>
    simp [entrySpec, IsOk, IsEntry, IsText, HasMembers]

/-- What is no entry point is reported. -/
theorem entrySpec_eq_error {e : Failure} (h : entrySpec v = .error e) :
    e = .problem (.invalidEntryPoint v) := by
  cases v with
  | str s => exact nomatch h
  | obj ms =>
    rw [entrySpec] at h
    split at h
    · exact nomatch h
    · exact (Except.error.inj h).symm
  | null | bool b | int n | float x | arr items => exact (Except.error.inj h).symm

/-- **Reading entry points**: one that is none is reported. -/
theorem mapM_entrySpec_eq_error {vs : List Json} {e : Failure} (h : vs.mapM entrySpec = .error e) :
    ∃ v, e = .problem (.invalidEntryPoint v) := by
  obtain ⟨v, -, hv⟩ := exists_of_mapM_eq_error h
  exact ⟨v, entrySpec_eq_error hv⟩

theorem isOk_mapping_iff {m : String × Json} : IsOk (mapping m) ↔ HasMembers ["name"] m.2 := by
  rw [← isOk_member_iff, mapping, isOk_bind_iff]
  exact exists_congr fun name => and_iff_left ⟨_, rfl⟩

/-- **Reading mappings.** -/
theorem isOk_mappingsOf_iff :
    IsOk (mappingsOf given) ↔ ∀ v ∈ Json.given? given, IsMappings v := by
  rw [mappingsOf]
  cases Json.given? given with
  | none => exact iff_of_true ⟨[], rfl⟩ fun v hv => nomatch hv
  | some v =>
    simp only [Option.mem_some_iff, forall_eq']
    cases v with
    | obj ms =>
      simp only [isOk_mapM_iff, isOk_mapping_iff, IsMappings, Json.obj.injEq, exists_eq_left']
    | null | bool b | int n | float x | str s | arr items => simp [IsOk, IsMappings]

/-- **Reading the package for the Deno namespace.** -/
theorem isOk_shimOf_iff :
    IsOk (shimOf given) ↔ ∀ v ∈ Json.given? given, HasMembers ["name", "version"] v := by
  rw [shimOf]
  cases Json.given? given with
  | none => exact iff_of_true ⟨none, rfl⟩ fun v hv => nomatch hv
  | some v =>
    simp only [Option.mem_some_iff, forall_eq', hasMembers_pair_iff, ← isOk_member_iff,
      isOk_bind_iff]
    constructor
    · rintro ⟨name, hname, version, hversion, -⟩
      exact ⟨⟨name, hname⟩, version, hversion⟩
    · rintro ⟨⟨name, hname⟩, version, hversion⟩
      exact ⟨name, hname, version, hversion, _, rfl⟩

theorem isOk_entryOf_iff : IsOk (Table.entryOf v) ↔ IsPair v := by
  rw [Table.entryOf, isOk_bind_iff, IsPair]
  constructor
  · rintro ⟨parts, hparts, hentry⟩
    match parts, hentry with
    | [name, value], hentry =>
      obtain ⟨key, hkey, -⟩ := isOk_bind_iff.1 hentry
      exact ⟨name, value, hparts, key, hkey⟩
  · rintro ⟨name, value, hparts, key, hkey⟩
    exact ⟨_, hparts, isOk_bind_iff.2 ⟨key, hkey, _, rfl⟩⟩

/-- **Reading a table.** -/
theorem isOk_ofValue_iff : IsOk (Table.ofValue v) ↔ IsTable v := by
  cases v with
  | obj ms => exact iff_of_true ⟨_, rfl⟩ (.inl ⟨ms, rfl⟩)
  | null | bool b | int n | float x | str s | arr items =>
    simp only [Table.ofValue, isOk_bind_iff, IsTable, reduceCtorEq, exists_false, false_or]
    refine exists_congr fun pairs => and_congr_right fun _ => ?_
    simp only [← isOk_entryOf_iff, ← isOk_mapM_iff]
    exact ⟨fun ⟨entries, h, _⟩ => ⟨entries, h⟩, fun ⟨entries, h⟩ => ⟨entries, h, _, rfl⟩⟩

/-- A target that is given is a fault if it is no text. -/
theorem isFault_ofJson_iff {target : Json} (h : target.truthy = true) :
    IsFault (ScriptTarget.ofJson target) ↔ ¬IsText target := by
  cases target with
  | null => exact absurd h (by decide)
  | str s =>
    rw [ScriptTarget.ofJson]
    cases ScriptTarget.ofName? s <;> simp [IsFault, IsText]
  | bool b | int n | float x | arr items | obj ms => simp [ScriptTarget.ofJson, IsFault, IsText]

/-- A target that does not exist is reported. -/
theorem isReported_ofJson (target : Json) : IsReported (ScriptTarget.ofJson target) := by
  intro p hp
  cases target with
  | str s =>
    rw [ScriptTarget.ofJson] at hp
    split at hp
    · exact nomatch hp
    · obtain rfl := Failure.problem.inj (Except.error.inj hp)
      exact isOfConfiguration_of_kind rfl
  | null | bool b | int n | float x | arr items | obj ms => exact nomatch hp

theorem isFault_map_iff {x : Except Failure α} {f : α → β} : IsFault (x.map f) ↔ IsFault x := by
  cases x <;> simp [IsFault, Except.map]

theorem IsReported.map {x : Except Failure α} (h : IsReported x) (f : α → β) :
    IsReported (x.map f) := by
  cases x with
  | ok a => exact fun p hp => nomatch hp
  | error e => exact fun p hp => h p (congrArg _ (Except.error.inj hp))

/-- **Reading the target**: only what is no text is a fault. -/
theorem isFault_targetOf_iff :
    IsFault (targetOf given) ↔ ¬∀ v ∈ Json.given? given, IsCompilerOptions v := by
  rw [targetOf]
  cases Json.given? given with
  | none => simp [IsFault]
  | some v =>
    simp only [Option.mem_some_iff, forall_eq']
    cases v with
    | obj ms =>
      simp only [IsCompilerOptions, Json.obj.injEq, exists_eq_left']
      cases htarget : Json.given? (Table.get? ms "target") with
      | none => simp [IsFault]
      | some target =>
        have htruthy : target.truthy = true := (Option.filter_eq_some_iff.1 htarget).2
        simp only [Option.mem_some_iff, forall_eq', isFault_map_iff, isFault_ofJson_iff htruthy]
    | null | bool b | int n | float x | str s | arr items => simp [IsFault, IsCompilerOptions]

theorem isReported_targetOf (given : Option Json) : IsReported (targetOf given) := by
  rw [targetOf]
  split
  · exact fun p hp => nomatch hp
  · split
    · exact fun p hp => nomatch hp
    · exact (isReported_ofJson _).map some
  · exact fun p hp => nomatch hp

/-! ### Reading a configuration -/

/-- The directory of the tests, if one is given. -/
def rootTestDirOf (given : Option Json) : Except Fault (Option Path) :=
  match Json.given? given with
  | some dir => dir.path.map some
  | none => .ok none

theorem isOk_rootTestDirOf_iff :
    IsOk (rootTestDirOf given) ↔ ∀ v ∈ Json.given? given, IsText v := by
  rw [rootTestDirOf]
  cases Json.given? given with
  | none => exact iff_of_true ⟨none, rfl⟩ fun v hv => nomatch hv
  | some v =>
    simp only [Option.mem_some_iff, forall_eq', ← isOk_path_iff]
    cases v.path <;> simp [IsOk, Except.map]

/-- The options that are read when the entry points are known. -/
def ofEntryPoints (ms : Members) (entryPoints : List EntrySpec) : Except Failure Configuration := do
  let mappings ← ofFault (mappingsOf (ms.get? "mappings"))
  let outDir ← ofFault (optionOr ms "outDir" .null).path
  let package ← ofFault (Table.ofValue (optionOr ms "package" .null))
  let rootTestDir ← ofFault (rootTestDirOf (ms.get? "rootTestDir"))
  let shimPackage ← ofFault (shimOf (ms.get? "shimPackage"))
  let target ← targetOf (ms.get? "compilerOptions")
  .ok
    { entryPoints := entryPoints
      outDir := outDir
      package := package
      typeCheck := optionOr ms "typeCheck" (.bool true)
      test := optionOr ms "test" (.bool true)
      declaration := optionOr ms "declaration" (.bool true)
      keepSourceFiles := optionOr ms "keepSourceFiles" (.bool false)
      keepTestFiles := optionOr ms "keepTestFiles" (.bool false)
      rootTestDir := rootTestDir
      testPattern := optionOr ms "testPattern" .null
      shimPackage := shimPackage
      mappings := mappings
      target := target }

/-- A configuration is read in three stages: what has to be there, the entry points, and the other
options. -/
theorem ofMembers_eq (ms : Members) : ofMembers ms =
    match requiredKeys.find? fun key => !ms.has key with
    | some key => .error (.problem (.missingOption key))
    | none => ofFault (optionOr ms "entryPoints" .null).parts >>= fun parts =>
      parts.mapM entrySpec >>= ofEntryPoints ms := by
  rw [ofMembers]
  cases requiredKeys.find? fun key => !ms.has key with
  | some key => rfl
  | none =>
    have hpath (dir : Json) : (ofFault dir.path).map some = ofFault (dir.path.map some) := by
      cases dir.path <;> rfl
    unfold ofEntryPoints rootTestDirOf
    cases Json.given? (ms.get? "rootTestDir") with
    | none => rfl
    | some dir =>
      simp only [hpath]
      rfl

/-- The options other than the entry points have the kinds that they are meant to have. -/
def OthersTyped (ms : Members) : Prop :=
  (∀ v ∈ Json.given? (ms.get? "mappings"), IsMappings v) ∧
  IsText (optionOr ms "outDir" .null) ∧
  IsTable (optionOr ms "package" .null) ∧
  (∀ v ∈ Json.given? (ms.get? "rootTestDir"), IsText v) ∧
  (∀ v ∈ Json.given? (ms.get? "shimPackage"), HasMembers ["name", "version"] v) ∧
  ∀ v ∈ Json.given? (ms.get? "compilerOptions"), IsCompilerOptions v

theorem wellTyped_iff :
    WellTyped ms ↔ IsIterable (optionOr ms "entryPoints" .null) ∧ OthersTyped ms :=
  ⟨fun h => ⟨h.entryPoints, h.mappings, h.outDir, h.package, h.rootTestDir, h.shimPackage,
    h.compilerOptions⟩, fun ⟨hentries, hmappings, hdir, hpackage, hroot, hshim, hoptions⟩ =>
    ⟨hentries, hdir, hpackage, hmappings, hroot, hshim, hoptions⟩⟩

/-- The other options are a fault if one of them has another kind. -/
theorem isFault_ofEntryPoints_iff {entryPoints : List EntrySpec} :
    IsFault (ofEntryPoints ms entryPoints) ↔ ¬OthersTyped ms := by
  rw [OthersTyped]
  rw [← isOk_mappingsOf_iff, ← isOk_path_iff, ← isOk_ofValue_iff, ← isOk_rootTestDirOf_iff,
    ← isOk_shimOf_iff, ofEntryPoints]
  refine isFault_ofFault_bind_iff fun mappings => isFault_ofFault_bind_iff fun outDir =>
    isFault_ofFault_bind_iff fun package => isFault_ofFault_bind_iff fun rootTestDir =>
    isFault_ofFault_bind_iff fun shimPackage => ?_
  rw [isFault_bind_iff, isFault_targetOf_iff]
  exact or_iff_left fun ⟨_, _, hok⟩ => nomatch hok

/-- **Which configurations are faults**: those in which nothing is missing, all entry points are
some, and an option has another kind than it is meant to have. -/
theorem isFault_ofMembers_iff : IsFault (ofMembers ms) ↔ Unchecked ms := by
  have hcomplete : (requiredKeys.find? fun key => !ms.has key) = none ↔
      ∀ key ∈ requiredKeys, ms.has key = true := by simp
  rw [ofMembers_eq]
  cases hmissing : requiredKeys.find? fun key => !ms.has key with
  | some key =>
    refine iff_of_false (by simp [IsFault]) fun h => ?_
    rw [hcomplete.2 h.complete] at hmissing
    exact nomatch hmissing
  | none =>
    have hcomplete := hcomplete.1 hmissing
    cases hparts : (optionOr ms "entryPoints" .null).parts with
    | error f =>
      refine iff_of_true ⟨f, rfl⟩ ⟨hcomplete, fun parts hok => ?_, fun h => ?_⟩
      · rw [hparts] at hok
        exact nomatch hok
      · obtain ⟨parts, hok⟩ := isOk_parts_iff.2 h.entryPoints
        rw [hparts] at hok
        exact nomatch hok
    | ok parts =>
      have hiterable := isOk_parts_iff.1 ⟨parts, hparts⟩
      have hentries : ¬IsFault (parts.mapM entrySpec) := by
        rintro ⟨f, hf⟩
        obtain ⟨v, hv⟩ := mapM_entrySpec_eq_error hf
        exact nomatch hv
      show IsFault (parts.mapM entrySpec >>= ofEntryPoints ms) ↔ Unchecked ms
      simp only [isFault_bind_iff, isFault_ofEntryPoints_iff, exists_and_right, hentries, false_or]
      rw [← IsOk, isOk_mapM_iff]
      simp only [isOk_entrySpec_iff]
      constructor
      · rintro ⟨hall, hothers⟩
        refine ⟨hcomplete, fun parts' hparts' => ?_, fun h => hothers (wellTyped_iff.1 h).2⟩
        obtain rfl : parts = parts' := Except.ok.inj (hparts.symm.trans hparts')
        exact hall
      · intro h
        exact ⟨h.entries parts hparts, fun hothers =>
          h.mistyped (wellTyped_iff.2 ⟨hiterable, hothers⟩)⟩

/-- A number of entry points is a fault, not a problem. -/
example : ofMembers [("entryPoints", .int 1), ("outDir", .str "npm"), ("package", .obj [])] =
    .error (.fault .wrongType) := rfl

/-- **Any problem is one of the configuration.** -/
theorem isReported_ofMembers (ms : Members) : IsReported (ofMembers ms) := by
  rw [ofMembers_eq]
  split
  · intro p hp
    obtain rfl := Failure.problem.inj (Except.error.inj hp)
    exact isOfConfiguration_of_kind rfl
  · refine (isReported_ofFault _).bind fun parts _ => IsReported.bind (fun p hp => ?_) fun _ _ => ?_
    · obtain ⟨v, hv⟩ := mapM_entrySpec_eq_error hp
      obtain rfl := Failure.problem.inj hv
      exact isOfConfiguration_of_kind rfl
    · exact (isReported_ofFault _).bind fun _ _ => (isReported_ofFault _).bind fun _ _ =>
        (isReported_ofFault _).bind fun _ _ => (isReported_ofFault _).bind fun _ _ =>
        (isReported_ofFault _).bind fun _ _ => (isReported_targetOf _).bind fun _ _ =>
        fun p hp => nomatch hp

end Configuration

end DenoPackager
