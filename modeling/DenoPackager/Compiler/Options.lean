import DenoPackager.Compiler.Target
import DenoPackager.Path.Basic

/-!
# Compiler options

The compiler has a fixed set of settings, and options give each of them a value. Options are
changed by overrides, which name settings in their own spelling, and written into the compiler's
configuration in its spelling.

## Main results

* `set_self`, `set_other`: what changing a setting means.
-/

namespace DenoPackager

/-- **The settings** of the compiler, in the order of its configuration. -/
inductive Setting where
  | rootDir
  | outDir
  | target
  | moduleFormat
  | moduleResolution
  | declaration
  | esModuleInterop
  | allowJs
  | stripInternal
  | strictBindCallApply
  | strictFunctionTypes
  | strictNullChecks
  | strictPropertyInitialization
  | noImplicitAny
  | noImplicitReturns
  | noImplicitThis
  | noUncheckedIndexedAccess
  | isolatedModules
  | useDefineForClassFields
  | experimentalDecorators
  | jsx
  | jsxFactory
  | jsxFragmentFactory
  | allowSyntheticDefaultImports
  | emitBom
  deriving Repr, DecidableEq

namespace Setting

/-- All settings, in order. -/
def all : List Setting :=
  [.rootDir, .outDir, .target, .moduleFormat, .moduleResolution, .declaration, .esModuleInterop,
    .allowJs, .stripInternal, .strictBindCallApply, .strictFunctionTypes, .strictNullChecks,
    .strictPropertyInitialization, .noImplicitAny, .noImplicitReturns, .noImplicitThis,
    .noUncheckedIndexedAccess, .isolatedModules, .useDefineForClassFields,
    .experimentalDecorators, .jsx, .jsxFactory, .jsxFragmentFactory,
    .allowSyntheticDefaultImports, .emitBom]

/-- The words of a setting's name. -/
def words : Setting → List String
  | .rootDir => ["root", "dir"]
  | .outDir => ["out", "dir"]
  | .target => ["target"]
  | .moduleFormat => ["module"]
  | .moduleResolution => ["module", "resolution"]
  | .declaration => ["declaration"]
  | .esModuleInterop => ["es", "module", "interop"]
  | .allowJs => ["allow", "js"]
  | .stripInternal => ["strip", "internal"]
  | .strictBindCallApply => ["strict", "bind", "call", "apply"]
  | .strictFunctionTypes => ["strict", "function", "types"]
  | .strictNullChecks => ["strict", "null", "checks"]
  | .strictPropertyInitialization => ["strict", "property", "initialization"]
  | .noImplicitAny => ["no", "implicit", "any"]
  | .noImplicitReturns => ["no", "implicit", "returns"]
  | .noImplicitThis => ["no", "implicit", "this"]
  | .noUncheckedIndexedAccess => ["no", "unchecked", "indexed", "access"]
  | .isolatedModules => ["isolated", "modules"]
  | .useDefineForClassFields => ["use", "define", "for", "class", "fields"]
  | .experimentalDecorators => ["experimental", "decorators"]
  | .jsx => ["jsx"]
  | .jsxFactory => ["jsx", "factory"]
  | .jsxFragmentFactory => ["jsx", "fragment", "factory"]
  | .allowSyntheticDefaultImports => ["allow", "synthetic", "default", "imports"]
  | .emitBom => ["emit", "bom"]

/-- The name of a setting in overrides: its words with underscores between them. -/
def name (s : Setting) : String :=
  String.intercalate "_" s.words

/-- The name of a setting in the compiler's configuration: its words run together, each but the
first with a capital. The byte order mark is an abbreviation there. -/
def configName : Setting → String
  | .emitBom => "emitBOM"
  | s =>
    match s.words with
    | [] => ""
    | w :: ws => w ++ String.join (ws.map String.capitalize)

/-- The setting of a name. -/
def ofName? (s : String) : Option Setting :=
  all.find? fun x => x.name = s

end Setting

/-- **Module formats** of emitted scripts. -/
inductive ModuleFormat where
  | es2015
  | commonJs
  | umd
  deriving Repr, DecidableEq

/-- The name of a module format. -/
def ModuleFormat.name : ModuleFormat → String
  | .es2015 => "ES2015"
  | .commonJs => "CommonJS"
  | .umd => "UMD"

/-- **What becomes of embedded markup.** -/
inductive JsxMode where
  | preserve
  | react
  deriving Repr, DecidableEq

/-- The name of a mode for embedded markup. -/
def JsxMode.name : JsxMode → String
  | .preserve => "preserve"
  | .react => "react"

/-- **The value of a setting.** -/
inductive SettingValue where
  | target (t : ScriptTarget)
  | format (m : ModuleFormat)
  | jsx (j : JsxMode)
  | raw (v : Json)
  deriving Repr

/-- The value of a setting in the compiler's configuration. -/
def SettingValue.config : SettingValue → Json
  | .target t => .str t.configName
  | .format m => .str m.name
  | .jsx j => .str j.name
  | .raw v => v

/-- **Compiler options**: a value for each setting. -/
structure CompilerOptions where
  get : Setting → SettingValue

namespace CompilerOptions

/-- The options with one setting changed. -/
def set (o : CompilerOptions) (s : Setting) (v : SettingValue) : CompilerOptions :=
  ⟨fun x => if x = s then v else o.get x⟩

/-- The options with several settings changed, one after the other. -/
def setAll (o : CompilerOptions) (changes : List (Setting × SettingValue)) : CompilerOptions :=
  changes.foldl (fun o c => o.set c.1 c.2) o

/-- The path that a setting holds. -/
def path (o : CompilerOptions) (s : Setting) : Except Fault Path :=
  match (o.get s).config with
  | .str text => .ok (Path.ofString text)
  | _ => .error .wrongType

/-- The names that no setting has, in ascending order. -/
def unknownNames (names : List String) : List String :=
  ((names.filter fun n => (Setting.ofName? n).isNone).eraseDups).mergeSort fun a b => decide (a ≤ b)

/-- **Overriding** settings by name. -/
def merge (o : CompilerOptions) (overrides : List (String × SettingValue)) :
    Except Problem CompilerOptions :=
  match unknownNames (overrides.map Prod.fst) with
  | [] => .ok (o.setAll (overrides.filterMap fun c => (Setting.ofName? c.1).map fun s => (s, c.2)))
  | names => .error (.unknownCompilerOptions names)

/-- **The configuration** that the compiler reads. -/
def config (o : CompilerOptions) : Members :=
  Setting.all.map fun s => (s.configName, (o.get s).config)

/-- The value of a setting unless another one is asked for. -/
def standardValue : Setting → SettingValue
  | .rootDir => .raw (.str "")
  | .outDir => .raw (.str "")
  | .target => .target .standard
  | .moduleFormat => .format .es2015
  | .moduleResolution => .raw (.str "node")
  | .jsx => .jsx .react
  | .jsxFactory => .raw (.str "React.createElement")
  | .jsxFragmentFactory => .raw (.str "React.Fragment")
  | .esModuleInterop => .raw (.bool false)
  | .noImplicitReturns => .raw (.bool false)
  | .noUncheckedIndexedAccess => .raw (.bool false)
  | .emitBom => .raw (.bool false)
  | _ => .raw (.bool true)

/-- **The options that every pass starts from**: the sources are laid out below `src` in the
package, and declarations go below `types`. -/
def base (package : Path) (declaration : Bool) (target : Option ScriptTarget) : CompilerOptions :=
  (CompilerOptions.mk standardValue).setAll
    [(.rootDir, .raw (.str (package.child "src").text)),
      (.outDir, .raw (.str (package.child "types").text)),
      (.target, .target (target.getD .standard)),
      (.declaration, .raw (.bool declaration))]

/-! ### Changing a setting -/

@[simp] theorem set_self (o : CompilerOptions) (s : Setting) (v : SettingValue) :
    (o.set s v).get s = v := by simp [set]

theorem set_other (o : CompilerOptions) {s x : Setting} (v : SettingValue) (h : x ≠ s) :
    (o.set s v).get x = o.get x := by simp [set, h]

end CompilerOptions

end DenoPackager
