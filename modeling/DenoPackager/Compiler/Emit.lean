import DenoPackager.Compiler.Project
import DenoPackager.Compiler.Run
import DenoPackager.Source.ImportMeta
import DenoPackager.Writer

/-!
# Checking and emitting programs

A program is checked by a run of the compiler that emits nothing. It is emitted by a run into a
scratch directory; every file found there is then handed on, in ascending order, under its path
below the program's output directory. Of the diagnostics of an emission only those that come
from declarations are reported, since all others belong to the check.
-/

namespace DenoPackager

/-- **An emitted file**: its path below the output directory, its text without a byte order
mark, and whether there was one. -/
structure EmittedFile where
  path : String
  text : String
  mark : Bool
  deriving Repr, DecidableEq

/-- **What an emission came to.** -/
structure EmitResult where
  files : List EmittedFile
  diagnostics : List Diagnostic
  deriving Repr

/-- **A change to sources** before they are emitted: the text that is compiled for a source, told by
its path and its own text. -/
abbrev SourceTransform := String → String → String

/-- The replacement of `import.meta` for UMD output, the same at every path. -/
def SourceTransform.importMeta : SourceTransform := fun _ text =>
  String.ofList (Source.replaceImportMeta text.toList)

/-- A text without a byte order mark in front, and whether there was one. -/
def splitMark (text : String) : String × Bool :=
  match text.toList with
  | c :: cs => if c = Writer.byteOrderMark then (String.ofList cs, true) else (text, false)
  | [] => (text, false)

namespace Program

/-- **Checking** a program: all that the compiler has to say about it. -/
def check (p : Program) (c : Compiler) (tools : Tools) (policy : Policy) :
    Action (List Diagnostic) :=
  c.run tools policy p.options p.files .check

/-- The program's files as the compiler gets them, with their texts changed. -/
def prepared (p : Program) (transforms : List SourceTransform) : List (String × String) :=
  p.files.map fun f => (f.1, transforms.foldl (fun text transform => transform f.1 text) f.2)

/-- **Handing on** the emitted file at a place below the scratch directory. -/
def relay (scratch outDir : Path) (write : EmittedFile → Action Unit) (place : Place) :
    Action EmittedFile := do
  let relative : Path := { root := .none, parts := place }
  let content ← Action.look fun t cwd => t.readText cwd (scratch.join relative)
  let (text, mark) := splitMark content
  let file : EmittedFile := { path := (outDir.join relative).text, text := text, mark := mark }
  write file
  pure file

/-- Emitting a program through `write`, with a scratch directory for the compiler. -/
def emitFrom (p : Program) (c : Compiler) (tools : Tools) (policy : Policy)
    (declarationsOnly : Bool) (transforms : List SourceTransform)
    (write : EmittedFile → Action Unit) (scratch : Path) : Action EmitResult := do
  let diagnostics ← c.run tools policy p.options (p.prepared transforms)
    (.emit declarationsOnly (some scratch))
  let outDir ← Action.look fun _ _ => p.options.path .outDir
  let w ← Action.get
  let files ← Action.mapEach (relay scratch outDir write) (w.tree.filesBelow scratch.parts)
  pure { files := files, diagnostics := diagnostics.filter Diagnostic.isDeclarationEmit }

/-- **Emitting** a program through `write`. -/
def emit (p : Program) (c : Compiler) (tools : Tools) (policy : Policy) (declarationsOnly : Bool)
    (transforms : List SourceTransform) (write : EmittedFile → Action Unit) :
    Action EmitResult :=
  withTemporary temporaryRoot "dnt-emit-"
    (p.emitFrom c tools policy declarationsOnly transforms write)

end Program

end DenoPackager
