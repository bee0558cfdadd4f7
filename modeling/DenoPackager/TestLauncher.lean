import DenoPackager.Json.Printer
import DenoPackager.Text.Extension
import DenoPackager.Transform.Output
import DenoPackager.Writer

/-!
# The test launcher

The tests are run by a script that is written into the package. It loads every test file twice,
as a UMD and as an ES module, and runs the tests that the file registers. Where the tests reach
the Deno namespace through a package, that package holds the registered tests; else the launcher
brings a collector of its own.

## Main definitions

* `TestLauncher.code`: the text of the launcher.
* `TestLauncher.artifacts`: the files in the package that belong to the tests.
-/

namespace DenoPackager.TestLauncher

/-- The name of the launcher. -/
def fileName : String := "test_runner.js"

/-- Lines of text, each with a line feed. -/
def text (lines : List String) : String :=
  String.join (lines.map (· ++ "\n"))

/-- The line that takes the registered tests from a package. -/
def packageDefinitions (package : String) : String :=
  text ["const \x7b testDefinitions \x7d = require(" ++
    (Json.str (package ++ "/test-internals")).compactText ++ ");"]

/-- The collector of registered tests. -/
def collectorDefinitions : String :=
  text [
    "const testDefinitions = [];",
    "globalThis.Deno = globalThis.Deno || \x7b\x7d;",
    "globalThis.Deno.test = function (nameOrDefinition, fn) \x7b",
    "  if (typeof nameOrDefinition === \"string\") \x7b",
    "    testDefinitions.push(\x7b name: nameOrDefinition, fn \x7d);",
    "  \x7d else if (typeof nameOrDefinition === \"function\") \x7b",
    "    testDefinitions.push(\x7b name: nameOrDefinition.name, fn: nameOrDefinition \x7d);",
    "  \x7d else \x7b",
    "    testDefinitions.push(nameOrDefinition);",
    "  \x7d",
    "\x7d;"
  ]

/-- What the launcher does with the paths of the test files. -/
def runnerText : String :=
  text [
    "",
    "async function runTestDefinitions(definitions) \x7b",
    "  let failed = 0;",
    "  for (const definition of definitions) \x7b",
    "    if (definition.ignore) \x7b",
    "      console.log(`test $\x7bdefinition.name\x7d ... ignored`);",
    "      continue;",
    "    \x7d",
    "    try \x7b",
    "      await definition.fn(\x7b name: definition.name \x7d);",
    "      console.log(`test $\x7bdefinition.name\x7d ... ok`);",
    "    \x7d catch (err) \x7b",
    "      failed++;",
    "      console.error(`test $\x7bdefinition.name\x7d ... FAILED`);",
    "      console.error(err);",
    "    \x7d",
    "  \x7d",
    "  return failed;",
    "\x7d",
    "",
    "async function main() \x7b",
    "  let failed = 0;",
    "  for (const [i, filePath] of filePaths.entries()) \x7b",
    "    if (i > 0) \x7b",
    "      console.log(\"\");",
    "    \x7d",
    "",
    "    const umdPath = \"./umd/\" + filePath;",
    "    console.log(\"Running tests in \" + umdPath + \"...\\n\");",
    "    require(umdPath);",
    "    failed += await runTestDefinitions(testDefinitions.splice(0, testDefinitions.length));",
    "",
    "    const esmPath = \"./esm/\" + filePath;",
    "    console.log(\"\\nRunning tests in \" + esmPath + \"...\\n\");",
    "    await import(esmPath);",
    "    failed += await runTestDefinitions(testDefinitions.splice(0, testDefinitions.length));",
    "  \x7d",
    "",
    "  if (failed > 0) \x7b",
    "    console.error(\"\\n\" + failed + \" test(s) failed\");",
    "    process.exit(1);",
    "  \x7d",
    "\x7d",
    "",
    "main().catch((err) => \x7b",
    "  console.error(err);",
    "  process.exit(1);",
    "\x7d);"
  ]

/-- Whether the path is that of a declaration file. -/
def isDeclaration (path : String) : Bool :=
  Text.isDeclarationName path.toList

/-- The path with the extension of a script. -/
def scriptPath (path : String) : String :=
  String.ofList (Text.toScriptName path.toList)

/-- The scripts that are run for test files: declaration files are left out. -/
def scripts (testFiles : List String) : List String :=
  (testFiles.filter (!isDeclaration ·)).map scriptPath

/-- **The text of the launcher** for the test files at these output paths. -/
def code (package : String) (testFiles : List String) (shimUsed : Bool) : String :=
  "const process = require(\"process\");\n" ++
    (if shimUsed then packageDefinitions package else collectorDefinitions) ++
    "\nconst filePaths = " ++ (Json.arr ((scripts testFiles).map .str)).indentedText ++ ";\n" ++
    runnerText

/-- **The files of the package that belong to its tests**: both scripts of each test file, and
the launcher. -/
def artifacts (output : TransformOutput) : List String :=
  ((scripts (output.test.files.map (·.path))).flatMap fun script =>
    ["./esm/" ++ script, "./umd/" ++ script]) ++ ["./" ++ fileName]

end DenoPackager.TestLauncher
