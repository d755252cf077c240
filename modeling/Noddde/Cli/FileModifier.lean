import Mathlib.Logic.Function.Basic
import Noddde.Cli.Naming
import Noddde.Data.Lines
/-!
# Files and their edits
-/

namespace Noddde.Cli

open Unicode Words Lines

inductive CliError where
  | invalidName (message : JsString)
  | noEntry (path : JsString)
  deriving DecidableEq

/-- The files of a directory, by their paths in it. -/
abbrev Files := JsString → Option JsString

/-- What was written before an error stays. -/
abbrev FileM := ExceptT CliError (StateM Files)

def FileM.exec {α : Type} (program : FileM α) (files : Files) : Except CliError α × Files :=
  program.run.run files

def readFile (path : JsString) : FileM JsString := do
  match (← get) path with
  | some content => pure content
  | none => throw (.noEntry path)

def writeFile (path content : JsString) : FileM Unit :=
  modify fun files => Function.update files path (some content)

def writeFileIfNotExists (path content : JsString) : FileM Bool := do
  if ((← get) path).isSome then
    pure false
  else
    writeFile path content
    pure true

/-! ## Edits -/

def newline : UInt16 := 0x0A

def splitLines (text : JsString) : List JsString := text.splitOn newline

def joinLines (lines : List JsString) : JsString := [newline].intercalate lines

def trimStart (text : JsString) : JsString := text.dropWhile isSpace

def trimEnd (text : JsString) : JsString := text.rdropWhile isSpace

/-- `match(/^(\s*)/)` -/
def indentOf (line : JsString) : JsString := line.takeWhile isSpace

inductive Marker where
  | text (search : JsString)
  | pattern (test : JsString → Bool)

def Marker.test : Marker → JsString → Bool
  | .text search, line => includes search line
  | .pattern test, line => test line

def indented (indent content : JsString) : JsString :=
  joinLines ((splitLines content).map fun l =>
    if trim isSpace l ≠ [] then indent ++ trimStart l else l)

structure Insertion where
  inserted : Bool
  usedFallback : Bool
  deriving DecidableEq

def insertBeforeMarker (filePath : JsString) (marker : Marker) (content : JsString)
    (fallbackAppend : Bool) : FileM Insertion := do
  let fileContent ← readFile filePath
  let lines := splitLines fileContent
  match lines.findIdx? marker.test with
  | some markerIndex =>
      let indent := indentOf (lines.getD markerIndex [])
      writeFile filePath (joinLines (lines.insertIdx markerIndex (indented indent content)))
      pure { inserted := true, usedFallback := false }
  | none =>
      if fallbackAppend then
        let trimmed := trimEnd fileContent
        writeFile filePath (trimmed ++ newline :: content ++ [newline])
        pure { inserted := true, usedFallback := true }
      else pure { inserted := false, usedFallback := false }

def insertAfterLastMatch (filePath : JsString) (pattern : Marker) (content : JsString) :
    FileM Bool := do
  let fileContent ← readFile filePath
  let lines := splitLines fileContent
  match lastIndex pattern.test lines with
  | none => pure false
  | some last =>
      let indent := indentOf (lines.getD last [])
      writeFile filePath (joinLines (lines.insertIdx (last + 1) (indented indent content)))
      pure true

def appendToBarrel (filePath exportLine : JsString) : FileM Unit := do
  let fileContent ← readFile filePath
  let trimmed := trimEnd fileContent
  writeFile filePath (trimmed ++ newline :: exportLine ++ [newline])

def importPrefix : JsString := Json.ascii "import "

def insertImports (filePath importLines : JsString) : FileM Unit := do
  let fileContent ← readFile filePath
  let lines := splitLines fileContent
  match lastIndex (fun line => importPrefix.isPrefixOf line) lines with
  | none => writeFile filePath (importLines ++ newline :: fileContent)
  | some last => writeFile filePath (joinLines (lines.insertIdx (last + 1) importLines))

def fileContains (filePath search : JsString) : FileM Bool := do
  let content ← readFile filePath
  pure (includes search content)

end Noddde.Cli
