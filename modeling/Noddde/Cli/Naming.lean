import Noddde.Data.CaseMapping
import Noddde.Data.Words
/-!
# Names on the command line
-/

namespace Noddde.Cli

open Unicode Words

def space : UInt16 := 0x20

def hyphen : UInt16 := 0x2D

/-- `[-_]` -/
def isSeparator (c : UInt16) : Bool := c == hyphen || c == lowLine

/-- `([a-z])([A-Z])` at the start of a text. -/
def camelHump : JsString → Option (JsString × Nat)
  | a :: b :: _ => if isLower a && isUpper b then some ([a, space, b], 2) else none
  | _ => none

/-- `([A-Z][a-z])` at the start of a text, with a space before it. -/
def capitalized : JsString → Option (JsString × Nat)
  | a :: b :: _ => if isUpper a && isLower b then some ([space, a, b], 2) else none
  | _ => none

/-- `([A-Z]+)([A-Z][a-z])` at the start of a text: the first group takes one more letter where
the rest still matches after it. -/
def acronym : JsString → Option (JsString × Nat)
  | [] => none
  | a :: rest =>
      if isUpper a then
        ((acronym rest).or (capitalized rest)).map fun (text, length) => (a :: text, length + 1)
      else none

def splitWords (input : JsString) : List JsString :=
  let text := replaceAll camelHump 0 input
  let text := replaceAll acronym 0 text
  let text := replaceAll (runOf isSeparator [space]) 0 text
  words isSpace (trim isSpace text)

section Conversions

variable (U : CharacterData)

/-- `w.charAt(0).toUpperCase() + w.slice(1).toLowerCase()` -/
def capitalize (w : JsString) : JsString := U.toUpperCase (w.take 1) ++ U.toLowerCase (w.drop 1)

def toPascalCase (input : JsString) : JsString := (splitWords input).flatMap (capitalize U)

def toCamelCase (input : JsString) : JsString :=
  let pascal := toPascalCase U input
  U.toLowerCase (pascal.take 1) ++ pascal.drop 1

def toKebabCase (input : JsString) : JsString :=
  [hyphen].intercalate ((splitWords input).map U.toLowerCase)

def validateName (name : JsString) : Except JsString Unit :=
  let pascal := toPascalCase U name
  if pascal.length = 0 then
    throw (Json.ascii "Invalid name: \"" ++ name ++
      Json.ascii "\" produces an empty identifier.")
  else if ¬ pascal.head?.any isUpper then
    throw (Json.ascii "Invalid name: \"" ++ name ++
      Json.ascii "\" must start with a letter (got \"" ++ pascal ++ Json.ascii "\").")
  else pure ()

structure TemplateContext where
  name : JsString
  camelName : JsString
  kebabName : JsString
  deriving DecidableEq

def buildContext (rawName : JsString) : TemplateContext where
  name := toPascalCase U rawName
  camelName := toCamelCase U rawName
  kebabName := toKebabCase U rawName

/-! ## Modules -/

/-- The directory is relative to that of all aggregates. -/
structure DiscoveredModule where
  name : JsString
  dir : JsString
  deriving DecidableEq

structure DirectoryEntry where
  name : JsString
  isDirectory : Bool
  hasDefinition : Bool

def discoverAggregates (entries : List DirectoryEntry) : List DiscoveredModule :=
  entries.filterMap fun entry =>
    if entry.isDirectory && entry.hasDefinition then
      some { name := toPascalCase U entry.name, dir := entry.name }
    else none

/-- With a name as hint; there is no module without the directory. -/
def resolveAggregateDir (access : JsString → Bool) (nameHint : JsString) :
    Option DiscoveredModule :=
  let kebab := toKebabCase U nameHint
  if access kebab then some { name := toPascalCase U nameHint, dir := kebab } else none

/-! ## Identifiers -/

/-- No identifier is one of these, in any mode of the language. -/
def reservedWords : List JsString :=
  ["break", "case", "catch", "class", "const", "continue", "debugger", "default", "delete", "do",
    "else", "enum", "export", "extends", "false", "finally", "for", "function", "if", "import",
    "in", "instanceof", "new", "null", "return", "super", "switch", "this", "throw", "true",
    "try", "typeof", "var", "void", "while", "with", "implements", "interface", "let", "package",
    "private", "protected", "public", "static", "yield", "await"].map Json.ascii

def isIdentifier (text : JsString) : Bool :=
  U.isIdentifierName text && !reservedWords.contains text

end Conversions

end Noddde.Cli
