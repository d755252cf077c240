import Noddde.Cli.AggregateTemplates
/-!
# Commands of an aggregate

Paths are relative to the directory of the aggregate.
-/

namespace Noddde.Cli

open Json (ascii)
open Unicode

variable (U : CharacterData)

def validated (name : JsString) : FileM Unit :=
  match validateName U name with
  | .ok () => pure ()
  | .error message => throw (.invalidName message)

def writeNewFiles (files : List (JsString × JsString)) : FileM Unit :=
  files.forM fun (path, content) => discard (writeFileIfNotExists path content)

def definitionPath (kebabName : JsString) : JsString := kebabName ++ ascii ".ts"

def commandsIndex : JsString := ascii "commands/index.ts"

def decidersIndex : JsString := ascii "deciders/index.ts"

def evolversIndex : JsString := ascii "evolvers/index.ts"

/-- The directory is named after the aggregate, in kebab case. -/
def generateAggregate (name : JsString) : FileM Unit := do
  validated U name
  let ctx := buildContext U name
  writeNewFiles [
    (ascii "index.ts", aggregateIndexTemplate ctx),
    (ascii "state.ts", aggregateStateTemplate ctx),
    (definitionPath ctx.kebabName, aggregateTemplate ctx),
    (commandsIndex, commandsIndexTemplate ctx),
    (ascii "commands/create-" ++ ctx.kebabName ++ ascii ".ts", commandPayloadTemplate ctx),
    (decidersIndex, decidersIndexTemplate ctx),
    (ascii "deciders/decide-create-" ++ ctx.kebabName ++ ascii ".ts", deciderTemplate ctx),
    (evolversIndex, evolversIndexTemplate ctx),
    (ascii "evolvers/evolve-" ++ ctx.kebabName ++ ascii "-created.ts", evolverTemplate ctx)]

/-- `/^\s+\w+: <handler>\w+,$/` -/
def isHandlerEntry (handler line : JsString) : Bool :=
  let key := line.dropWhile isSpace
  let value := key.dropWhile isWord
  let name := value.drop (handler.length + 2)
  line.head?.any isSpace && key.head?.any isWord &&
    (ascii ": " ++ handler).isPrefixOf value && name.head?.any isWord &&
    name.dropWhile isWord == [Json.comma]

def moreCommands : Marker := .text (ascii "// TODO: add more commands")

def moreEvents : Marker := .text (ascii "// TODO: add more events")

/-- What the last message says. -/
inductive AddOutcome where
  | skipped
  | updated
  deriving DecidableEq

def addCommandToAggregate (commandName aggregateDir eventName : JsString) :
    FileM AddOutcome := do
  validated U commandName
  validated U eventName
  let command := buildContext U commandName
  let aggregate := buildContext U aggregateDir
  let eventKebabName := toKebabCase U eventName
  let ctx : AddCommandContext := { aggregate, command, eventName, eventKebabName }
  let aggDefFile := definitionPath aggregate.kebabName
  if ← fileContains aggDefFile (command.name ++ [Json.colon]) then
    pure .skipped
  else
    writeNewFiles [
      (ascii "commands/" ++ command.kebabName ++ ascii ".ts", addCommandPayloadTemplate ctx),
      (ascii "deciders/decide-" ++ command.kebabName ++ ascii ".ts", addDeciderTemplate ctx),
      (ascii "evolvers/evolve-" ++ eventKebabName ++ ascii ".ts", addEvolverTemplate ctx)]
    appendToBarrel commandsIndex (ascii "export type \x7b " ++ command.name ++
      ascii "Payload \x7d from \"./" ++ command.kebabName ++ ascii ".js\";")
    appendToBarrel decidersIndex (ascii "export \x7b decide" ++ command.name ++
      ascii " \x7d from \"./decide-" ++ command.kebabName ++ ascii ".js\";")
    appendToBarrel evolversIndex (ascii "export \x7b evolve" ++ eventName ++
      ascii " \x7d from \"./evolve-" ++ eventKebabName ++ ascii ".js\";")
    insertImports aggDefFile (joinLines [
      ascii "import type \x7b " ++ command.name ++ ascii "Payload \x7d from \"./commands/" ++
        command.kebabName ++ ascii ".js\";",
      ascii "import \x7b decide" ++ command.name ++ ascii " \x7d from \"./deciders/index.js\";",
      ascii "import \x7b evolve" ++ eventName ++ ascii " \x7d from \"./evolvers/index.js\";"])
    discard <| insertBeforeMarker aggDefFile moreCommands
      (ascii "  " ++ command.name ++ ascii ": " ++ command.name ++ ascii "Payload;") false
    discard <| insertBeforeMarker aggDefFile moreEvents
      (ascii "  " ++ eventName ++ ascii ": \x7b id: string \x7d;") false
    discard <| insertAfterLastMatch aggDefFile (.pattern (isHandlerEntry (ascii "decide")))
      (ascii "    " ++ command.name ++ ascii ": decide" ++ command.name ++ ascii ",")
    discard <| insertAfterLastMatch aggDefFile (.pattern (isHandlerEntry (ascii "evolve")))
      (ascii "    " ++ eventName ++ ascii ": evolve" ++ eventName ++ ascii ",")
    pure .updated

end Noddde.Cli
