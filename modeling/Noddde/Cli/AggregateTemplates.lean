import Noddde.Cli.FileModifier
/-!
# Templates of an aggregate

Each list has the lines of a template literal.
-/

namespace Noddde.Cli

open Json (ascii)

def aggregateTemplate (ctx : TemplateContext) : JsString := joinLines [
    ascii "import \x7b defineAggregate, DefineEvents, DefineCommands, Infrastructure \x7d " ++
      ascii "from \"@noddde/core\";",
    ascii "import type \x7b " ++ ctx.name ++ ascii "State \x7d from \"./state.js\";",
    ascii "import \x7b initial" ++ ctx.name ++ ascii "State \x7d from \"./state.js\";",
    ascii "import type \x7b Create" ++ ctx.name ++
      ascii "Payload \x7d from \"./commands/create-" ++ ctx.kebabName ++ ascii ".js\";",
    ascii "import \x7b decideCreate" ++ ctx.name ++ ascii " \x7d from \"./deciders/index.js\";",
    ascii "import \x7b evolve" ++ ctx.name ++ ascii "Created \x7d from \"./evolvers/index.js\";",
    [],
    ascii "// ── Type unions ─────────────────────────────────────────────────",
    [],
    ascii "export type " ++ ctx.name ++ ascii "Event = DefineEvents<\x7b",
    ascii "  " ++ ctx.name ++ ascii "Created: \x7b id: string \x7d;",
    ascii "  // TODO: add more events",
    ascii "\x7d>;",
    [],
    ascii "export type " ++ ctx.name ++ ascii "Command = DefineCommands<\x7b",
    ascii "  Create" ++ ctx.name ++ ascii ": Create" ++ ctx.name ++ ascii "Payload;",
    ascii "  // TODO: add more commands",
    ascii "\x7d>;",
    [],
    ascii "// ── Types bundle ────────────────────────────────────────────────",
    [],
    ascii "export type " ++ ctx.name ++ ascii "Def = \x7b",
    ascii "  state: " ++ ctx.name ++ ascii "State;",
    ascii "  events: " ++ ctx.name ++ ascii "Event;",
    ascii "  commands: " ++ ctx.name ++ ascii "Command;",
    ascii "  infrastructure: Infrastructure; " ++
      ascii "// TODO: replace with domain-specific infrastructure type",
    ascii "\x7d;",
    [],
    ascii "// ── Aggregate definition ────────────────────────────────────────",
    [],
    ascii "export const " ++ ctx.name ++ ascii " = defineAggregate<" ++ ctx.name ++
      ascii "Def>(\x7b",
    ascii "  initialState: initial" ++ ctx.name ++ ascii "State,",
    [],
    ascii "  decide: \x7b",
    ascii "    Create" ++ ctx.name ++ ascii ": decideCreate" ++ ctx.name ++ ascii ",",
    ascii "  \x7d,",
    [],
    ascii "  evolve: \x7b",
    ascii "    " ++ ctx.name ++ ascii "Created: evolve" ++ ctx.name ++ ascii "Created,",
    ascii "  \x7d,",
    ascii "\x7d);",
    []]

def aggregateIndexTemplate (ctx : TemplateContext) : JsString := joinLines [
    ascii "export \x7b " ++ ctx.name ++ ascii " \x7d from \"./" ++ ctx.kebabName ++
      ascii ".js\";",
    ascii "export type \x7b " ++ ctx.name ++ ascii "State \x7d from \"./state.js\";",
    ascii "export \x7b initial" ++ ctx.name ++ ascii "State \x7d from \"./state.js\";",
    ascii "export type \x7b " ++ ctx.name ++ ascii "Event \x7d from \"./" ++ ctx.kebabName ++
      ascii ".js\";",
    ascii "export type \x7b " ++ ctx.name ++ ascii "Command \x7d from \"./" ++ ctx.kebabName ++
      ascii ".js\";",
    []]

def aggregateStateTemplate (ctx : TemplateContext) : JsString := joinLines [
    ascii "/** The state of the " ++ ctx.name ++ ascii " aggregate. */",
    ascii "export interface " ++ ctx.name ++ ascii "State \x7b",
    ascii "  // TODO: define aggregate state",
    ascii "\x7d",
    [],
    ascii "/** Initial state for a new " ++ ctx.name ++ ascii " aggregate instance. */",
    ascii "export const initial" ++ ctx.name ++ ascii "State: " ++ ctx.name ++
      ascii "State = \x7b",
    ascii "  // TODO: set initial values",
    ascii "\x7d;",
    []]

def commandsIndexTemplate (ctx : TemplateContext) : JsString := joinLines [
    ascii "export type \x7b Create" ++ ctx.name ++ ascii "Payload \x7d from \"./create-" ++
      ctx.kebabName ++ ascii ".js\";",
    []]

def commandPayloadTemplate (ctx : TemplateContext) : JsString := joinLines [
    ascii "/** Payload for the Create" ++ ctx.name ++ ascii " command. */",
    ascii "export interface Create" ++ ctx.name ++ ascii "Payload \x7b",
    ascii "  // TODO: add command payload fields",
    ascii "\x7d",
    []]

def decidersIndexTemplate (ctx : TemplateContext) : JsString := joinLines [
    ascii "export \x7b decideCreate" ++ ctx.name ++ ascii " \x7d from \"./decide-create-" ++
      ctx.kebabName ++ ascii ".js\";",
    []]

def deciderTemplate (ctx : TemplateContext) : JsString := joinLines [
    ascii "import type \x7b InferDecideHandler \x7d from \"@noddde/core\";",
    ascii "import type \x7b " ++ ctx.name ++ ascii "Def \x7d from \"../" ++ ctx.kebabName ++
      ascii ".js\";",
    [],
    ascii "/** Decides the Create" ++ ctx.name ++ ascii " command. */",
    ascii "export const decideCreate" ++ ctx.name ++ ascii ": InferDecideHandler<" ++ ctx.name ++
      ascii "Def, \"Create" ++ ctx.name ++ ascii "\"> = (command, _state) => (\x7b",
    ascii "  name: \"" ++ ctx.name ++ ascii "Created\" as const,",
    ascii "  payload: \x7b",
    ascii "    id: command.targetAggregateId,",
    ascii "  \x7d,",
    ascii "\x7d);",
    []]

def evolversIndexTemplate (ctx : TemplateContext) : JsString := joinLines [
    ascii "export \x7b evolve" ++ ctx.name ++ ascii "Created \x7d from \"./evolve-" ++
      ctx.kebabName ++ ascii "-created.js\";",
    []]

def evolverTemplate (ctx : TemplateContext) : JsString := joinLines [
    ascii "import type \x7b InferEvolveHandler \x7d from \"@noddde/core\";",
    ascii "import type \x7b " ++ ctx.name ++ ascii "Def \x7d from \"../" ++ ctx.kebabName ++
      ascii ".js\";",
    [],
    ascii "/** Evolves state for " ++ ctx.name ++ ascii "Created. */",
    ascii "export const evolve" ++ ctx.name ++ ascii "Created: InferEvolveHandler<" ++ ctx.name ++
      ascii "Def, \"" ++ ctx.name ++ ascii "Created\"> = (payload, state) => (\x7b",
    ascii "  ...state,",
    ascii "  id: payload.id,",
    ascii "  // TODO: evolve state from event payload",
    ascii "\x7d);",
    []]

/-! ## Of an added command -/

structure AddCommandContext where
  aggregate : TemplateContext
  command : TemplateContext
  eventName : JsString
  eventKebabName : JsString

def addCommandPayloadTemplate (ctx : AddCommandContext) : JsString := joinLines [
    ascii "/** Payload for the " ++ ctx.command.name ++ ascii " command. */",
    ascii "export interface " ++ ctx.command.name ++ ascii "Payload \x7b",
    ascii "  // TODO: add command payload fields",
    ascii "\x7d",
    []]

def addDeciderTemplate (ctx : AddCommandContext) : JsString := joinLines [
    ascii "import type \x7b InferDecideHandler \x7d from \"@noddde/core\";",
    ascii "import type \x7b " ++ ctx.aggregate.name ++ ascii "Def \x7d from \"../" ++
      ctx.aggregate.kebabName ++ ascii ".js\";",
    [],
    ascii "/** Decides the " ++ ctx.command.name ++ ascii " command. */",
    ascii "export const decide" ++ ctx.command.name ++ ascii ": InferDecideHandler<" ++
      ctx.aggregate.name ++ ascii "Def, \"" ++ ctx.command.name ++
      ascii "\"> = (command, _state) => (\x7b",
    ascii "  name: \"" ++ ctx.eventName ++ ascii "\" as const,",
    ascii "  payload: \x7b",
    ascii "    id: command.targetAggregateId,",
    ascii "    // TODO: map command payload to event payload",
    ascii "  \x7d,",
    ascii "\x7d);",
    []]

def addEvolverTemplate (ctx : AddCommandContext) : JsString := joinLines [
    ascii "import type \x7b InferEvolveHandler \x7d from \"@noddde/core\";",
    ascii "import type \x7b " ++ ctx.aggregate.name ++ ascii "Def \x7d from \"../" ++
      ctx.aggregate.kebabName ++ ascii ".js\";",
    [],
    ascii "/** Evolves state for " ++ ctx.eventName ++ ascii ". */",
    ascii "export const evolve" ++ ctx.eventName ++ ascii ": InferEvolveHandler<" ++
      ctx.aggregate.name ++ ascii "Def, \"" ++ ctx.eventName ++
      ascii "\"> = (_payload, state) => (\x7b",
    ascii "  ...state,",
    ascii "  // TODO: evolve state from event payload",
    ascii "\x7d);",
    []]

end Noddde.Cli
