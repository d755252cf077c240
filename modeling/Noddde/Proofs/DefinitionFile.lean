import Noddde.Proofs.FileEdits
/-!
# The definition file of an aggregate

What stands in it, and where entries are inserted.
-/

namespace Noddde.Cli

open Json (ascii)
open Unicode Words Lines

/-! ## What stands in the file -/

/-- The entries of the blocks and the imports after those of the template. -/
structure Definition where
  imports : List JsString
  events : List JsString
  commands : List JsString
  decide : List JsString
  evolve : List JsString

def eventEntry (event : JsString) : JsString :=
  ascii "  " ++ event ++ ascii ": \x7b id: string \x7d;"

def commandEntry (command : JsString) : JsString :=
  ascii "  " ++ command ++ ascii ": " ++ command ++ ascii "Payload;"

def handlerEntry (handler name : JsString) : JsString :=
  ascii "    " ++ name ++ ascii ": " ++ handler ++ name ++ ascii ","

def templateImports (ctx : TemplateContext) : List JsString := [
    ascii "import \x7b defineAggregate, DefineEvents, DefineCommands, Infrastructure \x7d " ++
      ascii "from \"@noddde/core\";",
    ascii "import type \x7b " ++ ctx.name ++ ascii "State \x7d from \"./state.js\";",
    ascii "import \x7b initial" ++ ctx.name ++ ascii "State \x7d from \"./state.js\";",
    ascii "import type \x7b Create" ++ ctx.name ++
      ascii "Payload \x7d from \"./commands/create-" ++ ctx.kebabName ++ ascii ".js\";",
    ascii "import \x7b decideCreate" ++ ctx.name ++ ascii " \x7d from \"./deciders/index.js\";"]

def lastImport (ctx : TemplateContext) : JsString :=
  ascii "import \x7b evolve" ++ ctx.name ++ ascii "Created \x7d from \"./evolvers/index.js\";"

def beforeEvents : List JsString := [
    [],
    ascii "// ── Type unions ─────────────────────────────────────────────────",
    []]

def eventsOpening (name : JsString) : JsString :=
  ascii "export type " ++ name ++ ascii "Event = DefineEvents<\x7b"

def typeClosing : JsString := ascii "\x7d>;"

def handlersClosing : JsString := ascii "  \x7d,"

def moreEventsLine : JsString := ascii "  // TODO: add more events"

def commandsOpening (name : JsString) : JsString :=
  ascii "export type " ++ name ++ ascii "Command = DefineCommands<\x7b"

def moreCommandsLine : JsString := ascii "  // TODO: add more commands"

def beforeDecide (name : JsString) : List JsString := [
    [],
    ascii "// ── Types bundle ────────────────────────────────────────────────",
    [],
    ascii "export type " ++ name ++ ascii "Def = \x7b",
    ascii "  state: " ++ name ++ ascii "State;",
    ascii "  events: " ++ name ++ ascii "Event;",
    ascii "  commands: " ++ name ++ ascii "Command;",
    ascii "  infrastructure: Infrastructure; " ++
      ascii "// TODO: replace with domain-specific infrastructure type",
    ascii "\x7d;",
    [],
    ascii "// ── Aggregate definition ────────────────────────────────────────",
    [],
    ascii "export const " ++ name ++ ascii " = defineAggregate<" ++ name ++ ascii "Def>(\x7b",
    ascii "  initialState: initial" ++ name ++ ascii "State,",
    []]

def decideOpening : JsString := ascii "  decide: \x7b"

def evolveOpening : JsString := ascii "  evolve: \x7b"

def ending : List JsString := [ascii "\x7d);", []]

namespace Definition

variable (ctx : TemplateContext) (d : Definition)

def importLines : List JsString := templateImports ctx ++ lastImport ctx :: d.imports

def fromEvolve : List JsString :=
  d.evolve.map (handlerEntry (ascii "evolve")) ++ handlersClosing :: ending

def fromDecide : List JsString :=
  d.decide.map (handlerEntry (ascii "decide")) ++
    handlersClosing :: [] :: evolveOpening :: d.fromEvolve

def fromCommands : List JsString :=
  d.commands.map commandEntry ++
    moreCommandsLine :: typeClosing :: (beforeDecide ctx.name ++ decideOpening :: d.fromDecide)

def fromEvents : List JsString :=
  d.events.map eventEntry ++
    moreEventsLine :: typeClosing :: [] :: commandsOpening ctx.name :: d.fromCommands ctx

def lines : List JsString :=
  d.importLines ctx ++ (beforeEvents ++ eventsOpening ctx.name :: d.fromEvents ctx)

end Definition

def createdEvent (name : JsString) : JsString := name ++ ascii "Created"

def createCommand (name : JsString) : JsString := ascii "Create" ++ name

def generated (name : JsString) : Definition where
  imports := []
  events := [createdEvent name]
  commands := [createCommand name]
  decide := [createCommand name]
  evolve := [createdEvent name]

theorem eventEntry_created (name : JsString) : eventEntry (createdEvent name) =
    ascii "  " ++ name ++ ascii "Created: \x7b id: string \x7d;" := by
  have hsuffix : ascii "Created: \x7b id: string \x7d;" =
      ascii "Created" ++ ascii ": \x7b id: string \x7d;" := rfl
  rw [eventEntry, createdEvent, hsuffix]
  simp only [List.append_assoc]

theorem commandEntry_create (name : JsString) : commandEntry (createCommand name) =
    ascii "  Create" ++ name ++ ascii ": Create" ++ name ++ ascii "Payload;" := by
  have hfirst : ascii "  Create" = ascii "  " ++ ascii "Create" := rfl
  have hsecond : ascii ": Create" = ascii ": " ++ ascii "Create" := rfl
  rw [commandEntry, createCommand, hfirst, hsecond]
  simp only [List.append_assoc]

theorem decideEntry_create (name : JsString) :
    handlerEntry (ascii "decide") (createCommand name) =
      ascii "    Create" ++ name ++ ascii ": decideCreate" ++ name ++ ascii "," := by
  have hfirst : ascii "    Create" = ascii "    " ++ ascii "Create" := rfl
  have hsecond : ascii ": decideCreate" = ascii ": " ++ (ascii "decide" ++ ascii "Create") := rfl
  rw [handlerEntry, createCommand, hfirst, hsecond]
  simp only [List.append_assoc]

theorem evolveEntry_created (name : JsString) :
    handlerEntry (ascii "evolve") (createdEvent name) =
      ascii "    " ++ name ++ ascii "Created: evolve" ++ name ++ ascii "Created," := by
  have hfirst : ascii "Created: evolve" = ascii "Created" ++ (ascii ": " ++ ascii "evolve") := rfl
  have hsecond : ascii "Created," = ascii "Created" ++ ascii "," := rfl
  rw [handlerEntry, createdEvent, hfirst, hsecond]
  simp only [List.append_assoc]

theorem aggregateTemplate_eq (ctx : TemplateContext) :
    aggregateTemplate ctx = joinLines ((generated ctx.name).lines ctx) := by
  simp only [generated, Definition.lines, Definition.importLines, Definition.fromEvents,
    Definition.fromCommands, Definition.fromDecide, Definition.fromEvolve, List.map_cons,
    List.map_nil, eventEntry_created, commandEntry_create, decideEntry_create, evolveEntry_created]
  rfl

/-! ## Well-formed files -/

structure IsImport (line : JsString) : Prop where
  isPrefix : importPrefix.isPrefixOf line = true
  newline : newline ∉ line
  colon : Json.colon ∉ line
  getLast : line.getLast? = some 0x3B

structure Definition.Proper (U : CharacterData) (ctx : TemplateContext) (d : Definition) :
    Prop where
  name : U.isIdentifierName ctx.name = true
  kebab : newline ∉ ctx.kebabName ∧ Json.colon ∉ ctx.kebabName
  imports : ∀ line ∈ d.imports, IsImport line
  events : ∀ event ∈ d.events, U.isIdentifierName event = true
  commands : ∀ command ∈ d.commands, U.isIdentifierName command = true
  decide : ∀ command ∈ d.decide, U.isIdentifierName command = true
  evolve : ∀ event ∈ d.evolve, U.isIdentifierName event = true

/-! ### Headings -/

/-- The units of a literal are those of its characters. -/
theorem ascii_ofList (P : JsString → Prop) (l : List Char)
    (h : P (l.map fun c => c.toNat.toUInt16)) : P (ascii (String.ofList l)) := by
  rwa [ascii, String.toList_ofList]

structure IsHeading (line : JsString) : Prop where
  head : line.head? = some Json.solidus
  last : line.getLast? = some 0x2500
  newline : newline ∉ line
  colon : Json.colon ∉ line

set_option maxRecDepth 4000 in
theorem isHeading_typeUnions :
    IsHeading (ascii "// ── Type unions ─────────────────────────────────────────────────") :=
  ascii_ofList IsHeading _ ⟨rfl, by decide +kernel, by decide +kernel, by decide +kernel⟩

set_option maxRecDepth 4000 in
theorem isHeading_typesBundle :
    IsHeading (ascii "// ── Types bundle ────────────────────────────────────────────────") :=
  ascii_ofList IsHeading _ ⟨rfl, by decide +kernel, by decide +kernel, by decide +kernel⟩

set_option maxRecDepth 4000 in
theorem isHeading_definition :
    IsHeading (ascii "// ── Aggregate definition ────────────────────────────────────────") :=
  ascii_ofList IsHeading _ ⟨rfl, by decide +kernel, by decide +kernel, by decide +kernel⟩

theorem IsHeading.not_import {line : JsString} (h : IsHeading line) :
    importPrefix.isPrefixOf line = false := by
  obtain ⟨rest, rfl⟩ := List.head?_eq_some_iff.mp h.head
  rfl

section Lines

variable {U : CharacterData} {ctx : TemplateContext} {d : Definition} {name line : JsString}
  {c : UInt16}

theorem not_mem_eventEntry (hname : U.isIdentifierName name = true) (hc : isMark c = true)
    (h : c ∉ eventEntry []) : c ∉ eventEntry name := by
  have hnot := U.not_mem_of_isIdentifierName hname hc
  simpa [eventEntry, hnot] using h

theorem not_mem_commandEntry (hname : U.isIdentifierName name = true) (hc : isMark c = true)
    (h : c ∉ commandEntry []) : c ∉ commandEntry name := by
  have hnot := U.not_mem_of_isIdentifierName hname hc
  simpa [commandEntry, hnot] using h

theorem not_mem_handlerEntry {handler : JsString} (hname : U.isIdentifierName name = true)
    (hc : isMark c = true) (h : c ∉ handlerEntry handler []) : c ∉ handlerEntry handler name := by
  have hnot := U.not_mem_of_isIdentifierName hname hc
  simpa [handlerEntry, hnot] using h

/-! ### Indentation -/

theorem isSpace_head {a : UInt16} {rest : JsString} (h : U.isIdentifierName (a :: rest) = true) :
    isSpace a = false := by
  cases ha : isSpace a with
  | false => rfl
  | true =>
    have hmark : isMark a = true := by simp [isMark, ha]
    exact absurd List.mem_cons_self (U.not_mem_of_isIdentifierName h hmark)

theorem indentOf_append {indent rest : JsString} (hindent : ∀ c ∈ indent, isSpace c = true)
    (hname : U.isIdentifierName name = true) : indentOf (indent ++ (name ++ rest)) = indent := by
  obtain ⟨a, tail, rfl⟩ := List.exists_cons_of_ne_nil (U.ne_nil_of_isIdentifierName hname)
  rw [indentOf, List.takeWhile_append_of_pos hindent, List.cons_append,
    List.takeWhile_cons_of_neg (by simp [isSpace_head hname]), List.append_nil]

theorem indentOf_eventEntry (hname : U.isIdentifierName name = true) :
    indentOf (eventEntry name) = ascii "  " := by
  rw [eventEntry, List.append_assoc]
  exact indentOf_append (List.all_eq_true.mp rfl) hname

theorem indentOf_commandEntry (hname : U.isIdentifierName name = true) :
    indentOf (commandEntry name) = ascii "  " := by
  simp only [commandEntry, List.append_assoc]
  exact indentOf_append (List.all_eq_true.mp rfl) hname

theorem indentOf_handlerEntry (handler : JsString) (hname : U.isIdentifierName name = true) :
    indentOf (handlerEntry handler name) = ascii "    " := by
  simp only [handlerEntry, List.append_assoc]
  exact indentOf_append (List.all_eq_true.mp rfl) hname

/-! ### Handlers -/

theorem handlerEntry_eq (handler name : JsString) : handlerEntry handler name =
    ascii "    " ++ (name ++ (ascii ": " ++ (handler ++ (name ++ ascii ",")))) := by
  simp only [handlerEntry, List.append_assoc]

theorem isHandlerEntry_handlerEntry (handler : JsString) (hne : name ≠ [])
    (hword : ∀ c ∈ name, isWord c = true) :
    isHandlerEntry handler (handlerEntry handler name) = true := by
  obtain ⟨a, tail, rfl⟩ := List.exists_cons_of_ne_nil hne
  have ha : isWord a = true := hword a List.mem_cons_self
  have hkey : (handlerEntry handler (a :: tail)).dropWhile isSpace =
      a :: tail ++ (ascii ": " ++ (handler ++ (a :: tail ++ ascii ","))) := by
    rw [handlerEntry_eq, List.dropWhile_append_of_pos (List.all_eq_true.mp rfl)]
    exact List.dropWhile_cons_of_neg (by simp [isSpace_of_isWord ha])
  have hvalue : (a :: tail ++ (ascii ": " ++ (handler ++ (a :: tail ++ ascii ",")))).dropWhile
      isWord = (ascii ": " ++ handler) ++ (a :: tail ++ ascii ",") := by
    rw [List.dropWhile_append_of_pos hword, List.append_assoc]
    rfl
  have hname : ((ascii ": " ++ handler) ++ (a :: tail ++ ascii ",")).drop (handler.length + 2) =
      a :: tail ++ ascii "," :=
    List.drop_left' (by rw [List.length_append, Nat.add_comm]; rfl)
  have hend : (a :: tail ++ ascii ",").dropWhile isWord = [Json.comma] := by
    rw [List.dropWhile_append_of_pos hword]
    rfl
  have hprefix : (ascii ": " ++ handler).isPrefixOf
      ((ascii ": " ++ handler) ++ (a :: tail ++ ascii ",")) = true :=
    List.isPrefixOf_iff_prefix.mpr (List.prefix_append _ _)
  have hfirst : (handlerEntry handler (a :: tail)).head?.any isSpace = true := rfl
  simp only [isHandlerEntry, hkey, hvalue, hname, hend, hprefix, hfirst]
  simp [ha]

/-- Neither white space nor a word has a colon. -/
theorem prefix_of_isHandlerEntry {handler : JsString} (h : isHandlerEntry handler line = true) :
    (ascii ": " ++ handler).isPrefixOf (line.dropWhile fun c => c != Json.colon) = true := by
  simp only [isHandlerEntry, Bool.and_eq_true] at h
  have hvalue := h.1.1.2
  have hspace : ∀ c ∈ line.takeWhile isSpace, (c != Json.colon) = true := fun c hc => by
    refine bne_iff_ne.mpr ?_
    rintro rfl
    cases List.mem_takeWhile_imp hc
  have hword : ∀ c ∈ (line.dropWhile isSpace).takeWhile isWord, (c != Json.colon) = true :=
    fun c hc => by
      refine bne_iff_ne.mpr ?_
      rintro rfl
      cases List.mem_takeWhile_imp hc
  obtain ⟨rest, hrest⟩ := List.isPrefixOf_iff_prefix.mp hvalue
  rw [← List.takeWhile_append_dropWhile (p := isSpace) (l := line),
    List.dropWhile_append_of_pos hspace,
    ← List.takeWhile_append_dropWhile (p := isWord) (l := line.dropWhile isSpace),
    List.dropWhile_append_of_pos hword, ← hrest]
  exact List.isPrefixOf_iff_prefix.mpr (List.prefix_append _ _)

theorem not_isHandlerEntry {handler other : JsString} (hname : U.isIdentifierName name = true)
    (h : (ascii ": " ++ handler).isPrefixOf (ascii ": " ++ (other ++ (name ++ ascii ","))) =
      false) : isHandlerEntry handler (handlerEntry other name) = false := by
  have hnot := U.not_mem_of_isIdentifierName hname (show isMark Json.colon = true from rfl)
  by_contra hentry
  have hprefix := prefix_of_isHandlerEntry (eq_true_of_ne_false hentry)
  have hcolon : ∀ c ∈ name, (c != Json.colon) = true := fun c hc =>
    bne_iff_ne.mpr fun heq => hnot (heq ▸ hc)
  rw [handlerEntry_eq, List.dropWhile_append_of_pos (List.all_eq_true.mp rfl),
    List.dropWhile_append_of_pos hcolon] at hprefix
  exact Bool.false_ne_true (h.symm.trans hprefix)

namespace Definition.Proper

theorem newline_importLines (h : d.Proper U ctx) : ∀ line ∈ d.importLines ctx, newline ∉ line := by
  have hname := U.not_mem_of_isIdentifierName h.name (show isMark newline = true from rfl)
  have hkebab := h.kebab.1
  refine List.forall_mem_append.mpr ⟨?_, List.forall_mem_cons.mpr ⟨?_, ?_⟩⟩
  · simp only [templateImports, List.forall_mem_cons, List.mem_append, hname, hkebab, or_false]
    decide
  · simp only [lastImport, List.mem_append, hname, or_false]
    decide
  · exact fun line hline => (h.imports line hline).newline

theorem newline_lines (h : d.Proper U ctx) : ∀ line ∈ d.lines ctx, newline ∉ line := by
  have hmark : isMark newline = true := rfl
  have hname := U.not_mem_of_isIdentifierName h.name hmark
  have hevents : ∀ event ∈ d.events, newline ∉ eventEntry event := fun event he =>
    not_mem_eventEntry (h.events event he) hmark (by decide)
  have hcommands : ∀ command ∈ d.commands, newline ∉ commandEntry command := fun command hc =>
    not_mem_commandEntry (h.commands command hc) hmark (by decide)
  have hdecide : ∀ command ∈ d.decide, newline ∉ handlerEntry (ascii "decide") command :=
    fun command hc => not_mem_handlerEntry (h.decide command hc) hmark (by decide)
  have hevolve : ∀ event ∈ d.evolve, newline ∉ handlerEntry (ascii "evolve") event :=
    fun event he => not_mem_handlerEntry (h.evolve event he) hmark (by decide)
  have hopening : newline ∉ eventsOpening ctx.name := by
    simp only [eventsOpening, List.mem_append, hname, or_false]
    decide
  have hopening' : newline ∉ commandsOpening ctx.name := by
    simp only [commandsOpening, List.mem_append, hname, or_false]
    decide
  have hbefore : ∀ line ∈ beforeEvents, newline ∉ line := by
    simp only [beforeEvents, List.forall_mem_cons]
    exact ⟨List.not_mem_nil, isHeading_typeUnions.newline, List.not_mem_nil, List.forall_mem_nil _⟩
  have hmiddle : ∀ line ∈ beforeDecide ctx.name, newline ∉ line := by
    have htypes := isHeading_typesBundle.newline
    have hdefinition := isHeading_definition.newline
    simp only [beforeDecide, List.forall_mem_cons, List.mem_append, hname, htypes, hdefinition,
      or_false]
    and_intros <;> decide +kernel
  simp only [lines, fromEvents, fromCommands, fromDecide, fromEvolve, List.forall_mem_append,
    List.forall_mem_cons, List.forall_mem_map]
  refine ⟨h.newline_importLines, hbefore, hopening, hevents, by decide, by decide, by decide,
    hopening', hcommands, by decide, by decide, hmiddle, by decide, hdecide, by decide, by decide,
    by decide, hevolve, by decide, by decide⟩

/-! ### Where entries are inserted -/

theorem isImport_importLines (d : Definition) (himports : ∀ line ∈ d.imports, IsImport line) :
    ∀ line ∈ d.importLines ctx, importPrefix.isPrefixOf line = true := by
  refine List.forall_mem_append.mpr ⟨?_, List.forall_mem_cons.mpr ⟨rfl, ?_⟩⟩
  · simp only [templateImports, List.forall_mem_cons]
    exact ⟨rfl, rfl, rfl, rfl, rfl, List.forall_mem_nil _⟩
  · exact fun line hline => (himports line hline).isPrefix

theorem not_isImport (d : Definition) :
    ∀ line ∈ beforeEvents ++ eventsOpening ctx.name :: d.fromEvents ctx,
      importPrefix.isPrefixOf line = false := by
  have hmiddle : ∀ line ∈ beforeDecide ctx.name, importPrefix.isPrefixOf line = false := by
    simp only [beforeDecide, List.forall_mem_cons]
    exact ⟨rfl, isHeading_typesBundle.not_import, rfl, rfl, rfl, rfl, rfl, by decide +kernel, rfl,
      rfl, isHeading_definition.not_import, rfl, rfl, rfl, rfl, List.forall_mem_nil _⟩
  simp only [fromEvents, fromCommands, fromDecide, fromEvolve, List.forall_mem_append,
    List.forall_mem_cons, List.forall_mem_map]
  have hbefore : ∀ line ∈ beforeEvents, importPrefix.isPrefixOf line = false := by
    simp only [beforeEvents, List.forall_mem_cons]
    exact ⟨rfl, isHeading_typeUnions.not_import, rfl, List.forall_mem_nil _⟩
  exact ⟨hbefore, rfl, fun _ _ => rfl, rfl, rfl, rfl, rfl, fun _ _ => rfl, rfl, rfl,
    hmiddle, rfl, fun _ _ => rfl, rfl, rfl, rfl, fun _ _ => rfl, rfl, by decide⟩

theorem colon_importLines (h : d.Proper U ctx) : ∀ line ∈ d.importLines ctx, Json.colon ∉ line := by
  have hname := U.not_mem_of_isIdentifierName h.name (show isMark Json.colon = true from rfl)
  have hkebab := h.kebab.2
  refine List.forall_mem_append.mpr ⟨?_, List.forall_mem_cons.mpr ⟨?_, ?_⟩⟩
  · simp only [templateImports, List.forall_mem_cons, List.mem_append, hname, hkebab, or_false]
    decide +kernel
  · simp only [lastImport, List.mem_append, hname, or_false]
    decide
  · exact fun line hline => (h.imports line hline).colon

/-- No marker stands before the entries of the events. -/
theorem not_marker_before {search : JsString} (h : d.Proper U ctx) (hcolon : Json.colon ∈ search) :
    ∀ line ∈ d.importLines ctx ++ (beforeEvents ++ [eventsOpening ctx.name]),
      includes search line = false := by
  have hname := U.not_mem_of_isIdentifierName h.name (show isMark Json.colon = true from rfl)
  have hbefore : ∀ line ∈ beforeEvents, Json.colon ∉ line := by
    simp only [beforeEvents, List.forall_mem_cons]
    exact ⟨List.not_mem_nil, isHeading_typeUnions.colon, List.not_mem_nil, List.forall_mem_nil _⟩
  refine List.forall_mem_append.mpr ⟨?_, List.forall_mem_append.mpr ⟨?_, ?_⟩⟩
  · exact fun line hline => includes_eq_false hcolon (h.colon_importLines line hline)
  · exact fun line hline => includes_eq_false hcolon (hbefore line hline)
  · refine List.forall_mem_singleton.mpr (includes_eq_false hcolon ?_)
    simp only [eventsOpening, List.mem_append, hname, or_false]
    decide

theorem not_marker_events {search : JsString} (h : d.Proper U ctx)
    (hsolidus : Json.solidus ∈ search) :
    ∀ line ∈ d.events.map eventEntry, includes search line = false := by
  refine List.forall_mem_map.mpr fun event he => includes_eq_false hsolidus ?_
  exact not_mem_eventEntry (h.events event he) rfl (by decide)

theorem not_marker_commands {search : JsString} (h : d.Proper U ctx)
    (hsolidus : Json.solidus ∈ search) :
    ∀ line ∈ d.commands.map commandEntry, includes search line = false := by
  refine List.forall_mem_map.mpr fun command hc => includes_eq_false hsolidus ?_
  exact not_mem_commandEntry (h.commands command hc) rfl (by decide)

/-! ### Insertions -/

variable {files : Files} {command event : JsString}

theorem exec_insertImports (h : d.Proper U ctx)
    (hfile : files (definitionPath ctx.kebabName) = some (joinLines (d.lines ctx)))
    {new : List JsString} (hnew : new ≠ []) :
    (insertImports (definitionPath ctx.kebabName) (joinLines new)).exec files =
      (.ok (), Function.update files (definitionPath ctx.kebabName)
        (some (joinLines ({ d with imports := d.imports ++ new }.lines ctx)))) := by
  obtain ⟨front, m, hm⟩ : ∃ front m, d.importLines ctx = front ++ [m] := by
    have hne : d.importLines ctx ≠ [] := by simp [importLines]
    exact ⟨_, _, (List.dropLast_append_getLast hne).symm⟩
  have hmatch : importPrefix.isPrefixOf m = true := by
    refine @isImport_importLines ctx d h.imports m ?_
    rw [hm]
    exact List.mem_append_right front (List.mem_singleton_self m)
  have hlines : d.lines ctx = front ++ m :: (beforeEvents ++
      eventsOpening ctx.name :: d.fromEvents ctx) := by
    rw [lines, hm]
    simp
  have hnew' : { d with imports := d.imports ++ new }.lines ctx = front ++ m :: (new ++
      (beforeEvents ++ eventsOpening ctx.name :: d.fromEvents ctx)) := by
    have himports : { d with imports := d.imports ++ new }.importLines ctx =
        d.importLines ctx ++ new := by
      simp [importLines]
    rw [lines, himports, hm]
    simp [fromEvents, fromCommands, fromDecide, fromEvolve]
  rw [hlines] at hfile
  rw [hnew']
  exact FileM.exec_insertImports hfile (hlines ▸ h.newline_lines) hmatch (not_isImport d) hnew

theorem exec_insertCommand (h : d.Proper U ctx)
    (hfile : files (definitionPath ctx.kebabName) = some (joinLines (d.lines ctx)))
    (hname : U.isIdentifierName command = true) :
    (insertBeforeMarker (definitionPath ctx.kebabName) moreCommands (commandEntry command)
        false).exec files =
      (.ok { inserted := true, usedFallback := false },
        Function.update files (definitionPath ctx.kebabName)
          (some (joinLines ({ d with commands := d.commands ++ [command] }.lines ctx)))) := by
  have hcolon : Json.colon ∈ ascii "// TODO: add more commands" := by decide
  have hsolidus : Json.solidus ∈ ascii "// TODO: add more commands" := by decide
  have hopening : includes (ascii "// TODO: add more commands") (commandsOpening ctx.name) =
      false := by
    refine includes_eq_false hcolon ?_
    simp only [commandsOpening, List.mem_append, or_false,
      U.not_mem_of_isIdentifierName h.name (show isMark Json.colon = true from rfl)]
    decide
  have hbefore : ∀ line ∈ d.importLines ctx ++ (beforeEvents ++ [eventsOpening ctx.name]) ++
      (d.events.map eventEntry ++ [moreEventsLine, typeClosing, [], commandsOpening ctx.name] ++
        d.commands.map commandEntry), moreCommands.test line = false := by
    refine List.forall_mem_append.mpr ⟨h.not_marker_before hcolon, List.forall_mem_append.mpr
      ⟨List.forall_mem_append.mpr ⟨h.not_marker_events hsolidus, ?_⟩,
        h.not_marker_commands hsolidus⟩⟩
    simp only [List.forall_mem_cons]
    exact ⟨by decide +kernel, by decide +kernel, by decide +kernel, hopening, List.forall_mem_nil _⟩
  have hlines : d.lines ctx = d.importLines ctx ++ (beforeEvents ++ [eventsOpening ctx.name]) ++
      (d.events.map eventEntry ++ [moreEventsLine, typeClosing, [], commandsOpening ctx.name] ++
        d.commands.map commandEntry) ++ moreCommandsLine ::
      (typeClosing :: (beforeDecide ctx.name ++ decideOpening :: d.fromDecide)) := by
    simp [lines, fromEvents, fromCommands]
  have hnew : { d with commands := d.commands ++ [command] }.lines ctx =
      d.importLines ctx ++ (beforeEvents ++ [eventsOpening ctx.name]) ++
      (d.events.map eventEntry ++ [moreEventsLine, typeClosing, [], commandsOpening ctx.name] ++
        d.commands.map commandEntry) ++ commandEntry command :: moreCommandsLine ::
      (typeClosing :: (beforeDecide ctx.name ++ decideOpening :: d.fromDecide)) := by
    simp [lines, importLines, fromEvents, fromCommands, fromDecide, fromEvolve]
  have hcontent : newline ∉ commandEntry command := not_mem_commandEntry hname rfl (by decide)
  have hentry : Json.colon ∈ commandEntry command := by simp [commandEntry, ascii, Json.colon]
  rw [hlines] at hfile
  rw [hnew]
  exact FileM.exec_insertBeforeMarker hfile (hlines ▸ h.newline_lines) hbefore
    (by decide +kernel) hcontent hentry rfl (indentOf_commandEntry hname)

theorem exec_insertEvent (h : d.Proper U ctx)
    (hfile : files (definitionPath ctx.kebabName) = some (joinLines (d.lines ctx)))
    (hname : U.isIdentifierName event = true) :
    (insertBeforeMarker (definitionPath ctx.kebabName) moreEvents (eventEntry event) false).exec
        files =
      (.ok { inserted := true, usedFallback := false },
        Function.update files (definitionPath ctx.kebabName)
          (some (joinLines ({ d with events := d.events ++ [event] }.lines ctx)))) := by
  have hcolon : Json.colon ∈ ascii "// TODO: add more events" := by decide
  have hsolidus : Json.solidus ∈ ascii "// TODO: add more events" := by decide
  have hbefore : ∀ line ∈ d.importLines ctx ++ (beforeEvents ++ [eventsOpening ctx.name]) ++
      d.events.map eventEntry, moreEvents.test line = false :=
    List.forall_mem_append.mpr ⟨h.not_marker_before hcolon, h.not_marker_events hsolidus⟩
  have hlines : d.lines ctx = d.importLines ctx ++ (beforeEvents ++ [eventsOpening ctx.name]) ++
      d.events.map eventEntry ++ moreEventsLine ::
      (typeClosing :: [] :: commandsOpening ctx.name :: d.fromCommands ctx) := by
    simp [lines, fromEvents]
  have hnew : { d with events := d.events ++ [event] }.lines ctx =
      d.importLines ctx ++ (beforeEvents ++ [eventsOpening ctx.name]) ++
      d.events.map eventEntry ++ eventEntry event :: moreEventsLine ::
      (typeClosing :: [] :: commandsOpening ctx.name :: d.fromCommands ctx) := by
    simp [lines, importLines, fromEvents, fromCommands, fromDecide, fromEvolve]
  have hcontent : newline ∉ eventEntry event := not_mem_eventEntry hname rfl (by decide)
  have hentry : Json.colon ∈ eventEntry event := by simp [eventEntry, ascii, Json.colon]
  rw [hlines] at hfile
  rw [hnew]
  exact FileM.exec_insertBeforeMarker hfile (hlines ▸ h.newline_lines) hbefore
    (by decide +kernel) hcontent hentry rfl (indentOf_eventEntry hname)

/-- An entry is inserted after the last one whose name is a word. -/
theorem exec_insertHandler {handler path : JsString} {top bottom names : List JsString}
    (hfile : files path = some (joinLines (top ++ (names.map (handlerEntry handler) ++ bottom))))
    (hlines : ∀ line ∈ top ++ (names.map (handlerEntry handler) ++ bottom), newline ∉ line)
    (hnames : ∀ name ∈ names, U.isIdentifierName name = true)
    (hword : ∃ name ∈ names, name ≠ [] ∧ ∀ c ∈ name, isWord c = true)
    (hbottom : ∀ line ∈ bottom, isHandlerEntry handler line = false)
    (hhandler : newline ∉ handlerEntry handler []) (hname : U.isIdentifierName name = true) :
    ∃ names' : List JsString, names'.Perm (name :: names) ∧
      (insertAfterLastMatch path (.pattern (isHandlerEntry handler))
        (handlerEntry handler name)).exec files =
      (.ok true, Function.update files path
        (some (joinLines (top ++ (names'.map (handlerEntry handler) ++ bottom))))) := by
  obtain ⟨front, last, back, rfl, hlast, hback⟩ : ∃ front last back,
      names = front ++ last :: back ∧ isHandlerEntry handler (handlerEntry handler last) = true ∧
      ∀ name ∈ back, isHandlerEntry handler (handlerEntry handler name) = false := by
    obtain ⟨name, hmem, hne, hall⟩ := hword
    exact exists_last ⟨name, hmem, isHandlerEntry_handlerEntry handler hne hall⟩
  have hafter : ∀ line ∈ back.map (handlerEntry handler) ++ bottom,
      Marker.test (.pattern (isHandlerEntry handler)) line = false :=
    List.forall_mem_append.mpr ⟨List.forall_mem_map.mpr hback, hbottom⟩
  have hsplit : top ++ ((front ++ last :: back).map (handlerEntry handler) ++ bottom) =
      top ++ front.map (handlerEntry handler) ++ handlerEntry handler last ::
        (back.map (handlerEntry handler) ++ bottom) := by
    simp
  have hsplit' : top ++ ((front ++ last :: name :: back).map (handlerEntry handler) ++ bottom) =
      top ++ front.map (handlerEntry handler) ++ handlerEntry handler last ::
        handlerEntry handler name :: (back.map (handlerEntry handler) ++ bottom) := by
    simp
  have hentry : Json.colon ∈ handlerEntry handler name := by
    simp [handlerEntry, ascii, Json.colon]
  have hindent : indentOf (handlerEntry handler name) = indentOf (handlerEntry handler last) := by
    rw [indentOf_handlerEntry _ hname, indentOf_handlerEntry _ (hnames last (by simp))]
  refine ⟨front ++ last :: name :: back, ?_, ?_⟩
  · rw [List.append_cons, List.append_cons front last back]
    exact List.perm_middle
  · rw [hsplit] at hfile hlines
    rw [hsplit']
    exact FileM.exec_insertAfterLastMatch hfile hlines hlast hafter
      (not_mem_handlerEntry hname rfl hhandler) hentry rfl hindent

theorem exec_insertDecide (h : d.Proper U ctx)
    (hfile : files (definitionPath ctx.kebabName) = some (joinLines (d.lines ctx)))
    (hname : U.isIdentifierName command = true)
    (hword : ∃ name ∈ d.decide, name ≠ [] ∧ ∀ c ∈ name, isWord c = true) :
    ∃ commands, commands.Perm (command :: d.decide) ∧
      (insertAfterLastMatch (definitionPath ctx.kebabName)
        (.pattern (isHandlerEntry (ascii "decide")))
        (handlerEntry (ascii "decide") command)).exec files =
      (.ok true, Function.update files (definitionPath ctx.kebabName)
        (some (joinLines ({ d with decide := commands }.lines ctx)))) := by
  have hbottom : ∀ line ∈ handlersClosing :: [] :: evolveOpening :: d.fromEvolve,
      isHandlerEntry (ascii "decide") line = false := by
    simp only [fromEvolve, List.forall_mem_append, List.forall_mem_cons, List.forall_mem_map]
    exact ⟨by decide, by decide, by decide,
      fun event he => not_isHandlerEntry (h.evolve event he) rfl, by decide, by decide⟩
  have hlines : ∀ commands : List JsString, { d with decide := commands }.lines ctx =
      d.importLines ctx ++ (beforeEvents ++ eventsOpening ctx.name :: (d.events.map eventEntry ++
        moreEventsLine :: typeClosing :: [] :: commandsOpening ctx.name ::
        (d.commands.map commandEntry ++ moreCommandsLine :: typeClosing ::
          (beforeDecide ctx.name ++ [decideOpening])))) ++
      (commands.map (handlerEntry (ascii "decide")) ++
        (handlersClosing :: [] :: evolveOpening :: d.fromEvolve)) := by
    intro commands
    simp [lines, importLines, fromEvents, fromCommands, fromDecide, fromEvolve]
  have hnewline := h.newline_lines
  rw [hlines d.decide] at hfile hnewline
  obtain ⟨commands, hperm, hexec⟩ :=
    exec_insertHandler hfile hnewline h.decide hword hbottom (by decide) hname
  exact ⟨commands, hperm, by rw [hlines commands]; exact hexec⟩

theorem exec_insertEvolve (h : d.Proper U ctx)
    (hfile : files (definitionPath ctx.kebabName) = some (joinLines (d.lines ctx)))
    (hname : U.isIdentifierName event = true)
    (hword : ∃ name ∈ d.evolve, name ≠ [] ∧ ∀ c ∈ name, isWord c = true) :
    ∃ events, events.Perm (event :: d.evolve) ∧
      (insertAfterLastMatch (definitionPath ctx.kebabName)
        (.pattern (isHandlerEntry (ascii "evolve")))
        (handlerEntry (ascii "evolve") event)).exec files =
      (.ok true, Function.update files (definitionPath ctx.kebabName)
        (some (joinLines ({ d with evolve := events }.lines ctx)))) := by
  have hlines : ∀ events : List JsString, { d with evolve := events }.lines ctx =
      d.importLines ctx ++ (beforeEvents ++ eventsOpening ctx.name :: (d.events.map eventEntry ++
        moreEventsLine :: typeClosing :: [] :: commandsOpening ctx.name ::
        (d.commands.map commandEntry ++ moreCommandsLine :: typeClosing ::
          (beforeDecide ctx.name ++ decideOpening ::
            (d.decide.map (handlerEntry (ascii "decide")) ++
              [handlersClosing, [], evolveOpening]))))) ++
      (events.map (handlerEntry (ascii "evolve")) ++ handlersClosing :: ending) := by
    intro events
    simp [lines, importLines, fromEvents, fromCommands, fromDecide, fromEvolve]
  have hnewline := h.newline_lines
  rw [hlines d.evolve] at hfile hnewline
  obtain ⟨events, hperm, hexec⟩ :=
    exec_insertHandler hfile hnewline h.evolve hword (by decide) (by decide) hname
  exact ⟨events, hperm, by rw [hlines events]; exact hexec⟩

end Definition.Proper

end Lines

end Noddde.Cli
