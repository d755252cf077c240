import Noddde.Proofs.DefinitionKeys
import Noddde.Proofs.Naming
/-!
# Calls that add commands
-/

namespace Noddde.Cli

open Json (ascii)
open Unicode Words Lines

variable {U : CharacterData} {ctx : TemplateContext} {d d' : Definition} {files : Files}
  {s path content : JsString}

/-! ## Names -/

theorem toKebabCase_toKebabCase (s : JsString) :
    toKebabCase U (toKebabCase U s) = toKebabCase U s := by
  have hwords : toKebabCase U (toKebabCase U s) =
      [hyphen].intercalate ((splitWords (toKebabCase U s)).map U.toLowerCase) := rfl
  rw [hwords, splitWords_toKebabCase, List.map_map, toKebabCase]
  exact congrArg _ (List.map_congr_left fun w _ => U.toLowerCase_toLowerCase w)

theorem kebabName_directory (name : JsString) :
    (buildContext U (toKebabCase U name)).kebabName = (buildContext U name).kebabName := by
  simp only [buildContext, toKebabCase_toKebabCase]

/-- A kebab-case name has no more marks than the identifier, besides the hyphen. -/
theorem not_mem_toKebabCase (h : U.isIdentifierName (toPascalCase U s) = true) {c : UInt16}
    (hc : isMark c = true) (hhyphen : c ≠ hyphen) : c ∉ toKebabCase U s := by
  intro hmem
  rcases eq_or_mem_of_mem_intercalate hmem with heq | ⟨v, hv, hcv⟩
  · exact hhyphen heq
  · obtain ⟨w, hw, rfl⟩ := List.mem_map.mp hv
    have hplain := CharacterData.isPlain_of_isMark hc
    have hcw : c ∈ capitalize U w :=
      (mem_capitalize hplain w).mpr ((U.mem_toLowerCase hplain).mp hcv)
    exact U.not_mem_of_isIdentifierName h hc (List.mem_flatMap.mpr ⟨w, hw, hcw⟩)

theorem handlerEntry_decide (name : JsString) : handlerEntry (ascii "decide") name =
    ascii "    " ++ name ++ ascii ": decide" ++ name ++ ascii "," := by
  have hvalue : ascii ": decide" = ascii ": " ++ ascii "decide" := rfl
  rw [handlerEntry, hvalue]
  simp only [List.append_assoc]

theorem handlerEntry_evolve (name : JsString) : handlerEntry (ascii "evolve") name =
    ascii "    " ++ name ++ ascii ": evolve" ++ name ++ ascii "," := by
  have hvalue : ascii ": evolve" = ascii ": " ++ ascii "evolve" := rfl
  rw [handlerEntry, hvalue]
  simp only [List.append_assoc]

/-! ### Of the template -/

theorem StartsUpper.head?_not_low (h : StartsUpper s) :
    s.head?.any Json.isLowSurrogate = false := by
  obtain ⟨d, r, rfl, hd⟩ := h
  exact (ascii_not_surrogate (lt_of_letter (.inl hd))).2

theorem isIdentifierName_createdEvent (h : U.isIdentifierName s = true) :
    U.isIdentifierName (createdEvent s) = true :=
  U.isIdentifierName_append h (U.idContinue_of_letters (by decide)) (by decide)

theorem isIdentifierName_createCommand (hs : StartsUpper s) (h : U.isIdentifierName s = true) :
    U.isIdentifierName (createCommand s) = true := by
  have hcreate : U.isIdentifierName (ascii "Create") = true :=
    U.isIdentifierName_append (U.isIdentifierName_letter (.inl rfl))
      (U.idContinue_of_letters (by decide)) (by decide)
  exact U.isIdentifierName_append hcreate (U.idContinue_of_isIdentifierName h) hs.head?_not_low

theorem generated_proper (hs : StartsUpper s) (h : U.isIdentifierName s = true)
    (hctx : ctx.name = s) (hkebab : newline ∉ ctx.kebabName ∧ Json.colon ∉ ctx.kebabName) :
    (generated s).Proper U ctx where
  name := hctx ▸ h
  kebab := hkebab
  imports := nofun
  events := List.forall_mem_singleton.mpr (isIdentifierName_createdEvent h)
  commands := List.forall_mem_singleton.mpr (isIdentifierName_createCommand hs h)
  decide := List.forall_mem_singleton.mpr (isIdentifierName_createCommand hs h)
  evolve := List.forall_mem_singleton.mpr (isIdentifierName_createdEvent h)

/-! ## A definition among files -/

def barrels : List JsString := [commandsIndex, decidersIndex, evolversIndex]

structure Definition.Written (U : CharacterData) (ctx : TemplateContext) (files : Files)
    (d : Definition) : Prop where
  proper : d.Proper U ctx
  directory : Json.solidus ∉ ctx.kebabName
  file : files (definitionPath ctx.kebabName) = some (joinLines (d.lines ctx))
  barrels : ∀ path ∈ barrels, (files path).isSome = true

theorem ne_definitionPath {kebab : JsString} (hkebab : Json.solidus ∉ kebab)
    (hpath : Json.solidus ∈ path) : path ≠ definitionPath kebab := by
  rintro rfl
  simp only [definitionPath, List.mem_append, hkebab, false_or] at hpath
  revert hpath
  decide

namespace Definition.Written

theorem writeNewFiles (h : d.Written U ctx files) (newFiles : List (JsString × JsString)) :
    ∃ files', (Cli.writeNewFiles newFiles).exec files = (.ok (), files') ∧
      d.Written U ctx files' := by
  refine ⟨_, FileM.exec_writeNewFiles newFiles files, h.proper, h.directory, ?_, ?_⟩
  · rw [h.file, Option.some_or]
  · intro path hpath
    rw [Option.isSome_or, h.barrels path hpath, Bool.true_or]

theorem appendToBarrel (h : d.Written U ctx files) (path : JsString) (hpath : path ∈ Cli.barrels)
    (line : JsString) :
    ∃ files', (Cli.appendToBarrel path line).exec files = (.ok (), files') ∧
      d.Written U ctx files' := by
  obtain ⟨text, hexec⟩ := FileM.exec_appendToBarrel line (h.barrels path hpath)
  have hsolidus : Json.solidus ∈ path :=
    (show ∀ path ∈ Cli.barrels, Json.solidus ∈ path by decide) path hpath
  refine ⟨_, hexec, h.proper, h.directory, ?_, ?_⟩
  · rw [Function.update_of_ne (ne_definitionPath h.directory hsolidus).symm, h.file]
  · intro path' hpath'
    by_cases heq : path' = path
    · rw [heq, Function.update_self]
      rfl
    · rw [Function.update_of_ne heq, h.barrels path' hpath']

theorem update (h : d.Written U ctx files) (h' : d'.Proper U ctx) :
    d'.Written U ctx (Function.update files (definitionPath ctx.kebabName)
      (some (joinLines (d'.lines ctx)))) := by
  refine ⟨h', h.directory, Function.update_self _ _ _, fun path hpath => ?_⟩
  have hsolidus : Json.solidus ∈ path :=
    (show ∀ path ∈ Cli.barrels, Json.solidus ∈ path by decide) path hpath
  rw [Function.update_of_ne (ne_definitionPath h.directory hsolidus), h.barrels path hpath]

theorem insertImports (h : d.Written U ctx files) {new : List JsString} (hne : new ≠ [])
    (hnew : ∀ line ∈ new, IsImport line) :
    ∃ files', (Cli.insertImports (definitionPath ctx.kebabName) (joinLines new)).exec files =
      (.ok (), files') ∧ { d with imports := d.imports ++ new }.Written U ctx files' := by
  have hproper : { d with imports := d.imports ++ new }.Proper U ctx :=
    { h.proper with imports := List.forall_mem_append.mpr ⟨h.proper.imports, hnew⟩ }
  exact ⟨_, h.proper.exec_insertImports h.file hne, h.update hproper⟩

theorem insertCommand (h : d.Written U ctx files) {command : JsString}
    (hname : U.isIdentifierName command = true) :
    ∃ result files', (insertBeforeMarker (definitionPath ctx.kebabName) moreCommands
        (commandEntry command) false).exec files = (.ok result, files') ∧
      { d with commands := d.commands ++ [command] }.Written U ctx files' := by
  have hcommands : ∀ c ∈ d.commands ++ [command], U.isIdentifierName c = true :=
    List.forall_mem_append.mpr ⟨h.proper.commands, List.forall_mem_singleton.mpr hname⟩
  have hproper : { d with commands := d.commands ++ [command] }.Proper U ctx :=
    { h.proper with commands := hcommands }
  exact ⟨_, _, h.proper.exec_insertCommand h.file hname, h.update hproper⟩

theorem insertEvent (h : d.Written U ctx files) {event : JsString}
    (hname : U.isIdentifierName event = true) :
    ∃ result files', (insertBeforeMarker (definitionPath ctx.kebabName) moreEvents
        (eventEntry event) false).exec files = (.ok result, files') ∧
      { d with events := d.events ++ [event] }.Written U ctx files' := by
  have hevents : ∀ e ∈ d.events ++ [event], U.isIdentifierName e = true :=
    List.forall_mem_append.mpr ⟨h.proper.events, List.forall_mem_singleton.mpr hname⟩
  have hproper : { d with events := d.events ++ [event] }.Proper U ctx :=
    { h.proper with events := hevents }
  exact ⟨_, _, h.proper.exec_insertEvent h.file hname, h.update hproper⟩

theorem insertDecide (h : d.Written U ctx files) {command : JsString}
    (hname : U.isIdentifierName command = true)
    (hword : ∃ name ∈ d.decide, name ≠ [] ∧ ∀ c ∈ name, isWord c = true) :
    ∃ commands files', (insertAfterLastMatch (definitionPath ctx.kebabName)
        (.pattern (isHandlerEntry (ascii "decide")))
        (handlerEntry (ascii "decide") command)).exec files = (.ok true, files') ∧
      commands.Perm (command :: d.decide) ∧
      { d with decide := commands }.Written U ctx files' := by
  obtain ⟨commands, hperm, hexec⟩ := h.proper.exec_insertDecide h.file hname hword
  have hdecide : ∀ c ∈ command :: d.decide, U.isIdentifierName c = true :=
    List.forall_mem_cons.mpr ⟨hname, h.proper.decide⟩
  have hproper : { d with decide := commands }.Proper U ctx :=
    { h.proper with decide := fun c hc => hdecide c (hperm.mem_iff.mp hc) }
  exact ⟨commands, _, hexec, hperm, h.update hproper⟩

theorem insertEvolve (h : d.Written U ctx files) {event : JsString}
    (hname : U.isIdentifierName event = true)
    (hword : ∃ name ∈ d.evolve, name ≠ [] ∧ ∀ c ∈ name, isWord c = true) :
    ∃ events files', (insertAfterLastMatch (definitionPath ctx.kebabName)
        (.pattern (isHandlerEntry (ascii "evolve")))
        (handlerEntry (ascii "evolve") event)).exec files = (.ok true, files') ∧
      events.Perm (event :: d.evolve) ∧
      { d with evolve := events }.Written U ctx files' := by
  obtain ⟨events, hperm, hexec⟩ := h.proper.exec_insertEvolve h.file hname hword
  have hevolve : ∀ e ∈ event :: d.evolve, U.isIdentifierName e = true :=
    List.forall_mem_cons.mpr ⟨hname, h.proper.evolve⟩
  have hproper : { d with evolve := events }.Proper U ctx :=
    { h.proper with evolve := fun e he => hevolve e (hperm.mem_iff.mp he) }
  exact ⟨events, _, hexec, hperm, h.update hproper⟩

end Definition.Written

/-! ## One call -/

/-- What the text of the definition file gains from a call that adds its entries. -/
structure Definition.Extends (command event : JsString) (d d' : Definition) : Prop where
  commands : d'.commands = d.commands ++ [command]
  events : d'.events = d.events ++ [event]
  decide : d'.decide.Perm (command :: d.decide)
  evolve : d'.evolve.Perm (event :: d.evolve)

theorem exec_validated {name : JsString} (h : validateName U name = .ok ()) :
    (validated U name).exec files = (.ok (), files) := by
  rw [validated, h]
  rfl

def newImports (command : TemplateContext) (eventName : JsString) : List JsString := [
    ascii "import type \x7b " ++ command.name ++ ascii "Payload \x7d from \"./commands/" ++
      command.kebabName ++ ascii ".js\";",
    ascii "import \x7b decide" ++ command.name ++ ascii " \x7d from \"./deciders/index.js\";",
    ascii "import \x7b evolve" ++ eventName ++ ascii " \x7d from \"./evolvers/index.js\";"]

section Call

variable {name commandName eventName : JsString}

theorem isImport_newImports (hcommand : U.isIdentifierName (toPascalCase U commandName) = true)
    (hevent : U.isIdentifierName eventName = true) :
    ∀ line ∈ newImports (buildContext U commandName) eventName, IsImport line := by
  have hmarks : ∀ c, isMark c = true → c ≠ hyphen → c ∉ (buildContext U commandName).name ∧
      c ∉ (buildContext U commandName).kebabName ∧ c ∉ eventName := fun c hc hhyphen =>
    ⟨U.not_mem_of_isIdentifierName hcommand hc, not_mem_toKebabCase hcommand hc hhyphen,
      U.not_mem_of_isIdentifierName hevent hc⟩
  obtain ⟨hname, hkebab, hevent'⟩ := hmarks newline rfl (by decide)
  obtain ⟨hname', hkebab', hevent''⟩ := hmarks Json.colon rfl (by decide)
  refine List.forall_mem_cons.mpr ⟨⟨rfl, ?_, ?_, ?_⟩, List.forall_mem_cons.mpr
    ⟨⟨rfl, ?_, ?_, ?_⟩, List.forall_mem_singleton.mpr ⟨rfl, ?_, ?_, ?_⟩⟩⟩
  · simp only [List.mem_append, hname, hkebab, or_false]
    decide
  · simp only [List.mem_append, hname', hkebab', or_false]
    decide
  · rw [List.getLast?_append]
    rfl
  · simp only [List.mem_append, hname, or_false]
    decide
  · simp only [List.mem_append, hname', or_false]
    decide
  · rw [List.getLast?_append]
    rfl
  · simp only [List.mem_append, hevent', or_false]
    decide
  · simp only [List.mem_append, hevent'', or_false]
    decide
  · rw [List.getLast?_append]
    rfl

/-- Where the search finds the command, nothing changes. -/
theorem exec_skipped (h : d.Written U (buildContext U name) files)
    (hcommand : validateName U commandName = .ok ()) (hevent : validateName U eventName = .ok ())
    (hfound : includes (toPascalCase U commandName ++ [Json.colon])
      (joinLines (d.lines (buildContext U name))) = true) :
    (addCommandToAggregate U commandName (toKebabCase U name) eventName).exec files =
      (.ok .skipped, files) := by
  have hsearch : (fileContains (definitionPath (buildContext U name).kebabName)
      ((buildContext U commandName).name ++ [Json.colon])).exec files = (.ok true, files) := by
    rw [FileM.exec_fileContains h.file]
    exact congrArg (fun found => (Except.ok found, files)) hfound
  rw [addCommandToAggregate, FileM.exec_bind (exec_validated hcommand),
    FileM.exec_bind (exec_validated hevent)]
  simp only [kebabName_directory]
  rw [FileM.exec_bind hsearch, if_pos rfl]
  rfl

/-- A call whose command is not found adds its entries. -/
theorem exec_updated (h : d.Written U (buildContext U name) files)
    (hcommand : validateName U commandName = .ok ()) (hevent : validateName U eventName = .ok ())
    (hcommand' : U.isIdentifierName (toPascalCase U commandName) = true)
    (hevent' : U.isIdentifierName eventName = true)
    (hdecide : ∃ c ∈ d.decide, c ≠ [] ∧ ∀ a ∈ c, isWord a = true)
    (hevolve : ∃ e ∈ d.evolve, e ≠ [] ∧ ∀ a ∈ e, isWord a = true)
    (hfound : includes (toPascalCase U commandName ++ [Json.colon])
      (joinLines (d.lines (buildContext U name))) = false) :
    ∃ d' files', (addCommandToAggregate U commandName (toKebabCase U name) eventName).exec files =
        (.ok .updated, files') ∧ d'.Written U (buildContext U name) files' ∧
      d.Extends (toPascalCase U commandName) eventName d' := by
  have hsearch : (fileContains (definitionPath (buildContext U name).kebabName)
      ((buildContext U commandName).name ++ [Json.colon])).exec files = (.ok false, files) := by
    rw [FileM.exec_fileContains h.file]
    exact congrArg (fun found => (Except.ok found, files)) hfound
  have himports := isImport_newImports hcommand' hevent'
  have hname : U.isIdentifierName (buildContext U commandName).name = true := hcommand'
  obtain ⟨files₁, hnew, h₁⟩ := h.writeNewFiles _
  obtain ⟨files₂, hcommands, h₂⟩ := h₁.appendToBarrel commandsIndex (by decide) _
  obtain ⟨files₃, hdeciders, h₃⟩ := h₂.appendToBarrel decidersIndex (by decide) _
  obtain ⟨files₄, hevolvers, h₄⟩ := h₃.appendToBarrel evolversIndex (by decide) _
  obtain ⟨files₅, himport, h₅⟩ := h₄.insertImports (List.cons_ne_nil _ _) himports
  obtain ⟨_, files₆, hcommand₆, h₆⟩ := h₅.insertCommand hname
  obtain ⟨_, files₇, hevent₇, h₇⟩ := h₆.insertEvent hevent'
  obtain ⟨commands, files₈, hdecide₈, hcommands₈, h₈⟩ := h₇.insertDecide hname hdecide
  obtain ⟨events, files₉, hevolve₉, hevents₉, h₉⟩ := h₈.insertEvolve hevent' hevolve
  refine ⟨_, files₉, ?_, h₉, ⟨rfl, rfl, hcommands₈, hevents₉⟩⟩
  rw [addCommandToAggregate, FileM.exec_bind (exec_validated hcommand),
    FileM.exec_bind (exec_validated hevent)]
  simp only [kebabName_directory]
  rw [FileM.exec_bind hsearch, if_neg Bool.false_ne_true, FileM.exec_bind hnew,
    FileM.exec_bind hcommands, FileM.exec_bind hdeciders, FileM.exec_bind hevolvers,
    FileM.exec_bind himport, ← commandEntry, FileM.exec_bind (FileM.exec_discard hcommand₆),
    ← eventEntry, FileM.exec_bind (FileM.exec_discard hevent₇), ← handlerEntry_decide,
    FileM.exec_bind (FileM.exec_discard hdecide₈), ← handlerEntry_evolve,
    FileM.exec_bind (FileM.exec_discard hevolve₉)]
  rfl

/-- The definition file has a name of its own. -/
theorem exec_generateAggregate (hname : validateName U name = .ok ())
    (hident : U.isIdentifierName (toPascalCase U name) = true)
    (hindex : toKebabCase U name ≠ ascii "index") (hstate : toKebabCase U name ≠ ascii "state") :
    ∃ files, (generateAggregate U name).exec (fun _ => none) = (.ok (), files) ∧
      (generated (toPascalCase U name)).Written U (buildContext U name) files := by
  have hproper : (generated (toPascalCase U name)).Proper U (buildContext U name) :=
    generated_proper (validateName_eq_ok.mp hname) hident rfl
      ⟨not_mem_toKebabCase hident rfl (by decide), not_mem_toKebabCase hident rfl (by decide)⟩
  have hne : ∀ other : JsString, toKebabCase U name ≠ other →
      (definitionPath (buildContext U name).kebabName == other ++ ascii ".ts") = false :=
    fun other hother => beq_false_of_ne fun heq => hother (List.append_cancel_right heq)
  rw [generateAggregate, FileM.exec_bind (exec_validated hname)]
  refine ⟨_, FileM.exec_writeNewFiles _ _, hproper,
    not_mem_toKebabCase hident rfl (by decide), ?_, ?_⟩
  · have hindex' : (definitionPath (buildContext U name).kebabName == ascii "index.ts") = false :=
      hne _ hindex
    have hstate' : (definitionPath (buildContext U name).kebabName == ascii "state.ts") = false :=
      hne _ hstate
    simp only [Option.none_or, List.lookup_cons, hindex', hstate', beq_self_eq_true]
    exact congrArg some (aggregateTemplate_eq (buildContext U name))
  · intro path hpath
    rw [Option.none_or, List.lookup_isSome_iff]
    simp only [Cli.barrels, List.mem_cons, List.not_mem_nil, or_false] at hpath
    rcases hpath with rfl | rfl | rfl
    · exact ⟨(commandsIndex, commandsIndexTemplate (buildContext U name)), by simp,
        beq_self_eq_true _⟩
    · exact ⟨(decidersIndex, decidersIndexTemplate (buildContext U name)), by simp,
        beq_self_eq_true _⟩
    · exact ⟨(evolversIndex, evolversIndexTemplate (buildContext U name)), by simp,
        beq_self_eq_true _⟩

end Call

end Noddde.Cli
