import Noddde.Proofs.DefinitionFile
/-!
# The entries of a definition file
-/

namespace Noddde.Cli

open Json (ascii)
open Unicode Words Lines

inductive Block where
  | events
  | commands
  | decide
  | evolve

def Block.opens : Block → JsString → Bool
  | .events, line => (ascii "DefineEvents<\x7b").isSuffixOf line
  | .commands, line => (ascii "DefineCommands<\x7b").isSuffixOf line
  | .decide, line => line == ascii "  decide: \x7b"
  | .evolve, line => line == ascii "  evolve: \x7b"

def Block.closes : Block → JsString → Bool
  | .events, line => line == typeClosing
  | .commands, line => line == typeClosing
  | .decide, line => line == handlersClosing
  | .evolve, line => line == handlersClosing

def entryKey (line : JsString) : JsString := trimStart (line.takeWhile fun c => c != Json.colon)

/-- The keys of the entries of a block; a key is an identifier. -/
def entries (U : CharacterData) (block : Block) (text : JsString) : List JsString :=
  ((between block.opens block.closes (splitLines text)).map entryKey).filter U.isIdentifierName

section Entries

variable {U : CharacterData} {ctx : TemplateContext} {d : Definition} {name line : JsString}
  {c : UInt16}

namespace Definition.Proper

theorem opens_eq_false (block : Block) (h : line.getLast? = some c) (hc : c ≠ Json.leftBrace) :
    block.opens line = false := by
  have hsuffix : ∀ opening : JsString, opening.getLast? = some Json.leftBrace →
      opening.isSuffixOf line = false := by
    intro opening hopening
    by_contra hopens
    rw [Bool.not_eq_false, List.isSuffixOf_iff_suffix] at hopens
    exact not_suffix_of_getLast? hopening h hc.symm hopens
  have hne : ∀ opening : JsString, opening.getLast? = some Json.leftBrace →
      (line == opening) = false := by
    intro opening hopening
    refine beq_eq_false_iff_ne.mpr ?_
    rintro rfl
    exact hc (Option.some.inj (h.symm.trans hopening))
  cases block with
  | events => exact hsuffix _ (by decide)
  | commands => exact hsuffix _ (by decide)
  | decide => exact hne _ (by decide)
  | evolve => exact hne _ (by decide)

theorem opens_nil (block : Block) : block.opens [] = false := by
  cases block <;> rfl

theorem opens_before (h : d.Proper U ctx) (block : Block) :
    ∀ line ∈ d.importLines ctx ++ beforeEvents, block.opens line = false := by
  have hsemicolon : (0x3B : UInt16) ≠ Json.leftBrace := by decide
  have htemplate : ∀ line ∈ templateImports ctx, line.getLast? = some 0x3B := by
    simp only [templateImports, List.forall_mem_cons, List.getLast?_append]
    exact ⟨rfl, rfl, rfl, rfl, rfl, List.forall_mem_nil _⟩
  have hlast : (lastImport ctx).getLast? = some 0x3B := by
    rw [lastImport, List.getLast?_append]
    rfl
  refine List.forall_mem_append.mpr ⟨List.forall_mem_append.mpr ⟨?_,
    List.forall_mem_cons.mpr ⟨?_, ?_⟩⟩, ?_⟩
  · exact fun line hline => opens_eq_false block (htemplate line hline) hsemicolon
  · exact opens_eq_false block hlast hsemicolon
  · exact fun line hline => opens_eq_false block (h.imports line hline).getLast hsemicolon
  · simp only [beforeEvents, List.forall_mem_cons]
    exact ⟨opens_nil block, opens_eq_false block isHeading_typeUnions.last (by decide),
      opens_nil block, List.forall_mem_nil _⟩

theorem opens_eventEntry (block : Block) (event : JsString) :
    block.opens (eventEntry event) = false := by
  refine opens_eq_false (c := 0x3B) block ?_ (by decide)
  rw [eventEntry, List.getLast?_append]
  rfl

theorem opens_commandEntry (block : Block) (command : JsString) :
    block.opens (commandEntry command) = false := by
  refine opens_eq_false (c := 0x3B) block ?_ (by decide)
  rw [commandEntry, List.getLast?_append]
  rfl

theorem opens_handlerEntry (block : Block) (handler name : JsString) :
    block.opens (handlerEntry handler name) = false := by
  refine opens_eq_false (c := 0x2C) block ?_ (by decide)
  rw [handlerEntry, List.getLast?_append]
  rfl

theorem entryKey_eq {rest : JsString} {indent : JsString}
    (hindent : ∀ c ∈ indent, isSpace c = true) (hcolon : Json.colon ∉ indent)
    (hname : U.isIdentifierName name = true) :
    entryKey (indent ++ (name ++ Json.colon :: rest)) = name := by
  have hnot := U.not_mem_of_isIdentifierName hname (show isMark Json.colon = true from rfl)
  have hspaces : ∀ c ∈ indent, (c != Json.colon) = true := fun c hc =>
    bne_iff_ne.mpr fun heq => hcolon (heq ▸ hc)
  have hkey : ∀ c ∈ name, (c != Json.colon) = true := fun c hc =>
    bne_iff_ne.mpr fun heq => hnot (heq ▸ hc)
  obtain ⟨a, tail, rfl⟩ := List.exists_cons_of_ne_nil (U.ne_nil_of_isIdentifierName hname)
  rw [entryKey, List.takeWhile_append_of_pos hspaces, List.takeWhile_append_of_pos hkey,
    List.takeWhile_cons_of_neg (by simp), List.append_nil, trimStart,
    List.dropWhile_append_of_pos hindent]
  exact List.dropWhile_cons_of_neg (by simp [isSpace_head hname])

/-- The identifiers among the keys of entries, and of a line with a marker. -/
theorem keys_eq {entry : JsString → JsString} {names : List JsString} {last : List JsString}
    (hnames : ∀ name ∈ names, U.isIdentifierName name = true)
    (hentry : ∀ name ∈ names, entryKey (entry name) = name)
    (hlast : ∀ line ∈ last, Json.solidus ∈ entryKey line) :
    ((names.map entry ++ last).map entryKey).filter U.isIdentifierName = names := by
  have hkeys : (names.map entry).map entryKey = names := by
    rw [List.map_map]
    exact (List.map_congr_left hentry).trans (List.map_id names)
  have hnone : (last.map entryKey).filter U.isIdentifierName = [] := by
    refine List.filter_eq_nil_iff.mpr (List.forall_mem_map.mpr fun line hline hkey => ?_)
    exact U.not_mem_of_isIdentifierName hkey rfl (hlast line hline)
  rw [List.map_append, hkeys, List.filter_append, hnone, List.append_nil,
    List.filter_eq_self.mpr hnames]

theorem entries_events (h : d.Proper U ctx) :
    entries U .events (joinLines (d.lines ctx)) = d.events := by
  have hlines : d.lines ctx = d.importLines ctx ++ beforeEvents ++ eventsOpening ctx.name ::
      (d.events.map eventEntry ++ [moreEventsLine] ++ typeClosing ::
        ([] :: commandsOpening ctx.name :: d.fromCommands ctx)) := by
    simp [lines, fromEvents]
  have hopens : Block.events.opens (eventsOpening ctx.name) = true :=
    List.isSuffixOf_iff_suffix.mpr ⟨ascii "export type " ++ ctx.name ++ ascii "Event = ", by
      simp only [eventsOpening, List.append_assoc]
      rfl⟩
  have hbody : ∀ line ∈ d.events.map eventEntry ++ [moreEventsLine],
      Block.events.closes line = false :=
    List.forall_mem_append.mpr ⟨List.forall_mem_map.mpr fun _ _ => rfl, by decide⟩
  rw [entries, splitLines_joinLines h.newline_lines (by simp [lines]), hlines,
    between_append (h.opens_before .events) hopens hbody (by decide)]
  refine keys_eq h.events (fun event he => ?_) (by decide)
  rw [eventEntry, List.append_assoc]
  exact entryKey_eq (List.all_eq_true.mp rfl) (by decide) (h.events event he)

theorem opens_closed (block : Block) (h : line.getLast? ≠ some Json.leftBrace) :
    block.opens line = false := by
  cases hlast : line.getLast? with
  | none =>
    rw [List.getLast?_eq_none_iff.mp hlast]
    exact opens_nil block
  | some c =>
    refine opens_eq_false block hlast ?_
    rintro rfl
    exact h hlast

theorem entries_commands (h : d.Proper U ctx) :
    entries U .commands (joinLines (d.lines ctx)) = d.commands := by
  have hlines : d.lines ctx = d.importLines ctx ++ beforeEvents ++ (eventsOpening ctx.name ::
      (d.events.map eventEntry ++ [moreEventsLine, typeClosing, []])) ++
      commandsOpening ctx.name :: (d.commands.map commandEntry ++ [moreCommandsLine] ++
        typeClosing :: (beforeDecide ctx.name ++ decideOpening :: d.fromDecide)) := by
    simp [lines, fromEvents, fromCommands]
  have hevents : Block.commands.opens (eventsOpening ctx.name) = false := by
    have hspace : eventsOpening ctx.name = (ascii "export type " ++ ctx.name ++ ascii "Event =") ++
        space :: ascii "DefineEvents<\x7b" := by
      simp only [eventsOpening, List.append_assoc]
      rfl
    by_contra hopens
    rw [Bool.not_eq_false, Block.opens, List.isSuffixOf_iff_suffix, hspace] at hopens
    have hshort := suffix_of_suffix_append_cons (by decide) hopens
    revert hshort
    decide
  have hbefore : ∀ line ∈ d.importLines ctx ++ beforeEvents ++ (eventsOpening ctx.name ::
      (d.events.map eventEntry ++ [moreEventsLine, typeClosing, []])),
      Block.commands.opens line = false := by
    refine List.forall_mem_append.mpr ⟨h.opens_before .commands, List.forall_mem_cons.mpr
      ⟨hevents, List.forall_mem_append.mpr ⟨List.forall_mem_map.mpr fun event _ =>
        opens_eventEntry .commands event, by decide⟩⟩⟩
  have hopens : Block.commands.opens (commandsOpening ctx.name) = true :=
    List.isSuffixOf_iff_suffix.mpr ⟨ascii "export type " ++ ctx.name ++ ascii "Command = ", by
      simp only [commandsOpening, List.append_assoc]
      rfl⟩
  have hbody : ∀ line ∈ d.commands.map commandEntry ++ [moreCommandsLine],
      Block.commands.closes line = false :=
    List.forall_mem_append.mpr ⟨List.forall_mem_map.mpr fun _ _ => rfl, by decide⟩
  rw [entries, splitLines_joinLines h.newline_lines (by simp [lines]), hlines,
    between_append hbefore hopens hbody (by decide)]
  refine keys_eq h.commands (fun command hc => ?_) (by decide)
  simp only [commandEntry, List.append_assoc]
  exact entryKey_eq (List.all_eq_true.mp rfl) (by decide) (h.commands command hc)

def types (ctx : TemplateContext) (d : Definition) : List JsString :=
  d.importLines ctx ++ beforeEvents ++ (eventsOpening ctx.name ::
    (d.events.map eventEntry ++ moreEventsLine :: typeClosing :: [] :: commandsOpening ctx.name ::
      (d.commands.map commandEntry ++ moreCommandsLine :: typeClosing :: beforeDecide ctx.name)))

theorem opens_types (h : d.Proper U ctx) (block : Block)
    (hexport : ∀ line : JsString, line.head? = some 0x65 → block.opens line = false) :
    ∀ line ∈ types ctx d, block.opens line = false := by
  have hends : ∀ front back : JsString, back.getLast? = some 0x3B →
      block.opens (front ++ back) = false := fun front back hback =>
    opens_eq_false (c := 0x3B) block (by rw [List.getLast?_append, hback]; rfl) (by decide)
  have hinitial : block.opens (ascii "  initialState: initial" ++ ctx.name ++ ascii "State,") =
      false :=
    opens_eq_false (c := Json.comma) block (by rw [List.getLast?_append]; rfl) (by decide)
  have hmiddle : ∀ line ∈ beforeDecide ctx.name, block.opens line = false := by
    simp only [beforeDecide, List.forall_mem_cons]
    exact ⟨opens_nil block, opens_eq_false block isHeading_typesBundle.last (by decide),
      opens_nil block, hexport _ rfl, hends _ _ rfl, hends _ _ rfl, hends _ _ rfl,
      opens_closed block (by decide +kernel), opens_closed block (by decide), opens_nil block,
      opens_eq_false block isHeading_definition.last (by decide),
      opens_nil block, hexport _ rfl, hinitial, opens_nil block, List.forall_mem_nil _⟩
  simp only [types, List.forall_mem_append, List.forall_mem_cons, List.forall_mem_map]
  exact ⟨List.forall_mem_append.mp (h.opens_before block), hexport _ rfl,
    fun event _ => opens_eventEntry block event, opens_closed block (by decide),
    opens_closed block (by decide), opens_nil block, hexport _ rfl,
    fun command _ => opens_commandEntry block command, opens_closed block (by decide),
    opens_closed block (by decide), hmiddle⟩

theorem not_opens_of_head? {opening : JsString} (hopening : opening.head? = some space)
    (hline : line.head? = some 0x65) : (line == opening) = false := by
  refine beq_eq_false_iff_ne.mpr ?_
  rintro rfl
  cases hline.symm.trans hopening

theorem entryKey_handlerEntry (handler : JsString) (hname : U.isIdentifierName name = true) :
    entryKey (handlerEntry handler name) = name := by
  simp only [handlerEntry, List.append_assoc]
  exact entryKey_eq (List.all_eq_true.mp rfl) (by decide) hname

theorem entries_decide (h : d.Proper U ctx) :
    entries U .decide (joinLines (d.lines ctx)) = d.decide := by
  have hlines : d.lines ctx = types ctx d ++ decideOpening ::
      (d.decide.map (handlerEntry (ascii "decide")) ++ handlersClosing ::
        ([] :: evolveOpening :: d.fromEvolve)) := by
    simp [lines, types, fromEvents, fromCommands, fromDecide]
  have hbefore := h.opens_types .decide fun line hline => not_opens_of_head? (by decide) hline
  have hbody : ∀ line ∈ d.decide.map (handlerEntry (ascii "decide")),
      Block.decide.closes line = false :=
    List.forall_mem_map.mpr fun _ _ => rfl
  have hkeys := keys_eq h.decide
    (fun command hc => entryKey_handlerEntry (ascii "decide") (h.decide command hc))
    (List.forall_mem_nil _)
  rw [List.append_nil] at hkeys
  rw [entries, splitLines_joinLines h.newline_lines (by simp [lines]), hlines,
    between_append hbefore (by decide) hbody (by decide), hkeys]

theorem entries_evolve (h : d.Proper U ctx) :
    entries U .evolve (joinLines (d.lines ctx)) = d.evolve := by
  have hlines : d.lines ctx = types ctx d ++ (decideOpening ::
      (d.decide.map (handlerEntry (ascii "decide")) ++ [handlersClosing, []])) ++
      evolveOpening :: (d.evolve.map (handlerEntry (ascii "evolve")) ++ handlersClosing ::
        ending) := by
    simp [lines, types, fromEvents, fromCommands, fromDecide, fromEvolve]
  have htypes := h.opens_types .evolve fun line hline => not_opens_of_head? (by decide) hline
  have hbefore : ∀ line ∈ types ctx d ++ (decideOpening ::
      (d.decide.map (handlerEntry (ascii "decide")) ++ [handlersClosing, []])),
      Block.evolve.opens line = false :=
    List.forall_mem_append.mpr ⟨htypes, List.forall_mem_cons.mpr ⟨by decide,
      List.forall_mem_append.mpr ⟨List.forall_mem_map.mpr fun command _ =>
        opens_handlerEntry .evolve _ command, by decide⟩⟩⟩
  have hbody : ∀ line ∈ d.evolve.map (handlerEntry (ascii "evolve")),
      Block.evolve.closes line = false :=
    List.forall_mem_map.mpr fun _ _ => rfl
  have hkeys := keys_eq h.evolve
    (fun event he => entryKey_handlerEntry (ascii "evolve") (h.evolve event he))
    (List.forall_mem_nil _)
  rw [List.append_nil] at hkeys
  rw [entries, splitLines_joinLines h.newline_lines (by simp [lines]), hlines,
    between_append hbefore (by decide) hbody (by decide), hkeys]

end Definition.Proper

end Entries

end Noddde.Cli
