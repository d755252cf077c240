import Noddde.Proofs.DefinitionEntries
/-!
# What stands before the colons of a definition file

The search for a command finds each of these words that ends in its name.
-/

namespace Noddde.Cli

open Json (ascii)
open Unicode Words Lines

/-- Those of the template, besides names. -/
def templateKeys : List JsString :=
  ["TODO", "id", "state", "events", "commands", "infrastructure", "initialState", "decide",
    "evolve"].map ascii

namespace Definition

def keys (d : Definition) : List JsString :=
  templateKeys ++ (d.events ++ d.commands ++ d.decide ++ d.evolve)

end Definition

section Keys

variable {U : CharacterData} {ctx : TemplateContext} {d : Definition} {c name line rest : JsString}

theorem not_found (hline : Json.colon ∉ line) : ¬ c ++ [Json.colon] <:+: line := fun h =>
  hline (h.subset (List.mem_append_right c (List.mem_singleton_self Json.colon)))

theorem suffix_or_found (hc : U.isIdentifierName c = true) {indent : JsString}
    (hindent : Json.colon ∉ indent) (hname : Json.colon ∉ name)
    (h : c ++ [Json.colon] <:+: indent ++ space :: name ++ Json.colon :: rest) :
    c <:+ name ∨ c ++ [Json.colon] <:+: rest := by
  have hfront : Json.colon ∉ indent ++ space :: name := by
    simp only [List.mem_append, List.mem_cons, hindent, hname, or_false, false_or]
    decide
  have hcolon : Json.colon ∉ c := U.not_mem_of_isIdentifierName hc rfl
  have hspace : space ∉ c := U.not_mem_of_isIdentifierName hc rfl
  exact ((infix_concat_append_cons hcolon hfront).mp h).imp_left
    (suffix_of_suffix_append_cons hspace)

theorem suffix_of_found (hc : U.isIdentifierName c = true) {indent : JsString}
    (hindent : Json.colon ∉ indent) (hname : Json.colon ∉ name) (hrest : Json.colon ∉ rest)
    (h : c ++ [Json.colon] <:+: indent ++ space :: name ++ Json.colon :: rest) : c <:+ name :=
  (suffix_or_found hc hindent hname h).resolve_right (not_found hrest)

theorem suffix_of_eventEntry (hc : U.isIdentifierName c = true)
    (hname : U.isIdentifierName name = true) (h : c ++ [Json.colon] <:+: eventEntry name) :
    c <:+ name ∨ c <:+ ascii "id" := by
  have hcolon : Json.colon ∉ name := U.not_mem_of_isIdentifierName hname rfl
  have hline : eventEntry name = [space] ++ space :: name ++ Json.colon ::
      (ascii " \x7b" ++ space :: ascii "id" ++ Json.colon :: ascii " string \x7d;") := by
    simp only [eventEntry, List.append_assoc]
    rfl
  rw [hline] at h
  exact (suffix_or_found hc (by decide) hcolon h).imp_right
    (suffix_of_found hc (by decide) (by decide) (by decide))

theorem suffix_of_commandEntry (hc : U.isIdentifierName c = true)
    (hname : U.isIdentifierName name = true) (h : c ++ [Json.colon] <:+: commandEntry name) :
    c <:+ name := by
  have hcolon : Json.colon ∉ name := U.not_mem_of_isIdentifierName hname rfl
  have hline : commandEntry name = [space] ++ space :: name ++ Json.colon ::
      ([space] ++ name ++ ascii "Payload;") := by
    simp only [commandEntry, List.append_assoc]
    rfl
  have hrest : Json.colon ∉ [space] ++ name ++ ascii "Payload;" := by
    simp only [List.mem_append, hcolon, or_false]
    decide
  rw [hline] at h
  exact suffix_of_found hc (by decide) hcolon hrest h

theorem suffix_of_handlerEntry {handler : JsString} (hhandler : Json.colon ∉ handler)
    (hc : U.isIdentifierName c = true) (hname : U.isIdentifierName name = true)
    (h : c ++ [Json.colon] <:+: handlerEntry handler name) : c <:+ name := by
  have hcolon : Json.colon ∉ name := U.not_mem_of_isIdentifierName hname rfl
  have hline : handlerEntry handler name = ascii "   " ++ space :: name ++ Json.colon ::
      ([space] ++ (handler ++ (name ++ ascii ","))) := by
    rw [handlerEntry_eq]
    rfl
  have hrest : Json.colon ∉ [space] ++ (handler ++ (name ++ ascii ",")) := by
    simp only [List.mem_append, hcolon, hhandler, false_or]
    decide
  rw [hline] at h
  exact suffix_of_found hc (by decide) hcolon hrest h

theorem key_of_found (hc : U.isIdentifierName c = true) (indent key rest : JsString)
    (hindent : Json.colon ∉ indent) (hkey : key ∈ templateKeys) (hrest : Json.colon ∉ rest)
    (hline : line = indent ++ space :: key ++ Json.colon :: rest)
    (h : c ++ [Json.colon] <:+: line) : ∃ key ∈ templateKeys, c <:+ key := by
  have hcolon : ∀ key ∈ templateKeys, Json.colon ∉ key := by decide +kernel
  rw [hline] at h
  exact ⟨key, hkey, suffix_of_found hc hindent (hcolon key hkey) hrest h⟩

theorem key_of_infrastructure (hc : U.isIdentifierName c = true)
    (h : c ++ [Json.colon] <:+: ascii "  infrastructure: Infrastructure; " ++
      ascii "// TODO: replace with domain-specific infrastructure type") :
    ∃ key ∈ templateKeys, c <:+ key := by
  have hline : ascii "  infrastructure: Infrastructure; " ++
      ascii "// TODO: replace with domain-specific infrastructure type" =
      [space] ++ space :: ascii "infrastructure" ++ Json.colon ::
        (ascii " Infrastructure; //" ++ space :: ascii "TODO" ++ Json.colon ::
          ascii " replace with domain-specific infrastructure type") := by decide +kernel
  rw [hline] at h
  rcases suffix_or_found hc (by decide) (by decide) h with h | h
  · exact ⟨_, by decide +kernel, h⟩
  · exact key_of_found hc _ _ _ (by decide) (by decide +kernel) (by decide +kernel) rfl h

theorem key_of_beforeDecide (hc : U.isIdentifierName c = true)
    (hname : U.isIdentifierName name = true) :
    ∀ line ∈ beforeDecide name, c ++ [Json.colon] <:+: line → ∃ key ∈ templateKeys, c <:+ key := by
  have hcolon : Json.colon ∉ name := U.not_mem_of_isIdentifierName hname rfl
  have hnone : ∀ {line : JsString}, Json.colon ∉ line → c ++ [Json.colon] <:+: line →
      ∃ key ∈ templateKeys, c <:+ key := fun hline h => absurd h (not_found hline)
  have hkey : ∀ key last : JsString, key ∈ templateKeys → Json.colon ∉ last →
      c ++ [Json.colon] <:+: [space] ++ space :: key ++ Json.colon :: (space :: name ++ last) →
      ∃ key ∈ templateKeys, c <:+ key := by
    intro key last hkey hlast
    refine key_of_found hc [space] key (space :: name ++ last) (by decide) hkey ?_ rfl
    simp only [List.mem_append, List.mem_cons, hcolon, hlast, or_false]
    decide
  have hinitial : Json.colon ∉ ascii " initial" ++ name ++ ascii "State," := by
    simp only [List.mem_append, hcolon, or_false]
    decide
  have htype : Json.colon ∉ ascii "export type " ++ name ++ ascii "Def = \x7b" := by
    simp only [List.mem_append, hcolon, or_false]
    decide
  have hconst : Json.colon ∉ ascii "export const " ++ name ++ ascii " = defineAggregate<" ++ name ++
      ascii "Def>(\x7b" := by
    simp only [List.mem_append, hcolon, or_false]
    decide
  simp only [beforeDecide, List.forall_mem_cons]
  exact ⟨hnone (by decide), hnone isHeading_typesBundle.colon, hnone (by decide), hnone htype,
    hkey (ascii "state") (ascii "State;") (by decide +kernel) (by decide),
    hkey (ascii "events") (ascii "Event;") (by decide +kernel) (by decide),
    hkey (ascii "commands") (ascii "Command;") (by decide +kernel) (by decide),
    key_of_infrastructure hc, hnone (by decide), hnone (by decide), hnone isHeading_definition.colon,
    hnone (by decide), hnone hconst,
    key_of_found hc [space] (ascii "initialState") _ (by decide) (by decide +kernel) hinitial rfl,
    hnone (by decide), List.forall_mem_nil _⟩

namespace Definition.Proper

theorem key_of_line (h : d.Proper U ctx) (hc : U.isIdentifierName c = true) :
    ∀ line ∈ d.lines ctx, c ++ [Json.colon] <:+: line → ∃ key ∈ d.keys, c <:+ key := by
  have hnone : ∀ {line : JsString}, Json.colon ∉ line → c ++ [Json.colon] <:+: line →
      ∃ key ∈ d.keys, c <:+ key := fun hline h => absurd h (not_found hline)
  have htemplate : (∃ key ∈ templateKeys, c <:+ key) → ∃ key ∈ d.keys, c <:+ key :=
    fun ⟨key, hkey, hsuffix⟩ => ⟨key, List.mem_append_left _ hkey, hsuffix⟩
  have hbefore : ∀ line ∈ d.importLines ctx ++ (beforeEvents ++ [eventsOpening ctx.name]),
      c ++ [Json.colon] <:+: line → ∃ key ∈ d.keys, c <:+ key := by
    intro line hline hfound
    have hsearch : Json.colon ∈ c ++ [Json.colon] := by simp
    have hnot := h.not_marker_before hsearch line hline
    rw [includes_iff.mpr hfound] at hnot
    cases hnot
  have hopening : Json.colon ∉ commandsOpening ctx.name := by
    simp only [commandsOpening, List.mem_append, or_false,
      U.not_mem_of_isIdentifierName h.name (show isMark Json.colon = true from rfl)]
    decide
  have hevents : ∀ event ∈ d.events, c ++ [Json.colon] <:+: eventEntry event →
      ∃ key ∈ d.keys, c <:+ key := by
    intro event he hfound
    rcases suffix_of_eventEntry hc (h.events event he) hfound with hsuffix | hsuffix
    · exact ⟨event, by simp [keys, he], hsuffix⟩
    · exact htemplate ⟨_, by decide +kernel, hsuffix⟩
  have hcommands : ∀ command ∈ d.commands, c ++ [Json.colon] <:+: commandEntry command →
      ∃ key ∈ d.keys, c <:+ key := fun command hcommand hfound =>
    ⟨command, by simp [keys, hcommand],
      suffix_of_commandEntry hc (h.commands command hcommand) hfound⟩
  have hdecide : ∀ command ∈ d.decide,
      c ++ [Json.colon] <:+: handlerEntry (ascii "decide") command →
      ∃ key ∈ d.keys, c <:+ key := fun command hcommand hfound =>
    ⟨command, by simp [keys, hcommand],
      suffix_of_handlerEntry (by decide) hc (h.decide command hcommand) hfound⟩
  have hevolve : ∀ event ∈ d.evolve, c ++ [Json.colon] <:+: handlerEntry (ascii "evolve") event →
      ∃ key ∈ d.keys, c <:+ key := fun event he hfound =>
    ⟨event, by simp [keys, he], suffix_of_handlerEntry (by decide) hc (h.evolve event he) hfound⟩
  have hmore : ∀ rest : JsString, Json.colon ∉ rest →
      c ++ [Json.colon] <:+: ascii "  //" ++ space :: ascii "TODO" ++ Json.colon :: rest →
      ∃ key ∈ d.keys, c <:+ key := fun rest hrest hfound =>
    htemplate (key_of_found hc _ _ rest (by decide) (by decide +kernel) hrest rfl hfound)
  have hblock : ∀ key : JsString, key ∈ templateKeys →
      c ++ [Json.colon] <:+: [space] ++ space :: key ++ Json.colon :: ascii " \x7b" →
      ∃ key ∈ d.keys, c <:+ key := fun key hkey hfound =>
    htemplate (key_of_found hc [space] key _ (by decide) hkey (by decide) rfl hfound)
  have hending : ∀ line ∈ ending, Json.colon ∉ line := by decide
  have hlines : d.lines ctx = d.importLines ctx ++ (beforeEvents ++ [eventsOpening ctx.name]) ++
      d.fromEvents ctx := by
    simp [lines]
  rw [hlines]
  refine List.forall_mem_append.mpr ⟨hbefore, ?_⟩
  simp only [fromEvents, fromCommands, fromDecide, fromEvolve, List.forall_mem_append,
    List.forall_mem_cons, List.forall_mem_map]
  exact ⟨hevents, hmore (ascii " add more events") (by decide), hnone (by decide),
    hnone (by decide), hnone hopening, hcommands, hmore (ascii " add more commands") (by decide),
    hnone (by decide), fun line hline hfound =>
      htemplate (key_of_beforeDecide hc h.name line hline hfound),
    hblock (ascii "decide") (by decide +kernel), hdecide, hnone (by decide), hnone (by decide),
    hblock (ascii "evolve") (by decide +kernel), hevolve, hnone (by decide),
    fun line hline => hnone (hending line hline)⟩

/-- The search for a command finds a key that ends in its name. -/
theorem key_of_includes (h : d.Proper U ctx) (hc : U.isIdentifierName c = true)
    (hfound : includes (c ++ [Json.colon]) (joinLines (d.lines ctx)) = true) :
    ∃ key ∈ d.keys, c <:+ key := by
  have hnewline : newline ∉ c ++ [Json.colon] := by
    have hnot : newline ∉ c := U.not_mem_of_isIdentifierName hc rfl
    simp only [List.mem_append, hnot, false_or]
    decide
  obtain ⟨line, hline, hpart⟩ :=
    (infix_intercalate (by simp) hnewline).mp (includes_iff.mp hfound)
  exact h.key_of_line hc line hline hpart

/-- It finds a command that has an entry. -/
theorem includes_command (h : d.Proper U ctx) (hname : name ∈ d.commands) :
    includes (name ++ [Json.colon]) (joinLines (d.lines ctx)) = true := by
  have hnewline : newline ∉ name ++ [Json.colon] := by
    have hnot : newline ∉ name := U.not_mem_of_isIdentifierName (h.commands name hname) rfl
    simp only [List.mem_append, hnot, false_or]
    decide
  have hline : commandEntry name ∈ d.lines ctx := by
    simp [lines, fromEvents, fromCommands, List.mem_map_of_mem hname]
  have hpart : name ++ [Json.colon] <:+: commandEntry name :=
    ⟨ascii "  ", space :: (name ++ ascii "Payload;"), by
      simp only [commandEntry, List.append_assoc]
      rfl⟩
  exact includes_iff.mpr ((infix_intercalate (by simp) hnewline).mpr ⟨_, hline, hpart⟩)

end Definition.Proper

end Keys

end Noddde.Cli
