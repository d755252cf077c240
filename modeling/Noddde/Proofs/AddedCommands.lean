import Noddde.Proofs.AddCommands
/-!
# Commands added to an aggregate

A fresh aggregate, then any number of calls.
-/

namespace Noddde.Cli

open Json (ascii)
open Unicode Words Lines

structure AddCall where
  commandName : JsString
  eventName : JsString

namespace AddCall

variable (U : CharacterData) (name : JsString) (call : AddCall)

def command : JsString := toPascalCase U call.commandName

def run : FileM AddOutcome :=
  addCommandToAggregate U call.commandName (toKebabCase U name) call.eventName

structure IsValid : Prop where
  command : validateName U call.commandName = .ok ()
  event : validateName U call.eventName = .ok ()

end AddCall

section Runs

variable (U : CharacterData) (name : JsString)

def addCommands : List AddCall → FileM Unit
  | [] => pure ()
  | call :: calls => do
      discard (call.run U name)
      addCommands calls

def Reaches (calls : List AddCall) (files : Files) : Prop :=
  (generateAggregate U name >>= fun _ => addCommands U name calls).exec (fun _ => none) =
    (.ok (), files)

def commandNames (calls : List AddCall) : List JsString :=
  createCommand (toPascalCase U name) :: calls.map (·.command U)

def eventNames (calls : List AddCall) : List JsString :=
  createdEvent (toPascalCase U name) :: calls.map (·.eventName)

def ExactlyOnce (entries names : List JsString) : Prop :=
  entries.Nodup ∧ ∀ name, name ∈ entries ↔ name ∈ names

/-- Each name has its entry in the text of the definition file. -/
structure Complete (calls : List AddCall) (text : JsString) : Prop where
  commands : ExactlyOnce (entries U .commands text) (commandNames U name calls)
  decide : ExactlyOnce (entries U .decide text) (commandNames U name calls)
  events : ExactlyOnce (entries U .events text) (eventNames U name calls)
  evolve : ExactlyOnce (entries U .evolve text) (eventNames U name calls)

structure AddsUpTo (done rest : List AddCall) (files : Files) (text : JsString) : Prop where
  reaches : Reaches U name done files
  file : files (definitionPath (toKebabCase U name)) = some text
  complete : Complete U name done text
  repeated : ∀ call ∈ done, (call.run U name).exec files = (.ok .skipped, files)
  next : ∀ call ∈ rest.head?, ∃ outcome files',
    (call.run U name).exec files = (.ok outcome, files') ∧
    (outcome = .skipped ↔ call.command U ∈ entries U .commands text)

def AddsCommands (calls : List AddCall) : Prop :=
  ∀ done rest, calls = done ++ rest → ∃ files text, AddsUpTo U name done rest files text

def SameEntries (calls calls' : List AddCall) : Prop :=
  ∃ files files' text text', Reaches U name calls files ∧ Reaches U name calls' files' ∧
    files (definitionPath (toKebabCase U name)) = some text ∧
    files' (definitionPath (toKebabCase U name)) = some text' ∧
    ∀ block, (entries U block text).Perm (entries U block text')

/-! ## Calls that do not get in the way of each other -/

variable (done : List AddCall) (call : AddCall)

structure AddCall.Repeats : Prop where
  command : call.command U ∈ commandNames U name done
  event : call.eventName ∈ eventNames U name done

structure AddCall.IsFresh : Prop where
  /-- Else no line of the handlers matches. -/
  aggregate : ∀ c ∈ toPascalCase U name, isWord c = true
  command : U.isIdentifierName (call.command U) = true
  event : U.isIdentifierName call.eventName = true
  event_not_mem : call.eventName ∉ eventNames U name done
  /-- Else the search for the command finds the key. -/
  not_suffix : ∀ key ∈ templateKeys ++ (eventNames U name done ++ commandNames U name done),
    ¬ call.command U <:+ key

def Apart : List AddCall → List AddCall → Prop
  | _, [] => True
  | done, call :: calls =>
      (call.Repeats U name done ∨ call.IsFresh U name done) ∧ Apart (done ++ [call]) calls

/-- The definition file is neither the index nor the state of the aggregate. -/
structure HasDefinition : Prop where
  identifier : U.isIdentifierName (toPascalCase U name) = true
  index : toKebabCase U name ≠ ascii "index"
  state : toKebabCase U name ≠ ascii "state"

end Runs

/-! ## Runs -/

variable {U : CharacterData} {name : JsString} {done calls : List AddCall} {call : AddCall}
  {files : Files} {d : Definition}

structure Built (U : CharacterData) (name : JsString) (done : List AddCall) (files : Files)
    (d : Definition) : Prop where
  written : d.Written U (buildContext U name) files
  commands : ExactlyOnce d.commands (commandNames U name done)
  decide : ExactlyOnce d.decide (commandNames U name done)
  events : ExactlyOnce d.events (eventNames U name done)
  evolve : ExactlyOnce d.evolve (eventNames U name done)

namespace ExactlyOnce

variable {l l' names names' : List JsString} {a : JsString}

theorem of_mem_iff (h : ExactlyOnce l names) (hnames : ∀ a, a ∈ names' ↔ a ∈ names) :
    ExactlyOnce l names' :=
  ⟨h.1, fun a => (h.2 a).trans (hnames a).symm⟩

/-- A new name has its entry. -/
theorem concat (h : ExactlyOnce l names) (ha : a ∉ names) (hl : l'.Perm (a :: l)) :
    ExactlyOnce l' (names ++ [a]) := by
  refine ⟨hl.nodup_iff.mpr (List.nodup_cons.mpr ⟨fun hmem => ha ((h.2 a).mp hmem), h.1⟩), ?_⟩
  intro b
  rw [hl.mem_iff, List.mem_cons, h.2 b, List.mem_append, List.mem_singleton, or_comm]

theorem perm (h : ExactlyOnce l names) (h' : ExactlyOnce l' names') (hnames : names.Perm names') :
    l.Perm l' :=
  (List.perm_ext_iff_of_nodup h.1 h'.1).mpr fun a => by rw [h.2 a, h'.2 a, hnames.mem_iff]

end ExactlyOnce

theorem commandNames_concat (done : List AddCall) (call : AddCall) :
    commandNames U name (done ++ [call]) = commandNames U name done ++ [call.command U] := by
  simp [commandNames]

theorem eventNames_concat (done : List AddCall) (call : AddCall) :
    eventNames U name (done ++ [call]) = eventNames U name done ++ [call.eventName] := by
  simp [eventNames]

theorem mem_concat {l : List JsString} {a : JsString} (ha : a ∈ l) :
    ∀ b, b ∈ l ++ [a] ↔ b ∈ l := by
  intro b
  rw [List.mem_append, List.mem_singleton]
  exact ⟨fun hb => hb.elim id fun heq => heq ▸ ha, .inl⟩

namespace Built

theorem complete (h : Built U name done files d) :
    Complete U name done (joinLines (d.lines (buildContext U name))) where
  commands := h.written.proper.entries_commands.symm ▸ h.commands
  decide := h.written.proper.entries_decide.symm ▸ h.decide
  events := h.written.proper.entries_events.symm ▸ h.events
  evolve := h.written.proper.entries_evolve.symm ▸ h.evolve

theorem mem_keys (h : Built U name done files d) (key : JsString) : key ∈ d.keys ↔
    key ∈ templateKeys ++ (eventNames U name done ++ commandNames U name done) := by
  simp only [Definition.keys, List.mem_append, h.commands.2, h.decide.2, h.events.2, h.evolve.2]
  tauto

/-- A call whose command has an entry is skipped. -/
theorem exec_repeated (h : Built U name done files d) (hcall : call.IsValid U)
    (hmem : call.command U ∈ commandNames U name done) :
    (call.run U name).exec files = (.ok .skipped, files) :=
  exec_skipped h.written hcall.command hcall.event
    (h.written.proper.includes_command ((h.commands.2 _).mpr hmem))

theorem repeats (h : Built U name done files d) (hcall : call.Repeats U name done) :
    Built U name (done ++ [call]) files d where
  written := h.written
  commands := h.commands.of_mem_iff (commandNames_concat done call ▸ mem_concat hcall.command)
  decide := h.decide.of_mem_iff (commandNames_concat done call ▸ mem_concat hcall.command)
  events := h.events.of_mem_iff (eventNames_concat done call ▸ mem_concat hcall.event)
  evolve := h.evolve.of_mem_iff (eventNames_concat done call ▸ mem_concat hcall.event)

theorem exec_fresh (h : Built U name done files d) (hcall : call.IsValid U)
    (hfresh : call.IsFresh U name done) :
    ∃ d' files', (call.run U name).exec files = (.ok .updated, files') ∧
      Built U name (done ++ [call]) files' d' := by
  have hfound : includes (call.command U ++ [Json.colon])
      (joinLines (d.lines (buildContext U name))) = false := by
    by_contra hfound
    obtain ⟨key, hkey, hsuffix⟩ :=
      h.written.proper.key_of_includes hfresh.command (eq_true_of_ne_false hfound)
    exact hfresh.not_suffix key ((h.mem_keys key).mp hkey) hsuffix
  have hnew : call.command U ∉ commandNames U name done := fun hmem =>
    hfresh.not_suffix _ (List.mem_append_right _ (List.mem_append_right _ hmem))
      (List.suffix_refl _)
  have hcreate : ∃ c ∈ d.decide, c ≠ [] ∧ ∀ a ∈ c, isWord a = true :=
    ⟨createCommand (toPascalCase U name), (h.decide.2 _).mpr List.mem_cons_self,
      List.cons_ne_nil _ _, List.forall_mem_append.mpr ⟨List.all_eq_true.mp rfl, hfresh.aggregate⟩⟩
  have hcreated : ∃ e ∈ d.evolve, e ≠ [] ∧ ∀ a ∈ e, isWord a = true :=
    ⟨createdEvent (toPascalCase U name), (h.evolve.2 _).mpr List.mem_cons_self,
      List.append_ne_nil_of_right_ne_nil _ (by decide),
      List.forall_mem_append.mpr ⟨hfresh.aggregate, List.all_eq_true.mp rfl⟩⟩
  obtain ⟨d', files', hexec, hwritten, hextends⟩ := exec_updated h.written hcall.command
    hcall.event hfresh.command hfresh.event hcreate hcreated hfound
  refine ⟨d', files', hexec, hwritten, ?_, ?_, ?_, ?_⟩
  · rw [commandNames_concat]
    exact h.commands.concat hnew (hextends.commands ▸ List.perm_append_singleton _ _)
  · rw [commandNames_concat]
    exact h.decide.concat hnew hextends.decide
  · rw [eventNames_concat]
    exact h.events.concat hfresh.event_not_mem
      (hextends.events ▸ List.perm_append_singleton _ _)
  · rw [eventNames_concat]
    exact h.evolve.concat hfresh.event_not_mem hextends.evolve

/-- One call of a run is skipped if its command has an entry, and else adds its entries. -/
theorem step (h : Built U name done files d) (hcall : call.IsValid U)
    (hstep : call.Repeats U name done ∨ call.IsFresh U name done) :
    ∃ outcome d' files', (call.run U name).exec files = (.ok outcome, files') ∧
      (outcome = .skipped ↔ call.command U ∈ commandNames U name done) ∧
      Built U name (done ++ [call]) files' d' := by
  rcases hstep with hrepeats | hfresh
  · exact ⟨.skipped, d, files, h.exec_repeated hcall hrepeats.command,
      iff_of_true rfl hrepeats.command, h.repeats hrepeats⟩
  · obtain ⟨d', files', hexec, hbuilt⟩ := h.exec_fresh hcall hfresh
    have hnew : call.command U ∉ commandNames U name done := fun hmem =>
      hfresh.not_suffix _ (List.mem_append_right _ (List.mem_append_right _ hmem))
        (List.suffix_refl _)
    exact ⟨.updated, d', files', hexec, iff_of_false nofun hnew, hbuilt⟩

theorem run (h : Built U name done files d) (hcalls : ∀ call ∈ calls, call.IsValid U)
    (hapart : Apart U name done calls) :
    ∃ d' files', (addCommands U name calls).exec files = (.ok (), files') ∧
      Built U name (done ++ calls) files' d' := by
  induction calls generalizing done files d with
  | nil => exact ⟨d, files, rfl, by rwa [List.append_nil]⟩
  | cons call calls ih =>
    obtain ⟨hcall, hcalls⟩ := List.forall_mem_cons.mp hcalls
    obtain ⟨outcome, d₁, files₁, hexec, -, hbuilt⟩ := h.step hcall hapart.1
    obtain ⟨d₂, files₂, hrest, hbuilt₂⟩ := ih hbuilt hcalls hapart.2
    refine ⟨d₂, files₂, ?_, by rwa [List.append_cons]⟩
    rw [addCommands, FileM.exec_bind (FileM.exec_discard hexec)]
    exact hrest

end Built

theorem Apart.append {rest : List AddCall} (h : Apart U name done (calls ++ rest)) :
    Apart U name done calls ∧ Apart U name (done ++ calls) rest := by
  induction calls generalizing done with
  | nil => exact ⟨trivial, by rwa [List.append_nil]⟩
  | cons call calls ih =>
    obtain ⟨hcall, hcalls⟩ := h
    obtain ⟨hfront, hrest⟩ := ih hcalls
    exact ⟨⟨hcall, hfront⟩, by rwa [List.append_cons]⟩

theorem exactlyOnce_singleton (a : JsString) : ExactlyOnce [a] [a] :=
  ⟨List.nodup_singleton a, fun _ => Iff.rfl⟩

/-- The files after a run. -/
theorem exists_built (hname : validateName U name = .ok ()) (hdef : HasDefinition U name)
    (hcalls : ∀ call ∈ calls, call.IsValid U) (hapart : Apart U name [] calls) :
    ∃ d files, Reaches U name calls files ∧ Built U name calls files d := by
  obtain ⟨files, hexec, hwritten⟩ :=
    exec_generateAggregate hname hdef.identifier hdef.index hdef.state
  have hbuilt : Built U name [] files (generated (toPascalCase U name)) :=
    ⟨hwritten, exactlyOnce_singleton _, exactlyOnce_singleton _, exactlyOnce_singleton _,
      exactlyOnce_singleton _⟩
  obtain ⟨d, files', hrun, hbuilt'⟩ := hbuilt.run hcalls hapart
  exact ⟨d, files', (FileM.exec_bind hexec).trans hrun, hbuilt'⟩

theorem addsCommands (hname : validateName U name = .ok ()) (hdef : HasDefinition U name)
    (hcalls : ∀ call ∈ calls, call.IsValid U) (hapart : Apart U name [] calls) :
    AddsCommands U name calls := by
  rintro done rest rfl
  obtain ⟨hdone, hrest⟩ := List.forall_mem_append.mp hcalls
  obtain ⟨hapart, hnext⟩ := hapart.append
  obtain ⟨d, files, hreaches, hbuilt⟩ := exists_built hname hdef hdone hapart
  refine ⟨files, _, hreaches, hbuilt.written.file, hbuilt.complete, ?_, ?_⟩
  · intro call hcall
    exact hbuilt.exec_repeated (hdone call hcall)
      (List.mem_cons_of_mem _ (List.mem_map_of_mem hcall))
  · rcases rest with _ | ⟨call, rest⟩
    · nofun
    · rintro _ ⟨⟩
      obtain ⟨outcome, d', files', hexec, hskip, -⟩ :=
        hbuilt.step (hrest call List.mem_cons_self) hnext.1
      exact ⟨outcome, files', hexec, hskip.trans (hbuilt.complete.commands.2 _).symm⟩

theorem Complete.perm {text text' : JsString} {calls' : List AddCall}
    (h : Complete U name calls text) (h' : Complete U name calls' text')
    (hcalls : calls.Perm calls') (block : Block) :
    (entries U block text).Perm (entries U block text') := by
  have hcommands : (commandNames U name calls).Perm (commandNames U name calls') :=
    (hcalls.map _).cons _
  have hevents : (eventNames U name calls).Perm (eventNames U name calls') :=
    (hcalls.map _).cons _
  cases block with
  | events => exact h.events.perm h'.events hevents
  | commands => exact h.commands.perm h'.commands hcommands
  | decide => exact h.decide.perm h'.decide hcommands
  | evolve => exact h.evolve.perm h'.evolve hevents

/-- Calls that do not get in the way of each other add each entry once, in any order. -/
theorem addsCommands_of_apart (hname : validateName U name = .ok ()) (hdef : HasDefinition U name)
    (hcalls : ∀ call ∈ calls, call.IsValid U) (hapart : Apart U name [] calls) :
    AddsCommands U name calls ∧ ∀ calls', calls.Perm calls' → Apart U name [] calls' →
      SameEntries U name calls calls' := by
  refine ⟨addsCommands hname hdef hcalls hapart, fun calls' hperm hapart' => ?_⟩
  have hcalls' : ∀ call ∈ calls', call.IsValid U := fun call hcall =>
    hcalls call (hperm.mem_iff.mpr hcall)
  obtain ⟨d, files, hreaches, hbuilt⟩ := exists_built hname hdef hcalls hapart
  obtain ⟨d', files', hreaches', hbuilt'⟩ := exists_built hname hdef hcalls' hapart'
  exact ⟨files, files', _, _, hreaches, hreaches', hbuilt.written.file, hbuilt'.written.file,
    hbuilt.complete.perm hbuilt'.complete hperm⟩

theorem addsCommands_of_apart_auction :
    AddsCommands .ascii (ascii "Auction") [⟨ascii "Bid", ascii "BidMade"⟩,
        ⟨ascii "PlaceBid", ascii "BidPlaced"⟩, ⟨ascii "place-bid", ascii "BidPlaced"⟩] ∧
      ∀ calls', List.Perm [⟨ascii "Bid", ascii "BidMade"⟩,
        ⟨ascii "PlaceBid", ascii "BidPlaced"⟩, ⟨ascii "place-bid", ascii "BidPlaced"⟩] calls' →
        Apart .ascii (ascii "Auction") [] calls' →
        SameEntries .ascii (ascii "Auction") [⟨ascii "Bid", ascii "BidMade"⟩,
          ⟨ascii "PlaceBid", ascii "BidPlaced"⟩,
          ⟨ascii "place-bid", ascii "BidPlaced"⟩] calls' := by
  refine addsCommands_of_apart (by decide) ⟨by decide, by decide, by decide⟩ ?_ ?_
  · simp only [List.forall_mem_cons]
    exact ⟨⟨by decide, by decide⟩, ⟨by decide, by decide⟩, ⟨by decide, by decide⟩, nofun⟩
  · have haggregate : ∀ c ∈ toPascalCase .ascii (ascii "Auction"), isWord c = true :=
      List.all_eq_true.mp rfl
    exact ⟨.inr ⟨haggregate, by decide, by decide, by decide +kernel, by decide +kernel⟩,
      .inr ⟨haggregate, by decide, by decide, by decide +kernel, by decide +kernel⟩,
      .inl ⟨by decide +kernel, by decide +kernel⟩, trivial⟩

theorem addCommands_concat (calls : List AddCall) (call : AddCall) :
    addCommands U name (calls ++ [call]) =
      addCommands U name calls >>= fun _ => discard (call.run U name) := by
  induction calls with
  | nil => simp [addCommands]
  | cons first calls ih => simp [addCommands, ih]

theorem Reaches.concat {outcome : AddOutcome} {files' : Files} (h : Reaches U name calls files)
    (hexec : (call.run U name).exec files = (.ok outcome, files')) :
    Reaches U name (calls ++ [call]) files' := by
  rw [Reaches, addCommands_concat, ← bind_assoc, FileM.exec_bind h]
  exact FileM.exec_discard hexec

/-- In the other order the search for the second command finds the first. -/
theorem addsCommands_fails :
    validateName .ascii (ascii "Auction") = .ok () ∧
      AddCall.IsValid .ascii ⟨ascii "PlaceBid", ascii "BidPlaced"⟩ ∧
      AddCall.IsValid .ascii ⟨ascii "Bid", ascii "BidMade"⟩ ∧
      ¬ AddsCommands .ascii (ascii "Auction")
        [⟨ascii "PlaceBid", ascii "BidPlaced"⟩, ⟨ascii "Bid", ascii "BidMade"⟩] := by
  have hname : validateName .ascii (ascii "Auction") = .ok () := by decide
  have hplace : AddCall.IsValid .ascii ⟨ascii "PlaceBid", ascii "BidPlaced"⟩ :=
    ⟨by decide, by decide⟩
  have hbid : AddCall.IsValid .ascii ⟨ascii "Bid", ascii "BidMade"⟩ := ⟨by decide, by decide⟩
  have hfirst : ∃ d files,
      Reaches .ascii (ascii "Auction") [⟨ascii "PlaceBid", ascii "BidPlaced"⟩] files ∧
      Built .ascii (ascii "Auction") [⟨ascii "PlaceBid", ascii "BidPlaced"⟩] files d :=
    exists_built hname ⟨by decide, by decide, by decide⟩ (List.forall_mem_singleton.mpr hplace)
      ⟨.inr ⟨List.all_eq_true.mp rfl, by decide, by decide, by decide +kernel,
        by decide +kernel⟩, trivial⟩
  obtain ⟨d, files, hreaches, hbuilt⟩ := hfirst
  have hplaced : ascii "PlaceBid" ∈ d.commands := (hbuilt.commands.2 _).mpr (by decide +kernel)
  have hfound : includes (ascii "Bid" ++ [Json.colon])
      (joinLines (d.lines (buildContext .ascii (ascii "Auction")))) = true := by
    have hsearch := includes_iff.mp (hbuilt.written.proper.includes_command hplaced)
    have hpart : ascii "Bid" ++ [Json.colon] <:+: ascii "PlaceBid" ++ [Json.colon] :=
      ⟨ascii "Place", [], rfl⟩
    exact includes_iff.mpr (hpart.trans hsearch)
  have hskipped : (AddCall.run .ascii (ascii "Auction") ⟨ascii "Bid", ascii "BidMade"⟩).exec files =
      (.ok .skipped, files) := exec_skipped hbuilt.written hbid.command hbid.event hfound
  refine ⟨hname, hplace, hbid, fun h => ?_⟩
  obtain ⟨files', text, hafter⟩ := h _ [] (List.append_nil _).symm
  have hsame : files' = files :=
    (Prod.mk.inj (hafter.reaches.symm.trans (hreaches.concat hskipped))).2
  have htext : text = joinLines (d.lines (buildContext .ascii (ascii "Auction"))) :=
    Option.some.inj (hafter.file.symm.trans (hsame ▸ hbuilt.written.file))
  have hentry : ascii "Bid" ∈ entries .ascii .commands text :=
    (hafter.complete.commands.2 _).mpr (by decide +kernel)
  rw [htext] at hentry
  revert hentry
  rw [hbuilt.complete.commands.2]
  decide +kernel

end Noddde.Cli
