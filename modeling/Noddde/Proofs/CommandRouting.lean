import Noddde.Engine.CommandRouting
/-!
# Where a command ends up

The bus knows exactly the registrations of `init`.  The scan of the decide maps finds the
same handler unless the first map that answers to the name does not have it as a key.
-/

namespace Noddde.CommandRouting

variable {H : Type} {definition : Definition H}

/-- The first aggregate that answers to the command has it as an own key. -/
def FirstOwns (definition : Definition H) (commandName : String) : Prop :=
  ∀ entry, definition.aggregates.entries.find? (fun entry => entry.2.answers commandName) =
    some entry → commandName ∈ entry.2.keys

/-! ## The bus after `init` -/

theorem register_eq_ok_iff {bus bus' : InMemoryCommandBus H} {commandName : String}
    {handler : Handler H} :
    bus.register commandName handler = .ok bus' ↔
      bus.handlers.get commandName = none ∧
        bus' = { handlers := bus.handlers.set commandName handler } := by
  unfold InMemoryCommandBus.register
  cases bus.handlers.get commandName <;> simp [eq_comm]

/-- A name is known after some registrations if it was known before or is among them. -/
theorem get_foldlM_register {calls : List (String × Handler H)}
    {bus bus' : InMemoryCommandBus H}
    (h : calls.foldlM (fun (bus : InMemoryCommandBus H) registration =>
      bus.register registration.1 registration.2) bus = .ok bus')
    (commandName : String) (handler : Handler H) :
    bus'.handlers.get commandName = some handler ↔
      bus.handlers.get commandName = some handler ∨ (commandName, handler) ∈ calls := by
  induction calls generalizing bus with
  | nil =>
      obtain rfl : bus = bus' := by simpa [pure, Except.pure] using h
      simp
  | cons call rest ih =>
      rw [List.foldlM_cons] at h
      cases hregister : bus.register call.1 call.2 with
      | error e =>
          rw [hregister] at h
          cases h
      | ok next =>
          rw [hregister] at h
          obtain ⟨hfresh, rfl⟩ := register_eq_ok_iff.mp hregister
          rw [ih h, List.mem_cons, InsertionMap.get_set]
          by_cases hname : commandName = call.1
          · subst hname
            simp [hfresh, Prod.ext_iff, eq_comm]
          · simp [hname, Prod.ext_iff]

theorem init_eq_ok {domain : Domain H} (h : init definition = .ok domain) :
    ∃ bus, (registrations definition).foldlM (fun (bus : InMemoryCommandBus H) registration =>
        bus.register registration.1 registration.2) {} = .ok bus ∧
      domain = { definition, commandBus := bus } := by
  unfold init at h
  cases hbus : (registrations definition).foldlM (fun (bus : InMemoryCommandBus H) registration =>
      bus.register registration.1 registration.2) {} with
  | error e =>
      rw [hbus] at h
      cases h
  | ok bus =>
      rw [hbus] at h
      exact ⟨bus, rfl, (Except.ok.inj h).symm⟩

theorem get_commandBus {domain : Domain H} (h : init definition = .ok domain)
    (commandName : String) (handler : Handler H) :
    domain.commandBus.handlers.get commandName = some handler ↔
      (commandName, handler) ∈ registrations definition := by
  obtain ⟨bus, hbus, rfl⟩ := init_eq_ok h
  simpa using get_foldlM_register hbus commandName handler

theorem dispatch_eq_ok_iff {bus : InMemoryCommandBus H} {commandName : String}
    {handler : Handler H} :
    bus.dispatch commandName = .ok handler ↔ bus.handlers.get commandName = some handler := by
  unfold InMemoryCommandBus.dispatch
  cases bus.handlers.get commandName <;> simp

theorem aggregate_mem_registrations {aggregateName commandName : String} {decide : DecideMap}
    (hentry : (aggregateName, decide) ∈ definition.aggregates.entries) :
    (commandName, Handler.aggregate aggregateName) ∈ registrations definition ↔
      commandName ∈ decide.keys := by
  have hunique {other : DecideMap}
      (hother : (aggregateName, other) ∈ definition.aggregates.entries) : other = decide := by
    rw [InsertionMap.mem_iff_getEntry definition.aggregates.nodup] at hentry hother
    exact Option.some.inj (hother.symm.trans hentry)
  unfold registrations
  constructor
  · intro hmem
    rcases List.mem_append.mp hmem with hmem | hmem
    · obtain ⟨⟨name, other⟩, hother, hmem⟩ := List.mem_flatMap.mp hmem
      obtain ⟨key, hkey, heq⟩ := List.mem_map.mp hmem
      obtain ⟨rfl, hname⟩ := Prod.mk.inj heq
      obtain rfl := Handler.aggregate.inj hname
      exact hunique hother ▸ hkey
    · obtain ⟨⟨name, handler⟩, -, hmem⟩ := List.mem_filterMap.mp hmem
      cases handler <;> simp at hmem
  · intro hkey
    exact List.mem_append_left _ (List.mem_flatMap.mpr
      ⟨_, hentry, List.mem_map.mpr ⟨commandName, hkey, rfl⟩⟩)

/-! ## Agreement -/

theorem dispatchCommand_eq_iff {domain : Domain H} (h : init definition = .ok domain)
    (commandName : String) :
    domain.dispatchCommand commandName = domain.commandBus.dispatch commandName ↔
      FirstOwns definition commandName := by
  obtain ⟨hdefinition, hrunning⟩ : domain.definition = definition ∧
      domain.shuttingDown = false := by
    obtain ⟨bus, -, rfl⟩ := init_eq_ok h
    exact ⟨rfl, rfl⟩
  unfold Domain.dispatchCommand FirstOwns
  rw [hrunning, hdefinition]
  simp only [Bool.false_eq_true, if_false]
  cases hfirst : definition.aggregates.entries.find? fun entry =>
    entry.2.answers commandName with
  | none => simp
  | some entry =>
      have hentry := List.mem_of_find?_eq_some hfirst
      rw [eq_comm, dispatch_eq_ok_iff, get_commandBus h, aggregate_mem_registrations hentry]
      simp

/-! ## A name that every object answers to -/

def accounts : Definition Unit where
  aggregates := (∅ : InsertionMap String DecideMap).set "Account"
    { keys := ["Deposit"]
      nodup := by decide
      inherits := fun commandName => ["constructor", "toString", "valueOf"].contains commandName }

theorem dispatchCommand_toString_ne :
    ¬ ∀ domain, init accounts = .ok domain → ∀ commandName,
      domain.dispatchCommand commandName = domain.commandBus.dispatch commandName := by
  intro h
  have hname := h _ rfl "toString"
  revert hname
  decide

theorem dispatchCommand_deposit :
    ∃ domain, init accounts = .ok domain ∧
      domain.dispatchCommand "Deposit" = domain.commandBus.dispatch "Deposit" := by
  have hinit : init accounts = .ok _ := rfl
  refine ⟨_, hinit, (dispatchCommand_eq_iff hinit "Deposit").mpr ?_⟩
  intro entry hentry
  obtain rfl := Option.some.inj (hentry.symm.trans
    (rfl : _ = some ("Account", (⟨["Deposit"], by decide, _⟩ : DecideMap))))
  exact List.mem_singleton.mpr rfl

end Noddde.CommandRouting
