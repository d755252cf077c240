import Noddde.Engine.Delivery
import Noddde.Proofs.Subscriptions
/-!
# What a step of a delivery can do

The kinds of steps, and what every run keeps: the registry has the handlers that
`init` subscribed, and a commit appends to the streams.
-/

namespace Noddde.Delivery

open ReadModel (Handler Registry)

variable {J Infra : Type} {domain : Domain J Infra} {s t : State J Infra}

/-! ## The kinds of steps -/

def Frame.ReactsTo (trigger : Option (Emitted J)) : Frame J Infra → Prop
  | .running trigger' _ _ => trigger' = trigger
  | _ => False

abbrev HandlerCall (J : Type) := Handler × Emitted J

def projectionOf : Handler → Option String
  | .projection name _ => some name
  | _ => none

/-- The event that is dispatched next, with the frames below it. -/
def State.due (s : State J Infra) : Option (Emitted J × List (Frame J Infra)) :=
  match s.stack with
  | .publish (event :: _) :: rest => some (event, rest)
  | _ => none

inductive Move (domain : Domain J Infra) (s : State J Infra) : State J Infra → Prop where
  | command {script : Script J Infra} (hidle : s.stack = []) :
      Move domain s { s with stack := [.running none none script] }
  | rebuild {name : String} (hidle : s.stack = []) :
      Move domain s
        { s with handlers := rebuilt (domain.readModel.subscriptionsOf name) s.handlers }
  | dispatch {event : Emitted J} {events : List (Emitted J)} {rest : List (Frame J Infra)}
      (hstack : s.stack = .publish (event :: events) :: rest) :
      Move domain s
        { s with
          stack := .dispatch event (s.handlers event.event.name) :: .publish events :: rest
          dispatched := event :: s.dispatched }
  | deliver {event : Emitted J} {handler : Handler} {handlers : List Handler}
      {rest : List (Frame J Infra)} (called : List (Frame J Infra)) {sagaStore : StateStore J}
      (hstack : s.stack = .dispatch event (handler :: handlers) :: rest)
      (hcalled : ∀ frame ∈ called, frame.ReactsTo (some event))
      (hprojection : (projectionOf handler).isSome → called = []) :
      Move domain s
        { s with
          sagaStore
          stack := called ++ .dispatch event handlers :: rest
          received := (handler, event) :: s.received }
  | finish {frame : Frame J Infra} {rest : List (Frame J Infra)}
      (hstack : s.stack = frame :: rest)
      (hdone : frame = .publish [] ∨ ∃ event, frame = .dispatch event []) :
      Move domain s { s with stack := rest }
  /-- A function goes on, and may commit a unit of work without success. -/
  | work {frame : Frame J Infra} {trigger : Option (Emitted J)}
      {rest : List (Frame J Infra)} (kept : List (Frame J Infra)) {sagaStore : StateStore J}
      (contributions : List (Contribution J)) (hstack : s.stack = frame :: rest)
      (hframe : frame.ReactsTo trigger) (hkept : ∀ frame ∈ kept, frame.ReactsTo trigger) :
      Move domain s
        { s with
          sagaStore
          eventStore := (commit contributions s.eventStore).2
          stack := kept ++ rest }
  /-- A function goes on, once what it has committed is published. -/
  | publish {frame : Frame J Infra} {trigger : Option (Emitted J)}
      {rest : List (Frame J Infra)} (kept : List (Frame J Infra)) {sagaStore : StateStore J}
      {eventStore : EventStore J} {contributions : List (Contribution J)} {events : List (Event J)}
      (hstack : s.stack = frame :: rest) (hframe : frame.ReactsTo trigger)
      (hkept : ∀ frame ∈ kept, frame.ReactsTo trigger)
      (hcommit : commit contributions s.eventStore = (.ok events, eventStore)) :
      Move domain s ({ s with sagaStore, eventStore, stack := kept ++ rest }.publish trigger events)

variable {c : Choice J Infra}

/-- The saga is ignored, or its state may be saved and its commands be dispatched. -/
theorem executeSaga_cases (domain : Domain J Infra) (c : Choice J Infra) (sagaName : String) (event : Emitted J)
    (s : State J Infra) :
    ∃ (sagaStore : StateStore J) (called : List (Frame J Infra)),
      (∀ frame ∈ called, frame.ReactsTo (some event)) ∧
      executeSaga domain c sagaName event s =
        { s with sagaStore, stack := called ++ s.stack } := by
  have hignored : ∃ (sagaStore : StateStore J) (called : List (Frame J Infra)),
      (∀ frame ∈ called, frame.ReactsTo (some event)) ∧
      s = { s with sagaStore, stack := called ++ s.stack } :=
    ⟨s.sagaStore, [], by simp, rfl⟩
  unfold executeSaga
  dsimp only
  split
  · exact hignored
  · split
    · exact hignored
    · split
      · exact hignored
      · split
        · exact hignored
        · split
          · exact ⟨s.sagaStore, [_], by simp [Frame.ReactsTo], rfl⟩
          · split
            · exact hignored
            · rename_i sagaStore _
              exact ⟨sagaStore, [_], by simp [Frame.ReactsTo], rfl⟩

theorem deliver_move {event : Emitted J} {handler : Handler} {handlers : List Handler}
    {rest : List (Frame J Infra)} (hstack : s.stack = .dispatch event (handler :: handlers) :: rest) :
    Move domain s
      (deliver domain c handler event { s with stack := .dispatch event handlers :: rest }) := by
  cases handler with
  | projection name eventName => exact .deliver [] hstack (by simp) fun _ => rfl
  | saga sagaName eventName =>
      obtain ⟨sagaStore, called, hcalled, heq⟩ := executeSaga_cases domain c sagaName
        event
        { s with
          stack := .dispatch event handlers :: rest
          received := (.saga sagaName eventName, event) :: s.received }
      simp only [deliver, heq]
      exact .deliver called hstack hcalled nofun
  | standalone eventName =>
      exact .deliver [_] hstack (by simp [Frame.ReactsTo]) nofun

theorem dispatchCommand_move {trigger : Option (Emitted J)} {uow : Option (SagaUow J)}
    {command : Command J} {next : Except Err Unit → Infra → Script J Infra}
    {rest : List (Frame J Infra)}
    (hstack : s.stack = .running trigger uow (.dispatchCommand command next) :: rest) :
    Move domain s (dispatchCommand domain c trigger uow command next rest s) := by
  have hidle : ∀ frame : Frame J Infra, frame.ReactsTo trigger →
      Move domain s { s with stack := frame :: rest } := by
    intro frame hframe
    exact .work [frame] [] hstack rfl (by simpa using hframe)
  unfold dispatchCommand
  dsimp only
  split
  · exact hidle _ rfl
  · exact hidle _ rfl
  · split
    · exact hidle _ rfl
    · rename_i contribution _
      cases uow with
      | some uow => exact hidle _ rfl
      | none =>
          dsimp only
          split
          · rename_i error eventStore hcommit
            have hstore : eventStore = (commit contribution.toList s.eventStore).2 := by
              rw [hcommit]
            rw [hstore]
            exact .work [_] _ hstack rfl (by simp [Frame.ReactsTo])
          · rename_i events eventStore hcommit
            exact .publish [_] hstack rfl (by simp [Frame.ReactsTo]) hcommit

theorem commitSaga_move {trigger : Option (Emitted J)} {uow : SagaUow J}
    {script : Script J Infra} {rest : List (Frame J Infra)}
    (hstack : s.stack = .running trigger (some uow) script :: rest) :
    Move domain s (commitSaga trigger uow { s with stack := rest }) := by
  unfold commitSaga
  split
  · exact .work [] [] hstack rfl (by simp)
  · split
    · rename_i error eventStore hcommit
      have hstore : eventStore = (commit uow.contributions s.eventStore).2 := by
        simp only at hcommit
        rw [hcommit]
      rw [hstore]
      exact .work [] _ hstack rfl (by simp)
    · rename_i events eventStore hcommit
      exact .publish [] hstack rfl (by simp) hcommit

theorem step_move {action : Action J Infra} (h : step domain s action = some t) :
    Move domain s t := by
  cases action with
  | command command =>
      simp only [step] at h
      split_ifs at h with hidle
      rw [← Option.some.inj h]
      exact .command (List.isEmpty_iff.mp hidle)
  | rebuild name =>
      simp only [step] at h
      split_ifs at h with hidle
      rw [← Option.some.inj h]
      exact .rebuild (List.isEmpty_iff.mp hidle)
  | next c =>
      simp only [step, next] at h
      split at h
      · cases h
      all_goals
        rename_i hstack
        rw [← Option.some.inj h]
      · exact .finish hstack (.inl rfl)
      · exact .dispatch hstack
      · exact .finish hstack (.inr ⟨_, rfl⟩)
      · exact deliver_move hstack
      · exact dispatchCommand_move hstack
      · exact commitSaga_move hstack
      · exact .work [] [] hstack rfl (by simp)

/-! ## The numbers of a batch -/

theorem map_event_number (trigger : Option (Emitted J)) (first : Nat)
    (events : List (Event J)) : (number trigger first events).map Emitted.event = events := by
  induction events generalizing first with
  | nil => rfl
  | cons event rest ih => rw [number, List.map_cons, ih]

theorem map_number_number (trigger : Option (Emitted J)) (first : Nat)
    (events : List (Event J)) :
    (number trigger first events).map Emitted.number = List.range' first events.length := by
  induction events generalizing first with
  | nil => rfl
  | cons event rest ih =>
      rw [number, List.map_cons, ih, List.length_cons, List.range'_succ]

theorem trigger_of_mem_number {trigger : Option (Emitted J)} {first : Nat}
    {events : List (Event J)} {event : Emitted J} (h : event ∈ number trigger first events) :
    event.trigger = trigger := by
  induction events generalizing first with
  | nil => cases h
  | cons raw rest ih =>
      rcases List.mem_cons.mp h with rfl | hrest
      · rfl
      · exact ih hrest

/-! ## The registry -/

/-- The handlers that `init` subscribed are registered, in some order. -/
def Subscribed (domain : Domain J Infra) (s : State J Infra) : Prop :=
  ∀ eventName, (s.handlers eventName).Perm (domain.readModel.init eventName)

theorem rebuilt_perm {readModel : ReadModel.Domain J Infra} {name : String}
    {registry : Registry} (h : ∀ eventName, (registry eventName).Perm (readModel.init eventName))
    (eventName : String) :
    (rebuilt (readModel.subscriptionsOf name) registry eventName).Perm
      (readModel.init eventName) := by
  rw [List.perm_iff_count]
  intro handler
  rw [rebuilt, ReadModel.count_foldl_on, ReadModel.count_foldl_off, (h eventName).count_eq]
  have hle : (readModel.subscriptionsOf name).count (eventName, handler) ≤
      (readModel.init eventName).count handler := by
    by_cases hne : ∃ eventName', handler = .projection name eventName'
    · obtain ⟨eventName', rfl⟩ := hne
      exact le_of_eq ReadModel.count_init_projection.symm
    · rw [ReadModel.count_subscriptionsOf_of_ne fun eventName' heq => hne ⟨eventName', heq⟩]
      exact Nat.zero_le _
  omega

theorem subscribed_of_move (h : Subscribed domain s) (hmove : Move domain s t) :
    Subscribed domain t := by
  cases hmove with
  | rebuild => exact rebuilt_perm h
  | _ => exact h

theorem nodup_init (domain : Domain J Infra) (eventName : String) :
    (domain.readModel.init eventName).Nodup := by
  rw [List.nodup_iff_count_le_one]
  intro handler
  cases handler with
  | projection name eventName' =>
      rw [ReadModel.count_init_projection]
      exact List.nodup_iff_count_le_one.mp (ReadModel.nodup_subscriptionsOf _ name) _
  | saga name eventName' =>
      rw [ReadModel.init_eq, count_map_snd_filter]
      have hprojections : domain.readModel.projectionSubscriptions.count
          (eventName, .saga name eventName') = 0 := by
        simp [List.count_eq_zero, ReadModel.Domain.projectionSubscriptions]
      have hstandalone : domain.readModel.standaloneSubscriptions.count
          (eventName, .saga name eventName') = 0 := by
        simp [List.count_eq_zero, ReadModel.Domain.standaloneSubscriptions]
      have hsagas : domain.readModel.sagaSubscriptions.Nodup := by
        unfold ReadModel.Domain.sagaSubscriptions
        rw [List.nodup_flatMap]
        constructor
        · intro saga hsaga
          apply (domain.sagaEvents saga hsaga).map
          intro a b hab
          exact congrArg Prod.fst hab
        · apply (List.pairwise_map.mp domain.sagaNames).imp
          intro a b hne
          simp only [List.disjoint_left, List.mem_map, not_exists, not_and,
            forall_exists_index, and_imp]
          rintro _ x - rfl y - heq
          simp only [Prod.mk.injEq, Handler.saga.injEq] at heq
          exact hne heq.2.1.symm
      rw [ReadModel.Domain.subscriptions, List.count_append, List.count_append, hprojections,
        hstandalone]
      have hone := List.nodup_iff_count_le_one.mp hsagas (eventName, .saga name eventName')
      omega
  | standalone eventName' =>
      rw [ReadModel.init_eq, count_map_snd_filter]
      have hprojections : domain.readModel.projectionSubscriptions.count
          (eventName, .standalone eventName') = 0 := by
        simp [List.count_eq_zero, ReadModel.Domain.projectionSubscriptions]
      have hsagas : domain.readModel.sagaSubscriptions.count
          (eventName, .standalone eventName') = 0 := by
        simp [List.count_eq_zero, ReadModel.Domain.sagaSubscriptions]
      have hstandalone : domain.readModel.standaloneSubscriptions.Nodup := by
        apply domain.standaloneEvents.map
        intro a b hab
        exact congrArg Prod.fst hab
      rw [ReadModel.Domain.subscriptions, List.count_append, List.count_append, hprojections,
        hsagas]
      have hone := List.nodup_iff_count_le_one.mp hstandalone (eventName, .standalone eventName')
      omega

theorem Subscribed.nodup (h : Subscribed domain s) (eventName : String) :
    (s.handlers eventName).Nodup :=
  (h eventName).nodup_iff.mpr (nodup_init domain eventName)

end Noddde.Delivery
