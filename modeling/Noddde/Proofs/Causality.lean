import Noddde.Async.Machine
import Noddde.Engine.DeliverySample
import Noddde.Proofs.Delivery
/-!
# Causes before effects

A projection is called with the events that it handles in the order in which the bus
was given them, as long as no event is dispatched while a projection that handles it
still waits for an earlier one.  A saga's reaction is published, and so given to the
bus, after the event that it reacts to.
-/

namespace Noddde.Delivery

open ReadModel (Handler Registry)

variable {J Infra : Type} {domain : Domain J Infra} {s t : State J Infra}

/-! ## The chronicle -/

/-- `effect` is the event of a reaction to `cause`, or of reactions to such events. -/
def Produced (cause effect : Emitted J) : Prop :=
  Relation.TransGen (fun cause effect : Emitted J => effect.trigger = some cause) cause effect

/-- Newest first, the trigger of every event is among the events before it. -/
def CausesFirst : List (Emitted J) → Prop
  | [] => True
  | event :: rest => (∀ cause ∈ event.trigger, cause ∈ rest) ∧ CausesFirst rest

theorem CausesFirst.of_append {later earlier : List (Emitted J)}
    (h : CausesFirst (later ++ earlier)) : CausesFirst earlier := by
  induction later with
  | nil => exact h
  | cons event rest ih => exact ih h.2

theorem CausesFirst.mem {later earlier : List (Emitted J)} {cause effect : Emitted J}
    (h : CausesFirst (later ++ effect :: earlier)) (hproduced : Produced cause effect) :
    cause ∈ earlier := by
  induction hproduced generalizing later earlier with
  | single htrigger => exact h.of_append.1 _ htrigger
  | tail _ htrigger ih =>
      have heffect := h.of_append
      obtain ⟨before, after, hsplit⟩ := List.append_of_mem (heffect.1 _ htrigger)
      have hcauses := heffect.2
      rw [hsplit] at hcauses ⊢
      have hmem := ih hcauses
      exact List.mem_append_right _ (List.mem_cons_of_mem _ hmem)

def Frame.pending : Frame J Infra → List (Emitted J)
  | .publish events => events
  | _ => []

def Frame.causes : Frame J Infra → List (Emitted J)
  | .publish events => events.filterMap Emitted.trigger
  | .dispatch event _ => [event]
  | .running trigger _ _ => trigger.toList

def State.pending (s : State J Infra) : List (Emitted J) := s.stack.flatMap Frame.pending

/-- What holds of every state. -/
structure Chronicle (s : State J Infra) : Prop where
  distinct : ((s.pending ++ s.dispatched).map Emitted.number).Nodup
  numbered : ∀ event ∈ s.pending ++ s.dispatched, event.number < s.emitted
  causes : CausesFirst s.dispatched
  caused : ∀ frame ∈ s.stack, ∀ cause ∈ frame.causes, cause ∈ s.dispatched

theorem chronicle_start : Chronicle (State.start domain) where
  distinct := List.nodup_nil
  numbered _ h := by cases h
  causes := trivial
  caused _ h := by cases h

section Frames

variable {frame : Frame J Infra} {trigger : Option (Emitted J)}

theorem pending_of_reactsTo (h : frame.ReactsTo trigger) : frame.pending = [] := by
  cases frame with
  | running => rfl
  | publish => cases h
  | dispatch => cases h

theorem causes_of_reactsTo (h : frame.ReactsTo trigger) : frame.causes = trigger.toList := by
  cases frame with
  | running trigger' uow script =>
      obtain rfl : trigger' = trigger := h
      rfl
  | publish => cases h
  | dispatch => cases h

end Frames

theorem Chronicle.work (h : Chronicle s) {frame : Frame J Infra} {trigger : Option (Emitted J)}
    {rest kept : List (Frame J Infra)} (sagaStore : StateStore J) (eventStore : EventStore J)
    (hstack : s.stack = frame :: rest) (hframe : frame.ReactsTo trigger)
    (hkept : ∀ frame ∈ kept, frame.ReactsTo trigger) :
    Chronicle { s with sagaStore, eventStore, stack := kept ++ rest } ∧
      ∀ cause ∈ trigger, cause ∈ s.dispatched := by
  have hpending : (kept ++ rest).flatMap Frame.pending = s.pending := by
    have hnone : kept.flatMap Frame.pending = [] :=
      List.flatMap_eq_nil_iff.mpr fun frame' hframe' => pending_of_reactsTo (hkept frame' hframe')
    rw [State.pending, hstack, List.flatMap_append, List.flatMap_cons, hnone,
      pending_of_reactsTo hframe]
  have htrigger : ∀ cause ∈ trigger, cause ∈ s.dispatched := by
    intro cause hcause
    apply h.caused frame (hstack ▸ List.mem_cons_self)
    rw [causes_of_reactsTo hframe]
    exact Option.mem_toList.mpr hcause
  refine ⟨⟨?_, ?_, h.causes, ?_⟩, htrigger⟩
  · rw [State.pending, hpending]
    exact h.distinct
  · rw [State.pending, hpending]
    exact h.numbered
  · intro frame' hframe' cause hcause
    rcases List.mem_append.mp hframe' with hnew | hold
    · rw [causes_of_reactsTo (hkept frame' hnew)] at hcause
      exact htrigger cause (Option.mem_toList.mp hcause)
    · exact h.caused frame' (hstack ▸ List.mem_cons_of_mem _ hold) cause hcause

theorem chronicle_of_move (h : Chronicle s) (hmove : Move domain s t) : Chronicle t := by
  cases hmove with
  | command hidle =>
      have hpending : s.pending = [] := by rw [State.pending, hidle, List.flatMap_nil]
      refine ⟨?_, ?_, h.causes, ?_⟩
      · have hdistinct := h.distinct
        rwa [hpending] at hdistinct
      · have hnumbered := h.numbered
        rwa [hpending] at hnumbered
      · intro frame hframe cause hcause
        rw [List.mem_singleton.mp hframe] at hcause
        cases hcause
  | rebuild => exact ⟨h.distinct, h.numbered, h.causes, h.caused⟩
  | @dispatch event events rest hstack =>
      have hperm : ((events ++ rest.flatMap Frame.pending) ++ event :: s.dispatched).Perm
          (s.pending ++ s.dispatched) := by
        rw [State.pending, hstack, List.flatMap_cons]
        exact List.perm_middle
      have hcaused := h.caused
      rw [hstack] at hcaused
      have hpublish := hcaused _ List.mem_cons_self
      refine ⟨?_, ?_, ⟨?_, h.causes⟩, ?_⟩
      · exact (hperm.map Emitted.number).nodup_iff.mpr h.distinct
      · intro event' hevent'
        exact h.numbered event' (hperm.mem_iff.mp hevent')
      · intro cause hcause
        exact hpublish cause (List.mem_filterMap.mpr ⟨event, List.mem_cons_self, hcause⟩)
      · intro frame hframe cause hcause
        rcases List.mem_cons.mp hframe with rfl | hframe'
        · rw [List.mem_singleton.mp hcause]
          exact List.mem_cons_self
        · apply List.mem_cons_of_mem
          rcases List.mem_cons.mp hframe' with rfl | hrest
          · obtain ⟨event', hevent', htrigger⟩ := List.mem_filterMap.mp hcause
            exact hpublish cause
              (List.mem_filterMap.mpr ⟨event', List.mem_cons_of_mem _ hevent', htrigger⟩)
          · exact hcaused frame (List.mem_cons_of_mem _ hrest) cause hcause
  | @deliver event handler handlers rest called sagaStore hstack hcalled hprojection =>
      have hpending : (called ++ .dispatch event handlers :: rest).flatMap Frame.pending =
          s.pending := by
        have hnone : called.flatMap Frame.pending = [] :=
          List.flatMap_eq_nil_iff.mpr fun frame hframe => pending_of_reactsTo (hcalled frame hframe)
        rw [State.pending, hstack, List.flatMap_append, List.flatMap_cons, List.flatMap_cons, hnone]
        rfl
      have hcaused := h.caused
      rw [hstack] at hcaused
      have hevent := hcaused _ List.mem_cons_self event List.mem_cons_self
      refine ⟨?_, ?_, h.causes, ?_⟩
      · rw [State.pending, hpending]
        exact h.distinct
      · rw [State.pending, hpending]
        exact h.numbered
      · intro frame hframe cause hcause
        rcases List.mem_append.mp hframe with hnew | hold
        · rw [causes_of_reactsTo (hcalled frame hnew)] at hcause
          obtain rfl : cause = event := by simpa using hcause
          exact hevent
        · rcases List.mem_cons.mp hold with rfl | hrest
          · rw [List.mem_singleton.mp hcause]
            exact hevent
          · exact hcaused frame (List.mem_cons_of_mem _ hrest) cause hcause
  | @finish frame rest hstack hdone =>
      have hpending : rest.flatMap Frame.pending = s.pending := by
        rw [State.pending, hstack, List.flatMap_cons]
        rcases hdone with rfl | ⟨event, rfl⟩
        · rfl
        · rfl
      refine ⟨?_, ?_, h.causes, ?_⟩
      · rw [State.pending, hpending]
        exact h.distinct
      · rw [State.pending, hpending]
        exact h.numbered
      · intro frame' hframe'
        exact h.caused frame' (hstack ▸ List.mem_cons_of_mem _ hframe')
  | work kept contributions hstack hframe hkept =>
      exact (h.work _ _ hstack hframe hkept).1
  | @publish frame trigger rest kept sagaStore eventStore contributions events hstack hframe
      hkept hcommit =>
      obtain ⟨hwork, htrigger⟩ := h.work sagaStore eventStore hstack hframe hkept
      refine ⟨?_, ?_, h.causes, ?_⟩
      · change ((number trigger s.emitted events ++ (kept ++ rest).flatMap Frame.pending ++
          s.dispatched).map Emitted.number).Nodup
        rw [List.append_assoc, List.map_append, map_number_number, List.nodup_append]
        refine ⟨List.nodup_range', hwork.distinct, ?_⟩
        intro n hn m hm
        obtain ⟨event, hevent, rfl⟩ := List.mem_map.mp hm
        have hlow := (List.mem_range'_1.mp hn).1
        have hhigh : event.number < s.emitted := hwork.numbered event hevent
        omega
      · intro event hevent
        change event ∈ number trigger s.emitted events ++ (kept ++ rest).flatMap Frame.pending ++
          s.dispatched at hevent
        change event.number < s.emitted + events.length
        rw [List.append_assoc] at hevent
        rcases List.mem_append.mp hevent with hnew | hold
        · have hnumber := List.mem_map_of_mem (f := Emitted.number) hnew
          rw [map_number_number] at hnumber
          exact (List.mem_range'_1.mp hnumber).2
        · have hhigh : event.number < s.emitted := hwork.numbered event hold
          omega
      · intro frame' hframe' cause hcause
        rcases List.mem_cons.mp hframe' with rfl | hold
        · obtain ⟨event, hevent, heq⟩ := List.mem_filterMap.mp hcause
          rw [trigger_of_mem_number hevent] at heq
          exact htrigger cause heq
        · exact hwork.caused frame' hold cause hcause

/-! ## The calls of a projection -/

/-- The calls whose turn has not come though the dispatch of their event has begun. -/
def Frame.waiting : Frame J Infra → List (HandlerCall J)
  | .dispatch event handlers => handlers.map fun handler => (handler, event)
  | _ => []

/-- No projection that handles the event that is dispatched next still waits for
another one. -/
def Timely (s : State J Infra) : Prop :=
  ∀ due ∈ s.due, ∀ frame ∈ due.2, ∀ call ∈ frame.waiting, ∀ name ∈ projectionOf call.1,
    ∀ handler ∈ s.handlers due.1.event.name, projectionOf handler ≠ some name

def eventsOf (name : String) (calls : List (HandlerCall J)) : List (Emitted J) :=
  (calls.filter fun call => decide (projectionOf call.1 = some name)).map Prod.snd

/-- The events with which a projection was called, newest first. -/
def State.receivedBy (s : State J Infra) (name : String) : List (Emitted J) :=
  eventsOf name s.received

def Domain.handles (domain : Domain J Infra) (name : String) (event : Event J) : Bool :=
  decide (.projection name event.name ∈ domain.readModel.init event.name)

@[simp] theorem eventsOf_append (name : String) (calls calls' : List (HandlerCall J)) :
    eventsOf name (calls ++ calls') = eventsOf name calls ++ eventsOf name calls' := by
  simp [eventsOf]

theorem eventsOf_handlers (h : Subscribed domain s) (name : String) (event : Emitted J) :
    eventsOf name ((s.handlers event.event.name).map fun handler => (handler, event)) =
      if domain.handles name event.event then [event] else [] := by
  have hperm := ((h event.event.name).filter fun handler =>
    decide (projectionOf handler = some name)).length_eq
  have hlength : eventsOf name
      ((s.handlers event.event.name).map fun handler => (handler, event)) =
      List.replicate ((domain.readModel.init event.event.name).filter fun handler =>
        decide (projectionOf handler = some name)).length event := by
    rw [← hperm]
    simp [eventsOf, List.filter_map, Function.comp_def]
  have hfilter : (domain.readModel.init event.event.name).filter (fun handler =>
        decide (projectionOf handler = some name)) =
      (domain.readModel.init event.event.name).filter (fun handler =>
        handler == .projection name event.event.name) := by
    apply List.filter_congr
    intro handler hhandler
    rw [Bool.eq_iff_iff, decide_eq_true_eq, beq_iff_eq]
    constructor
    · intro hof
      cases handler with
      | projection name' eventName' =>
          obtain rfl := Option.some.inj hof
          obtain ⟨rfl, -⟩ := ReadModel.projection_mem_subscriptions.mp
            (ReadModel.mem_init_iff.mp hhandler)
          rfl
      | saga => cases hof
      | standalone => cases hof
    · rintro rfl
      rfl
  rw [hlength, hfilter, ← List.count_eq_length_filter]
  unfold Domain.handles
  by_cases hmem : .projection name event.event.name ∈ domain.readModel.init event.event.name
  · rw [List.count_eq_one_of_mem (nodup_init domain _) hmem]
    simp [hmem]
  · rw [List.count_eq_zero.mpr hmem]
    simp [hmem]

/-- What holds of every state, as long as events are dispatched in timely states: each
projection waits for one event at most, and has received the ones before it. -/
structure Aligned (domain : Domain J Infra) (s : State J Infra) : Prop where
  single : ∀ name, (eventsOf name (s.stack.flatMap Frame.waiting)).length ≤ 1
  aligned : ∀ name, (s.dispatched.filter fun event => domain.handles name event.event) =
    eventsOf name (s.stack.flatMap Frame.waiting) ++ s.receivedBy name

theorem aligned_start : Aligned domain (State.start domain) where
  single _ := Nat.zero_le _
  aligned _ := rfl

theorem waiting_of_reactsTo {frame : Frame J Infra} {trigger : Option (Emitted J)}
    (h : frame.ReactsTo trigger) : frame.waiting = [] := by
  cases frame with
  | running => rfl
  | publish => cases h
  | dispatch => cases h

theorem flatMap_waiting_of_reactsTo {kept : List (Frame J Infra)} {trigger : Option (Emitted J)}
    (h : ∀ frame ∈ kept, frame.ReactsTo trigger) (rest : List (Frame J Infra)) :
    (kept ++ rest).flatMap Frame.waiting = rest.flatMap Frame.waiting := by
  have hnone : kept.flatMap Frame.waiting = [] :=
    List.flatMap_eq_nil_iff.mpr fun frame hframe => waiting_of_reactsTo (h frame hframe)
  rw [List.flatMap_append, hnone, List.nil_append]

theorem Aligned.congr (h : Aligned domain s)
    (hwaiting : t.stack.flatMap Frame.waiting = s.stack.flatMap Frame.waiting)
    (hdispatched : t.dispatched = s.dispatched) (hreceived : t.received = s.received) :
    Aligned domain t where
  single name := by
    rw [hwaiting]
    exact h.single name
  aligned name := by
    rw [hwaiting, hdispatched, State.receivedBy, hreceived]
    exact h.aligned name

theorem aligned_of_move (hsubscribed : Subscribed domain s) (htimely : Timely s)
    (h : Aligned domain s) (hmove : Move domain s t) : Aligned domain t := by
  cases hmove with
  | command hidle => exact h.congr (by rw [hidle]; rfl) rfl rfl
  | rebuild => exact h.congr rfl rfl rfl
  | @dispatch event events rest hstack =>
      have hwaiting : s.stack.flatMap Frame.waiting = rest.flatMap Frame.waiting := by
        rw [hstack]
        rfl
      have hdue : s.due = some (event, rest) := by rw [State.due, hstack]
      -- a projection that handles the event does not wait for another one
      have hidle : ∀ name, domain.handles name event.event = true →
          eventsOf name (rest.flatMap Frame.waiting) = [] := by
        intro name hhandles
        rw [eventsOf, List.map_eq_nil_iff, List.filter_eq_nil_iff]
        intro call hcall hof
        obtain ⟨frame, hframe, hcall⟩ := List.mem_flatMap.mp hcall
        have hmem := (hsubscribed event.event.name).mem_iff.mpr (of_decide_eq_true hhandles)
        exact htimely _ hdue frame hframe call hcall name (of_decide_eq_true hof) _ hmem rfl
      have hnow : ∀ name, eventsOf name
          ((.dispatch event (s.handlers event.event.name) :: .publish events :: rest :
            List (Frame J Infra)).flatMap Frame.waiting) =
          if domain.handles name event.event then [event]
          else eventsOf name (rest.flatMap Frame.waiting) := by
        intro name
        simp only [List.flatMap_cons, Frame.waiting, List.nil_append, eventsOf_append,
          eventsOf_handlers hsubscribed]
        split_ifs with hhandles
        · rw [hidle name hhandles, List.append_nil]
        · rfl
      constructor
      · intro name
        rw [hnow]
        split_ifs
        · exact le_rfl
        · rw [← hwaiting]
          exact h.single name
      · intro name
        have haligned := h.aligned name
        rw [hwaiting] at haligned
        rw [hnow]
        change List.filter _ (event :: s.dispatched) = _ ++ s.receivedBy name
        rw [List.filter_cons, haligned]
        by_cases hhandles : domain.handles name event.event = true
        · rw [if_pos hhandles, if_pos hhandles, hidle name hhandles]
          rfl
        · rw [if_neg hhandles, if_neg hhandles]
  | @deliver event handler handlers rest called sagaStore hstack hcalled hprojection =>
      have hwaiting : s.stack.flatMap Frame.waiting = (handler, event) ::
          (called ++ .dispatch event handlers :: rest).flatMap Frame.waiting := by
        rw [hstack, flatMap_waiting_of_reactsTo hcalled]
        rfl
      have hsplit : ∀ name, eventsOf name (s.stack.flatMap Frame.waiting) =
          eventsOf name [(handler, event)] ++ eventsOf name
            ((called ++ .dispatch event handlers :: rest).flatMap Frame.waiting) := by
        intro name
        rw [hwaiting, ← eventsOf_append]
        rfl
      constructor
      · intro name
        have hsingle := h.single name
        rw [hsplit, List.length_append] at hsingle
        exact (Nat.le_add_left _ _).trans hsingle
      · intro name
        have haligned := h.aligned name
        have hsingle := h.single name
        rw [hsplit] at haligned hsingle
        change _ = _ ++ eventsOf name ([(handler, event)] ++ s.received)
        rw [eventsOf_append]
        by_cases hof : projectionOf handler = some name
        · -- it was the only call that the projection waited for
          have hone : eventsOf name [(handler, event)] = [event] := by
            simp [eventsOf, hof]
          rw [hone, List.length_append, List.length_singleton] at hsingle
          have hnone : eventsOf name
              ((called ++ .dispatch event handlers :: rest).flatMap Frame.waiting) = [] :=
            List.eq_nil_of_length_eq_zero (by omega)
          rw [hnone, List.append_nil] at haligned
          rw [hnone, List.nil_append]
          exact haligned
        · have hnone : eventsOf name [(handler, event)] = [] := by
            simp [eventsOf, hof]
          rw [hnone] at haligned ⊢
          exact haligned
  | @finish frame rest hstack hdone =>
      refine h.congr ?_ rfl rfl
      rw [hstack, List.flatMap_cons]
      rcases hdone with rfl | ⟨event, rfl⟩
      · rfl
      · rfl
  | work kept contributions hstack hframe hkept =>
      refine h.congr ?_ rfl rfl
      rw [hstack, List.flatMap_cons, waiting_of_reactsTo hframe]
      exact flatMap_waiting_of_reactsTo hkept _
  | publish kept hstack hframe hkept hcommit =>
      refine h.congr ?_ rfl rfl
      rw [hstack, List.flatMap_cons, waiting_of_reactsTo hframe]
      exact flatMap_waiting_of_reactsTo hkept _

/-! ## Causes before effects -/

abbrev TimelyRun (domain : Domain J Infra) (s : State J Infra) : Prop :=
  Machine.Run (step domain) (fun s _ => Timely s) (State.start domain) s

theorem subscribed_of_run (hrun : Machine.Reaches (step domain) (State.start domain) s) :
    Subscribed domain s :=
  hrun.inv (I := Subscribed domain) (fun _ => List.Perm.refl _)
    fun _ _ _ h _ hstep => subscribed_of_move h (step_move hstep)

theorem chronicle_of_run (hrun : Machine.Reaches (step domain) (State.start domain) s) :
    Chronicle s :=
  hrun.inv (I := Chronicle) chronicle_start
    fun _ _ _ h _ hstep => chronicle_of_move h (step_move hstep)

theorem aligned_of_run (hrun : TimelyRun domain s) : Aligned domain s := by
  induction hrun with
  | refl => exact aligned_start
  | tail hprefix htimely hstep ih =>
      exact aligned_of_move (subscribed_of_run hprefix.reaches) htimely ih (step_move hstep)

/-- What a projection has received keeps to the order in which events cause others. -/
theorem cause_received (hchronicle : Chronicle s) (haligned : Aligned domain s) {name : String}
    {later earlier : List (Emitted J)} {cause effect : Emitted J}
    (hreceived : s.receivedBy name = later ++ effect :: earlier)
    (hproduced : Produced cause effect) (hhandles : domain.handles name cause.event = true) :
    cause ∈ earlier ∧ cause ∉ later := by
  have hnodup : s.dispatched.Nodup := by
    have hdistinct := hchronicle.distinct
    rw [List.map_append, List.nodup_append] at hdistinct
    exact hdistinct.2.1.of_map
  have hfilter := haligned.aligned name
  rw [hreceived, ← List.append_assoc] at hfilter
  have hmem : effect ∈ s.dispatched := by
    have hmem := List.mem_append_right
      (eventsOf name (s.stack.flatMap Frame.waiting) ++ later)
      (List.mem_cons_self (a := effect) (l := earlier))
    rw [← hfilter] at hmem
    exact (List.mem_filter.mp hmem).1
  obtain ⟨before, after, hsplit⟩ := List.append_of_mem hmem
  have hcause : cause ∈ after := by
    have hcauses := hchronicle.causes
    rw [hsplit] at hcauses
    exact hcauses.mem hproduced
  have hfiltered := hnodup.filter fun event => domain.handles name event.event
  rw [hfilter] at hfiltered
  -- the effect occurs once, so that both lists are cut at the same place
  have hcut : after.filter (fun event => domain.handles name event.event) = earlier := by
    have heffect : domain.handles name effect.event = true := by
      have hmem' := List.mem_append_right
        (eventsOf name (s.stack.flatMap Frame.waiting) ++ later)
        (List.mem_cons_self (a := effect) (l := earlier))
      rw [← hfilter] at hmem'
      exact (List.mem_filter.mp hmem').2
    rw [hsplit] at hfilter
    rw [List.filter_append, List.filter_cons, if_pos heffect] at hfilter
    rw [List.nodup_middle, List.nodup_cons, List.mem_append, not_or] at hfiltered
    have hsame := (List.append_cons_inj_of_notMem hfiltered.1.1 hfiltered.1.2).mp hfilter.symm
    exact hsame.2.2.symm
  have hearlier : cause ∈ earlier := by
    rw [← hcut]
    exact List.mem_filter.mpr ⟨hcause, hhandles⟩
  refine ⟨hearlier, fun hlater => ?_⟩
  rw [List.nodup_append] at hfiltered
  exact hfiltered.2.2 cause (List.mem_append_right _ hlater) cause
    (List.mem_cons_of_mem _ hearlier) rfl

end Noddde.Delivery
