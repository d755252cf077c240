import Noddde.Async.Machine
import Noddde.Engine.DeliverySample
import Noddde.Proofs.Delivery
/-!
# Live delivery and stream order

Every handler receives the events of an instance in the order of their sequence
numbers, as long as no event is dispatched while an earlier one of its instance
still waits for one of its handlers.
-/

namespace Noddde.Delivery

open ReadModel (Handler Registry)

variable {J Infra : Type} {domain : Domain J Infra} {s t : State J Infra}

/-! ## Events and streams -/

/-- Of one instance, `event` has the smaller sequence number. -/
def Before (event event' : Event J) : Prop :=
  ∀ key, instance? event = some key → instance? event' = some key →
    ∀ n n', sequenceNumber? event = some n → sequenceNumber? event' = some n' → n < n'

/-- The event is in the stream of its instance, going by its sequence number. -/
def Stored (store : EventStore J) (event : Event J) : Prop :=
  ∃ aggregateName aggregateId n,
    instance? event = some (aggregateName, aggregateId) ∧ sequenceNumber? event = some n ∧
    n ≤ (store.load aggregateName aggregateId).length

def Unstored (store : EventStore J) (event : Event J) : Prop :=
  ∀ aggregateName aggregateId n,
    instance? event = some (aggregateName, aggregateId) → sequenceNumber? event = some n →
    (store.load aggregateName aggregateId).length < n

def Grows (store store' : EventStore J) : Prop :=
  ∀ aggregateName aggregateId,
    (store.load aggregateName aggregateId).length ≤
      (store'.load aggregateName aggregateId).length

variable {store store' store'' : EventStore J} {event event' : Event J}

theorem Grows.refl (store : EventStore J) : Grows store store := fun _ _ => le_rfl

theorem Grows.trans (h : Grows store store') (h' : Grows store' store'') :
    Grows store store'' :=
  fun aggregateName aggregateId =>
    (h aggregateName aggregateId).trans (h' aggregateName aggregateId)

theorem Stored.mono (h : Stored store event) (hgrows : Grows store store') :
    Stored store' event := by
  obtain ⟨aggregateName, aggregateId, n, hinstance, hnumber, hn⟩ := h
  exact ⟨aggregateName, aggregateId, n, hinstance, hnumber,
    hn.trans (hgrows aggregateName aggregateId)⟩

theorem Unstored.anti (h : Unstored store' event) (hgrows : Grows store store') :
    Unstored store event :=
  fun aggregateName aggregateId n hinstance hnumber =>
    (hgrows aggregateName aggregateId).trans_lt (h aggregateName aggregateId n hinstance hnumber)

theorem before_of_stored (h : Stored store event) (h' : Unstored store event') :
    Before event event' := by
  obtain ⟨aggregateName, aggregateId, m, hinstance, hnumber, hm⟩ := h
  intro key hkey hkey' n n' hn hn'
  obtain rfl := Option.some.inj (hinstance.symm.trans hkey)
  obtain rfl := Option.some.inj (hnumber.symm.trans hn)
  have hlt := h' aggregateName aggregateId n' hkey' hn'
  omega

/-! ## Commits -/

theorem mem_consecutive {aggregateName : String} {aggregateId : ID} {version : Nat}
    {events : List (Event J)} (h : Consecutive aggregateName aggregateId version events)
    (hevent : event ∈ events) :
    instance? event = some (aggregateName, aggregateId) ∧
      ∃ n, sequenceNumber? event = some n ∧ version < n ∧ n ≤ version + events.length := by
  induction events generalizing version with
  | nil => cases hevent
  | cons first rest ih =>
      obtain ⟨hinstance, hnumber, hrest⟩ := h
      rw [List.length_cons]
      cases List.mem_cons.mp hevent with
      | inl heq =>
          subst heq
          exact ⟨hinstance, version + 1, hnumber, by omega, by omega⟩
      | inr hmem =>
          obtain ⟨hinstance', n, hn, hlow, hhigh⟩ := ih hrest hmem
          exact ⟨hinstance', n, hn, by omega, by omega⟩

theorem pairwise_consecutive {aggregateName : String} {aggregateId : ID} {version : Nat}
    {events : List (Event J)} (h : Consecutive aggregateName aggregateId version events) :
    events.Pairwise Before := by
  induction events generalizing version with
  | nil => exact List.Pairwise.nil
  | cons first rest ih =>
      obtain ⟨-, hnumber, hrest⟩ := h
      rw [List.pairwise_cons]
      refine ⟨?_, ih hrest⟩
      intro event hevent key _ _ n n' hn hn'
      obtain ⟨-, m, hm, hlow, -⟩ := mem_consecutive hrest hevent
      obtain rfl := Option.some.inj (hnumber.symm.trans hn)
      obtain rfl := Option.some.inj (hm.symm.trans hn')
      exact hlow

theorem grows_of_save {aggregateName : String} {aggregateId : ID} {events : List (Event J)}
    {expectedVersion : Nat}
    (h : store.save aggregateName aggregateId events expectedVersion = .ok store') :
    Grows store store' := by
  intro aggregateName' aggregateId'
  rw [EventStore.load, EventStore.load, EventStore.stream_of_save h]
  split_ifs
  · rw [List.length_append]
    omega
  · rfl

theorem stored_of_save {contribution : Contribution J}
    (h : store.save contribution.aggregateName contribution.aggregateId contribution.events
      contribution.expectedVersion = .ok store') (hevent : event ∈ contribution.events) :
    Unstored store event ∧ Stored store' event := by
  obtain ⟨hinstance, n, hnumber, hlow, hhigh⟩ := mem_consecutive contribution.consecutive hevent
  have hversion := EventStore.version_of_save h (List.ne_nil_of_mem hevent)
  constructor
  · intro aggregateName aggregateId m hinstance' hnumber'
    obtain ⟨rfl, rfl⟩ : contribution.aggregateName = aggregateName ∧
        contribution.aggregateId = aggregateId := by
      simpa using hinstance.symm.trans hinstance'
    obtain rfl := Option.some.inj (hnumber.symm.trans hnumber')
    rw [EventStore.load, hversion]
    exact hlow
  · refine ⟨_, _, n, hinstance, hnumber, ?_⟩
    rw [EventStore.load, EventStore.stream_of_save h, if_pos rfl, List.length_append, hversion]
    exact hhigh

theorem commit_grows (contributions : List (Contribution J)) (store : EventStore J) :
    Grows store (commit contributions store).2 := by
  induction contributions generalizing store with
  | nil => exact Grows.refl store
  | cons contribution rest ih =>
      unfold commit
      cases hsave : store.save contribution.aggregateName contribution.aggregateId
          contribution.events contribution.expectedVersion with
      | error error => exact Grows.refl store
      | ok saved =>
          cases contribution.rejects with
          | some error => exact grows_of_save hsave
          | none => exact (grows_of_save hsave).trans (ih saved)

/-- The events of a commit, in order, are the ones that it has stored. -/
theorem commit_events {contributions : List (Contribution J)} {events : List (Event J)}
    (h : commit contributions store = (.ok events, store')) :
    (∀ event ∈ events, Unstored store event ∧ Stored store' event) ∧
      events.Pairwise Before := by
  induction contributions generalizing store events with
  | nil =>
      obtain ⟨rfl, -⟩ : events = [] ∧ store = store' := by
        simpa [commit, eq_comm] using h
      exact ⟨by simp, List.Pairwise.nil⟩
  | cons contribution rest ih =>
      unfold commit at h
      cases hsave : store.save contribution.aggregateName contribution.aggregateId
          contribution.events contribution.expectedVersion with
      | error error => simp [hsave] at h
      | ok saved =>
          cases hrejects : contribution.rejects with
          | some error => simp [hsave, hrejects] at h
          | none =>
              simp only [hsave, hrejects] at h
              cases hrest : commit rest saved with
              | mk outcome store'' =>
                  cases outcome with
                  | error error =>
                      simp only [hrest, Except.map, Prod.mk.injEq] at h
                      cases h.1
                  | ok others =>
                      simp only [hrest, Except.map, Prod.mk.injEq, Except.ok.injEq] at h
                      obtain ⟨rfl, rfl⟩ := h
                      obtain ⟨hothers, hpairwise⟩ := ih hrest
                      have hgrows := grows_of_save hsave
                      have hgrows' : Grows saved store'' := by
                        have hcommit := commit_grows rest saved
                        rwa [hrest] at hcommit
                      constructor
                      · intro event hevent
                        rcases List.mem_append.mp hevent with hfirst | hother
                        · obtain ⟨hold, hnew⟩ := stored_of_save hsave hfirst
                          exact ⟨hold, hnew.mono hgrows'⟩
                        · obtain ⟨hold, hnew⟩ := hothers event hother
                          exact ⟨hold.anti hgrows, hnew⟩
                      · apply List.pairwise_append.mpr
                        refine ⟨pairwise_consecutive contribution.consecutive, hpairwise, ?_⟩
                        intro event hevent event' hevent'
                        exact before_of_stored (stored_of_save hsave hevent).2
                          (hothers event' hevent').1

/-! ## Calls of handlers -/

/-- The handler of both is called in stream order. -/
def Precedes (call call' : HandlerCall J) : Prop :=
  call.1 = call'.1 → Before call.2.event call'.2.event

def Frame.outstanding (handlers : Registry) : Frame J Infra → List (HandlerCall J)
  | .publish events => events.flatMap fun event =>
      (handlers event.event.name).map fun handler => (handler, event)
  | .dispatch event handlers => handlers.map fun handler => (handler, event)
  | .running .. => []

/-- The calls that the stack still makes keep to the order, after the calls `past`. -/
def Orderly (handlers : Registry) : (past : List (HandlerCall J)) → List (Frame J Infra) → Prop
  | _, [] => True
  | past, .publish events :: rest =>
      (∀ call ∈ past, ∀ event ∈ events, ∀ handler ∈ handlers event.event.name,
        Precedes call (handler, event)) ∧
      events.Pairwise (fun event event' => Before event.event event'.event) ∧
      Orderly handlers past rest
  | past, .dispatch event waiting :: rest =>
      (∀ call ∈ past, ∀ handler ∈ waiting, Precedes call (handler, event)) ∧
      waiting.Nodup ∧
      Orderly handlers (waiting.map (fun handler => (handler, event)) ++ past) rest
  | past, .running .. :: rest => Orderly handlers past rest

section Orderly

variable {handlers : Registry} {past past' : List (HandlerCall J)} {stack : List (Frame J Infra)}

/-- Fewer calls have been made. -/
theorem Orderly.anti (h : Orderly handlers past stack) (hpast : past' ⊆ past) :
    Orderly handlers past' stack := by
  induction stack generalizing past past' with
  | nil => trivial
  | cons frame rest ih =>
      cases frame with
      | publish events =>
          obtain ⟨hnow, hevents, hrest⟩ := h
          exact ⟨fun call hmem => hnow call (hpast hmem), hevents, ih hrest hpast⟩
      | dispatch event waiting =>
          obtain ⟨hnow, hnodup, hrest⟩ := h
          refine ⟨fun call hmem => hnow call (hpast hmem), hnodup, ih hrest ?_⟩
          exact List.append_subset.mpr ⟨List.subset_append_left _ _,
            List.Subset.trans hpast (List.subset_append_right _ _)⟩
      | running trigger uow script => exact ih h hpast

/-- More calls have been made, all of which precede those of the stack. -/
theorem Orderly.extend {added : List (HandlerCall J)} (h : Orderly handlers past stack)
    (hadded : ∀ call ∈ added, ∀ frame ∈ stack, ∀ call' ∈ frame.outstanding handlers,
      Precedes call call') :
    Orderly handlers (added ++ past) stack := by
  induction stack generalizing past with
  | nil => trivial
  | cons frame rest ih =>
      have hfirst := fun call hmem => hadded call hmem frame List.mem_cons_self
      have hothers := fun call hmem frame' hframe =>
        hadded call hmem frame' (List.mem_cons_of_mem _ hframe)
      cases frame with
      | publish events =>
          obtain ⟨hnow, hevents, hrest⟩ := h
          refine ⟨?_, hevents, ih hrest hothers⟩
          intro call hmem event hevent handler hhandler
          rcases List.mem_append.mp hmem with hnew | hold
          · apply hfirst call hnew
            exact List.mem_flatMap.mpr ⟨event, hevent, List.mem_map.mpr ⟨handler, hhandler, rfl⟩⟩
          · exact hnow call hold event hevent handler hhandler
      | dispatch event waiting =>
          obtain ⟨hnow, hnodup, hrest⟩ := h
          refine ⟨?_, hnodup, ?_⟩
          · intro call hmem handler hhandler
            rcases List.mem_append.mp hmem with hnew | hold
            · exact hfirst call hnew _ (List.mem_map.mpr ⟨handler, hhandler, rfl⟩)
            · exact hnow call hold handler hhandler
          · apply (ih hrest hothers).anti
            intro call hmem
            simp only [List.mem_append] at hmem ⊢
            tauto
      | running trigger uow script => exact ih h hothers

end Orderly

/-! ## The order -/

/-- No event of the same instance still waits for one of the handlers of the event that
is dispatched next. -/
def Clear (s : State J Infra) : Prop :=
  ∀ due ∈ s.due, ∀ frame ∈ due.2, ∀ call ∈ frame.outstanding s.handlers,
    call.1 ∈ s.handlers due.1.event.name → instance? call.2.event ≠ instance? due.1.event

/-- What holds of every state, as long as events are dispatched in clear states. -/
structure InOrder (s : State J Infra) : Prop where
  received : s.received.Pairwise fun call earlier => Precedes earlier call
  stack : Orderly s.handlers s.received s.stack
  storedReceived : ∀ call ∈ s.received, Stored s.eventStore call.2.event
  storedStack : ∀ frame ∈ s.stack, ∀ call ∈ frame.outstanding s.handlers,
    Stored s.eventStore call.2.event

theorem inOrder_start : InOrder (State.start domain) where
  received := List.Pairwise.nil
  stack := trivial
  storedReceived _ h := by cases h
  storedStack _ h := by cases h

section Frames

variable {handlers : Registry} {past : List (HandlerCall J)} {rest kept : List (Frame J Infra)}
  {frame : Frame J Infra} {trigger : Option (Emitted J)}

theorem outstanding_of_reactsTo (h : frame.ReactsTo trigger) :
    frame.outstanding handlers = [] := by
  cases frame with
  | running => rfl
  | publish => cases h
  | dispatch => cases h

theorem orderly_cons_of_reactsTo (h : frame.ReactsTo trigger) :
    Orderly handlers past (frame :: rest) ↔ Orderly handlers past rest := by
  cases frame with
  | running => rfl
  | publish => cases h
  | dispatch => cases h

theorem orderly_append_of_reactsTo (h : ∀ frame ∈ kept, frame.ReactsTo trigger) :
    Orderly handlers past (kept ++ rest) ↔ Orderly handlers past rest := by
  induction kept with
  | nil => rfl
  | cons frame others ih =>
      rw [List.cons_append, orderly_cons_of_reactsTo (h frame List.mem_cons_self),
        ih fun frame' hframe => h frame' (List.mem_cons_of_mem _ hframe)]

end Frames

theorem InOrder.work (h : InOrder s) {frame : Frame J Infra} {trigger : Option (Emitted J)}
    {rest kept : List (Frame J Infra)} (sagaStore : StateStore J) {eventStore : EventStore J}
    (hstack : s.stack = frame :: rest) (hframe : frame.ReactsTo trigger)
    (hkept : ∀ frame ∈ kept, frame.ReactsTo trigger) (hgrows : Grows s.eventStore eventStore) :
    InOrder { s with sagaStore, eventStore, stack := kept ++ rest } where
  received := h.received
  stack := by
    have horderly := h.stack
    rw [hstack, orderly_cons_of_reactsTo hframe] at horderly
    exact (orderly_append_of_reactsTo hkept).mpr horderly
  storedReceived call hcall := (h.storedReceived call hcall).mono hgrows
  storedStack frame' hframe' call hcall := by
    rcases List.mem_append.mp hframe' with hnew | hold
    · rw [outstanding_of_reactsTo (hkept frame' hnew)] at hcall
      cases hcall
    · apply (h.storedStack frame' _ call hcall).mono hgrows
      rw [hstack]
      exact List.mem_cons_of_mem _ hold

theorem inOrder_of_move (hsubscribed : Subscribed domain s) (hclear : Clear s) (h : InOrder s)
    (hmove : Move domain s t) : InOrder t := by
  cases hmove with
  | command hidle =>
      refine ⟨h.received, trivial, h.storedReceived, ?_⟩
      intro frame hframe call hcall
      rw [List.mem_singleton.mp hframe] at hcall
      cases hcall
  | rebuild hidle =>
      refine ⟨h.received, ?_, h.storedReceived, ?_⟩
      · change Orderly _ s.received s.stack
        rw [hidle]
        trivial
      · intro frame hframe
        change frame ∈ s.stack at hframe
        rw [hidle] at hframe
        cases hframe
  | @dispatch event events rest hstack =>
      have horderly := h.stack
      have hstored := h.storedStack
      rw [hstack] at horderly hstored
      obtain ⟨hnow, hevents, hrest⟩ := horderly
      rw [List.pairwise_cons] at hevents
      have hnodup := hsubscribed.nodup event.event.name
      refine ⟨h.received, ⟨?_, hnodup, ?_, hevents.2, ?_⟩, h.storedReceived, ?_⟩
      · intro call hcall handler hhandler
        exact hnow call hcall event List.mem_cons_self handler hhandler
      · intro call hcall event' hevent' handler hhandler
        rcases List.mem_append.mp hcall with hnew | hold
        · obtain ⟨_, -, rfl⟩ := List.mem_map.mp hnew
          exact fun _ => hevents.1 event' hevent'
        · exact hnow call hold event' (List.mem_cons_of_mem _ hevent') handler hhandler
      · apply hrest.extend
        intro call hcall frame hframe call' hcall'
        obtain ⟨handler, hhandler, rfl⟩ := List.mem_map.mp hcall
        rintro rfl key hkey hkey'
        have hdue : s.due = some (event, rest) := by rw [State.due, hstack]
        exact absurd (hkey'.trans hkey.symm)
          (hclear _ hdue frame hframe call' hcall' hhandler)
      · intro frame hframe call hcall
        rcases List.mem_cons.mp hframe with rfl | hframe'
        · apply hstored _ List.mem_cons_self call
          exact List.mem_append_left _ hcall
        · rcases List.mem_cons.mp hframe' with rfl | hrest'
          · apply hstored _ List.mem_cons_self call
            exact List.mem_append_right _ hcall
          · exact hstored frame (List.mem_cons_of_mem _ hrest') call hcall
  | @deliver event handler handlers rest called sagaStore hstack hcalled _ =>
      have horderly := h.stack
      have hstored := h.storedStack
      rw [hstack] at horderly hstored
      obtain ⟨hnow, hnodup, hrest⟩ := horderly
      rw [List.nodup_cons] at hnodup
      have hthis := hstored _ List.mem_cons_self (handler, event) List.mem_cons_self
      refine ⟨?_, ?_, ?_, ?_⟩
      · rw [List.pairwise_cons]
        exact ⟨fun call hcall => hnow call hcall handler List.mem_cons_self, h.received⟩
      · apply (orderly_append_of_reactsTo hcalled).mpr
        refine ⟨?_, hnodup.2, ?_⟩
        · intro call hcall handler' hhandler'
          rcases List.mem_cons.mp hcall with rfl | hold
          · rintro rfl
            exact absurd hhandler' hnodup.1
          · exact hnow call hold handler' (List.mem_cons_of_mem _ hhandler')
        · apply hrest.anti
          intro call hcall
          simp only [List.mem_append, List.mem_cons, List.map_cons] at hcall ⊢
          tauto
      · intro call hcall
        rcases List.mem_cons.mp hcall with rfl | hold
        · exact hthis
        · exact h.storedReceived call hold
      · intro frame hframe call hcall
        rcases List.mem_append.mp hframe with hnew | hold
        · rw [outstanding_of_reactsTo (hcalled frame hnew)] at hcall
          cases hcall
        · rcases List.mem_cons.mp hold with rfl | hrest'
          · exact hstored _ List.mem_cons_self call (List.mem_cons_of_mem _ hcall)
          · exact hstored frame (List.mem_cons_of_mem _ hrest') call hcall
  | @finish frame rest hstack hdone =>
      have horderly := h.stack
      have hstored := h.storedStack
      rw [hstack] at horderly hstored
      refine ⟨h.received, ?_, h.storedReceived, ?_⟩
      · rcases hdone with rfl | ⟨event, rfl⟩
        · exact horderly.2.2
        · exact horderly.2.2
      · intro frame' hframe'
        exact hstored frame' (List.mem_cons_of_mem _ hframe')
  | work kept contributions hstack hframe hkept =>
      exact h.work _ hstack hframe hkept (commit_grows _ _)
  | @publish frame trigger rest kept sagaStore eventStore contributions events hstack hframe
      hkept hcommit =>
      have hgrows : Grows s.eventStore eventStore := by
        have hcommitted := commit_grows contributions s.eventStore
        rwa [hcommit] at hcommitted
      obtain ⟨hevents, hpairwise⟩ := commit_events hcommit
      have hwork := h.work sagaStore hstack hframe hkept hgrows
      have hnumbered : ∀ event ∈ number trigger s.emitted events, event.event ∈ events := by
        intro event hevent
        rw [← map_event_number trigger s.emitted events]
        exact List.mem_map_of_mem hevent
      refine ⟨h.received, ⟨?_, ?_, hwork.stack⟩, hwork.storedReceived, ?_⟩
      · intro call hcall event hevent handler _ _
        exact before_of_stored (h.storedReceived call hcall) (hevents _ (hnumbered event hevent)).1
      · rw [← map_event_number trigger s.emitted events, List.pairwise_map] at hpairwise
        exact hpairwise
      · intro frame' hframe' call hcall
        rcases List.mem_cons.mp hframe' with rfl | hold
        · obtain ⟨event, hevent, hcall⟩ := List.mem_flatMap.mp hcall
          obtain ⟨_, -, rfl⟩ := List.mem_map.mp hcall
          exact (hevents _ (hnumbered event hevent)).2
        · exact hwork.storedStack frame' hold call hcall

/-- The sequence numbers of the events of an instance with which a handler was called,
in the order of the calls. -/
def State.sequence (s : State J Infra) (handler : Handler) (key : String × ID) : List Nat :=
  (s.received.reverse.filter fun call =>
    decide (call.1 = handler ∧ instance? call.2.event = some key)).filterMap fun call =>
      sequenceNumber? call.2.event

theorem InOrder.sequence (h : InOrder s) (handler : Handler) (key : String × ID) :
    (s.sequence handler key).Pairwise (· < ·) := by
  unfold State.sequence
  rw [List.pairwise_filterMap]
  apply List.Pairwise.imp_of_mem _ ((List.pairwise_reverse.mpr h.received).filter _)
  intro call call' hcall hcall' hprecedes n hn n' hn'
  obtain ⟨hhandler, hkey⟩ := of_decide_eq_true (List.mem_filter.mp hcall).2
  obtain ⟨hhandler', hkey'⟩ := of_decide_eq_true (List.mem_filter.mp hcall').2
  exact hprecedes (hhandler.trans hhandler'.symm) key hkey hkey' n n' hn hn'

theorem inOrder_of_run
    (hrun : Machine.Run (step domain) (fun s _ => Clear s) (State.start domain) s) :
    InOrder s := by
  have h := hrun.inv (I := fun s => Subscribed domain s ∧ InOrder s)
    ⟨fun _ => List.Perm.refl _, inOrder_start⟩
  apply (h _).2
  rintro t action u ⟨hsubscribed, horder⟩ hclear hstep
  have hmove := step_move hstep
  exact ⟨subscribed_of_move hsubscribed hmove, inOrder_of_move hsubscribed hclear horder hmove⟩

/-- In a run of root commands, with rebuilds between them, in which events are
dispatched in clear states, every event that a handler receives is numbered, and
those of an instance come in increasing order. -/
theorem delivered_in_stream_order
    (hrun : Machine.Run (step domain) (fun s _ => Clear s) (State.start domain) s) :
    (∀ handler key, (s.sequence handler key).Pairwise (· < ·)) ∧
    ∀ call ∈ s.received,
      (instance? call.2.event).isSome ∧ (sequenceNumber? call.2.event).isSome := by
  have h := inOrder_of_run hrun
  refine ⟨h.sequence, ?_⟩
  intro call hcall
  obtain ⟨aggregateName, aggregateId, n, hinstance, hnumber, -⟩ := h.storedReceived call hcall
  simp [hinstance, hnumber]

/-! ## A saga that reacts to the first of two events -/

instance (s : State J Infra) : Decidable (Clear s) :=
  inferInstanceAs (Decidable (∀ due ∈ s.due, ∀ frame ∈ due.2,
    ∀ call ∈ frame.outstanding s.handlers,
      call.1 ∈ s.handlers due.1.event.name → instance? call.2.event ≠ instance? due.1.event))

/-- The reaction to the only event of a command is delivered after it. -/
theorem delivered_in_stream_order_echo :
    ∃ s, Machine.Run (step Sample.domain) (fun s _ => Clear s) (State.start Sample.domain) s ∧
      s.sequence (.projection "Tally" "Added") ("Counter", .string "1") = [1, 2] ∧
      ∀ handler key, (s.sequence handler key).Pairwise (· < ·) := by
  have hplay : (Machine.playMeeting (step Sample.domain) (fun s _ => Clear s)
      (Sample.run "Add" 16) (State.start Sample.domain)).any (fun s =>
        s.sequence (.projection "Tally" "Added") ("Counter", .string "1") = [1, 2]) := by
    decide +kernel
  obtain ⟨s, hs, hsequence⟩ := (Option.any_eq_true _ _).mp hplay
  have hrun := Machine.run_of_playMeeting hs
  exact ⟨s, hrun, of_decide_eq_true hsequence, (delivered_in_stream_order hrun).1⟩

/-- A command emits two events; the saga reacts to the first, and its own event is
delivered before the second. -/
theorem delivered_in_stream_order_twice :
    ∃ s, Machine.Reaches (step Sample.domain) (State.start Sample.domain) s ∧
      s.sequence (.projection "Tally" "Added") ("Counter", .string "1") = [1, 3, 2] := by
  have hplay : (Machine.play (step Sample.domain) (Sample.run "AddTwice" 22)
      (State.start Sample.domain)).any (fun s =>
        s.sequence (.projection "Tally" "Added") ("Counter", .string "1") = [1, 3, 2]) := by
    decide +kernel
  obtain ⟨s, hs, hsequence⟩ := (Option.any_eq_true _ _).mp hplay
  exact ⟨s, Machine.run_of_play (fun _ _ _ => trivial) hs, of_decide_eq_true hsequence⟩

end Noddde.Delivery
