import Noddde.Engine.EventEmitterBus
import Mathlib.Data.List.InsertIdx
import Mathlib.Data.List.Nodup
/-!
# The in-memory event bus delivers exactly once

For a dispatch under way, whoever has been registered throughout was invoked already or is
still ahead of the array iterator, in the order of registration.  A call of `off()` breaks
this only when it moves a handler past the iterator.
-/

namespace Noddde.EventEmitterEventBus

variable {H : Type} {bus : Bus H} {dispatch : Dispatch H} {array : List (Registration H)}

/-! ## The array -/

section Array

variable {α : Type}

theorem drop_eraseIdx_of_lt {xs : List α} {i n : Nat} (h : i < n) :
    (xs.eraseIdx i).drop n = xs.drop (n + 1) := by
  apply List.ext_getElem?
  intro j
  rw [List.getElem?_drop, List.getElem?_drop, List.getElem?_eraseIdx_of_ge (by omega)]
  congr 1
  omega

theorem drop_eraseIdx_of_le {xs : List α} {i n : Nat} (h : n ≤ i) :
    (xs.eraseIdx i).drop n = (xs.drop n).eraseIdx (i - n) := by
  apply List.ext_getElem?
  intro j
  rw [List.getElem?_drop, List.getElem?_eraseIdx, List.getElem?_eraseIdx, List.getElem?_drop,
    List.getElem?_drop]
  by_cases hj : n + j < i
  · rw [if_pos hj, if_pos (by omega)]
  · rw [if_neg hj, if_neg (by omega)]
    congr 1

/-- Taking out an element that a filter drops anyway. -/
theorem filter_eraseIdx {xs : List α} {i : Nat} {p : α → Bool}
    (h : ∀ x ∈ xs[i]?, p x = false) : (xs.eraseIdx i).filter p = xs.filter p := by
  induction xs generalizing i with
  | nil => rfl
  | cons x xs ih =>
      cases i with
      | zero => simp [List.eraseIdx, h x (by simp)]
      | succ i =>
          rw [List.eraseIdx_cons_succ, List.filter_cons, List.filter_cons,
            ih fun y hy => h y (by simpa using hy)]

end Array

/-! ## The invariant of a dispatch -/

/-- The registrations at which the array iterator has not been. -/
def Dispatch.ahead (array : List (Registration H)) (dispatch : Dispatch H) : List Nat :=
  (array.drop dispatch.index).map Registration.number

structure Dispatch.Going (array : List (Registration H)) (dispatch : Dispatch H) : Prop where
  open' : dispatch.outcome = none
  complete : dispatch.throughout = (invokedIn dispatch.trace ++ dispatch.ahead array).filter
    (· ∈ dispatch.throughout)
  distinct : dispatch.throughout.Nodup
  inTurn : ∃ registration ∈ dispatch.running, ∃ before, dispatch.trace =
    inTurn before ++ [.invoked registration.number]

structure Bus.Inv (bus : Bus H) : Prop where
  numbered : ∀ eventName, ∀ registration ∈ bus.handlers eventName,
    registration.number < bus.registered
  distinct : ∀ eventName, ((bus.handlers eventName).map Registration.number).Nodup
  known : ∀ dispatch ∈ bus.dispatches, ∀ number ∈ dispatch.throughout, number < bus.registered
  dispatches : ∀ dispatch ∈ bus.dispatches,
    dispatch.Going (bus.handlers dispatch.eventName) ∨
      dispatch.running = none ∧ dispatch.Delivered

theorem Bus.inv_empty : Bus.Inv ({} : Bus H) where
  numbered := by simp
  distinct := by simp
  known := by simp
  dispatches := by simp

theorem Bus.Inv.deliversOnce (hinv : bus.Inv) : bus.DeliversOnce := by
  intro dispatch hdispatch
  rcases hinv.dispatches dispatch hdispatch with hgoing | ⟨-, hdelivered⟩
  · obtain ⟨registration, hrunning, -⟩ := hgoing.inTurn
    exact .inl (Option.isSome_of_mem hrunning)
  · exact .inr hdelivered

@[simp] theorem invokedIn_append (xs ys : List Mark) :
    invokedIn (xs ++ ys) = invokedIn xs ++ invokedIn ys := List.filterMap_append

@[simp] theorem invokedIn_inTurn (numbers : List Nat) : invokedIn (inTurn numbers) = numbers := by
  induction numbers with
  | nil => rfl
  | cons number rest ih =>
      change number :: invokedIn (inTurn rest) = _
      rw [ih]

theorem inTurn_append (xs ys : List Nat) : inTurn (xs ++ ys) = inTurn xs ++ inTurn ys :=
  List.flatMap_append

/-! ## The loop of a dispatch -/

/-- A dispatch between two handlers: it has begun, or the last one has settled. -/
structure Dispatch.Between (array : List (Registration H)) (dispatch : Dispatch H) : Prop where
  open' : dispatch.outcome = none
  complete : dispatch.throughout = (invokedIn dispatch.trace ++ dispatch.ahead array).filter
    (· ∈ dispatch.throughout)
  distinct : dispatch.throughout.Nodup
  inTurn : ∃ before, dispatch.trace = inTurn before

theorem Dispatch.advance_throughout :
    (dispatch.advance array).throughout = dispatch.throughout := by
  unfold Dispatch.advance
  split <;> rfl

theorem Dispatch.advance_eventName :
    (dispatch.advance array).eventName = dispatch.eventName := by
  unfold Dispatch.advance
  split <;> rfl

theorem Dispatch.settle_throughout {registration : Registration H}
    {result : Except Thrown Unit} :
    (dispatch.settle array registration result).throughout = dispatch.throughout := by
  unfold Dispatch.settle
  dsimp only
  split
  · exact advance_throughout
  · split
    · exact advance_throughout
    · rfl

theorem Dispatch.settle_eventName {registration : Registration H} {result : Except Thrown Unit} :
    (dispatch.settle array registration result).eventName = dispatch.eventName := by
  unfold Dispatch.settle
  dsimp only
  split
  · exact advance_eventName
  · split
    · exact advance_eventName
    · rfl

theorem Dispatch.lose_subset {eventName : String} {number n : Nat}
    (h : n ∈ (dispatch.lose eventName number).throughout) : n ∈ dispatch.throughout := by
  unfold Dispatch.lose at h
  split_ifs at h
  · exact (List.mem_filter.mp h).1
  · exact h

theorem Dispatch.lose_eventName {eventName : String} {number : Nat} :
    (dispatch.lose eventName number).eventName = dispatch.eventName := by
  unfold Dispatch.lose
  split_ifs <;> rfl

/-- The loop goes on to the next handler, or the dispatch resolves. -/
theorem Dispatch.Between.advance (h : dispatch.Between array) :
    (dispatch.advance array).Going array ∨
      (dispatch.advance array).running = none ∧ (dispatch.advance array).Delivered := by
  obtain ⟨before, hbefore⟩ := h.inTurn
  unfold Dispatch.advance
  cases hnext : array[dispatch.index]? with
  | some registration =>
      left
      have hahead : dispatch.ahead array = registration.number ::
          (array.drop (dispatch.index + 1)).map Registration.number := by
        obtain ⟨hlt, hget⟩ := List.getElem?_eq_some_iff.mp hnext
        rw [Dispatch.ahead, List.drop_eq_getElem_cons hlt, hget, List.map_cons]
      exact
        { open' := h.open'
          complete := by
            have hcomplete := h.complete
            rw [hahead] at hcomplete
            simpa [Dispatch.ahead, invokedIn] using hcomplete
          distinct := h.distinct
          inTurn := ⟨registration, rfl, before, by rw [hbefore]⟩ }
  | none =>
      right
      have hahead : dispatch.ahead array = [] := by
        rw [Dispatch.ahead, List.drop_eq_nil_of_le (List.getElem?_eq_none_iff.mp hnext), List.map_nil]
      refine ⟨rfl, rfl, ?_, h.distinct, ?_⟩
      · have hcomplete := h.complete
        rw [hahead, List.append_nil] at hcomplete
        exact hcomplete.symm
      · rw [hbefore, invokedIn_inTurn]

theorem Dispatch.Going.settle (h : dispatch.Going array) {registration : Registration H}
    (hrunning : registration ∈ dispatch.running) {result : Except Thrown Unit}
    (hprint : ∀ thrown, result = .error thrown → thrown.print = .ok ()) :
    (dispatch.settle array registration result).Going array ∨
      (dispatch.settle array registration result).running = none ∧
        (dispatch.settle array registration result).Delivered := by
  obtain ⟨registration', hrunning', before, hbefore⟩ := h.inTurn
  obtain rfl := Option.mem_unique hrunning hrunning'
  have hbetween : Dispatch.Between array
      { dispatch with trace := dispatch.trace ++ [.settled registration.number] } :=
    { open' := h.open'
      complete := by simpa [invokedIn, Dispatch.ahead] using h.complete
      distinct := h.distinct
      inTurn := ⟨before ++ [registration.number], by
        rw [hbefore, inTurn_append, List.append_assoc]
        rfl⟩ }
  unfold Dispatch.settle
  cases result with
  | ok _ => exact hbetween.advance
  | error thrown =>
      simp only [hprint thrown rfl]
      exact hbetween.advance

/-! ## The calls -/

theorem Dispatch.Going.on (h : dispatch.Going array) {registration : Registration H}
    (hnew : registration.number ∉ dispatch.throughout) :
    dispatch.Going (array ++ [registration]) where
  open' := h.open'
  complete := by
    have hahead : (dispatch.ahead (array ++ [registration])).filter
        (· ∈ dispatch.throughout) = (dispatch.ahead array).filter (· ∈ dispatch.throughout) := by
      unfold Dispatch.ahead
      rw [List.drop_append, List.map_append, List.filter_append]
      have hrest : (([registration].drop (dispatch.index - array.length)).map
          Registration.number).filter (· ∈ dispatch.throughout) = [] := by
        refine List.filter_eq_nil_iff.mpr fun number hnumber => ?_
        obtain ⟨registration', hmem, rfl⟩ := List.mem_map.mp hnumber
        obtain rfl := List.mem_singleton.mp (List.mem_of_mem_drop hmem)
        simpa using hnew
      rw [hrest, List.append_nil]
    rw [List.filter_append, hahead, ← List.filter_append]
    exact h.complete
  distinct := h.distinct
  inTurn := h.inTurn

/-- What is ahead, of those that are still there throughout, once an element is gone. -/
theorem Dispatch.filter_ahead_eraseIdx {idx : Nat} {registration : Registration H}
    (hget : array[idx]? = some registration)
    (hnext : idx < dispatch.index → ∀ next ∈ array[dispatch.index]?,
      next.number ∉ dispatch.throughout) :
    (dispatch.ahead (array.eraseIdx idx)).filter
        (· ∈ dispatch.throughout.filter (· ≠ registration.number)) =
      (dispatch.ahead array).filter
        (· ∈ dispatch.throughout.filter (· ≠ registration.number)) := by
  unfold Dispatch.ahead
  by_cases hlt : idx < dispatch.index
  · rw [drop_eraseIdx_of_lt hlt]
    cases hget' : array[dispatch.index]? with
    | none =>
        rw [List.drop_eq_nil_of_le (List.getElem?_eq_none_iff.mp hget'), List.drop_eq_nil_of_le]
        exact Nat.le_succ_of_le (List.getElem?_eq_none_iff.mp hget')
    | some next =>
        obtain ⟨hlength, rfl⟩ := List.getElem?_eq_some_iff.mp hget'
        have hnotMem := hnext hlt _ hget'
        rw [List.drop_eq_getElem_cons hlength, List.map_cons, List.filter_cons_of_neg]
        simp [hnotMem]
  · rw [drop_eraseIdx_of_le (Nat.le_of_not_lt hlt), ← List.eraseIdx_map]
    refine filter_eraseIdx fun number hnumber => ?_
    have hidx : dispatch.index + (idx - dispatch.index) = idx := by omega
    rw [List.getElem?_map, List.getElem?_drop, hidx, hget] at hnumber
    obtain rfl : registration.number = number := by simpa using hnumber
    simp

/-- A call of `off()` for the event name of the dispatch. -/
theorem Dispatch.Going.lose (h : dispatch.Going array) {idx : Nat} {registration : Registration H}
    (hget : array[idx]? = some registration)
    (hnext : idx < dispatch.index → ∀ next ∈ array[dispatch.index]?,
      next.number ∉ dispatch.throughout) :
    (dispatch.lose dispatch.eventName registration.number).Going (array.eraseIdx idx) := by
  rw [Dispatch.lose, if_pos ⟨h.open', rfl⟩]
  refine ⟨h.open', ?_, h.distinct.filter _, h.inTurn⟩
  change dispatch.throughout.filter (· ≠ registration.number) =
    (invokedIn dispatch.trace ++ dispatch.ahead (array.eraseIdx idx)).filter
      (· ∈ dispatch.throughout.filter (· ≠ registration.number))
  rw [List.filter_append, Dispatch.filter_ahead_eraseIdx hget hnext, ← List.filter_append]
  calc dispatch.throughout.filter (· ≠ registration.number)
      = ((invokedIn dispatch.trace ++ dispatch.ahead array).filter
          (· ∈ dispatch.throughout)).filter (· ≠ registration.number) :=
        congrArg (List.filter _) h.complete
    _ = _ := by
        rw [List.filter_filter]
        refine List.filter_congr fun number _ => ?_
        by_cases hmem : number ∈ dispatch.throughout <;>
          by_cases hne : number = registration.number <;> simp [hmem, hne]

/-! ## Every step keeps the invariant -/

namespace Bus

theorem Inv.on (hinv : bus.Inv) (eventName : String) (handler : H) :
    (bus.on eventName handler).Inv where
  numbered eventName' registration hmem := by
    simp only [Bus.on, Function.update_apply] at hmem ⊢
    split_ifs at hmem with heq
    · rcases List.mem_append.mp hmem with hmem | hmem
      · exact Nat.lt_succ_of_lt (hinv.numbered _ _ hmem)
      · obtain rfl := List.mem_singleton.mp hmem
        exact Nat.lt_succ_self _
    · exact Nat.lt_succ_of_lt (hinv.numbered _ _ hmem)
  distinct eventName' := by
    simp only [Bus.on, Function.update_apply]
    split_ifs with heq
    · rw [List.map_append, List.nodup_append]
      refine ⟨hinv.distinct _, List.nodup_singleton _, ?_⟩
      rintro number hnumber number' hnumber' rfl
      obtain ⟨registration, hmem, rfl⟩ := List.mem_map.mp hnumber
      obtain heq : registration.number = bus.registered := by simpa using hnumber'
      exact absurd heq (Nat.ne_of_lt (hinv.numbered _ _ hmem))
    · exact hinv.distinct eventName'
  known dispatch hdispatch number hnumber :=
    Nat.lt_succ_of_lt (hinv.known dispatch hdispatch number hnumber)
  dispatches dispatch hdispatch := by
    refine (hinv.dispatches dispatch hdispatch).imp_left fun hgoing => ?_
    simp only [Bus.on, Function.update_apply]
    split_ifs with heq
    · rw [← heq]
      refine hgoing.on fun hmem => ?_
      exact absurd rfl (Nat.ne_of_lt (hinv.known dispatch hdispatch _ hmem))
    · exact hgoing

theorem Inv.call (hinv : bus.Inv) (eventName : String) : (bus.dispatch eventName).Inv where
  numbered := hinv.numbered
  distinct := hinv.distinct
  known call hcall number hnumber := by
    rcases List.mem_append.mp hcall with hcall | hcall
    · exact hinv.known call hcall number hnumber
    · obtain rfl := List.mem_singleton.mp hcall
      rw [Dispatch.advance_throughout] at hnumber
      obtain ⟨registration, hmem, rfl⟩ := List.mem_map.mp hnumber
      exact hinv.numbered eventName registration hmem
  dispatches call hcall := by
    rcases List.mem_append.mp hcall with hcall | hcall
    · exact hinv.dispatches call hcall
    · obtain rfl := List.mem_singleton.mp hcall
      rw [Dispatch.advance_eventName]
      refine Dispatch.Between.advance ⟨rfl, ?_, hinv.distinct eventName, [], rfl⟩
      exact (List.filter_eq_self.mpr fun number hnumber => by simpa using hnumber).symm

theorem Inv.lose (hinv : bus.Inv) {eventName : String} {idx : Nat}
    {registration : Registration H} (hget : (bus.handlers eventName)[idx]? = some registration)
    (hnext : ∀ dispatch ∈ bus.dispatches, dispatch.outcome = none →
      dispatch.eventName = eventName → idx < dispatch.index →
        ∀ next ∈ (bus.handlers eventName)[dispatch.index]?, next.number ∉ dispatch.throughout) :
    Bus.Inv { bus with
      handlers := Function.update bus.handlers eventName ((bus.handlers eventName).eraseIdx idx)
      dispatches := bus.dispatches.map (Dispatch.lose eventName registration.number) } := by
  have hsub : ∀ eventName', List.Sublist (Function.update bus.handlers eventName
      ((bus.handlers eventName).eraseIdx idx) eventName') (bus.handlers eventName') := by
    intro eventName'
    rw [Function.update_apply]
    split_ifs with heq
    · rw [heq]
      exact List.eraseIdx_sublist ..
    · exact List.Sublist.refl _
  exact
    { numbered := fun eventName' registration' hmem =>
        hinv.numbered eventName' registration' ((hsub eventName').subset hmem)
      distinct := fun eventName' => (hinv.distinct eventName').sublist ((hsub eventName').map _)
      known := by
        intro dispatch hdispatch number hnumber
        obtain ⟨before, hbefore, rfl⟩ := List.mem_map.mp hdispatch
        exact hinv.known before hbefore number (Dispatch.lose_subset hnumber)
      dispatches := by
        intro dispatch hdispatch
        obtain ⟨before, hbefore, rfl⟩ := List.mem_map.mp hdispatch
        rw [Dispatch.lose_eventName]
        dsimp only
        rcases hinv.dispatches before hbefore with hgoing | hdone
        · left
          by_cases heq : before.eventName = eventName
          · subst heq
            rw [Function.update_self]
            exact hgoing.lose hget (hnext before hbefore hgoing.open' rfl)
          · rw [Function.update_of_ne heq, Dispatch.lose, if_neg fun h => heq h.2]
            exact hgoing
        · right
          rw [Dispatch.lose, if_neg fun h => by simp [hdone.2.resolved] at h]
          exact hdone }

theorem Inv.off [DecidableEq H] (hinv : bus.Inv) {eventName : String} {handler : H}
    (hspares : bus.Undisturbed (.off eventName handler)) : (bus.off eventName handler).Inv := by
  unfold Bus.off
  dsimp only
  split
  · exact hinv
  · rename_i registration hget
    exact hinv.lose hget hspares

theorem Inv.settle (hinv : bus.Inv) {call : Nat} {result : Except Thrown Unit}
    (hprint : ∀ thrown, result = .error thrown → thrown.print = .ok ())
    {dispatch : Dispatch H} {registration : Registration H}
    (hcall : bus.dispatches[call]? = some dispatch)
    (hrunning : dispatch.running = some registration) :
    Bus.Inv { bus with
      dispatches := bus.dispatches.set call
        (dispatch.settle (bus.handlers dispatch.eventName) registration result) } where
  numbered := hinv.numbered
  distinct := hinv.distinct
  known other hother number hnumber := by
    rcases List.mem_or_eq_of_mem_set hother with hother | rfl
    · exact hinv.known other hother number hnumber
    · rw [Dispatch.settle_throughout] at hnumber
      exact hinv.known dispatch (List.mem_of_getElem? hcall) number hnumber
  dispatches other hother := by
    rcases List.mem_or_eq_of_mem_set hother with hother | rfl
    · exact hinv.dispatches other hother
    · rw [Dispatch.settle_eventName]
      rcases hinv.dispatches dispatch (List.mem_of_getElem? hcall) with hgoing | ⟨hnone, -⟩
      · exact hgoing.settle hrunning hprint
      · rw [hrunning] at hnone
        cases hnone

variable [DecidableEq H]

theorem Inv.step (hinv : bus.Inv) {action : Action H} {next : Bus H}
    (hundisturbed : bus.Undisturbed action) (hstep : bus.step action = some next) : next.Inv := by
  cases action with
  | on eventName handler =>
      obtain rfl := Option.some.inj hstep
      exact hinv.on eventName handler
  | off eventName handler =>
      obtain rfl := Option.some.inj hstep
      exact hinv.off hundisturbed
  | dispatch eventName =>
      obtain rfl := Option.some.inj hstep
      exact hinv.call eventName
  | settle call result =>
      obtain ⟨dispatch, hcall, hnext⟩ := Option.bind_eq_some_iff.mp hstep
      obtain ⟨registration, hrunning, rfl⟩ := Option.map_eq_some_iff.mp hnext
      refine hinv.settle (fun thrown hthrown => ?_) hcall hrunning
      subst hthrown
      exact hundisturbed

theorem deliversOnce_of_run (hrun : Machine.Run step Undisturbed {} bus) : bus.DeliversOnce :=
  (hrun.inv inv_empty fun _ _ _ hinv hundisturbed hstep =>
    hinv.step hundisturbed hstep).deliversOnce

namespace Sample

/-- The first handler fails while it takes out the third one and registers a fourth. -/
theorem deliversOnce_of_run_changing :
    ∃ bus : Bus String, Machine.Run step Undisturbed {} bus ∧
      bus.dispatches.map (fun dispatch => invokedIn dispatch.trace) = [[0, 1, 3]] ∧
        bus.DeliversOnce := by
  have hplay : (Machine.playMeeting step Undisturbed
      [.on "OrderPlaced" "view", .on "OrderPlaced" "saga", .on "OrderPlaced" "mail",
        .dispatch "OrderPlaced", .off "OrderPlaced" "mail", .on "OrderPlaced" "audit",
        .settle 0 (.error (.value "boom")), .settle 0 (.ok ()),
        .settle 0 (.error (.error "full"))] {}).map
        (fun bus : Bus String => bus.dispatches.map fun dispatch => invokedIn dispatch.trace) =
      some [[0, 1, 3]] := by decide +kernel
  obtain ⟨bus, hbus, hinvoked⟩ := Option.map_eq_some_iff.mp hplay
  have hrun := Machine.run_of_playMeeting hbus
  exact ⟨bus, hrun, hinvoked, deliversOnce_of_run hrun⟩

/-- The first handler is taken out while it is awaited: the second one is never invoked. -/
theorem deliversOnce_skipped :
    ¬ ∀ bus : Bus String, Machine.Reaches step {} bus → bus.DeliversOnce := by
  intro hall
  have hplay : (Machine.play step
      [.on "OrderPlaced" "view", .on "OrderPlaced" "saga", .dispatch "OrderPlaced",
        .off "OrderPlaced" "view", .settle 0 (.ok ())] {}).map
        (fun bus : Bus String => bus.dispatches.map fun dispatch =>
          (dispatch.running, dispatch.throughout, invokedIn dispatch.trace)) =
      some [(none, [1], [0])] := by decide +kernel
  obtain ⟨bus, hbus, hstate⟩ := Option.map_eq_some_iff.mp hplay
  have hrun := Machine.run_of_play (C := fun _ _ => True) (fun _ _ _ => trivial) hbus
  obtain ⟨dispatch, hdispatches, heq⟩ := List.map_eq_singleton_iff.mp hstate
  obtain ⟨hrunning, hthroughout, hinvoked⟩ : dispatch.running = none ∧
      dispatch.throughout = [1] ∧ invokedIn dispatch.trace = [0] := by simpa using heq
  rcases hall bus hrun dispatch (by simp [hdispatches]) with hwaits | hdelivered
  · rw [hrunning] at hwaits
    cases hwaits
  · have honce := hdelivered.once
    rw [hthroughout, hinvoked] at honce
    exact absurd honce (by decide)

end Sample

end Bus

end Noddde.EventEmitterEventBus
