import Noddde.Proofs.Interchange
import Noddde.Proofs.LocksReturned
/-!
# Aggregates whose state becomes null

A stored state that is nullish is loaded as the initial state, a stream that evolves to one is
not.  The two persistences can be told apart exactly when a command is decided on such a
state.
-/

namespace Noddde

open Async

variable {J Infra : Type} [JsValue J] (wiring : Wiring J Infra) (name : String)

/-- Moment by moment the commands look the same from the outside over both persistences, down
to the states that they are decided on, and they end alike. -/
structure RunsAlike (calls : List (CommandCall J)) (choices : List (Choice Infra)) : Prop where
  shown : List.Forall₂ SameShown ((inTurn wiring 0 calls).trace choices {})
    ((inTurn (wiring.storingStates name) 0 calls).trace choices {})
  ended : BothEnd (fun _ _ => Alike wiring name) (fun _ _ _ => False)
    ((inTurn wiring 0 calls).alone choices {})
    ((inTurn (wiring.storingStates name) 0 calls).alone choices {})

variable {wiring name}

theorem vouches_neverNullish :
    Vouches wiring name fun s _ => NeverNullish wiring name s :=
  fun _ _ _ _ _ _ _ _ _ _ h => h _ _ _ _ List.mem_cons_self

/-- What a command is decided on can be seen. -/
theorem vouches_sameShown : Vouches wiring name (SameShown : World J → World J → Prop) := by
  intro s s' task u state events newEvents newEvents' hshown _ h
  simp only [SameShown, World.note, List.filterMap_cons, Obs.shown, List.cons.injEq] at h
  exact (Obs.decided.inj h.1).2.2.1

/-- Commands that are executed one after another have the same outcomes over both
persistences, and are decided on the same states, if and only if over the event-sourced one no
command is decided on a nullish state, other than the initial one. -/
theorem runsAlike_iff (hcomparable : Comparable wiring name) {calls : List (CommandCall J)}
    (hcalls : ∀ call ∈ calls, call.aggregateName = name ∧ call.ambient.uow = none)
    (choices : List (Choice Infra)) :
    RunsAlike wiring name calls choices ↔
      ∀ w ∈ (inTurn wiring 0 calls).trace choices {}, NeverNullish wiring name w := by
  have hlockstep : ∀ {G : World J → World J → Prop}, Vouches wiring name G →
      Lockstep G (Matching wiring name) (fun _ _ => Alike wiring name) (fun _ _ _ => False)
        (inTurn wiring 0 calls) (inTurn (wiring.storingStates name) 0 calls) {} {} := fun hG =>
    (inTurn_lockstep hcomparable hG hcalls 0 Twins.empty).mono (fun _ _ _ _ ht => ht.alike)
      fun _ _ _ h => h
  constructor
  · intro halike
    obtain ⟨-, hzip⟩ := List.forall₂_iff_zip.mp halike.shown
    obtain ⟨hmatching, -⟩ := (hlockstep vouches_sameShown).run choices fun _ hpair => hzip hpair
    exact ((List.forall₂_and_left _ _).mp
      (hmatching.imp fun _ _ h => ⟨h.neverNullish, h.shown⟩)).1
  · intro hnever
    obtain ⟨hmatching, hended⟩ := (hlockstep vouches_neverNullish).run choices
      fun pair hpair => hnever _ (List.of_mem_zip hpair).1
    exact ⟨hmatching.imp fun _ _ h => h.shown, hended⟩

/-! ## An account that is closed -/

namespace Sample

/-- The counter with a command that leaves `null` as its state, on which it refuses to add. -/
def closable : Wiring Value Unit :=
  { Sample.wiring with
    aggregates := fun _ =>
      { counter with
        decide := fun name =>
          if name = "Close" then some fun _ _ _ => .ok (.single (event "Closed" none))
          else if name = "Add"
          then some fun command state _ =>
            if state = none then .error (.error "closed")
            else .ok (.single (event "Added" (command.payload.getD none)))
          else none
        evolve := fun name =>
          if name = "Closed" then some fun _ _ => .ok none else counter.evolve name } }

theorem closable_comparable : Comparable closable "Counter" where
  sourced := ⟨true, rfl⟩
  unsnapped := rfl
  numberless := List.forall_mem_nil _

def close (id : String) : Command Value := ⟨"Close", none, none, .string id⟩

/-- No command is decided on `null`. -/
def onValues (w : World Value) : Bool :=
  w.history.all fun o =>
    match o with
    | .decided _ _ state _ => state.isSome
    | _ => true

theorem neverNullish_of_onValues {w : World Value} (h : onValues w = true) :
    NeverNullish closable "Counter" w := by
  intro task u state newEvents hmem
  have hstate := List.all_eq_true.mp h _ hmem
  cases state with
  | none => cases hstate
  | some n => rfl

/-- How the dispatches have settled, the last one first. -/
def settlements (w : World Value) : List (Origin × Option Err) :=
  w.history.filterMap Obs.settlement?

theorem settlements_eq_of_sameShown {s s' : World Value} (h : SameShown s s') :
    settlements s' = settlements s := by
  have hsettled : ∀ w : World Value, settlements w =
      (w.history.filterMap Obs.shown).filterMap Obs.settlement? := by
    intro w
    rw [settlements, List.filterMap_filterMap]
    refine List.filterMap_congr fun o _ => ?_
    cases o <;> rfl
  rw [hsettled, hsettled, show _ = _ from h]

end Sample

/-- One counter is closed, and the next command goes to another one. -/
theorem runsAlike_iff_others :
    ((inTurn Sample.closable 0 [Sample.call (Sample.close "a"),
        Sample.call (Sample.add "b" (some 1))]).alone (List.replicate 30 Sample.tick) {}).any
      (fun ended => (ended.2.eventStore.load "Counter" (.string "b")).length = 1) = true ∧
    RunsAlike Sample.closable "Counter"
      [Sample.call (Sample.close "a"), Sample.call (Sample.add "b" (some 1))]
      (List.replicate 30 Sample.tick) := by
  have hvalues : ∀ w ∈ (inTurn Sample.closable 0 [Sample.call (Sample.close "a"),
      Sample.call (Sample.add "b" (some 1))]).trace (List.replicate 30 Sample.tick) {},
      Sample.onValues w = true := by
    decide +kernel
  exact ⟨by decide +kernel, (runsAlike_iff Sample.closable_comparable (by decide) _).mpr
    fun w hw => Sample.neverNullish_of_onValues (hvalues w hw)⟩

/-- The counter that was closed refuses to add over the event-sourced persistence, and starts
again at its initial state over the other one. -/
theorem runsAlike_fails :
    ((inTurn Sample.closable 0 [Sample.call (Sample.close "a"),
        Sample.call (Sample.add "a" (some 1))]).alone (List.replicate 30 Sample.tick) {}).any
      (fun ended => (ended.2.eventStore.load "Counter" (.string "a")).length = 1) = true ∧
    ¬ RunsAlike Sample.closable "Counter"
      [Sample.call (Sample.close "a"), Sample.call (Sample.add "a" (some 1))]
      (List.replicate 30 Sample.tick) := by
  refine ⟨by decide +kernel, fun halike => ?_⟩
  have hended := halike.ended
  have hleft : ((inTurn Sample.closable 0 [Sample.call (Sample.close "a"),
      Sample.call (Sample.add "a" (some 1))]).alone (List.replicate 30 Sample.tick) {}).map
        (fun ended => Sample.settlements ended.2) =
      some [(.command 1, some (.error "closed")), (.command 0, none)] := by
    decide +kernel
  have hright : ((inTurn (Sample.closable.storingStates "Counter") 0
      [Sample.call (Sample.close "a"), Sample.call (Sample.add "a" (some 1))]).alone
        (List.replicate 30 Sample.tick) {}).map (fun ended => Sample.settlements ended.2) =
      some [(.command 1, none), (.command 0, none)] := by
    decide +kernel
  obtain ⟨left, hl, hleft⟩ := Option.map_eq_some_iff.mp hleft
  obtain ⟨right, hr, hright⟩ := Option.map_eq_some_iff.mp hright
  rw [hl, hr] at hended
  obtain ⟨_, s⟩ := left
  obtain ⟨_, s'⟩ := right
  cases hended with
  | some houtcomes =>
      have halike : Alike Sample.closable "Counter" s s' := by
        revert houtcomes
        simp only [Outcomes]
        split <;> simp
      have hsame := Sample.settlements_eq_of_sameShown halike.shown
      rw [hleft, hright] at hsame
      cases hsame

end Noddde
