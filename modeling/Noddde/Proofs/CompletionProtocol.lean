import Noddde.Data.SerialLog
import Noddde.Proofs.CommandsOnce
/-!
# The completion protocol of a unit of work

In the history of a unit of work: its end, then its completion hooks, each once and outside
of its scope, then the publishing of the events that it has committed, one after another
and in the order in which they were deferred.
-/

namespace Noddde

variable {J Infra : Type} {wiring : Wiring J Infra} {x : Subject} {u : UowRef} {s t : World J}

/-! ## The order of the observations -/

/-- What has to precede an observation about `u`; `old` is the history at that time. -/
def Obs.follows (u : UowRef) (old : List (Obs J)) : Obs J → Prop
  | .hooksTaken v success within _ => v = u →
      (∃ o ∈ old, o.settles u = true) ∧ within ≠ some u ∧
        (success = true ↔ ∃ events, .committed u events ∈ old) ∧
        ∀ committed within hooks, .hooksTaken u committed within hooks ∉ old
  | .hookRan v _ _ => v = u →
      ∃ committed within hooks, .hooksTaken u committed within hooks ∈ old
  | .dispatchCalled v _ => v = some u →
      (∃ events, .committed u events ∈ old) ∧
        (u.implicit = false → ∃ within hooks, .hooksTaken u true within hooks ∈ old) ∧
        resolvedIn u old = calledIn u old
  | _ => True

/-- Every observation comes after what has to precede it. -/
abbrev Orderly (u : UowRef) : List (Obs J) → Prop := Causal fun o old => o.follows u old

/-! ## Publishing -/

variable (u) in
/-- The events of `u` that were handed to the bus are the first ones that it has committed,
each only after the one before it has resolved; a rejection is the last word. -/
structure InOrder (h : List (Obs J)) : Prop where
  called : calledIn u h = [] ∨ ∃ events, .committed u events ∈ h ∧ calledIn u h <+: events
  pending : resolvedIn u h = calledIn u h ∨ ∃ event, calledIn u h = resolvedIn u h ++ [event]
  rejected : ∀ event e, .dispatchRejected (some u) event e ∈ h →
    calledIn u h = resolvedIn u h ++ [event]

variable (wiring u) in
inductive PublishChange [JsValue J] (s t : World J) : Prop
  | same {new : List (Obs J)} (history : t.history = new ++ s.history)
      (spares : ∀ o ∈ new, o.publishes u = false)
  | noted {o : Obs J} (publishes : o.publishes u = true) (justified : Justified wiring s o)
      (eq : t = s.note o)

theorem Step.publishing [JsValue J] (h : Step wiring x s t) (u : UowRef) :
    PublishChange wiring u s t := by
  obtain ⟨new, hnew, hexplained⟩ := h.explains
  by_cases hall : ∀ o ∈ new, o.publishes u = false
  · exact .same hnew hall
  · push Not at hall
    obtain ⟨o, ho, hpublishes⟩ := hall
    rw [ne_eq, Bool.not_eq_false] at hpublishes
    have hwhy := hexplained o ho
    cases o with
    | dispatchCalled | dispatchResolved | dispatchRejected =>
        exact .noted hpublishes hwhy.1 hwhy.2
    | _ => cases hpublishes

theorem InOrder.step [JsValue J] (hs : InOrder u s.history) (h : Step wiring x s t) :
    InOrder u t.history := by
  cases h.publishing u with
  | same history spares =>
      rw [history]
      constructor
      · rw [calledIn_append spares]
        refine hs.called.imp id ?_
        rintro ⟨events, hmem, hprefix⟩
        exact ⟨events, List.mem_append_right _ hmem, hprefix⟩
      · rw [calledIn_append spares, resolvedIn_append spares]
        exact hs.pending
      · intro event e hmem
        rw [calledIn_append spares, resolvedIn_append spares]
        rcases List.mem_append.mp hmem with hmem | hmem
        · simpa [Obs.publishes] using spares _ hmem
        · exact hs.rejected event e hmem
  | @noted o publishes justified eq =>
      subst eq
      change InOrder u (o :: s.history)
      cases o with
      | dispatchCalled v event =>
          cases v with
          | none => cases publishes
          | some v =>
              obtain rfl : v = u := of_decide_eq_true publishes
              obtain ⟨⟨rest, hpublishing⟩, hresolved⟩ := justified
              have hcalled : calledIn v (.dispatchCalled (some v) event :: s.history) =
                  calledIn v s.history ++ [event] := by simp [calledIn]
              have hkept : resolvedIn v (.dispatchCalled (some v) event :: s.history) =
                  resolvedIn v s.history := by simp [resolvedIn]
              constructor
              · refine .inr ⟨_, List.mem_cons_of_mem _ hpublishing.committed, ?_⟩
                rw [hcalled]
                exact ⟨rest, by simp⟩
              · exact .inr ⟨event, by rw [hcalled, hkept, hresolved]⟩
              · intro event' e hmem
                have hold : .dispatchRejected (some v) event' e ∈ s.history := by simpa using hmem
                exact absurd hold (hpublishing.accepted _ _)
      | dispatchResolved v event =>
          cases v with
          | none => cases publishes
          | some v =>
              obtain rfl : v = u := of_decide_eq_true publishes
              obtain ⟨⟨rest, hpublishing⟩, hlast⟩ := justified
              have hkept : calledIn v (.dispatchResolved (some v) event :: s.history) =
                  calledIn v s.history := by simp [calledIn]
              have hresolved : resolvedIn v (.dispatchResolved (some v) event :: s.history) =
                  resolvedIn v s.history ++ [event] := by simp [resolvedIn]
              constructor
              · rw [hkept]
                exact .inr ⟨_, List.mem_cons_of_mem _ hpublishing.committed,
                  List.prefix_append _ _⟩
              · exact .inl (by rw [hkept, hresolved, hlast])
              · intro event' e hmem
                have hold : .dispatchRejected (some v) event' e ∈ s.history := by simpa using hmem
                exact absurd hold (hpublishing.accepted _ _)
      | dispatchRejected v event e =>
          cases v with
          | none => cases publishes
          | some v =>
              obtain rfl : v = u := of_decide_eq_true publishes
              obtain ⟨⟨rest, hpublishing⟩, hlast⟩ := justified
              have hcalled : calledIn v (.dispatchRejected (some v) event e :: s.history) =
                  calledIn v s.history := by simp [calledIn]
              have hresolved : resolvedIn v (.dispatchRejected (some v) event e :: s.history) =
                  resolvedIn v s.history := by simp [resolvedIn]
              constructor
              · rw [hcalled]
                exact .inr ⟨_, List.mem_cons_of_mem _ hpublishing.committed,
                  List.prefix_append _ _⟩
              · exact .inr ⟨event, by rw [hcalled, hresolved, hlast]⟩
              · intro event' e' hmem
                rcases List.mem_cons.mp hmem with heq | hmem
                · obtain ⟨-, rfl, -⟩ := Obs.dispatchRejected.inj heq
                  rw [hcalled, hresolved, hlast]
                · exact absurd hmem (hpublishing.accepted _ _)
      | _ => cases publishes

/-! ## The loop over the hooks -/

def Obs.loops (u : UowRef) : Obs J → Bool
  | .hooksTaken v _ _ _ | .hookRan v _ none => v = u
  | _ => false

theorem ranHooksIn_append {old new : List (Obs J)} (h : ∀ o ∈ new, o.loops u = false) :
    ranHooksIn u (new ++ old) = ranHooksIn u old := by
  have hnone : new.filterMap (Obs.ranHook? u) = [] := by
    rw [List.filterMap_eq_nil_iff]
    intro o ho
    have hloops := h o ho
    cases o with
    | hookRan v hook error =>
        cases error with
        | none => exact if_neg (of_decide_eq_false hloops)
        | some e => rfl
    | _ => rfl
  rw [ranHooksIn, List.filterMap_append, hnone, List.nil_append, ranHooksIn]

variable (u) in
inductive LoopChange (s t : World J) : Prop
  | same (new : List (Obs J)) (running : (t.frames u).running = (s.frames u).running)
      (history : t.history = new ++ s.history) (spares : ∀ o ∈ new, o.loops u = false)
  | took {committed : Bool} {within : Option UowRef} {hooks : List (Hook J)}
      (first : ∀ committed within hooks, .hooksTaken u committed within hooks ∉ s.history)
      (running : (t.frames u).running = hooks)
      (history : t.history = .hooksTaken u committed within hooks :: s.history)
  | ran (hook : Hook J) (new : List (Obs J))
      (running : (s.frames u).running = hook :: (t.frames u).running)
      (history : t.history = .hookRan u hook none :: (new ++ s.history))
      (spares : ∀ o ∈ new, o.loops u = false)

theorem head_tail {α : Type} {xs : List α} {a : α} (h : xs.head? = some a) :
    xs = a :: xs.tail := by
  cases xs with
  | nil => cases h
  | cons b rest =>
      obtain rfl := Option.some.inj h
      rfl

theorem HookChange.loop (h : HookChange wiring u s t) : LoopChange u s t := by
  cases h with
  | same _ running _ spares =>
      obtain ⟨new, hnew, hspares⟩ := spares
      refine .same new running hnew fun o ho => ?_
      have hhooks := hspares o ho
      cases o with
      | hooksTaken => exact hhooks
      | hookRan v hook error =>
          cases error with
          | none => exact hhooks
          | some e => rfl
      | _ => rfl
  | registeredSnapshot _ _ _ eq =>
      subst eq
      exact .same [_] rfl rfl (by simp [Obs.loops])
  | registeredRelease _ _ _ eq =>
      subst eq
      exact .same [_] rfl rfl (by simp [Obs.loops])
  | claimed _ _ eq =>
      subst eq
      exact .same [] (by simp [World.setFrame]) rfl (by simp)
  | took _ _ _ first eq =>
      subst eq
      exact .took first (by simp [takeHooks, World.note, World.setFrame]) rfl
  | @ranSnapshotHook aggregateName aggregateId snapshot saved running eq =>
      subst eq
      refine .ran (.saveSnapshot aggregateName aggregateId snapshot) [] ?_ ?_
        (by simp)
      · rw [head_tail running]
        cases saved <;>
          simp [World.hookEnded, World.savedSnapshot, World.note, World.setFrame]
      · cases saved <;> rfl
  | @ranReleaseHook ticket aggregateName aggregateId _ running eq =>
      subst eq
      obtain ⟨new, hnew, hobs⟩ := Locker.release_history ticket aggregateName aggregateId s
      refine .ran _ new ?_ (congrArg _ hnew) fun o ho => ?_
      · rw [head_tail running]
        simp [World.hookEnded, World.note, World.setFrame, Locker.release_frames]
      · rcases hobs o ho with ⟨_, rfl⟩ | ⟨_, _, rfl⟩ <;> rfl

variable (u) in
/-- The hooks of `u` run one after another, in the order in which they were taken. -/
structure HooksInTurn (w : World J) : Prop where
  before : (∀ committed within hooks, .hooksTaken u committed within hooks ∉ w.history) →
    (w.frames u).running = [] ∧ ranHooksIn u w.history = []
  turns : ∀ committed within hooks, .hooksTaken u committed within hooks ∈ w.history →
    ranHooksIn u w.history ++ (w.frames u).running = hooks

theorem hooksInTurn_empty : HooksInTurn u ({} : World J) where
  before _ := ⟨rfl, rfl⟩
  turns := by simp

theorem ranHooksIn_cons (o : Obs J) (h : List (Obs J)) :
    ranHooksIn u (o :: h) = ranHooksIn u h ++ (o.ranHook? u).toList :=
  ranHooksIn_note (s := { history := h })

theorem HooksInTurn.step [JsValue J] (hs : HooksInTurn u s) (h : Step wiring x s t) :
    HooksInTurn u t := by
  have hsub : s.history ⊆ t.history := h.adds.grows.subset
  cases (h.hooks u).loop with
  | same new running history spares =>
      have hran : ranHooksIn u t.history = ranHooksIn u s.history := by
        rw [history, ranHooksIn_append spares]
      constructor
      · intro hnone
        rw [running, hran]
        exact hs.before fun _ _ _ hmem => hnone _ _ _ (hsub hmem)
      · intro committed within hooks hmem
        rw [running, hran]
        rw [history] at hmem
        rcases List.mem_append.mp hmem with hmem | hmem
        · simpa [Obs.loops] using spares _ hmem
        · exact hs.turns _ _ _ hmem
  | @took committed within hooks first running history =>
      constructor
      · intro hnone
        exact absurd (by rw [history]; exact List.mem_cons_self) (hnone committed within hooks)
      · intro committed' within' hooks' hmem
        rw [history] at hmem
        rcases List.mem_cons.mp hmem with heq | hmem
        · obtain ⟨-, -, -, rfl⟩ := Obs.hooksTaken.inj heq
          rw [history, ranHooksIn_cons, (hs.before first).2, running]
          rfl
        · exact absurd hmem (first _ _ _)
  | ran hook new running history spares =>
      have hran : ranHooksIn u t.history = ranHooksIn u s.history ++ [hook] := by
        rw [history, ranHooksIn_cons, ranHooksIn_append spares, Obs.ranHook?, if_pos rfl]
        rfl
      constructor
      · intro hnone
        obtain ⟨hidle, -⟩ := hs.before fun _ _ _ hmem => hnone _ _ _ (hsub hmem)
        rw [hidle] at running
        cases running
      · intro committed within hooks hmem
        rw [history] at hmem
        rcases List.mem_cons.mp hmem with heq | hmem
        · cases heq
        · rcases List.mem_append.mp hmem with hmem | hmem
          · simpa [Obs.loops] using spares _ hmem
          · have hturns := hs.turns _ _ _ hmem
            rw [running] at hturns
            rw [hran, List.append_assoc]
            exact hturns

/-! ## The order is kept -/

theorem Orderly.step [JsValue J] (horderly : Orderly u s.history) (hinv : Inv wiring s)
    (hhooks : HooksInTurn u s) (h : Step wiring x s t) : Orderly u t.history := by
  obtain ⟨new, hnew, hexplained⟩ := h.explains
  by_cases hall : ∀ o ∈ new, ∀ old, s.history ⊆ old → o.follows u old
  · rw [hnew]
    exact horderly.append fun before o after heq =>
      hall o (by simp [heq]) _ (List.subset_append_right _ _)
  · push Not at hall
    obtain ⟨o, ho, old, hsub, hnot⟩ := hall
    have hwhy := hexplained o ho
    cases o with
    | hooksTaken v success within hooks =>
        obtain ⟨ambient, rfl, houtside, -, houtcome, hfirst, -, rfl⟩ := hwhy
        refine ⟨?_, horderly⟩
        rintro rfl
        refine ⟨?_, houtside, ?_, hfirst⟩
        · by_contra hnone
          push Not at hnone
          have hunsettled := (hinv.units v).settled.mpr fun o ho => by simpa using hnone o ho
          rw [houtcome] at hunsettled
          cases hunsettled
        · constructor
          · rintro rfl
            exact ⟨_, (hinv.units v).resolved houtcome⟩
          · rintro ⟨events, hmem⟩
            have hcommitted := ((hinv.units v).committed events hmem).1
            rw [houtcome] at hcommitted
            exact Option.some.inj hcommitted
    | dispatchCalled v event =>
        obtain ⟨hjustified, rfl⟩ := hwhy
        refine ⟨?_, horderly⟩
        rintro rfl
        obtain ⟨⟨rest, hpublishing⟩, hresolved⟩ := hjustified
        exact ⟨⟨_, hpublishing.committed⟩, hpublishing.hooks, hresolved⟩
    | hookRan v hook error =>
        refine absurd ?_ hnot
        rintro rfl
        have hrunning := hwhy.turn.head
        by_contra hnone
        push Not at hnone
        have hidle := (hhooks.before fun committed within hooks hmem =>
          hnone committed within hooks (hsub hmem)).1
        rw [hidle] at hrunning
        cases hrunning
    | _ => exact absurd trivial hnot

/-! ## Runs -/

section Runs

variable [JsValue J] {C : World J → World J → Prop} {workload : Workload J} {q : Process J Infra}

/-- What the owner of an explicit unit of work has done once it settles. -/
theorem reported_of_run (hrun : Pool.Run C (boot wiring workload) q) (hu : u.implicit = false)
    (hcreated : (q.state.uows u).created = true) :
    (q.threads u.owner = .pure () →
      Reported u none q.state.history ∧ Drained u q.state.history) ∧
    ∀ e, q.threads u.owner = .throw e →
      Reported u (some e) q.state.history ∧ Drained u q.state.history := by
  constructor
  · intro hi
    have htold := told_of_resolved wiring hrun hi
    cases u with
    | attempt => cases hu
    | scope n => exact htold hcreated
    | saga n => exact htold hcreated
  · intro e hi
    have htold := told_of_rejected wiring hrun hi
    cases u with
    | attempt => cases hu
    | scope n => exact htold hcreated
    | saga n => exact htold hcreated

end Runs

/-! ## A scope with two locks -/

namespace Sample

def locking : Wiring Value Unit :=
  { Sample.wiring with concurrency := .base (.pessimistic none) }

/-- A scope that adds to two counters, under their locks; it is opened where a plain call
would be made. -/
def twoLocks : Process Value Unit :=
  boot locking (work [] [⟨(call (add "a" none)).ambient,
    .dispatchCommand "Counter" (add "a" (some 2)) fun _ =>
      .dispatchCommand "Counter" (add "b" (some 3)) fun _ => .settle⟩])

end Sample

end Noddde
