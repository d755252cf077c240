import Noddde.Proofs.LateReleases
/-!
# What rejected commands leave in a unit of work

A lifecycle enlists its contribution before it asks the view id extractors and the snapshot
strategy.  A unit of work holds the contributions of the commands that resolved, and no
others, as long as none of those throws.
-/

namespace Noddde

variable {J Infra : Type} {wiring : Wiring J Infra} {x : Subject} {u : UowRef} {s t : World J}

/-! ## The contributions to a unit of work -/

/-- What the history says of a contribution. -/
structure ContributionNote (J : Type) where
  task : Task J
  loaded : Loaded J
  newEvents : List (Event J)
  events : List (Event J)

def Obs.contribution? (u : UowRef) : Obs J → Option (ContributionNote J)
  | .contributed task v loaded newEvents events =>
      if v = u then some ⟨task, loaded, newEvents, events⟩ else none
  | _ => none

/-- The contributions to `u`, newest first. -/
def contributionsTo (u : UowRef) (h : List (Obs J)) : List (ContributionNote J) :=
  h.filterMap (Obs.contribution? u)

def Contribution.note (task : Task J) (c : Contribution J) : ContributionNote J :=
  ⟨task, c.loaded, c.newEvents, c.events⟩

variable (wiring u) in
/-- The unit of work is made of the contributions, in order. -/
structure MadeOf (contributions : List (Task J × Contribution J)) (w : World J) : Prop where
  noted : (contributionsTo u w.history).reverse =
    contributions.map fun p => p.2.note p.1
  computed : ∀ p ∈ contributions, ∃ k k', p.2.Computed wiring p.1 k k'
  held : (w.uows u).outcome ≠ some false →
    (w.uows u).operations = contributions.flatMap (fun p => p.2.operations wiring p.1) ∧
      (w.uows u).pendingEvents = contributions.flatMap (fun p => p.2.events)

theorem contributionsTo_append {new old : List (Obs J)}
    (hnone : ∀ o ∈ new, o.contribution? u = none) :
    contributionsTo u (new ++ old) = contributionsTo u old := by
  rw [contributionsTo, List.filterMap_append, List.filterMap_eq_nil_iff.mpr hnone,
    List.nil_append, contributionsTo]

theorem contributionsTo_contributed (task : Task J) (c : Contribution J) (uuids : Nat) :
    contributionsTo u (s.contributed wiring task u c uuids).history =
      c.note task :: contributionsTo u s.history := by
  have henlisted : ∀ operations : List (Operation J), ∀ o ∈
      (operations.map (Obs.enlisted u (some task.dispatch))).reverse, o.contribution? u = none := by
    intro operations o ho
    obtain ⟨operation, -, rfl⟩ := List.mem_map.mp (List.mem_reverse.mp ho)
    rfl
  rw [World.history_contributed, contributionNotes, List.append_assoc,
    contributionsTo_append (henlisted _), List.cons_append, contributionsTo, List.filterMap_cons,
    Obs.contribution?, if_pos rfl]
  exact congrArg _ (contributionsTo_append (henlisted _))

variable (wiring u) in
/-- What a step does to the contributions to `u`. -/
inductive NotesChange (s t : World J) : Prop
  | same (notes : contributionsTo u t.history = contributionsTo u s.history)
      (history : ∀ task c uuids, Contributes wiring task u c uuids s →
        t ≠ s.contributed wiring task u c uuids)
  | contributed {task : Task J} {c : Contribution J} {uuids : Nat}
      (contributes : Contributes wiring task u c uuids s)
      (eq : t = s.contributed wiring task u c uuids)

theorem Step.notes [JsValue J] (h : Step wiring x s t) (u : UowRef) : NotesChange wiring u s t := by
  obtain ⟨new, hnew, hexplained⟩ := h.explains
  by_cases hcontributes : ∃ task c uuids, Contributes wiring task u c uuids s ∧
      t = s.contributed wiring task u c uuids
  · obtain ⟨task, c, uuids, hcontributes, heq⟩ := hcontributes
    exact .contributed hcontributes heq
  · push Not at hcontributes
    refine .same ?_ hcontributes
    rw [hnew]
    refine contributionsTo_append fun o ho => ?_
    have hwhy := hexplained o ho
    cases o with
    | contributed task v loaded newEvents events =>
        refine if_neg ?_
        rintro rfl
        obtain ⟨c, uuids, hc, -, -, -, heq⟩ := hwhy
        exact hcontributes task c uuids hc heq
    | _ => rfl

/-- A scope is only contributed to. -/
theorem MadeOf.step [JsValue J] {contributions : List (Task J × Contribution J)} {n : Nat}
    (hs : MadeOf wiring (.scope n) contributions s) (h : Step wiring x s t) :
    ∃ contributions, MadeOf wiring (.scope n) contributions t := by
  cases h.notes (.scope n) with
  | @contributed task c uuids contributes eq =>
      subst eq
      refine ⟨contributions ++ [(task, c)], ?_, ?_, ?_⟩
      · rw [contributionsTo_contributed, List.reverse_cons, hs.noted, List.map_append]
        rfl
      · intro p hp
        rcases List.mem_append.mp hp with hp | hp
        · exact hs.computed p hp
        · obtain rfl := List.mem_singleton.mp hp
          exact ⟨_, _, contributes.computed⟩
      · rw [World.uows_contributed, Function.update_self]
        intro houtcome
        obtain ⟨hoperations, hevents⟩ := hs.held houtcome
        simp [hoperations, hevents]
  | same notes none =>
      refine ⟨contributions, notes ▸ hs.noted, hs.computed, ?_⟩
      cases h.uow (.scope n) with
      | same uow => rw [uow]; exact hs.held
      | created _ uow => rw [uow]; exact hs.held
      | contributed contributes eq => exact absurd eq (none _ _ _ contributes)
      | enlistedSaga saga => cases saga
      | committing _ _ _ eq => rw [eq, World.uow_committing]; exact hs.held
      | ran running stores eq =>
          rw [eq, stores.uow_ran]
          exact hs.held
      | refused _ refuses eq =>
          rw [eq, refuses.uow_refused]
          exact fun h => absurd rfl h
      | committed running eq =>
          rw [eq, World.uow_committed]
          exact fun _ => hs.held (by simp [running.outcome])
      | commitRejected _ _ eq =>
          rw [eq, World.uow_commitRejected]
          exact fun h => absurd rfl h
      | rolledBack _ _ eq =>
          rw [eq, World.uow_rolledBack]
          exact fun h => absurd rfl h

/-! ## How the dispatches settle -/

theorem contributionsIn_append {new old : List (Obs J)} (hnone : ∀ o ∈ new,
    ∀ task u loaded newEvents events, o ≠ .contributed task u loaded newEvents events) :
    contributionsIn wiring (new ++ old) = contributionsIn wiring old := by
  induction new with
  | nil => rfl
  | cons o rest ih =>
      have hrest := ih fun o' ho' => hnone o' (List.mem_cons_of_mem _ ho')
      cases o with
      | contributed => exact absurd rfl (hnone _ List.mem_cons_self _ _ _ _ _)
      | _ => exact hrest

theorem about_contributed {y : Subject} {task : Task J} {c : Contribution J} {uuids : Nat}
    (hy : y ≠ .lifecycle task.dispatch u) :
    about y (s.contributed wiring task u c uuids).history = about y s.history := by
  rw [World.history_contributed, about, List.filter_append, List.filter_eq_nil_iff.mpr]
  · rfl
  · intro o ho
    simp only [contributionNotes, List.mem_append, List.mem_reverse, List.mem_map,
      List.mem_cons] at ho
    rcases ho with ⟨_, _, rfl⟩ | rfl | ⟨_, _, rfl⟩ <;> simpa [Obs.subject] using hy.symm

/-- A lifecycle that contributes to an explicit unit of work has failed before. -/
theorem Step.tries [JsValue J] (h : Step wiring x s t) (d : Origin) :
    contributionsIn wiring (about (.dispatch d) t.history) =
        contributionsIn wiring (about (.dispatch d) s.history) ∨
      ∃ task u c uuids, Contributes wiring task u c uuids s ∧ u.implicit = false ∧
        task.dispatch = d ∧ contributionsIn wiring (about (.dispatch d) t.history) =
          Completes wiring task c.loaded c.newEvents c.events ::
            contributionsIn wiring (about (.dispatch d) s.history) := by
  by_cases hcontributes : ∃ task u c uuids, Contributes wiring task u c uuids s ∧
      t = s.contributed wiring task u c uuids
  · obtain ⟨task, u, c, uuids, hcontributes, rfl⟩ := hcontributes
    by_cases hd : Subject.dispatch d = .lifecycle task.dispatch u
    · have hu : u.implicit = false := by
        by_contra hu
        rw [Subject.lifecycle, if_pos (by simpa using hu)] at hd
        cases hd
      rw [lifecycle_of_explicit hu] at hd
      obtain rfl := Subject.dispatch.inj hd
      refine .inr ⟨task, u, c, uuids, hcontributes, hu, rfl, ?_⟩
      rw [← lifecycle_of_explicit hu]
      exact contributionsIn_contributed wiring
    · exact .inl (congrArg _ (about_contributed hd))
  · push Not at hcontributes
    obtain ⟨new, hnew, hexplained⟩ := h.explains
    refine .inl ?_
    rw [hnew, about, List.filter_append]
    refine contributionsIn_append fun o ho task u loaded newEvents events heq => ?_
    subst heq
    obtain ⟨c, uuids, hc, -, -, -, heq⟩ := hexplained _ (List.mem_of_mem_filter ho)
    exact hcontributes task u c uuids hc heq

variable (wiring) in
structure Fates (w : World J) : Prop where
  begun : ∀ u, ∀ note ∈ contributionsTo u w.history, .started note.task u.joined ∈ w.history
  tried : ∀ d complete earlier,
    contributionsIn wiring (about (.dispatch d) w.history) = complete :: earlier →
      ∀ incomplete ∈ earlier, ¬ incomplete
  fated : ∀ task u error, .started task (some u) ∈ w.history →
    .settled task.dispatch error ∈ w.history → Fate wiring task.dispatch error w.history

theorem Fate.keep {d : Origin} {error : Option Err} {h h' : List (Obs J)}
    (hfate : Fate wiring d error h) (hsub : h ⊆ h')
    (hsame : contributionsIn wiring (about (.dispatch d) h') =
      contributionsIn wiring (about (.dispatch d) h)) : Fate wiring d error h' := by
  unfold Fate at hfate ⊢
  rw [hsame]
  cases error with
  | some e => exact hfate
  | none => exact hfate.imp (fun h => ⟨hsub h.1, h.2⟩) id

theorem Fates.step [JsValue J] (hs : Fates wiring s) (hlocked : Locked s)
    (h : Step wiring x s t) : Fates wiring t := by
  have hsub : s.history ⊆ t.history := h.adds.grows.subset
  constructor
  · intro u note hmem
    cases h.notes u with
    | same notes => exact hsub (hs.begun u note (notes ▸ hmem))
    | contributed contributes eq =>
        subst eq
        rw [contributionsTo_contributed] at hmem
        rcases List.mem_cons.mp hmem with rfl | hmem
        · exact hsub contributes.begun.1
        · exact hsub (hs.begun u note hmem)
  · intro d complete earlier heq
    rcases h.tries d with hsame | ⟨task, u, c, uuids, hcontributes, hu, rfl, hcons⟩
    · exact hs.tried d complete earlier (hsame ▸ heq)
    · obtain ⟨-, rfl⟩ := List.cons.inj (heq.symm.trans hcons)
      exact hcontributes.tries hu
  · intro task u error hstarted hsettled
    rcases h.explained hsettled with hold | ⟨⟨-, -, task', uow, hd, hstarted', -, hfate⟩, rfl⟩
    · -- what has settled starts nothing and contributes nothing
      have hstarted : .started task (some u) ∈ s.history := by
        rcases h.explained hstarted with hstarted | ⟨⟨hfresh, -⟩, -⟩
        · exact hstarted
        · have hcall : .settled task.dispatch error ∈ about (.call task.dispatch) s.history :=
            (mem_about rfl).mpr hold
          rw [hfresh.uncalled] at hcall
          cases hcall
      refine (hs.fated task u error hstarted hold).keep hsub ?_
      refine (h.tries task.dispatch).resolve_right ?_
      rintro ⟨task', v, c, uuids, hcontributes, -, hd, -⟩
      exact hcontributes.unsettled error (hd ▸ hold)
    · have hstarted : .started task (some u) ∈ s.history :=
        (List.mem_cons.mp hstarted).resolve_left (by simp)
      obtain ⟨rfl, rfl⟩ := hlocked.tasks _ _ _ _ hstarted' hstarted hd
      refine hfate.keep (List.subset_cons_self _ _) ?_
      exact contributionsIn_note wiring (by simp)

section Runs

variable [JsValue J] {C : World J → World J → Prop} {workload : Workload J} {q : Process J Infra}

end Runs

/-! ## A scope that catches a rejection -/

namespace Sample

/-- A view of all the counters, which has no place for the amount 2. -/
def ledger : Projection Value Unit where
  name := "Ledger"
  on name :=
    if name = "Added"
    then some
      { id := fun event =>
          if event.payload = some 2 then .error (.error "no view") else .ok (.string "all")
        reduce := fun event view _ => .ok (some (some (event.payload.getD 0 + view.getD 0))) }
    else none
  initialView := some 0

/-- No amount is 2. -/
def placed (h : List (Obs Value)) : Bool :=
  (contributionsTo (.scope 0) h).all fun note =>
    note.events.all fun event => decide (event.payload ≠ some 2)

end Sample

end Noddde
