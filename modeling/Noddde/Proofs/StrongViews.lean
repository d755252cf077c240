import Noddde.Proofs.EventualViews
/-!
# Strong projections under concurrent commits
-/

namespace Noddde.ReadModel

variable {ι J Infra : Type} {domain : Domain J Infra} {name : String}
  {projection : Projection J Infra}

/-! ## What a batch enlists -/

def Operation.writes (name : String) : Operation J → List (Event J)
  | .updateView owner _ event => if owner = name then [event] else []
  | _ => []

/-- The thunk updates the view of its event. -/
def Operation.Sound (name : String) (projection : Projection J Infra) :
    Operation J → Prop
  | .updateView owner viewId event =>
      owner = name → projection.viewKey? event = some viewId.render
  | _ => True

theorem Operation.sound_of_flatMap_writes {operations : List (Operation J)}
    (h : operations.flatMap (Operation.writes name) = []) {operation : Operation J}
    (hmem : operation ∈ operations) : operation.Sound name projection := by
  have hwrites := List.flatMap_eq_nil_iff.mp h operation hmem
  cases operation with
  | updateView owner viewId event =>
      intro howner
      simp [Operation.writes, howner] at hwrites
  | saveEvents => trivial
  | other => trivial

theorem enlistViews_spec {events : List (Event J)} {operations : List (Operation J)}
    (h : enlistViews name projection events = .ok operations) :
    operations.flatMap (Operation.writes name) =
        events.filter (fun event => (projection.viewKey? event).isSome) ∧
      (∀ operation ∈ operations, operation.Sound name projection) ∧
      ∀ other, other ≠ name → operations.flatMap (Operation.writes other) = [] := by
  induction events generalizing operations with
  | nil =>
      obtain rfl := Except.ok.inj h
      exact ⟨rfl, fun _ hmem => absurd hmem List.not_mem_nil, fun _ _ => rfl⟩
  | cons event rest ih =>
      unfold enlistViews at h
      cases hon : projection.on.get event.name with
      | none =>
          simp only [hon] at h
          have hkey : projection.viewKey? event = none := by simp [Projection.viewKey?, hon]
          rw [List.filter_cons_of_neg (by simp [hkey])]
          exact ih h
      | some handler =>
          simp only [hon] at h
          split_ifs at h with hid
          · cases hviewId : handler.viewId event with
            | error error => simp [hviewId, bind, Except.bind] at h
            | ok viewId =>
                cases hothers : enlistViews name projection rest with
                | error error => simp [hviewId, hothers, bind, Except.bind] at h
                | ok others =>
                    simp only [hviewId, hothers, bind, Except.bind, Except.ok.injEq] at h
                    subst h
                    obtain ⟨hwrites, hsound, hother⟩ := ih hothers
                    have hkey : projection.viewKey? event = some viewId.render :=
                      viewKey?_eq_some.mpr ⟨handler, viewId, hon, hviewId, rfl⟩
                    refine ⟨?_, ?_, fun other hne => ?_⟩
                    · rw [List.filter_cons_of_pos (by simp [hkey]), List.flatMap_cons, hwrites]
                      simp [Operation.writes]
                    · intro operation hmem
                      rcases List.mem_cons.mp hmem with rfl | hmem
                      · exact fun _ => hkey
                      · exact hsound operation hmem
                    · rw [List.flatMap_cons, hother other hne]
                      simp [Operation.writes, hne.symm]
          · have hkey : projection.viewKey? event = none := by
              cases hview : projection.viewKey? event with
              | none => rfl
              | some key =>
                  obtain ⟨handler', viewId, hon', hviewId, -⟩ := viewKey?_eq_some.mp hview
                  obtain rfl := Option.some.inj (hon.symm.trans hon')
                  exact absurd (id_isSome_of_viewId hviewId) hid
            rw [List.filter_cons_of_neg (by simp [hkey])]
            exact ih h

theorem enlistProjections_spec {events : List (Event J)}
    {projections : List (String × Projection J Infra)} {operations : List (Operation J)}
    (hnodup : (projections.map Prod.fst).Nodup)
    (h : enlistProjections events projections = .ok operations) :
    (∀ name, name ∉ projections.map Prod.fst →
      operations.flatMap (Operation.writes name) = []) ∧
    ∀ name projection, (name, projection) ∈ projections →
      operations.flatMap (Operation.writes name) =
          events.filter (fun event => (projection.viewKey? event).isSome) ∧
        ∀ operation ∈ operations, operation.Sound name projection := by
  induction projections generalizing operations with
  | nil =>
      obtain rfl := Except.ok.inj h
      exact ⟨fun _ _ => rfl, fun _ _ hmem => absurd hmem List.not_mem_nil⟩
  | cons entry rest ih =>
      obtain ⟨first, projection⟩ := entry
      rw [List.map_cons, List.nodup_cons] at hnodup
      unfold enlistProjections at h
      cases hviews : enlistViews first projection events with
      | error error => simp [hviews, bind, Except.bind] at h
      | ok views =>
          cases hothers : enlistProjections events rest with
          | error error => simp [hviews, hothers, bind, Except.bind] at h
          | ok others =>
              simp only [hviews, hothers, bind, Except.bind, Except.ok.injEq] at h
              subst h
              obtain ⟨hwrites, hsound, hother⟩ := enlistViews_spec hviews
              obtain ⟨habsent, hpresent⟩ := ih hnodup.2 hothers
              constructor
              · intro name hname
                rw [List.map_cons, List.mem_cons, not_or] at hname
                rw [List.flatMap_append, hother name hname.1, habsent name hname.2,
                  List.append_nil]
              · intro name projection' hmem
                rcases List.mem_cons.mp hmem with heq | hrest
                · obtain ⟨rfl, rfl⟩ := Prod.mk.inj heq
                  have hnone := habsent name hnodup.1
                  refine ⟨by rw [List.flatMap_append, hwrites, hnone, List.append_nil], ?_⟩
                  intro operation hoperation
                  rcases List.mem_append.mp hoperation with hview | hlater
                  · exact hsound operation hview
                  · exact Operation.sound_of_flatMap_writes hnone hlater
                · have hne : name ≠ first := by
                    rintro rfl
                    exact hnodup.1 (List.mem_map.mpr ⟨_, hrest, rfl⟩)
                  have hnone := hother name hne
                  obtain ⟨hlater, hsound'⟩ := hpresent name projection' hrest
                  refine ⟨by rw [List.flatMap_append, hnone, hlater, List.nil_append], ?_⟩
                  intro operation hoperation
                  rcases List.mem_append.mp hoperation with hview | hlater'
                  · exact Operation.sound_of_flatMap_writes hnone hview
                  · exact hsound' operation hlater'

/-- A batch enlists an update for each event that a strong projection handles. -/
theorem operations_spec {batch : Batch J} {operations : List (Operation J)}
    (hget : domain.resolvedProjections.get name = some projection)
    (hstrong : projection.consistency = .strong) (hstore : domain.hasViewStore name = true)
    (h : batch.operations domain = .ok operations) :
    operations.flatMap (Operation.writes name) =
        batch.events.filter (fun event => (projection.viewKey? event).isSome) ∧
      ∀ operation ∈ operations, operation.Sound name projection := by
  have hmem : (name, projection) ∈ domain.strongProjections := by
    refine List.mem_filter.mpr ⟨(InsertionMap.mem_entries_iff _ _ _).mpr hget, ?_⟩
    simp [hstrong, hstore]
  have hnodup : (domain.strongProjections.map Prod.fst).Nodup :=
    (List.filter_sublist.map Prod.fst).nodup domain.resolvedProjections.nodup
  unfold Batch.operations at h
  cases hviews : enlistProjections batch.events domain.strongProjections with
  | error error => simp [hviews, bind, Except.bind] at h
  | ok views =>
      simp only [hviews, bind, Except.bind, Except.ok.injEq] at h
      subst h
      obtain ⟨hwrites, hsound⟩ := (enlistProjections_spec hnodup hviews).2 name projection hmem
      constructor
      · simp only [List.flatMap_append, hwrites]
        cases batch.idempotent <;> cases batch.outbox <;> simp [Operation.writes]
      · intro operation hoperation
        simp only [List.mem_append] at hoperation
        rcases hoperation with ((hsave | hclaim) | hview) | hbox
        · obtain rfl := List.mem_singleton.mp hsave
          trivial
        · split_ifs at hclaim
          · obtain rfl := List.mem_singleton.mp hclaim
            trivial
          · cases hclaim
        · exact hsound operation hview
        · split_ifs at hbox
          · obtain rfl := List.mem_singleton.mp hbox
            trivial
          · cases hbox

/-! ## One commit -/

variable [DecidableEq ι] [JsValue J] {reduce : Event J → J → Option J}
  {before : ViewStore J} {i : ι} {s t : State ι J}

theorem saveEvents_safe {written : List (Event J)} {aggregateName : String} {aggregateId : ID}
    {events : List (Event J)} {expectedVersion : Nat}
    (hwritten : s.writtenBy i name = written) :
    Async.Safe (editors name projection reduce before) i
      (fun _ t => t.writtenBy i name = written) (fun _ _ => True)
      (Async.call fun _ : Choice Infra =>
        saveEvents aggregateName aggregateId events expectedVersion) s := by
  refine Async.Safe.call fun t ht hst _ => ?_
  have hstay : t.writtenBy i name = written := hst.written.trans hwritten
  unfold Segment.wp saveEvents
  split
  · intro hexclusive
    refine ⟨⟨hexclusive, ht.2.congr rfl (fun _ => rfl) fun _ h _ => h⟩,
      fun j _ => ⟨rfl, rfl, rfl, fun _ _ => rfl⟩, fun u _ htu => ?_⟩
    exact htu.written.trans hstay
  · exact fun hexclusive => ⟨ht, fun j _ => Kept.refl name j t, fun _ _ _ => trivial⟩

theorem executeOperation_safe (hget : domain.resolvedProjections.get name = some projection)
    (hreduce : projection.Reduces reduce) {operation : Operation J}
    (hsound : operation.Sound name projection) {written : List (Event J)}
    (hs : (editors name projection reduce before).inv s)
    (hwritten : s.writtenBy i name = written) :
    Async.Safe (editors name projection reduce before) i
      (fun _ t => t.writtenBy i name = written ++ operation.writes name) (fun _ _ => True)
      (executeOperation domain i operation) s := by
  cases operation with
  | saveEvents aggregateName aggregateId events expectedVersion =>
      simpa [Operation.writes, executeOperation] using saveEvents_safe hwritten
  | other =>
      simp only [Operation.writes, List.append_nil]
      exact (foreign_safe hwritten).mono (fun _ _ _ h => h) fun _ _ _ _ => trivial
  | updateView owner viewId event =>
      by_cases howner : owner = name
      · subst howner
        have hkey : projection.viewKey? event = some viewId.render := hsound rfl
        obtain ⟨handler, -, hon, -, -⟩ := viewKey?_eq_some.mp hkey
        simp only [executeOperation, hget, hon, Operation.writes, if_true]
        exact updateView_safe hs
          (fun view infra => hreduce _ handler hon event view infra rfl) hkey hwritten
      · have hstay : Async.Safe (editors name projection reduce before) i
            (fun _ t => t.writtenBy i name = written) (fun _ _ => True)
            (.pure () : Program ι J Infra Unit) s :=
          Async.Safe.pure fun u _ hsu => hsu.written.trans hwritten
        simp only [executeOperation, Operation.writes, if_neg howner, List.append_nil]
        cases domain.resolvedProjections.get owner with
        | none => exact hstay
        | some projection' =>
            cases hon : projection'.on.get event.name with
            | none =>
                simp only [hon]
                exact hstay
            | some handler =>
                simp only [hon]
                exact (updateView_safe_other howner hs hwritten).mono (fun _ _ _ h => h)
                  fun _ _ _ _ => trivial

theorem commitBatch_safe (hget : domain.resolvedProjections.get name = some projection)
    (hstrong : projection.consistency = .strong) (hstore : domain.hasViewStore name = true)
    (hreduce : projection.Reduces reduce) {batch : Batch J}
    (hs : (editors name projection reduce before).inv s)
    (hwritten : s.writtenBy i name = []) :
    Async.Safe (editors name projection reduce before) i
      (fun _ t => t.writtenBy i name =
        batch.events.filter fun event => (projection.viewKey? event).isSome)
      (fun _ _ => True) (commitBatch domain i batch) s := by
  unfold commitBatch
  cases hoperations : batch.operations domain with
  | error error => exact Async.Safe.throw fun _ _ _ => trivial
  | ok operations =>
      obtain ⟨hwrites, hsound⟩ := operations_spec hget hstrong hstore hoperations
      -- the loop has run the thunks of `done`
      have hloop := Async.Safe.forEach (E := fun _ _ => True)
        (f := executeOperation domain i)
        (I := fun rest u => ∃ done, done ++ rest = operations ∧
          u.writtenBy i name = done.flatMap (Operation.writes name))
        hs ⟨[], rfl, hwritten⟩
        (by
          rintro operation rest u hu ⟨done, hdone, hwritten⟩
          have hmem : operation ∈ operations := by simp [← hdone]
          refine (executeOperation_safe hget hreduce (hsound operation hmem) hu hwritten).mono
            ?_ fun _ _ _ h => h
          intro _ v _ hv
          exact ⟨done ++ [operation], by simp [← hdone], by simp [hv]⟩)
        (by
          rintro rest u v _ huv ⟨done, hdone, hwritten⟩
          exact ⟨done, hdone, huv.written.trans hwritten⟩)
      refine hloop.mono ?_ fun _ _ _ h => h
      rintro _ u _ ⟨done, hdone, hwritten⟩
      rw [hwritten, ← hwrites, ← hdone, List.append_nil]

/-! ## All commits -/

def commits (domain : Domain J Infra) (batches : ι → Batch J) :
    Pool ι (State ι J) (Choice Infra) Err :=
  ⟨fun i => commitBatch domain i (batches i), {}⟩

variable {batches : ι → Batch J} {q : Pool ι (State ι J) (Choice Infra) Err}

/-- In every run in which no two commits are between the load and the write of one
view of a strong projection, its views are in the end, if all commits succeeded, the
folds of the committed events, each of them once, in an order that keeps the order
of every batch. -/
theorem strong_views (hget : domain.resolvedProjections.get name = some projection)
    (hstrong : projection.consistency = .strong) (hstore : domain.hasViewStore name = true)
    (hreduce : projection.Reduces reduce)
    (hrun : Pool.Run (fun _ t => t.Exclusive name) (commits domain batches) q)
    (hcommitted : ∀ i, q.threads i = .pure ()) :
    ∃ order : List (ι × Event J),
      (∀ i, (order.filter fun entry => entry.1 = i).map Prod.snd =
        (batches i).events.filter fun event => (projection.viewKey? event).isSome) ∧
      ∀ key, (q.state.views name).get key =
        foldView reduce projection.initialView none
          ((order.map Prod.snd).filter fun event => projection.viewKey? event = some key) := by
  have hinv : (editors name projection reduce ∅).inv (commits domain batches).state :=
    inv_start rfl fun _ => rfl
  have hsafe : ∀ i, Async.Safe (editors name projection reduce ∅) i
      (fun _ t => t.writtenBy i name =
        (batches i).events.filter fun event => (projection.viewKey? event).isSome)
      (fun _ _ => True) ((commits domain batches).threads i) (commits domain batches).state :=
    fun i => commitBatch_safe hget hstrong hstore hreduce hinv rfl
  refine ⟨q.state.journal name, fun i => ?_, fun key => ?_⟩
  · rw [journal_by]
    exact Protocol.resolved_of_run hinv hsafe hrun (hcommitted i)
  · exact (Protocol.inv_of_run hinv hsafe hrun).2.view_eq key

/-! ## Two overlapping commits -/

section Runs

open Noddde.Sample (Value tick)

/-- Two commands on different instances, each with one addition. -/
def counters (second : Bool) : Batch Value where
  aggregateName := "Counter"
  aggregateId := .string (if second then "b" else "a")
  events := [Sample.additions second]
  expectedVersion := 0
  idempotent := false
  outbox := false

/-- The commits of two batches one after the other. -/
theorem strong_views_inTurn :
    ∃ q, Pool.playWhile apart
        (List.replicate 4 (false, tick) ++ List.replicate 4 (true, tick))
        (commits (Sample.domain .strong) counters) = some q ∧
      ∃ order : List (Bool × Event Value),
        (∀ i, (order.filter fun entry => entry.1 = i).map Prod.snd =
          (counters i).events.filter fun event =>
            ((Sample.tally .strong).viewKey? event).isSome) ∧
        ∀ key, (q.state.views "Tally").get key =
          foldView Sample.add (Sample.tally .strong).initialView none
            ((order.map Prod.snd).filter fun event =>
              (Sample.tally .strong).viewKey? event = some key) := by
  have hplay : (Pool.playWhile apart
      (List.replicate 4 (false, tick) ++ List.replicate 4 (true, tick))
      (commits (Sample.domain .strong) counters)).any
        (fun q => (q.threads false).resolved && (q.threads true).resolved) := by
    decide +kernel
  obtain ⟨q, hq, hresolved⟩ := (Option.any_eq_true _ _).mp hplay
  rw [Bool.and_eq_true] at hresolved
  have hcommitted : ∀ i, q.threads i = .pure () := by
    rintro (_ | _)
    · exact Async.eq_pure_of_resolved hresolved.1
    · exact Async.eq_pure_of_resolved hresolved.2
  obtain ⟨order, hstreams, hview⟩ :=
    strong_views (resolvedProjections_sample .strong) rfl rfl (tally_reduces .strong)
      (Pool.run_of_playWhile (fun _ _ => exclusive_of_apart) hq) hcommitted
  exact ⟨q, hq, order, hstreams, hview⟩

/-- Both commits succeed and the events of both are stored, but the view has only
the second addition: it is no fold of both, in any order. -/
theorem strong_views_lostUpdate :
    ∃ q, Pool.play overlap (commits (Sample.domain .strong) counters) = some q ∧
      (∀ i, q.threads i = .pure ()) ∧
      (∀ i, q.state.eventStore.load "Counter" (counters i).aggregateId =
        (counters i).events) ∧
      (q.state.views "Tally").get "total" = some (some 2) ∧
      ¬ ∃ order : List Bool, order.Nodup ∧ (∀ i, i ∈ order) ∧
        (q.state.views "Tally").get "total" =
          foldView Sample.add (some 0) none (order.map Sample.additions) := by
  have hplay : (Pool.play overlap (commits (Sample.domain .strong) counters)).any
      (fun q => (q.threads false).resolved && (q.threads true).resolved &&
        ((∀ i, q.state.eventStore.load "Counter" (counters i).aggregateId =
          (counters i).events) ∧
        (q.state.views "Tally").get "total" = some (some 2))) := by
    decide +kernel
  obtain ⟨q, hq, hfacts⟩ := (Option.any_eq_true _ _).mp hplay
  simp only [Bool.and_eq_true, decide_eq_true_eq] at hfacts
  obtain ⟨⟨hfirst, hsecond⟩, hstored, hview⟩ := hfacts
  refine ⟨q, hq, ?_, hstored, hview, ?_⟩
  · rintro (_ | _)
    · exact Async.eq_pure_of_resolved hfirst
    · exact Async.eq_pure_of_resolved hsecond
  · rw [hview]
    exact additions_ne_two

end Runs

end Noddde.ReadModel
