import Noddde.Proofs.SerialStreams
/-!
# Snapshots of other aggregates

Two instances can share a key of the snapshot store.  Snapshots stay unnoticed as long as
every lifecycle only finds snapshots that were saved for its own aggregate.
-/

namespace Noddde

variable {J Infra : Type} {wiring : Wiring J Infra} {x : Subject} {u : UowRef} {s t : World J}

variable (wiring) in
/-- A lifecycle of the aggregate, on a unit of work that has committed, has asked for the
snapshot of the instance under `key`. -/
def SavedFor (aggregateName key : String) (snapshot : Snapshot J) (w : World J) : Prop :=
  ∃ task u pending, (w.uows u).outcome = some true ∧ Pending wiring task u pending w.history ∧
    task.aggregateName = aggregateName ∧ task.key = key ∧ pending.snapshot = snapshot

variable (wiring) in
/-- A snapshot that a load finds was saved for the aggregate that is loaded. -/
def OwnSnapshots (s t : World J) : Prop :=
  ∀ task u snapshot, .loadedSnapshot task u (some snapshot) ∈ t.history →
    .loadedSnapshot task u (some snapshot) ∉ s.history →
      SavedFor wiring task.aggregateName task.key snapshot s

/-- What was saved for an instance restores it. -/
theorem SavedFor.restores (hs : Seen wiring s) (hsourced : Sourced wiring s)
    (hinv : Inv wiring s) {aggregateName key : String} {snapshot : Snapshot J}
    (h : SavedFor wiring aggregateName key snapshot s) :
    Restores (wiring.aggregates aggregateName) snapshot (s.eventStore.stream key) := by
  obtain ⟨task, u, pending, houtcome, hpending, rfl, rfl, rfl⟩ := h
  obtain ⟨_, _, _, -, -, hname, hid, -⟩ := id hpending
  have hrestores := hs.pending hsourced hinv houtcome hpending
  rwa [hname, hid] at hrestores

variable [JsValue J]

theorem SavedFor.step {aggregateName key : String} {snapshot : Snapshot J}
    (hsaved : SavedFor wiring aggregateName key snapshot s) (hinv : Inv wiring s)
    (h : Step wiring x s t) : SavedFor wiring aggregateName key snapshot t := by
  obtain ⟨task, u, pending, houtcome, hpending, hfacts⟩ := hsaved
  exact ⟨task, u, pending, (h.uow u).outcome (hinv.units u) houtcome,
    hpending.mono h.adds.grows.subset, hfacts⟩

variable (wiring) in
/-- Every stored snapshot was saved for some aggregate. -/
def SnapshotsSaved (w : World J) : Prop :=
  ∀ key snapshot, w.snapshotStore.get key = some snapshot →
    ∃ aggregateName, SavedFor wiring aggregateName key snapshot w

theorem SnapshotsSaved.step (hs : SnapshotsSaved wiring s) (hhooks : ∀ u, HooksAsked wiring u s)
    (hinv : Inv wiring s) (h : Step wiring x s t) : SnapshotsSaved wiring t := by
  intro key snapshot hget
  have hset : ∀ {task : Task J} {u : UowRef} {pending : PendingSnapshot J},
      (s.uows u).outcome = some true → Pending wiring task u pending s.history →
      t.snapshotStore = s.snapshotStore.save pending.aggregateName pending.aggregateId
        pending.snapshot →
      ∃ aggregateName, SavedFor wiring aggregateName key snapshot s := by
    intro task u pending houtcome hpending heq
    rw [heq, SnapshotStore.save, InsertionMap.get_set] at hget
    split_ifs at hget with hkey
    · obtain ⟨_, _, _, -, -, hname, hid, -⟩ := id hpending
      exact ⟨_, task, u, pending, houtcome, hpending, rfl, by rw [hkey, hname, hid],
        Option.some.inj hget⟩
    · exact hs key snapshot hget
  have hsaved : ∃ aggregateName, SavedFor wiring aggregateName key snapshot s := by
    cases h.snapshots with
    | same heq =>
        rw [heq] at hget
        exact hs key snapshot hget
    | saved houtcome hpending heq => exact hset houtcome hpending heq
    | @ranHook u name id saved running heq =>
        obtain ⟨houtcome, task, hpending⟩ :=
          (hhooks u).running _ _ _ (List.mem_of_mem_head? running)
        exact hset houtcome hpending heq
  obtain ⟨aggregateName, hsaved⟩ := hsaved
  exact ⟨aggregateName, hsaved.step hinv h⟩

/-! ## Runs -/

section Runs

variable {C : World J → World J → Prop} {workload : Workload J} {q : Process J Infra}

theorem saved_of_run (hrun : Pool.Run C (boot wiring workload) q) :
    Sourced wiring q.state ∧ SnapshotsSaved wiring q.state := by
  have hall : (∀ u, HooksAsked wiring u q.state) ∧ Sourced wiring q.state ∧
      SnapshotsSaved wiring q.state := by
    apply steps_induction wiring (I := fun w => (∀ u, HooksAsked wiring u w) ∧
      Sourced wiring w ∧ SnapshotsSaved wiring w) hrun
    · exact ⟨fun _ => hooksAsked_empty, sourced_empty,
        fun key snapshot h => by simp [InsertionMap.get_empty] at h⟩
    · rintro s t x hinv _ h ⟨hhooks, hsourced, hsaved⟩
      exact ⟨fun u => (hhooks u).step hinv h, hsourced.step hinv h, hsaved.step hhooks hinv h⟩
  exact hall.2

/-- Where no two aggregates share a key, every load finds snapshots of its own. -/
theorem ownSnapshots_of_apart (hapart : wiring.SnapshotsApart)
    (hrun : Pool.Run C (boot wiring workload) q) :
    Pool.Run (OwnSnapshots wiring) (boot wiring workload) q := by
  refine hrun.imp fun {r r' i c} hrun hfire _ task u snapshot hmem hnew => ?_
  obtain ⟨x, h⟩ := step_of_fire wiring hrun hfire
  obtain ⟨hsourced, hsaved⟩ := saved_of_run hrun
  obtain ⟨⟨-, hload, strategy, hstrategy⟩, -⟩ := (h.explained hmem).resolve_left hnew
  obtain ⟨aggregateName, hsavedFor⟩ := hsaved task.key snapshot hload.symm
  obtain ⟨task', v, pending, houtcome, hpending, rfl, hkey, heq⟩ := hsavedFor
  obtain ⟨partialLoad, hpersistence⟩ := Seen.pending_sourced hsourced hpending
  obtain ⟨_, _, _, -, -, hname, -⟩ := id hpending
  rw [hname] at hpersistence
  have hsame := hapart _ _ _ _ _ (by rw [hstrategy]; rfl) hpersistence hkey.symm
  exact ⟨task', v, pending, houtcome, hpending, hsame.symm, hkey, heq⟩

/-- Snapshots never change behaviour, in every run in which every snapshot that a load finds
was saved for the aggregate that is loaded: every stored snapshot restores the instance of a
dispatched command, and whatever a lifecycle has loaded, through a snapshot or not, is the
full replay of the stream that it read. -/
theorem snapshots_unnoticed (hrun : Pool.Run (OwnSnapshots wiring) (boot wiring workload) q) :
    (∀ key snapshot, q.state.snapshotStore.get key = some snapshot →
      ∃ task uow, .started task uow ∈ q.state.history ∧ task.key = key ∧
        Restores (task.aggregate wiring) snapshot (q.state.eventStore.stream key)) ∧
    ∀ task u loaded stream, .loadedEvents task u loaded stream ∈ q.state.history →
      Sees wiring task loaded stream ∧ stream <+: q.state.eventStore.stream task.key := by
  have hall : (∀ u, HooksAsked wiring u q.state) ∧ Sourced wiring q.state ∧
      Seen wiring q.state ∧ SnapshotsSaved wiring q.state := by
    apply steps_induction wiring (I := fun w => (∀ u, HooksAsked wiring u w) ∧
      Sourced wiring w ∧ Seen wiring w ∧ SnapshotsSaved wiring w) hrun
    · exact ⟨fun _ => hooksAsked_empty, sourced_empty, seen_empty,
        fun key snapshot h => by simp [InsertionMap.get_empty] at h⟩
    · rintro s t x hinv hown h ⟨hhooks, hsourced, hs, hsaved⟩
      exact ⟨fun u => (hhooks u).step hinv h, hsourced.step hinv h,
        hs.step h fun task u snapshot hmem hnew =>
          (hown task u snapshot hmem hnew).restores hs hsourced hinv,
        hsaved.step hhooks hinv h⟩
  obtain ⟨-, hsourced, hs, hsaved⟩ := hall
  refine ⟨fun key snapshot hget => ?_, fun task u loaded stream hmem =>
    ⟨hs.loaded _ _ _ _ hmem, (hsourced.read _ _ _ _ hmem).1⟩⟩
  obtain ⟨aggregateName, hsavedFor⟩ := hsaved key snapshot hget
  have hrestores := hsavedFor.restores hs hsourced (inv_of_run wiring hrun)
  obtain ⟨task, v, pending, -, ⟨_, _, _, -, hmem, -⟩, rfl, hkey, -⟩ := hsavedFor
  exact ⟨task, _, (hsourced.contributed _ _ _ _ _ hmem).begun.1, hkey, hrestores⟩

end Runs

theorem snapshots_unnoticed_race :
    ∃ q, Pool.play Sample.race Sample.racing = some q ∧
      ∃ task : Task Sample.Value, task.key = "Counter:a" ∧
        Restores (task.aggregate Sample.snapping) ⟨some 5, 2⟩
          (q.state.eventStore.stream "Counter:a") := by
  obtain ⟨q, hq, -, hsnapshot⟩ := Sample.race_ends
  obtain ⟨hsnapshots, -⟩ := snapshots_unnoticed (ownSnapshots_of_apart Sample.snapping_apart
    (Pool.run_of_play (C := fun _ _ => True) (fun _ _ => trivial) hq))
  obtain ⟨task, uow, -, hkey, hrestores⟩ := hsnapshots "Counter:a" _ hsnapshot
  exact ⟨q, hq, task, hkey, hrestores⟩

/-! ## Two aggregates that share a key -/

namespace Sample

/-- The aggregate that counts the events of the counter. -/
def tally : Aggregate Value Unit :=
  { counter with
    evolve := fun name =>
      if name = "Added" then some fun _ state => .ok (some (state.getD 0 + 1)) else none }

/-- Both aggregates take a snapshot after every batch. -/
def sharing : Wiring Value Unit :=
  { Sample.wiring with
    aggregates := fun name => if name = "Counter" then counter else tally
    snapshots := fun _ => some fun _ _ _ => .ok true }

/-- The counter `x:a`, and the instance `a` of the aggregate `Counter:x`. -/
def shared : Process Value Unit :=
  boot sharing (work [call (add "x:a" (some 5)),
    { call (add "a" (some 1)) with aggregateName := "Counter:x" }])

/-- What an instance of `Counter:x` has loaded, and what the stream that it has read replays
to. -/
def loadedTally? : Obs Value → Option (Value × Option Value)
  | .loadedEvents task _ (.ok loaded) stream =>
      some (loaded.currentState, ((task.aggregate sharing).replay stream).toOption)
  | _ => none

end Sample

/-- The second aggregate goes on from the snapshot of the first one: it loads 5, while the
stream that it has read replays to 1. -/
theorem snapshots_unnoticed_fails :
    ∃ q, Pool.play (Sample.turns (.command 0) 13 ++ Sample.turns (.command 1) 4) Sample.shared =
        some q ∧
      ∃ task u loaded stream, .loadedEvents task u loaded stream ∈ q.state.history ∧
        ¬ Sees Sample.sharing task loaded stream := by
  have hplay : (Pool.play (Sample.turns (.command 0) 13 ++ Sample.turns (.command 1) 4)
      Sample.shared).any fun q =>
        q.state.history.any fun o => decide (Sample.loadedTally? o = some (some 5, some (some 1))) := by
    decide +kernel
  obtain ⟨q, hq, hany⟩ := (Option.any_eq_true _ _).mp hplay
  obtain ⟨o, ho, hloaded⟩ := List.any_eq_true.mp hany
  rw [decide_eq_true_eq] at hloaded
  cases o with
  | loadedEvents task u result stream =>
      cases result with
      | ok loaded =>
          obtain ⟨hstate, hreplay⟩ := Prod.mk.inj (Option.some.inj hloaded)
          refine ⟨q, hq, task, u, .ok loaded, stream, ho, fun hsees => ?_⟩
          rw [hsees.ok.1, hstate] at hreplay
          cases hreplay
      | error e => cases hloaded
  | _ => cases hloaded

end Noddde
