import Noddde.Proofs.StreamSources
import Noddde.Engine.Sample
/-!
# Serializability

Snapshots restore what they stand for, so that a lifecycle always sees the state that its
stream replays to.  As a save only takes effect on the version that was loaded, every
batch in a stream was decided on exactly the part of the stream that precedes it.
-/

namespace Noddde

variable {J Infra : Type} {wiring : Wiring J Infra} {x : Subject} {u : UowRef} {s t : World J}

/-! ## Snapshots -/

/-- The snapshot is what the events up to its version replay to. -/
def Restores (aggregate : Aggregate J Infra) (snapshot : Snapshot J) (stream : List (Event J)) :
    Prop :=
  snapshot.version ≤ stream.length ∧
    aggregate.replay (stream.take snapshot.version) = .ok snapshot.state

theorem Restores.grows {aggregate : Aggregate J Infra} {snapshot : Snapshot J}
    {stream stream' : List (Event J)} (h : Restores aggregate snapshot stream)
    (hstream : stream <+: stream') : Restores aggregate snapshot stream' := by
  refine ⟨h.1.trans hstream.length_le, ?_⟩
  rw [List.take_of_prefix hstream h.1]
  exact h.2

theorem Restores.replayFrom {aggregate : Aggregate J Infra} {snapshot : Snapshot J}
    {stream : List (Event J)} (h : Restores aggregate snapshot stream) :
    aggregate.replayFrom snapshot.state (stream.drop snapshot.version) =
      aggregate.replay stream := by
  have hreplay := Aggregate.replayFrom_append aggregate h.2 (stream.drop snapshot.version)
  rw [List.take_append_drop] at hreplay
  exact hreplay.symm

/-- No other event-sourced aggregate has instances under the keys of one that takes
snapshots. -/
def Wiring.SnapshotsApart (wiring : Wiring J Infra) : Prop :=
  ∀ name name' id id' partialLoad, (wiring.snapshots name).isSome = true →
    wiring.persistence name' = some (.eventSourced partialLoad) →
      compositeKey name id = compositeKey name' id' → name = name'

variable (wiring) in
/-- What was loaded, as far as the lifecycle goes on from it, is the replay of the stream. -/
def Sees (task : Task J) (loaded : Except Err (Loaded J)) (stream : List (Event J)) : Prop :=
  loaded.map (fun loaded => (loaded.currentState, loaded.version)) =
    ((task.aggregate wiring).replay stream).map fun state => (state, stream.length)

theorem Sees.ok {task : Task J} {loaded : Loaded J} {stream : List (Event J)}
    (h : Sees wiring task (.ok loaded) stream) :
    (task.aggregate wiring).replay stream = .ok loaded.currentState ∧
      loaded.version = stream.length := by
  unfold Sees at h
  cases hreplay : (task.aggregate wiring).replay stream with
  | error e =>
      rw [hreplay] at h
      cases h
  | ok state =>
      rw [hreplay] at h
      obtain ⟨hstate, hversion⟩ := Prod.mk.inj (Except.ok.inj h)
      exact ⟨congrArg _ hstate.symm, hversion⟩

variable (wiring) in
/-- What the lifecycles have read restores, or is, the replay of a stream. -/
structure Seen (w : World J) : Prop where
  noted : ∀ task u snapshot, .loadedSnapshot task u (some snapshot) ∈ w.history →
    Restores (task.aggregate wiring) snapshot (w.eventStore.stream task.key)
  loaded : ∀ task u loaded stream, .loadedEvents task u loaded stream ∈ w.history →
    Sees wiring task loaded stream

theorem seen_empty : Seen wiring ({} : World J) where
  noted := by simp
  loaded := by simp

namespace Seen

/-- The batch of a unit of work that has committed follows what it was decided on. -/
theorem committed_batch (hsourced : Sourced wiring s) (hinv : Inv wiring s) {task : Task J}
    {loaded : Loaded J} {newEvents events stream : List (Event J)}
    (houtcome : (s.uows u).outcome = some true)
    (hmem : .contributed task u loaded newEvents events ∈ s.history)
    (hevents : loaded.isEventSourced = true) (hversion : loaded.version = stream.length)
    (hread : stream <+: s.eventStore.stream task.key) :
    stream ++ events <+: s.eventStore.stream task.key := by
  by_cases hempty : events = []
  · rw [hempty, List.append_nil]
    exact hread
  · have hop := hsourced.kept task u loaded newEvents events hmem hevents
      (by rw [houtcome]; decide)
    rw [← (hinv.units u).all houtcome] at hop
    obtain ⟨before, hlength, hbefore⟩ := hsourced.landed u _ _ _ _ hempty hop
    have heq : before = stream := by
      refine (List.prefix_of_prefix_length_le ((List.prefix_append _ _).trans hbefore) hread
        ?_).eq_of_length ?_
      · rw [hlength, hversion]
      · rw [hlength, hversion]
    rw [← heq]
    exact hbefore

/-- A snapshot that a committed unit of work asks for restores its instance. -/
theorem pending (hs : Seen wiring s) (hsourced : Sourced wiring s) (hinv : Inv wiring s)
    {task : Task J} {pending : PendingSnapshot J} (houtcome : (s.uows u).outcome = some true)
    (hpending : Pending wiring task u pending s.history) :
    Restores (wiring.aggregates pending.aggregateName) pending.snapshot
      (s.eventStore.load pending.aggregateName pending.aggregateId) := by
  obtain ⟨loaded, newEvents, events, hevents, hmem, hname, hid, hversion, hstate⟩ := hpending
  have hdecision := hsourced.contributed _ _ _ _ _ hmem
  obtain ⟨stream, hstream⟩ := hsourced.stream_of_decision hdecision hevents
  obtain ⟨hreplay, hlength⟩ := (hs.loaded _ _ _ _ hstream).ok
  have hbatch := committed_batch hsourced hinv houtcome hmem hevents hlength
    (hsourced.read _ _ _ _ hstream).1
  have hcount : (stream ++ events).length = pending.snapshot.version := by
    have hfacts := congrArg List.length hdecision.facts
    rw [List.length_map, List.length_map] at hfacts
    rw [List.length_append, hversion, hlength, hfacts]
  rw [hname, hid]
  change Restores _ _ (s.eventStore.stream task.key)
  constructor
  · rw [← hcount]
    exact hbatch.length_le
  · rw [← hcount, List.take_of_prefix hbatch le_rfl, List.take_length]
    exact (Aggregate.replay_append_current _ hreplay hdecision.current hdecision.facts).trans
      hstate

theorem pending_sourced (hsourced : Sourced wiring s) {task : Task J}
    {pending : PendingSnapshot J} (hpending : Pending wiring task u pending s.history) :
    ∃ partialLoad, wiring.persistence pending.aggregateName =
      some (.eventSourced partialLoad) := by
  obtain ⟨loaded, newEvents, events, hevents, hmem, hname, -⟩ := hpending
  obtain ⟨stream, hstream⟩ :=
    hsourced.stream_of_decision (hsourced.contributed _ _ _ _ _ hmem) hevents
  rw [hname]
  exact (hsourced.read _ _ _ _ hstream).2

variable [JsValue J]

/-- What has been read stays so, if what is read now restores its instance. -/
theorem step_noted (hs : Seen wiring s) (h : Step wiring x s t)
    (hrestores : ∀ task u snapshot, .loadedSnapshot task u (some snapshot) ∈ t.history →
      .loadedSnapshot task u (some snapshot) ∉ s.history →
        Restores (task.aggregate wiring) snapshot (s.eventStore.stream task.key))
    {task : Task J} {snapshot : Snapshot J}
    (hmem : .loadedSnapshot task u (some snapshot) ∈ t.history) :
    Restores (task.aggregate wiring) snapshot (t.eventStore.stream task.key) := by
  refine Restores.grows ?_ (h.streams.grows _)
  by_cases hold : .loadedSnapshot task u (some snapshot) ∈ s.history
  · exact hs.noted task u snapshot hold
  · exact hrestores task u snapshot hmem hold

theorem step_loaded (hs : Seen wiring s) (h : Step wiring x s t) {task : Task J}
    {loaded : Except Err (Loaded J)} {stream : List (Event J)}
    (hmem : .loadedEvents task u loaded stream ∈ t.history) : Sees wiring task loaded stream := by
  rcases h.explained hmem with hold | ⟨⟨-, -, rfl, start, base, hstart, rfl⟩, -⟩
  · exact hs.loaded task u loaded stream hold
  · have hrestores : base ≤ (s.eventStore.stream task.key).length ∧
        (task.aggregate wiring).replayFrom start ((s.eventStore.stream task.key).drop base) =
          (task.aggregate wiring).replay (s.eventStore.stream task.key) := by
      rcases hstart with ⟨rfl, rfl⟩ | hsnapshot
      · exact ⟨Nat.zero_le _, rfl⟩
      · exact ⟨(hs.noted _ _ _ hsnapshot).1, (hs.noted _ _ _ hsnapshot).replayFrom⟩
    obtain ⟨hbase, hreplay⟩ := hrestores
    change Sees wiring task _ (s.eventStore.stream task.key)
    unfold Sees
    change Except.map _ (Except.map _ ((task.aggregate wiring).replayFrom start
      ((s.eventStore.stream task.key).drop base))) = _
    rw [hreplay]
    cases (task.aggregate wiring).replay (s.eventStore.stream task.key) with
    | error e => rfl
    | ok state =>
        have hlength : base + ((s.eventStore.stream task.key).drop base).length =
            (s.eventStore.stream task.key).length := by
          rw [List.length_drop]
          omega
        exact congrArg (fun n => Except.ok (state, n)) hlength

theorem step (hs : Seen wiring s) (h : Step wiring x s t)
    (hrestores : ∀ task u snapshot, .loadedSnapshot task u (some snapshot) ∈ t.history →
      .loadedSnapshot task u (some snapshot) ∉ s.history →
        Restores (task.aggregate wiring) snapshot (s.eventStore.stream task.key)) :
    Seen wiring t where
  noted _ _ _ hmem := hs.step_noted h hrestores hmem
  loaded _ _ _ _ hmem := hs.step_loaded h hmem

end Seen

variable (wiring) in
/-- The stored snapshots restore their instances, too. -/
structure Replays (w : World J) : Prop extends Seen wiring w where
  snapshots : ∀ aggregateName aggregateId snapshot,
    (wiring.snapshots aggregateName).isSome = true →
    w.snapshotStore.load aggregateName aggregateId = some snapshot →
      Restores (wiring.aggregates aggregateName) snapshot
        (w.eventStore.load aggregateName aggregateId)

theorem replays_empty : Replays wiring ({} : World J) where
  toSeen := seen_empty
  snapshots _ _ _ _ h := by simp [SnapshotStore.load, InsertionMap.get_empty] at h

namespace Replays

variable [JsValue J]

theorem step_snapshots (hs : Replays wiring s) (hsourced : Sourced wiring s)
    (hhooks : ∀ u, HooksAsked wiring u s) (hinv : Inv wiring s)
    (hapart : wiring.SnapshotsApart) (h : Step wiring x s t) {aggregateName : String}
    {aggregateId : ID} {snapshot : Snapshot J}
    (htakes : (wiring.snapshots aggregateName).isSome = true)
    (hload : t.snapshotStore.load aggregateName aggregateId = some snapshot) :
    Restores (wiring.aggregates aggregateName) snapshot
      (t.eventStore.load aggregateName aggregateId) := by
  refine Restores.grows ?_ (h.streams.grows _)
  -- a snapshot that is saved now replaces another one under its key only
  have hset : ∀ {task : Task J} {u : UowRef} {pending : PendingSnapshot J},
      (s.uows u).outcome = some true → Pending wiring task u pending s.history →
      t.snapshotStore = s.snapshotStore.save pending.aggregateName pending.aggregateId
        pending.snapshot →
      Restores (wiring.aggregates aggregateName) snapshot
        (s.eventStore.load aggregateName aggregateId) := by
    intro task u pending houtcome hpending heq
    rw [heq, SnapshotStore.load, SnapshotStore.save, InsertionMap.get_set] at hload
    split at hload
    · rename_i hkey
      obtain rfl := Option.some.inj hload
      obtain ⟨partialLoad, hpersistence⟩ := Seen.pending_sourced hsourced hpending
      rw [EventStore.load, hkey, hapart _ _ _ _ _ htakes hpersistence hkey]
      exact hs.toSeen.pending hsourced hinv houtcome hpending
    · exact hs.snapshots _ _ _ htakes hload
  cases h.snapshots with
  | same heq =>
      rw [heq] at hload
      exact hs.snapshots _ _ _ htakes hload
  | saved houtcome hpending heq => exact hset houtcome hpending heq
  | @ranHook u name id saved running heq =>
      obtain ⟨houtcome, task, hpending⟩ :=
        (hhooks u).running _ _ _ (List.mem_of_mem_head? running)
      exact hset houtcome hpending heq

theorem step (hs : Replays wiring s) (hsourced : Sourced wiring s)
    (hhooks : ∀ u, HooksAsked wiring u s) (hinv : Inv wiring s) (hapart : wiring.SnapshotsApart)
    (h : Step wiring x s t) : Replays wiring t where
  toSeen := hs.toSeen.step h fun task u snapshot hmem hnew => by
    obtain ⟨⟨-, hsnapshot, strategy, hstrategy⟩, -⟩ := (h.explained hmem).resolve_left hnew
    exact hs.snapshots _ _ _ (by rw [hstrategy]; rfl) hsnapshot.symm
  snapshots _ _ _ htakes hload := hs.step_snapshots hsourced hhooks hinv hapart h htakes hload

end Replays

/-! ## Serial streams -/

variable (wiring) in
/-- The dispatch of a command to the instance has decided the batch on the state that the
log replays to. -/
def DecidedOn (key : String) (h : List (Obs J)) (log batch : List (Event J)) : Prop :=
  batch = [] ∨ ∃ task uow state handler infra result, .started task uow ∈ h ∧ task.key = key ∧
    (task.aggregate wiring).replay log = .ok state ∧
    (task.aggregate wiring).decide task.command.name = some handler ∧
    handler task.command state infra = .ok result ∧
    batch.map Event.fact = result.toArray.map Event.fact

theorem DecidedOn.mono {key : String} {h h' : List (Obs J)} {log batch : List (Event J)}
    (hd : DecidedOn wiring key h log batch) (hsub : h ⊆ h') :
    DecidedOn wiring key h' log batch := by
  refine hd.imp id ?_
  rintro ⟨task, uow, state, handler, infra, result, hstarted, hrest⟩
  exact ⟨task, uow, state, handler, infra, result, hsub hstarted, hrest⟩

variable (wiring) in
def SerialStreams (w : World J) : Prop :=
  ∀ key, Serial (DecidedOn wiring key w.history) (batchesIn key w.history)

/-- The save of a batch takes effect on the stream that it was decided on. -/
theorem decidedOn_of_stores (hsourced : Sourced wiring s) (hs : Seen wiring s)
    {aggregateName : String} {aggregateId : ID} {events : List (Event J)} {expectedVersion : Nat}
    {r : World J}
    (hop : .saveEvents aggregateName aggregateId events expectedVersion ∈ (s.uows u).operations)
    (stores : Stores wiring (.saveEvents aggregateName aggregateId events expectedVersion) s r) :
    DecidedOn wiring (compositeKey aggregateName aggregateId) s.history
      (s.eventStore.stream (compositeKey aggregateName aggregateId)) events := by
  by_cases hempty : events = []
  · exact .inl hempty
  · right
    obtain ⟨task, loaded, newEvents, hmem, hevents, hsave⟩ :=
      hsourced.saves u _ _ _ _ hempty hop
    obtain ⟨rfl, rfl, -, rfl⟩ := Operation.saveEvents.inj hsave
    have hdecision := hsourced.contributed _ _ _ _ _ hmem
    obtain ⟨stream, hstream⟩ := hsourced.stream_of_decision hdecision hevents
    obtain ⟨hreplay, hlength⟩ := (hs.loaded _ _ _ _ hstream).ok
    have hversion : (s.eventStore.stream task.key).length = loaded.version := by
      obtain ⟨eventStore, hsaved, -⟩ := stores
      exact EventStore.version_of_save hsaved hempty
    have heq : stream = s.eventStore.stream task.key :=
      (hsourced.read _ _ _ _ hstream).1.eq_of_length (hlength.symm.trans hversion.symm)
    obtain ⟨handler, infra, result, hhandler, hresult, hnew⟩ := hdecision.decided
    refine ⟨task, u.joined, loaded.currentState, handler, infra, result, hdecision.begun.1, rfl,
      ?_, hhandler, hresult, ?_⟩
    · rw [← hreplay, heq]
    · rw [hdecision.facts, hnew]

theorem SerialStreams.step [JsValue J] (hserial : SerialStreams wiring s)
    (hsourced : Sourced wiring s) (hs : Seen wiring s) (h : Step wiring x s t) :
    SerialStreams wiring t := by
  intro key
  have hsub : s.history ⊆ t.history := h.adds.grows.subset
  have hold : Serial (DecidedOn wiring key t.history) (batchesIn key s.history) :=
    (hserial key).mono fun _ _ hd => hd.mono hsub
  cases h.streams with
  | same _ batches =>
      rw [batches]
      exact hold
  | @ran u r operation rest running stores heq =>
      subst heq
      rw [batchesIn_ran stores]
      cases operation with
      | saveEvents aggregateName aggregateId events expectedVersion =>
          dsimp only
          split
          · rename_i hkey
            have hop : .saveEvents aggregateName aggregateId events expectedVersion ∈
                (s.uows u).operations := by
              rw [running.operations]
              exact List.mem_append_right _ List.mem_cons_self
            have hdecided := decidedOn_of_stores hsourced hs hop stores
            rw [hkey, hsourced.log] at hdecided
            exact hold.snoc (hdecided.mono hsub)
          · exact hold
      | _ => exact hold

section Runs

variable [JsValue J] {C : World J → World J → Prop} {workload : Workload J} {q : Process J Infra}

theorem replays_of_run (hapart : wiring.SnapshotsApart)
    (hrun : Pool.Run C (boot wiring workload) q) :
    Sourced wiring q.state ∧ Replays wiring q.state ∧ SerialStreams wiring q.state := by
  have hall : (∀ u, HooksAsked wiring u q.state) ∧
      Sourced wiring q.state ∧ Replays wiring q.state ∧ SerialStreams wiring q.state := by
    apply steps_induction wiring (I := fun w =>
      (∀ u, HooksAsked wiring u w) ∧ Sourced wiring w ∧ Replays wiring w ∧ SerialStreams wiring w) hrun
    · exact ⟨fun _ => hooksAsked_empty, sourced_empty, replays_empty,
        fun _ => .nil⟩
    · rintro s t x hinv _ h ⟨hhooks, hsourced, hs, hserial⟩
      exact ⟨fun u => (hhooks u).step hinv h, hsourced.step hinv h,
        hs.step hsourced hhooks hinv hapart h, hserial.step hsourced hs.toSeen h⟩
  exact hall.2

/-- Commands are serializable, in every run and for any mix of strategies, retries,
snapshots and scopes: a stream is the batches that were saved, in the order of the saves,
and each of them is what the decide handler of a dispatched command answered on the replay
of exactly the batches before it. -/
theorem streams_serial (hapart : wiring.SnapshotsApart)
    (hrun : Pool.Run C (boot wiring workload) q) (key : String) :
    q.state.eventStore.stream key = (batchesIn key q.state.history).flatten ∧
      Serial (DecidedOn wiring key q.state.history) (batchesIn key q.state.history) := by
  obtain ⟨hsourced, -, hserial⟩ := replays_of_run hapart hrun
  exact ⟨hsourced.log key, hserial key⟩

/-- Snapshots never show: every stored one restores its instance, and whatever a lifecycle
has loaded, through a snapshot or not, is the full replay of the stream that it read. -/
theorem snapshots_restore (hapart : wiring.SnapshotsApart)
    (hrun : Pool.Run C (boot wiring workload) q) :
    (∀ aggregateName aggregateId snapshot, (wiring.snapshots aggregateName).isSome = true →
      q.state.snapshotStore.load aggregateName aggregateId = some snapshot →
      Restores (wiring.aggregates aggregateName) snapshot
        (q.state.eventStore.load aggregateName aggregateId)) ∧
    ∀ task u loaded stream, .loadedEvents task u loaded stream ∈ q.state.history →
      Sees wiring task loaded stream ∧ stream <+: q.state.eventStore.stream task.key := by
  obtain ⟨hsourced, hreplays, -⟩ := replays_of_run hapart hrun
  exact ⟨hreplays.snapshots, fun task u loaded stream hmem =>
    ⟨hreplays.loaded _ _ _ _ hmem, (hsourced.read _ _ _ _ hmem).1⟩⟩

end Runs

/-! ## Two commands that race for one instance -/

namespace Sample

/-- The counter with a snapshot after every batch and one retry. -/
def snapping : Wiring Value Unit :=
  { Sample.wiring with
    persistence := fun name =>
      if name = "Counter" then some (.eventSourced true) else some .stateStored
    concurrency := .base (.optimistic 1)
    snapshots := fun name => if name = "Counter" then some fun _ _ _ => .ok true else none }

theorem snapping_apart : snapping.SnapshotsApart := by
  intro name name' id id' partialLoad htakes hpersistence _
  simp only [snapping] at htakes hpersistence
  split at htakes
  · rename_i hname
    split at hpersistence
    · rename_i hname'
      rw [hname, hname']
    · cases hpersistence
  · cases htakes

/-- Both commands load the empty stream; the second one meets a conflict and goes on from
the snapshot of the first. -/
def race : List (Tid × Choice Unit) :=
  turns (.command 0) 6 ++ turns (.command 1) 6 ++ turns (.command 0) 6 ++ turns (.command 1) 15

def racing : Process Value Unit :=
  boot snapping (work [call (add "a" (some 2)), call (add "a" (some 3))])

theorem race_ends : ∃ q, Pool.play race racing = some q ∧
    (q.state.eventStore.stream "Counter:a").map (·.payload) = [some 2, some 3] ∧
    q.state.snapshotStore.load "Counter" (.string "a") = some ⟨some 5, 2⟩ := by
  have hplay : (Pool.play race racing).any fun q =>
      decide ((q.state.eventStore.stream "Counter:a").map (·.payload) = [some 2, some 3] ∧
        q.state.snapshotStore.load "Counter" (.string "a") = some ⟨some 5, 2⟩) := by
    decide +kernel
  obtain ⟨q, hq, hfacts⟩ := (Option.any_eq_true _ _).mp hplay
  exact ⟨q, hq, of_decide_eq_true hfacts⟩

end Sample

theorem streams_serial_race :
    ∃ q, Pool.play Sample.race Sample.racing = some q ∧
      (batchesIn "Counter:a" q.state.history).flatten.map (·.payload) = [some 2, some 3] ∧
      Serial (DecidedOn Sample.snapping "Counter:a" q.state.history)
        (batchesIn "Counter:a" q.state.history) := by
  obtain ⟨q, hq, hstream, -⟩ := Sample.race_ends
  obtain ⟨hlog, hserial⟩ := streams_serial Sample.snapping_apart
    (Pool.run_of_play (C := fun _ _ => True) (fun _ _ => trivial) hq) "Counter:a"
  rw [hlog] at hstream
  exact ⟨q, hq, hstream, hserial⟩

theorem snapshots_restore_race :
    ∃ q, Pool.play Sample.race Sample.racing = some q ∧
      Restores Sample.counter ⟨some 5, 2⟩ (q.state.eventStore.stream "Counter:a") := by
  obtain ⟨q, hq, -, hsnapshot⟩ := Sample.race_ends
  exact ⟨q, hq, (snapshots_restore Sample.snapping_apart
    (Pool.run_of_play (C := fun _ _ => True) (fun _ _ => trivial) hq)).1
      "Counter" (.string "a") _ rfl hsnapshot⟩

end Noddde
