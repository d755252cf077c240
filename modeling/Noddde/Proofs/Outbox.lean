import Noddde.Engine.Sample
import Noddde.Proofs.Threads
/-!
# The outbox

An outbox entry is marked as published only when its event has been delivered: the
owner of a unit of work marks a batch after it has published all of it, the relay marks
the entry that it has dispatched.  Event ids tell events apart, as entry ids tell
entries apart.
-/

namespace Noddde

variable {J Infra : Type}

/-! ## The store -/

namespace OutboxStore

variable (store : OutboxStore J)

theorem get_save (entries : List (OutboxEntry J)) (id : String) :
    (∃ entry ∈ entries, entry.id = id ∧ (save store entries).get id = some entry) ∨
      (∀ entry ∈ entries, entry.id ≠ id) ∧ (save store entries).get id = store.get id := by
  induction entries generalizing store with
  | nil => exact .inr ⟨by simp, rfl⟩
  | cons entry rest ih =>
      rcases ih (store.set entry.id entry) with ⟨e, he, hid, hget⟩ | ⟨hnone, hget⟩
      · exact .inl ⟨e, List.mem_cons_of_mem _ he, hid, hget⟩
      · rw [InsertionMap.get_set] at hget
        by_cases h : id = entry.id
        · rw [if_pos h] at hget
          exact .inl ⟨entry, List.mem_cons_self, h.symm, hget⟩
        · rw [if_neg h] at hget
          refine .inr ⟨fun e he => ?_, hget⟩
          rcases List.mem_cons.mp he with rfl | he
          · exact fun h' => h h'.symm
          · exact hnone e he

theorem get_markPublishedByEventIds (now : Nat) (eventIds : List String) (id : String) :
    (markPublishedByEventIds store now eventIds).get id = store.get id ∨
      ∃ entry, store.get id = some entry ∧
        (∃ eventId ∈ entry.event.eventId?, eventId ∈ eventIds) ∧
        (markPublishedByEventIds store now eventIds).get id =
          some { entry with publishedAt := some now } := by
  rw [markPublishedByEventIds, InsertionMap.get_mapValues]
  cases hget : store.get id with
  | none => exact .inl rfl
  | some entry =>
      by_cases h : entry.publishedAt = none ∧ ∃ eventId ∈ entry.event.eventId?,
          eventId ∈ eventIds
      · refine .inr ⟨entry, rfl, h.2, ?_⟩
        simp only [Option.map_some, if_pos h]
      · simp only [Option.map_some, if_neg h, true_or]

theorem get_markPublished (now : Nat) (entryId id : String) :
    (markPublished store now [entryId]).get id = store.get id ∨
      id = entryId ∧ ∃ entry, store.get id = some entry ∧
        (markPublished store now [entryId]).get id =
          some { entry with publishedAt := some now } := by
  simp only [markPublished, List.foldl_cons, List.foldl_nil]
  cases hget : store.get entryId with
  | none => exact .inl rfl
  | some entry =>
      dsimp only
      split
      · rw [InsertionMap.get_set]
        split
        · rename_i hid
          subst hid
          exact .inr ⟨rfl, entry, hget, rfl⟩
        · exact .inl rfl
      · exact .inl rfl

theorem mem_loadUnpublished {entry : OutboxEntry J} {batchSize : Nat}
    (h : entry ∈ loadUnpublished store batchSize) : entry ∈ store.values := by
  have hmem := List.mem_of_mem_take h
  rw [List.mem_mergeSort] at hmem
  exact List.mem_of_mem_filter hmem

theorem mem_loadUnpublished_of_get {entry : OutboxEntry J} {id : String} {batchSize : Nat}
    (h : store.get id = some entry) (hunpublished : entry.publishedAt = none)
    (hsize : store.values.length ≤ batchSize) : entry ∈ loadUnpublished store batchSize := by
  have hmem : entry ∈ store.values.filter fun entry => entry.publishedAt.isNone :=
    List.mem_filter.mpr ⟨(InsertionMap.mem_values_iff _ _).mpr ⟨id, h⟩, by simp [hunpublished]⟩
  rw [loadUnpublished, List.take_of_length_le]
  · exact List.mem_mergeSort.mpr hmem
  · rw [List.length_mergeSort]
    exact (List.length_filter_le _ _).trans hsize

end OutboxStore

/-! ## What a step does to the outbox -/

variable (wiring : Wiring J Infra)

inductive OutboxChange (s t : World J) : Prop
  | same (eq : t.outboxStore = s.outboxStore)
  | saved {u : UowRef} {entries : List (OutboxEntry J)} {rest : List (Operation J)}
      (running : Running u (.saveOutbox entries :: rest) s)
      (eq : t.outboxStore = s.outboxStore.save entries)
  | markedBatch {u : UowRef} {now : Nat} (published : Publishing u [] s)
      (resolved : resolvedIn u s.history = calledIn u s.history)
      (eq : t.outboxStore = s.outboxStore.markPublishedByEventIds now
        ((calledIn u s.history).filterMap Event.eventId?))
  | markedEntry {now : Nat} {entries : List (OutboxEntry J)} {entry : OutboxEntry J}
      (batch : .batchLoaded entries ∈ s.history) (mem : entry ∈ entries)
      (resolved : .dispatchResolved none entry.event ∈ s.history)
      (eq : t.outboxStore = s.outboxStore.markPublished now [entry.id])

variable {wiring} {x : Subject} {s t : World J}

theorem Step.outbox [JsValue J] (h : Step wiring x s t) : OutboxChange s t := by
  cases h with
  | checked =>
      unfold World.checked
      dsimp only
      split <;> exact .same rfl
  | @ran _ r u operation rest running stores =>
      cases operation with
      | saveOutbox entries =>
          obtain rfl : r = _ := stores
          exact .saved running rfl
      | saveEvents => obtain ⟨_, _, rfl⟩ := stores; exact .same rfl
      | saveState => obtain ⟨_, _, rfl⟩ := stores; exact .same rfl
      | saveIdempotency => obtain ⟨_, _, rfl⟩ := stores; exact .same rfl
      | updateView => obtain ⟨_, rfl⟩ := stores; exact .same rfl
      | saveSaga => obtain ⟨_, _, rfl⟩ := stores; exact .same rfl
  | @refused _ r u operation e rest running refuses =>
      cases operation with
      | saveOutbox entries => exact refuses.elim
      | saveEvents => obtain ⟨_, rfl⟩ := refuses; exact .same rfl
      | saveState => obtain ⟨_, rfl⟩ := refuses; exact .same rfl
      | saveIdempotency => obtain ⟨_, _, rfl⟩ := refuses; exact .same rfl
      | updateView => obtain rfl : r = s := refuses; exact .same rfl
      | saveSaga => obtain ⟨_, rfl⟩ := refuses; exact .same rfl
  | @entered _ task uow =>
      obtain ⟨_, _, h⟩ := Locker.enter_eq ⟨task.dispatch, uow⟩ task.aggregateName
        task.aggregateId s
      exact .same (by rw [h])
  | @released _ task =>
      obtain ⟨_, _, h⟩ := Locker.release_eq ⟨task.dispatch, none⟩ task.aggregateName
        task.aggregateId s
      exact .same (by rw [h])
  | @ranSnapshotHook _ u aggregateName aggregateId snapshot saved =>
      cases saved <;> exact .same rfl
  | @ranReleaseHook _ u ticket aggregateName aggregateId =>
      obtain ⟨_, _, h⟩ := Locker.release_eq ticket aggregateName aggregateId s
      rw [h]
      exact .same rfl
  | markedBatch published resolved => exact .markedBatch published resolved rfl
  | markedEntry batch mem resolved => exact .markedEntry batch mem resolved rfl
  | _ => exact .same rfl

/-- Identifiers are only ever drawn. -/
theorem Step.uuids [JsValue J] (h : Step wiring x s t) : s.uuids ≤ t.uuids := by
  cases h with
  | checked =>
      unfold World.checked
      dsimp only
      split <;> exact le_rfl
  | drawn grows => exact grows
  | contributed contributes =>
      obtain ⟨k, hk, -, views, boxes, -, -, hle, -⟩ := contributes.computed.batch
      exact hk.trans ((Nat.le_add_right _ _).trans hle)
  | ran running stores => exact stores.control.uuids.ge
  | refused running refuses => exact refuses.control.uuids.ge
  | @entered _ task uow =>
      obtain ⟨_, _, h⟩ := Locker.enter_eq ⟨task.dispatch, uow⟩ task.aggregateName
        task.aggregateId s
      rw [h]
  | @released _ task =>
      obtain ⟨_, _, h⟩ := Locker.release_eq ⟨task.dispatch, none⟩ task.aggregateName
        task.aggregateId s
      rw [h]
  | @ranSnapshotHook _ u aggregateName aggregateId snapshot saved =>
      cases saved <;> exact le_rfl
  | @ranReleaseHook _ u ticket aggregateName aggregateId =>
      obtain ⟨_, _, h⟩ := Locker.release_eq ticket aggregateName aggregateId s
      rw [h]
      exact le_rfl
  | _ => exact le_rfl

/-! ## Identifiers -/

/-- A list whose keys are numbered from `k` on. -/
theorem eq_of_numbered {α β : Type} {f : α → β} {g : Nat → β} (hg : Function.Injective g)
    {l : List α} {k : Nat} (h : l.map f = (List.range' k l.length).map g) {a b : α}
    (ha : a ∈ l) (hb : b ∈ l) (hab : f a = f b) : a = b := by
  have hnodup : (l.map f).Nodup := by
    rw [h]
    exact (List.nodup_range').map hg
  exact List.inj_on_of_nodup_map hnodup ha hb hab

theorem number_of_numbered {α β : Type} {f : α → β} {g : Nat → β} {l : List α} {k : Nat}
    (h : l.map f = (List.range' k l.length).map g) {a : α} (ha : a ∈ l) :
    ∃ m, k ≤ m ∧ m < k + l.length ∧ f a = g m := by
  have hmem : f a ∈ (List.range' k l.length).map g := h ▸ List.mem_map_of_mem ha
  obtain ⟨m, hm, hma⟩ := List.mem_map.mp hmem
  rw [List.mem_range'_1] at hm
  exact ⟨m, hm.1, hm.2, hma.symm⟩

/-- The event belongs to a contribution. -/
def Recorded (event : Event J) (h : List (Obs J)) : Prop :=
  ∃ task u loaded newEvents events, .contributed task u loaded newEvents events ∈ h ∧
    event ∈ events

def Boxing (entry : OutboxEntry J) (h : List (Obs J)) : Prop :=
  ∃ u d entries, .enlisted u d (.saveOutbox entries) ∈ h ∧ entry ∈ entries

theorem Recorded.mono {event : Event J} {h h' : List (Obs J)} (hr : Recorded event h)
    (hh : h ⊆ h') : Recorded event h' := by
  obtain ⟨task, u, loaded, newEvents, events, hmem, hevent⟩ := hr
  exact ⟨task, u, loaded, newEvents, events, hh hmem, hevent⟩

theorem Boxing.mono {entry : OutboxEntry J} {h h' : List (Obs J)} (hb : Boxing entry h)
    (hh : h ⊆ h') : Boxing entry h' := by
  obtain ⟨u, d, entries, hmem, hentry⟩ := hb
  exact ⟨u, d, entries, hh hmem, hentry⟩

/-- The entries that a contribution brings. -/
theorem Contribution.Computed.boxed {task : Task J} {c : Contribution J} {uuids uuids' : Nat}
    (h : c.Computed wiring task uuids uuids') {entries : List (OutboxEntry J)}
    (hop : .saveOutbox entries ∈ c.operations wiring task) :
    ∃ k, uuids ≤ k ∧ uuids' = k + entries.length ∧ Boxed wiring k c.events entries := by
  obtain ⟨k, hk, -, views, boxes, heffects, hviews, -, hboxes⟩ := h.batch
  rw [Contribution.operations, List.mem_append] at hop
  rcases hop with hop | hop
  · unfold claimsOf Contribution.save at hop
    split at hop <;> split at hop <;> simp at hop
  · rw [heffects, List.mem_append] at hop
    rcases hop with hop | hop
    · simpa [Operation.isViewUpdate] using hviews _ hop
    · rcases hboxes with rfl | ⟨entries', rfl, hboxed, rfl⟩
      · simp at hop
      · obtain rfl : entries = entries' := by simpa using hop
        have hlength := congrArg List.length hboxed.events_eq
        rw [List.length_map] at hlength
        exact ⟨k + c.events.length, by omega, by omega, hboxed⟩

theorem recorded_contributed {task : Task J} {u : UowRef} {c : Contribution J} {uuids : Nat}
    {event : Event J} (hr : Recorded event (s.contributed wiring task u c uuids).history) :
    Recorded event s.history ∨ event ∈ c.events := by
  obtain ⟨task', v, loaded, newEvents, events, hmem, hevent⟩ := hr
  rw [World.history_contributed, List.mem_append] at hmem
  rcases hmem with hmem | hmem
  · simp only [contributionNotes, List.mem_append, List.mem_reverse, List.mem_map,
      List.mem_cons] at hmem
    rcases hmem with ⟨_, _, h⟩ | h | ⟨_, _, h⟩
    · simp at h
    · obtain ⟨-, -, -, -, rfl⟩ := Obs.contributed.inj h
      exact .inr hevent
    · simp at h
  · exact .inl ⟨task', v, loaded, newEvents, events, hmem, hevent⟩

theorem boxing_contributed {task : Task J} {u : UowRef} {c : Contribution J} {uuids : Nat}
    {entry : OutboxEntry J} (hb : Boxing entry (s.contributed wiring task u c uuids).history) :
    Boxing entry s.history ∨
      ∃ entries, .saveOutbox entries ∈ c.operations wiring task ∧ entry ∈ entries := by
  obtain ⟨v, d, entries, hmem, hentry⟩ := hb
  rw [World.history_contributed, List.mem_append] at hmem
  rcases hmem with hmem | hmem
  · refine .inr ⟨entries, ?_, hentry⟩
    rw [Contribution.operations, List.mem_append]
    simp only [contributionNotes, List.mem_append, List.mem_reverse, List.mem_map,
      List.mem_cons] at hmem
    rcases hmem with ⟨op, hop, h⟩ | h | ⟨op, hop, h⟩
    · obtain ⟨-, -, rfl⟩ := Obs.enlisted.inj h
      exact .inr hop
    · simp at h
    · obtain ⟨-, -, rfl⟩ := Obs.enlisted.inj h
      exact .inl hop
  · exact .inl ⟨v, d, entries, hmem, hentry⟩

/-- Only a contribution brings new events and entries. -/
theorem Step.contributes_or [JsValue J] (h : Step wiring x s t) :
    (∃ task u c uuids, Contributes wiring task u c uuids s ∧
      t = s.contributed wiring task u c uuids) ∨
    (∀ event, Recorded event t.history → Recorded event s.history) ∧
      ∀ entry, Boxing entry t.history → Boxing entry s.history := by
  by_cases hc : ∃ task u c uuids, Contributes wiring task u c uuids s ∧
      t = s.contributed wiring task u c uuids
  · exact .inl hc
  · refine .inr ⟨fun event hr => ?_, fun entry hb => ?_⟩
    · obtain ⟨task, u, loaded, newEvents, events, hmem, hevent⟩ := hr
      rcases h.explained hmem with hmem | ⟨c, uuids, hcontributes, -, -, -, ht⟩
      · exact ⟨task, u, loaded, newEvents, events, hmem, hevent⟩
      · exact absurd ⟨task, u, c, uuids, hcontributes, ht⟩ hc
    · obtain ⟨u, d, entries, hmem, hentry⟩ := hb
      rcases h.explained hmem with hmem | hexplained
      · exact ⟨u, d, entries, hmem, hentry⟩
      · cases d with
        | none =>
            obtain ⟨n, sagaName, sagaId, state, expectedVersion, -, -, hop, -⟩ := hexplained
            simp at hop
        | some d =>
            obtain ⟨task, c, uuids, -, hcontributes, -, ht⟩ := hexplained
            exact absurd ⟨task, u, c, uuids, hcontributes, ht⟩ hc

/-! ## The invariant -/

variable (wiring) in
structure OutboxOk (w : World J) : Prop where
  eventIds : ∀ event, Recorded event w.history →
    ∃ m < w.uuids, event.eventId? = some (wiring.uuidv7 m)
  events : ∀ event event', Recorded event w.history → Recorded event' w.history →
    event.eventId? = event'.eventId? → event = event'
  entryIds : ∀ entry, Boxing entry w.history →
    (∃ m < w.uuids, entry.id = wiring.uuidv7 m) ∧ Recorded entry.event w.history ∧
      entry.publishedAt = none
  entries : ∀ entry entry', Boxing entry w.history → Boxing entry' w.history →
    entry.id = entry'.id → entry = entry'
  pending : ∀ u, ∀ event ∈ (w.uows u).pendingEvents, Recorded event w.history
  operations : ∀ u entries, .saveOutbox entries ∈ (w.uows u).operations →
    ∃ d, .enlisted u d (.saveOutbox entries) ∈ w.history
  stored : ∀ id entry, w.outboxStore.get id = some entry →
    ∃ boxed, Boxing boxed w.history ∧ boxed.id = id ∧ boxed.event = entry.event ∧
      entry.id = id
  marked : ∀ id entry, w.outboxStore.get id = some entry → entry.publishedAt ≠ none →
    ∃ publisher, .dispatchResolved publisher entry.event ∈ w.history
  loaded : ∀ batch, .batchLoaded batch ∈ w.history → ∀ entry ∈ batch, ∃ boxed,
    Boxing boxed w.history ∧ boxed.id = entry.id ∧ boxed.event = entry.event
  kept : ∀ u entries, .executed u (.saveOutbox entries) ∈ w.history → ∀ entry ∈ entries,
    ∃ stored, w.outboxStore.get entry.id = some stored ∧ stored.event = entry.event

theorem outboxOk_empty : OutboxOk wiring ({} : World J) where
  eventIds event h := by obtain ⟨_, _, _, _, _, h, -⟩ := h; simp at h
  events event event' h := by obtain ⟨_, _, _, _, _, h, -⟩ := h; simp at h
  entryIds entry h := by obtain ⟨_, _, _, h, -⟩ := h; simp at h
  entries entry entry' h := by obtain ⟨_, _, _, h, -⟩ := h; simp at h
  pending := by simp
  operations := by simp
  stored := by simp
  marked := by simp
  loaded := by simp
  kept := by simp

/-- The events that the owner of `u` has published are recorded. -/
theorem OutboxOk.recorded_of_published (hs : OutboxOk wiring s) (hinv : Inv wiring s)
    {u : UowRef} (h : Publishing u [] s) {event : Event J}
    (hevent : event ∈ calledIn u s.history) : Recorded event s.history := by
  have hcommitted := h.committed
  rw [List.append_nil] at hcommitted
  have hpending := ((hinv.units u).committed _ hcommitted).2
  exact hs.pending u event (hpending ▸ hevent)

theorem mem_resolvedIn {u : UowRef} {event : Event J} {h : List (Obs J)}
    (hevent : event ∈ resolvedIn u h) : .dispatchResolved (some u) event ∈ h := by
  induction h with
  | nil => simp [resolvedIn] at hevent
  | cons o rest ih =>
      cases o with
      | dispatchResolved v e =>
          cases v with
          | none => exact List.mem_cons_of_mem _ (ih hevent)
          | some v =>
              by_cases hv : v = u
              · subst hv
                simp only [resolvedIn, if_true, List.mem_append, List.mem_singleton] at hevent
                rcases hevent with hevent | rfl
                · exact List.mem_cons_of_mem _ (ih hevent)
                · exact List.mem_cons_self
              · simp only [resolvedIn, if_neg hv] at hevent
                exact List.mem_cons_of_mem _ (ih hevent)
      | _ => exact List.mem_cons_of_mem _ (ih hevent)

/-- The operations and the deferred events of a unit of work come from contributions. -/
theorem Step.pendingEvents [JsValue J] (h : Step wiring x s t) (u : UowRef) :
    (∀ event ∈ (t.uows u).pendingEvents, event ∈ (s.uows u).pendingEvents ∨
      Recorded event t.history) ∧
    ∀ operation ∈ (t.uows u).operations, operation ∈ (s.uows u).operations ∨
      ∃ d, .enlisted u d operation ∈ t.history := by
  have hsame : (t.uows u).pendingEvents = (s.uows u).pendingEvents →
      (t.uows u).operations = (s.uows u).operations →
      (∀ event ∈ (t.uows u).pendingEvents, event ∈ (s.uows u).pendingEvents ∨
        Recorded event t.history) ∧
      ∀ operation ∈ (t.uows u).operations, operation ∈ (s.uows u).operations ∨
        ∃ d, .enlisted u d operation ∈ t.history := by
    intro hpending hoperations
    rw [hpending, hoperations]
    exact ⟨fun _ h => .inl h, fun _ h => .inl h⟩
  cases h.uow u with
  | same uow => exact hsame (by rw [uow]) (by rw [uow])
  | created _ uow => exact hsame (by rw [uow]) (by rw [uow])
  | @contributed task c uuids _ eq =>
      subst eq
      rw [World.uows_contributed, Function.update_self, World.history_contributed]
      refine ⟨fun event hevent => ?_, fun operation hop => ?_⟩
      · rcases List.mem_append.mp hevent with hevent | hevent
        · exact .inl hevent
        · exact .inr ⟨task, u, c.loaded, c.newEvents, c.events,
            by simp [contributionNotes], hevent⟩
      · rcases List.mem_append.mp hop with hop | hop
        · exact .inl hop
        · refine .inr ⟨some task.dispatch, List.mem_append_left _ ?_⟩
          rw [Contribution.operations, List.mem_append] at hop
          simp only [contributionNotes, List.mem_append, List.mem_reverse, List.mem_map,
            List.mem_cons]
          rcases hop with hop | hop
          · exact .inr (.inr ⟨operation, hop, rfl⟩)
          · exact .inl ⟨operation, hop, rfl⟩
  | enlistedSaga _ _ eq =>
      subst eq
      simp only [World.enlistAll, Function.update_self]
      refine ⟨fun _ h => .inl h, fun operation hop => ?_⟩
      rcases List.mem_append.mp hop with hop | hop
      · exact .inl hop
      · obtain rfl := List.mem_singleton.mp hop
        exact .inr ⟨none, by simp⟩
  | committing _ _ _ eq =>
      subst eq
      have huow := World.uow_committing u s
      exact hsame (by rw [huow]) (by rw [huow])
  | ran _ stores eq =>
      subst eq
      have huow := stores.uow_ran u
      exact hsame (by rw [huow]) (by rw [huow])
  | refused _ refuses eq =>
      subst eq
      have huow := refuses.uow_refused u
      exact hsame (by rw [huow]) (by rw [huow])
  | committed _ eq =>
      subst eq
      have huow := World.uow_committed u s
      exact hsame (by rw [huow]) (by rw [huow])
  | @commitRejected e _ _ eq =>
      subst eq
      have huow := World.uow_commitRejected u e s
      exact hsame (by rw [huow]) (by rw [huow])
  | rolledBack _ _ eq =>
      subst eq
      rw [World.uow_rolledBack]
      simp

theorem Contributes.numbered {task : Task J} {u : UowRef} {c : Contribution J} {uuids : Nat}
    (h : Contributes wiring task u c uuids s) :
    (∃ k, s.uuids ≤ k ∧ k + c.events.length ≤ uuids ∧ c.events.map Event.eventId? =
      (List.range' k c.events.length).map fun m => some (wiring.uuidv7 m)) ∧
    ∀ entries, .saveOutbox entries ∈ c.operations wiring task →
      entries.map (·.event) = c.events ∧ (∀ entry ∈ entries, entry.publishedAt = none) ∧
      ∃ k, s.uuids ≤ k ∧ k + entries.length ≤ uuids ∧
        entries.map (·.id) = (List.range' k entries.length).map wiring.uuidv7 := by
  refine ⟨?_, fun entries hop => ?_⟩
  · obtain ⟨k, hk, henriched, views, boxes, -, -, hle, -⟩ := h.computed.batch
    exact ⟨k, hk, hle, henriched.eventIds⟩
  · obtain ⟨k, hk, huuids, hboxed⟩ := h.computed.boxed hop
    have hlength := congrArg List.length hboxed.events_eq
    rw [List.length_map] at hlength
    have hids := hboxed.ids
    rw [← hlength] at hids
    exact ⟨hboxed.events_eq, hboxed.unpublished, k, hk, huuids.ge, hids⟩

/-- A contribution keeps identifiers apart. -/
theorem OutboxOk.contributed [JsValue J] (huuid : Function.Injective wiring.uuidv7)
    (hs : OutboxOk wiring s) {task : Task J} {u : UowRef} {c : Contribution J} {uuids : Nat}
    (h : Contributes wiring task u c uuids s) {h' : List (Obs J)}
    (hh : h' = (s.contributed wiring task u c uuids).history) :
    (∀ event, Recorded event h' → ∃ m < uuids, event.eventId? = some (wiring.uuidv7 m)) ∧
    (∀ event event', Recorded event h' → Recorded event' h' →
      event.eventId? = event'.eventId? → event = event') ∧
    (∀ entry, Boxing entry h' →
      (∃ m < uuids, entry.id = wiring.uuidv7 m) ∧ Recorded entry.event h' ∧
        entry.publishedAt = none) ∧
    ∀ entry entry', Boxing entry h' → Boxing entry' h' → entry.id = entry'.id →
      entry = entry' := by
  subst hh
  obtain ⟨⟨k, hk, hk', hids⟩, hboxes⟩ := h.numbered
  have hsome : Function.Injective fun m => some (wiring.uuidv7 m) := fun a b hab =>
    huuid (Option.some.inj hab)
  have hgrows : s.history ⊆ (s.contributed wiring task u c uuids).history := by
    rw [World.history_contributed]
    exact List.subset_append_right _ _
  have hfresh : ∀ {event event' : Event J}, Recorded event s.history → event' ∈ c.events →
      event.eventId? ≠ event'.eventId? := by
    intro event event' hr hevent' heq
    obtain ⟨m, hm, hid⟩ := hs.eventIds event hr
    obtain ⟨m', hm', -, hid'⟩ := number_of_numbered hids hevent'
    have : m = m' := hsome (hid.symm.trans (heq.trans hid'))
    omega
  -- two contributed entries belong to the one outbox write of the batch
  have hone : ∀ {entries entries'}, .saveOutbox entries ∈ c.operations wiring task →
      .saveOutbox entries' ∈ c.operations wiring task → entries = entries' := by
    obtain ⟨_, -, -, views, boxes, heffects, hviews, -, hbox⟩ := h.computed.batch
    have hmem : ∀ {entries}, .saveOutbox entries ∈ c.operations wiring task →
        .saveOutbox entries ∈ boxes := by
      intro entries hop
      rw [Contribution.operations, heffects, List.mem_append, List.mem_append] at hop
      rcases hop with hop | hop | hop
      · unfold claimsOf Contribution.save at hop
        split at hop <;> split at hop <;> simp at hop
      · simpa [Operation.isViewUpdate] using hviews _ hop
      · exact hop
    intro entries entries' hop hop'
    have h1 := hmem hop
    have h2 := hmem hop'
    rcases hbox with rfl | ⟨boxed, rfl, -⟩
    · simp at h1
    · simp only [List.mem_singleton, Operation.saveOutbox.injEq] at h1 h2
      rw [h1, h2]
  have hrecorded : ∀ {event : Event J}, event ∈ c.events →
      Recorded event (s.contributed wiring task u c uuids).history := fun hevent =>
    ⟨task, u, c.loaded, c.newEvents, c.events, by
      rw [World.history_contributed]; simp [contributionNotes], hevent⟩
  refine ⟨fun event hr => ?_, fun event event' hr hr' heq => ?_, fun entry hb => ?_,
    fun entry entry' hb hb' heq => ?_⟩
  · rcases recorded_contributed hr with hr | hevent
    · obtain ⟨m, hm, hid⟩ := hs.eventIds event hr
      exact ⟨m, by omega, hid⟩
    · obtain ⟨m, -, hm, hid⟩ := number_of_numbered hids hevent
      exact ⟨m, by omega, hid⟩
  · rcases recorded_contributed hr with hr | hevent <;>
      rcases recorded_contributed hr' with hr' | hevent'
    · exact hs.events event event' hr hr' heq
    · exact absurd heq (hfresh hr hevent')
    · exact absurd heq.symm (hfresh hr' hevent)
    · exact eq_of_numbered hsome hids hevent hevent' heq
  · rcases boxing_contributed hb with hb | ⟨entries, hop, hentry⟩
    · obtain ⟨⟨m, hm, hid⟩, hr, hunpublished⟩ := hs.entryIds entry hb
      exact ⟨⟨m, by omega, hid⟩, hr.mono hgrows, hunpublished⟩
    · obtain ⟨hevents, hunpublished, k', hk'', hle, hentryIds⟩ := hboxes entries hop
      obtain ⟨m, -, hm, hid⟩ := number_of_numbered hentryIds hentry
      refine ⟨⟨m, by omega, hid⟩, hrecorded ?_, hunpublished entry hentry⟩
      rw [← hevents]
      exact List.mem_map_of_mem hentry
  · have hnew : ∀ {entry entry' : OutboxEntry J} {entries}, Boxing entry s.history →
        .saveOutbox entries ∈ c.operations wiring task → entry' ∈ entries →
        entry.id ≠ entry'.id := by
      intro entry entry' entries hb hop hentry' heq
      obtain ⟨⟨m, hm, hid⟩, -⟩ := hs.entryIds entry hb
      obtain ⟨-, -, k', hk'', hle, hentryIds⟩ := hboxes entries hop
      obtain ⟨m', hm', -, hid'⟩ := number_of_numbered hentryIds hentry'
      have : m = m' := huuid (hid.symm.trans (heq.trans hid'))
      omega
    rcases boxing_contributed hb with hb | ⟨entries, hop, hentry⟩ <;>
      rcases boxing_contributed hb' with hb' | ⟨entries', hop', hentry'⟩
    · exact hs.entries entry entry' hb hb' heq
    · exact absurd heq (hnew hb hop' hentry')
    · exact absurd heq.symm (hnew hb' hop hentry)
    · obtain rfl := hone hop hop'
      obtain ⟨-, -, k', -, -, hentryIds⟩ := hboxes entries hop
      exact eq_of_numbered huuid hentryIds hentry hentry' heq

/-- The entry that is being saved was enlisted. -/
theorem OutboxOk.boxing_of_running (hs : OutboxOk wiring s) {u : UowRef}
    {entries : List (OutboxEntry J)} {rest : List (Operation J)}
    (running : Running u (.saveOutbox entries :: rest) s) {entry : OutboxEntry J}
    (hentry : entry ∈ entries) : Boxing entry s.history := by
  obtain ⟨d, hmem⟩ := hs.operations u entries (by simp [running.operations])
  exact ⟨u, d, entries, hmem, hentry⟩

/-- An entry that is stored after a step is an old one, perhaps marked, or a new one. -/
theorem OutboxOk.get_of_step [JsValue J] (hs : OutboxOk wiring s) (hinv : Inv wiring s)
    (h : Step wiring x s t) {id : String} {entry : OutboxEntry J}
    (hget : t.outboxStore.get id = some entry) :
    (∃ old, s.outboxStore.get id = some old ∧ old.event = entry.event ∧ old.id = entry.id ∧
      (entry.publishedAt ≠ none → old.publishedAt ≠ none ∨
        ∃ publisher, .dispatchResolved publisher entry.event ∈ s.history)) ∨
      Boxing entry s.history ∧ entry.id = id ∧ entry.publishedAt = none := by
  have hold : s.outboxStore.get id = some entry →
      ∃ old, s.outboxStore.get id = some old ∧ old.event = entry.event ∧ old.id = entry.id ∧
        (entry.publishedAt ≠ none → old.publishedAt ≠ none ∨
          ∃ publisher, .dispatchResolved publisher entry.event ∈ s.history) := fun hget =>
    ⟨entry, hget, rfl, rfl, .inl⟩
  cases h.outbox with
  | same eq =>
      rw [eq] at hget
      exact .inl (hold hget)
  | @saved u entries rest running eq =>
      rw [eq] at hget
      rcases s.outboxStore.get_save entries id with ⟨e, he, hid, hsaved⟩ | ⟨-, hsaved⟩
      · rw [hsaved] at hget
        obtain rfl := Option.some.inj hget
        have hboxing := hs.boxing_of_running running he
        exact .inr ⟨hboxing, hid, (hs.entryIds _ hboxing).2.2⟩
      · exact .inl (hold (hsaved ▸ hget))
  | @markedBatch u now published resolved eq =>
      rw [eq] at hget
      rcases s.outboxStore.get_markPublishedByEventIds now
        ((calledIn u s.history).filterMap Event.eventId?) id with hsame |
          ⟨old, hstored, ⟨eventId, hold', hmem⟩, hmarked⟩
      · exact .inl (hold (hsame ▸ hget))
      · rw [hmarked] at hget
        obtain rfl := Option.some.inj hget
        refine .inl ⟨old, hstored, rfl, rfl, fun _ => .inr ⟨some u, ?_⟩⟩
        obtain ⟨event, hevent, hid⟩ := List.mem_filterMap.mp hmem
        obtain ⟨boxed, hboxing, -, hsame, -⟩ := hs.stored id old hstored
        have hrecorded := (hs.entryIds boxed hboxing).2.1
        rw [hsame] at hrecorded
        have heq : event = old.event := hs.events event old.event
          (hs.recorded_of_published hinv published hevent) hrecorded
          (hid.trans (Option.mem_def.mp hold').symm)
        rw [← resolved] at hevent
        exact heq ▸ mem_resolvedIn hevent
  | @markedEntry now batch entry' hbatch mem resolved eq =>
      rw [eq] at hget
      rcases s.outboxStore.get_markPublished now entry'.id id with hsame |
        ⟨rfl, old, hstored, hmarked⟩
      · exact .inl (hold (hsame ▸ hget))
      · rw [hmarked] at hget
        obtain rfl := Option.some.inj hget
        refine .inl ⟨old, hstored, rfl, rfl, fun _ => .inr ⟨none, ?_⟩⟩
        obtain ⟨boxed, hboxing, hid, hevent⟩ := hs.loaded batch hbatch entry' mem
        obtain ⟨boxed', hboxing', hid', hevent', -⟩ := hs.stored _ old hstored
        obtain rfl := hs.entries boxed boxed' hboxing hboxing' (hid.trans hid'.symm)
        change .dispatchResolved none old.event ∈ s.history
        rw [← hevent', hevent]
        exact resolved

/-- What is stored stays stored. -/
theorem OutboxOk.get_step [JsValue J] (hs : OutboxOk wiring s) (h : Step wiring x s t)
    {id : String} {old : OutboxEntry J} (hget : s.outboxStore.get id = some old) :
    ∃ new, t.outboxStore.get id = some new ∧ new.event = old.event := by
  cases h.outbox with
  | same eq => exact ⟨old, by rw [eq, hget], rfl⟩
  | @saved u entries rest running eq =>
      rw [eq]
      rcases s.outboxStore.get_save entries id with ⟨e, he, hid, hsaved⟩ | ⟨-, hsaved⟩
      · obtain ⟨boxed, hboxing, hid', hevent, -⟩ := hs.stored id old hget
        obtain rfl := hs.entries e boxed (hs.boxing_of_running running he) hboxing
          (hid.trans hid'.symm)
        exact ⟨e, hsaved, hevent⟩
      · exact ⟨old, hsaved.trans hget, rfl⟩
  | markedBatch _ _ eq =>
      rw [eq]
      rcases s.outboxStore.get_markPublishedByEventIds _ _ id with hsame |
        ⟨old', hstored, -, hmarked⟩
      · exact ⟨old, hsame.trans hget, rfl⟩
      · obtain rfl : old = old' := Option.some.inj (hget.symm.trans hstored)
        exact ⟨_, hmarked, rfl⟩
  | markedEntry _ _ _ eq =>
      rw [eq]
      rcases s.outboxStore.get_markPublished _ _ id with hsame | ⟨-, old', hstored, hmarked⟩
      · exact ⟨old, hsame.trans hget, rfl⟩
      · obtain rfl : old = old' := Option.some.inj (hget.symm.trans hstored)
        exact ⟨_, hmarked, rfl⟩

theorem OutboxOk.step [JsValue J] (huuid : Function.Injective wiring.uuidv7)
    (hs : OutboxOk wiring s) (hinv : Inv wiring s) (h : Step wiring x s t) :
    OutboxOk wiring t := by
  have hgrows := h.adds.grows.subset
  have hids : (∀ event, Recorded event t.history →
        ∃ m < t.uuids, event.eventId? = some (wiring.uuidv7 m)) ∧
      (∀ event event', Recorded event t.history → Recorded event' t.history →
        event.eventId? = event'.eventId? → event = event') ∧
      (∀ entry, Boxing entry t.history → (∃ m < t.uuids, entry.id = wiring.uuidv7 m) ∧
        Recorded entry.event t.history ∧ entry.publishedAt = none) ∧
      ∀ entry entry', Boxing entry t.history → Boxing entry' t.history →
        entry.id = entry'.id → entry = entry' := by
    rcases h.contributes_or with ⟨task, u, c, uuids, hcontributes, rfl⟩ | ⟨hrecorded, hboxing⟩
    · exact hs.contributed huuid hcontributes rfl
    · refine ⟨fun event hr => ?_, fun event event' hr hr' => ?_, fun entry hb => ?_,
        fun entry entry' hb hb' => ?_⟩
      · obtain ⟨m, hm, hid⟩ := hs.eventIds event (hrecorded event hr)
        exact ⟨m, hm.trans_le h.uuids, hid⟩
      · exact hs.events event event' (hrecorded event hr) (hrecorded event' hr')
      · obtain ⟨⟨m, hm, hid⟩, hr, hunpublished⟩ := hs.entryIds entry (hboxing entry hb)
        exact ⟨⟨m, hm.trans_le h.uuids, hid⟩, hr.mono hgrows, hunpublished⟩
      · exact hs.entries entry entry' (hboxing entry hb) (hboxing entry' hb')
  refine ⟨hids.1, hids.2.1, hids.2.2.1, hids.2.2.2, fun u event hevent => ?_,
    fun u entries hop => ?_, fun id entry hget => ?_, fun id entry hget hmarked => ?_,
    fun batch hmem entry hentry => ?_, fun u entries hmem entry hentry => ?_⟩
  · rcases (h.pendingEvents u).1 event hevent with hevent | hr
    · exact (hs.pending u event hevent).mono hgrows
    · exact hr
  · rcases (h.pendingEvents u).2 _ hop with hop | hd
    · obtain ⟨d, hmem⟩ := hs.operations u entries hop
      exact ⟨d, hgrows hmem⟩
    · exact hd
  · rcases hs.get_of_step hinv h hget with ⟨old, hold, hevent, hid, -⟩ | ⟨hboxing, hid, -⟩
    · obtain ⟨boxed, hboxing, hid', hevent', hid''⟩ := hs.stored id old hold
      exact ⟨boxed, hboxing.mono hgrows, hid', hevent'.trans hevent, hid.symm.trans hid''⟩
    · exact ⟨entry, hboxing.mono hgrows, hid, rfl, hid⟩
  · rcases hs.get_of_step hinv h hget with ⟨old, hold, hevent, -, hmark⟩ | ⟨-, -, hnone⟩
    · rcases hmark hmarked with hmarked | ⟨publisher, hmem⟩
      · obtain ⟨publisher, hmem⟩ := hs.marked id old hold hmarked
        exact ⟨publisher, hgrows (hevent ▸ hmem)⟩
      · exact ⟨publisher, hgrows hmem⟩
    · exact absurd hnone hmarked
  · rcases h.explained hmem with hmem | ⟨⟨batchSize, rfl⟩, -⟩
    · obtain ⟨boxed, hboxing, hrest⟩ := hs.loaded batch hmem entry hentry
      exact ⟨boxed, hboxing.mono hgrows, hrest⟩
    · obtain ⟨id, hget⟩ := (InsertionMap.mem_values_iff _ _).mp
        (s.outboxStore.mem_loadUnpublished hentry)
      obtain ⟨boxed, hboxing, hid, hevent, hid'⟩ := hs.stored id entry hget
      exact ⟨boxed, hboxing.mono hgrows, hid.trans hid'.symm, hevent⟩
  · rcases h.explained hmem with hmem | ⟨r, rest, running, stores, rfl⟩
    · obtain ⟨old, hold, hevent⟩ := hs.kept u entries hmem entry hentry
      obtain ⟨new, hnew, hevent'⟩ := hs.get_step h hold
      exact ⟨new, hnew, hevent'.trans hevent⟩
    · obtain rfl : r = _ := stores
      change ∃ stored, (s.outboxStore.save entries).get entry.id = some stored ∧ _
      rcases s.outboxStore.get_save entries entry.id with ⟨e, he, hid, hsaved⟩ | ⟨hnone, -⟩
      · obtain rfl := hs.entries e entry (hs.boxing_of_running running he)
          (hs.boxing_of_running running hentry) hid
        exact ⟨e, hsaved, rfl⟩
      · exact absurd rfl (hnone entry hentry)

/-! ## At least once -/

section Runs

variable [JsValue J] {workload : Workload J} {q : Process J Infra}

theorem outboxOk_of_reaches (huuid : Function.Injective wiring.uuidv7)
    (hrun : Pool.Reaches (boot wiring workload) q) : OutboxOk wiring q.state :=
  steps_induction wiring hrun outboxOk_empty fun _ _ _ hinv _ h hs => hs.step huuid hinv h

/-- An entry is marked only if its event was delivered; so a committed event with an
outbox entry was delivered, or a poll still finds it. -/
theorem outbox_atLeastOnce (huuid : Function.Injective wiring.uuidv7)
    (hrun : Pool.Reaches (boot wiring workload) q) :
    (∀ entry ∈ q.state.outboxStore.values, entry.publishedAt ≠ none →
      ∃ publisher, .dispatchResolved publisher entry.event ∈ q.state.history) ∧
    ∀ u events, .committed u events ∈ q.state.history → ∀ event ∈ events,
      ∀ v entries entry, .executed v (.saveOutbox entries) ∈ q.state.history →
        entry ∈ entries → entry.event = event →
        (∃ publisher, .dispatchResolved publisher event ∈ q.state.history) ∨
          ∃ size, ∀ batchSize, size ≤ batchSize →
            ∃ found ∈ q.state.outboxStore.loadUnpublished batchSize,
              found.id = entry.id ∧ found.event = event := by
  have hok := outboxOk_of_reaches huuid hrun
  refine ⟨fun entry hentry hmarked => ?_, ?_⟩
  · obtain ⟨id, hget⟩ := (InsertionMap.mem_values_iff _ _).mp hentry
    exact hok.marked id entry hget hmarked
  · rintro u events - event - v entries entry hexecuted hentry rfl
    obtain ⟨stored, hget, hevent⟩ := hok.kept v entries hexecuted entry hentry
    by_cases hmarked : stored.publishedAt = none
    · refine .inr ⟨q.state.outboxStore.values.length, fun batchSize hsize => ⟨stored, ?_, ?_,
        hevent⟩⟩
      · exact q.state.outboxStore.mem_loadUnpublished_of_get hget hmarked hsize
      · obtain ⟨boxed, -, -, -, hid⟩ := hok.stored _ stored hget
        exact hid
    · refine .inl ?_
      rw [← hevent]
      exact hok.marked _ stored hget hmarked

end Runs

theorem outbox_atLeastOnce_counter :
    ∃ q, Pool.play (Sample.turns (.command 0) 12)
        (boot Sample.outboxed (Sample.work [Sample.call (Sample.add "a" (some 2))])) = some q ∧
      (∃ entry ∈ q.state.outboxStore.values, entry.publishedAt ≠ none) ∧
      ∀ entry ∈ q.state.outboxStore.values, entry.publishedAt ≠ none →
        ∃ publisher, .dispatchResolved publisher entry.event ∈ q.state.history := by
  have hplay : (Pool.play (Sample.turns (.command 0) 12) (boot Sample.outboxed
      (Sample.work [Sample.call (Sample.add "a" (some 2))]))).any fun q =>
        q.state.outboxStore.values.any fun entry => entry.publishedAt.isSome := by
    decide +kernel
  obtain ⟨q, hq, hany⟩ := (Option.any_eq_true _ _).mp hplay
  obtain ⟨entry, hentry, hmarked⟩ := List.any_eq_true.mp hany
  exact ⟨q, hq, ⟨entry, hentry, Option.isSome_iff_ne_none.mp hmarked⟩,
    (outbox_atLeastOnce Sample.outboxed_injective
      (Pool.run_of_play (fun _ _ => trivial) hq)).1⟩

end Noddde
