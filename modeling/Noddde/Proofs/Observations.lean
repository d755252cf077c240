import Noddde.Proofs.Step
/-!
# What a new observation says of the step that makes it
-/

namespace Noddde

variable {J Infra : Type} (wiring : Wiring J Infra)

def Explained [JsValue J] (s t : World J) : Obs J → Prop
  | .skipped d => ∃ task ttlMs now commandId, task.dispatch = d ∧
      task.command.commandId = some commandId ∧ wiring.idempotency = some ttlMs ∧
      (∃ uow, .started task uow ∈ s.history) ∧
      (s.idempotencyStore.exists' ttlMs now commandId).1 = true ∧
      t = s.checked ttlMs now commandId task
  | .enlisted u (some d) operation => ∃ task c uuids, task.dispatch = d ∧
      Contributes wiring task u c uuids s ∧ operation ∈ c.operations wiring task ∧
      t = s.contributed wiring task u c uuids
  | .enlisted u none operation => ∃ n sagaName sagaId state expectedVersion,
      u = .saga n ∧ (s.uows u).completed = false ∧
      operation = .saveSaga sagaName sagaId state expectedVersion ∧
      t = s.enlistAll u none [operation]
  | .contributed task u loaded newEvents events => ∃ c uuids,
      Contributes wiring task u c uuids s ∧ loaded = c.loaded ∧ newEvents = c.newEvents ∧
      events = c.events ∧ t = s.contributed wiring task u c uuids
  | .executed u operation => ∃ r rest, Running u (operation :: rest) s ∧
      Stores wiring operation s r ∧ t = r.ran u operation
  | .refused u operation e => ∃ r rest, Running u (operation :: rest) s ∧
      Refuses wiring operation e s r ∧ t = r.refused u operation e
  | .committed u events => Running u [] s ∧ events = (s.uows u).pendingEvents ∧
      t = s.committed u
  | .commitRejected u e => Running u [] s ∧ wiring.transactionMayReject = true ∧
      t = s.commitRejected u e
  | .rolledBack u => (s.uows u).completed = false ∧
      (u.implicit = false → ∃ e, .fnSettled u (some e) ∈ s.history) ∧ t = s.rolledBack u
  | .registered u d hook => ∃ task, task.dispatch = d ∧
      ((∃ pending, u.implicit = false ∧ Begun task u s.history ∧
          Pending wiring task u pending s.history ∧
          hook = .saveSnapshot pending.aggregateName pending.aggregateId pending.snapshot ∧
          t = (onUowCommitted u d hook s).2) ∨
        .started task (some u) ∈ s.history ∧ Granted ⟨d, some u⟩ task.key s.history ∧
          ¬ ReleaseRegistered task u s.history ∧
          hook = .release ⟨d, some u⟩ task.aggregateName task.aggregateId ∧
          t = (onUowSettled u d hook s).2)
  | .hooksTaken u committed within hooks => ∃ ambient : Ambient, within = ambient.uow ∧
      within ≠ some u ∧ (s.frames u).hooksRan = true ∧ (s.uows u).outcome = some committed ∧
      (∀ committed within hooks, .hooksTaken u committed within hooks ∉ s.history) ∧
      hooks = (if committed then (getOrCreate u s).onCommitted else []) ++
        (getOrCreate u s).onSettled ∧
      t = (takeHooks ambient u committed s).2
  | .hookRan u hook none => HookTurn u hook s ∧
      (t.frames u).running = (s.frames u).running.tail
  | .acquireCalled .. | .acquired .. | .lockTimedOut .. | .released .. => True
  | o => Justified wiring s o ∧ t = s.note o

variable [JsValue J] {wiring} {x : Subject} {s t : World J}

theorem Justified.explained {o : Obs J} (h : Justified wiring s o) :
    Explained wiring s (s.note o) o := by
  cases o with
  | enlisted u d operation => exact h.elim
  | hookRan u hook error =>
      cases error with
      | none => exact absurd rfl h.1
      | some e => exact ⟨h, rfl⟩
  | skipped | contributed | executed | refused | committed | commitRejected | rolledBack
  | registered | hooksTaken => exact h.elim
  | acquireCalled | acquired | lockTimedOut | released => trivial
  | _ => exact ⟨h, rfl⟩

/-- A hook runs when it is its turn. -/
theorem Explained.turn {u : UowRef} {hook : Hook J} {error : Option Err}
    (h : Explained wiring s t (.hookRan u hook error)) : HookTurn u hook s := by
  cases error with
  | none => exact h.1
  | some e => exact h.1.2.2.2

variable (wiring) in
/-- The history grows by what the step explains. -/
def Explains (s t : World J) : Prop :=
  ∃ new, t.history = new ++ s.history ∧ ∀ o ∈ new, Explained wiring s t o

theorem Explains.of_eq (h : t.history = s.history) : Explains wiring s t :=
  ⟨[], h, by simp⟩

theorem Explains.of_note {o : Obs J} (h : t.history = o :: s.history)
    (ho : Explained wiring s t o) : Explains wiring s t :=
  ⟨[o], h, by simpa using ho⟩

omit [JsValue J] in
theorem Locker.enter_history (ticket : Ticket) (aggregateName : String) (aggregateId : ID)
    (s : World J) : ∃ new, (enter ticket aggregateName aggregateId s).2.history =
      new ++ s.history ∧ ∀ o ∈ new, (∃ key, o = .acquireCalled ticket key) ∨
        ∃ key, o = .acquired ticket key := by
  unfold enter
  dsimp only
  split
  · exact ⟨[_, _], rfl, by simp⟩
  · exact ⟨[_], rfl, by simp⟩

omit [JsValue J] in
theorem Locker.release_history (ticket : Ticket) (aggregateName : String) (aggregateId : ID)
    (s : World J) : ∃ new, (release ticket aggregateName aggregateId s).2.history =
      new ++ s.history ∧ ∀ o ∈ new, (∃ key, o = .released ticket key) ∨
        ∃ next key, o = .acquired next key := by
  unfold release
  dsimp only
  split
  · exact ⟨[_], rfl, by simp⟩
  · split
    · exact ⟨[_, _], rfl, by simp⟩
    · exact ⟨[_], rfl, by simp⟩

omit [JsValue J] in
theorem Locker.mem_release {ticket : Ticket} {aggregateName : String} {aggregateId : ID}
    {o : Obs J} (h : o ∈ (release ticket aggregateName aggregateId s).2.history) :
    o ∈ s.history ∨ (∃ key, o = .released ticket key) ∨
      ∃ next key, o = .acquired next key := by
  obtain ⟨new, hnew, hobs⟩ := release_history ticket aggregateName aggregateId s
  rw [hnew] at h
  exact (List.mem_append.mp h).symm.imp id (hobs o)

theorem Step.explains (h : Step wiring x s t) : Explains wiring s t := by
  cases h with
  | noted _ justified => exact .of_note rfl justified.explained
  | @checked _ task ttlMs now commandId command store started =>
      by_cases hfound : (s.idempotencyStore.exists' ttlMs now commandId).1 = true
      · refine .of_note (o := .skipped task.dispatch) ?_
          ⟨task, ttlMs, now, commandId, rfl, command, store, started, hfound, rfl⟩
        simp [World.checked, hfound, World.note]
      · exact .of_eq (by simp [World.checked, hfound])
  | @contributed _ task u c uuids contributes =>
      refine ⟨_, World.history_contributed wiring .., fun o ho => ?_⟩
      simp only [contributionNotes, List.mem_append, List.mem_reverse, List.mem_map,
        List.mem_cons] at ho
      rcases ho with ⟨op, hop, rfl⟩ | rfl | ⟨op, hop, rfl⟩
      · exact ⟨task, c, uuids, rfl, contributes, List.mem_append_right _ hop, rfl⟩
      · exact ⟨c, uuids, contributes, rfl, rfl, rfl, rfl⟩
      · exact ⟨task, c, uuids, rfl, contributes, List.mem_append_left _ hop, rfl⟩
  | @enlistedSaga _ n sagaName sagaId state expectedVersion isOpen =>
      exact .of_note rfl ⟨n, sagaName, sagaId, state, expectedVersion, rfl, isOpen, rfl, rfl⟩
  | @ran _ r u operation rest running stores =>
      refine .of_note (o := .executed u operation) ?_ ⟨r, rest, running, stores, rfl⟩
      rw [← stores.control.history]
      rfl
  | @refused _ r u operation e rest running refuses =>
      refine .of_note (o := .refused u operation e) ?_ ⟨r, rest, running, refuses, rfl⟩
      rw [← refuses.control.history]
      rfl
  | committed running => exact .of_note rfl ⟨running, rfl, rfl⟩
  | commitRejected running mayReject => exact .of_note rfl ⟨running, mayReject, rfl⟩
  | rolledBack isOpen explicit => exact .of_note rfl ⟨isOpen, explicit, rfl⟩
  | @registeredSnapshot _ task u pending explicit begun asked =>
      exact .of_note rfl ⟨task, rfl, .inl ⟨pending, explicit, begun, asked, rfl, rfl⟩⟩
  | @registeredRelease _ task u begun granted first =>
      exact .of_note rfl ⟨task, rfl, .inr ⟨begun, granted, first, rfl, rfl⟩⟩
  | @entered _ task uow =>
      obtain ⟨new, hnew, hobs⟩ := Locker.enter_history ⟨task.dispatch, uow⟩
        task.aggregateName task.aggregateId s
      refine ⟨new, hnew, fun o ho => ?_⟩
      rcases hobs o ho with ⟨_, rfl⟩ | ⟨_, rfl⟩ <;> trivial
  | timedOut => exact .of_note rfl trivial
  | @released _ task =>
      obtain ⟨new, hnew, hobs⟩ := Locker.release_history ⟨task.dispatch, none⟩
        task.aggregateName task.aggregateId s
      refine ⟨new, hnew, fun o ho => ?_⟩
      rcases hobs o ho with ⟨_, rfl⟩ | ⟨_, _, rfl⟩ <;> trivial
  | @tookHooks _ u ambient committed outside claimed outcome first =>
      exact .of_note rfl ⟨ambient, rfl, outside, claimed, outcome, first, rfl, rfl⟩
  | @ranSnapshotHook _ u aggregateName aggregateId snapshot saved turn =>
      cases saved <;> exact .of_note rfl ⟨turn, by
        simp [World.hookEnded, World.savedSnapshot, World.note, World.setFrame]⟩
  | @ranReleaseHook _ u ticket aggregateName aggregateId joined turn =>
      obtain ⟨new, hnew, hobs⟩ := Locker.release_history ticket aggregateName aggregateId s
      refine ⟨.hookRan u (.release ticket aggregateName aggregateId) none :: new,
        congrArg _ hnew, fun o ho => ?_⟩
      rcases List.mem_cons.mp ho with rfl | ho
      · refine ⟨turn, ?_⟩
        simp [World.hookEnded, World.note, World.setFrame, Locker.release_frames]
      · rcases hobs o ho with ⟨_, rfl⟩ | ⟨_, _, rfl⟩ <;> trivial
  | _ => exact .of_eq rfl

theorem Step.explained (h : Step wiring x s t) {o : Obs J} (ho : o ∈ t.history) :
    o ∈ s.history ∨ Explained wiring s t o := by
  obtain ⟨new, hnew, hexplained⟩ := h.explains
  rw [hnew] at ho
  exact (List.mem_append.mp ho).symm.imp id (hexplained o)

end Noddde
