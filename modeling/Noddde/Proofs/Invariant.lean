import Noddde.Proofs.Units
/-!
# The invariant of the engine, and the protocol of its threads

Every step keeps `Inv`.  A thread may rely on what concerns it: nobody else makes
observations on behalf of its dispatches and units of work, or changes the latter.
-/

namespace Noddde

variable {J Infra : Type} (wiring : Wiring J Infra)

/-! ## The invariant -/

/-- The hooks that are registered on `u` or under way. -/
def heldHooks (u : UowRef) (w : World J) : List (Hook J) :=
  (getOrCreate u w).onCommitted ++ (getOrCreate u w).onSettled ++ (w.frames u).running

/-- A release on behalf of a unit of work stays with that unit of work. -/
def Hook.BelongsTo (u : UowRef) : Hook J → Prop
  | .release ticket _ _ => ticket.uow = some u
  | .saveSnapshot .. => True

structure Inv (w : World J) : Prop where
  units : ∀ u, UnitOk w.history u (w.uows u) (w.frames u)
  attempts : ∀ u, u.implicit = true → AttemptOk wiring w.history u (w.uows u)
  order : ∀ d i j, i < j → (w.uows (.attempt d j)).created = true →
    (w.uows (.attempt d i)).outcome = some false
  ended : ∀ d e, .settled d e ∈ w.history → Over d w
  hooks : ∀ u, ∀ hook ∈ heldHooks u w, hook.BelongsTo u
  taken : ∀ u committed within hooks, .hooksTaken u committed within hooks ∈ w.history →
    (w.frames u).hooksRan = true
  running : ∀ u, (w.frames u).running ≠ [] → (w.frames u).hooksRan = true
  ran : ∀ u hook error, .hookRan u hook error ∈ w.history → (w.frames u).hooksRan = true
  published : ∀ u, ∀ o ∈ w.history, o.publishes u = true → (w.uows u).outcome = some true

theorem inv_empty : Inv wiring ({} : World J) where
  units u :=
    { fresh := fun _ => ⟨rfl, rfl⟩
      ran := List.prefix_rfl
      all := by simp
      noted := rfl
      settled := by simp
      committed := by simp
      resolved := by simp
      frame := by simp }
  attempts u _ := ⟨.inl ⟨rfl, rfl⟩, by simp⟩
  order := by simp
  ended := by simp
  hooks u hook hmem := by simp [heldHooks, getOrCreate] at hmem
  taken := by simp
  running := by simp
  ran := by simp
  published := by simp

variable {wiring} {x : Subject} {u : UowRef} {s t : World J}

theorem HookChange.belongsTo (h : HookChange wiring u s t) {hook : Hook J}
    (hhook : hook ∈ heldHooks u t) : hook ∈ heldHooks u s ∨ hook.BelongsTo u := by
  have htail : ∀ {first hook : Hook J}, (s.frames u).running.head? = some first →
      hook ∈ (s.frames u).running.tail → hook ∈ (s.frames u).running := fun _ h =>
    List.mem_of_mem_tail h
  cases h with
  | same hooks running =>
      rw [heldHooks, getOrCreate, hooks, running] at hhook
      exact .inl hhook
  | registeredSnapshot _ _ _ eq =>
      subst eq
      simp only [heldHooks, getOrCreate, onUowCommitted, World.setHooks, World.note, bind,
        Segment.modify, note, Function.update_self, Option.getD_some, List.append_assoc,
        List.mem_append, List.mem_singleton] at hhook ⊢
      rcases hhook with h | rfl | h | h
      · exact .inl (.inl h)
      · exact .inr trivial
      · exact .inl (.inr (.inl h))
      · exact .inl (.inr (.inr h))
  | registeredRelease _ _ _ eq =>
      subst eq
      simp only [heldHooks, getOrCreate, onUowSettled, World.setHooks, World.note, bind,
        Segment.modify, note, Function.update_self, Option.getD_some, List.append_assoc,
        List.mem_append, List.mem_singleton] at hhook ⊢
      rcases hhook with h | h | rfl | h
      · exact .inl (.inl h)
      · exact .inl (.inr (.inl h))
      · exact .inr rfl
      · exact .inl (.inr (.inr h))
  | claimed _ _ eq =>
      subst eq
      simp only [heldHooks, getOrCreate, World.setFrame, Function.update_self] at hhook
      exact .inl hhook
  | @took ambient committed _ _ _ _ eq =>
      subst eq
      simp only [heldHooks, getOrCreate, takeHooks, World.setFrame, World.setHooks, World.note,
        Function.update_self, Option.getD_none, List.nil_append, List.mem_append] at hhook
      refine .inl ?_
      simp only [heldHooks, getOrCreate, List.mem_append]
      rcases hhook with h | h
      · cases committed with
        | true => exact .inl (.inl h)
        | false => simp at h
      · exact .inl (.inr h)
  | @ranSnapshotHook aggregateName aggregateId snapshot saved running eq =>
      subst eq
      refine .inl ?_
      cases saved <;>
        simp only [heldHooks, getOrCreate, World.hookEnded, World.savedSnapshot, World.note,
          World.setFrame, Function.update_self, List.mem_append, if_true, if_false,
          Bool.false_eq_true] at hhook ⊢ <;>
        exact hhook.imp id (htail running)
  | @ranReleaseHook ticket aggregateName aggregateId _ running eq =>
      subst eq
      obtain ⟨_, _, h⟩ := Locker.release_eq ticket aggregateName aggregateId s
      rw [h] at hhook
      refine .inl ?_
      simp only [heldHooks, getOrCreate, World.hookEnded, World.note, World.setFrame,
        Function.update_self, List.mem_append] at hhook ⊢
      exact hhook.imp id (htail running)

theorem HookChange.hooksRan (h : HookChange wiring u s t)
    (hs : (s.frames u).hooksRan = true) : (t.frames u).hooksRan = true := by
  cases h with
  | same _ _ hooksRan => rwa [hooksRan]
  | registeredSnapshot _ _ _ eq => subst eq; exact hs
  | registeredRelease _ _ _ eq => subst eq; exact hs
  | claimed _ _ eq => subst eq; simp [World.setFrame]
  | took _ _ _ _ eq =>
      subst eq
      simpa [takeHooks, World.setFrame, World.setHooks, World.note] using hs
  | @ranSnapshotHook _ _ _ saved _ eq =>
      subst eq
      cases saved <;>
        simpa [World.hookEnded, World.savedSnapshot, World.setFrame, World.note] using hs
  | ranReleaseHook _ _ eq =>
      subst eq
      simpa [World.hookEnded, World.setFrame, World.note, Locker.release_frames] using hs

theorem HookChange.running_ne_nil (h : HookChange wiring u s t)
    (ht : (t.frames u).running ≠ []) :
    (s.frames u).running ≠ [] ∨ (s.frames u).hooksRan = true := by
  have hhead : ∀ {hook : Hook J}, (s.frames u).running.head? = some hook →
      (s.frames u).running ≠ [] := by
    intro hook hhead hnil
    rw [hnil] at hhead
    cases hhead
  cases h with
  | same _ running => exact .inl (running ▸ ht)
  | registeredSnapshot _ _ _ eq => subst eq; exact .inl ht
  | registeredRelease _ _ _ eq => subst eq; exact .inl ht
  | claimed _ _ eq =>
      subst eq
      exact .inl (by simpa [World.setFrame] using ht)
  | took _ claimed => exact .inr claimed
  | ranSnapshotHook running => exact .inl (hhead running)
  | ranReleaseHook _ running => exact .inl (hhead running)

theorem UowChange.ended (h : UowChange wiring u s t)
    (hs : UnitOk s.history u (s.uows u) (s.frames u))
    (hcreates : ¬ Creates wiring u s)
    (hover : (s.uows u).created = true → (s.uows u).outcome ≠ none)
    (ht : (t.uows u).created = true) : (t.uows u).outcome ≠ none := by
  have hcreated := (h.creates ht).resolve_right fun h => hcreates h.1
  obtain ⟨b, hb⟩ := Option.ne_none_iff_exists'.mp (hover hcreated)
  simp [h.outcome hs hb]

theorem Inv.step [JsValue J] (hs : Inv wiring s) (h : Step wiring x s t) : Inv wiring t where
  units u := (h.uow u).unitOk (hs.units u)
  attempts u hu :=
    (h.uow u).attemptOk hu h.adds.grows.subset (hs.units u) (hs.attempts u hu)
  order d i j hij hj := by
    have hfailed : (s.uows (.attempt d i)).outcome = some false := by
      rcases (h.uow _).creates hj with hj | ⟨⟨hready, -⟩, -⟩
      · exact hs.order d i j hij hj
      · exact hready.failed i hij
    exact (h.uow _).outcome (hs.units _) hfailed
  ended d e he k := by
    rcases h.explained he with he | ⟨⟨hover, -⟩, rfl⟩
    · refine (h.uow _).ended (hs.units _) ?_ (hs.ended d e he k)
      exact fun hcreates => hcreates.1.unsettled e he
    · exact hover k
  hooks u hook hhook := by
    rcases (h.hooks u).belongsTo hhook with hhook | hhook
    · exact hs.hooks u hook hhook
    · exact hhook
  taken u committed within hooks hmem := by
    refine (h.hooks u).hooksRan ?_
    rcases h.explained hmem with hmem | ⟨_, -, -, hclaimed, -⟩
    · exact hs.taken u committed within hooks hmem
    · exact hclaimed
  running u hrunning := by
    refine (h.hooks u).hooksRan ?_
    rcases (h.hooks u).running_ne_nil hrunning with hrunning | hclaimed
    · exact hs.running u hrunning
    · exact hclaimed
  ran u hook error hmem := by
    refine (h.hooks u).hooksRan ?_
    rcases h.explained hmem with hmem | hexplained
    · exact hs.ran u hook error hmem
    · refine hs.running u fun hidle => ?_
      have hhead := (Explained.turn hexplained).head
      rw [hidle] at hhead
      cases hhead
  published u o hmem ho := by
    refine (h.uow u).outcome (hs.units u) ?_
    rcases h.explained hmem with hmem | hexplained
    · exact hs.published u o hmem ho
    · have hcommitted : ∀ {v rest}, v = u → Publishing v rest s →
          (s.uows u).outcome = some true := by
        rintro v rest rfl hpublishing
        exact ((hs.units v).committed _ hpublishing.committed).1
      cases o with
      | dispatchCalled v =>
          cases v with
          | none => simp [Obs.publishes] at ho
          | some v =>
              obtain ⟨⟨⟨rest, hpublishing⟩, -⟩, -⟩ := hexplained
              exact hcommitted (by simpa [Obs.publishes] using ho) hpublishing
      | dispatchResolved v =>
          cases v with
          | none => simp [Obs.publishes] at ho
          | some v =>
              obtain ⟨⟨⟨rest, hpublishing⟩, -⟩, -⟩ := hexplained
              exact hcommitted (by simpa [Obs.publishes] using ho) hpublishing
      | dispatchRejected v =>
          cases v with
          | none => simp [Obs.publishes] at ho
          | some v =>
              obtain ⟨⟨⟨rest, hpublishing⟩, -⟩, -⟩ := hexplained
              exact hcommitted (by simpa [Obs.publishes] using ho) hpublishing
      | _ => simp [Obs.publishes] at ho

end Noddde
