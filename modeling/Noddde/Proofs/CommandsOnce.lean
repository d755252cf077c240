import Noddde.Proofs.Provenance
import Noddde.Proofs.SerialStreams
import Mathlib.Data.List.Pairwise
/-!
# Commands that are applied once

Without a time to live, an idempotency record stays.  The claim of a command id is one of
the operations of the unit of work that the command has contributed to, so of all the
contributions for one id only one can be committed, whichever of the dispatches found no
record when they started.
-/

namespace Noddde

variable {J Infra : Type} {wiring : Wiring J Infra} {x : Subject} {u : UowRef} {s t : World J}
  {key : String}

/-! ## Claims -/

/-- The command id that an operation claims, as the store renders it. -/
def Operation.claim? : Operation J → Option String
  | .saveIdempotency commandId _ _ => some commandId.render
  | _ => none

def claims (operations : List (Operation J)) : List String :=
  operations.filterMap Operation.claim?

def Obs.commandId? (u : UowRef) : Obs J → Option String
  | .contributed task v _ _ _ => if v = u then task.command.commandId.map ID.render else none
  | _ => none

theorem claims_append (operations operations' : List (Operation J)) :
    claims (operations ++ operations') = claims operations ++ claims operations' :=
  List.filterMap_append

theorem claims_of_isEffect {operations : List (Operation J)}
    (h : ∀ op ∈ operations, op.isEffect = true) : claims operations = [] := by
  rw [claims, List.filterMap_eq_nil_iff]
  intro op hop
  have heffect := h op hop
  cases op with
  | updateView | saveOutbox => rfl
  | saveEvents | saveState | saveIdempotency | saveSaga => cases heffect

theorem Contribution.claim?_save (task : Task J) (c : Contribution J) :
    (c.save task).claim? = none := by
  unfold Contribution.save
  split <;> rfl

theorem Contribution.claims_operations (hstore : wiring.idempotency.isSome = true)
    {task : Task J} {c : Contribution J} (heffects : ∀ op ∈ c.effects, op.isEffect = true) :
    claims (c.operations wiring task) = (task.command.commandId.map ID.render).toList := by
  obtain ⟨ttlMs, httl⟩ := Option.isSome_iff_exists.mp hstore
  rw [Contribution.operations, claims_append, claims_of_isEffect heffects, List.append_nil,
    claimsOf, httl]
  cases task.command.commandId with
  | none => simp [claims, c.claim?_save task]
  | some commandId =>
      rw [claims, List.filterMap_cons_none (c.claim?_save task)]
      rfl

/-! ## Records -/

theorem IdempotencyStore.save_without_ttl (store : IdempotencyStore) (now : Nat)
    (record : IdempotencyRecord) :
    store.save none now record =
      if (store.get record.commandId.render).isSome
      then (.error (.idempotencyConflict record.commandId), store)
      else (.ok (), store.set record.commandId.render record) := by
  unfold IdempotencyStore.save IdempotencyStore.getLiveRecord
  cases hget : store.get record.commandId.render with
  | none => simp [hget]
  | some _ => simp [hget]

theorem IdempotencyStore.exists_without_ttl (store : IdempotencyStore) (now : Nat)
    (commandId : ID) :
    store.exists' none now commandId = ((store.get commandId.render).isSome, store) := by
  unfold IdempotencyStore.exists' IdempotencyStore.getLiveRecord
  cases hget : store.get commandId.render with
  | none => simp [hget]
  | some _ => simp [hget]

/-- A claim takes effect only if there is no record, and makes one. -/
theorem Stores.records (httl : wiring.idempotency = some none) {operation : Operation J}
    (h : Stores wiring operation s t) (key : String) :
    (t.idempotencyStore.get key).isSome =
        ((s.idempotencyStore.get key).isSome || decide (operation.claim? = some key)) ∧
      (operation.claim? = some key → (s.idempotencyStore.get key).isSome = false) := by
  cases operation with
  | saveIdempotency commandId aggregateName aggregateId =>
      obtain ⟨now, hsave, rfl⟩ := h
      rw [httl, Option.getD_some, IdempotencyStore.save_without_ttl] at hsave ⊢
      split at hsave
      · cases hsave
      · rename_i hnone
        simp only [Operation.claim?, Option.some.injEq, if_neg hnone, InsertionMap.get_set]
        constructor
        · by_cases hkey : key = commandId.render
          · simp [hkey]
          · have hne : ¬ commandId.render = key := fun h => hkey h.symm
            simp [hkey, hne]
        · rintro rfl
          simpa using hnone
  | saveEvents | saveState | saveSaga =>
      obtain ⟨_, _, rfl⟩ := h
      simp [Operation.claim?]
  | updateView =>
      obtain ⟨_, rfl⟩ := h
      simp [Operation.claim?]
  | saveOutbox =>
      obtain rfl : t = _ := h
      simp [Operation.claim?]

variable (wiring) in
inductive RecordsChange (s t : World J) : Prop
  | same (idempotencyStore : t.idempotencyStore = s.idempotencyStore)
  | ran {u : UowRef} {r : World J} {operation : Operation J} {rest : List (Operation J)}
      (running : Running u (operation :: rest) s) (stores : Stores wiring operation s r)
      (eq : t = r.ran u operation)

theorem Step.records [JsValue J] (httl : wiring.idempotency = some none)
    (h : Step wiring x s t) : RecordsChange wiring s t := by
  cases h with
  | @checked _ task ttlMs now commandId command store started =>
      obtain rfl : ttlMs = none := Option.some.inj (store.symm.trans httl)
      refine .same ?_
      simp only [World.checked, IdempotencyStore.exists_without_ttl]
      split <;> rfl
  | ran running stores => exact .ran running stores rfl
  | @refused _ r u operation e rest running refuses =>
      refine .same ?_
      cases operation with
      | saveOutbox => exact refuses.elim
      | saveEvents | saveState | saveSaga => obtain ⟨_, rfl⟩ := refuses; rfl
      | saveIdempotency commandId =>
          obtain ⟨now, hsave, rfl⟩ := refuses
          change (IdempotencyStore.save _ _ _ _).2 = _
          rw [httl, Option.getD_some, IdempotencyStore.save_without_ttl] at hsave ⊢
          split at hsave
          · rename_i hsome
            rw [if_pos hsome]
          · cases hsave
      | updateView => obtain rfl : r = s := refuses; rfl
  | @entered _ task uow =>
      obtain ⟨_, _, heq⟩ := Locker.enter_eq ⟨task.dispatch, uow⟩ task.aggregateName
        task.aggregateId s
      exact .same (by rw [heq])
  | @released _ task =>
      obtain ⟨_, _, heq⟩ := Locker.release_eq ⟨task.dispatch, none⟩ task.aggregateName
        task.aggregateId s
      exact .same (by rw [heq])
  | @ranSnapshotHook _ u aggregateName aggregateId snapshot saved =>
      cases saved with
      | false => exact .same rfl
      | true => exact .same rfl
  | @ranReleaseHook _ u ticket aggregateName aggregateId =>
      obtain ⟨_, _, heq⟩ := Locker.release_eq ticket aggregateName aggregateId s
      exact .same (by rw [heq]; rfl)
  | _ => exact .same rfl

/-! ## Contributions in the history -/

/-- A step contributes, or the history says nothing new of contributions. -/
theorem Step.contributions [JsValue J] (h : Step wiring x s t) :
    (∃ task u c uuids, Contributes wiring task u c uuids s ∧
        t = s.contributed wiring task u c uuids) ∨
      ∃ new, t.history = new ++ s.history ∧ ∀ o ∈ new, o.isContributed = false := by
  obtain ⟨new, hnew, hexplained⟩ := h.explains
  by_cases hall : ∀ o ∈ new, o.isContributed = false
  · exact .inr ⟨new, hnew, hall⟩
  · push Not at hall
    obtain ⟨o, ho, hcontributed⟩ := hall
    have hwhy := hexplained o ho
    cases o with
    | contributed task u loaded newEvents events =>
        obtain ⟨c, uuids, hcontributes, -, -, -, heq⟩ := hwhy
        exact .inl ⟨task, u, c, uuids, hcontributes, heq⟩
    | _ => exact absurd rfl hcontributed

def commandIds (u : UowRef) (h : List (Obs J)) : List String := h.filterMap (Obs.commandId? u)

theorem commandIds_append {old new : List (Obs J)} (h : ∀ o ∈ new, o.isContributed = false) :
    commandIds u (new ++ old) = commandIds u old := by
  have hnone : new.filterMap (Obs.commandId? u) = [] := by
    rw [List.filterMap_eq_nil_iff]
    intro o ho
    have hnot := h o ho
    cases o with
    | contributed => cases hnot
    | _ => rfl
  rw [commandIds, List.filterMap_append, hnone, List.nil_append, commandIds]

theorem commandIds_contributed {task : Task J} {v : UowRef} {c : Contribution J} {uuids : Nat} :
    commandIds u (s.contributed wiring task v c uuids).history =
      (if v = u then (task.command.commandId.map ID.render).toList else []) ++
        commandIds u s.history := by
  have henlisted : ∀ operations : List (Operation J),
      (operations.map (Obs.enlisted v (some task.dispatch))).reverse.filterMap
        (Obs.commandId? u) = [] := by
    intro operations
    rw [List.filterMap_eq_nil_iff]
    intro o ho
    obtain ⟨op, -, rfl⟩ := List.mem_map.mp (List.mem_reverse.mp ho)
    rfl
  rw [World.history_contributed, contributionNotes, commandIds, List.filterMap_append,
    List.filterMap_append, List.filterMap_cons, henlisted, henlisted]
  by_cases hv : v = u
  · cases hcommand : task.command.commandId with
    | none => simp [Obs.commandId?, hv, commandIds, hcommand]
    | some commandId => simp [Obs.commandId?, hv, commandIds, hcommand]
  · simp [Obs.commandId?, hv, commandIds]

/-! ## The invariant -/

variable (wiring) in
structure ClaimsOnce (w : World J) : Prop where
  recorded : ∀ key, (w.idempotencyStore.get key).isSome = true ↔
    ∃ u, key ∈ claims (w.uows u).executed
  once : ∀ u, (claims (w.uows u).executed).Nodup
  apart : ∀ u v key, key ∈ claims (w.uows u).executed → key ∈ claims (w.uows v).executed → u = v
  claimed : ∀ u, (w.uows u).outcome ≠ some false →
    claims (w.uows u).operations = (commandIds u w.history).reverse
  skipped : ∀ d, .skipped d ∈ w.history → ∃ task uow commandId, task.dispatch = d ∧
    .started task uow ∈ w.history ∧ task.command.commandId = some commandId ∧
    (w.idempotencyStore.get commandId.render).isSome = true

theorem claimsOnce_empty : ClaimsOnce ({} : World J) where
  recorded key := by simp [InsertionMap.get_empty, claims]
  once u := List.nodup_nil
  apart u v key h := by simp [claims] at h
  claimed u _ := rfl
  skipped d h := by simp at h

/-! ## What a step claims -/

theorem uow_ran_ne {r : World J} {operation : Operation J} (stores : Stores wiring operation s r)
    {v : UowRef} (hv : v ≠ u) : (r.ran u operation).uows v = s.uows v := by
  simp [World.ran, World.note, World.setUow, stores.control.uows, hv]

theorem claims_ran {r : World J} {operation : Operation J} (stores : Stores wiring operation s r)
    (v : UowRef) : claims ((r.ran u operation).uows v).executed =
      claims (s.uows v).executed ++ if v = u then operation.claim?.toList else [] := by
  by_cases hv : v = u
  · subst hv
    rw [(Versioned.uow_ran stores).2, claims_append, if_pos rfl]
    cases hclaim : operation.claim? <;> simp [claims, hclaim]
  · rw [uow_ran_ne stores hv, if_neg hv, List.append_nil]

/-- A step runs an operation, or it leaves the claims and the records alone. -/
theorem Step.executes [JsValue J] (httl : wiring.idempotency = some none)
    (h : Step wiring x s t) :
    ((∀ u, (t.uows u).executed = (s.uows u).executed) ∧
        t.idempotencyStore = s.idempotencyStore) ∨
      ∃ u r operation rest, Running u (operation :: rest) s ∧ Stores wiring operation s r ∧
        t = r.ran u operation := by
  by_cases hran : ∃ u r operation rest, Running u (operation :: rest) s ∧
      Stores wiring operation s r ∧ t = r.ran u operation
  · exact .inr hran
  · refine .inl ⟨fun u => ?_, ?_⟩
    · cases (h.uow u).operations with
      | same _ executed => exact executed
      | contributed _ heq => rw [heq, World.uows_contributed, Function.update_self]
      | enlisted _ _ _ executed => exact executed
      | ran running stores heq => exact absurd ⟨_, _, _, _, running, stores, heq⟩ hran
      | discarded _ _ executed => exact executed
    · cases h.records httl with
      | same idempotencyStore => exact idempotencyStore
      | ran running stores heq => exact absurd ⟨_, _, _, _, running, stores, heq⟩ hran

theorem UowChange.claims (h : UowChange wiring u s t) :
    claims (t.uows u).operations = claims (s.uows u).operations ∨
      (∃ task c uuids, Contributes wiring task u c uuids s ∧
        t = s.contributed wiring task u c uuids) ∨
      (t.uows u).outcome = some false := by
  cases h with
  | same uow => exact .inl (by rw [uow])
  | created _ uow => exact .inl (by rw [uow])
  | contributed contributes eq => exact .inr (.inl ⟨_, _, _, contributes, eq⟩)
  | @enlistedSaga n sagaName sagaId state expectedVersion _ isOpen eq =>
      subst eq
      have hoperations : ((s.enlistAll u none
          [.saveSaga sagaName sagaId state expectedVersion]).uows u).operations =
          (s.uows u).operations ++ [.saveSaga sagaName sagaId state expectedVersion] := by
        simp [World.enlistAll]
      left
      rw [hoperations, claims_append]
      exact List.append_nil _
  | committing _ _ _ eq =>
      subst eq
      exact .inl (by rw [World.uow_committing u s])
  | ran running stores eq =>
      subst eq
      exact .inl (by rw [(Versioned.uow_ran stores).1])
  | refused _ refuses eq =>
      subst eq
      exact .inl (by rw [refuses.uow_refused u])
  | committed _ eq =>
      subst eq
      exact .inl (by rw [World.uow_committed u s])
  | @commitRejected e _ _ eq =>
      subst eq
      exact .inl (by rw [World.uow_commitRejected u e s])
  | rolledBack _ _ eq =>
      subst eq
      exact .inr (.inr (by rw [World.uow_rolledBack u s]))

namespace ClaimsOnce

variable [JsValue J]

theorem record_stays (httl : wiring.idempotency = some none) (h : Step wiring x s t)
    (hkey : (s.idempotencyStore.get key).isSome = true) :
    (t.idempotencyStore.get key).isSome = true := by
  rcases h.executes httl with ⟨-, heq⟩ | ⟨u, r, operation, rest, -, stores, rfl⟩
  · rwa [heq]
  · change (r.idempotencyStore.get key).isSome = true
    rw [(stores.records httl key).1, hkey, Bool.true_or]

theorem step_recorded (httl : wiring.idempotency = some none) (hs : ClaimsOnce s)
    (h : Step wiring x s t) (key : String) :
    (t.idempotencyStore.get key).isSome = true ↔ ∃ u, key ∈ claims (t.uows u).executed := by
  rcases h.executes httl with ⟨hsame, heq⟩ | ⟨u, r, operation, rest, -, stores, rfl⟩
  · simp only [heq, hsame]
    exact hs.recorded key
  · change (r.idempotencyStore.get key).isSome = true ↔ _
    rw [(stores.records httl key).1, Bool.or_eq_true, hs.recorded key, decide_eq_true_eq]
    simp only [claims_ran stores, List.mem_append]
    constructor
    · rintro (⟨v, hv⟩ | hclaim)
      · exact ⟨v, .inl hv⟩
      · exact ⟨u, .inr (by simp [hclaim])⟩
    · rintro ⟨v, hv | hv⟩
      · exact .inl ⟨v, hv⟩
      · split at hv
        · exact .inr (by simpa using hv)
        · cases hv

theorem step_once (httl : wiring.idempotency = some none) (hs : ClaimsOnce s)
    (h : Step wiring x s t) (v : UowRef) : (claims (t.uows v).executed).Nodup := by
  rcases h.executes httl with ⟨hsame, -⟩ | ⟨u, r, operation, rest, -, stores, rfl⟩
  · rw [hsame]
    exact hs.once v
  · rw [claims_ran stores]
    split
    · cases hclaim : operation.claim? with
      | none => simpa using hs.once v
      | some key =>
          have hfree : key ∉ claims (s.uows v).executed := fun hmem => by
            have hnone := (stores.records httl key).2 hclaim
            rw [(hs.recorded key).mpr ⟨v, hmem⟩] at hnone
            cases hnone
          exact (hs.once v).append (List.nodup_singleton key) (by simpa using hfree)
    · rw [List.append_nil]
      exact hs.once v

theorem step_apart (httl : wiring.idempotency = some none) (hs : ClaimsOnce s)
    (h : Step wiring x s t) {v v' : UowRef} (hv : key ∈ claims (t.uows v).executed)
    (hv' : key ∈ claims (t.uows v').executed) : v = v' := by
  rcases h.executes httl with ⟨hsame, -⟩ | ⟨u, r, operation, rest, -, stores, rfl⟩
  · rw [hsame] at hv hv'
    exact hs.apart v v' key hv hv'
  · -- a new claim is of a key that nobody has claimed
    have hnew : ∀ {v}, key ∈ claims ((r.ran u operation).uows v).executed →
        key ∈ claims (s.uows v).executed ∨ v = u ∧ operation.claim? = some key := by
      intro v hmem
      rw [claims_ran stores, List.mem_append] at hmem
      refine hmem.imp id fun hmem => ?_
      split at hmem
      · rename_i hvu
        exact ⟨hvu, by simpa using hmem⟩
      · cases hmem
    have hfree : ∀ {v}, operation.claim? = some key → key ∉ claims (s.uows v).executed := by
      intro v hclaim hmem
      have hnone := (stores.records httl key).2 hclaim
      rw [(hs.recorded key).mpr ⟨v, hmem⟩] at hnone
      cases hnone
    rcases hnew hv with hold | ⟨rfl, hclaim⟩
    · rcases hnew hv' with hold' | ⟨-, hclaim⟩
      · exact hs.apart v v' key hold hold'
      · exact absurd hold (hfree hclaim)
    · rcases hnew hv' with hold' | ⟨rfl, -⟩
      · exact absurd hold' (hfree hclaim)
      · rfl

theorem step_claimed (hstore : wiring.idempotency.isSome = true) (hs : ClaimsOnce s)
    (hinv : Inv wiring s) (h : Step wiring x s t) (houtcome : (t.uows u).outcome ≠ some false) :
    claims (t.uows u).operations = (commandIds u t.history).reverse := by
  have hold := hs.claimed u fun hfailed => houtcome ((h.uow u).outcome (hinv.units u) hfailed)
  rcases h.contributions with ⟨task, v, c, uuids, hcontributes, rfl⟩ | ⟨new, hnew, hnone⟩
  · rw [commandIds_contributed, List.reverse_append, ← hold, World.uows_contributed]
    by_cases hv : v = u
    · subst hv
      obtain ⟨_, -, -, heffects⟩ := hcontributes.computed.batch
      rw [Function.update_self, if_pos rfl, claims_append,
        Contribution.claims_operations hstore heffects.isEffect]
      cases task.command.commandId <;> rfl
    · rw [Function.update_of_ne (Ne.symm hv), if_neg hv, List.reverse_nil, List.append_nil]
  · rw [hnew, commandIds_append hnone, ← hold]
    rcases (h.uow u).claims with heq | ⟨task, c, uuids, hcontributes, rfl⟩ | hfailed
    · exact heq
    · have hnotes : new = contributionNotes wiring task u c := by
        rw [World.history_contributed] at hnew
        exact (List.append_cancel_right hnew).symm
      have hmem : .contributed task u c.loaded c.newEvents c.events ∈ new := by
        rw [hnotes, contributionNotes]
        simp
      cases hnone _ hmem
    · exact absurd hfailed houtcome

theorem step_skipped (httl : wiring.idempotency = some none) (hs : ClaimsOnce s)
    (h : Step wiring x s t) {d : Origin} (hmem : .skipped d ∈ t.history) :
    ∃ task uow commandId, task.dispatch = d ∧ .started task uow ∈ t.history ∧
      task.command.commandId = some commandId ∧
      (t.idempotencyStore.get commandId.render).isSome = true := by
  have hsub := h.adds.grows.subset
  rcases h.explained hmem with hold |
    ⟨task, ttlMs, now, commandId, hd, hcommand, hstore, ⟨uow, hstarted⟩, hfound, rfl⟩
  · obtain ⟨task, uow, commandId, hd, hstarted, hcommand, hrecord⟩ := hs.skipped d hold
    exact ⟨task, uow, commandId, hd, hsub hstarted, hcommand, record_stays httl h hrecord⟩
  · obtain rfl : ttlMs = none := Option.some.inj (hstore.symm.trans httl)
    refine ⟨task, uow, commandId, hd, hsub hstarted, hcommand, record_stays httl h ?_⟩
    rwa [IdempotencyStore.exists_without_ttl] at hfound

theorem step (httl : wiring.idempotency = some none) (hs : ClaimsOnce s) (hinv : Inv wiring s)
    (h : Step wiring x s t) : ClaimsOnce t where
  recorded := hs.step_recorded httl h
  once := hs.step_once httl h
  apart _ _ _ hv hv' := hs.step_apart httl h hv hv'
  claimed _ houtcome := hs.step_claimed (by rw [httl]; rfl) hinv h houtcome
  skipped _ hmem := hs.step_skipped httl h hmem

end ClaimsOnce

/-! ## At most one commit for each command id -/

theorem eq_of_nodup_filterMap {α β : Type} {f : α → Option β} {xs : List α}
    (h : (xs.filterMap f).Nodup) {a b : α} (ha : a ∈ xs) (hb : b ∈ xs) {y : β}
    (hfa : f a = some y) (hfb : f b = some y) : a = b := by
  by_contra hne
  have hpairs := List.pairwise_filterMap.mp h
  have hsymm : Std.Symm fun a b : α =>
      ∀ y, f a = some y → ∀ y', f b = some y' → y ≠ y' :=
    ⟨fun a b hab y hy y' hy' => (hab y' hy' y hy).symm⟩
  exact hpairs.forall ha hb hne y hfa y hfb rfl

theorem mem_history_of_ranIn {operation : Operation J} {h : List (Obs J)}
    (hmem : operation ∈ ranIn u h) : .executed u operation ∈ h := by
  induction h with
  | nil => cases hmem
  | cons o rest ih =>
      cases o with
      | executed v other =>
          rw [ranIn] at hmem
          split at hmem
          · rename_i hv
            rcases List.mem_append.mp hmem with hmem | hmem
            · exact List.mem_cons_of_mem _ (ih hmem)
            · rw [List.mem_singleton.mp hmem, hv]
              exact List.mem_cons_self
          · exact List.mem_cons_of_mem _ (ih hmem)
      | _ => exact List.mem_cons_of_mem _ (ih hmem)

/-- A contribution that is committed has claimed its command id. -/
theorem ClaimsOnce.mem_claims (hs : ClaimsOnce s) (hinv : Inv wiring s) {task : Task J}
    {loaded : Loaded J} {newEvents events : List (Event J)} {commandId : ID}
    (houtcome : (s.uows u).outcome = some true)
    (hmem : .contributed task u loaded newEvents events ∈ s.history)
    (hcommand : task.command.commandId = some commandId) :
    commandId.render ∈ claims (s.uows u).executed := by
  rw [(hinv.units u).all houtcome, hs.claimed u (by rw [houtcome]; decide), List.mem_reverse]
  refine List.mem_filterMap.mpr ⟨_, hmem, ?_⟩
  simp [Obs.commandId?, hcommand]

section Runs

variable [JsValue J] {C : World J → World J → Prop} {workload : Workload J} {q : Process J Infra}

theorem claimsOnce_of_run (httl : wiring.idempotency = some none)
    (hrun : Pool.Run C (boot wiring workload) q) : ClaimsOnce q.state :=
  steps_induction wiring hrun claimsOnce_empty fun _ _ _ hinv _ h hs => hs.step httl hinv h

/-- Over an idempotency store without a time to live, whatever runs at the same time: of all
the contributions for one command id at most one belongs to a unit of work that has
committed, which has contributed for it only once, and a dispatch is skipped only if a commit
has claimed its command id. -/
theorem commands_once (httl : wiring.idempotency = some none)
    (hrun : Pool.Run C (boot wiring workload) q) :
    (∀ task task' u u' loaded loaded' newEvents newEvents' events events' commandId commandId',
      .contributed task u loaded newEvents events ∈ q.state.history →
      .contributed task' u' loaded' newEvents' events' ∈ q.state.history →
      (q.state.uows u).outcome = some true → (q.state.uows u').outcome = some true →
      task.command.commandId = some commandId → task'.command.commandId = some commandId' →
      commandId.render = commandId'.render →
        (Obs.contributed task u loaded newEvents events : Obs J) =
          .contributed task' u' loaded' newEvents' events') ∧
    (∀ u, (q.state.uows u).outcome = some true → (commandIds u q.state.history).Nodup) ∧
    ∀ d, .skipped d ∈ q.state.history → ∃ task uow commandId u aggregateName aggregateId other,
      task.dispatch = d ∧ .started task uow ∈ q.state.history ∧
      task.command.commandId = some commandId ∧
      .executed u (.saveIdempotency other aggregateName aggregateId) ∈ q.state.history ∧
      other.render = commandId.render := by
  have hs := claimsOnce_of_run httl hrun
  have hinv := inv_of_run wiring hrun
  have hnodup (u : UowRef) (houtcome : (q.state.uows u).outcome = some true) :
      (commandIds u q.state.history).Nodup := by
    rw [← List.nodup_reverse, ← hs.claimed u (by rw [houtcome]; decide),
      ← (hinv.units u).all houtcome]
    exact hs.once u
  refine ⟨?once, hnodup, ?skips⟩
  case once =>
    intro task task' u u' loaded loaded' newEvents newEvents' events events' commandId commandId'
      hmem hmem' houtcome houtcome' hcommand hcommand' hrender
    have hu : u = u' := hs.apart u u' commandId.render
      (hs.mem_claims hinv houtcome hmem hcommand)
      (hrender ▸ hs.mem_claims hinv houtcome' hmem' hcommand')
    subst hu
    refine eq_of_nodup_filterMap (hnodup u houtcome) hmem hmem' (y := commandId.render) ?_ ?_
    · simp [Obs.commandId?, hcommand]
    · simp [Obs.commandId?, hcommand', hrender]
  case skips =>
    intro d hskipped
    obtain ⟨task, uow, commandId, hd, hstarted, hcommand, hrecord⟩ := hs.skipped d hskipped
    obtain ⟨u, hclaim⟩ := (hs.recorded _).mp hrecord
    obtain ⟨operation, hop, hclaim⟩ := List.mem_filterMap.mp hclaim
    cases operation with
    | saveIdempotency other aggregateName aggregateId =>
        refine ⟨task, uow, commandId, u, aggregateName, aggregateId, other, hd, hstarted,
          hcommand, ?_, Option.some.inj hclaim⟩
        rw [← (hinv.units u).noted] at hop
        exact mem_history_of_ranIn hop
    | _ => cases hclaim

end Runs

/-! ## A command that is sent twice -/

namespace Sample

def claiming : Wiring Value Unit := { Sample.wiring with idempotency := some none }

def addAs (commandId : ID) : Command Value := ⟨"Add", some (some 2), some commandId, .string "a"⟩

/-- The id is a number the first time and its text the second time. -/
def resent : Process Value Unit :=
  boot claiming (work [call (addAs (.number "1")), call (addAs (.string "1"))])

/-- The same, to two instances. -/
def raced : Process Value Unit :=
  boot claiming (work [call (addAs (.number "1")),
    call { addAs (.string "1") with targetAggregateId := .string "b" }])

/-- Both commands have contributed when the first one commits. -/
def overtaking : List (Tid × Choice Unit) :=
  turns (.command 0) 8 ++ turns (.command 1) 8 ++ turns (.command 0) 5 ++ turns (.command 1) 3

def contributes (d : Origin) (commandId : ID) : Obs Value → Bool
  | .contributed task _ _ _ _ => task.dispatch = d ∧ task.command.commandId = some commandId
  | _ => false

/-- That belongs to a unit of work that has committed. -/
def committed (w : World Value) : Obs Value → Bool
  | .contributed _ u _ _ _ => (w.uows u).outcome = some true
  | _ => false

end Sample

/-- A command that comes again is skipped.  Of two commands with one id that overtake each
other both have contributed, and only the first one commits. -/
theorem commands_once_resent :
    (∃ q, Pool.play (Sample.turns (.command 0) 13 ++ Sample.turns (.command 1) 3)
        Sample.resent = some q ∧
      ∃ task uow commandId u aggregateName aggregateId other, task.dispatch = .command 1 ∧
        .started task uow ∈ q.state.history ∧ task.command.commandId = some commandId ∧
        .executed u (.saveIdempotency other aggregateName aggregateId) ∈ q.state.history ∧
        other.render = commandId.render) ∧
    ∃ q, Pool.play Sample.overtaking Sample.raced = some q ∧
      ∃ o ∈ q.state.history, ∃ o' ∈ q.state.history,
        Sample.contributes (.command 0) (.number "1") o = true ∧
        Sample.contributes (.command 1) (.string "1") o' = true ∧
        Sample.committed q.state o = true ∧ Sample.committed q.state o' = false := by
  constructor
  · have hplay : (Pool.play (Sample.turns (.command 0) 13 ++ Sample.turns (.command 1) 3)
        Sample.resent).any fun q => q.state.history.any fun o =>
          match o with
          | .skipped d => decide (d = .command 1)
          | _ => false := by
      decide +kernel
    obtain ⟨q, hq, hany⟩ := (Option.any_eq_true _ _).mp hplay
    obtain ⟨o, ho, hskipped⟩ := List.any_eq_true.mp hany
    cases o with
    | skipped d =>
        obtain rfl := of_decide_eq_true hskipped
        exact ⟨q, hq, (commands_once rfl
          (Pool.run_of_play (C := fun _ _ => True) (fun _ _ => trivial) hq)).2.2 _ ho⟩
    | _ => cases hskipped
  · have hplay : (Pool.play Sample.overtaking Sample.raced).any fun q =>
        (q.state.history.any fun o => Sample.contributes (.command 0) (.number "1") o &&
          Sample.committed q.state o) &&
        q.state.history.any (Sample.contributes (.command 1) (.string "1")) := by
      decide +kernel
    obtain ⟨q, hq, hboth⟩ := (Option.any_eq_true _ _).mp hplay
    obtain ⟨hfirst, hsecond⟩ := Bool.and_eq_true_iff.mp hboth
    obtain ⟨o, ho, hfirst⟩ := List.any_eq_true.mp hfirst
    obtain ⟨hcontributes, hcommitted⟩ := Bool.and_eq_true_iff.mp hfirst
    obtain ⟨o', ho', hcontributes'⟩ := List.any_eq_true.mp hsecond
    refine ⟨q, hq, o, ho, o', ho', hcontributes, hcontributes', hcommitted, ?_⟩
    cases o with
    | contributed task u loaded newEvents events =>
        cases o' with
        | contributed task' u' loaded' newEvents' events' =>
            obtain ⟨hdispatch, hcommand⟩ := of_decide_eq_true hcontributes
            obtain ⟨hdispatch', hcommand'⟩ := of_decide_eq_true hcontributes'
            have hrun := Pool.run_of_play (C := fun _ _ => True) (fun _ _ => trivial) hq
            apply decide_eq_false
            intro houtcome'
            have hsame := (commands_once rfl hrun).1 _ _ _ _ _ _ _ _ _ _ _ _ ho ho'
              (of_decide_eq_true hcommitted) houtcome' hcommand hcommand' rfl
            obtain ⟨rfl, -⟩ := Obs.contributed.inj hsame
            rw [hdispatch] at hdispatch'
            cases hdispatch'
        | _ => cases hcontributes'
    | _ => cases hcontributes

end Noddde
