import Noddde.Proofs.CommandsOnce
import Noddde.Proofs.LocksReturned
/-!
# Commands whose events are appended once

A commit appends the events of a command before it claims the command id, and a claim that
is refused takes nothing back.  The events are appended once as long as nobody appends or
claims while another commit stands between the two, and nobody appends for an id that is
recorded already.
-/

namespace Noddde

variable {J Infra : Type} {wiring : Wiring J Infra} {x : Subject} {u v : UowRef} {s t : World J}
  {key : String}

/-! ## Appending and claiming -/

/-- The operation adds to the store of an aggregate. -/
def Operation.appends : Operation J → Bool
  | .saveEvents _ _ events _ => !events.isEmpty
  | .saveState .. => true
  | _ => false

/-- The commit of `u` has added to the store of an aggregate. -/
def Appended (u : UowRef) (w : World J) : Prop :=
  ∃ save ∈ (w.uows u).executed, save.appends = true

/-- The commit of `u` has just appended for a command, whose id it claims next. -/
def Waits (u : UowRef) (key : String) (w : World J) : Prop :=
  ∃ before save claim rest, (w.uows u).executed = before ++ [save] ∧ save.appends = true ∧
    Running u (claim :: rest) w ∧ claim.claim? = some key

/-- What is appended for a command id is the first, and nobody is in between. -/
structure Uncontested (s t : World J) : Prop where
  appends : ∀ u save claim rest key, t.history = .executed u save :: s.history →
    save.appends = true → Running u (save :: claim :: rest) s → claim.claim? = some key →
      (s.idempotencyStore.get key).isSome = false ∧ ∀ v, ¬ Waits v key s
  claims : ∀ u claim key, t.history = .executed u claim :: s.history →
    claim.claim? = some key → ∀ v ≠ u, ¬ Waits v key s
  refused : ∀ d k claim e key, t.history = .refused (.attempt d k) claim e :: s.history →
    claim.claim? = some key → ∀ j ≠ k, ¬ Appended (.attempt d j) s

theorem Operation.isSave_of_appends {operation : Operation J} (h : operation.appends = true) :
    operation.isSave = true := by
  cases operation with
  | saveEvents | saveState => rfl
  | _ => cases h

theorem Operation.claim?_of_isSave {operation : Operation J} (h : operation.isSave = true) :
    operation.claim? = none := by
  cases operation with
  | saveEvents | saveState => rfl
  | _ => cases h

theorem Operation.appends_of_claim? {operation : Operation J}
    (h : operation.claim? = some key) : operation.appends = false := by
  cases operation with
  | saveIdempotency => rfl
  | _ => cases h

/-- Other operations leave the streams and the states of all instances as they are. -/
theorem Stores.instances_eq {operation : Operation J} (h : Stores wiring operation s t)
    (hnot : operation.appends = false) :
    t.stateStore = s.stateStore ∧
      ∀ key, t.eventStore.stream key = s.eventStore.stream key := by
  cases operation with
  | saveEvents aggregateName aggregateId events expectedVersion =>
      obtain ⟨eventStore, hsave, rfl⟩ := h
      obtain rfl : events = [] := by simpa [Operation.appends] using hnot
      refine ⟨rfl, fun key => ?_⟩
      rw [EventStore.stream_of_save hsave, List.append_nil, ite_self]
  | saveState => cases hnot
  | saveIdempotency =>
      obtain ⟨_, _, rfl⟩ := h
      exact ⟨rfl, fun _ => rfl⟩
  | saveSaga =>
      obtain ⟨_, _, rfl⟩ := h
      exact ⟨rfl, fun _ => rfl⟩
  | updateView =>
      obtain ⟨_, rfl⟩ := h
      exact ⟨rfl, fun _ => rfl⟩
  | saveOutbox =>
      obtain rfl : t = _ := h
      exact ⟨rfl, fun _ => rfl⟩

/-! ## What an attempt holds -/

theorem Contribution.isSave_save (task : Task J) (c : Contribution J) :
    (c.save task).isSave = true := by
  unfold Contribution.save
  split <;> rfl

/-- What comes first is the save, and the claim of the command id comes next. -/
theorem claim_of_operations {task : Task J} {c : Contribution J}
    (heffects : ∀ op ∈ c.effects, op.isEffect = true)
    (hkey : key ∈ claims (c.operations wiring task)) :
    ∃ claim rest, c.operations wiring task = c.save task :: claim :: rest ∧
      claim.claim? = some key ∧ ∀ op ∈ rest, op.isEffect = true := by
  unfold Contribution.operations claimsOf at hkey ⊢
  split
  · rename_i commandId _ hcommand hstore
    refine ⟨_, c.effects, rfl, ?_, heffects⟩
    rw [hcommand, hstore] at hkey
    simp only [claims_append, claims_of_isEffect heffects, List.append_nil] at hkey
    rw [claims, List.filterMap_cons_none (c.claim?_save task)] at hkey
    exact congrArg some (List.mem_singleton.mp hkey).symm
  · rename_i hnone
    split at hkey
    · exact absurd ‹_› (hnone _ _ ‹_›)
    · rw [claims_append, claims_of_isEffect heffects] at hkey
      simp [claims, c.claim?_save task] at hkey

/-- An implicit unit of work that runs its save claims next, if it claims at all. -/
theorem Holds.claim_follows {h : List (Obs J)} {uow : UnitOfWork J}
    (hu : Holds wiring h u uow) {before rest : List (Operation J)} {save : Operation J}
    (hops : uow.operations = before ++ save :: rest) (hsave : save.isSave = true)
    (hkey : key ∈ claims uow.operations) :
    before = [] ∧ ∃ claim rest', rest = claim :: rest' ∧ claim.claim? = some key := by
  obtain rfl := hu.eq_nil_of_isSave hops hsave
  rcases hu with ⟨hnil, -⟩ | ⟨task, c, -, -, heq, -, heffects⟩
  · rw [hnil] at hops
    cases hops
  · rw [heq] at hkey hops
    obtain ⟨claim, rest', hc, hclaim, -⟩ := claim_of_operations heffects hkey
    rw [hc] at hops
    exact ⟨rfl, claim, rest', (List.cons.inj hops).2.symm, hclaim⟩

/-- When an implicit unit of work claims, it has run its save and nothing else. -/
theorem Holds.save_precedes {h : List (Obs J)} {uow : UnitOfWork J}
    (hu : Holds wiring h u uow) {before rest : List (Operation J)} {claim : Operation J}
    (hops : uow.operations = before ++ claim :: rest) (hclaim : claim.claim? = some key) :
    ∃ save, before = [save] := by
  rcases hu with ⟨hnil, -⟩ | ⟨task, c, -, -, heq, -, heffects⟩
  · rw [hnil] at hops
    simp at hops
  · have hkey : key ∈ claims (c.operations wiring task) := by
      rw [← heq, hops]
      exact List.mem_filterMap.mpr ⟨claim, by simp, hclaim⟩
    obtain ⟨claim', rest', hc, -, hrest⟩ := claim_of_operations heffects hkey
    rw [heq, hc] at hops
    cases before with
    | nil =>
        obtain ⟨rfl, -⟩ := List.cons.inj hops
        rw [c.claim?_save task] at hclaim
        cases hclaim
    | cons save before =>
        cases before with
        | nil => exact ⟨_, rfl⟩
        | cons _ before =>
            -- only effects come after the claim
            have htail := (List.cons.inj (List.cons.inj hops).2).2
            have heffect := hrest claim (by rw [htail]; exact List.mem_append_right _ (by simp))
            cases claim with
            | saveIdempotency => cases heffect
            | _ => cases hclaim

/-- The claims of an attempt are that of the command it is an attempt at. -/
theorem Holds.claims_eq (hstore : wiring.idempotency.isSome = true) {h : List (Obs J)}
    {d : Origin} {k : Nat} {uow : UnitOfWork J} (hu : Holds wiring h (.attempt d k) uow)
    (hops : uow.operations ≠ []) :
    ∃ task, task.dispatch = d ∧ .started task none ∈ h ∧
      claims uow.operations = (task.command.commandId.map ID.render).toList := by
  rcases hu with ⟨hnil, -⟩ | ⟨task, c, ⟨hstarted, hattempt⟩, -, heq, -, heffects⟩
  · exact absurd hnil hops
  · obtain ⟨_, hu⟩ := hattempt rfl
    obtain ⟨rfl, -⟩ := UowRef.attempt.inj hu
    exact ⟨task, rfl, hstarted, by rw [heq, Contribution.claims_operations hstore heffects]⟩

/-! ## What a step does between an append and its claim -/

/-- What a commit has run it has run before the step, or the step runs one more operation. -/
theorem UowChange.executes (h : UowChange wiring u s t)
    (hunit : UnitOk s.history u (s.uows u) (s.frames u)) (hran : (t.uows u).executed ≠ []) :
    ((s.uows u).executed = (t.uows u).executed ∧
        (s.uows u).operations = (t.uows u).operations ∧ (s.uows u).completed = true ∧
        ((t.uows u).outcome = none → (s.uows u).outcome = none)) ∨
      ∃ r operation rest, Running u (operation :: rest) s ∧ Stores wiring operation s r ∧
        t = r.ran u operation := by
  have hcompleted : (s.uows u).executed ≠ [] → (s.uows u).completed = true := fun hne => by
    by_contra hopen
    exact hne (hunit.fresh (by simpa using hopen)).1
  cases h with
  | same uow =>
      rw [uow] at hran ⊢
      exact .inl ⟨rfl, rfl, hcompleted hran, id⟩
  | created _ uow =>
      rw [uow] at hran ⊢
      exact .inl ⟨rfl, rfl, hcompleted hran, id⟩
  | contributed contributes eq =>
      subst eq
      rw [World.uows_contributed, Function.update_self] at hran
      exact absurd (hunit.fresh contributes.isOpen).1 hran
  | enlistedSaga _ isOpen eq =>
      subst eq
      simp [World.enlistAll, (hunit.fresh isOpen).1] at hran
  | committing isOpen _ _ eq =>
      subst eq
      rw [World.uow_committing] at hran
      exact absurd (hunit.fresh isOpen).1 hran
  | ran running stores eq => exact .inr ⟨_, _, _, running, stores, eq⟩
  | refused running refuses eq =>
      subst eq
      rw [refuses.uow_refused]
      exact .inl ⟨rfl, rfl, running.completed, by simp⟩
  | committed running eq =>
      subst eq
      rw [World.uow_committed]
      exact .inl ⟨rfl, rfl, running.completed, by simp⟩
  | commitRejected running _ eq =>
      subst eq
      rw [World.uow_commitRejected]
      exact .inl ⟨rfl, rfl, running.completed, by simp⟩
  | rolledBack isOpen _ eq =>
      subst eq
      rw [World.uow_rolledBack] at hran
      exact absurd (hunit.fresh isOpen).1 hran

/-- What is enlisted stays so after the end of a unit of work. -/
theorem UowChange.operations_eq (h : UowChange wiring u s t)
    (hunit : UnitOk s.history u (s.uows u) (s.frames u)) (hover : (s.uows u).outcome ≠ none) :
    (t.uows u).operations = (s.uows u).operations := by
  have hopen : ¬ (s.uows u).completed = false := fun hopen => hover (hunit.fresh hopen).2
  cases h with
  | same uow => rw [uow]
  | created _ uow => rw [uow]
  | contributed contributes => exact absurd contributes.isOpen hopen
  | enlistedSaga _ isOpen => exact absurd isOpen hopen
  | committing isOpen => exact absurd isOpen hopen
  | ran running => exact absurd running.outcome hover
  | refused running => exact absurd running.outcome hover
  | committed running => exact absurd running.outcome hover
  | commitRejected running => exact absurd running.outcome hover
  | rolledBack isOpen => exact absurd isOpen hopen

theorem Appended.executed_ne_nil (h : Appended u s) : (s.uows u).executed ≠ [] := by
  obtain ⟨save, hsave, -⟩ := h
  exact List.ne_nil_of_mem hsave

theorem history_ran {r : World J} {operation : Operation J}
    (stores : Stores wiring operation s r) :
    (r.ran u operation).history = .executed u operation :: s.history :=
  congrArg _ stores.control.history

theorem history_refused {r : World J} {operation : Operation J} {e : Err}
    (refuses : Refuses wiring operation e s r) :
    (r.refused u operation e).history = .refused u operation e :: s.history :=
  congrArg _ refuses.control.history

/-- A commit that has appended had appended before, or it is the step that appends. -/
theorem UowChange.appended (h : UowChange wiring u s t)
    (hunit : UnitOk s.history u (s.uows u) (s.frames u)) (happended : Appended u t) :
    (Appended u s ∧ (s.uows u).operations = (t.uows u).operations) ∨
      ∃ r save rest, Running u (save :: rest) s ∧ Stores wiring save s r ∧
        save.appends = true ∧ t = r.ran u save := by
  rcases h.executes hunit happended.executed_ne_nil with
    ⟨hexecuted, hops, -⟩ | ⟨r, operation, rest, running, stores, rfl⟩
  · obtain ⟨save, hsave, happends⟩ := happended
    exact .inl ⟨⟨save, hexecuted ▸ hsave, happends⟩, hops⟩
  · cases happends : operation.appends with
    | true => exact .inr ⟨r, operation, rest, running, stores, happends, rfl⟩
    | false =>
        obtain ⟨save, hsave, hsaves⟩ := happended
        rw [stores.uow_ran, List.mem_append, List.mem_singleton] at hsave
        rcases hsave with hsave | rfl
        · exact .inl ⟨⟨save, hsave, hsaves⟩, by rw [stores.uow_ran]⟩
        · rw [happends] at hsaves
          cases hsaves

/-- Whoever stands between an append and its claim stood there, or has just appended. -/
theorem UowChange.waits (h : UowChange wiring u s t)
    (hunit : UnitOk s.history u (s.uows u) (s.frames u)) (hwaits : Waits u key t) :
    Waits u key s ∨ ∃ r save claim rest, Running u (save :: claim :: rest) s ∧
      Stores wiring save s r ∧ save.appends = true ∧ claim.claim? = some key ∧
      t = r.ran u save := by
  obtain ⟨before, save, claim, rest, hexecuted, happends, running, hclaim⟩ := hwaits
  rcases h.executes hunit (by rw [hexecuted]; simp) with
    ⟨hsame, hops, hcompleted, houtcome⟩ | ⟨r, operation, rest', running', stores, rfl⟩
  · refine .inl ⟨before, save, claim, rest, hsame.trans hexecuted, happends,
      ⟨hcompleted, houtcome running.outcome, ?_⟩, hclaim⟩
    rw [hops, hsame]
    exact running.operations
  · have hran := stores.uow_ran u
    have happend : (s.uows u).executed ++ [operation] = before ++ [save] := by
      rw [← hexecuted, hran]
    obtain ⟨rfl, hlast⟩ := List.append_inj' happend rfl
    obtain rfl := List.singleton_inj.mp hlast
    have hops := running.operations
    rw [hran] at hops
    have hrest := running'.operations.symm.trans hops
    rw [List.append_assoc] at hrest
    obtain rfl := (List.cons.inj (List.append_cancel_left hrest)).2
    exact .inr ⟨r, operation, claim, rest, running', stores, happends, hclaim, rfl⟩

/-- Whoever stands between an append and its claim stays there, or claims. -/
theorem Waits.step [JsValue J] (hwaits : Waits u key s) (h : Step wiring x s t) :
    Waits u key t ∨ ∃ claim rest, Running u (claim :: rest) s ∧ claim.claim? = some key ∧
      ((∃ r, Stores wiring claim s r ∧ t = r.ran u claim) ∨
        ∃ r e, Refuses wiring claim e s r ∧ t = r.refused u claim e) := by
  obtain ⟨before, save, claim, rest, hexecuted, happends, running, hclaim⟩ := hwaits
  have hkept : t.uows u = s.uows u ∨ t.uows u = { s.uows u with created := true } →
      Waits u key t := by
    intro heq
    refine ⟨before, save, claim, rest, ?_, happends, ⟨?_, ?_, ?_⟩, hclaim⟩
    · rcases heq with heq | heq <;> rw [heq] <;> exact hexecuted
    · rcases heq with heq | heq <;> rw [heq] <;> exact running.completed
    · rcases heq with heq | heq <;> rw [heq] <;> exact running.outcome
    · rcases heq with heq | heq <;> rw [heq] <;> exact running.operations
  have hopen : ¬ (s.uows u).completed = false := by simp [running.completed]
  have hnext : ∀ {rest'}, Running u rest' s → rest' = claim :: rest := fun running' =>
    List.append_cancel_left (running'.operations.symm.trans running.operations)
  cases h.uow u with
  | same uow => exact .inl (hkept (.inl uow))
  | created _ uow => exact .inl (hkept (.inr uow))
  | contributed contributes => exact absurd contributes.isOpen hopen
  | enlistedSaga _ isOpen => exact absurd isOpen hopen
  | committing isOpen => exact absurd isOpen hopen
  | ran running' stores eq =>
      obtain ⟨rfl, rfl⟩ := List.cons.inj (hnext running')
      exact .inr ⟨_, _, running, hclaim, .inl ⟨_, stores, eq⟩⟩
  | refused running' refuses eq =>
      obtain ⟨rfl, rfl⟩ := List.cons.inj (hnext running')
      exact .inr ⟨_, _, running, hclaim, .inr ⟨_, _, refuses, eq⟩⟩
  | committed running' => cases hnext running'
  | commitRejected running' => cases hnext running'
  | rolledBack isOpen => exact absurd isOpen hopen

/-! ## The invariant -/

structure ClaimsFollow (w : World J) : Prop where
  free : ∀ u key, Waits u key w → (w.idempotencyStore.get key).isSome = false
  followed : ∀ u key, u.implicit = true → Appended u w → key ∈ claims (w.uows u).operations →
    Waits u key w ∨ (w.idempotencyStore.get key).isSome = true
  once : ∀ u v key, u.implicit = true → v.implicit = true → Appended u w → Appended v w →
    key ∈ claims (w.uows u).operations → key ∈ claims (w.uows v).operations → u = v
  recorded : ∀ d k claim e key, .refused (.attempt d k) claim e ∈ w.history →
    claim.claim? = some key → (w.idempotencyStore.get key).isSome = true ∧
      claim ∈ (w.uows (.attempt d k)).operations
  unchanged : ∀ d k claim e key, .refused (.attempt d k) claim e ∈ w.history →
    claim.claim? = some key → ∀ j, ¬ Appended (.attempt d j) w

/-- Only a commit makes a record. -/
theorem Step.recorded [JsValue J] (httl : wiring.idempotency = some none)
    (h : Step wiring x s t) (hkey : (t.idempotencyStore.get key).isSome = true) :
    (s.idempotencyStore.get key).isSome = true ∨ ∃ u r claim rest, Running u (claim :: rest) s ∧
      Stores wiring claim s r ∧ claim.claim? = some key ∧ t = r.ran u claim := by
  rcases h.executes httl with ⟨-, heq⟩ | ⟨u, r, operation, rest, running, stores, rfl⟩
  · exact .inl (heq ▸ hkey)
  · change (r.idempotencyStore.get key).isSome = true at hkey
    rw [(stores.records httl key).1, Bool.or_eq_true, decide_eq_true_eq] at hkey
    exact hkey.imp id fun hclaim => ⟨u, r, operation, rest, running, stores, hclaim, rfl⟩

/-- A claim is refused only if there is a record. -/
theorem Refuses.recorded (httl : wiring.idempotency = some none) {claim : Operation J}
    {e : Err} (h : Refuses wiring claim e s t) (hclaim : claim.claim? = some key) :
    (s.idempotencyStore.get key).isSome = true := by
  cases claim with
  | saveIdempotency commandId =>
      obtain rfl := Option.some.inj hclaim
      obtain ⟨now, hsave, -⟩ := h
      rw [httl, Option.getD_some, IdempotencyStore.save_without_ttl] at hsave
      split at hsave
      · assumption
      · cases hsave
  | _ => cases hclaim

namespace ClaimsFollow

variable [JsValue J]

theorem step_free (httl : wiring.idempotency = some none) (hs : ClaimsFollow s)
    (hinv : Inv wiring s) (h : Step wiring x s t) (hnew : Uncontested s t)
    (hwaits : Waits u key t) : (t.idempotencyStore.get key).isSome = false := by
  by_contra hkey
  rw [Bool.not_eq_false] at hkey
  rcases (h.uow u).waits (hinv.units u) hwaits with
    hold | ⟨r, save, claim, rest, running, stores, happends, hclaim, heq⟩
  · have hfree := hs.free u key hold
    rcases h.recorded httl hkey with hrecorded | ⟨v, r, claim, rest, -, stores, hclaim, rfl⟩
    · rw [hfree] at hrecorded
      cases hrecorded
    · by_cases hv : u = v
      · -- what it has executed last is the claim
        subst hv
        obtain ⟨before, save, _, _, hexecuted, happends, -⟩ := hwaits
        rw [stores.uow_ran] at hexecuted
        obtain rfl := List.singleton_inj.mp (List.append_inj' hexecuted rfl).2
        rw [Operation.appends_of_claim? hclaim] at happends
        cases happends
      · exact hnew.claims v claim key (history_ran stores) hclaim u hv hold
  · have hhistory : t.history = .executed u save :: s.history := heq ▸ history_ran stores
    have hfree := (hnew.appends u save claim rest key hhistory happends running hclaim).1
    rcases h.recorded httl hkey with hrecorded | ⟨v, r', other, rest', -, stores', hother, heq'⟩
    · rw [hfree] at hrecorded
      cases hrecorded
    · rw [heq', history_ran stores'] at hhistory
      obtain ⟨-, rfl⟩ := Obs.executed.inj (List.cons.inj hhistory).1
      rw [Operation.appends_of_claim? hother] at happends
      cases happends

omit [JsValue J] in
/-- An attempt that appends claims next. -/
theorem claim_next (hinv : Inv wiring s) (hu : u.implicit = true) {save : Operation J}
    {rest : List (Operation J)} (running : Running u (save :: rest) s)
    (happends : save.appends = true) (hkey : key ∈ claims (s.uows u).operations) :
    (s.uows u).executed = [] ∧ ∃ claim rest', rest = claim :: rest' ∧
      claim.claim? = some key :=
  (hinv.attempts u hu).shape.claim_follows running.operations
    (Operation.isSave_of_appends happends) hkey

omit [JsValue J] in
/-- Nobody has appended for an id that is appended for. -/
theorem nobody_appended (hs : ClaimsFollow s) (hinv : Inv wiring s) (hnew : Uncontested s t)
    (hu : u.implicit = true) {r : World J} {save : Operation J} {rest : List (Operation J)}
    (running : Running u (save :: rest) s) (stores : Stores wiring save s r)
    (happends : save.appends = true) (heq : t = r.ran u save)
    (hkey : key ∈ claims (s.uows u).operations) :
    (s.idempotencyStore.get key).isSome = false ∧ ∀ v, v.implicit = true →
      key ∈ claims (s.uows v).operations → ¬ Appended v s := by
  obtain ⟨-, claim, rest', rfl, hclaim⟩ := claim_next hinv hu running happends hkey
  obtain ⟨hfree, hnobody⟩ := hnew.appends u save claim rest' key (heq ▸ history_ran stores)
    happends running hclaim
  refine ⟨hfree, fun v hv hkeyv happended => ?_⟩
  rcases hs.followed v key hv happended hkeyv with hwaits | hrecorded
  · exact hnobody v hwaits
  · rw [hfree] at hrecorded
    cases hrecorded

theorem step_followed (httl : wiring.idempotency = some none) (hs : ClaimsFollow s)
    (hinv : Inv wiring s) (h : Step wiring x s t) (hu : u.implicit = true)
    (happended : Appended u t) (hkey : key ∈ claims (t.uows u).operations) :
    Waits u key t ∨ (t.idempotencyStore.get key).isSome = true := by
  rcases (h.uow u).appended (hinv.units u) happended with
    ⟨hold, hops⟩ | ⟨r, save, rest, running, stores, happends, rfl⟩
  · rcases hs.followed u key hu hold (hops ▸ hkey) with hwaits | hrecorded
    · rcases hwaits.step h with
        hstill | ⟨claim, rest, -, hclaim, ⟨r, stores, rfl⟩ | ⟨r, e, refuses, rfl⟩⟩
      · exact .inl hstill
      · refine .inr ?_
        change (r.idempotencyStore.get key).isSome = true
        rw [(stores.records httl key).1, hclaim, decide_eq_true rfl, Bool.or_true]
      · have hrecorded := refuses.recorded httl hclaim
        rw [hs.free u key hwaits] at hrecorded
        cases hrecorded
    · exact .inr (ClaimsOnce.record_stays httl h hrecorded)
  · have hran := stores.uow_ran u
    rw [hran] at hkey
    obtain ⟨hnil, claim, rest', rfl, hclaim⟩ := claim_next hinv hu running happends hkey
    refine .inl ⟨[], save, claim, rest', ?_, happends, ⟨?_, ?_, ?_⟩, hclaim⟩
    · rw [hran, hnil]
    · rw [hran]
      exact running.completed
    · rw [hran]
      exact running.outcome
    · rw [hran, running.operations, List.append_assoc]
      rfl

theorem step_once (hs : ClaimsFollow s) (hinv : Inv wiring s) (h : Step wiring x s t)
    (hnew : Uncontested s t) (hu : u.implicit = true) (hv : v.implicit = true)
    (happended : Appended u t) (happended' : Appended v t)
    (hkey : key ∈ claims (t.uows u).operations) (hkey' : key ∈ claims (t.uows v).operations) :
    u = v := by
  rcases (h.uow u).appended (hinv.units u) happended with
    ⟨hold, hops⟩ | ⟨r, save, rest, running, stores, happends, heq⟩
  · rcases (h.uow v).appended (hinv.units v) happended' with
      ⟨hold', hops'⟩ | ⟨r, save, rest, running, stores, happends, heq⟩
    · exact hs.once u v key hu hv hold hold' (hops ▸ hkey) (hops' ▸ hkey')
    · have hsame : (s.uows v).operations = (t.uows v).operations := by
        rw [heq, stores.uow_ran]
      exact absurd hold ((hs.nobody_appended hinv hnew hv running stores happends heq
        (hsame ▸ hkey')).2 u hu (hops ▸ hkey))
  · have hsame : (s.uows u).operations = (t.uows u).operations := by
      rw [heq, stores.uow_ran]
    rcases (h.uow v).appended (hinv.units v) happended' with
      ⟨hold', hops'⟩ | ⟨r', save', rest', -, stores', -, heq'⟩
    · exact absurd hold' ((hs.nobody_appended hinv hnew hu running stores happends heq
        (hsame ▸ hkey)).2 v hv (hops' ▸ hkey'))
    · have hhistory := (history_ran (u := u) stores).symm.trans
        ((congrArg World.history (heq.symm.trans heq')).trans (history_ran stores'))
      exact (Obs.executed.inj (List.cons.inj hhistory).1).1

theorem step_recorded (httl : wiring.idempotency = some none) (hs : ClaimsFollow s)
    (hinv : Inv wiring s) (h : Step wiring x s t) {d : Origin} {k : Nat} {claim : Operation J}
    {e : Err} (hmem : .refused (.attempt d k) claim e ∈ t.history)
    (hclaim : claim.claim? = some key) : (t.idempotencyStore.get key).isSome = true ∧
      claim ∈ (t.uows (.attempt d k)).operations := by
  rcases h.explained hmem with hold | ⟨r, rest, running, refuses, rfl⟩
  · obtain ⟨hrecorded, hin⟩ := hs.recorded d k claim e key hold hclaim
    refine ⟨ClaimsOnce.record_stays httl h hrecorded, ?_⟩
    have hunit := hinv.units (.attempt d k)
    have hover : (s.uows (.attempt d k)).outcome ≠ none := fun hnone => by
      have hsettles := hunit.settled.mp hnone _ hold
      simp [Obs.settles] at hsettles
    rwa [(h.uow _).operations_eq hunit hover]
  · refine ⟨ClaimsOnce.record_stays httl h (refuses.recorded httl hclaim), ?_⟩
    rw [refuses.uow_refused, running.operations]
    simp

theorem step_unchanged (httl : wiring.idempotency = some none) (hs : ClaimsFollow s)
    (hinv : Inv wiring s) (hlocked : Locked s) (h : Step wiring x s t) (hnew : Uncontested s t)
    {d : Origin} {k : Nat} {claim : Operation J} {e : Err}
    (hmem : .refused (.attempt d k) claim e ∈ t.history) (hclaim : claim.claim? = some key)
    (j : Nat) : ¬ Appended (.attempt d j) t := by
  intro happended
  rcases h.explained hmem with hold | ⟨r, rest, running, refuses, heq⟩
  · rcases (h.uow _).appended (hinv.units _) happended with
      ⟨happended, -⟩ | ⟨r, save, rest, running, stores, happends, heq⟩
    · exact hs.unchanged d k claim e key hold hclaim j happended
    · -- the attempts of a dispatch claim one id
      obtain ⟨hrecorded, hin⟩ := hs.recorded d k claim e key hold hclaim
      have hstore : wiring.idempotency.isSome = true := by rw [httl]; rfl
      obtain ⟨task, hd, hstarted, hclaims⟩ :=
        (hinv.attempts (.attempt d k) rfl).shape.claims_eq hstore (List.ne_nil_of_mem hin)
      obtain ⟨task', hd', hstarted', hclaims'⟩ :=
        (hinv.attempts (.attempt d j) rfl).shape.claims_eq hstore
          (by rw [running.operations]; simp)
      obtain ⟨rfl, -⟩ := hlocked.tasks _ _ _ _ hstarted hstarted' (hd.trans hd'.symm)
      have hkey : key ∈ claims (s.uows (.attempt d j)).operations := by
        rw [hclaims', ← hclaims]
        exact List.mem_filterMap.mpr ⟨claim, hin, hclaim⟩
      have hfree := (hs.nobody_appended hinv hnew rfl running stores happends heq hkey).1
      rw [hrecorded] at hfree
      cases hfree
  · have hhistory : t.history = .refused (.attempt d k) claim e :: s.history :=
      heq ▸ history_refused refuses
    have hbefore : Appended (.attempt d j) s := by
      rcases (h.uow _).appended (hinv.units _) happended with
        ⟨happended, -⟩ | ⟨r, save, rest, -, stores, -, heq'⟩
      · exact happended
      · rw [heq', history_ran stores] at hhistory
        cases (List.cons.inj hhistory).1
    by_cases hj : j = k
    · subst hj
      obtain ⟨save, hexecuted⟩ :=
        (hinv.attempts (.attempt d j) rfl).shape.save_precedes running.operations hclaim
      obtain ⟨save', hsave, happends⟩ := hbefore
      rw [hexecuted, List.mem_singleton] at hsave
      subst hsave
      have hfree := hs.free _ key
        ⟨[], save', claim, rest, hexecuted, happends, running, hclaim⟩
      rw [refuses.recorded httl hclaim] at hfree
      cases hfree
    · exact hnew.refused d k claim e key hhistory hclaim j hj hbefore

theorem step (httl : wiring.idempotency = some none) (hs : ClaimsFollow s)
    (hinv : Inv wiring s) (hlocked : Locked s) (h : Step wiring x s t)
    (hnew : Uncontested s t) : ClaimsFollow t where
  free _ _ hwaits := hs.step_free httl hinv h hnew hwaits
  followed _ _ hu happended hkey := hs.step_followed httl hinv h hu happended hkey
  once _ _ _ hu hv happended happended' hkey hkey' :=
    hs.step_once hinv h hnew hu hv happended happended' hkey hkey'
  recorded _ _ _ _ _ hmem hclaim := hs.step_recorded httl hinv h hmem hclaim
  unchanged _ _ _ _ _ hmem hclaim j := hs.step_unchanged httl hinv hlocked h hnew hmem hclaim j

end ClaimsFollow

/-! ## Runs -/

section Runs

variable [JsValue J] {workload : Workload J} {q : Process J Infra}

end Runs

/-! ## Two dispatches of one command -/

namespace Sample

end Sample

theorem Waits.executed (hinv : Inv wiring s) (hwaits : Waits u key s) :
    ∃ operation, .executed u operation ∈ s.history := by
  obtain ⟨before, save, _, _, hexecuted, -⟩ := hwaits
  refine ⟨save, mem_history_of_ranIn ?_⟩
  rw [(hinv.units u).noted, hexecuted]
  simp

namespace Sample

end Sample

end Noddde
