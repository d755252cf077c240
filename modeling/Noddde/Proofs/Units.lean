import Noddde.Proofs.Observations
/-!
# The life of a unit of work

An invariant of the steps, about every unit of work, whoever owns it: how its commit
loop relates to its operations, its outcome and the history; and, for the attempts
of a dispatch, that a later attempt only starts when the earlier ones have failed.
-/

namespace Noddde

variable {J Infra : Type} (wiring : Wiring J Infra)

/-! ## Reading the history -/

namespace Obs

/-- The observation that ends the life of `u`. -/
def settles (u : UowRef) : Obs J → Bool
  | .committed v _ | .commitRejected v _ | .refused v _ _ | .rolledBack v => v = u
  | _ => false

/-- The observation belongs to the life of `u`. -/
def concerns (u : UowRef) : Obs J → Bool
  | .executed v _ => v = u
  | o => o.settles u

end Obs

theorem ranIn_append {u : UowRef} {h h' : List (Obs J)}
    (hh : ∀ o ∈ h', o.concerns u = false) : ranIn u (h' ++ h) = ranIn u h := by
  induction h' with
  | nil => rfl
  | cons o rest ih =>
      have hrest := ih fun o' ho' => hh o' (List.mem_cons_of_mem _ ho')
      have ho := hh o List.mem_cons_self
      cases o with
      | executed v operation =>
          have hne : v ≠ u := of_decide_eq_false ho
          rw [List.cons_append, ranIn, if_neg hne]
          exact hrest
      | _ => exact hrest

/-! ## One unit of work -/

/-- The state of a unit of work agrees with the history. -/
structure UnitOk (h : List (Obs J)) (u : UowRef) (uow : UnitOfWork J) (frame : Frame J) :
    Prop where
  fresh : uow.completed = false → uow.executed = [] ∧ uow.outcome = none
  ran : uow.executed <+: uow.operations
  all : uow.outcome = some true → uow.executed = uow.operations
  noted : ranIn u h = uow.executed
  settled : uow.outcome = none ↔ ∀ o ∈ h, o.settles u = false
  committed : ∀ events, .committed u events ∈ h →
    uow.outcome = some true ∧ events = uow.pendingEvents
  resolved : uow.outcome = some true → .committed u uow.pendingEvents ∈ h
  frame : frame.committed = true → uow.outcome = some true

namespace UnitOk

variable {h : List (Obs J)} {u : UowRef} {uow v : UnitOfWork J} {frame frame' : Frame J}

theorem settles_of_concerns {o : Obs J} (ho : o.concerns u = false) :
    o.settles u = false := by
  cases o with
  | executed => rfl
  | _ => exact ho

/-- Observations that are not about `u` change nothing. -/
theorem append (hu : UnitOk h u uow frame) {g : List (Obs J)}
    (hh : ∀ o ∈ g, o.concerns u = false) : UnitOk (g ++ h) u uow frame where
  fresh := hu.fresh
  ran := hu.ran
  all := hu.all
  noted := (ranIn_append hh).trans hu.noted
  settled := by
    rw [hu.settled]
    refine ⟨fun hs o ho => ?_, fun hs o ho => hs o (List.mem_append_right _ ho)⟩
    rcases List.mem_append.mp ho with ho | ho
    · exact settles_of_concerns (hh o ho)
    · exact hs o ho
  committed events hmem := by
    rcases List.mem_append.mp hmem with hmem | hmem
    · simpa [Obs.concerns, Obs.settles] using hh _ hmem
    · exact hu.committed events hmem
  resolved h := List.mem_append_right _ (hu.resolved h)
  frame := hu.frame

theorem note (hu : UnitOk h u uow frame) {o : Obs J} (ho : o.concerns u = false) :
    UnitOk (o :: h) u uow frame :=
  hu.append (g := [o]) (by simpa using ho)

theorem setFrame (hu : UnitOk h u uow frame)
    (hframe : frame'.committed = true → uow.outcome = some true) :
    UnitOk h u uow frame' :=
  { hu with frame := hframe }

theorem create (hu : UnitOk h u uow frame) :
    UnitOk h u { uow with created := true } frame :=
  { hu with }

/-- While it is open, operations and events may be added. -/
theorem contribute (hu : UnitOk h u uow frame) (hopen : uow.completed = false)
    (operations : List (Operation J)) (events : List (Event J)) :
    UnitOk h u { uow with operations := operations, pendingEvents := events } frame := by
  obtain ⟨hexecuted, houtcome⟩ := hu.fresh hopen
  refine { hu with ran := ?_, all := ?_, committed := ?_, resolved := ?_ }
  · simp [hexecuted]
  · simp [houtcome]
  · intro events' hmem
    simpa [houtcome] using (hu.committed events' hmem).1
  · simp [houtcome]

theorem committing (hu : UnitOk h u uow frame) (hopen : uow.completed = false) :
    UnitOk h u { uow with completed := true } frame := by
  obtain ⟨hexecuted, houtcome⟩ := hu.fresh hopen
  exact { hu with fresh := by simp }

theorem executed (hu : UnitOk h u uow frame) {operation : Operation J}
    {rest : List (Operation J)} (hcompleted : uow.completed = true)
    (houtcome : uow.outcome = none)
    (hloop : uow.operations = uow.executed ++ operation :: rest) :
    UnitOk (.executed u operation :: h) u
      { uow with executed := uow.executed ++ [operation] } frame where
  fresh := by simp [hcompleted]
  ran := ⟨rest, by simp [hloop]⟩
  all := by simp [houtcome]
  noted := by simp [ranIn, hu.noted]
  settled := by simpa [Obs.settles] using hu.settled
  committed events hmem := hu.committed events (by simpa using hmem)
  resolved := by simp [houtcome]
  frame := hu.frame

/-- The life of `u` ends in failure. -/
theorem fail (hu : UnitOk h u uow frame) {o : Obs J} (houtcome : uow.outcome = none)
    (hcompleted : v.completed = true) (houtcome' : v.outcome = some false)
    (hexecuted : v.executed = uow.executed)
    (hran : uow.executed <+: v.operations) (ho : o.settles u = true)
    (hnot : ∀ events, o ≠ .committed u events) :
    UnitOk (o :: h) u v frame where
  fresh := by simp [hcompleted]
  ran := by rwa [hexecuted]
  all := by simp [houtcome']
  noted := by
    rw [hexecuted, ← hu.noted]
    cases o <;> simp_all [ranIn, Obs.settles]
  settled := by simp [houtcome', ho]
  committed events hmem := by
    rcases List.mem_cons.mp hmem with hmem | hmem
    · exact absurd hmem.symm (hnot events)
    · simpa [houtcome] using (hu.committed events hmem).1
  resolved := by simp [houtcome']
  frame hframe := by simpa [houtcome] using hu.frame hframe

theorem resolve (hu : UnitOk h u uow frame) (houtcome : uow.outcome = none)
    (hcompleted : uow.completed = true) (hall : uow.executed = uow.operations) :
    UnitOk (.committed u uow.pendingEvents :: h) u { uow with outcome := some true }
      frame where
  fresh := by simp [hcompleted]
  ran := hu.ran
  all := fun _ => hall
  noted := by simpa [ranIn] using hu.noted
  settled := by simp [Obs.settles]
  committed events hmem := by
    rcases List.mem_cons.mp hmem with hmem | hmem
    · simpa using hmem
    · simpa [houtcome] using (hu.committed events hmem).1
  resolved := fun _ => List.mem_cons_self
  frame := fun _ => rfl

end UnitOk

/-! ## The attempts of a dispatch -/

def Operation.isSave : Operation J → Bool
  | .saveEvents .. | .saveState .. => true
  | _ => false

/-- The operation is a view update or an outbox write. -/
def Operation.isEffect : Operation J → Bool
  | .updateView .. | .saveOutbox _ => true
  | _ => false

theorem Effects.isEffect {wiring : Wiring J Infra} {uuids uuids' : Nat} {events : List (Event J)}
    {effects : List (Operation J)} (h : Effects wiring uuids uuids' events effects) :
    ∀ op ∈ effects, op.isEffect = true := by
  obtain ⟨views, boxes, rfl, hviews, -, hboxes⟩ := h
  intro op hop
  rcases List.mem_append.mp hop with hop | hop
  · have := hviews op hop
    cases op <;> simp_all [Operation.isViewUpdate, Operation.isEffect]
  · rcases hboxes with rfl | ⟨entries, rfl, -⟩
    · simp at hop
    · obtain rfl := List.mem_singleton.mp hop
      rfl

/-- The commit of `u` failed elsewhere than at the save of an aggregate. -/
def Disturbed (h : List (Obs J)) (u : UowRef) : Prop :=
  (∃ operation e, .refused u operation e ∈ h ∧ operation.isSave = false) ∨
    ∃ e, .commitRejected u e ∈ h

/-- An implicit unit of work holds at most one contribution. -/
def Holds (h : List (Obs J)) (u : UowRef) (uow : UnitOfWork J) : Prop :=
  uow.operations = [] ∧ uow.pendingEvents = [] ∨
    ∃ (task : Task J) (c : Contribution J), Begun task u h ∧
      .contributed task u c.loaded c.newEvents c.events ∈ h ∧
      uow.operations = c.operations wiring task ∧ uow.pendingEvents = c.events ∧
      ∀ op ∈ c.effects, op.isEffect = true

structure AttemptOk (h : List (Obs J)) (u : UowRef) (uow : UnitOfWork J) : Prop where
  shape : Holds wiring h u uow
  kept : uow.outcome = some false → uow.executed = [] ∨ Disturbed h u

theorem Holds.mono {wiring : Wiring J Infra} {u : UowRef} {h h' : List (Obs J)}
    (hh : h ⊆ h') {uow : UnitOfWork J} (hu : Holds wiring h u uow) : Holds wiring h' u uow := by
  refine hu.imp id ?_
  rintro ⟨task, c, ⟨hstarted, hattempt⟩, hcontributed, hrest⟩
  exact ⟨task, c, ⟨hh hstarted, hattempt⟩, hh hcontributed, hrest⟩

theorem Disturbed.mono {u : UowRef} {h h' : List (Obs J)} (hh : h ⊆ h') (hu : Disturbed h u) :
    Disturbed h' u := by
  rcases hu with ⟨operation, e, hmem, hsave⟩ | ⟨e, hmem⟩
  · exact .inl ⟨operation, e, hh hmem, hsave⟩
  · exact .inr ⟨e, hh hmem⟩

/-- In an attempt, the save comes first. -/
theorem Holds.eq_nil_of_isSave {wiring : Wiring J Infra} {u : UowRef} {h : List (Obs J)} {uow : UnitOfWork J}
    (hu : Holds wiring h u uow) {operation : Operation J} {before rest : List (Operation J)}
    (hops : uow.operations = before ++ operation :: rest)
    (hsave : operation.isSave = true) : before = [] := by
  rcases hu with ⟨hu, -⟩ | ⟨task, c, -, -, hu, -, heffects⟩
  · simp [hu] at hops
  · cases before with
    | nil => rfl
    | cons first before =>
        have htail : ∀ op ∈ (c.operations wiring task).tail, op.isSave = false := by
          intro op hop
          have heffect : op ∈ c.effects → op.isSave = false := fun hop => by
            have := heffects op hop
            cases op <;> simp_all [Operation.isEffect, Operation.isSave]
          unfold Contribution.operations claimsOf at hop
          split at hop
          · simp only [List.cons_append, List.nil_append, List.tail_cons,
              List.mem_cons] at hop
            rcases hop with rfl | hop
            · rfl
            · exact heffect hop
          · exact heffect (by simpa using hop)
        have hmem : operation ∈ (c.operations wiring task).tail := by
          rw [← hu, hops]
          simp
        simp [htail operation hmem] at hsave

/-! ## What a step does to one unit of work -/

/-- The observations of a step that are new do not belong to the life of `u`. -/
def Spares (u : UowRef) (s t : World J) : Prop :=
  ∃ new, t.history = new ++ s.history ∧ ∀ o ∈ new, o.concerns u = false

/-- All that a step can do to the record of `u`. -/
inductive UowChange (u : UowRef) (s t : World J) : Prop
  | same (uow : t.uows u = s.uows u) (spares : Spares u s t)
      (frame : (t.frames u).committed = true →
        (s.frames u).committed = true ∨ (s.uows u).outcome = some true)
  | created (creates : Creates wiring u s)
      (uow : t.uows u = { s.uows u with created := true }) (history : t.history = s.history)
      (frame : t.frames u = s.frames u)
  | contributed {task : Task J} {c : Contribution J} {uuids : Nat}
      (contributes : Contributes wiring task u c uuids s)
      (eq : t = s.contributed wiring task u c uuids)
  | enlistedSaga {n : Nat} {sagaName : String} {sagaId : ID} {state : J}
      {expectedVersion : Nat} (saga : u = .saga n) (isOpen : (s.uows u).completed = false)
      (eq : t = s.enlistAll u none [.saveSaga sagaName sagaId state expectedVersion])
  | committing (isOpen : (s.uows u).completed = false)
      (implicit : u.implicit = true → (s.uows u).operations ≠ [])
      (explicit : u.implicit = false → .fnSettled u none ∈ s.history)
      (eq : t = s.committing u)
  | ran {r : World J} {operation : Operation J} {rest : List (Operation J)}
      (running : Running u (operation :: rest) s) (stores : Stores wiring operation s r)
      (eq : t = r.ran u operation)
  | refused {r : World J} {operation : Operation J} {e : Err} {rest : List (Operation J)}
      (running : Running u (operation :: rest) s) (refuses : Refuses wiring operation e s r)
      (eq : t = r.refused u operation e)
  | committed (running : Running u [] s) (eq : t = s.committed u)
  | commitRejected {e : Err} (running : Running u [] s)
      (mayReject : wiring.transactionMayReject = true) (eq : t = s.commitRejected u e)
  | rolledBack (isOpen : (s.uows u).completed = false)
      (explicit : u.implicit = false → ∃ e, .fnSettled u (some e) ∈ s.history)
      (eq : t = s.rolledBack u)

variable {wiring} {x : Subject} {u : UowRef} {s t : World J}

theorem Obs.subject_of_concerns {o : Obs J} (h : o.concerns u = true) :
    o.subject = some (.unit u) := by
  cases o with
  | executed v =>
      obtain rfl : v = u := of_decide_eq_true h
      rfl
  | refused v =>
      obtain rfl : v = u := of_decide_eq_true h
      rfl
  | committed v =>
      obtain rfl : v = u := of_decide_eq_true h
      rfl
  | commitRejected v =>
      obtain rfl : v = u := of_decide_eq_true h
      rfl
  | rolledBack v =>
      obtain rfl : v = u := of_decide_eq_true h
      rfl
  | _ => cases h

theorem Spares.of_adds (h : Adds x s t) (hx : x ≠ .unit u) : Spares u s t := by
  obtain ⟨new, hnew, hsubject⟩ := h
  refine ⟨new, hnew, fun o ho => ?_⟩
  by_contra hconcerns
  have hu := Obs.subject_of_concerns (Bool.not_eq_false _ ▸ hconcerns)
  rcases hsubject o ho with h | h
  · rw [hu] at h
    exact hx (Option.some.inj h).symm
  · simp [hu] at h

theorem Spares.of_eq (h : t.history = s.history) : Spares u s t := ⟨[], h, by simp⟩

theorem Spares.of_note {o : Obs J} (h : t.history = o :: s.history)
    (ho : o.concerns u = false) : Spares u s t :=
  ⟨[o], h, by simpa using ho⟩

theorem Spares.trans {v : World J} (hst : Spares u s t) (htv : Spares u t v) :
    Spares u s v := by
  obtain ⟨new, hnew, hnot⟩ := hst
  obtain ⟨new', hnew', hnot'⟩ := htv
  refine ⟨new' ++ new, by rw [hnew', hnew, List.append_assoc], fun o ho => ?_⟩
  exact (List.mem_append.mp ho).elim (hnot' o) (hnot o)

theorem Locker.release_spares (ticket : Ticket) (aggregateName : String) (aggregateId : ID)
    (s : World J) : Spares u s (release ticket aggregateName aggregateId s).2 := by
  unfold release
  dsimp only
  split
  · exact .of_note rfl rfl
  · split
    · exact ⟨[_, _], rfl, by simp [Obs.concerns, Obs.settles]⟩
    · exact .of_note rfl rfl

theorem Justified.concerns [JsValue J] {o : Obs J} (h : Justified wiring s o) :
    o.concerns u = false := by
  cases o with
  | executed => exact h.elim
  | refused => exact h.elim
  | committed => exact h.elim
  | commitRejected => exact h.elim
  | rolledBack => exact h.elim
  | _ => rfl

theorem Step.uow [JsValue J] (h : Step wiring x s t) (u : UowRef) : UowChange wiring u s t := by
  by_cases hx : x = .unit u
  · subst hx
    have same : ∀ {t : World J}, t.uows = s.uows → t.frames = s.frames → Spares u s t →
        UowChange wiring u s t := fun huows hframes hspares =>
      .same (by rw [huows]) hspares (by rw [hframes]; exact .inl)
    generalize hx : Subject.unit u = x at h
    cases h with
    | idle => exact same rfl rfl (.of_eq rfl)
    | noted _ justified => exact same rfl rfl (.of_note rfl justified.concerns)
    | checked => cases hx
    | drawn => exact same rfl rfl (.of_eq rfl)
    | created creates =>
        obtain rfl := Subject.unit.inj hx
        exact .created creates (World.uows_setUow_self _ _) rfl rfl
    | @contributed _ task v _ _ contributes =>
        have hu : u = v := by
          unfold Subject.lifecycle at hx
          split at hx
          · exact Subject.unit.inj hx
          · cases hx
        subst hu
        exact .contributed contributes rfl
    | enlistedSaga isOpen =>
        obtain rfl := Subject.unit.inj hx
        exact .enlistedSaga rfl isOpen rfl
    | committing isOpen implicit explicit =>
        obtain rfl := Subject.unit.inj hx
        exact .committing isOpen implicit explicit rfl
    | ran running stores =>
        obtain rfl := Subject.unit.inj hx
        exact .ran running stores rfl
    | refused running refuses =>
        obtain rfl := Subject.unit.inj hx
        exact .refused running refuses rfl
    | committed running =>
        obtain rfl := Subject.unit.inj hx
        exact .committed running rfl
    | commitRejected running mayReject =>
        obtain rfl := Subject.unit.inj hx
        exact .commitRejected running mayReject rfl
    | rolledBack isOpen explicit =>
        obtain rfl := Subject.unit.inj hx
        exact .rolledBack isOpen explicit rfl
    | savedSnapshot => exact same rfl rfl (.of_eq rfl)
    | registeredSnapshot => cases hx
    | registeredRelease => cases hx
    | entered => cases hx
    | timedOut => cases hx
    | released => cases hx
    | claimedHooks =>
        obtain rfl := Subject.unit.inj hx
        exact .same rfl (.of_eq rfl) (by simpa [World.setFrame] using .inl)
    | tookHooks =>
        obtain rfl := Subject.unit.inj hx
        refine .same rfl (.of_note rfl rfl) ?_
        simpa [takeHooks, World.note, World.setFrame, World.setHooks] using .inl
    | @ranSnapshotHook _ v aggregateName aggregateId snapshot saved =>
        obtain rfl := Subject.unit.inj hx
        cases saved
        · refine .same rfl (.of_note (o := .hookRan u _ none) rfl rfl) ?_
          simpa [World.hookEnded, World.note, World.setFrame] using .inl
        · refine .same rfl (.of_note (o := .hookRan u _ none) rfl rfl) ?_
          simpa [World.hookEnded, World.savedSnapshot, World.note, World.setFrame] using .inl
    | @ranReleaseHook _ v ticket aggregateName aggregateId =>
        obtain rfl := Subject.unit.inj hx
        obtain ⟨locks, history, h⟩ := Locker.release_eq ticket aggregateName aggregateId s
        have hspares := (Locker.release_spares ticket aggregateName aggregateId s).trans
          (.of_note (t := World.hookEnded u (.release ticket aggregateName aggregateId) _)
            (u := u) rfl rfl)
        rw [h] at hspares ⊢
        refine .same rfl hspares ?_
        simpa [World.hookEnded, World.note, World.setFrame] using .inl
    | setCommitted outcome =>
        obtain rfl := Subject.unit.inj hx
        exact .same rfl (.of_eq rfl) fun _ => .inr outcome
    | markedBatch => exact same rfl rfl (.of_eq rfl)
    | markedEntry => cases hx
    | polling => cases hx
  · obtain ⟨hframe, huow | ⟨-, task, c, uuids, hcontributes, heq⟩⟩ := h.elsewhere hx
    · exact .same huow (.of_adds h.adds hx) (by rw [hframe]; exact .inl)
    · exact .contributed hcontributes heq

/-! ## Consequences for one unit of work -/

namespace UowChange

theorem spares_contributed (task : Task J) (c : Contribution J) (uuids : Nat) (v : UowRef) :
    Spares v s (s.contributed wiring task u c uuids) := by
  refine ⟨_, World.history_contributed wiring .., fun o ho => ?_⟩
  simp only [contributionNotes, List.mem_append, List.mem_reverse, List.mem_map,
    List.mem_cons] at ho
  rcases ho with ⟨_, _, rfl⟩ | rfl | ⟨_, _, rfl⟩ <;> rfl

theorem unitOk (h : UowChange wiring u s t)
    (hs : UnitOk s.history u (s.uows u) (s.frames u)) :
    UnitOk t.history u (t.uows u) (t.frames u) := by
  cases h with
  | same uow spares frame =>
      obtain ⟨new, hnew, hspares⟩ := spares
      rw [uow, hnew]
      refine (hs.setFrame fun hframe => ?_).append hspares
      exact (frame hframe).elim hs.frame id
  | created _ uow history frame =>
      rw [uow, history, frame]
      exact hs.create
  | @contributed task c uuids contributes eq =>
      subst eq
      obtain ⟨new, hnew, hspares⟩ := spares_contributed (s := s) (u := u) task c uuids u
      rw [hnew, World.uows_contributed, Function.update_self]
      exact (hs.contribute contributes.isOpen _ _).append hspares
  | enlistedSaga _ isOpen eq =>
      subst eq
      simpa [World.enlistAll] using (hs.contribute isOpen _ _).note (o := .enlisted u none _) rfl
  | committing isOpen _ _ eq =>
      subst eq
      rw [World.uow_committing]
      exact hs.committing isOpen
  | @ran r operation rest running stores eq =>
      subst eq
      have hcontrol := stores.control
      show UnitOk (.executed u operation :: r.history) u _ (r.frames u)
      rw [stores.uow_ran, hcontrol.history, hcontrol.frames]
      exact hs.executed running.completed running.outcome running.operations
  | @refused r operation e rest running refuses eq =>
      subst eq
      have hcontrol := refuses.control
      show UnitOk (.refused u operation e :: r.history) u _ (r.frames u)
      rw [refuses.uow_refused, hcontrol.history, hcontrol.frames]
      exact hs.fail running.outcome running.completed rfl rfl hs.ran (by simp [Obs.settles])
        (by simp)
  | committed running eq =>
      subst eq
      rw [World.uow_committed]
      exact hs.resolve running.outcome running.completed
        (by simpa using running.operations.symm)
  | @commitRejected e running _ eq =>
      subst eq
      rw [World.uow_commitRejected]
      exact hs.fail running.outcome running.completed rfl rfl hs.ran (by simp [Obs.settles])
        (by simp)
  | rolledBack isOpen _ eq =>
      subst eq
      obtain ⟨hexecuted, houtcome⟩ := hs.fresh isOpen
      rw [World.uow_rolledBack]
      exact hs.fail houtcome rfl rfl rfl (by simp [hexecuted]) (by simp [Obs.settles]) (by simp)

theorem outcome (h : UowChange wiring u s t)
    (hs : UnitOk s.history u (s.uows u) (s.frames u)) {b : Bool}
    (hb : (s.uows u).outcome = some b) : (t.uows u).outcome = some b := by
  have hopen : (s.uows u).completed = false → False := fun hopen => by
    simp [(hs.fresh hopen).2] at hb
  cases h with
  | same uow => rw [uow, hb]
  | created _ uow => rw [uow]; exact hb
  | contributed contributes => exact (hopen contributes.isOpen).elim
  | enlistedSaga _ isOpen => exact (hopen isOpen).elim
  | committing isOpen => exact (hopen isOpen).elim
  | ran running => simp [running.outcome] at hb
  | refused running => simp [running.outcome] at hb
  | committed running => simp [running.outcome] at hb
  | commitRejected running => simp [running.outcome] at hb
  | rolledBack isOpen => exact (hopen isOpen).elim

theorem creates (h : UowChange wiring u s t) (ht : (t.uows u).created = true) :
    (s.uows u).created = true ∨ Creates wiring u s ∧ t.history = s.history := by
  cases h with
  | same uow => rw [uow] at ht; exact .inl ht
  | created creates _ history => exact .inr ⟨creates, history⟩
  | contributed _ eq =>
      subst eq
      rw [World.uows_contributed, Function.update_self] at ht
      exact .inl ht
  | enlistedSaga _ _ eq => subst eq; exact .inl (by simpa [World.enlistAll] using ht)
  | committing _ _ _ eq =>
      subst eq
      rw [World.uow_committing] at ht
      exact .inl ht
  | ran _ stores eq =>
      subst eq
      rw [stores.uow_ran] at ht
      exact .inl ht
  | refused _ refuses eq =>
      subst eq
      rw [refuses.uow_refused] at ht
      exact .inl ht
  | committed _ eq =>
      subst eq
      rw [World.uow_committed] at ht
      exact .inl ht
  | commitRejected _ _ eq =>
      subst eq
      rw [World.uow_commitRejected] at ht
      exact .inl ht
  | rolledBack _ _ eq =>
      subst eq
      rw [World.uow_rolledBack] at ht
      exact .inl ht

end UowChange

theorem UowChange.attemptOk (h : UowChange wiring u s t) (hu : u.implicit = true)
    (hgrows : s.history ⊆ t.history) (hunit : UnitOk s.history u (s.uows u) (s.frames u))
    (hs : AttemptOk wiring s.history u (s.uows u)) :
    AttemptOk wiring t.history u (t.uows u) := by
  have hlater : ∀ {uow : UnitOfWork J}, uow.operations = (s.uows u).operations →
      uow.pendingEvents = (s.uows u).pendingEvents → Holds wiring t.history u uow := by
    intro uow hops hpending
    have hshape := hs.shape.mono hgrows
    unfold Holds at hshape ⊢
    rwa [hops, hpending]
  cases h with
  | same uow =>
      rw [uow]
      exact ⟨hlater rfl rfl, fun h => (hs.kept h).imp id fun h => h.mono hgrows⟩
  | created _ uow =>
      rw [uow]
      exact ⟨hlater rfl rfl, fun h => (hs.kept h).imp id fun h => h.mono hgrows⟩
  | @contributed task c uuids contributes eq =>
      subst eq
      rw [World.uows_contributed, Function.update_self]
      obtain ⟨hops, hpending⟩ := contributes.first hu
      obtain ⟨hstarted, hattempt⟩ := contributes.begun
      refine ⟨.inr ⟨task, c, ⟨hgrows hstarted, hattempt⟩, ?_, by simp [hops],
        by simp [hpending], ?_⟩, fun h => ?_⟩
      · rw [World.history_contributed]
        simp [contributionNotes]
      · obtain ⟨k, -, -, heffects⟩ := contributes.computed.batch
        exact heffects.isEffect
      · simp [(hunit.fresh contributes.isOpen).2] at h
  | enlistedSaga saga => subst saga; simp [UowRef.implicit] at hu
  | committing isOpen _ _ eq =>
      subst eq
      rw [World.uow_committing]
      exact ⟨hlater rfl rfl, fun h => by simp [(hunit.fresh isOpen).2] at h⟩
  | @ran r operation _ running stores eq =>
      subst eq
      rw [stores.uow_ran]
      exact ⟨hlater rfl rfl, fun h => by simp [running.outcome] at h⟩
  | @refused r operation e rest running refuses eq =>
      subst eq
      rw [refuses.uow_refused]
      refine ⟨hlater rfl rfl, fun _ => ?_⟩
      cases hsave : operation.isSave with
      | false => exact .inr (.inl ⟨operation, e, List.mem_cons_self, hsave⟩)
      | true => exact .inl (hs.shape.eq_nil_of_isSave running.operations hsave)
  | committed running eq =>
      subst eq
      rw [World.uow_committed]
      exact ⟨hlater rfl rfl, fun h => by cases h⟩
  | @commitRejected e running mayReject eq =>
      subst eq
      rw [World.uow_commitRejected]
      exact ⟨hlater rfl rfl, fun _ => .inr (.inr ⟨e, List.mem_cons_self⟩)⟩
  | rolledBack isOpen _ eq =>
      subst eq
      rw [World.uow_rolledBack]
      exact ⟨.inl ⟨rfl, rfl⟩, fun _ => .inl (hunit.fresh isOpen).1⟩

/-! ## What a step does to the completion hooks of one unit of work -/

/-- The observation is about the completion hooks of `u`. -/
def Obs.hooks (u : UowRef) : Obs J → Bool
  | .registered v _ _ | .hooksTaken v _ _ _ | .hookRan v _ none => v = u
  | _ => false

/-- All that a step can do to the completion hooks of `u`. -/
inductive HookChange (wiring : Wiring J Infra) (u : UowRef) (s t : World J) : Prop
  | same (hooks : t.hooks u = s.hooks u)
      (running : (t.frames u).running = (s.frames u).running)
      (hooksRan : (t.frames u).hooksRan = (s.frames u).hooksRan)
      (spares : ∃ new, t.history = new ++ s.history ∧ ∀ o ∈ new, o.hooks u = false)
  | registeredSnapshot {task : Task J} {pending : PendingSnapshot J}
      (explicit : u.implicit = false) (begun : Begun task u s.history)
      (asked : Pending wiring task u pending s.history)
      (eq : t = (onUowCommitted u task.dispatch (.saveSnapshot pending.aggregateName
        pending.aggregateId pending.snapshot) s).2)
  | registeredRelease {task : Task J} (begun : .started task (some u) ∈ s.history)
      (granted : Granted ⟨task.dispatch, some u⟩ task.key s.history)
      (first : ¬ ReleaseRegistered task u s.history)
      (eq : t = (onUowSettled u task.dispatch (.release ⟨task.dispatch, some u⟩
        task.aggregateName task.aggregateId) s).2)
  | claimed (first : (s.frames u).hooksRan = false) (outcome : (s.uows u).outcome ≠ none)
      (eq : t = s.setFrame u fun frame => { frame with hooksRan := true })
  | took {ambient : Ambient} {committed : Bool} (outside : ambient.uow ≠ some u)
      (claimed : (s.frames u).hooksRan = true) (outcome : (s.uows u).outcome = some committed)
      (first : ∀ committed within hooks, .hooksTaken u committed within hooks ∉ s.history)
      (eq : t = (takeHooks ambient u committed s).2)
  | ranSnapshotHook {aggregateName : String} {aggregateId : ID} {snapshot : Snapshot J}
      {saved : Bool}
      (running : (s.frames u).running.head? =
        some (.saveSnapshot aggregateName aggregateId snapshot))
      (eq : t = (if saved then s.savedSnapshot aggregateName aggregateId snapshot
        else s).hookEnded u (.saveSnapshot aggregateName aggregateId snapshot))
  | ranReleaseHook {ticket : Ticket} {aggregateName : String} {aggregateId : ID}
      (joined : ticket.uow = some u)
      (running : (s.frames u).running.head? =
        some (.release ticket aggregateName aggregateId))
      (eq : t = (Locker.release ticket aggregateName aggregateId s).2.hookEnded u
        (.release ticket aggregateName aggregateId))

theorem Locker.enter_hooks (ticket : Ticket) (aggregateName : String) (aggregateId : ID)
    (s : World J) : ∃ new, (enter ticket aggregateName aggregateId s).2.history =
      new ++ s.history ∧ ∀ o ∈ new, o.hooks u = false := by
  unfold enter
  dsimp only
  split
  · exact ⟨[_, _], rfl, by simp [Obs.hooks]⟩
  · exact ⟨[_], rfl, by simp [Obs.hooks]⟩

theorem Locker.release_hooks (ticket : Ticket) (aggregateName : String) (aggregateId : ID)
    (s : World J) : ∃ new, (release ticket aggregateName aggregateId s).2.history =
      new ++ s.history ∧ ∀ o ∈ new, o.hooks u = false := by
  unfold release
  dsimp only
  split
  · exact ⟨[_], rfl, by simp [Obs.hooks]⟩
  · split
    · exact ⟨[_, _], rfl, by simp [Obs.hooks]⟩
    · exact ⟨[_], rfl, by simp [Obs.hooks]⟩

theorem Justified.hooks [JsValue J] {o : Obs J} (h : Justified wiring s o) : o.hooks u = false := by
  cases o with
  | hookRan v hook error => cases error <;> simp_all [Justified, Obs.hooks]
  | registered => exact h.elim
  | hooksTaken => exact h.elim
  | _ => rfl

theorem Step.hooks [JsValue J] (h : Step wiring x s t) (u : UowRef) : HookChange wiring u s t := by
  have same : ∀ {t : World J}, t.hooks = s.hooks → t.frames = s.frames →
      (∃ new, t.history = new ++ s.history ∧ ∀ o ∈ new, o.hooks u = false) →
      HookChange wiring u s t := fun hhooks hframes hspares =>
    .same (by rw [hhooks]) (by rw [hframes]) (by rw [hframes]) hspares
  have other : ∀ {v : UowRef} {t : World J}, u ≠ v → t.hooks u = s.hooks u →
      t.frames u = s.frames u →
      (∃ new, t.history = new ++ s.history ∧ ∀ o ∈ new, o.hooks u = false) →
      HookChange wiring u s t := fun _ hhooks hframes hspares =>
    .same hhooks (by rw [hframes]) (by rw [hframes]) hspares
  cases h with
  | idle => exact same rfl rfl ⟨[], rfl, by simp⟩
  | noted _ justified => exact same rfl rfl ⟨[_], rfl, by simpa using justified.hooks⟩
  | checked =>
      unfold World.checked
      dsimp only
      split
      · exact same rfl rfl ⟨[_], rfl, by simp [Obs.hooks]⟩
      · exact same rfl rfl ⟨[], rfl, by simp⟩
  | drawn => exact same rfl rfl ⟨[], rfl, by simp⟩
  | created => exact same rfl rfl ⟨[], rfl, by simp⟩
  | contributed =>
      refine same rfl rfl ⟨_, World.history_contributed wiring .., fun o ho => ?_⟩
      simp only [contributionNotes, List.mem_append, List.mem_reverse, List.mem_map,
        List.mem_cons] at ho
      rcases ho with ⟨_, _, rfl⟩ | rfl | ⟨_, _, rfl⟩ <;> rfl
  | enlistedSaga => exact same rfl rfl ⟨[_], rfl, by simp [Obs.hooks]⟩
  | committing => exact same rfl rfl ⟨[], rfl, by simp⟩
  | @ran _ r v operation _ _ stores =>
      have hcontrol := stores.control
      exact same hcontrol.hooks hcontrol.frames
        ⟨[.executed v operation], by rw [← hcontrol.history]; rfl, by simp [Obs.hooks]⟩
  | @refused _ r v operation e _ _ refuses =>
      have hcontrol := refuses.control
      exact same hcontrol.hooks hcontrol.frames
        ⟨[.refused v operation e], by rw [← hcontrol.history]; rfl, by simp [Obs.hooks]⟩
  | committed => exact same rfl rfl ⟨[_], rfl, by simp [Obs.hooks]⟩
  | commitRejected => exact same rfl rfl ⟨[_], rfl, by simp [Obs.hooks]⟩
  | rolledBack => exact same rfl rfl ⟨[_], rfl, by simp [Obs.hooks]⟩
  | savedSnapshot => exact same rfl rfl ⟨[], rfl, by simp⟩
  | @registeredSnapshot _ task v pending explicit begun asked =>
      by_cases huv : u = v
      · subst huv
        exact .registeredSnapshot explicit begun asked rfl
      · refine other huv ?_ rfl ⟨[_], rfl, by simp [Obs.hooks, Ne.symm huv]⟩
        exact Function.update_of_ne huv _ _
  | @registeredRelease _ task v begun granted first =>
      by_cases huv : u = v
      · subst huv
        exact .registeredRelease begun granted first rfl
      · refine other huv ?_ rfl ⟨[_], rfl, by simp [Obs.hooks, Ne.symm huv]⟩
        exact Function.update_of_ne huv _ _
  | @entered _ task uow =>
      obtain ⟨_, _, h⟩ := Locker.enter_eq ⟨task.dispatch, uow⟩ task.aggregateName
        task.aggregateId s
      refine same ?_ ?_ (Locker.enter_hooks ..)
      · rw [h]
      · rw [h]
  | timedOut => exact same rfl rfl ⟨[_], rfl, by simp [Obs.hooks]⟩
  | @released _ task =>
      obtain ⟨_, _, h⟩ := Locker.release_eq ⟨task.dispatch, none⟩ task.aggregateName
        task.aggregateId s
      refine same ?_ ?_ (Locker.release_hooks ..)
      · rw [h]
      · rw [h]
  | @claimedHooks _ v first outcome =>
      by_cases huv : u = v
      · subst huv
        exact .claimed first outcome rfl
      · exact other huv rfl (Function.update_of_ne huv _ _) ⟨[], rfl, by simp⟩
  | @tookHooks _ v ambient committed outside claimed outcome first =>
      by_cases huv : u = v
      · subst huv
        exact .took outside claimed outcome first rfl
      · exact other huv (Function.update_of_ne huv _ _) (Function.update_of_ne huv _ _)
          ⟨[_], rfl, by simp [Obs.hooks, Ne.symm huv]⟩
  | @ranSnapshotHook _ v aggregateName aggregateId snapshot saved turn =>
      by_cases huv : u = v
      · subst huv
        exact .ranSnapshotHook turn.head rfl
      · cases saved <;> exact other huv rfl (Function.update_of_ne huv _ _)
          ⟨[.hookRan v _ none], rfl, by simp [Obs.hooks, Ne.symm huv]⟩
  | @ranReleaseHook _ v ticket aggregateName aggregateId joined turn =>
      by_cases huv : u = v
      · subst huv
        exact .ranReleaseHook joined turn.head rfl
      · obtain ⟨_, _, h⟩ := Locker.release_eq ticket aggregateName aggregateId s
        obtain ⟨new, hnew, hnot⟩ := Locker.release_hooks (u := u) ticket aggregateName
          aggregateId s
        rw [h] at hnew ⊢
        refine other huv rfl (Function.update_of_ne huv _ _)
          ⟨.hookRan v _ none :: new, congrArg _ hnew, ?_⟩
        simpa [Obs.hooks, Ne.symm huv] using hnot
  | @setCommitted _ v =>
      by_cases huv : u = v
      · subst huv
        exact .same rfl (by simp [World.setFrame]) (by simp [World.setFrame])
          ⟨[], rfl, by simp⟩
      · exact other huv rfl (Function.update_of_ne huv _ _) ⟨[], rfl, by simp⟩
  | markedBatch => exact same rfl rfl ⟨[], rfl, by simp⟩
  | markedEntry => exact same rfl rfl ⟨[], rfl, by simp⟩
  | polling => exact same rfl rfl ⟨[], rfl, by simp⟩

end Noddde
