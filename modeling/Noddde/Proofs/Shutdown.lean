import Noddde.Engine.Shutdown
import Mathlib.Data.List.Nodup
import Mathlib.Tactic.Common
/-!
# The shutdown protocol

The count of the domain is the number of accepted operations that have not
settled, and the shutdown sequence closes nothing before that number is zero or
its timer has fired.  The timer waits for the timeout as long as `setTimeout` can wait
that long, and there is one sequence as long as no call of `shutdown` is made from
within the first one.
-/

namespace Noddde.Shutdown

/-- An observation other than an acceptance or a settlement. -/
def Observation.Neutral (o : Observation) : Prop :=
  (∀ id caller method, o ≠ .accepted id caller method) ∧ ∀ id outcome, o ≠ .settled id outcome

namespace Domain

def Unsettled (domain : Domain) (id : Nat) : Prop :=
  (∃ caller method, .accepted id caller method ∈ domain.history) ∧
    ∀ outcome, .settled id outcome ∉ domain.history

structure Counted (domain : Domain) : Prop where
  nodup : (domain.running.map Operation.id).Nodup
  accepted_lt : ∀ {id caller method}, .accepted id caller method ∈ domain.history →
    id < domain.accepted
  settled_lt : ∀ {id outcome}, .settled id outcome ∈ domain.history → id < domain.accepted
  unsettled : ∀ id, id ∈ domain.running.map Operation.id ↔ domain.Unsettled id
  count : domain.activeOperations = domain.running.length

/-- The timer of a drain has fired. -/
def TimedOut (domain : Domain) : Prop :=
  ∃ i sequence, domain.sequences i = some sequence ∧ sequence.timedOut = true

/-- The timeout that a call of `shutdown` was given has elapsed. -/
def Elapsed (domain : Domain) : Prop :=
  ∃ i < domain.performed, ∃ sequence ∈ domain.sequences i,
    sequence.deadline.ElapsedAt domain.now

instance (domain : Domain) : Decidable domain.Elapsed :=
  inferInstanceAs (Decidable (∃ i < _, _))

/-- Bookkeeping of the shutdown: what is known of a sequence that runs. -/
structure Draining (domain : Domain) (i : Nat) (sequence : Sequence) : Prop where
  lt : i < domain.performed
  stopped : domain.shuttingDown = true
  drained : sequence.drained = true → domain.running = []
  passed : sequence.phase ≠ .drainingOperations →
    domain.running = [] ∨ sequence.timedOut = true

structure Inv (domain : Domain) : Prop where
  counted : domain.Counted
  draining : ∀ {i sequence}, domain.sequences i = some sequence → domain.Draining i sequence
  before : domain.shuttingDown = false →
    domain.performed = 0 ∧ domain.shutdownPromise = none ∧ domain.returned = [] ∧
      domain.starting = []
  closed : domain.closed ≠ [] →
    domain.shuttingDown = true ∧ (domain.running = [] ∨ domain.TimedOut)

/-! ## What the parts of a step do -/

variable {domain : Domain} {infrastructure : Infrastructure}

/-- What the release of an operation does to a sequence: it may mark it as
drained, if the count is then zero. -/
def Marks (domain : Domain) (mark : Sequence → Sequence) : Prop :=
  ∀ sequence, mark sequence = sequence ∨
    mark sequence = { sequence with drained := true } ∧ domain.activeOperations = 1

theorem Marks.id (domain : Domain) : domain.Marks fun sequence => sequence :=
  fun _ => .inl rfl

theorem releaseOperation_cases (domain : Domain) :
    ∃ mark : Nat → Sequence → Sequence, (∀ i, domain.Marks (mark i)) ∧
      domain.releaseOperation =
        { domain with
          activeOperations := domain.activeOperations - 1
          sequences := fun i => (domain.sequences i).map (mark i) } := by
  unfold releaseOperation
  cases hresolve : domain.drainResolve with
  | none => exact ⟨fun _ sequence => sequence, fun _ => Marks.id domain, by simp⟩
  | some k =>
      simp only
      split_ifs with hzero
      · refine ⟨fun i sequence => if i = k then { sequence with drained := true } else sequence,
          fun i sequence => ?_, ?_⟩
        · by_cases hi : i = k
          · exact .inr ⟨if_pos hi, by omega⟩
          · exact .inl (if_neg hi)
        · simp only [setSequence]
          congr 1
          funext i
          by_cases hi : i = k
          · subst hi
            simp
          · simp [hi]
      · exact ⟨fun _ sequence => sequence, fun _ => Marks.id domain, by simp⟩

/-- A settlement lowers the counter, and may resolve the drain promise. -/
theorem settle_cases (domain : Domain) (id : Nat) (outcome : Outcome) :
    ∃ mark : Nat → Sequence → Sequence, (∀ i, domain.Marks (mark i)) ∧
      domain.settle id outcome =
        { domain with
          activeOperations := domain.activeOperations - 1
          sequences := fun i => (domain.sequences i).map (mark i)
          running := domain.running.filter fun operation => operation.id ≠ id
          history := .settled id outcome :: domain.history } := by
  obtain ⟨mark, hmark, hrelease⟩ := releaseOperation_cases
    { domain with running := domain.running.filter fun operation => operation.id ≠ id }
  refine ⟨mark, hmark, ?_⟩
  simp only [settle, hrelease, note]

theorem length_running_filter (hnodup : (domain.running.map Operation.id).Nodup) {id : Nat}
    (hid : id ∈ domain.running.map Operation.id) :
    (domain.running.filter fun operation => operation.id ≠ id).length + 1 =
      domain.running.length := by
  generalize domain.running = running at hnodup hid
  induction running with
  | nil => simp at hid
  | cons operation rest ih =>
      rw [List.map_cons, List.nodup_cons] at hnodup
      by_cases h : operation.id = id
      · have hrest : rest.filter (fun operation => operation.id ≠ id) = rest := by
          apply List.filter_eq_self.mpr
          intro other hother
          have hne : other.id ≠ id := fun heq =>
            hnodup.1 (h ▸ heq ▸ List.mem_map_of_mem hother)
          simpa using hne
        rw [List.filter_cons_of_neg (by simpa using h), hrest, List.length_cons]
      · have hid' : id ∈ rest.map Operation.id := by
          rw [List.map_cons, List.mem_cons] at hid
          exact hid.resolve_left fun heq => h heq.symm
        rw [List.filter_cons_of_pos (by simpa using h), List.length_cons, List.length_cons,
          ih hnodup.2 hid']

theorem mem_ids_filter {id other : Nat} :
    other ∈ (domain.running.filter fun operation => operation.id ≠ id).map Operation.id ↔
      other ∈ domain.running.map Operation.id ∧ other ≠ id := by
  simp only [List.mem_map, List.mem_filter, decide_eq_true_eq]
  constructor
  · rintro ⟨operation, ⟨hmem, hne⟩, rfl⟩
    exact ⟨⟨operation, hmem, rfl⟩, hne⟩
  · rintro ⟨⟨operation, hmem, rfl⟩, hne⟩
    exact ⟨operation, ⟨hmem, hne⟩, rfl⟩

theorem Unsettled.note_iff {o : Observation} (ho : o.Neutral) (id : Nat) :
    (domain.note o).Unsettled id ↔ domain.Unsettled id := by
  have haccepted : ∀ caller method, Observation.accepted id caller method ≠ o :=
    fun caller method h => ho.1 id caller method h.symm
  have hsettled : ∀ outcome, Observation.settled id outcome ≠ o :=
    fun outcome h => ho.2 id outcome h.symm
  simp [Unsettled, note, haccepted, hsettled]

theorem Inv.note (h : domain.Inv) {o : Observation} (ho : o.Neutral) : (domain.note o).Inv where
  counted :=
    { nodup := h.counted.nodup
      accepted_lt := fun hmem => h.counted.accepted_lt
        ((List.mem_cons.mp hmem).resolve_left fun heq => ho.1 _ _ _ heq.symm)
      settled_lt := fun hmem => h.counted.settled_lt
        ((List.mem_cons.mp hmem).resolve_left fun heq => ho.2 _ _ heq.symm)
      unsettled := fun id => (h.counted.unsettled id).trans (Unsettled.note_iff ho id).symm
      count := h.counted.count }
  draining hsequence :=
    ⟨(h.draining hsequence).lt, (h.draining hsequence).stopped,
      (h.draining hsequence).drained, (h.draining hsequence).passed⟩
  before := h.before
  closed := h.closed

/-! ## Operations -/

theorem Counted.settle (h : domain.Counted) {id : Nat}
    (hid : id ∈ domain.running.map Operation.id) (outcome : Outcome)
    (sequences : Nat → Option Sequence) :
    Counted
      { domain with
        activeOperations := domain.activeOperations - 1
        sequences
        running := domain.running.filter fun operation => operation.id ≠ id
        history := .settled id outcome :: domain.history } where
  nodup := (List.filter_sublist.map Operation.id).nodup h.nodup
  accepted_lt hmem := h.accepted_lt ((List.mem_cons.mp hmem).resolve_left nofun)
  settled_lt hmem := by
    rcases List.mem_cons.mp hmem with heq | hmem
    · obtain ⟨caller, method, haccepted⟩ := ((h.unsettled id).mp hid).1
      cases heq
      exact h.accepted_lt haccepted
    · exact h.settled_lt hmem
  unsettled other := by
    rw [mem_ids_filter, h.unsettled other]
    simp only [Unsettled, List.mem_cons, reduceCtorEq, false_or, Observation.settled.injEq,
      not_or, not_and]
    constructor
    · rintro ⟨⟨haccepted, hsettled⟩, hne⟩
      exact ⟨haccepted, fun outcome' => ⟨fun heq => absurd heq hne, hsettled outcome'⟩⟩
    · rintro ⟨haccepted, hsettled⟩
      exact ⟨⟨haccepted, fun outcome' => (hsettled outcome').2⟩,
        fun heq => (hsettled outcome).1 heq rfl⟩
  count := by
    have hlength := length_running_filter h.nodup hid
    have hcount := h.count
    simp only
    omega

/-- A timer that has fired stays so when the sequences are marked. -/
theorem TimedOut.map (h : domain.TimedOut) {mark : Nat → Sequence → Sequence}
    (hmark : ∀ i sequence, (mark i sequence).timedOut = sequence.timedOut) :
    TimedOut { domain with sequences := fun i => (domain.sequences i).map (mark i) } := by
  obtain ⟨i, sequence, hsequence, htimedOut⟩ := h
  exact ⟨i, mark i sequence, by simp [hsequence], (hmark i sequence).trans htimedOut⟩

theorem Inv.settle (h : domain.Inv) {id : Nat} (hid : id ∈ domain.running.map Operation.id)
    (outcome : Outcome) : (domain.settle id outcome).Inv := by
  obtain ⟨mark, hmark, heq⟩ := settle_cases domain id outcome
  have hnil : domain.running = [] →
      domain.running.filter (fun operation => operation.id ≠ id) = [] := by
    intro hrunning
    simp [hrunning]
  have hcounted := h.counted.settle hid outcome fun i => (domain.sequences i).map (mark i)
  rw [heq]
  refine ⟨hcounted, ?_, h.before, fun hclosed => ?_⟩
  · intro i after hafter
    obtain ⟨sequence, hsequence, rfl⟩ := Option.map_eq_some_iff.mp hafter
    have hold := h.draining hsequence
    rcases hmark i sequence with hsame | ⟨hdrained, hone⟩
    · rw [hsame]
      exact ⟨hold.lt, hold.stopped, fun hd => hnil (hold.drained hd),
        fun hp => (hold.passed hp).imp_left hnil⟩
    · have hlast : domain.running.filter (fun operation => operation.id ≠ id) = [] := by
        apply List.length_eq_zero_iff.mp
        have hcount : domain.activeOperations - 1 =
            (domain.running.filter fun operation => operation.id ≠ id).length := hcounted.count
        have hone' : domain.activeOperations = 1 := hone
        omega
      exact ⟨hold.lt, hold.stopped, fun _ => hlast, fun _ => .inl hlast⟩
  · refine ⟨(h.closed hclosed).1, (h.closed hclosed).2.imp hnil fun htimedOut => ?_⟩
    refine htimedOut.map fun i sequence => ?_
    rcases hmark i sequence with hsame | ⟨hdrained, -⟩
    · rw [hsame]
    · rw [hdrained]

/-- A call is refused, or accepted under a fresh name. -/
theorem call_cases (domain : Domain) (caller : Option Nat) (method : Method) (inScope : Bool) :
    (domain.shuttingDown = true ∧
      domain.call caller method inScope = domain.note (.refused caller method)) ∨
    (domain.shuttingDown = false ∧
      ∃ accepted : Domain, accepted =
          { domain with
            activeOperations := domain.activeOperations + 1
            accepted := domain.accepted + 1
            running := ⟨domain.accepted, caller, method, method.start⟩ :: domain.running
            history := .accepted domain.accepted caller method :: domain.history } ∧
        (domain.call caller method inScope = accepted ∨
          ∃ error, domain.call caller method inScope =
            accepted.settle domain.accepted (.error error))) := by
  unfold call acquireOperation
  cases hstopped : domain.shuttingDown with
  | true => exact .inl ⟨rfl, by simp⟩
  | false =>
      refine .inr ⟨rfl, _, rfl, ?_⟩
      simp only [Bool.false_eq_true, if_false]
      split_ifs
      · exact .inr ⟨_, rfl⟩
      · exact .inl rfl

theorem Inv.accept (h : domain.Inv) (hstopped : domain.shuttingDown = false)
    (caller : Option Nat) (method : Method) :
    Inv
      { domain with
        activeOperations := domain.activeOperations + 1
        accepted := domain.accepted + 1
        running := ⟨domain.accepted, caller, method, method.start⟩ :: domain.running
        history := .accepted domain.accepted caller method :: domain.history } where
  counted :=
    { nodup := by
        rw [List.map_cons, List.nodup_cons]
        refine ⟨fun hmem => ?_, h.counted.nodup⟩
        obtain ⟨⟨caller', method', haccepted⟩, -⟩ := (h.counted.unsettled _).mp hmem
        exact Nat.lt_irrefl _ (h.counted.accepted_lt haccepted)
      accepted_lt := fun hmem => by
        rcases List.mem_cons.mp hmem with heq | hmem
        · cases heq
          exact Nat.lt_succ_self _
        · exact Nat.lt_succ_of_lt (h.counted.accepted_lt hmem)
      settled_lt := fun hmem => Nat.lt_succ_of_lt
        (h.counted.settled_lt ((List.mem_cons.mp hmem).resolve_left nofun))
      unsettled := fun id => by
        rw [List.map_cons, List.mem_cons, h.counted.unsettled id]
        simp only [Unsettled, List.mem_cons, reduceCtorEq, false_or,
          Observation.accepted.injEq]
        constructor
        · rintro (rfl | ⟨⟨caller', method', haccepted⟩, hsettled⟩)
          · exact ⟨⟨caller, method, .inl ⟨rfl, rfl, rfl⟩⟩, fun outcome hmem =>
              Nat.lt_irrefl _ (h.counted.settled_lt hmem)⟩
          · exact ⟨⟨caller', method', .inr haccepted⟩, hsettled⟩
        · rintro ⟨⟨caller', method', ⟨rfl, -, -⟩ | haccepted⟩, hsettled⟩
          · exact .inl rfl
          · exact .inr ⟨⟨caller', method', haccepted⟩, hsettled⟩
      count := by
        have hcount := h.counted.count
        simp only [List.length_cons]
        omega }
  draining hsequence := absurd ((h.draining hsequence).stopped.symm.trans hstopped) (by decide)
  before := h.before
  closed hclosed := absurd ((h.closed hclosed).1.symm.trans hstopped) (by decide)

theorem Inv.call (h : domain.Inv) (caller : Option Nat) (method : Method) (inScope : Bool) :
    (domain.call caller method inScope).Inv := by
  obtain ⟨-, heq⟩ | ⟨hstopped, accepted, rfl, heq⟩ := call_cases domain caller method inScope
  · rw [heq]
    exact h.note ⟨nofun, nofun⟩
  · have haccept := h.accept hstopped caller method
    rcases heq with heq | ⟨error, heq⟩
    · rw [heq]
      exact haccept
    · rw [heq]
      exact haccept.settle (by simp) _

theorem map_id_advance (id : Nat) (point : Point) :
    (domain.advance id point).running.map Operation.id = domain.running.map Operation.id := by
  simp only [advance, List.map_map]
  apply List.map_congr_left
  intro operation _
  simp only [Function.comp]
  split <;> rfl

theorem Inv.advance (h : domain.Inv) (id : Nat) (point : Point) :
    (domain.advance id point).Inv where
  counted :=
    { nodup := by
        rw [map_id_advance]
        exact h.counted.nodup
      accepted_lt := h.counted.accepted_lt
      settled_lt := h.counted.settled_lt
      unsettled := fun other => by
        rw [map_id_advance]
        exact h.counted.unsettled other
      count := by
        rw [← List.length_map Operation.id, map_id_advance, List.length_map]
        exact h.counted.count }
  draining hsequence := by
    have hold := h.draining hsequence
    have hnil : domain.running = [] → (domain.advance id point).running = [] := by
      intro heq
      simp [Domain.advance, heq]
    exact ⟨hold.lt, hold.stopped, fun hd => hnil (hold.drained hd),
      fun hp => (hold.passed hp).imp_left hnil⟩
  before := h.before
  closed hclosed := by
    have hnil : domain.running = [] → (domain.advance id point).running = [] := by
      intro heq
      simp [Domain.advance, heq]
    exact ⟨(h.closed hclosed).1, (h.closed hclosed).2.imp_left hnil⟩

theorem Inv.resume (h : domain.Inv) {operation : Operation} (hmem : operation ∈ domain.running)
    (outcome : Outcome) : (domain.resume operation outcome).Inv := by
  have hnote := h.note (o := .resumed operation.id outcome) ⟨nofun, nofun⟩
  unfold Domain.resume
  cases operation.point.resume outcome with
  | inl point => exact hnote.advance operation.id point
  | inr outcome => exact hnote.settle (List.mem_map_of_mem hmem) outcome

/-! ## The shutdown sequence -/

theorem setSequence_some (domain : Domain) {i : Nat} {sequence : Sequence}
    (hsequence : domain.sequences i = some sequence) (f : Sequence → Sequence) :
    (domain.setSequence i f).sequences i = some (f sequence) := by
  simp [setSequence, hsequence]

theorem setSequence_ne (domain : Domain) {i j : Nat} (hj : j ≠ i) (f : Sequence → Sequence) :
    (domain.setSequence i f).sequences j = domain.sequences j := by
  simp [setSequence, hj]

/-- A timer that has fired stays so when the sequence `i` changes otherwise. -/
theorem TimedOut.setSequence (h : domain.TimedOut) (i : Nat) {f : Sequence → Sequence}
    (hf : ∀ sequence, sequence.timedOut = true → (f sequence).timedOut = true) :
    (domain.setSequence i f).TimedOut := by
  obtain ⟨j, sequence, hsequence, htimedOut⟩ := h
  by_cases hj : j = i
  · subst hj
    exact ⟨j, f sequence, setSequence_some domain hsequence f, hf sequence htimedOut⟩
  · exact ⟨j, sequence, (setSequence_ne domain hj f).trans hsequence, htimedOut⟩

/-- A change of the phase of the sequence `i`, past the drain. -/
theorem Inv.setPhase (h : domain.Inv) {i : Nat} {sequence : Sequence}
    (hsequence : domain.sequences i = some sequence)
    (hpassed : domain.running = [] ∨ sequence.timedOut = true) (phase : Phase)
    (closed : List Resource) :
    (setSequence { domain with closed } i fun sequence => { sequence with phase }).Inv := by
  have hold := h.draining hsequence
  refine ⟨⟨h.counted.nodup, h.counted.accepted_lt, h.counted.settled_lt, h.counted.unsettled,
    h.counted.count⟩, ?_, h.before, fun _ => ⟨hold.stopped, ?_⟩⟩
  · intro j after hafter
    by_cases hj : j = i
    · subst hj
      rw [setSequence_some { domain with closed } hsequence, Option.some.injEq] at hafter
      subst hafter
      exact ⟨hold.lt, hold.stopped, hold.drained, fun _ => hpassed⟩
    · rw [setSequence_ne _ hj] at hafter
      have hother := h.draining hafter
      exact ⟨hother.lt, hother.stopped, hother.drained, hother.passed⟩
  · have htimedOut : sequence.timedOut = true → TimedOut { domain with closed } :=
      fun hfired => ⟨i, sequence, hsequence, hfired⟩
    exact hpassed.imp_right fun hfired =>
      (htimedOut hfired).setSequence i fun _ hfired => hfired

theorem Inv.closeBus (h : domain.Inv) {i : Nat} {sequence : Sequence}
    (hsequence : domain.sequences i = some sequence)
    (hpassed : domain.running = [] ∨ sequence.timedOut = true) : (domain.closeBus i).Inv :=
  h.setPhase hsequence hpassed .closingBus _

theorem Inv.drainRelay (h : domain.Inv) {i : Nat} {sequence : Sequence}
    (hsequence : domain.sequences i = some sequence)
    (hpassed : domain.running = [] ∨ sequence.timedOut = true) :
    (domain.drainRelay infrastructure i).Inv := by
  unfold Domain.drainRelay
  split_ifs
  · exact h.setPhase hsequence hpassed .drainingRelay domain.closed
  · exact h.closeBus hsequence hpassed

theorem Inv.closeNext (h : domain.Inv) {i : Nat} {sequence : Sequence}
    (hsequence : domain.sequences i = some sequence)
    (hpassed : domain.running = [] ∨ sequence.timedOut = true) (names : List String) :
    (domain.closeNext i names).Inv := by
  cases names with
  | nil => exact h.setPhase hsequence hpassed (.settled (.ok ())) domain.closed
  | cons name rest => exact h.setPhase hsequence hpassed (.closing rest) _

def started (domain : Domain) (timeoutMs : Option Milliseconds) : Sequence :=
  let deadline := (timeoutMs.getD (.finite 30000)).after domain.now
  { deadline
    phase := .drainingOperations
    timer := if 0 < domain.activeOperations then
      some (domain.now + (deadline.remaining domain.now).timerDelay) else none }

/-- The domain once a call of `shutdown` has set its flag and started its sequence. -/
def stopped (domain : Domain) (timeoutMs : Option Milliseconds) : Domain :=
  { domain with
    shuttingDown := true
    performed := domain.performed + 1
    sequences := Function.update domain.sequences domain.performed
      (some (domain.started timeoutMs)) }

/-- A call of `shutdown` answers the promise that is there, or it starts a sequence:
either this one waits for the operations, and its promise is assigned, or it has come to
code of others. -/
theorem shutdown_cases (infrastructure : Infrastructure) (domain : Domain)
    (timeoutMs : Option Milliseconds) :
    (∃ promise, domain.shutdownPromise = some promise ∧
      domain.shutdown infrastructure timeoutMs =
        { domain with returned := promise :: domain.returned }) ∨
    (domain.shutdownPromise = none ∧ 0 < domain.activeOperations ∧
      domain.shutdown infrastructure timeoutMs =
        { domain.stopped timeoutMs with drainResolve := some domain.performed }.assignPromise
          domain.performed) ∨
    (domain.shutdownPromise = none ∧ ¬ 0 < domain.activeOperations ∧
      domain.shutdown infrastructure timeoutMs =
        { domain.stopped timeoutMs with
          starting := domain.performed :: domain.starting }.drainRelay infrastructure
            domain.performed) := by
  unfold Domain.shutdown
  cases hpromise : domain.shutdownPromise with
  | some promise => exact .inl ⟨promise, rfl, rfl⟩
  | none =>
      by_cases hactive : 0 < domain.activeOperations
      · refine .inr (.inl ⟨rfl, hactive, ?_⟩)
        simp only [performShutdown, stopped, started, hactive, hpromise, if_true]
      · refine .inr (.inr ⟨rfl, hactive, ?_⟩)
        simp only [performShutdown, stopped, started, hactive, hpromise, if_false]
        simp only [Domain.drainRelay, Domain.closeBus, setSequence]
        split_ifs <;> rfl

theorem stopped_sequence (domain : Domain) (timeoutMs : Option Milliseconds) :
    (domain.stopped timeoutMs).sequences domain.performed =
      some (domain.started timeoutMs) := by
  simp [stopped]

theorem Inv.stopped (h : domain.Inv) (timeoutMs : Option Milliseconds) :
    (domain.stopped timeoutMs).Inv := by
  refine ⟨⟨h.counted.nodup, h.counted.accepted_lt, h.counted.settled_lt, h.counted.unsettled,
    h.counted.count⟩, ?_, nofun, fun hclosed => ⟨rfl, (h.closed hclosed).2.imp_right ?_⟩⟩
  · intro i sequence hsequence
    by_cases hi : i = domain.performed
    · subst hi
      rw [stopped_sequence, Option.some.injEq] at hsequence
      subst hsequence
      exact ⟨Nat.lt_succ_self _, rfl, nofun, fun hphase => absurd rfl hphase⟩
    · simp only [Domain.stopped, Function.update_of_ne hi] at hsequence
      have hold := h.draining hsequence
      exact ⟨Nat.lt_succ_of_lt hold.lt, rfl, hold.drained, hold.passed⟩
  · rintro ⟨i, sequence, hsequence, htimedOut⟩
    have hi : i ≠ domain.performed := Nat.ne_of_lt (h.draining hsequence).lt
    refine ⟨i, sequence, ?_, htimedOut⟩
    simpa [Domain.stopped, Function.update_of_ne hi] using hsequence

/-- The invariant says little of the promises. -/
theorem Inv.assign (h : domain.Inv) (hstopped : domain.shuttingDown = true)
    (drainResolve shutdownPromise : Option Nat) (returned starting : List Nat) :
    Inv { domain with drainResolve, shutdownPromise, returned, starting } where
  counted := ⟨h.counted.nodup, h.counted.accepted_lt, h.counted.settled_lt,
    h.counted.unsettled, h.counted.count⟩
  draining hsequence :=
    ⟨(h.draining hsequence).lt, (h.draining hsequence).stopped,
      (h.draining hsequence).drained, (h.draining hsequence).passed⟩
  before hoff := absurd (hstopped.symm.trans hoff) (by decide)
  closed := h.closed

theorem Inv.shuttingDown_of_promise (h : domain.Inv) {promise : Nat}
    (hpromise : domain.shutdownPromise = some promise) : domain.shuttingDown = true := by
  cases hstopped : domain.shuttingDown with
  | true => rfl
  | false => exact absurd ((h.before hstopped).2.1.symm.trans hpromise) nofun

theorem Inv.shutdown (h : domain.Inv) (timeoutMs : Option Milliseconds) :
    (domain.shutdown infrastructure timeoutMs).Inv := by
  have hstart := h.stopped timeoutMs
  obtain ⟨promise, hpromise, heq⟩ | ⟨-, -, heq⟩ | ⟨-, hactive, heq⟩ :=
    shutdown_cases infrastructure domain timeoutMs
  · rw [heq]
    exact h.assign (h.shuttingDown_of_promise hpromise) _ _ _ _
  · rw [heq]
    exact hstart.assign rfl _ _ _ _
  · rw [heq]
    refine (hstart.assign rfl _ _ _ (domain.performed :: domain.starting)).drainRelay
      (stopped_sequence domain timeoutMs) (.inl ?_)
    have hcount := h.counted.count
    apply List.length_eq_zero_iff.mp
    simp only [Domain.stopped]
    omega

/-- What returns is the innermost of the calls that are not over. -/
theorem returnShutdown_eq_some {next : Domain} :
    domain.returnShutdown = some next ↔
      ∃ i rest, domain.starting = i :: rest ∧
        next = { domain with starting := rest }.assignPromise i := by
  unfold returnShutdown
  cases domain.starting with
  | nil => simp
  | cons i rest => simp [eq_comm]

theorem Inv.returnShutdown (h : domain.Inv) {next : Domain}
    (hnext : domain.returnShutdown = some next) : next.Inv := by
  obtain ⟨i, rest, hstarting, rfl⟩ := returnShutdown_eq_some.mp hnext
  apply h.assign
  cases hstopped : domain.shuttingDown with
  | true => rfl
  | false => exact absurd (hstarting.symm.trans (h.before hstopped).2.2.2) nofun

theorem Inv.tick (h : domain.Inv) (ms : Nat) : Inv { domain with now := domain.now + ms } where
  counted := ⟨h.counted.nodup, h.counted.accepted_lt, h.counted.settled_lt,
    h.counted.unsettled, h.counted.count⟩
  draining hsequence :=
    ⟨(h.draining hsequence).lt, (h.draining hsequence).stopped,
      (h.draining hsequence).drained, (h.draining hsequence).passed⟩
  before := h.before
  closed := h.closed

theorem Inv.timeOut (h : domain.Inv) (i : Nat) :
    (domain.setSequence i fun sequence => { sequence with timedOut := true }).Inv := by
  refine ⟨⟨h.counted.nodup, h.counted.accepted_lt, h.counted.settled_lt, h.counted.unsettled,
    h.counted.count⟩, ?_, h.before, fun hclosed => ?_⟩
  · intro j after hafter
    by_cases hj : j = i
    · subst hj
      obtain ⟨sequence, hsequence, rfl⟩ : ∃ sequence, domain.sequences j = some sequence ∧
          after = { sequence with timedOut := true } := by
        simpa [setSequence, eq_comm] using hafter
      have hold := h.draining hsequence
      exact ⟨hold.lt, hold.stopped, hold.drained, fun _ => .inr rfl⟩
    · rw [setSequence_ne domain hj] at hafter
      have hother := h.draining hafter
      exact ⟨hother.lt, hother.stopped, hother.drained, hother.passed⟩
  · exact ⟨(h.closed hclosed).1, (h.closed hclosed).2.imp_right
      fun htimedOut => htimedOut.setSequence i fun _ _ => rfl⟩

/-- A sequence that goes on has passed its drain; it drains the relay, closes the
bus or the next component, or it is at its end. -/
theorem resumeShutdown_cases {i : Nat} {sequence : Sequence} {outcome : Outcome}
    {next : Domain}
    (h : domain.resumeShutdown infrastructure i sequence outcome = some next) :
    (sequence.phase = .drainingOperations →
      sequence.drained = true ∨ sequence.timedOut = true) ∧
    (next = domain.drainRelay infrastructure i ∨ next = domain.closeBus i ∨
      (∃ names, next = domain.closeNext i names) ∨
      ∃ error, next = domain.setSequence i fun sequence =>
        { sequence with phase := .settled (.error error) }) := by
  unfold resumeShutdown at h
  cases hphase : sequence.phase with
  | drainingOperations =>
      simp only [hphase] at h
      split_ifs at h with hdone
      exact ⟨fun _ => hdone, .inl (Option.some.inj h).symm⟩
  | drainingRelay =>
      simp only [hphase] at h
      exact ⟨nofun, .inr (.inl (Option.some.inj h).symm)⟩
  | closingBus =>
      simp only [hphase] at h
      cases outcome with
      | ok _ => exact ⟨nofun, .inr (.inr (.inl ⟨_, (Option.some.inj h).symm⟩))⟩
      | error error => exact ⟨nofun, .inr (.inr (.inr ⟨error, (Option.some.inj h).symm⟩))⟩
  | closing rest =>
      simp only [hphase] at h
      exact ⟨nofun, .inr (.inr (.inl ⟨rest, (Option.some.inj h).symm⟩))⟩
  | settled _ => simp [hphase] at h

theorem resumeShutdown_passed (h : domain.Inv) {i : Nat} {sequence : Sequence}
    (hsequence : domain.sequences i = some sequence) {outcome : Outcome} {next : Domain}
    (hnext : domain.resumeShutdown infrastructure i sequence outcome = some next) :
    domain.running = [] ∨ sequence.timedOut = true := by
  have hold := h.draining hsequence
  by_cases hphase : sequence.phase = .drainingOperations
  · exact ((resumeShutdown_cases hnext).1 hphase).imp_left hold.drained
  · exact hold.passed hphase

theorem Inv.resumeShutdown (h : domain.Inv) {i : Nat} {sequence : Sequence}
    (hsequence : domain.sequences i = some sequence) {outcome : Outcome} {next : Domain}
    (hnext : domain.resumeShutdown infrastructure i sequence outcome = some next) :
    next.Inv := by
  have hpassed := resumeShutdown_passed h hsequence hnext
  obtain ⟨-, rfl | rfl | ⟨names, rfl⟩ | ⟨error, rfl⟩⟩ := resumeShutdown_cases hnext
  · exact h.drainRelay hsequence hpassed
  · exact h.closeBus hsequence hpassed
  · exact h.closeNext hsequence hpassed names
  · exact h.setPhase hsequence hpassed (.settled (.error error)) domain.closed

end Domain

/-! ## Runs -/

variable {infrastructure : Infrastructure} {domain next : Domain} {action : Action}

theorem Domain.mem_of_find {id : Nat} {operation : Operation}
    (h : domain.find id = some operation) : operation ∈ domain.running ∧ operation.id = id := by
  refine ⟨List.mem_of_find?_eq_some h, ?_⟩
  simpa using List.find?_some h

theorem Domain.idle_eq_some {domain' : Domain} :
    domain.idle = some domain' ↔ domain.starting = [] ∧ domain = domain' := by
  unfold Domain.idle
  split_ifs with h
  · simp [h]
  · simp [h]

theorem step_resume {id : Nat} {outcome : Outcome} :
    step infrastructure domain (.resume id outcome) = some next ↔
      domain.starting = [] ∧ ∃ operation, domain.find id = some operation ∧
        next = domain.resume operation outcome := by
  simp only [step, Option.bind_eq_bind, Option.bind_eq_some_iff, Domain.idle_eq_some,
    Option.some.injEq]
  constructor
  · rintro ⟨_, ⟨hidle, rfl⟩, operation, hfind, rfl⟩
    exact ⟨hidle, operation, hfind, rfl⟩
  · rintro ⟨hidle, operation, hfind, rfl⟩
    exact ⟨domain, ⟨hidle, rfl⟩, operation, hfind, rfl⟩

theorem step_timeOut {i : Nat} :
    step infrastructure domain (.timeOut i) = some next ↔
      domain.starting = [] ∧ ∃ sequence due, domain.sequences i = some sequence ∧
        sequence.timer = some due ∧ sequence.phase = .drainingOperations ∧ due ≤ domain.now ∧
        next = domain.setSequence i fun sequence => { sequence with timedOut := true } := by
  simp only [step, Option.bind_eq_bind, Option.bind_eq_some_iff, Domain.idle_eq_some,
    Option.ite_none_right_eq_some, Option.some.injEq]
  constructor
  · rintro ⟨_, ⟨hidle, rfl⟩, sequence, hsequence, due, hdue, ⟨hphase, hnow⟩, rfl⟩
    exact ⟨hidle, sequence, due, hsequence, hdue, hphase, hnow, rfl⟩
  · rintro ⟨hidle, sequence, due, hsequence, hdue, hphase, hnow, rfl⟩
    exact ⟨domain, ⟨hidle, rfl⟩, sequence, hsequence, due, hdue, ⟨hphase, hnow⟩, rfl⟩

theorem step_resumeShutdown {i : Nat} {outcome : Outcome} :
    step infrastructure domain (.resumeShutdown i outcome) = some next ↔
      domain.starting = [] ∧ ∃ sequence, domain.sequences i = some sequence ∧
        domain.resumeShutdown infrastructure i sequence outcome = some next := by
  simp only [step, Option.bind_eq_bind, Option.bind_eq_some_iff, Domain.idle_eq_some]
  constructor
  · rintro ⟨_, ⟨hidle, rfl⟩, sequence, hsequence, hnext⟩
    exact ⟨hidle, sequence, hsequence, hnext⟩
  · rintro ⟨hidle, sequence, hsequence, hnext⟩
    exact ⟨domain, ⟨hidle, rfl⟩, sequence, hsequence, hnext⟩

theorem Domain.Inv.step (h : domain.Inv) (hstep : step infrastructure domain action = some next) :
    next.Inv := by
  cases action with
  | call caller method inScope =>
      cases caller with
      | none =>
          obtain rfl := Option.some.inj hstep
          exact h.call none method inScope
      | some id =>
          obtain ⟨_, -, hnext⟩ := Option.bind_eq_some_iff.mp hstep
          obtain rfl := Option.some.inj hnext
          exact h.call (some id) method inScope
  | dispatchCommand id =>
      obtain ⟨_, -, hnext⟩ := Option.bind_eq_some_iff.mp hstep
      obtain rfl := Option.some.inj hnext
      exact h.note ⟨nofun, nofun⟩
  | dispatchEvent id =>
      obtain ⟨_, -, hnext⟩ := Option.bind_eq_some_iff.mp hstep
      obtain rfl := Option.some.inj hnext
      exact h.note ⟨nofun, nofun⟩
  | resume id outcome =>
      obtain ⟨-, operation, hfind, rfl⟩ := step_resume.mp hstep
      exact h.resume (mem_of_find hfind).1 outcome
  | shutdown timeoutMs =>
      obtain rfl := Option.some.inj hstep
      exact h.shutdown timeoutMs
  | returnShutdown => exact h.returnShutdown hstep
  | tick ms =>
      obtain rfl := Option.some.inj hstep
      exact h.tick ms
  | timeOut i =>
      obtain ⟨-, sequence, due, -, -, -, -, rfl⟩ := step_timeOut.mp hstep
      exact h.timeOut i
  | resumeShutdown i outcome =>
      obtain ⟨-, sequence, hsequence, hnext⟩ := step_resumeShutdown.mp hstep
      exact h.resumeShutdown hsequence hnext

theorem Domain.inv_start : Domain.Inv {} where
  counted :=
    { nodup := List.nodup_nil
      accepted_lt := nofun
      settled_lt := nofun
      unsettled := by simp [Domain.Unsettled]
      count := rfl }
  draining := nofun
  before _ := ⟨rfl, rfl, rfl, rfl⟩
  closed hclosed := absurd rfl hclosed

theorem inv_of_reached (h : Reached infrastructure domain) : domain.Inv :=
  h.inv Domain.inv_start fun _ _ _ hI _ hstep => hI.step hstep

/-! ## What a step changes -/

/-- A step of an operation leaves alone what belongs to the shutdown, except that it may
mark a sequence as drained. -/
structure Operates (domain next : Domain) : Prop where
  now : next.now = domain.now
  starting : next.starting = domain.starting
  performed : next.performed = domain.performed
  shutdownPromise : next.shutdownPromise = domain.shutdownPromise
  returned : next.returned = domain.returned
  closed : next.closed = domain.closed
  marked : ∀ i after, next.sequences i = some after →
    ∃ before, domain.sequences i = some before ∧
      (after = before ∨ after = { before with drained := true })

namespace Domain

theorem operates_note (domain : Domain) (o : Observation) : Operates domain (domain.note o) :=
  ⟨rfl, rfl, rfl, rfl, rfl, rfl, fun _ after hafter => ⟨after, hafter, .inl rfl⟩⟩

theorem operates_settle (domain : Domain) (id : Nat) (outcome : Outcome) :
    Operates domain (domain.settle id outcome) := by
  obtain ⟨mark, hmark, heq⟩ := settle_cases domain id outcome
  rw [heq]
  refine ⟨rfl, rfl, rfl, rfl, rfl, rfl, fun i after hafter => ?_⟩
  obtain ⟨before, hbefore, rfl⟩ := Option.map_eq_some_iff.mp hafter
  exact ⟨before, hbefore, (hmark i before).imp_right And.left⟩

theorem operates_call (domain : Domain) (caller : Option Nat) (method : Method)
    (inScope : Bool) : Operates domain (domain.call caller method inScope) := by
  obtain ⟨-, heq⟩ | ⟨-, accepted, rfl, heq | ⟨error, heq⟩⟩ :=
    call_cases domain caller method inScope
  · rw [heq]
    exact operates_note domain _
  · rw [heq]
    exact ⟨rfl, rfl, rfl, rfl, rfl, rfl, fun _ after hafter => ⟨after, hafter, .inl rfl⟩⟩
  · rw [heq]
    have h := operates_settle
      { domain with
        activeOperations := domain.activeOperations + 1
        accepted := domain.accepted + 1
        running := ⟨domain.accepted, caller, method, method.start⟩ :: domain.running
        history := .accepted domain.accepted caller method :: domain.history }
      domain.accepted (.error error)
    exact ⟨h.now, h.starting, h.performed, h.shutdownPromise, h.returned, h.closed, h.marked⟩

theorem operates_resume (domain : Domain) (operation : Operation) (outcome : Outcome) :
    Operates domain (domain.resume operation outcome) := by
  unfold resume
  cases operation.point.resume outcome with
  | inl point =>
      exact ⟨rfl, rfl, rfl, rfl, rfl, rfl, fun _ after hafter => ⟨after, hafter, .inl rfl⟩⟩
  | inr outcome' =>
      have h := operates_settle (domain.note (.resumed operation.id outcome)) operation.id
        outcome'
      exact ⟨h.now, h.starting, h.performed, h.shutdownPromise, h.returned, h.closed, h.marked⟩

end Domain

/-- The steps of the operations, and those that belong to the shutdown. -/
theorem step_cases (hstep : step infrastructure domain action = some next) :
    Operates domain next ∨
    (∃ timeoutMs, action = .shutdown timeoutMs ∧
      next = domain.shutdown infrastructure timeoutMs) ∨
    (∃ i rest, domain.starting = i :: rest ∧
      next = { domain with starting := rest }.assignPromise i) ∨
    (∃ ms, next = { domain with now := domain.now + ms }) ∨
    (∃ i sequence due, domain.sequences i = some sequence ∧ sequence.timer = some due ∧
      due ≤ domain.now ∧
      next = domain.setSequence i fun sequence => { sequence with timedOut := true }) ∨
    (∃ i sequence outcome, domain.starting = [] ∧ domain.sequences i = some sequence ∧
      domain.resumeShutdown infrastructure i sequence outcome = some next) := by
  cases action with
  | call caller method inScope =>
      left
      cases caller with
      | none =>
          obtain rfl := Option.some.inj hstep
          exact Domain.operates_call domain none method inScope
      | some id =>
          obtain ⟨_, -, hnext⟩ := Option.bind_eq_some_iff.mp hstep
          obtain rfl := Option.some.inj hnext
          exact Domain.operates_call domain (some id) method inScope
  | dispatchCommand id =>
      obtain ⟨_, -, hnext⟩ := Option.bind_eq_some_iff.mp hstep
      obtain rfl := Option.some.inj hnext
      exact .inl (Domain.operates_note domain _)
  | dispatchEvent id =>
      obtain ⟨_, -, hnext⟩ := Option.bind_eq_some_iff.mp hstep
      obtain rfl := Option.some.inj hnext
      exact .inl (Domain.operates_note domain _)
  | resume id outcome =>
      obtain ⟨-, operation, -, rfl⟩ := step_resume.mp hstep
      exact .inl (Domain.operates_resume domain operation outcome)
  | shutdown timeoutMs =>
      obtain rfl := Option.some.inj hstep
      exact .inr (.inl ⟨timeoutMs, rfl, rfl⟩)
  | returnShutdown =>
      exact .inr (.inr (.inl (Domain.returnShutdown_eq_some.mp hstep)))
  | tick ms =>
      obtain rfl := Option.some.inj hstep
      exact .inr (.inr (.inr (.inl ⟨ms, rfl⟩)))
  | timeOut i =>
      obtain ⟨-, sequence, due, hsequence, hdue, -, hnow, rfl⟩ := step_timeOut.mp hstep
      exact .inr (.inr (.inr (.inr (.inl ⟨i, sequence, due, hsequence, hdue, hnow, rfl⟩))))
  | resumeShutdown i outcome =>
      obtain ⟨hidle, sequence, hsequence, hnext⟩ := step_resumeShutdown.mp hstep
      exact .inr (.inr (.inr (.inr (.inr ⟨i, sequence, outcome, hidle, hsequence, hnext⟩))))

/-! ## What is accepted -/

namespace Domain

theorem settle_history (id : Nat) (outcome : Outcome) :
    (domain.settle id outcome).history = .settled id outcome :: domain.history := by
  obtain ⟨mark, -, heq⟩ := settle_cases domain id outcome
  rw [heq]

theorem resume_history (domain : Domain) (operation : Operation) (outcome : Outcome) :
    (domain.resume operation outcome).history =
        .resumed operation.id outcome :: domain.history ∨
      ∃ outcome', (domain.resume operation outcome).history =
        .settled operation.id outcome' :: .resumed operation.id outcome :: domain.history := by
  unfold resume
  cases operation.point.resume outcome with
  | inl point => exact .inl rfl
  | inr outcome' => exact .inr ⟨outcome', settle_history _ _⟩

theorem drainRelay_history (i : Nat) :
    (domain.drainRelay infrastructure i).history = domain.history := by
  unfold drainRelay
  split_ifs <;> rfl

theorem shutdown_history (timeoutMs : Option Milliseconds) :
    (domain.shutdown infrastructure timeoutMs).history = domain.history := by
  obtain ⟨promise, -, heq⟩ | ⟨-, -, heq⟩ | ⟨-, -, heq⟩ :=
    shutdown_cases infrastructure domain timeoutMs
  · rw [heq]
  · rw [heq]
    rfl
  · rw [heq]
    exact drainRelay_history _

theorem resumeShutdown_history {i : Nat} {sequence : Sequence} {outcome : Outcome}
    (h : domain.resumeShutdown infrastructure i sequence outcome = some next) :
    next.history = domain.history := by
  obtain ⟨-, rfl | rfl | ⟨names, rfl⟩ | ⟨error, rfl⟩⟩ := resumeShutdown_cases h
  · exact drainRelay_history i
  · rfl
  · cases names <;> rfl
  · rfl

end Domain

/-- A new observation is an acceptance only in a domain that is not shutting down,
and a refusal only of the call that is made in one that is. -/
def Expected (domain : Domain) (action : Action) (o : Observation) : Prop :=
  (∀ id caller method, o = .accepted id caller method → domain.shuttingDown = false) ∧
    ∀ caller method, o = .refused caller method →
      domain.shuttingDown = true ∧ ∃ inScope, action = .call caller method inScope

theorem history_of_call (caller : Option Nat) (method : Method) (inScope : Bool) :
    ∃ new, (domain.call caller method inScope).history = new ++ domain.history ∧
      ∀ o ∈ new, Expected domain (.call caller method inScope) o := by
  obtain ⟨hon, heq⟩ | ⟨hoff, accepted, rfl, heq | ⟨error, heq⟩⟩ :=
    Domain.call_cases domain caller method inScope
  · refine ⟨[.refused caller method], by rw [heq]; rfl, fun o ho => ?_⟩
    obtain rfl := List.mem_singleton.mp ho
    exact ⟨nofun, fun _ _ hrefused => ⟨hon, inScope, by cases hrefused; rfl⟩⟩
  · refine ⟨[.accepted domain.accepted caller method], by rw [heq]; rfl, fun o ho => ?_⟩
    obtain rfl := List.mem_singleton.mp ho
    exact ⟨fun _ _ _ _ => hoff, nofun⟩
  · refine ⟨[.settled domain.accepted (.error error), .accepted domain.accepted caller method],
      by rw [heq, Domain.settle_history]; rfl, fun o ho => ?_⟩
    rcases List.mem_cons.mp ho with rfl | ho
    · exact ⟨nofun, nofun⟩
    · obtain rfl := List.mem_singleton.mp ho
      exact ⟨fun _ _ _ _ => hoff, nofun⟩

theorem history_of_step (hstep : step infrastructure domain action = some next) :
    ∃ new, next.history = new ++ domain.history ∧ ∀ o ∈ new, Expected domain action o := by
  cases action with
  | call caller method inScope =>
      cases caller with
      | none =>
          obtain rfl := Option.some.inj hstep
          exact history_of_call none method inScope
      | some id =>
          obtain ⟨_, -, hnext⟩ := Option.bind_eq_some_iff.mp hstep
          obtain rfl := Option.some.inj hnext
          exact history_of_call (some id) method inScope
  | dispatchCommand id =>
      obtain ⟨_, -, hnext⟩ := Option.bind_eq_some_iff.mp hstep
      obtain rfl := Option.some.inj hnext
      refine ⟨[_], rfl, fun o ho => ?_⟩
      obtain rfl := List.mem_singleton.mp ho
      exact ⟨nofun, nofun⟩
  | dispatchEvent id =>
      obtain ⟨_, -, hnext⟩ := Option.bind_eq_some_iff.mp hstep
      obtain rfl := Option.some.inj hnext
      refine ⟨[_], rfl, fun o ho => ?_⟩
      obtain rfl := List.mem_singleton.mp ho
      exact ⟨nofun, nofun⟩
  | resume id outcome =>
      obtain ⟨-, operation, -, rfl⟩ := step_resume.mp hstep
      rcases domain.resume_history operation outcome with heq | ⟨r, heq⟩
      · refine ⟨[_], heq, fun o ho => ?_⟩
        obtain rfl := List.mem_singleton.mp ho
        exact ⟨nofun, nofun⟩
      · refine ⟨[_, _], heq, fun o ho => ?_⟩
        rcases List.mem_cons.mp ho with rfl | ho
        · exact ⟨nofun, nofun⟩
        · obtain rfl := List.mem_singleton.mp ho
          exact ⟨nofun, nofun⟩
  | shutdown timeoutMs =>
      obtain rfl := Option.some.inj hstep
      exact ⟨[], Domain.shutdown_history timeoutMs, nofun⟩
  | returnShutdown =>
      obtain ⟨i, rest, -, rfl⟩ := Domain.returnShutdown_eq_some.mp hstep
      exact ⟨[], rfl, nofun⟩
  | tick ms =>
      obtain rfl := Option.some.inj hstep
      exact ⟨[], rfl, nofun⟩
  | timeOut i =>
      obtain ⟨-, sequence, due, -, -, -, -, rfl⟩ := step_timeOut.mp hstep
      exact ⟨[], rfl, nofun⟩
  | resumeShutdown i outcome =>
      obtain ⟨-, sequence, -, hnext⟩ := step_resumeShutdown.mp hstep
      exact ⟨[], Domain.resumeShutdown_history hnext, nofun⟩

theorem not_shuttingDown_of_accepts (hstep : step infrastructure domain action = some next)
    {id : Nat} {caller : Option Nat} {method : Method}
    (hnext : .accepted id caller method ∈ next.history)
    (hnew : .accepted id caller method ∉ domain.history) : domain.shuttingDown = false := by
  obtain ⟨new, heq, hexpected⟩ := history_of_step hstep
  rw [heq] at hnext
  have hmem := (List.mem_append.mp hnext).resolve_right hnew
  exact (hexpected _ hmem).1 id caller method rfl

/-! ## What is closed -/

/-- Nothing is closed while an operation runs, unless the timer has fired. -/
theorem drained_of_closes (h : domain.Inv)
    (hstep : step infrastructure domain action = some next)
    (hclosed : next.closed ≠ domain.closed) : domain.running = [] ∨ domain.TimedOut := by
  obtain hoperates | ⟨timeoutMs, -, rfl⟩ | ⟨i, rest, -, rfl⟩ | ⟨ms, rfl⟩ |
    ⟨i, sequence, due, -, -, -, rfl⟩ | ⟨i, sequence, outcome, -, hsequence, hnext⟩ :=
    step_cases hstep
  · exact absurd hoperates.closed hclosed
  · obtain ⟨promise, -, heq⟩ | ⟨-, -, heq⟩ | ⟨-, hactive, -⟩ :=
      Domain.shutdown_cases infrastructure domain timeoutMs
    · rw [heq] at hclosed
      exact absurd rfl hclosed
    · rw [heq] at hclosed
      exact absurd rfl hclosed
    · left
      have hcount := h.counted.count
      apply List.length_eq_zero_iff.mp
      omega
  · exact absurd rfl hclosed
  · exact absurd rfl hclosed
  · exact absurd rfl hclosed
  · exact (Domain.resumeShutdown_passed h hsequence hnext).imp_right
      fun htimedOut => ⟨i, sequence, hsequence, htimedOut⟩

/-! ## Timers -/

namespace Milliseconds

/-- A timeout that `setTimeout` can wait for: at most a millisecond, or a whole number that
is in range. -/
def Waitable : Milliseconds → Prop
  | .finite ms => ms ≤ 1 ∨ ms ≤ maxDelay ∧ (⌊ms⌋ : ℚ) = ms
  | .infinity => False

instance : DecidablePred Waitable
  | .finite ms => inferInstanceAs (Decidable (ms ≤ 1 ∨ _))
  | .infinity => inferInstanceAs (Decidable False)

theorem ElapsedAt.mono {deadline : Milliseconds} {now later : Nat} (h : deadline.ElapsedAt now)
    (hlater : now ≤ later) : deadline.ElapsedAt later := by
  cases deadline with
  | finite ms => exact le_trans h (Nat.cast_le.mpr hlater)
  | infinity => exact h

/-- The delay of the timer is not shorter than the timeout exactly if the timeout can be
waited for. -/
theorem le_timerDelay_iff (ms : ℚ) :
    ms ≤ (finite (max 0 ms)).timerDelay ↔ (finite ms).Waitable := by
  simp only [timerDelay, Waitable]
  by_cases hin : 1 ≤ max 0 ms ∧ max 0 ms ≤ maxDelay
  · have hone : 1 ≤ ms := (le_max_iff.mp hin.1).resolve_left (by norm_num)
    have hmax : max 0 ms = ms := max_eq_right (le_trans zero_le_one hone)
    have hfloor : (⌊ms⌋.toNat : ℚ) = ⌊ms⌋ := by
      have hnonneg : 0 ≤ ⌊ms⌋ := Int.floor_nonneg.mpr (le_trans zero_le_one hone)
      exact_mod_cast Int.toNat_of_nonneg hnonneg
    rw [if_pos hin, hmax, hfloor]
    constructor
    · intro hle
      exact .inr ⟨hmax ▸ hin.2, le_antisymm (Int.floor_le ms) hle⟩
    · rintro (hle | ⟨-, hwhole⟩)
      · obtain rfl : ms = 1 := le_antisymm hle hone
        simp
      · exact hwhole.ge
  · rw [if_neg hin, Nat.cast_one]
    constructor
    · exact .inl
    · rintro (hle | ⟨hrange, -⟩)
      · exact hle
      · by_contra hlt
        have hone : 1 ≤ ms := le_of_lt (not_le.mp hlt)
        refine hin ⟨le_max_of_le_right hone, max_le ?_ hrange⟩
        norm_num [maxDelay]

/-- The timer that is set at `now` fires no earlier than the timeout exactly if the timeout
can be waited for. -/
theorem elapsedAt_timer_iff (timeoutMs : Milliseconds) (now : Nat) :
    (timeoutMs.after now).ElapsedAt
        (now + ((timeoutMs.after now).remaining now).timerDelay) ↔ timeoutMs.Waitable := by
  cases timeoutMs with
  | finite ms =>
      rw [← le_timerDelay_iff]
      simp only [after, remaining, ElapsedAt, add_sub_cancel_left, Nat.cast_add,
        add_le_add_iff_left]
  | infinity => exact Iff.rfl

end Milliseconds

/-- A call of `shutdown` that waits for operations has a timeout that a timer can wait
for. -/
def TimerWaits (domain : Domain) : Action → Prop
  | .shutdown timeoutMs =>
      domain.shutdownPromise = none → 0 < domain.activeOperations →
        (timeoutMs.getD (.finite 30000)).Waitable
  | _ => True

instance (domain : Domain) : DecidablePred (TimerWaits domain)
  | .shutdown _ => inferInstanceAs (Decidable (_ → _ → _))
  | .call .. | .dispatchCommand _ | .dispatchEvent _ | .resume .. | .returnShutdown | .tick _
  | .timeOut _ | .resumeShutdown .. => inferInstanceAs (Decidable True)

/-- No timer fires before the timeout has elapsed. -/
structure Timely (domain : Domain) : Prop where
  timer : ∀ {i sequence due}, domain.sequences i = some sequence →
    sequence.timer = some due → sequence.deadline.ElapsedAt due
  timedOut : ∀ {i sequence}, domain.sequences i = some sequence →
    sequence.timedOut = true → sequence.deadline.ElapsedAt domain.now

namespace Timely

/-- A sequence that keeps its deadline and its timer, at a later time. -/
theorem mono (h : Timely domain) (hnow : domain.now ≤ next.now)
    (hsequences : ∀ i after, next.sequences i = some after →
      ∃ before, domain.sequences i = some before ∧ after.deadline = before.deadline ∧
        after.timer = before.timer ∧
        (after.timedOut = true → before.timedOut = true ∨ before.deadline.ElapsedAt next.now)) :
    Timely next where
  timer hafter hdue := by
    obtain ⟨before, hbefore, hdeadline, htimer, -⟩ := hsequences _ _ hafter
    rw [hdeadline]
    exact h.timer hbefore (htimer ▸ hdue)
  timedOut hafter htimedOut := by
    obtain ⟨before, hbefore, hdeadline, -, hfired⟩ := hsequences _ _ hafter
    rw [hdeadline]
    rcases hfired htimedOut with hbefore' | helapsed
    · exact (h.timedOut hbefore hbefore').mono hnow
    · exact helapsed

theorem of_setSequence (h : Timely domain) (closed : List Resource) {i : Nat}
    {f : Sequence → Sequence} (hdeadline : ∀ sequence, (f sequence).deadline = sequence.deadline)
    (htimer : ∀ sequence, (f sequence).timer = sequence.timer)
    (htimedOut : ∀ sequence, domain.sequences i = some sequence → (f sequence).timedOut = true →
      sequence.timedOut = true ∨ sequence.deadline.ElapsedAt domain.now) :
    Timely (Domain.setSequence { domain with closed } i f) := by
  refine mono h (Nat.le_refl domain.now) fun j after hafter => ?_
  by_cases hj : j = i
  · subst hj
    obtain ⟨before, hbefore, rfl⟩ : ∃ before, domain.sequences j = some before ∧
        f before = after := by
      simpa [Domain.setSequence] using hafter
    exact ⟨before, hbefore, hdeadline before, htimer before, htimedOut before hbefore⟩
  · rw [Domain.setSequence_ne _ hj] at hafter
    exact ⟨after, hafter, rfl, rfl, .inl⟩

theorem setPhase (h : Timely domain) (closed : List Resource) (i : Nat) (phase : Phase) :
    Timely (Domain.setSequence { domain with closed } i fun sequence =>
      { sequence with phase }) :=
  h.of_setSequence closed (fun _ => rfl) (fun _ => rfl) fun _ _ => .inl

theorem drainRelay (h : Timely domain) (i : Nat) :
    Timely (domain.drainRelay infrastructure i) := by
  unfold Domain.drainRelay
  split_ifs
  · exact h.setPhase domain.closed i .drainingRelay
  · exact h.setPhase _ i .closingBus

theorem stopped (h : Timely domain) {timeoutMs : Option Milliseconds}
    (hwaits : 0 < domain.activeOperations →
      (timeoutMs.getD (.finite 30000)).Waitable) : Timely (domain.stopped timeoutMs) where
  timer := by
    intro i sequence due hsequence hdue
    by_cases hi : i = domain.performed
    · subst hi
      rw [Domain.stopped_sequence, Option.some.injEq] at hsequence
      subst hsequence
      simp only [Domain.started] at hdue ⊢
      split_ifs at hdue with hactive
      obtain rfl := Option.some.inj hdue
      exact (Milliseconds.elapsedAt_timer_iff _ _).mpr (hwaits hactive)
    · simp only [Domain.stopped, Function.update_of_ne hi] at hsequence
      exact h.timer hsequence hdue
  timedOut := by
    intro i sequence hsequence htimedOut
    by_cases hi : i = domain.performed
    · subst hi
      rw [Domain.stopped_sequence, Option.some.injEq] at hsequence
      subst hsequence
      cases htimedOut
    · simp only [Domain.stopped, Function.update_of_ne hi] at hsequence
      exact h.timedOut hsequence htimedOut

theorem step (h : Timely domain) (hwaits : TimerWaits domain action)
    (hstep : step infrastructure domain action = some next) : Timely next := by
  obtain hoperates | ⟨timeoutMs, rfl, rfl⟩ | ⟨i, rest, -, rfl⟩ | ⟨ms, rfl⟩ |
    ⟨i, sequence, due, hsequence, hdue, hnow, rfl⟩ | ⟨i, sequence, outcome, -, -, hnext⟩ :=
    step_cases hstep
  · apply h.mono hoperates.now.ge
    intro i after hafter
    obtain ⟨before, hbefore, rfl | rfl⟩ := hoperates.marked i after hafter
    · exact ⟨after, hbefore, rfl, rfl, .inl⟩
    · exact ⟨before, hbefore, rfl, rfl, .inl⟩
  · obtain ⟨promise, -, heq⟩ | ⟨hpromise, -, heq⟩ | ⟨hpromise, -, heq⟩ :=
      Domain.shutdown_cases infrastructure domain timeoutMs
    · rw [heq]
      exact ⟨h.timer, h.timedOut⟩
    · rw [heq]
      have hstopped := h.stopped (hwaits hpromise)
      exact ⟨hstopped.timer, hstopped.timedOut⟩
    · rw [heq]
      have hstopped := h.stopped (hwaits hpromise)
      have hstarting : Timely { domain.stopped timeoutMs with
          starting := domain.performed :: domain.starting } :=
        ⟨hstopped.timer, hstopped.timedOut⟩
      exact hstarting.drainRelay domain.performed
  · exact ⟨h.timer, h.timedOut⟩
  · exact h.mono (Nat.le_add_right _ _) fun i after hafter => ⟨after, hafter, rfl, rfl, .inl⟩
  · refine h.of_setSequence domain.closed (fun _ => rfl) (fun _ => rfl) ?_
    intro sequence' hsequence' _
    obtain rfl := Option.some.inj (hsequence.symm.trans hsequence')
    exact .inr ((h.timer hsequence hdue).mono hnow)
  · obtain ⟨-, rfl | rfl | ⟨names, rfl⟩ | ⟨error, rfl⟩⟩ := Domain.resumeShutdown_cases hnext
    · exact h.drainRelay i
    · exact h.setPhase _ i .closingBus
    · cases names with
      | nil => exact h.setPhase domain.closed i (.settled (.ok ()))
      | cons name rest => exact h.setPhase _ i (.closing rest)
    · exact h.setPhase domain.closed i (.settled (.error error))

end Timely

theorem timely_of_run (h : Machine.Run (step infrastructure) TimerWaits {} domain) :
    Timely domain :=
  h.inv ⟨nofun, nofun⟩ fun _ _ _ hI hwaits hstep => hI.step hwaits hstep

theorem elapsed_of_timedOut (hinv : domain.Inv) (h : Timely domain)
    (htimedOut : domain.TimedOut) : domain.Elapsed := by
  obtain ⟨i, sequence, hsequence, hfired⟩ := htimedOut
  exact ⟨i, (hinv.draining hsequence).lt, sequence, hsequence, h.timedOut hsequence hfired⟩

/-! ## Promises -/

/-- No call of `shutdown` is made by the code of others that an earlier one runs before it
returns. -/
def NotReentrant (domain : Domain) : Action → Prop
  | .shutdown _ => domain.starting = []
  | _ => True

instance (domain : Domain) : DecidablePred (NotReentrant domain)
  | .shutdown _ => inferInstanceAs (Decidable (_ = _))
  | .call .. | .dispatchCommand _ | .dispatchEvent _ | .resume .. | .returnShutdown | .tick _
  | .timeOut _ | .resumeShutdown .. => inferInstanceAs (Decidable True)

/-- There is one sequence at most, and its promise is the only one. -/
structure Single (domain : Domain) : Prop where
  performed : domain.performed ≤ 1
  none : domain.performed = 0 → domain.shutdownPromise = none ∧ domain.starting = []
  one : domain.performed = 1 →
    domain.shutdownPromise = some 0 ∧ domain.starting = [] ∨
      domain.shutdownPromise = Option.none ∧ domain.starting = [0]
  returned : ∀ promise ∈ domain.returned, promise = 0

namespace Single

theorem of_eq (h : Single domain) (hperformed : next.performed = domain.performed)
    (hpromise : next.shutdownPromise = domain.shutdownPromise)
    (hstarting : next.starting = domain.starting)
    (hreturned : next.returned = domain.returned) : Single next := by
  constructor
  · exact hperformed ▸ h.performed
  · rw [hperformed, hpromise, hstarting]
    exact h.none
  · rw [hperformed, hpromise, hstarting]
    exact h.one
  · rw [hreturned]
    exact h.returned

theorem drainRelay (h : Single domain) (i : Nat) :
    Single (domain.drainRelay infrastructure i) := by
  unfold Domain.drainRelay
  split_ifs
  · exact ⟨h.performed, h.none, h.one, h.returned⟩
  · exact ⟨h.performed, h.none, h.one, h.returned⟩

/-- Without a call that is not over, a promise that is missing has never been made. -/
theorem performed_eq_zero (h : Single domain) (hpromise : domain.shutdownPromise = Option.none)
    (hstarting : domain.starting = []) : domain.performed = 0 := by
  by_contra hne
  have hone : domain.performed = 1 := by
    have := h.performed
    omega
  rcases h.one hone with ⟨hsome, -⟩ | ⟨-, hcons⟩
  · exact absurd (hsome.symm.trans hpromise) nofun
  · exact absurd (hcons.symm.trans hstarting) nofun

theorem shutdown (h : Single domain) (hstarting : domain.starting = [])
    (timeoutMs : Option Milliseconds) : Single (domain.shutdown infrastructure timeoutMs) := by
  obtain ⟨promise, hpromise, heq⟩ | ⟨hpromise, -, heq⟩ | ⟨hpromise, -, heq⟩ :=
    Domain.shutdown_cases infrastructure domain timeoutMs
  · have hzero : promise = 0 := by
      by_cases hperformed : domain.performed = 0
      · exact absurd ((h.none hperformed).1.symm.trans hpromise) nofun
      · have hone : domain.performed = 1 := by
          have := h.performed
          omega
        rcases h.one hone with ⟨hsome, -⟩ | ⟨-, hcons⟩
        · exact Option.some.inj (hpromise.symm.trans hsome)
        · exact absurd (hcons.symm.trans hstarting) nofun
    rw [heq]
    exact ⟨h.performed, h.none, h.one, List.forall_mem_cons.mpr ⟨hzero, h.returned⟩⟩
  · have hperformed := h.performed_eq_zero hpromise hstarting
    rw [heq]
    refine ⟨?_, fun hzero => ?_, fun _ => .inl ⟨congrArg some hperformed, hstarting⟩,
      List.forall_mem_cons.mpr ⟨hperformed, h.returned⟩⟩
    · simp [Domain.assignPromise, Domain.stopped, hperformed]
    · simp [Domain.assignPromise, Domain.stopped] at hzero
  · have hperformed := h.performed_eq_zero hpromise hstarting
    have hstarted : Single { domain.stopped timeoutMs with
        starting := domain.performed :: domain.starting } := by
      refine ⟨?_, fun hzero => ?_, fun _ => .inr ⟨hpromise, ?_⟩, h.returned⟩
      · simp [Domain.stopped, hperformed]
      · simp [Domain.stopped] at hzero
      · simp [hperformed, hstarting]
    rw [heq]
    exact hstarted.drainRelay domain.performed

theorem step (h : Single domain) (hreentrant : NotReentrant domain action)
    (hstep : step infrastructure domain action = some next) : Single next := by
  obtain hoperates | ⟨timeoutMs, rfl, rfl⟩ | ⟨i, rest, hstarting, rfl⟩ | ⟨ms, rfl⟩ |
    ⟨i, sequence, due, -, -, -, rfl⟩ | ⟨i, sequence, outcome, -, -, hnext⟩ := step_cases hstep
  · exact h.of_eq hoperates.performed hoperates.shutdownPromise hoperates.starting
      hoperates.returned
  · exact h.shutdown hreentrant timeoutMs
  · have hone : domain.performed = 1 := by
      have hperformed := h.performed
      by_contra hne
      exact absurd (hstarting.symm.trans (h.none (by omega)).2) nofun
    obtain ⟨-, hnil⟩ | ⟨-, hcons⟩ := h.one hone
    · exact absurd (hstarting.symm.trans hnil) nofun
    · obtain ⟨rfl, rfl⟩ := List.cons.inj (hstarting.symm.trans hcons)
      exact ⟨h.performed, fun hzero => absurd (hone.symm.trans hzero) (by decide),
        fun _ => .inl ⟨rfl, rfl⟩, List.forall_mem_cons.mpr ⟨rfl, h.returned⟩⟩
  · exact ⟨h.performed, h.none, h.one, h.returned⟩
  · exact ⟨h.performed, h.none, h.one, h.returned⟩
  · obtain ⟨-, rfl | rfl | ⟨names, rfl⟩ | ⟨error, rfl⟩⟩ := Domain.resumeShutdown_cases hnext
    · exact h.drainRelay i
    · exact ⟨h.performed, h.none, h.one, h.returned⟩
    · cases names with
      | nil => exact ⟨h.performed, h.none, h.one, h.returned⟩
      | cons name rest => exact ⟨h.performed, h.none, h.one, h.returned⟩
    · exact ⟨h.performed, h.none, h.one, h.returned⟩

end Single

theorem single_of_run (h : Machine.Run (step infrastructure) NotReentrant {} domain) :
    Single domain := by
  apply h.inv ⟨Nat.zero_le 1, fun _ => ⟨rfl, rfl⟩, nofun, nofun⟩
  intro domain action next hI hreentrant hstep
  exact hI.step hreentrant hstep

/-- A call from within the first one starts a second sequence. -/
theorem performed_of_reentrant (h : Single domain) (hstarting : domain.starting ≠ [])
    (timeoutMs : Option Milliseconds) :
    (domain.shutdown infrastructure timeoutMs).performed = 2 := by
  have hone : domain.performed = 1 := by
    by_contra hne
    have := h.performed
    exact hstarting (h.none (by omega)).2
  obtain ⟨-, hnil⟩ | ⟨hpromise, -⟩ := h.one hone
  · exact absurd hnil hstarting
  · obtain ⟨promise, hsome, -⟩ | ⟨-, -, heq⟩ | ⟨-, -, heq⟩ :=
      Domain.shutdown_cases infrastructure domain timeoutMs
    · exact absurd (hsome.symm.trans hpromise) nofun
    · rw [heq]
      exact congrArg (· + 1) hone
    · rw [heq]
      unfold Domain.drainRelay
      split_ifs <;> exact congrArg (· + 1) hone

/-! ## The protocol -/

/-- In every reachable state the counter counts the accepted operations that have not
settled, and a step from there accepts an operation only if `shutdown` was never called.
As long as no call of `shutdown` is made from within another one, there is one sequence at
most, whose promise every call gets.  As long as the timeouts can be waited for, a step
closes something only if no operation runs or the timeout has elapsed. -/
theorem shutdown_protocol (h : Reached infrastructure domain) :
    ((domain.running.map Operation.id).Nodup ∧
      (∀ id, id ∈ domain.running.map Operation.id ↔ domain.Unsettled id) ∧
      domain.activeOperations = domain.running.length ∧ 0 ≤ domain.activeOperations) ∧
    (∀ action next, step infrastructure domain action = some next →
      ∀ id caller method, .accepted id caller method ∈ next.history →
        .accepted id caller method ∉ domain.history →
          domain.performed = 0 ∧ domain.returned = []) ∧
    (Machine.Run (step infrastructure) NotReentrant {} domain →
      domain.performed ≤ 1 ∧
      ∀ promise ∈ domain.returned, ∀ promise' ∈ domain.returned, promise = promise') ∧
    (Machine.Run (step infrastructure) TimerWaits {} domain →
      ∀ action next, step infrastructure domain action = some next →
        next.closed ≠ domain.closed → domain.running = [] ∨ domain.Elapsed) := by
  have hinv := inv_of_reached h
  have hcount := hinv.counted.count
  refine ⟨⟨hinv.counted.nodup, hinv.counted.unsettled, hcount, by omega⟩, ?_, ?_, ?_⟩
  · intro action next hstep id caller method hnext hnew
    have hbefore := hinv.before (not_shuttingDown_of_accepts hstep hnext hnew)
    exact ⟨hbefore.1, hbefore.2.2.1⟩
  · intro hrun
    have hsingle := single_of_run hrun
    refine ⟨hsingle.performed, fun promise hpromise promise' hpromise' => ?_⟩
    rw [hsingle.returned promise hpromise, hsingle.returned promise' hpromise']
  · intro hrun action next hstep hclosed
    exact (drained_of_closes hinv hstep hclosed).imp_right
      (elapsed_of_timedOut hinv (timely_of_run hrun))

/-- A scope whose function is dispatching a command when `shutdown` is called, and whose
timeout elapses. -/
def drainTimeout : List Action :=
  [.call none .withUnitOfWork false, .call (some 0) .dispatchCommand true,
    .shutdown (some (.finite 5)), .shutdown none, .resume 1 (.ok ()), .tick 5, .timeOut 0]

/-- One promise for both calls, and what is closed next is closed since the timeout has
elapsed: the scope is still under way. -/
theorem shutdown_protocol_drain :
    ∃ domain, Machine.play (step ⟨true, ["database"]⟩) drainTimeout {} = some domain ∧
      domain.performed ≤ 1 ∧
      (∀ promise ∈ domain.returned, ∀ promise' ∈ domain.returned, promise = promise') ∧
      ∀ action next, step ⟨true, ["database"]⟩ domain action = some next →
        next.closed ≠ domain.closed → domain.running = [] ∨ domain.Elapsed := by
  obtain ⟨domain, hplay⟩ := Option.isSome_iff_exists.mp
    (show (Machine.playMeeting (step ⟨true, ["database"]⟩)
      (fun domain action => NotReentrant domain action ∧ TimerWaits domain action)
      drainTimeout {}).isSome by decide +kernel)
  have hrun := Machine.run_of_playMeeting hplay
  obtain ⟨-, -, honce, hcloses⟩ := shutdown_protocol hrun.reaches
  have hpromises := honce (hrun.mono fun _ _ h => h.1)
  exact ⟨domain, Machine.play_of_playMeeting hplay, hpromises.1, hpromises.2,
    hcloses (hrun.mono fun _ _ h => h.2)⟩

/-- A timeout of 2^31 milliseconds ends after one: the event bus is closed while a command
runs, although the timeout has not elapsed.  And a call of `shutdown` from within
`eventBus.close()` starts a second sequence, whose promise it gets. -/
theorem not_shutdown_protocol :
    (∃ domain next, Machine.play (step ⟨false, []⟩)
        [.call none .dispatchCommand false, .shutdown (some (.finite 2147483648)), .tick 1,
          .timeOut 0] {} = some domain ∧
      step ⟨false, []⟩ domain (.resumeShutdown 0 (.ok ())) = some next ∧
      next.closed ≠ domain.closed ∧ domain.running ≠ [] ∧ ¬ domain.Elapsed) ∧
    ∃ domain, Machine.play (step ⟨false, []⟩)
        [.shutdown none, .shutdown none, .returnShutdown, .returnShutdown] {} = some domain ∧
      domain.performed = 2 ∧ domain.returned = [0, 1] := by
  constructor
  · have hplay : (Machine.play (step ⟨false, []⟩)
        [.call none .dispatchCommand false, .shutdown (some (.finite 2147483648)), .tick 1,
          .timeOut 0] {}).any (fun domain =>
        (step ⟨false, []⟩ domain (.resumeShutdown 0 (.ok ()))).any (fun next =>
          next.closed ≠ domain.closed ∧ domain.running ≠ [] ∧ ¬ domain.Elapsed)) := by
      decide +kernel
    obtain ⟨domain, hdomain, hnext⟩ := (Option.any_eq_true _ _).mp hplay
    obtain ⟨next, hstep, hfacts⟩ := (Option.any_eq_true _ _).mp hnext
    exact ⟨domain, next, hdomain, hstep, of_decide_eq_true hfacts⟩
  · have hplay : (Machine.play (step ⟨false, []⟩)
        [.shutdown none, .shutdown none, .returnShutdown, .returnShutdown] {}).any
        (fun domain => domain.performed = 2 ∧ domain.returned = [0, 1]) := by decide +kernel
    obtain ⟨domain, hdomain, hfacts⟩ := (Option.any_eq_true _ _).mp hplay
    exact ⟨domain, hdomain, of_decide_eq_true hfacts⟩

end Noddde.Shutdown
