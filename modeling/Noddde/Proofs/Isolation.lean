import Noddde.Adapters.SyncUnitOfWork
import Noddde.Async.Machine
import Mathlib.Data.List.Infix
/-!
# Transactions on the synchronous SQLite connection

The mutex keeps the units of work apart.  Nothing keeps the other statements out of an
open transaction, so that they have to be issued while there is none.
-/

namespace Noddde.Adapters

variable {D A E : Type}

/-! ## Isolation -/

/-- The unit of work between whose `BEGIN` and end the connection is. -/
def openUnit : List (Entry D) → Option Nat
  | [] => none
  | .began uow :: _ => some uow
  | .executed _ _ _ :: before => openUnit before
  | .committed _ :: _ => none
  | .rolledBack _ :: _ => none

/-- An entry that a unit of work has made after its `BEGIN`. -/
def Entry.Of (uow : Nat) : Entry D → Prop
  | .began _ => False
  | .executed issuer _ _ => issuer = some uow
  | .committed uow' => uow' = uow
  | .rolledBack uow' => uow' = uow

/-- What an entry does to a connection on which statements from outside are out of reach
of the open transaction. -/
def Entry.apply (entry : Entry D) (connection : Connection D) : Connection D :=
  match entry with
  | .began _ => { connection with transaction := some connection.committed }
  | .executed none _ left => { connection with committed := left.getD connection.committed }
  | .executed (some _) _ left => connection.leave left
  | .committed _ => { committed := connection.seen }
  | .rolledBack _ => { committed := connection.committed }

def replay (db : D) (history : List (Entry D)) : Connection D :=
  history.foldr Entry.apply { committed := db }

/-- All that happens in a transaction belongs to its unit of work, the other statements
see what is committed, and what they leave behind stays committed. -/
structure Isolated (db : D) (s : SyncSQLite D A E) : Prop where
  exclusive : ∀ entry before, (entry :: before) <:+ s.history →
    ∀ uow ∈ openUnit before, entry.Of uow
  reads : ∀ seen left before, (.executed none seen left :: before) <:+ s.history →
    seen = (replay db before).committed
  durable : s.connection.committed = (replay db s.history).committed

/-- No unit of work is in its transaction. -/
def SyncSQLite.Idle (s : SyncSQLite D A E) : Prop :=
  ∀ uow promise operations, (s.units uow).commitCall ≠ .running promise operations

/-- A statement from outside is issued only while no unit of work is in its transaction. -/
def KeptOut (s : SyncSQLite D A E) : SyncAction D A E → Prop
  | .outside _ => s.Idle
  | _ => True

/-! ## The mutex -/

def CommitCall.promise : CommitCall D A E → Option Nat
  | .queued _ promise => some promise
  | .running promise _ => some promise
  | .notCalled | .resolved _ | .rejected => none

namespace SyncCommitMutex

variable {U : Type} [DecidableEq U] {mutex : SyncCommitMutex} {held : U → Option Nat}
  {u v : U} {p q : Nat}

/-- Promises are resolved in order, and each of the others is one caller's. -/
structure Ordered (mutex : SyncCommitMutex) (held : U → Option Nat) : Prop where
  created : ∀ p ∈ mutex.resolved, p ≤ mutex.queue
  inOrder : ∀ p ∈ mutex.resolved, ∀ q ≤ p, q ∈ mutex.resolved
  pending : ∀ u, ∀ p ∈ held u, p ≤ mutex.queue ∧ p ∉ mutex.resolved
  distinct : ∀ u v, ∀ p ∈ held u, p ∈ held v → u = v

namespace Ordered

theorem run (h : Ordered mutex held) (u : U) :
    Ordered mutex.run.2 (Function.update held u (some (mutex.queue + 1))) where
  created := fun p hp => Nat.le_succ_of_le (h.created p hp)
  inOrder := h.inOrder
  pending := by
    intro v p hp
    by_cases hv : v = u
    · subst hv
      rw [Function.update_self] at hp
      obtain rfl := Option.some.inj hp
      have hnew : mutex.queue + 1 ∉ mutex.resolved := fun hmem =>
        absurd (h.created _ hmem) (Nat.not_succ_le_self _)
      exact ⟨le_rfl, hnew⟩
    · rw [Function.update_of_ne hv] at hp
      obtain ⟨hle, hpending⟩ := h.pending v p hp
      exact ⟨Nat.le_succ_of_le hle, hpending⟩
  distinct := by
    have hold : ∀ v, mutex.queue + 1 ∉ held v := fun v hmem =>
      absurd (h.pending v _ hmem).1 (Nat.not_succ_le_self _)
    intro v w p hv hw
    by_cases hvu : v = u
    · by_cases hwu : w = u
      · exact hvu.trans hwu.symm
      · subst hvu
        rw [Function.update_self] at hv
        rw [Function.update_of_ne hwu] at hw
        obtain rfl := Option.some.inj hv
        exact absurd hw (hold w)
    · rw [Function.update_of_ne hvu] at hv
      by_cases hwu : w = u
      · subst hwu
        rw [Function.update_self] at hw
        obtain rfl := Option.some.inj hw
        exact absurd hv (hold v)
      · rw [Function.update_of_ne hwu] at hw
        exact h.distinct v w p hv hw

/-- The promise before one's own is resolved: it is one's turn. -/
theorem release (h : Ordered mutex held) (hu : p + 1 ∈ held u) (hp : p ∈ mutex.resolved) :
    Ordered (mutex.release (p + 1)) (Function.update held u none) where
  created := by
    intro q hq
    cases List.mem_cons.mp hq with
    | inl heq => exact heq.le.trans (h.pending u _ hu).1
    | inr hmem => exact h.created q hmem
  inOrder := by
    intro q hq r hr
    apply List.mem_cons.mpr
    cases List.mem_cons.mp hq with
    | inl heq =>
        by_cases hr' : r = p + 1
        · exact .inl hr'
        · exact .inr (h.inOrder p hp r (by omega))
    | inr hmem => exact .inr (h.inOrder q hmem r hr)
  pending := by
    intro v q hq
    by_cases hv : v = u
    · subst hv
      rw [Function.update_self] at hq
      cases hq
    · rw [Function.update_of_ne hv] at hq
      obtain ⟨hle, hpending⟩ := h.pending v q hq
      refine ⟨hle, fun hmem => ?_⟩
      cases List.mem_cons.mp hmem with
      | inl heq =>
          subst heq
          exact hv (h.distinct v u _ hq hu)
      | inr hold => exact hpending hold
  distinct := by
    intro v w q hv hw
    by_cases hvu : v = u
    · subst hvu
      rw [Function.update_self] at hv
      cases hv
    · by_cases hwu : w = u
      · subst hwu
        rw [Function.update_self] at hw
        cases hw
      · rw [Function.update_of_ne hvu] at hv
        rw [Function.update_of_ne hwu] at hw
        exact h.distinct v w q hv hw

omit [DecidableEq U] in
/-- It is one caller's turn at a time. -/
theorem turn_unique (h : Ordered mutex held) (hu : p + 1 ∈ held u) (hp : p ∈ mutex.resolved)
    (hv : q + 1 ∈ held v) (hq : q ∈ mutex.resolved) : u = v := by
  have hle : p + 1 ≤ q + 1 := by
    by_contra hlt
    exact (h.pending v _ hv).2 (h.inOrder p hp _ (by omega))
  have hge : q + 1 ≤ p + 1 := by
    by_contra hlt
    exact (h.pending u _ hu).2 (h.inOrder q hq _ (by omega))
  have heq : p + 1 = q + 1 := Nat.le_antisymm hle hge
  rw [← heq] at hv
  exact h.distinct u v _ hu hv

end Ordered

end SyncCommitMutex

/-! ## The invariant -/

def SyncSQLite.calls (s : SyncSQLite D A E) (uow : Nat) : CommitCall D A E :=
  (s.units uow).commitCall

/-- The promises that the calls have to resolve. -/
def SyncSQLite.held (s : SyncSQLite D A E) (uow : Nat) : Option Nat := (s.calls uow).promise

/-- A history that keeps the transactions apart from the rest, and the connection after
it. -/
structure Recorded (db : D) (connection : Connection D) (history : List (Entry D)) : Prop where
  replayed : replay db history = connection
  closed : openUnit history = none → connection.transaction = none
  exclusive : ∀ entry before, (entry :: before) <:+ history →
    ∀ uow ∈ openUnit before, entry.Of uow
  reads : ∀ seen left before, (.executed none seen left :: before) <:+ history →
    seen = (replay db before).committed

theorem Recorded.nil (db : D) : Recorded db { committed := db } [] where
  replayed := rfl
  closed := fun _ => rfl
  exclusive := fun _ _ hsuffix => absurd (List.suffix_nil.mp hsuffix) (List.cons_ne_nil _ _)
  reads := fun _ _ _ hsuffix => absurd (List.suffix_nil.mp hsuffix) (List.cons_ne_nil _ _)

/-- An entry of the unit that is in its transaction, or of anybody if there is none. -/
theorem Recorded.cons {db : D} {connection : Connection D} {history : List (Entry D)}
    (h : Recorded db connection history) (entry : Entry D)
    (hof : ∀ uow ∈ openUnit history, entry.Of uow)
    (hreads : ∀ seen left, entry = .executed none seen left → seen = connection.committed)
    (hclosed : openUnit (entry :: history) = none →
      (entry.apply connection).transaction = none) :
    Recorded db (entry.apply connection) (entry :: history) where
  replayed := congrArg entry.apply h.replayed
  closed := hclosed
  exclusive := by
    intro entry' before hsuffix
    cases List.suffix_cons_iff.mp hsuffix with
    | inl heq =>
        obtain ⟨rfl, rfl⟩ := List.cons.inj heq
        exact hof
    | inr hold => exact h.exclusive entry' before hold
  reads := by
    intro seen left before hsuffix
    cases List.suffix_cons_iff.mp hsuffix with
    | inl heq =>
        obtain ⟨hentry, rfl⟩ := List.cons.inj heq
        rw [h.replayed]
        exact hreads seen left hentry.symm
    | inr hold => exact h.reads seen left before hold

/-- Whoever is in a transaction has its turn, and the connection is in no other. -/
structure SyncInv (db : D) (s : SyncSQLite D A E) : Prop where
  ordered : s.mutex.Ordered s.held
  fresh : ∀ uow, (s.units uow).completed = false → s.calls uow = .notCalled
  queued : ∀ uow previous promise, s.calls uow = .queued previous promise →
    promise = previous + 1
  turn : ∀ uow promise operations, s.calls uow = .running promise operations →
    ∃ previous ∈ s.mutex.resolved, promise = previous + 1
  opened : ∀ uow, uow ∈ openUnit s.history ↔
    ∃ promise operations, s.calls uow = .running promise operations
  recorded : Recorded db s.connection s.history

namespace SyncInv

variable {db : D} {s t : SyncSQLite D A E} {uow promise previous : Nat}
  {operations : List (Operation D A)}

theorem isolated (h : SyncInv db s) : Isolated db s where
  exclusive := h.recorded.exclusive
  reads := h.recorded.reads
  durable := by rw [h.recorded.replayed]

theorem start (db : D) : SyncInv db ({ connection := { committed := db } } : SyncSQLite D A E) where
  ordered :=
    { created := fun p hp => (List.mem_singleton.mp hp).le
      inOrder := by
        intro p hp q hq
        rw [List.mem_singleton.mp hp] at hq
        exact List.mem_singleton.mpr (Nat.le_zero.mp hq)
      pending := nofun
      distinct := nofun }
  fresh := fun _ _ => rfl
  queued := nofun
  turn := nofun
  opened := fun _ => iff_of_false nofun nofun
  recorded := .nil db

/-- Nobody else is in a transaction at one's turn. -/
theorem running_unique (h : SyncInv db s) (hheld : previous + 1 ∈ s.held uow)
    (hprevious : previous ∈ s.mutex.resolved) {uow' : Nat}
    (hrunning : s.calls uow' = .running promise operations) : uow' = uow := by
  obtain ⟨previous', hprevious', rfl⟩ := h.turn uow' promise operations hrunning
  have hheld' : previous' + 1 ∈ s.held uow' := by
    rw [SyncSQLite.held, hrunning]
    rfl
  exact h.ordered.turn_unique hheld' hprevious' hheld hprevious

theorem advance (h : SyncInv db s) (hheld : previous + 1 ∈ s.held uow)
    (hprevious : previous ∈ s.mutex.resolved) {call : CommitCall D A E}
    (hcalls : t.calls = Function.update s.calls uow call)
    (hcompleted : ∀ v, (t.units v).completed = (s.units v).completed)
    (hordered : t.mutex.Ordered t.held) (hresolved : s.mutex.resolved ⊆ t.mutex.resolved)
    (hqueued : ∀ p q, call ≠ .queued p q)
    (hturn : ∀ p operations, call = .running p operations → p = previous + 1)
    (hopen : ∀ v, v ∈ openUnit t.history ↔
      v = uow ∧ ∃ p operations, call = .running p operations)
    (hrecorded : Recorded db t.connection t.history) : SyncInv db t := by
  have hself : t.calls uow = call := by rw [hcalls, Function.update_self]
  have hother : ∀ v, v ≠ uow → t.calls v = s.calls v := by
    intro v hv
    rw [hcalls, Function.update_of_ne hv]
  refine
    { ordered := hordered, fresh := ?_, queued := ?_, turn := ?_, opened := ?_,
      recorded := hrecorded }
  · intro v hv
    rw [hcompleted] at hv
    have hnot := h.fresh v hv
    by_cases hvu : v = uow
    · subst hvu
      rw [SyncSQLite.held, hnot] at hheld
      cases hheld
    · rw [hother v hvu, hnot]
  · intro v p q hv
    by_cases hvu : v = uow
    · subst hvu
      rw [hself] at hv
      exact absurd hv (hqueued p q)
    · exact h.queued v p q (by rw [← hother v hvu, hv])
  · intro v p operations' hv
    by_cases hvu : v = uow
    · subst hvu
      rw [hself] at hv
      exact ⟨previous, hresolved hprevious, hturn p operations' hv⟩
    · rw [hother v hvu] at hv
      exact absurd (h.running_unique hheld hprevious hv) hvu
  · intro v
    rw [hopen]
    constructor
    · rintro ⟨rfl, p, operations', hcall⟩
      exact ⟨p, operations', hself.trans hcall⟩
    · rintro ⟨p, operations', hv⟩
      by_cases hvu : v = uow
      · subst hvu
        exact ⟨rfl, p, operations', hself.symm.trans hv⟩
      · rw [hother v hvu] at hv
        exact absurd (h.running_unique hheld hprevious hv) hvu

theorem proceed (h : SyncInv db s) (hheld : previous + 1 ∈ s.held uow)
    (hprevious : previous ∈ s.mutex.resolved)
    (hcalls : t.calls = Function.update s.calls uow (.running (previous + 1) operations))
    (hcompleted : ∀ v, (t.units v).completed = (s.units v).completed)
    (hmutex : t.mutex = s.mutex) (hopen : openUnit t.history = some uow)
    (hrecorded : Recorded db t.connection t.history) : SyncInv db t := by
  have hsame : t.held = s.held := by
    funext v
    by_cases hv : v = uow
    · subst hv
      rw [SyncSQLite.held, hcalls, Function.update_self]
      exact hheld.symm
    · rw [SyncSQLite.held, hcalls, Function.update_of_ne hv, SyncSQLite.held]
  apply h.advance hheld hprevious hcalls hcompleted
  · rw [hmutex, hsame]
    exact h.ordered
  · rw [hmutex]
    exact List.Subset.refl _
  · nofun
  · intro p operations' hcall
    cases hcall
    rfl
  · intro v
    rw [hopen, Option.mem_some_iff]
    exact ⟨fun heq => ⟨heq.symm, _, _, rfl⟩, fun hv => hv.1.symm⟩
  · exact hrecorded

theorem settle (h : SyncInv db s) (hheld : previous + 1 ∈ s.held uow)
    (hprevious : previous ∈ s.mutex.resolved) {call : CommitCall D A E}
    (hcall : (∃ events, call = .resolved events) ∨ call = .rejected)
    (hcalls : t.calls = Function.update s.calls uow call)
    (hcompleted : ∀ v, (t.units v).completed = (s.units v).completed)
    (hmutex : t.mutex = s.mutex.release (previous + 1)) (hopen : openUnit t.history = none)
    (hrecorded : Recorded db t.connection t.history) : SyncInv db t := by
  have hends : call.promise = none ∧ (∀ p q, call ≠ .queued p q) ∧
      ∀ p operations, call ≠ .running p operations := by
    rcases hcall with ⟨events, rfl⟩ | rfl
    · exact ⟨rfl, nofun, nofun⟩
    · exact ⟨rfl, nofun, nofun⟩
  obtain ⟨hpromise, hqueued, hrunning⟩ := hends
  have hupdate : t.held = Function.update s.held uow none := by
    funext v
    by_cases hv : v = uow
    · subst hv
      rw [Function.update_self, SyncSQLite.held, hcalls, Function.update_self, hpromise]
    · rw [Function.update_of_ne hv, SyncSQLite.held, hcalls, Function.update_of_ne hv,
        SyncSQLite.held]
  apply h.advance hheld hprevious hcalls hcompleted
  · rw [hmutex, hupdate]
    exact h.ordered.release hheld hprevious
  · rw [hmutex]
    exact List.subset_cons_self _ _
  · exact hqueued
  · exact fun p operations' heq => absurd heq (hrunning p operations')
  · intro v
    rw [hopen]
    refine iff_of_false nofun ?_
    rintro ⟨-, p, operations', heq⟩
    exact hrunning p operations' heq
  · exact hrecorded

/-! ## Steps -/

theorem calls_setUnit (uow : Nat) (unit : DrizzleUnitOfWork D A E) (s : SyncSQLite D A E) :
    (s.setUnit uow unit).calls = Function.update s.calls uow unit.commitCall :=
  Function.comp_update DrizzleUnitOfWork.commitCall s.units uow unit

theorem completed_setCall (uow : Nat) (call : CommitCall D A E) (s : SyncSQLite D A E) (v : Nat) :
    ((s.setCall uow call).units v).completed = (s.units v).completed := by
  have hcompleted := Function.comp_update DrizzleUnitOfWork.completed s.units uow
    { s.units uow with commitCall := call }
  have hself := Function.update_eq_self uow (DrizzleUnitOfWork.completed ∘ s.units)
  exact congrFun (hcompleted.trans hself) v

theorem openUnit_of_running (h : SyncInv db s)
    (hcall : s.calls uow = .running promise operations) : openUnit s.history = some uow :=
  (h.opened uow).mpr ⟨promise, operations, hcall⟩

theorem openUnit_of_idle (h : SyncInv db s) (hidle : s.Idle) : openUnit s.history = none := by
  apply Option.eq_none_iff_forall_not_mem.mpr
  intro v hv
  obtain ⟨p, operations', hcall⟩ := (h.opened v).mp hv
  exact hidle v p operations' hcall

theorem rollback_getD (connection : Connection D) :
    connection.rollback.getD connection = { committed := connection.committed } := by
  obtain ⟨committed, transaction⟩ := connection
  cases transaction with
  | none => rfl
  | some next => rfl

theorem rollBack (h : SyncInv db s) (hcall : s.calls uow = .running promise operations) :
    SyncInv db (s.rollBack uow promise) := by
  obtain ⟨previous, hprevious, rfl⟩ := h.turn uow promise operations hcall
  have hheld : previous + 1 ∈ s.held uow := by
    rw [SyncSQLite.held, hcall]
    rfl
  have hopen := h.openUnit_of_running hcall
  have hrecorded := h.recorded.cons (.rolledBack uow)
    (fun v hv => Option.mem_unique hopen hv) nofun fun _ => rfl
  apply h.settle hheld hprevious (.inr rfl)
  · exact calls_setUnit uow _ _
  · exact completed_setCall uow _ _
  · rfl
  · rfl
  · show Recorded db (s.connection.rollback.getD s.connection) _
    rw [rollback_getD]
    exact hrecorded

theorem begin (h : SyncInv db s) (hcall : s.calls uow = .queued previous promise)
    (hprevious : previous ∈ s.mutex.resolved) (hstep : s.resume uow = some t) :
    SyncInv db t := by
  obtain rfl := h.queued uow previous promise hcall
  have hheld : previous + 1 ∈ s.held uow := by
    rw [SyncSQLite.held, hcall]
    rfl
  have hopen : openUnit s.history = none := by
    apply Option.eq_none_iff_forall_not_mem.mpr
    intro v hv
    obtain ⟨p, operations', hrunning⟩ := (h.opened v).mp hv
    obtain rfl := h.running_unique hheld hprevious hrunning
    rw [hcall] at hrunning
    cases hrunning
  have hclosed := h.recorded.closed hopen
  have hbegin : s.connection.begin =
      some { s.connection with transaction := some s.connection.committed } := by
    rw [Connection.begin, hclosed]
  have hrecorded := h.recorded.cons (.began uow)
    (fun v hv => absurd (hopen.symm.trans hv) nofun) nofun nofun
  rw [SyncSQLite.calls] at hcall
  rw [SyncSQLite.resume, hcall] at hstep
  simp only [if_pos hprevious, hbegin] at hstep
  obtain rfl := Option.some.inj hstep
  apply h.proceed hheld hprevious
  · exact calls_setUnit uow _ _
  · exact completed_setCall uow _ _
  · rfl
  · rfl
  · exact hrecorded

theorem run (h : SyncInv db s) (hcall : s.calls uow = .running promise operations)
    (hstep : s.resume uow = some t) : SyncInv db t := by
  obtain ⟨previous, hprevious, rfl⟩ := h.turn uow promise operations hcall
  have hheld : previous + 1 ∈ s.held uow := by
    rw [SyncSQLite.held, hcall]
    rfl
  have hopen := h.openUnit_of_running hcall
  have hown : ∀ entry : Entry D, entry.Of uow → ∀ v ∈ openUnit s.history, entry.Of v := by
    intro entry hof v hv
    obtain rfl := Option.mem_unique hopen hv
    exact hof
  have hunit := hcall
  rw [SyncSQLite.calls] at hunit
  rw [SyncSQLite.resume, hunit] at hstep
  cases operations with
  | nil =>
      cases htransaction : s.connection.transaction with
      | none =>
          have hcommit : s.connection.commit = none := by rw [Connection.commit, htransaction]; rfl
          simp only [hcommit] at hstep
          obtain rfl := Option.some.inj hstep
          exact h.rollBack hcall
      | some next =>
          have hcommit : s.connection.commit = some { committed := next } := by
            rw [Connection.commit, htransaction]
            rfl
          have hseen : s.connection.seen = next := by
            rw [Connection.seen, htransaction]
            rfl
          have hrecorded := h.recorded.cons (.committed uow) (hown _ rfl) nofun fun _ => rfl
          simp only [hcommit] at hstep
          obtain rfl := Option.some.inj hstep
          apply h.settle hheld hprevious (.inl ⟨_, rfl⟩)
          · exact calls_setUnit uow _ _
          · exact completed_setCall uow _ _
          · rfl
          · rfl
          · show Recorded db { committed := next } _
            rw [← hseen]
            exact hrecorded
  | cons operation rest =>
      cases operation with
      | resolve =>
          obtain rfl := Option.some.inj hstep
          apply h.proceed hheld hprevious
          · exact calls_setUnit uow _ _
          · exact completed_setCall uow _ _
          · rfl
          · exact hopen
          · exact h.recorded
      | reject =>
          obtain rfl := Option.some.inj hstep
          exact h.rollBack hcall
      | statement statement next =>
          have hrecorded := h.recorded.cons
            (.executed (some uow) s.connection.seen (statement s.connection.seen).2) (hown _ rfl)
            nofun fun hnone => absurd (hopen.symm.trans hnone) nofun
          obtain rfl := Option.some.inj hstep
          apply h.proceed hheld hprevious
          · exact calls_setUnit uow _ _
          · exact completed_setCall uow _ _
          · rfl
          · exact hopen
          · exact hrecorded

/-- Outside of a transaction there is nothing else to change. -/
theorem leave_outside {connection : Connection D} (h : connection.transaction = none)
    {seen : D} {left : Option D} :
    connection.leave left = Entry.apply (.executed none seen left) connection := by
  obtain ⟨committed, transaction⟩ := connection
  subst h
  cases left with
  | none => rfl
  | some next => rfl

/-- A statement from outside, while no unit of work is in its transaction. -/
theorem outside (h : SyncInv db s) (hidle : s.Idle) (left : Option D) :
    SyncInv db (s.execute none left) := by
  have hopen := h.openUnit_of_idle hidle
  have hclosed := h.recorded.closed hopen
  have hseen : s.connection.seen = s.connection.committed := by
    rw [Connection.seen, hclosed]
    rfl
  refine
    { ordered := h.ordered, fresh := h.fresh, queued := h.queued, turn := h.turn,
      opened := h.opened, recorded := ?_ }
  show Recorded db (s.connection.leave left) _
  rw [leave_outside hclosed]
  apply h.recorded.cons
  · exact fun v hv => absurd (hopen.symm.trans hv) nofun
  · intro seen left' heq
    cases heq
    exact hseen
  · exact fun _ => hclosed

/-- A call that only changes what is enlisted. -/
theorem enlisted (h : SyncInv db s) {unit : DrizzleUnitOfWork D A E}
    (hcall : unit.commitCall = s.calls uow)
    (hcompleted : unit.completed = false → (s.units uow).completed = false) :
    SyncInv db (s.setUnit uow unit) := by
  have hcalls : (s.setUnit uow unit).calls = s.calls := by
    rw [calls_setUnit, hcall, Function.update_eq_self]
  have hheld : (s.setUnit uow unit).held = s.held := by
    funext v
    rw [SyncSQLite.held, hcalls, SyncSQLite.held]
  refine
    { ordered := ?_, fresh := ?_, queued := ?_, turn := ?_, opened := ?_,
      recorded := h.recorded }
  · rw [hheld]
    exact h.ordered
  · intro v hv
    rw [hcalls]
    apply h.fresh
    have hunits : (s.setUnit uow unit).units = Function.update s.units uow unit := rfl
    by_cases hvu : v = uow
    · subst hvu
      rw [hunits, Function.update_self] at hv
      exact hcompleted hv
    · rw [hunits, Function.update_of_ne hvu] at hv
      exact hv
  · rw [hcalls]
    exact h.queued
  · rw [hcalls]
    exact h.turn
  · rw [hcalls]
    exact h.opened

theorem queue (h : SyncInv db s) (hfresh : s.calls uow = .notCalled)
    {unit : DrizzleUnitOfWork D A E} (hcompleted : unit.completed = true)
    (hcall : unit.commitCall = .queued s.mutex.queue (s.mutex.queue + 1)) :
    SyncInv db { s.setUnit uow unit with mutex := s.mutex.run.2 } := by
  have hcalls : (s.setUnit uow unit).calls =
      Function.update s.calls uow (.queued s.mutex.queue (s.mutex.queue + 1)) := by
    rw [calls_setUnit, hcall]
  have hself : (s.setUnit uow unit).calls uow = .queued s.mutex.queue (s.mutex.queue + 1) := by
    rw [hcalls, Function.update_self]
  have hother : ∀ v, v ≠ uow → (s.setUnit uow unit).calls v = s.calls v := by
    intro v hv
    rw [hcalls, Function.update_of_ne hv]
  have hrunning : ∀ v p operations, (s.setUnit uow unit).calls v = .running p operations ↔
      s.calls v = .running p operations := by
    intro v p operations
    by_cases hvu : v = uow
    · subst hvu
      rw [hself, hfresh]
      exact iff_of_false nofun nofun
    · rw [hother v hvu]
  have hheld : (s.setUnit uow unit).held =
      Function.update s.held uow (some (s.mutex.queue + 1)) := by
    funext v
    by_cases hvu : v = uow
    · subst hvu
      rw [Function.update_self, SyncSQLite.held, hself]
      rfl
    · rw [Function.update_of_ne hvu, SyncSQLite.held, hother v hvu, SyncSQLite.held]
  refine
    { ordered := ?_, fresh := ?_, queued := ?_, turn := ?_, opened := ?_,
      recorded := h.recorded }
  · show s.mutex.run.2.Ordered (s.setUnit uow unit).held
    rw [hheld]
    exact h.ordered.run uow
  · intro v hv
    have hunits : (s.setUnit uow unit).units = Function.update s.units uow unit := rfl
    have hvu : v ≠ uow := by
      rintro rfl
      rw [hunits, Function.update_self, hcompleted] at hv
      cases hv
    rw [hunits, Function.update_of_ne hvu] at hv
    exact (hother v hvu).trans (h.fresh v hv)
  · intro v p q hv
    by_cases hvu : v = uow
    · subst hvu
      cases hself.symm.trans hv
      rfl
    · exact h.queued v p q ((hother v hvu).symm.trans hv)
  · exact fun v p operations hv => h.turn v p operations ((hrunning v p operations).mp hv)
  · intro v
    have hsame := exists₂_congr fun p operations => (hrunning v p operations).symm
    exact (h.opened v).trans hsame

/-- Each method refuses a unit of work that is completed. -/
theorem completed_of_ok {β : Type} {unit : DrizzleUnitOfWork D A E} {x : Except String β} {b : β}
    (h : (do unit.assertNotCompleted; x).toOption = some b) :
    unit.completed = false ∧ x.toOption = some b := by
  cases hcompleted : unit.completed with
  | true =>
      rw [DrizzleUnitOfWork.assertNotCompleted, hcompleted] at h
      cases h
  | false =>
      rw [DrizzleUnitOfWork.assertNotCompleted, hcompleted] at h
      exact ⟨rfl, h⟩

theorem step (h : SyncInv db s) {action : SyncAction D A E} (hkept : KeptOut s action)
    (hstep : s.step action = some t) : SyncInv db t := by
  cases action with
  | enlist uow operation =>
      obtain ⟨unit, hunit, rfl⟩ := Option.map_eq_some_iff.mp hstep
      obtain ⟨hcompleted, heq⟩ := completed_of_ok hunit
      obtain rfl := Option.some.inj heq
      exact h.enlisted rfl id
  | deferPublish uow events =>
      obtain ⟨unit, hunit, rfl⟩ := Option.map_eq_some_iff.mp hstep
      obtain ⟨hcompleted, heq⟩ := completed_of_ok hunit
      obtain rfl := Option.some.inj heq
      exact h.enlisted rfl id
  | rollback uow =>
      obtain ⟨unit, hunit, rfl⟩ := Option.map_eq_some_iff.mp hstep
      obtain ⟨hcompleted, heq⟩ := completed_of_ok hunit
      obtain rfl := Option.some.inj heq
      exact h.enlisted rfl nofun
  | commit uow =>
      obtain ⟨⟨unit, mutex⟩, hunit, rfl⟩ := Option.map_eq_some_iff.mp hstep
      obtain ⟨hcompleted, heq⟩ := completed_of_ok hunit
      obtain ⟨rfl, rfl⟩ := Prod.mk.inj (Option.some.inj heq)
      exact h.queue (h.fresh uow hcompleted) rfl rfl
  | resume uow =>
      have hresume : s.resume uow = some t := hstep
      cases hcall : s.calls uow with
      | queued previous promise =>
          by_cases hprevious : previous ∈ s.mutex.resolved
          · exact h.begin hcall hprevious hresume
          · rw [SyncSQLite.calls] at hcall
            rw [SyncSQLite.resume, hcall] at hresume
            simp only [if_neg hprevious] at hresume
            cases hresume
      | running promise operations => exact h.run hcall hresume
      | notCalled | resolved | rejected =>
          rw [SyncSQLite.calls] at hcall
          rw [SyncSQLite.resume, hcall] at hresume
          cases hresume
  | outside statement =>
      obtain rfl := Option.some.inj hstep
      exact h.outside hkept _

end SyncInv

/-! ## Runs -/

namespace SyncInv

variable {db : D} {s : SyncSQLite D A E}

/-- A statement from outside leaves transactions isolated exactly if there is none. -/
theorem outside_iff (h : SyncInv db s) (left : Option D) :
    Isolated db (s.execute none left) ↔ s.Idle := by
  constructor
  · intro hisolated uow promise operations hcall
    have hopen := h.openUnit_of_running hcall
    have hissuer : none = some uow :=
      hisolated.exclusive _ s.history (List.suffix_refl _) uow hopen
    cases hissuer
  · exact fun hidle => (h.outside hidle left).isolated

end SyncInv

/-- As long as no statement is issued outside while a unit of work is in its transaction,
transactions are isolated, and the first one that is ends that. -/
theorem isolated_of_run (db : D) (s : SyncSQLite D A E)
    (hrun : Machine.Run SyncSQLite.step KeptOut { connection := { committed := db } } s) :
    Isolated db s ∧ ∀ statement t, s.step (.outside statement) = some t →
      (Isolated db t ↔ s.Idle) := by
  have h : SyncInv db s :=
    hrun.inv (.start db) fun t action u ht hkept hstep => ht.step hkept hstep
  refine ⟨h.isolated, fun statement t hstep => ?_⟩
  obtain rfl := Option.some.inj hstep
  exact h.outside_iff _

/-! ## Two runs -/

def insertRow (row : Nat) : Statement (List Nat) Unit := fun db => ((), some (db ++ [row]))

/-- Two inserts, after which the operation rejects. -/
def failingSave : Operation (List Nat) Unit :=
  .statement (insertRow 1) fun _ => .statement (insertRow 2) fun _ => .reject

abbrev emptyDatabase : SyncSQLite (List Nat) Unit Unit := { connection := { committed := [] } }

/-- What is told the connection of a row that is inserted from outside, and of a save that
fails after it. -/
def insertThenSave : List (Entry (List Nat)) :=
  [.rolledBack 0, .executed (some 0) [7, 1] (some [7, 1, 2]), .executed (some 0) [7] (some [7, 1]),
    .began 0, .executed none [] (some [7])]

/-- The row is not touched by the `ROLLBACK`. -/
theorem isolated_insertThenSave : ∃ s : SyncSQLite (List Nat) Unit Unit,
    s.history = insertThenSave ∧ Isolated [] s := by
  have hidle : emptyDatabase.Idle := nofun
  have hinserted : Machine.Run SyncSQLite.step KeptOut emptyDatabase
      (emptyDatabase.execute none (some [7])) :=
    .tail .refl (show KeptOut emptyDatabase (.outside (insertRow 7)) from hidle) rfl
  have hplay : (Machine.play SyncSQLite.step
      [.enlist 0 failingSave, .commit 0, .resume 0, .resume 0, .resume 0, .resume 0]
      (emptyDatabase.execute none (some [7]))).map SyncSQLite.history = some insertThenSave := rfl
  obtain ⟨s, hs, hhistory⟩ := Option.map_eq_some_iff.mp hplay
  have hsave : Machine.Run SyncSQLite.step KeptOut (emptyDatabase.execute none (some [7])) s := by
    apply Machine.run_of_play _ hs
    simp [KeptOut]
  exact ⟨s, hhistory, (isolated_of_run [] s (hinserted.trans hsave)).1⟩

/-- A row inserted from outside after the first insert of the save sees that one, and is
lost with the `ROLLBACK`. -/
theorem foreign_statement_lost : ∃ s : SyncSQLite (List Nat) Unit Unit,
    Machine.Reaches SyncSQLite.step emptyDatabase s ∧
      s.history =
        [.rolledBack 0, .executed (some 0) [1, 7] (some [1, 7, 2]),
          .executed none [1] (some [1, 7]), .executed (some 0) [] (some [1]), .began 0] ∧
      s.connection = { committed := [] } ∧ ¬ Isolated [] s := by
  have hplay : (Machine.play SyncSQLite.step
      [.enlist 0 failingSave, .commit 0, .resume 0, .resume 0, .outside (insertRow 7), .resume 0,
        .resume 0] emptyDatabase).map (fun s => (s.history, s.connection)) =
      some ([.rolledBack 0, .executed (some 0) [1, 7] (some [1, 7, 2]),
        .executed none [1] (some [1, 7]), .executed (some 0) [] (some [1]), .began 0],
        { committed := [] }) := rfl
  obtain ⟨s, hs, heq⟩ := Option.map_eq_some_iff.mp hplay
  obtain ⟨hhistory, hconnection⟩ := Prod.mk.inj heq
  refine ⟨s, Machine.run_of_play (fun _ _ _ => trivial) hs, hhistory, hconnection, fun h => ?_⟩
  have hdurable := h.durable
  rw [hconnection, hhistory] at hdurable
  cases hdurable

end Noddde.Adapters
