import Noddde.Adapters.UnitsOfWork
import Noddde.Async.Machine
/-!
# One protocol for the units of work

The invariant reads the buffers and the place of the commit off the trace.  All clauses
hold of every path; the one about the context fails on Drizzle's callback path once the
callback returns.
-/

namespace Noddde.UnitsOfWork

open Machine

variable {O E T X : Type}

/-! ## The trace -/

def Entry.enlists : Entry O E X → Option O
  | .called (.enlist operation) (.ok ()) => some operation
  | _ => none

def Entry.defers : Entry O E X → List E
  | .called (.deferPublish events) (.ok ()) => events
  | _ => []

def Entry.invokes : Entry O E X → Option O
  | .invoked operation => some operation
  | _ => none

def Entry.settles : Entry O E X → Option (Except X Unit)
  | .settled outcome => some outcome
  | _ => none

def Entry.commits : Entry O E X → Option (Except X Unit)
  | .committed outcome => some outcome
  | _ => none

def Entry.begins : Entry O E X → Option (Except X Unit)
  | .began outcome => some outcome
  | _ => none

/-- `BEGIN`, an operation, `COMMIT` or `ROLLBACK` has failed. -/
def Entry.Fails : Entry O E X → Prop
  | .began (.error _) | .settled (.error _) | .committed (.error _) | .rolledBack (.error _) =>
      True
  | _ => False

def Entry.calls : Entry O E X → Option (Call O E × Except String Unit)
  | .called call answer => some (call, answer)
  | _ => none

def enlisted (trace : List (Entry O E X)) : List O := trace.filterMap Entry.enlists

def deferred (trace : List (Entry O E X)) : List E := trace.flatMap Entry.defers

def invoked (trace : List (Entry O E X)) : List O := trace.filterMap Entry.invokes

def settled (trace : List (Entry O E X)) : List (Except X Unit) :=
  trace.filterMap Entry.settles

def committed (trace : List (Entry O E X)) : List (Except X Unit) :=
  trace.filterMap Entry.commits

def begun (trace : List (Entry O E X)) : List (Except X Unit) := trace.filterMap Entry.begins

def calls (trace : List (Entry O E X)) : List (Call O E × Except String Unit) :=
  trace.filterMap Entry.calls

def Clean (trace : List (Entry O E X)) : Prop := ∀ entry ∈ trace, ¬ entry.Fails

/-- `commit` or `rollback` has been called. -/
def Ended (trace : List (Entry O E X)) : Prop := ∃ call ∈ calls trace, call.1.Ends

/-- `commit` has been called first, every enlisted operation has resolved, and so have
`BEGIN` and `COMMIT` where there is a database. -/
def Succeeded (path : CommitPath) (trace : List (Entry O E X)) : Prop :=
  (.commit, .ok ()) ∈ calls trace ∧
    settled trace = (enlisted trace).map (fun _ => .ok ()) ∧
    (path = .inMemory ∨ .ok () ∈ begun trace ∧ .ok () ∈ committed trace)

/-- The protocol of a unit of work. -/
structure Keeps (path : CommitPath) (s : Session O E T X) : Prop where
  /-- Each operation is run at most once, and in order. -/
  inOrder : invoked s.trace <+: enlisted s.trace
  /-- After a failure nothing is run, and nothing is committed. -/
  stops : ∀ before entry after, s.trace = before ++ entry :: after → entry.Fails →
    invoked after = [] ∧ committed after = []
  /-- After a failure `commit` rejects, at once or when it has rolled back. -/
  fails : ¬ Clean s.trace →
    ∃ e, s.unit.commitCall = .rejected e ∨ s.unit.commitCall = .rollingBack e
  returns : ∀ events, s.unit.commitCall = .resolved events ↔
    Succeeded path s.trace ∧ events = deferred s.trace
  rejects : ∀ before call answer after, s.trace = before ++ .called call answer :: after →
    (answer = .ok () ↔ ¬ Ended before)

/-- Without an operation underway there is no transaction to take part in. -/
def ContextEnds (s : Session O E T X) : Prop :=
  (settled s.trace).length = (invoked s.trace).length → s.unit.context = none

structure Obeys (path : CommitPath) (s : Session O E T X) : Prop extends Keeps path s where
  contextEnds : ContextEnds s

/-- With this step the callback that Drizzle's `transaction()` was given returns: the last
operation resolves, or there is none. -/
def CallbackReturns (path : CommitPath) (driver : Driver T X) (s : Session O E T X) :
    Action O E X → Prop
  | .settle (.ok ()) => path = .drizzleCallback ∧ ∃ position,
      s.unit.commitCall = .running position ∧ s.unit.operations.length = position + 1
  | .begin => path = .drizzleCallback ∧ s.unit.commitCall matches .starting ∧
      driver.begin = .ok () ∧ s.unit.operations = []
  | _ => False

/-! ## What one more entry tells -/

section

variable (s : Session O E T X) (entry : Entry O E X)

@[simp] theorem enlisted_note :
    enlisted (s.note entry).trace = enlisted s.trace ++ entry.enlists.toList := by
  simp only [enlisted, Session.note, List.filterMap_append, List.filterMap_cons]
  cases entry.enlists <;> rfl

@[simp] theorem invoked_note :
    invoked (s.note entry).trace = invoked s.trace ++ entry.invokes.toList := by
  simp only [invoked, Session.note, List.filterMap_append, List.filterMap_cons]
  cases entry.invokes <;> rfl

@[simp] theorem settled_note :
    settled (s.note entry).trace = settled s.trace ++ entry.settles.toList := by
  simp only [settled, Session.note, List.filterMap_append, List.filterMap_cons]
  cases entry.settles <;> rfl

@[simp] theorem committed_note :
    committed (s.note entry).trace = committed s.trace ++ entry.commits.toList := by
  simp only [committed, Session.note, List.filterMap_append, List.filterMap_cons]
  cases entry.commits <;> rfl

@[simp] theorem begun_note :
    begun (s.note entry).trace = begun s.trace ++ entry.begins.toList := by
  simp only [begun, Session.note, List.filterMap_append, List.filterMap_cons]
  cases entry.begins <;> rfl

@[simp] theorem clean_note :
    Clean (s.note entry).trace ↔ Clean s.trace ∧ ¬ entry.Fails := by
  simp [Clean, Session.note, or_imp, forall_and]

@[simp] theorem calls_note :
    calls (s.note entry).trace = calls s.trace ++ entry.calls.toList := by
  simp only [calls, Session.note, List.filterMap_append, List.filterMap_cons]
  cases entry.calls <;> rfl

@[simp] theorem deferred_note :
    deferred (s.note entry).trace = deferred s.trace ++ entry.defers := by
  simp [deferred, Session.note]

@[simp] theorem ended_note :
    Ended (s.note entry).trace ↔ Ended s.trace ∨ ∃ call ∈ entry.calls, call.1.Ends := by
  simp [Ended, or_and_right, exists_or]

end

/-- One element more comes last, or leaves the split as it was. -/
theorem concat_eq_split {α : Type} {xs before after : List α} {x y : α} :
    xs ++ [x] = before ++ y :: after ↔
      (xs = before ∧ x = y ∧ after = []) ∨
        ∃ rest, after = rest ++ [x] ∧ xs = before ++ y :: rest := by
  rcases List.eq_nil_or_concat after with rfl | ⟨rest, z, rfl⟩
  · simp
  · rw [List.concat_eq_append, ← List.cons_append, ← List.append_assoc,
      List.append_singleton_inj]
    constructor
    · rintro ⟨hxs, rfl⟩
      exact .inr ⟨rest, rfl, hxs⟩
    · rintro (⟨-, -, hnil⟩ | ⟨_, hrest, hxs⟩)
      · simp at hnil
      · obtain ⟨rfl, rfl⟩ := List.append_singleton_inj.mp hrest
        exact ⟨hxs, rfl⟩

/-! ## The buffers -/

/-- What the trace says of the buffers, wherever the commit is. -/
structure Recorded (s : Session O E T X) : Prop where
  completed : s.unit.completed = true ↔ Ended s.trace
  rejects : ∀ before call answer after, s.trace = before ++ .called call answer :: after →
    (answer = .ok () ↔ ¬ Ended before)
  stops : ∀ before entry after, s.trace = before ++ entry :: after → entry.Fails →
    invoked after = [] ∧ committed after = []
  buffers : s.unit.completed = false ∨ (.commit, .ok ()) ∈ calls s.trace →
    s.unit.operations = enlisted s.trace ∧ s.unit.pendingEvents = deferred s.trace

namespace Recorded

variable {s : Session O E T X}

theorem setContext (h : Recorded s) (context : Option T) : Recorded (s.setContext context) :=
  ⟨h.completed, h.rejects, h.stops, h.buffers⟩

theorem setCall (h : Recorded s) (commitCall : CommitCall E X) :
    Recorded (s.setCall commitCall) :=
  ⟨h.completed, h.rejects, h.stops, h.buffers⟩

theorem rejects_note (h : Recorded s) {entry : Entry O E X}
    (hentry : ∀ call answer, entry = .called call answer → (answer = .ok () ↔ ¬ Ended s.trace))
    (before : List (Entry O E X)) (call : Call O E) (answer : Except String Unit)
    (after : List (Entry O E X))
    (hsplit : (s.note entry).trace = before ++ .called call answer :: after) :
    answer = .ok () ↔ ¬ Ended before := by
  rcases concat_eq_split.mp hsplit with ⟨rfl, hcalled, -⟩ | ⟨rest, -, hrest⟩
  · exact hentry call answer hcalled
  · exact h.rejects before call answer rest hrest

theorem stops_note (h : Recorded s) {entry : Entry O E X}
    (hquiet : (entry.invokes = none ∧ entry.commits = none) ∨ Clean s.trace)
    (before : List (Entry O E X)) (failure : Entry O E X) (after : List (Entry O E X))
    (hsplit : (s.note entry).trace = before ++ failure :: after) (hfails : failure.Fails) :
    invoked after = [] ∧ committed after = [] := by
  rcases concat_eq_split.mp hsplit with ⟨-, -, rfl⟩ | ⟨rest, rfl, hrest⟩
  · exact ⟨rfl, rfl⟩
  · obtain ⟨hinvokes, hcommits⟩ := hquiet.resolve_right fun hclean =>
      hclean failure (by simp [hrest]) hfails
    obtain ⟨hinvoked, hcommitted⟩ := h.stops before failure rest hrest hfails
    constructor
    · rw [invoked, List.filterMap_append, ← invoked, hinvoked]
      simp [hinvokes]
    · rw [committed, List.filterMap_append, ← committed, hcommitted]
      simp [hcommits]

/-- Nothing that is noted of the operations or of the database is a call. -/
theorem note (h : Recorded s) {entry : Entry O E X} (hcalls : entry.calls = none)
    (hquiet : (entry.invokes = none ∧ entry.commits = none) ∨ Clean s.trace) :
    Recorded (s.note entry) := by
  have hended : Ended (s.note entry).trace ↔ Ended s.trace := by
    simp [hcalls]
  have henlists : entry.enlists = none := by
    cases entry <;> first | rfl | simp [Entry.calls] at hcalls
  have hdefers : entry.defers = [] := by
    cases entry <;> first | rfl | simp [Entry.calls] at hcalls
  refine ⟨h.completed.trans hended.symm, h.rejects_note ?_, h.stops_note hquiet, ?_⟩
  · rintro call answer rfl
    cases hcalls
  · simpa [hcalls, henlists, hdefers] using h.buffers

end Recorded

/-! ## Where the commit is -/

/-- The first `position` operations have resolved, and nothing else has been run. -/
structure Ran (position : Nat) (s : Session O E T X) : Prop extends Recorded s where
  called : (.commit, .ok ()) ∈ calls s.trace
  within : position ≤ s.unit.operations.length
  invoked : invoked s.trace = s.unit.operations.take position
  settled : settled s.trace = List.replicate position (.ok ())
  committed : committed s.trace = []
  clean : Clean s.trace

/-- Some operation or `COMMIT` has failed, or the operations have not been begun. -/
structure Failed (path : CommitPath) (s : Session O E T X) : Prop where
  called : (.commit, .ok ()) ∈ calls s.trace
  invoked : ∃ position, position ≤ s.unit.operations.length ∧
    invoked s.trace = s.unit.operations.take position ∧ (settled s.trace).length = position
  failed : settled s.trace ≠ List.replicate s.unit.operations.length (.ok ()) ∨
    path ≠ .inMemory ∧ .ok () ∉ committed s.trace

/-- There is a transaction where there is a database. -/
def Begun (path : CommitPath) (s : Session O E T X) : Prop :=
  path = .inMemory ∨ .ok () ∈ begun s.trace

def Place (path : CommitPath) (s : Session O E T X) : Prop :=
  match s.unit.commitCall with
  | .notCalled =>
      (.commit, .ok ()) ∉ calls s.trace ∧ invoked s.trace = [] ∧ settled s.trace = [] ∧
        committed s.trace = [] ∧ Clean s.trace
  | .starting => path ≠ .inMemory ∧ Ran 0 s
  | .running position =>
      (.commit, .ok ()) ∈ calls s.trace ∧ position < s.unit.operations.length ∧
        invoked s.trace = s.unit.operations.take (position + 1) ∧
        settled s.trace = List.replicate position (.ok ()) ∧ committed s.trace = [] ∧
        Clean s.trace ∧ Begun path s
  | .committing => path ≠ .inMemory ∧ Ran s.unit.operations.length s ∧ Begun path s
  | .rollingBack _ | .rejected _ => Failed path s
  | .resolved events =>
      (.commit, .ok ()) ∈ calls s.trace ∧ invoked s.trace = s.unit.operations ∧
        settled s.trace = List.replicate s.unit.operations.length (.ok ()) ∧
        (path = .inMemory ∨ .ok () ∈ begun s.trace ∧ .ok () ∈ committed s.trace) ∧
        events = s.unit.pendingEvents ∧ Clean s.trace

structure Inv (path : CommitPath) (s : Session O E T X) : Prop extends Recorded s where
  place : Place path s

variable {path : CommitPath} {driver : Driver T X} {s t : Session O E T X}

theorem Ran.setContext {position : Nat} (h : Ran position s) (context : Option T) :
    Ran position (s.setContext context) :=
  ⟨h.toRecorded.setContext context, h.called, h.within, h.invoked, h.settled, h.committed,
    h.clean⟩

theorem Ran.setCall {position : Nat} (h : Ran position s) (commitCall : CommitCall E X) :
    Ran position (s.setCall commitCall) :=
  ⟨h.toRecorded.setCall commitCall, h.called, h.within, h.invoked, h.settled, h.committed,
    h.clean⟩

theorem Failed.setContext (h : Failed path s) (context : Option T) :
    Failed path (s.setContext context) :=
  ⟨h.called, h.invoked, h.failed⟩

theorem Ran.note {position : Nat} (h : Ran position s) {entry : Entry O E X}
    (hrecorded : Recorded (s.note entry)) (hinvokes : entry.invokes = none)
    (hsettles : entry.settles = none) (hcommits : entry.commits = none)
    (hfails : ¬ entry.Fails) : Ran position (s.note entry) where
  toRecorded := hrecorded
  called := by simpa using .inl h.called
  within := h.within
  invoked := by simpa [hinvokes] using h.invoked
  settled := by simpa [hsettles] using h.settled
  committed := by simpa [hcommits] using h.committed
  clean := by simpa [hfails] using h.clean

theorem Begun.note (h : Begun path s) (entry : Entry O E X) : Begun path (s.note entry) :=
  h.imp_right fun hbegun => by simpa using .inl hbegun

theorem Failed.note (h : Failed path s) {entry : Entry O E X} (hinvokes : entry.invokes = none)
    (hsettles : entry.settles = none) (hcommits : entry.commits = none) :
    Failed path (s.note entry) where
  called := by simpa using .inl h.called
  invoked := by simpa [hinvokes, hsettles] using h.invoked
  failed := by simpa [hsettles, hcommits] using h.failed

theorem Ran.failed (h : Ran s.unit.operations.length s) (hpath : path ≠ .inMemory) (e : X) :
    Failed path (s.note (.committed (.error e))) where
  called := by simpa using .inl h.called
  invoked := by
    refine ⟨_, Nat.le_refl _, ?_, ?_⟩
    · simpa [Entry.invokes] using h.invoked
    · simp [Entry.settles, h.settled]
  failed := .inr ⟨hpath, by simp [Entry.commits, h.committed]⟩

theorem inv_returnEvents (h : Recorded s) (hcalled : (.commit, .ok ()) ∈ calls s.trace)
    (hinvoked : invoked s.trace = s.unit.operations)
    (hsettled : settled s.trace = List.replicate s.unit.operations.length (.ok ()))
    (hcommitted : path = .inMemory ∨ .ok () ∈ begun s.trace ∧ .ok () ∈ committed s.trace)
    (hclean : Clean s.trace) : Inv path s.returnEvents :=
  ⟨h.setCall _, hcalled, hinvoked, hsettled, hcommitted, rfl, hclean⟩

theorem inv_reject (h : Recorded s) (hfailed : Failed path s) (e : X) :
    Inv path (s.setCall (.rejected e)) :=
  ⟨h.setCall _, hfailed.called, hfailed.invoked, hfailed.failed⟩

theorem inv_rollBack (h : Recorded s) (hfailed : Failed path s) (e : X) :
    Inv path (s.setCall (.rollingBack e)) :=
  ⟨h.setCall _, hfailed.called, hfailed.invoked, hfailed.failed⟩

theorem Ran.inv_returnEvents (h : Ran s.unit.operations.length s) (hbegun : Begun path s)
    (context : Option T) :
    Inv path ((s.note (.committed (.ok ()))).setContext context).returnEvents := by
  refine UnitsOfWork.inv_returnEvents
    ((h.toRecorded.note rfl (.inr h.clean)).setContext context) ?_ ?_ ?_ ?_ ?_
  · simpa using .inl h.called
  · simpa [Entry.invokes] using h.invoked
  · simpa [Entry.settles] using h.settled
  · exact hbegun.imp_right fun hbegun => ⟨by simpa using .inl hbegun, by simp [Entry.commits]⟩
  · simpa [Entry.Fails] using h.clean

theorem inv_loopResolved (h : Ran s.unit.operations.length s) (hbegun : Begun path s) :
    Inv path (loopResolved path driver s) := by
  cases path with
  | inMemory =>
      refine inv_returnEvents h.toRecorded h.called ?_ h.settled (.inl rfl) h.clean
      rw [h.invoked, List.take_length]
  | drizzleSqlStatements =>
      simp only [loopResolved]
      cases hcommit : driver.commit with
      | ok _ => exact h.inv_returnEvents hbegun none
      | error e =>
          have hnote : Recorded (s.note (.committed (.error e))) :=
            h.toRecorded.note rfl (.inr h.clean)
          exact inv_reject ((hnote.note rfl (.inl ⟨rfl, rfl⟩)).setContext none)
            (((h.failed (by simp) e).note rfl rfl rfl).setContext none) e
  | drizzleCallback => exact ⟨h.toRecorded.setCall _, by simp, h.setCall _, hbegun⟩
  | prisma | typeORM =>
      exact ⟨(h.toRecorded.setContext none).setCall _, by simp, (h.setContext none).setCall _,
        hbegun⟩

theorem inv_loop {position : Nat} (h : Ran position s) (hbegun : Begun path s) :
    Inv path (loop path driver position s) := by
  unfold loop
  cases hget : s.unit.operations[position]? with
  | some operation =>
      obtain ⟨hlt, hoperation⟩ := List.getElem?_eq_some_iff.mp hget
      refine ⟨(h.toRecorded.note rfl (.inr h.clean)).setCall _, ?_, hlt, ?_, ?_, ?_, ?_,
        hbegun.note _⟩
      · simpa [Entry.calls] using h.called
      · simp [Entry.invokes, h.invoked, List.take_add_one, hget]
      · simpa [Entry.settles] using h.settled
      · simpa [Entry.commits] using h.committed
      · simpa [Entry.Fails] using h.clean
  | none =>
      obtain rfl : position = s.unit.operations.length :=
        Nat.le_antisymm h.within (List.getElem?_eq_none_iff.mp hget)
      exact inv_loopResolved h hbegun

theorem inv_loopRejected (h : Recorded s) (hfailed : Failed path s) (e : X) :
    Inv path (loopRejected path driver e s) := by
  cases path with
  | inMemory => exact inv_reject h hfailed e
  | drizzleSqlStatements =>
      exact inv_reject ((h.note rfl (.inl ⟨rfl, rfl⟩)).setContext none)
        ((hfailed.note rfl rfl rfl).setContext none) e
  | drizzleCallback | prisma | typeORM =>
      exact inv_rollBack (h.setContext none) (hfailed.setContext none) e

theorem transactionResolved_eq (path : CommitPath) (s : Session O E T X) :
    ∃ context, transactionResolved path s = (s.setContext context).returnEvents := by
  cases path with
  | drizzleCallback => exact ⟨none, rfl⟩
  | inMemory | drizzleSqlStatements | prisma | typeORM => exact ⟨s.unit.context, rfl⟩

/-! ### Calls -/

/-- Until `commit` or `rollback` is called, `commit` is not underway. -/
theorem notCalled (h : Inv path s) (hcompleted : s.unit.completed = false) :
    s.unit.commitCall = .notCalled ∧ (.commit, .ok ()) ∉ calls s.trace := by
  have hnone : (.commit, .ok ()) ∉ calls s.trace := by
    intro hmem
    have hended := h.completed.mpr ⟨_, hmem, trivial⟩
    simp [hcompleted] at hended
  have hplace := h.place
  unfold Place at hplace
  cases hcall : s.unit.commitCall with
  | notCalled => exact ⟨rfl, hnone⟩
  | starting =>
      rw [hcall] at hplace
      exact absurd hplace.2.called hnone
  | committing =>
      rw [hcall] at hplace
      exact absurd hplace.2.1.called hnone
  | running | resolved =>
      rw [hcall] at hplace
      exact absurd hplace.1 hnone
  | rollingBack | rejected =>
      rw [hcall] at hplace
      exact absurd hplace.called hnone

/-- A call that throws leaves everything as it is. -/
theorem inv_refused (h : Inv path s) (hcompleted : s.unit.completed = true) (call : Call O E)
    (message : String) : Inv path (s.note (.called call (.error message))) := by
  have hended : Ended s.trace := h.completed.mp hcompleted
  have hrecorded : Recorded (s.note (.called call (.error message))) := by
    refine ⟨iff_of_true hcompleted ?_, h.rejects_note ?_, h.stops_note (.inl ⟨rfl, rfl⟩), ?_⟩
    · simp [hended]
    · rintro _ _ ⟨rfl, rfl⟩
      simp [hended]
    · have henlists : (Entry.called (X := X) call (.error message)).enlists = none := by
        cases call <;> rfl
      have hdefers : (Entry.called (X := X) call (.error message)).defers = [] := by
        cases call <;> rfl
      simpa [Entry.calls, henlists, hdefers] using h.buffers
  refine ⟨hrecorded, ?_⟩
  have hplace := h.place
  unfold Place at hplace ⊢
  rw [Session.note_unit]
  cases hcall : s.unit.commitCall with
  | notCalled | running | resolved => simpa [hcall, Entry.calls, Entry.invokes, Entry.settles,
      Entry.commits, Entry.begins, Entry.Fails, Begun] using hplace
  | starting =>
      rw [hcall] at hplace
      exact ⟨hplace.1, hplace.2.note hrecorded rfl rfl rfl id⟩
  | committing =>
      rw [hcall] at hplace
      exact ⟨hplace.1, hplace.2.1.note hrecorded rfl rfl rfl id, hplace.2.2.note _⟩
  | rollingBack | rejected =>
      rw [hcall] at hplace
      exact hplace.note rfl rfl rfl

/-- What an accepted call makes of the buffers is what its entry tells. -/
theorem recorded_accepted (h : Recorded s) (hcompleted : s.unit.completed = false)
    (hnone : (.commit, .ok ()) ∉ calls s.trace) (call : Call O E) (unit : UnitOfWork O E T X)
    (hends : unit.completed = true ↔ call.Ends)
    (hbuffers : call ≠ .rollback →
      unit.operations = s.unit.operations ++
          (Entry.called (X := X) call (.ok ())).enlists.toList ∧
        unit.pendingEvents = s.unit.pendingEvents ++
          (Entry.called (X := X) call (.ok ())).defers) :
    Recorded { s.note (.called call (.ok ())) with unit } := by
  have hended : ¬ Ended s.trace := by
    rw [← h.completed, hcompleted]
    simp
  obtain ⟨hoperations, hevents⟩ := h.buffers (.inl hcompleted)
  refine ⟨?_, h.rejects_note ?_, h.stops_note (.inl ⟨rfl, rfl⟩), ?_⟩
  · simp [hends, hended, Entry.calls]
  · rintro _ _ ⟨rfl, rfl⟩
    simp [hended]
  · intro hbuffered
    have hcall : call ≠ .rollback := by
      rintro rfl
      have htrue : unit.completed = true := hends.mpr trivial
      simp [htrue, Entry.calls, hnone] at hbuffered
    obtain ⟨hunit, hpending⟩ := hbuffers hcall
    rw [hunit, hpending, hoperations, hevents]
    simp

theorem inv_answerCall (h : Inv path s) (call : Call O E) :
    Inv path (answerCall path driver call s) := by
  unfold answerCall assertNotCompleted
  cases hcompleted : s.unit.completed with
  | true => exact inv_refused h hcompleted call _
  | false =>
      obtain ⟨hcall, hnone⟩ := notCalled h hcompleted
      obtain ⟨-, hinvoked, hsettled, hcommitted, hclean⟩ : (.commit, .ok ()) ∉ calls s.trace ∧
          invoked s.trace = [] ∧ settled s.trace = [] ∧ committed s.trace = [] ∧
            Clean s.trace := by
        simpa only [Place, hcall] using h.place
      have hrecorded := recorded_accepted h.toRecorded hcompleted hnone call
      have hplace : call ≠ .commit → ∀ unit : UnitOfWork O E T X, unit.commitCall = .notCalled →
          Place path { s.note (.called call (.ok ())) with unit } := by
        intro hcommit unit hunit
        unfold Place
        rw [hunit]
        simpa [Entry.calls, Entry.invokes, Entry.settles, Entry.commits, Entry.Fails, hnone,
          hinvoked, hsettled, hcommitted, hclean] using hcommit.symm
      cases call with
      | enlist operation =>
          refine ⟨hrecorded _ ?_ ?_, hplace (by simp) _ hcall⟩
          · simp [hcompleted, Call.Ends]
          · simp [Entry.enlists, Entry.defers]
      | deferPublish events =>
          refine ⟨hrecorded _ ?_ ?_, hplace (by simp) _ hcall⟩
          · simp [hcompleted, Call.Ends]
          · simp [Entry.enlists, Entry.defers]
      | commit =>
          have hran : Ran 0 { s.note (.called .commit (.ok ())) with
              unit := { s.unit with completed := true } } := by
            refine ⟨hrecorded _ ?_ ?_, ?_, Nat.zero_le _, ?_, ?_, ?_, ?_⟩
            · simp [Call.Ends]
            · simp [Entry.enlists, Entry.defers]
            · simp [Entry.calls]
            · simp [Entry.invokes, hinvoked]
            · simp [Entry.settles, hsettled]
            · simp [Entry.commits, hcommitted]
            · simp [Entry.Fails, hclean]
          cases path with
          | inMemory => exact inv_loop hran (.inl rfl)
          | drizzleSqlStatements | drizzleCallback | prisma | typeORM =>
              exact ⟨hran.toRecorded.setCall _, by simp, hran.setCall _⟩
      | rollback =>
          refine ⟨hrecorded _ ?_ ?_, hplace (by simp) _ hcall⟩
          · simp [Call.Ends]
          · simp

/-! ### Steps -/

/-- A step does what the place of the commit and the answer of the database ask for. -/
theorem step_begin (hstep : step path driver s .begin = some t) :
    s.unit.commitCall = .starting ∧ t =
      match driver.begin with
      | .ok () =>
          loop path driver 0 ((s.note (.began driver.begin)).setContext (some driver.handle))
      | .error e =>
          (s.note (.began driver.begin)).setCall (.rejected (beginRejection path driver e)) := by
  cases hcall : s.unit.commitCall <;> simp only [step, hcall, reduceCtorEq] at hstep
  refine ⟨rfl, ?_⟩
  cases hbegin : driver.begin with
  | ok _ | error =>
      rw [hbegin] at hstep
      exact (Option.some.inj hstep).symm

theorem step_settle {outcome : Except X Unit} :
    step path driver s (.settle outcome) = some t →
    ∃ position, s.unit.commitCall = .running position ∧ t =
      match outcome with
      | .ok () => loop path driver (position + 1) (s.note (.settled outcome))
      | .error e => loopRejected path driver e (s.note (.settled outcome)) := by
  intro hstep
  cases hcall : s.unit.commitCall <;> simp only [step, hcall, reduceCtorEq] at hstep
  cases outcome with
  | ok _ | error => exact ⟨_, rfl, (Option.some.inj hstep).symm⟩

theorem step_commit (hstep : step path driver s .commit = some t) :
    s.unit.commitCall = .committing ∧ t =
      match driver.commit with
      | .ok () => transactionResolved path (s.note (.committed driver.commit))
      | .error e => (s.note (.committed driver.commit)).setCall (.rollingBack e) := by
  cases hcall : s.unit.commitCall <;> simp only [step, hcall, reduceCtorEq] at hstep
  refine ⟨rfl, ?_⟩
  cases hcommit : driver.commit with
  | ok _ | error =>
      rw [hcommit] at hstep
      exact (Option.some.inj hstep).symm

theorem step_rollback (hstep : step path driver s .rollback = some t) :
    ∃ e, s.unit.commitCall = .rollingBack e ∧
      t = (s.note (.rolledBack driver.rollback)).setCall (.rejected (driver.rejection e)) := by
  cases hcall : s.unit.commitCall <;> simp only [step, hcall, reduceCtorEq] at hstep
  exact ⟨_, rfl, (Option.some.inj hstep).symm⟩

theorem inv_begin (h : Inv path s) (hstep : step path driver s .begin = some t) :
    Inv path t := by
  obtain ⟨hcall, rfl⟩ := step_begin hstep
  obtain ⟨hpath, hran⟩ : path ≠ .inMemory ∧ Ran 0 s := by
    simpa only [Place, hcall] using h.place
  cases driver.begin with
  | ok _ =>
      have hnote : Ran 0 (s.note (.began (.ok ()))) :=
        hran.note (hran.toRecorded.note rfl (.inl ⟨rfl, rfl⟩)) rfl rfl rfl id
      exact inv_loop (hnote.setContext _) (.inr (by simp [Entry.begins]))
  | error e =>
      have hrecorded : Recorded (s.note (.began (.error e))) :=
        hran.toRecorded.note rfl (.inl ⟨rfl, rfl⟩)
      refine inv_reject hrecorded ⟨?_, ⟨0, Nat.zero_le _, ?_, ?_⟩, .inr ⟨hpath, ?_⟩⟩ _
      · simpa using .inl hran.called
      · simpa [Entry.invokes] using hran.invoked
      · simp [Entry.settles, hran.settled]
      · simp [Entry.commits, hran.committed]

theorem inv_settle (h : Inv path s) {outcome : Except X Unit}
    (hstep : step path driver s (.settle outcome) = some t) : Inv path t := by
  obtain ⟨position, hcall, rfl⟩ := step_settle hstep
  obtain ⟨hcalled, hlt, hinvoked, hsettled, hcommitted, hclean, hbegun⟩ :
      (.commit, .ok ()) ∈ calls s.trace ∧ position < s.unit.operations.length ∧
        invoked s.trace = s.unit.operations.take (position + 1) ∧
        settled s.trace = List.replicate position (.ok ()) ∧ committed s.trace = [] ∧
        Clean s.trace ∧ Begun path s := by
    simpa only [Place, hcall] using h.place
  have hnote : Recorded (s.note (.settled outcome)) :=
    h.toRecorded.note rfl (.inl ⟨rfl, rfl⟩)
  have hcalled' : (.commit, .ok ()) ∈ calls (s.note (.settled outcome)).trace := by
    simpa [Entry.calls] using hcalled
  have hinvoked' : invoked (s.note (.settled outcome)).trace =
      s.unit.operations.take (position + 1) := by
    simpa [Entry.invokes] using hinvoked
  cases outcome with
  | ok _ =>
      refine inv_loop ⟨hnote, hcalled', hlt, hinvoked', ?_, ?_, ?_⟩ (hbegun.note _)
      · simp [Entry.settles, hsettled, List.replicate_succ']
      · simpa [Entry.commits] using hcommitted
      · simpa [Entry.Fails] using hclean
  | error e =>
      refine inv_loopRejected hnote ⟨hcalled', ⟨position + 1, hlt, hinvoked', ?_⟩, .inl ?_⟩ e
      · simp [Entry.settles, hsettled]
      · intro heq
        have hmem : Except.error e ∈ settled (s.note (.settled (.error e))).trace := by
          simp [Entry.settles]
        rw [heq] at hmem
        cases List.eq_of_mem_replicate hmem

theorem inv_commit (h : Inv path s) (hstep : step path driver s .commit = some t) :
    Inv path t := by
  obtain ⟨hcall, rfl⟩ := step_commit hstep
  obtain ⟨hpath, hran, hbegun⟩ :
      path ≠ .inMemory ∧ Ran s.unit.operations.length s ∧ Begun path s := by
    simpa only [Place, hcall] using h.place
  cases driver.commit with
  | ok _ =>
      obtain ⟨context, heq⟩ := transactionResolved_eq path (s.note (.committed (.ok ())))
      rw [heq]
      exact hran.inv_returnEvents hbegun context
  | error e =>
      exact inv_rollBack (hran.toRecorded.note rfl (.inr hran.clean)) (hran.failed hpath e) e

theorem inv_step (h : Inv path s) {a : Action O E X} (hstep : step path driver s a = some t) :
    Inv path t := by
  cases a with
  | call call =>
      obtain rfl := Option.some.inj hstep
      exact inv_answerCall h call
  | begin => exact inv_begin h hstep
  | settle outcome => exact inv_settle h hstep
  | commit => exact inv_commit h hstep
  | rollback =>
      obtain ⟨e, hcall, rfl⟩ := step_rollback hstep
      have hfailed : Failed path s := by simpa only [Place, hcall] using h.place
      exact inv_reject (h.toRecorded.note rfl (.inl ⟨rfl, rfl⟩)) (hfailed.note rfl rfl rfl) _

theorem inv_init : Inv path ({} : Session O E T X) := by
  refine ⟨⟨?_, ?_, ?_, fun _ => ⟨rfl, rfl⟩⟩, ?_⟩
  · simp [Ended, calls]
  · intro before call answer after hsplit
    simp at hsplit
  · intro before entry after hsplit
    simp at hsplit
  · simp [Place, calls, invoked, settled, committed, Clean]

/-! ## What the invariant says -/

theorem Inv.inOrder (h : Inv path s) : invoked s.trace <+: enlisted s.trace := by
  have htake : ∀ position, (.commit, .ok ()) ∈ calls s.trace →
      invoked s.trace = s.unit.operations.take position →
      invoked s.trace <+: enlisted s.trace := by
    intro position hcalled heq
    rw [heq, (h.buffers (.inr hcalled)).1]
    exact List.take_prefix _ _
  have hplace := h.place
  unfold Place at hplace
  cases hcall : s.unit.commitCall with
  | notCalled =>
      rw [hcall] at hplace
      rw [hplace.2.1]
      exact List.nil_prefix
  | starting =>
      rw [hcall] at hplace
      exact htake _ hplace.2.called hplace.2.invoked
  | committing =>
      rw [hcall] at hplace
      exact htake _ hplace.2.1.called hplace.2.1.invoked
  | running position =>
      rw [hcall] at hplace
      exact htake _ hplace.1 hplace.2.2.1
  | rollingBack | rejected =>
      rw [hcall] at hplace
      obtain ⟨position, -, heq, -⟩ := hplace.invoked
      exact htake position hplace.called heq
  | resolved =>
      rw [hcall] at hplace
      exact htake s.unit.operations.length hplace.1 (by rw [hplace.2.1, List.take_length])

theorem Inv.returns (h : Inv path s) (events : List E) :
    s.unit.commitCall = .resolved events ↔
      Succeeded path s.trace ∧ events = deferred s.trace := by
  have hplace := h.place
  unfold Place at hplace
  constructor
  · intro hcall
    rw [hcall] at hplace
    obtain ⟨hcalled, -, hsettled, hcommitted, rfl, -⟩ := hplace
    obtain ⟨hoperations, hevents⟩ := h.buffers (.inr hcalled)
    refine ⟨⟨hcalled, ?_, hcommitted⟩, hevents⟩
    rw [hsettled, hoperations, List.map_const']
  · rintro ⟨⟨hcalled, hsettled, hcommitted⟩, rfl⟩
    obtain ⟨hoperations, hevents⟩ := h.buffers (.inr hcalled)
    rw [List.map_const', ← hoperations] at hsettled
    have hnone : path ≠ .inMemory → .ok () ∉ committed s.trace → False := fun hpath hok =>
      hcommitted.elim hpath fun hboth => hok hboth.2
    cases hcall : s.unit.commitCall with
    | notCalled =>
        rw [hcall] at hplace
        exact absurd hcalled hplace.1
    | starting =>
        rw [hcall] at hplace
        exact (hnone hplace.1 (by simp [hplace.2.committed])).elim
    | committing =>
        rw [hcall] at hplace
        exact (hnone hplace.1 (by simp [hplace.2.1.committed])).elim
    | running position =>
        rw [hcall] at hplace
        obtain ⟨-, hlt, -, hreplicate, -⟩ := hplace
        have hlength := congrArg List.length (hreplicate.symm.trans hsettled)
        simp only [List.length_replicate] at hlength
        omega
    | rollingBack | rejected =>
        rw [hcall] at hplace
        rcases hplace.failed with hfailed | ⟨hpath, hok⟩
        · exact absurd hsettled hfailed
        · exact (hnone hpath hok).elim
    | resolved returned =>
        rw [hcall] at hplace
        rw [hplace.2.2.2.2.1, hevents]

/-- Only a commit that rejects has failed somewhere. -/
theorem Inv.fails (h : Inv path s) (hclean : ¬ Clean s.trace) :
    ∃ e, s.unit.commitCall = .rejected e ∨ s.unit.commitCall = .rollingBack e := by
  have hplace := h.place
  unfold Place at hplace
  cases hcall : s.unit.commitCall with
  | notCalled =>
      rw [hcall] at hplace
      exact absurd hplace.2.2.2.2 hclean
  | starting =>
      rw [hcall] at hplace
      exact absurd hplace.2.clean hclean
  | running position =>
      rw [hcall] at hplace
      exact absurd hplace.2.2.2.2.2.1 hclean
  | committing =>
      rw [hcall] at hplace
      exact absurd hplace.2.1.clean hclean
  | resolved events =>
      rw [hcall] at hplace
      exact absurd hplace.2.2.2.2.2 hclean
  | rollingBack e => exact ⟨e, .inr rfl⟩
  | rejected e => exact ⟨e, .inl rfl⟩

theorem Inv.keeps (h : Inv path s) : Keeps path s :=
  ⟨h.inOrder, h.stops, h.fails, h.returns, h.rejects⟩

/-- On every path, whatever fails. -/
theorem keeps_of_reaches (h : Reaches (step path driver) ({} : Session O E T X) s) :
    Keeps path s :=
  (h.inv inv_init fun _ _ _ hinv _ hstep => inv_step hinv hstep).keeps

/-! ## The context -/

/-- The context is the handle as long as an operation is awaited. -/
def ContextIs (path : CommitPath) (driver : Driver T X) (s : Session O E T X) : Prop :=
  s.unit.context =
    match s.unit.commitCall with
    | .running _ => if path = .inMemory then none else some driver.handle
    | _ => none

/-- An operation is underway just where the loop awaits it. -/
theorem Inv.underway (h : Inv path s) :
    (settled s.trace).length = (invoked s.trace).length ↔
      ∀ position, s.unit.commitCall ≠ .running position := by
  have hplace := h.place
  unfold Place at hplace
  cases hcall : s.unit.commitCall with
  | notCalled =>
      rw [hcall] at hplace
      simp [hplace.2.1, hplace.2.2.1]
  | starting =>
      rw [hcall] at hplace
      simp [hplace.2.settled, hplace.2.invoked]
  | committing =>
      rw [hcall] at hplace
      simp [hplace.2.1.settled, hplace.2.1.invoked]
  | running position =>
      rw [hcall] at hplace
      obtain ⟨-, hlt, hinvoked, hsettled, -⟩ := hplace
      rw [hinvoked, hsettled, List.length_replicate, List.length_take, Nat.min_eq_left hlt]
      simp
  | rollingBack | rejected =>
      rw [hcall] at hplace
      obtain ⟨position, hle, hinvoked, hlength⟩ := hplace.invoked
      rw [hlength, hinvoked, List.length_take, Nat.min_eq_left hle]
      simp
  | resolved =>
      rw [hcall] at hplace
      rw [hplace.2.1, hplace.2.2.1, List.length_replicate]
      simp

/-- Where the loop ends, Drizzle's callback alone keeps the context. -/
theorem contextIs_loopResolved
    (h : s.unit.context = if path = .inMemory then none else some driver.handle) :
    ContextIs path driver (loopResolved path driver s) ↔ path ≠ .drizzleCallback := by
  cases path with
  | inMemory => simpa [ContextIs, loopResolved, Session.returnEvents] using h
  | drizzleSqlStatements =>
      unfold loopResolved
      cases driver.commit <;> simp [ContextIs, Session.returnEvents]
  | drizzleCallback =>
      have hcontext : s.unit.context = some driver.handle := by simpa using h
      simp [ContextIs, loopResolved, hcontext]
  | prisma | typeORM => simp [ContextIs, loopResolved]

theorem contextIs_loop {position : Nat}
    (h : s.unit.context = if path = .inMemory then none else some driver.handle) :
    ContextIs path driver (loop path driver position s) ↔
      ¬ (path = .drizzleCallback ∧ s.unit.operations.length ≤ position) := by
  unfold loop
  cases hget : s.unit.operations[position]? with
  | some operation =>
      obtain ⟨hlt, -⟩ := List.getElem?_eq_some_iff.mp hget
      refine iff_of_true h ?_
      rintro ⟨-, hle⟩
      omega
  | none =>
      have hle := List.getElem?_eq_none_iff.mp hget
      simp [contextIs_loopResolved h, hle]

theorem contextIs_loopRejected
    (h : s.unit.context = if path = .inMemory then none else some driver.handle) (e : X) :
    ContextIs path driver (loopRejected path driver e s) := by
  cases path with
  | inMemory => simpa [ContextIs, loopRejected] using h
  | drizzleSqlStatements | drizzleCallback | prisma | typeORM => simp [ContextIs, loopRejected]

theorem contextIs_answerCall (hinv : Inv path s) (h : ContextIs path driver s)
    (call : Call O E) : ContextIs path driver (answerCall path driver call s) := by
  unfold answerCall assertNotCompleted
  cases hcompleted : s.unit.completed with
  | true => exact h
  | false =>
      obtain ⟨hcall, -⟩ := notCalled hinv hcompleted
      have hnone : s.unit.context = none := by simpa [ContextIs, hcall] using h
      cases call with
      | enlist | deferPublish | rollback => simpa [ContextIs, execute, hcall] using hnone
      | commit =>
          cases path with
          | inMemory => exact (contextIs_loop (by simpa using hnone)).mpr (by simp)
          | drizzleSqlStatements | drizzleCallback | prisma | typeORM =>
              simpa [ContextIs, execute, commit] using hnone

/-- Each step leaves the context as it is to be, unless Drizzle's callback returns. -/
theorem contextIs_step (hinv : Inv path s) (h : ContextIs path driver s) {a : Action O E X}
    (hstep : step path driver s a = some t) :
    ContextIs path driver t ↔ ¬ CallbackReturns path driver s a := by
  have hplace := hinv.place
  unfold ContextIs at h
  unfold Place at hplace
  cases a with
  | call call =>
      obtain rfl := Option.some.inj hstep
      exact iff_of_true (contextIs_answerCall hinv h call) id
  | begin =>
      obtain ⟨hcall, rfl⟩ := step_begin hstep
      rw [hcall] at h hplace
      cases hbegin : driver.begin with
      | ok _ =>
          refine (contextIs_loop (by simp [hplace.1])).trans ?_
          simp [CallbackReturns, hcall, hbegin]
      | error e => exact iff_of_true h (by simp [CallbackReturns, hbegin])
  | settle outcome =>
      obtain ⟨position, hcall, rfl⟩ := step_settle hstep
      rw [hcall] at h hplace
      obtain ⟨-, hlt, -⟩ := hplace
      cases outcome with
      | ok _ =>
          refine (contextIs_loop (by exact h)).trans ?_
          simp only [CallbackReturns, hcall, CommitCall.running.injEq, exists_eq_left',
            Session.note_unit]
          rw [Nat.le_antisymm_iff, and_iff_left (Nat.succ_le_of_lt hlt)]
      | error e => exact iff_of_true (contextIs_loopRejected (by exact h) e) id
  | commit =>
      obtain ⟨hcall, rfl⟩ := step_commit hstep
      rw [hcall] at h
      refine iff_of_true ?_ id
      cases driver.commit with
      | ok _ => cases path <;> simp [ContextIs, transactionResolved, Session.returnEvents, h]
      | error e => exact h
  | rollback =>
      obtain ⟨e, hcall, rfl⟩ := step_rollback hstep
      rw [hcall] at h
      exact iff_of_true h id

/-! ## The protocol -/

theorem contextEnds_of_contextIs (hinv : Inv path s) (h : ContextIs path driver s) :
    ContextEnds s := by
  intro hlength
  have hidle := hinv.underway.mp hlength
  unfold ContextIs at h
  cases hcall : s.unit.commitCall with
  | running position => exact absurd hcall (hidle position)
  | notCalled | starting | committing | rollingBack | resolved | rejected =>
      rw [hcall] at h
      exact h

theorem inv_of_run
    (h : Run (step path driver) (fun s a => ¬ CallbackReturns path driver s a)
      ({} : Session O E T X) s) : Inv path s ∧ ContextIs path driver s := by
  refine h.inv (I := fun s => Inv path s ∧ ContextIs path driver s) ⟨inv_init, rfl⟩ ?_
  rintro t a u ⟨hinv, hcontext⟩ hreturns hstep
  exact ⟨inv_step hinv hstep, (contextIs_step hinv hcontext hstep).mpr hreturns⟩

/-- The protocol is obeyed as long as no callback of Drizzle's `transaction()` returns. -/
theorem obeys_of_run
    (h : Run (step path driver) (fun s a => ¬ CallbackReturns path driver s a)
      ({} : Session O E T X) s) : Obeys path s := by
  obtain ⟨hinv, hcontext⟩ := inv_of_run h
  exact ⟨hinv.keeps, contextEnds_of_contextIs hinv hcontext⟩

/-- When the callback returns, `COMMIT` is still to come. -/
theorem committing_of_callbackReturns {a : Action O E X}
    (hreturns : CallbackReturns path driver s a) (hstep : step path driver s a = some t) :
    t.unit.commitCall = .committing := by
  have hloop : ∀ position (s : Session O E T X), path = .drizzleCallback →
      s.unit.operations.length ≤ position →
      (loop path driver position s).unit.commitCall = .committing := by
    rintro position s rfl hle
    simp [loop, List.getElem?_eq_none_iff.mpr hle, loopResolved]
  cases a with
  | begin =>
      obtain ⟨hpath, -, hbegin, hnil⟩ := hreturns
      obtain ⟨-, rfl⟩ := step_begin hstep
      rw [hbegin]
      exact hloop _ _ hpath (by simp [hnil])
  | settle outcome =>
      cases outcome with
      | ok _ =>
          obtain ⟨hpath, position, hcall, hlength⟩ := hreturns
          obtain ⟨position', hcall', rfl⟩ := step_settle hstep
          obtain rfl := CommitCall.running.inj (hcall.symm.trans hcall')
          exact hloop _ _ hpath (Nat.le_of_eq hlength)
      | error e => exact hreturns.elim
  | call | commit | rollback => exact hreturns.elim

/-- The first step on which the callback returns is the one that breaks the protocol. -/
theorem obeys_step_iff
    (h : Run (step path driver) (fun s a => ¬ CallbackReturns path driver s a)
      ({} : Session O E T X) s) {a : Action O E X} (hstep : step path driver s a = some t) :
    Obeys path t ↔ ¬ CallbackReturns path driver s a := by
  obtain ⟨hinv, hcontext⟩ := inv_of_run h
  have hinv' := inv_step hinv hstep
  constructor
  · intro hobeys hreturns
    have hcall := committing_of_callbackReturns hreturns hstep
    have hnone := hobeys.contextEnds (hinv'.underway.mpr (by simp [hcall]))
    exact (contextIs_step hinv hcontext hstep).mp (by simpa [ContextIs, hcall] using hnone)
      hreturns
  · intro hreturns
    exact ⟨hinv'.keeps,
      contextEnds_of_contextIs hinv' ((contextIs_step hinv hcontext hstep).mpr hreturns)⟩

/-! ## Runs -/

namespace Sample

/-- `COMMIT` answers as given, and everything else succeeds. -/
def answering (commit : Except String Unit) : Driver String String where
  handle := "tx"
  begin := .ok ()
  commit := commit
  rollback := .ok ()
  rejection := id

def refusing : Driver String String := { answering (.ok ()) with begin := .error "refused" }

/-- One operation is enlisted and one event deferred, and the operation resolves. -/
def actions : List (Action String String String) :=
  [.call (.enlist "save"), .call (.deferPublish ["Deposited"]), .call .commit, .begin,
    .settle (.ok ()), .commit]

/-- The commit resolves, or `BEGIN` fails and nothing is run. -/
theorem obeys_prisma :
    (∃ s, play (step .prisma (answering (.ok ()))) actions {} = some s ∧
      s.unit.commitCall = .resolved ["Deposited"] ∧ Obeys .prisma s) ∧
    ∃ s, play (step .prisma refusing) (actions.take 4) {} = some s ∧
      s.unit.commitCall = .rejected "refused" ∧ invoked s.trace = [] ∧ Obeys .prisma s := by
  have hreturns (driver : Driver String String) (s : Session String String String String)
      (a : Action String String String) : ¬ CallbackReturns .prisma driver s a := by
    rcases a with _ | _ | (_ | _) | _ | _ <;> simp [CallbackReturns]
  have hresolved : Run (step .prisma (answering (.ok ())))
      (fun s a => ¬ CallbackReturns .prisma (answering (.ok ())) s a) {} _ :=
    run_of_play (fun a _ s => hreturns _ s a)
      (show play _ actions _ = some _ from rfl)
  have hrefused : Run (step .prisma refusing)
      (fun s a => ¬ CallbackReturns .prisma refusing s a) {} _ :=
    run_of_play (fun a _ s => hreturns _ s a)
      (show play _ (actions.take 4) _ = some _ from rfl)
  exact ⟨⟨_, rfl, rfl, obeys_of_run hresolved⟩, _, rfl, rfl, rfl, obeys_of_run hrefused⟩

/-- After a `COMMIT` that has failed the context is still the transaction. -/
theorem not_obeys_failedCommit :
    ¬ ∀ (path : CommitPath) (driver : Driver String String)
      (s : Session String String String String),
      Reaches (step path driver) {} s → Obeys path s := by
  intro hall
  have hreaches : Reaches (step .drizzleCallback (answering (.error "lost"))) {} _ :=
    run_of_play (fun _ _ _ => trivial)
      (show play _ (actions ++ [.rollback]) _ = some _ from rfl)
  have hnone := (hall _ _ _ hreaches).contextEnds rfl
  cases hnone

end Sample

end Noddde.UnitsOfWork
