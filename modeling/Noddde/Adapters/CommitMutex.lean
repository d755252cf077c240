import Noddde.Adapters.SyncUnitOfWork
/-!
# The calls of SyncCommitMutex.run

Any number of calls, each with a function of its own.  A function throws when it is called,
or answers with a promise that settles when it likes.
-/

namespace Noddde.Adapters.SyncCommitMutex

variable {T E : Type}

inductive RunCall (T E : Type) where
  | queued (previous promise : Nat)
  | executing (promise : Nat)
  | executed (promise : Nat) (outcome : Except E T)
  | settled (outcome : Except E T)

inductive SectionEntry (T E : Type) where
  | started (call : Nat)
  | ended (call : Nat) (outcome : Except E T)

/-- The calls are numbered in the order in which they are made; the latest entry is first. -/
structure Runs (T E : Type) where
  mutex : SyncCommitMutex := {}
  calls : List (RunCall T E) := []
  history : List (SectionEntry T E) := []

inductive RunAction (T E : Type) where
  | run
  /-- `await previous` is over, and the function is called: what it throws. -/
  | start (call : Nat) (thrown : Option E)
  | settle (call : Nat) (outcome : Except E T)
  | finish (call : Nat)

namespace Runs

def setCall (call : Nat) (runCall : RunCall T E) (s : Runs T E) : Runs T E :=
  { s with calls := s.calls.set call runCall }

def note (entry : SectionEntry T E) (s : Runs T E) : Runs T E :=
  { s with history := entry :: s.history }

/-- The `finally` block, and what `run` answers. -/
def conclude (call promise : Nat) (outcome : Except E T) (s : Runs T E) : Runs T E :=
  { s.setCall call (.settled outcome) with mutex := s.mutex.release promise }

def step (s : Runs T E) : RunAction T E → Option (Runs T E)
  | .run =>
      let ((previous, promise), mutex) := s.mutex.run
      some { s with mutex, calls := s.calls ++ [.queued previous promise] }
  | .start call thrown =>
      match s.calls[call]? with
      | some (.queued previous promise) =>
          if previous ∈ s.mutex.resolved then
            let s := s.note (.started call)
            match thrown with
            | none => some (s.setCall call (.executing promise))
            | some e => some ((s.note (.ended call (.error e))).conclude call promise (.error e))
          else none
      | _ => none
  | .settle call outcome =>
      match s.calls[call]? with
      | some (.executing promise) =>
          some ((s.note (.ended call outcome)).setCall call (.executed promise outcome))
      | _ => none
  | .finish call =>
      match s.calls[call]? with
      | some (.executed promise outcome) => some (s.conclude call promise outcome)
      | _ => none

end Runs

end Noddde.Adapters.SyncCommitMutex
