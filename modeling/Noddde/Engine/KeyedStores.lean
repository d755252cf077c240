import Noddde.Data.Keyed
import Noddde.Engine.Locker
/-!
# The in-memory stores and the locker as keyed stores

An instance is addressed by two strings, its name and its id.  Each method is a
call on the slot that is kept under `${name}:${id}`.
-/

namespace Noddde

variable {J Infra : Type}

/-- A name and an id. -/
abbrev Address := String × String

/-- `${name}:${id}` -/
def Address.key (address : Address) : String := compositeKey address.1 (.string address.2)

/-! ## InMemoryEventSourcedAggregatePersistence -/

namespace EventStore

inductive Call (J : Type) where
  | load
  | loadAfterVersion (afterVersion : Nat)
  | save (events : List (Event J)) (expectedVersion : Nat)

/-- What a call answers, and the store after it. -/
def exec (address : Address) (call : Call J) (store : EventStore J) :
    Except Err (List (Event J)) × EventStore J :=
  match call with
  | .load => (.ok (load store address.1 (.string address.2)), store)
  | .loadAfterVersion afterVersion =>
      (.ok (loadAfterVersion store address.1 (.string address.2) afterVersion), store)
  | .save events expectedVersion =>
      match save store address.1 (.string address.2) events expectedVersion with
      | .ok store => (.ok [], store)
      | .error error => (.error error, store)

def act (address : Address) (call : Call J) (stream : List (Event J)) :
    Except Err (List (Event J)) × List (Event J) :=
  match call with
  | .load => (.ok stream, stream)
  | .loadAfterVersion afterVersion => (.ok (stream.drop afterVersion), stream)
  | .save events expectedVersion =>
      if events.length = 0 then (.ok [], stream)
      else if stream.length ≠ expectedVersion then
        (.error (.concurrency address.1 (.string address.2) expectedVersion stream.length), stream)
      else (.ok [], stream ++ events)

theorem stream_set (store : EventStore J) (key : String) (events : List (Event J)) :
    stream (store.set key events) = Function.update (stream store) key events := by
  funext key'
  simp only [stream, InsertionMap.get_set, Function.update_apply]
  split_ifs <;> rfl

/-- What `exec` does to the streams, call by call. -/
theorem exec_eq_act (address : Address) (call : Call J) (store : EventStore J) :
    (exec address call store).1 = (act address call (stream store address.key)).1 ∧
      stream (exec address call store).2 = Function.update (stream store) address.key
        (act address call (stream store address.key)).2 := by
  have hself : stream store =
      Function.update (stream store) address.key (stream store address.key) :=
    (Function.update_eq_self _ _).symm
  cases call with
  | load => exact ⟨rfl, hself⟩
  | loadAfterVersion => exact ⟨rfl, hself⟩
  | save events expectedVersion =>
      by_cases hempty : events.length = 0
      · have hsave : save store address.1 (.string address.2) events expectedVersion =
            .ok store := if_pos hempty
        simp only [exec, act, hsave, if_pos hempty]
        exact ⟨trivial, hself⟩
      · by_cases hversion : (stream store address.key).length = expectedVersion
        · have hsave : save store address.1 (.string address.2) events expectedVersion =
              .ok (store.set address.key (stream store address.key ++ events)) :=
            (if_neg hempty).trans (if_neg (not_not.mpr hversion))
          simp only [exec, act, hsave, if_neg hempty, if_neg (not_not.mpr hversion)]
          exact ⟨trivial, stream_set _ _ _⟩
        · have hsave : save store address.1 (.string address.2) events expectedVersion =
              .error _ := (if_neg hempty).trans (if_pos hversion)
          simp only [exec, act, hsave, if_neg hempty, ne_eq, hversion,
            not_false_eq_true]
          exact ⟨rfl, hself⟩

/-- Streams, each under the key of its address. -/
def keyed : Keyed.Store Address String (List (Event J)) (Call J)
    (Except Err (List (Event J))) (EventStore J) where
  encode := Address.key
  slot := stream
  exec := exec
  act := act
  exec_answer address call store := (exec_eq_act address call store).1
  exec_slot address call store := (exec_eq_act address call store).2

/-- The options of `read`; `after` tells whether a cursor is given. -/
structure ReadOptions where
  aggregateName : Option String := none
  after : Bool := false

/-- The events that `read(options)` yields, stream by stream. -/
def readWith (options : ReadOptions) (store : EventStore J) : Except Err (List (Event J)) :=
  if options.after then .error (.error
    "EventReader: 'after' cursor is not supported by InMemoryEventSourcedAggregatePersistence")
  else
    let entries :=
      match options.aggregateName with
      | none => store.entries
      | some aggregateName =>
          store.entries.filter fun entry =>
            s!"{aggregateName}:".toList.isPrefixOf entry.1.toList
    .ok (entries.flatMap Prod.snd)

end EventStore

/-! ## InMemoryStateStoredAggregatePersistence, InMemorySagaPersistence -/

namespace StateStore

inductive Call (J : Type) where
  | load
  | save (state : J) (expectedVersion : Nat)

def exec (address : Address) (call : Call J) (store : StateStore J) :
    Except Err (Option (StoredState J)) × StateStore J :=
  match call with
  | .load => (.ok (load store address.1 (.string address.2)), store)
  | .save state expectedVersion =>
      match save store address.1 (.string address.2) state expectedVersion with
      | .ok store => (.ok none, store)
      | .error error => (.error error, store)

def act (address : Address) (call : Call J) (stored : Option (StoredState J)) :
    Except Err (Option (StoredState J)) × Option (StoredState J) :=
  match call with
  | .load => (.ok stored, stored)
  | .save state expectedVersion =>
      let actualVersion := (stored.map (·.version)).getD 0
      if actualVersion ≠ expectedVersion then
        (.error (.concurrency address.1 (.string address.2) expectedVersion actualVersion), stored)
      else (.ok none, some { state, version := expectedVersion + 1 })

/-- What `exec` does to the entries, call by call. -/
theorem exec_eq_act (address : Address) (call : Call J) (store : StateStore J) :
    (exec address call store).1 = (act address call (store.get address.key)).1 ∧
      (exec address call store).2.get = Function.update store.get address.key
        (act address call (store.get address.key)).2 := by
  have hself : store.get = Function.update store.get address.key (store.get address.key) :=
    (Function.update_eq_self _ _).symm
  cases call with
  | load => exact ⟨rfl, hself⟩
  | save state expectedVersion =>
      by_cases hversion : version store address.key = expectedVersion
      · have hsave := save_eq_ok store hversion state
        have hactual : ¬ ((store.get address.key).map (·.version)).getD 0 ≠ expectedVersion :=
          not_not.mpr hversion
        simp only [exec, act, hsave, if_neg hactual]
        refine ⟨trivial, ?_⟩
        funext key
        rw [Function.update_apply]
        exact InsertionMap.get_set _ _ _ _
      · have hsave : save store address.1 (.string address.2) state expectedVersion = .error _ :=
          if_pos hversion
        have hactual : ((store.get address.key).map (·.version)).getD 0 ≠ expectedVersion :=
          hversion
        simp only [exec, act, hsave, if_pos hactual]
        exact ⟨rfl, hself⟩

/-- States with their versions, each under the key of its address. -/
def keyed : Keyed.Store Address String (Option (StoredState J)) (Call J)
    (Except Err (Option (StoredState J))) (StateStore J) where
  encode := Address.key
  slot := InsertionMap.get
  exec := exec
  act := act
  exec_answer address call store := (exec_eq_act address call store).1
  exec_slot address call store := (exec_eq_act address call store).2

end StateStore

/-! ## InMemorySnapshotStore -/

namespace SnapshotStore

inductive Call (J : Type) where
  | load
  | save (snapshot : Snapshot J)

def exec (address : Address) (call : Call J) (store : SnapshotStore J) :
    Option (Snapshot J) × SnapshotStore J :=
  match call with
  | .load => (load store address.1 (.string address.2), store)
  | .save snapshot => (none, save store address.1 (.string address.2) snapshot)

def act (_ : Address) (call : Call J) (stored : Option (Snapshot J)) :
    Option (Snapshot J) × Option (Snapshot J) :=
  match call with
  | .load => (stored, stored)
  | .save snapshot => (none, some snapshot)

def keyed : Keyed.Store Address String (Option (Snapshot J)) (Call J)
    (Option (Snapshot J)) (SnapshotStore J) where
  encode := Address.key
  slot := InsertionMap.get
  exec := exec
  act := act
  exec_answer address call store := by cases call <;> rfl
  exec_slot address call store := by
    cases call with
    | load => exact (Function.update_eq_self _ _).symm
    | save snapshot =>
        funext key
        simp only [exec, act, save, InsertionMap.get_set, Function.update_apply, Address.key]

end SnapshotStore

/-! ## InMemoryAggregateLocker -/

namespace Locker

/-- `settle` is the promise of a queued waiter, looked at under a choice. -/
inductive Call (Infra : Type) where
  | acquire (ticket : Ticket)
  | settle (ticket : Ticket) (timeoutMs : Option Nat) (choice : Choice Infra)
  | release (ticket : Ticket)

inductive Answer where
  /-- Whether the caller has the lock or waits. -/
  | acquired (entered : Bool)
  /-- `none` while the promise is pending. -/
  | promise (outcome : Option (Except Err Unit))
  | released
  deriving DecidableEq

def exec (address : Address) (call : Call Infra) (w : World J) : Answer × World J :=
  let id : ID := .string address.2
  match call with
  | .acquire ticket =>
      match enter ticket address.1 id w with
      | (.ok entered, w) => (.acquired entered, w)
      | (.error error, w) => (.promise (some (.error error)), w)
  | .settle ticket timeoutMs choice =>
      match waiting ticket address.1 id timeoutMs choice w with
      | some (outcome, w) => (.promise (some outcome), w)
      | none => (.promise none, w)
  | .release ticket => (.released, (release ticket address.1 id w).2)

def act (address : Address) (call : Call Infra) (entry : LockEntry) : Answer × LockEntry :=
  match call with
  | .acquire ticket =>
      if entry.locked = false
      then (.acquired true, { entry with locked := true, holder := some ticket })
      else (.acquired false, { entry with queue := entry.queue ++ [ticket] })
  | .settle ticket timeoutMs choice =>
      if ticket ∈ entry.queue then
        match timeoutMs with
        | none => (.promise none, entry)
        | some timeoutMs =>
            if 0 < timeoutMs ∧ choice.timesOut then
              (.promise (some (.error (.lockTimeout address.1 (.string address.2) timeoutMs))),
                { entry with queue := entry.queue.erase ticket })
            else (.promise none, entry)
      else (.promise (some (.ok ())), entry)
  | .release _ =>
      if entry.locked = false then (.released, entry)
      else
        match entry.queue with
        | next :: rest => (.released, { entry with queue := rest, holder := some next })
        | [] => (.released, { entry with locked := false, holder := none })

/-- What `exec` does to the locks, call by call. -/
theorem exec_eq_act (address : Address) (call : Call Infra) (w : World J) :
    (exec address call w).1 = (act address call (w.locks address.key)).1 ∧
      (exec address call w).2.locks = Function.update w.locks address.key
        (act address call (w.locks address.key)).2 := by
  have hself : w.locks = Function.update w.locks address.key (w.locks address.key) :=
    (Function.update_eq_self _ _).symm
  cases call with
  | acquire ticket =>
      by_cases hfree : (w.locks address.key).locked = false
      · have henter : enter ticket address.1 (.string address.2) w = (.ok true, _) := if_pos hfree
        rw [exec, act, henter, if_pos hfree]
        exact ⟨rfl, rfl⟩
      · have henter : enter ticket address.1 (.string address.2) w = (.ok false, _) :=
          if_neg hfree
        rw [exec, act, henter, if_neg hfree]
        exact ⟨rfl, rfl⟩
  | settle ticket timeoutMs choice =>
      by_cases hqueued : ticket ∈ (w.locks address.key).queue
      · cases timeoutMs with
        | none =>
            have hwaiting : waiting ticket address.1 (.string address.2) none choice w = none :=
              if_pos hqueued
            simp only [exec, act, hwaiting, if_pos hqueued]
            exact ⟨trivial, hself⟩
        | some timeoutMs =>
            by_cases hfires : 0 < timeoutMs ∧ choice.timesOut
            · have hwaiting : waiting ticket address.1 (.string address.2) (some timeoutMs)
                  choice w = some _ := (if_pos hqueued).trans (if_pos hfires)
              rw [exec, act, hwaiting, if_pos hqueued]
              dsimp only
              rw [if_pos hfires]
              exact ⟨rfl, rfl⟩
            · have hwaiting : waiting ticket address.1 (.string address.2) (some timeoutMs)
                  choice w = none := (if_pos hqueued).trans (if_neg hfires)
              simp only [exec, act, hwaiting, if_pos hqueued, if_neg hfires]
              exact ⟨trivial, hself⟩
      · have hwaiting : waiting ticket address.1 (.string address.2) timeoutMs choice w =
            some _ := if_neg hqueued
        simp only [exec, act, hwaiting, if_neg hqueued]
        exact ⟨trivial, hself⟩
  | release ticket =>
      refine ⟨?_, ?_⟩
      · unfold exec act
        dsimp only
        split_ifs
        · rfl
        · split <;> rfl
      · have hnote : (w.note (.released ticket address.key)).locks = w.locks := rfl
        unfold exec release act
        dsimp only
        rw [← Address.key, hnote]
        split_ifs
        · exact hself
        · cases hqueue : (w.locks address.key).queue with
          | cons next rest => rfl
          | nil => rw [World.setLock, hnote, hqueue]

/-- Locks, each under the key of its address. -/
def keyed : Keyed.Store Address String LockEntry (Call Infra) Answer (World J) where
  encode := Address.key
  slot := World.locks
  exec := exec
  act := act
  exec_answer address call w := (exec_eq_act address call w).1
  exec_slot address call w := (exec_eq_act address call w).2

end Locker

end Noddde
