import Noddde.Engine.KeyedStores
import Noddde.Engine.Sample
/-!
# Isolation of instances in the in-memory stores

The stores keep instances apart exactly as far as their keys do; a name and an id are
joined by a separator that both may contain.
-/

namespace Noddde

variable {J Infra : Type}

/-! ## What is expected -/

/-- `read({ aggregateName })` yields what a store yields in which only the saves under
that name were made. -/
def ReadsOwn (J : Type) (P : Set Address) : Prop :=
  ∀ calls : List (Address × EventStore.Call J), (∀ call ∈ calls, call.1 ∈ P) → ∀ a ∈ P,
    EventStore.readWith { aggregateName := some a.1 } (EventStore.keyed.run calls ∅) =
      EventStore.readWith {}
        (EventStore.keyed.run (calls.filter fun call => call.1.1 = a.1) ∅)

/-- Instances with addresses in `P` do not interfere. -/
structure KeysIsolate (J Infra : Type) (P : Set Address) : Prop where
  events : (EventStore.keyed (J := J)).Isolated ∅ P
  /-- Of state-stored aggregates and of sagas. -/
  states : (StateStore.keyed (J := J)).Isolated ∅ P
  snapshots : (SnapshotStore.keyed (J := J)).Isolated ∅ P
  locks : (@Locker.keyed J Infra).Isolated {} P
  reads : ReadsOwn J P

/-- The keys of `P` are distinct, and none looks like one under another name. -/
structure Separated (P : Set Address) : Prop where
  keys : Set.InjOn Address.key P
  prefixes : ∀ a ∈ P, ∀ b ∈ P, s!"{a.1}:".toList <+: b.key.toList → b.1 = a.1

theorem key_toList (address : Address) :
    address.key.toList = address.1.toList ++ ':' :: address.2.toList := by
  have hkey : address.key = address.1 ++ ":" ++ address.2 := rfl
  rw [hkey, String.toList_append, String.toList_append, List.append_assoc]
  rfl

theorem prefix_toList (name : String) : s!"{name}:".toList = name.toList ++ [':'] := by
  have hrender : s!"{name}:" = name ++ ":" := rfl
  rw [hrender, String.toList_append]
  rfl

theorem prefix_key (address : Address) : s!"{address.1}:".toList <+: address.key.toList := by
  rw [prefix_toList, key_toList]
  exact ⟨address.2.toList, by simp⟩

/-! ## Calls that leave a trace -/

theorem EventStore.visible [Inhabited J] : (EventStore.keyed (J := J)).Visible ∅ := by
  intro a b _
  refine ⟨.save [⟨"", default, none⟩] 0, .load, ?_⟩
  simp [EventStore.keyed, EventStore.act, EventStore.stream]

theorem StateStore.visible [Inhabited J] : (StateStore.keyed (J := J)).Visible ∅ := by
  intro a b _
  refine ⟨.save default 0, .load, ?_⟩
  simp [StateStore.keyed, StateStore.act]

theorem SnapshotStore.visible [Inhabited J] : (SnapshotStore.keyed (J := J)).Visible ∅ := by
  intro a b _
  refine ⟨.save ⟨default, 0⟩, .load, ?_⟩
  simp [SnapshotStore.keyed, SnapshotStore.act]

theorem Locker.visible : (@Locker.keyed J Infra).Visible {} := by
  intro a b _
  let ticket : Ticket := ⟨.command 0, none⟩
  refine ⟨.acquire ticket, .acquire ticket, ?_⟩
  simp [Locker.keyed, Locker.act]

/-! ## Reading by name -/

section Reading

variable {P : Set Address} {name : String}

/-- A key in use begins with the name exactly if it is one of that name. -/
theorem Separated.prefix_iff (h : Separated P) {a b : Address} (ha : a ∈ P) (hb : b ∈ P) :
    s!"{a.1}:".toList.isPrefixOf b.key.toList = decide (b.1 = a.1) := by
  rw [Bool.eq_iff_iff, List.isPrefixOf_iff_prefix, decide_eq_true_eq]
  constructor
  · exact h.prefixes a ha b hb
  · intro hname
    rw [← hname]
    exact prefix_key b

/-- The three ways in which a save ends. -/
theorem save_cases (address : Address) (events : List (Event J)) (expectedVersion : Nat)
    (store : EventStore J) :
    (EventStore.exec address (.save events expectedVersion) store).2 = store ∨
      (EventStore.exec address (.save events expectedVersion) store).2 =
        store.set address.key (EventStore.stream store address.key ++ events) := by
  simp only [EventStore.exec, EventStore.save, ne_eq]
  split_ifs
  · exact .inl rfl
  · exact .inr rfl
  · exact .inl rfl

/-- What a save does is decided by the stream of its key. -/
theorem save_congr {store own : EventStore J} {address : Address}
    (h : EventStore.stream store address.key = EventStore.stream own address.key)
    (events : List (Event J)) (expectedVersion : Nat) :
    ((EventStore.exec address (.save events expectedVersion) store).2 = store ∧
      (EventStore.exec address (.save events expectedVersion) own).2 = own) ∨
    ((EventStore.exec address (.save events expectedVersion) store).2 =
        store.set address.key (EventStore.stream own address.key ++ events) ∧
      (EventStore.exec address (.save events expectedVersion) own).2 =
        own.set address.key (EventStore.stream own address.key ++ events)) := by
  have hkey : compositeKey address.1 (.string address.2) = address.key := rfl
  simp only [EventStore.exec, EventStore.save, ne_eq, hkey, h]
  split_ifs
  · exact .inl ⟨rfl, rfl⟩
  · exact .inr ⟨rfl, rfl⟩
  · exact .inl ⟨rfl, rfl⟩

/-- One call, seen by the readers of a name: it happens in the store of that name, or
nothing happens. -/
theorem entries_exec {store own : EventStore J} {address : Address}
    (hown : store.entries.filter (fun entry => s!"{name}:".toList.isPrefixOf entry.1.toList) =
      own.entries)
    (haddress : s!"{name}:".toList.isPrefixOf address.key.toList = decide (address.1 = name))
    (call : EventStore.Call J) :
    (EventStore.exec address call store).2.entries.filter
        (fun entry => s!"{name}:".toList.isPrefixOf entry.1.toList) =
      (if address.1 = name then (EventStore.exec address call own).2 else own).entries := by
  cases call with
  | load =>
      rw [EventStore.exec, EventStore.exec, ite_self]
      exact hown
  | loadAfterVersion =>
      rw [EventStore.exec, EventStore.exec, ite_self]
      exact hown
  | save events expectedVersion =>
      let p (key : String) : Bool := s!"{name}:".toList.isPrefixOf key.toList
      by_cases hname : address.1 = name
      · have hp : p address.key = true := by
          rw [decide_eq_true hname] at haddress
          exact haddress
        have hstream : EventStore.stream store address.key =
            EventStore.stream own address.key := by
          have hget := InsertionMap.getEntry_filter hp store.entries
          rw [hown] at hget
          exact congrArg (Option.getD · []) hget.symm
        rw [if_pos hname]
        rcases save_congr hstream events expectedVersion with ⟨hstore, hown'⟩ | ⟨hstore, hown'⟩
        · rw [hstore, hown']
          exact hown
        · rw [hstore, hown']
          have hset := InsertionMap.filter_setEntry_of_pos hp
            (EventStore.stream own address.key ++ events) store.entries
          rw [hown] at hset
          exact hset
      · have hp : p address.key = false := by
          rw [decide_eq_false hname] at haddress
          exact haddress
        rw [if_neg hname]
        rcases save_cases address events expectedVersion store with hstore | hstore
        · rw [hstore]
          exact hown
        · rw [hstore]
          exact (InsertionMap.filter_setEntry_of_neg hp _ _).trans hown

/-- The keys of a name are those of the store of that name, after any calls. -/
theorem entries_run (h : Separated P) {a : Address} (ha : a ∈ P)
    (calls : List (Address × EventStore.Call J)) (hcalls : ∀ call ∈ calls, call.1 ∈ P)
    {store own : EventStore J}
    (hown : store.entries.filter (fun entry => s!"{a.1}:".toList.isPrefixOf entry.1.toList) =
      own.entries) :
    (EventStore.keyed.run calls store).entries.filter
        (fun entry => s!"{a.1}:".toList.isPrefixOf entry.1.toList) =
      (EventStore.keyed.run (calls.filter fun call => call.1.1 = a.1) own).entries := by
  induction calls generalizing store own with
  | nil => exact hown
  | cons call rest ih =>
      have hstep := entries_exec hown
        (h.prefix_iff ha (hcalls call List.mem_cons_self)) call.2
      have hrest : ∀ call ∈ rest, call.1 ∈ P := fun call hmem =>
        hcalls call (List.mem_cons_of_mem _ hmem)
      rw [List.filter_cons]
      by_cases hname : call.1.1 = a.1
      · rw [if_pos hname] at hstep
        rw [if_pos (by simpa using hname)]
        exact ih hrest hstep
      · rw [if_neg hname] at hstep
        rw [if_neg (by simpa using hname)]
        exact ih hrest hstep

theorem readsOwn_of_separated (h : Separated P) : ReadsOwn J P := by
  intro calls hcalls a ha
  have hempty : (∅ : EventStore J).entries.filter
      (fun entry => s!"{a.1}:".toList.isPrefixOf entry.1.toList) =
        (∅ : EventStore J).entries := rfl
  have hentries := entries_run h ha calls hcalls hempty
  exact congrArg (fun entries => Except.ok (List.flatMap Prod.snd entries)) hentries

/-- A key that looks like one under another name is read under that name. -/
theorem prefixes_of_readsOwn [Inhabited J] (h : ReadsOwn J P) :
    ∀ a ∈ P, ∀ b ∈ P, s!"{a.1}:".toList <+: b.key.toList → b.1 = a.1 := by
  intro a ha b hb hprefix
  by_contra hname
  have hreads := h [(b, .save [⟨"", default, none⟩] 0)] (by simpa using hb) a ha
  have hnone : ([(b, EventStore.Call.save [(⟨"", default, none⟩ : Event J)] 0)].filter
      fun call => call.1.1 = a.1) = [] := by simp [hname]
  have hp : s!"{a.1}:".toList.isPrefixOf b.key.toList = true :=
    List.isPrefixOf_iff_prefix.mpr hprefix
  rw [hnone] at hreads
  have hread : EventStore.readWith { aggregateName := some a.1 }
      (EventStore.keyed.run [(b, .save [(⟨"", default, none⟩ : Event J)] 0)] ∅) =
        .ok (List.flatMap Prod.snd ([(b.key, [(⟨"", default, none⟩ : Event J)])].filter
          fun entry => s!"{a.1}:".toList.isPrefixOf entry.1.toList)) := rfl
  have hkeep : [(b.key, [(⟨"", default, none⟩ : Event J)])].filter
      (fun entry => s!"{a.1}:".toList.isPrefixOf entry.1.toList) =
        [(b.key, [(⟨"", default, none⟩ : Event J)])] :=
    List.filter_eq_self.mpr fun entry hentry => by
      rw [List.mem_singleton.mp hentry]
      exact hp
  rw [hread, hkeep] at hreads
  cases hreads

end Reading

/-! ## When instances are isolated -/

/-- The instances in use are isolated exactly if their keys are separated. -/
theorem keysIsolate_iff [Inhabited J] (P : Set Address) :
    KeysIsolate J Infra P ↔ Separated P := by
  constructor
  · intro h
    exact ⟨EventStore.keyed.injOn_of_isolated EventStore.visible h.events,
      prefixes_of_readsOwn h.reads⟩
  · intro h
    exact
      { events := EventStore.keyed.isolated_of_injOn h.keys ∅
        states := StateStore.keyed.isolated_of_injOn h.keys ∅
        snapshots := SnapshotStore.keyed.isolated_of_injOn h.keys ∅
        locks := Locker.keyed.isolated_of_injOn h.keys {}
        reads := readsOwn_of_separated h }

/-- An event is saved under the name `a:b` and loaded under the name `a`. -/
theorem keysIsolate_colon : ¬ KeysIsolate Sample.Value Unit Set.univ := by
  intro h
  have hload := h.events [(("a:b", "c"), .save [Sample.event "Added" (some 1)] 0)]
    (fun _ _ => Set.mem_univ _) ("a", "b:c") (Set.mem_univ _) .load
  revert hload
  decide

/-- Names without the separator are enough. -/
theorem separated_of_names {P : Set Address} (h : ∀ a ∈ P, ':' ∉ a.1.toList) :
    Separated P := by
  have hname (a : Address) (ha : a ∈ P) (rest : List Char) :
      (a.1.toList ++ ':' :: rest).takeWhile (· ≠ ':') = a.1.toList := by
    rw [List.takeWhile_append_of_pos, List.takeWhile_cons_of_neg, List.append_nil]
    · simp
    · intro c hc
      rw [decide_eq_true_eq]
      exact fun heq => h a ha (heq ▸ hc)
  constructor
  · intro a ha b hb hkey
    have hlist := congrArg String.toList hkey
    rw [key_toList, key_toList] at hlist
    have hfirst : a.1.toList = b.1.toList := by
      rw [← hname a ha a.2.toList, hlist, hname b hb]
    rw [hfirst] at hlist
    have hsecond := (List.cons.inj (List.append_cancel_left hlist)).2
    exact Prod.ext (String.toList_injective hfirst) (String.toList_injective hsecond)
  · intro a ha b hb hprefix
    obtain ⟨rest, hrest⟩ := hprefix
    rw [prefix_toList, key_toList, List.append_assoc] at hrest
    apply String.toList_injective
    rw [← hname b hb b.2.toList, ← hrest]
    exact hname a ha rest

end Noddde
