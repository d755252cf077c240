import Mathlib.Logic.Function.Basic
import Noddde.Async.Machine
/-!
# Records that expire

A store keeps a time for each key.  It runs beside a reference that keeps the time of the
mark that made a key live, and forgets nothing before it has expired.
-/

namespace Expiring

open Machine

/-- The record, as long as no more than `ttl` has passed since it was made. -/
def alive (ttl now : Nat) (record : Option Nat) : Option Nat :=
  record.filter fun time => decide (now ≤ time + ttl)

theorem alive_eq_some {ttl now time : Nat} {record : Option Nat} :
    alive ttl now record = some time ↔ record = some time ∧ now ≤ time + ttl := by
  simp [alive, Option.filter_eq_some_iff]

/-- What is alive later is among what is alive now. -/
theorem alive_alive {ttl now later : Nat} (h : now ≤ later) (record : Option Nat) :
    alive ttl later (alive ttl now record) = alive ttl later record := by
  ext time
  simp only [alive_eq_some, and_assoc, and_congr_right_iff, and_iff_right_iff_imp]
  intro _ hlater
  exact Nat.le_trans h hlater

theorem alive_some (ttl now time : Nat) :
    alive ttl now (some time) = if now ≤ time + ttl then some time else none := by
  simp [alive, Option.filter]

@[simp] theorem alive_self (ttl now : Nat) : alive ttl now (some now) = some now := by
  simp [alive]

/-- The bulk removal takes a record that is alive if it is about to expire. -/
theorem alive_removed_iff {ttl now : Nat} {record : Option Nat} :
    alive ttl now (record.filter fun time => decide (now < time + ttl)) =
        alive ttl now record ↔ ∀ time, record = some time → time + ttl ≠ now := by
  cases record with
  | none => simp
  | some time =>
      simp only [Option.some.injEq, forall_eq']
      by_cases hlt : now < time + ttl
      · simp [Option.filter, hlt, Nat.ne_of_gt hlt]
      · simp [alive, Option.filter, hlt]
        omega

/-- Records that are alive alike now are the ones that are alive alike from now on. -/
theorem alive_eq_iff {ttl now : Nat} {record record' : Option Nat} :
    alive ttl now record = alive ttl now record' ↔
      ∀ later, now ≤ later →
        (alive ttl later record).isSome = (alive ttl later record').isSome := by
  constructor
  · intro h later hlater
    rw [← alive_alive hlater record, h, alive_alive hlater]
  · intro h
    -- of two records with different times one outlives the other
    have hle : ∀ {r r' : Option Nat} {time time' : Nat},
        (∀ later, now ≤ later → (alive ttl later r).isSome = (alive ttl later r').isSome) →
        alive ttl now r = some time → alive ttl now r' = some time' → time' ≤ time := by
      intro r r' time time' hsame hr hr'
      obtain ⟨rfl, hnow⟩ := alive_eq_some.mp hr
      obtain ⟨rfl, -⟩ := alive_eq_some.mp hr'
      by_contra hlt
      have hlater := hsame (time' + ttl) (by omega)
      simp [alive, Option.filter] at hlater
      omega
    have hnow := h now (Nat.le_refl now)
    cases hr : alive ttl now record with
    | none =>
        rw [hr, Option.isSome_none, eq_comm, Option.isSome_eq_false_iff,
          Option.isNone_iff_eq_none] at hnow
        exact hnow.symm
    | some time =>
        rw [hr, Option.isSome_some, eq_comm, Option.isSome_iff_exists] at hnow
        obtain ⟨time', hr'⟩ := hnow
        rw [hr', Nat.le_antisymm (hle (fun later hlater => (h later hlater).symm) hr' hr)
          (hle h hr hr')]

/-- A store with states `σ` over keys `K`, which it computes from `α`. -/
structure Store (σ α K : Type) [DecidableEq K] (ttl : Nat) where
  key : α → K
  records : σ → K → Option Nat
  lookup : Nat → α → σ → Bool × σ
  mark : Nat → α → σ → σ
  removeExpired : Nat → σ → σ
  /-- The time that a mark leaves of a key that is alive. -/
  remark : Nat → Nat → Nat
  lookup_answer : ∀ now a s,
    (lookup now a s).1 = (alive ttl now (records s (key a))).isSome
  alive_lookup : ∀ now a s k,
    alive ttl now (records (lookup now a s).2 k) = alive ttl now (records s k)
  alive_mark : ∀ now a s k,
    alive ttl now (records (mark now a s) k) =
      if k = key a then
        some ((alive ttl now (records s k)).elim now fun time => remark time now)
      else alive ttl now (records s k)
  records_removeExpired : ∀ now s k,
    records (removeExpired now s) k =
      (records s k).filter fun time => decide (now < time + ttl)

inductive Op (α : Type) where
  | lookup (a : α)
  | mark (a : α)
  | removeExpired

/-- A store beside its reference, at the time of the last operation. -/
structure Beside (σ K : Type) where
  store : σ
  reference : K → Option Nat := fun _ => none
  now : Nat := 0

variable {σ α K : Type} [DecidableEq K] {ttl : Nat} (store : Store σ α K ttl)

namespace Store

def exec (now : Nat) (op : Op α) (s : σ) : σ :=
  match op with
  | .lookup a => (store.lookup now a s).2
  | .mark a => store.mark now a s
  | .removeExpired => store.removeExpired now s

/-- A mark makes a key live that is not. -/
def refer (now : Nat) (op : Op α) (reference : K → Option Nat) : K → Option Nat :=
  match op with
  | .mark a =>
      if (alive ttl now (reference (store.key a))).isSome then reference
      else Function.update reference (store.key a) (some now)
  | .lookup _ | .removeExpired => reference

/-- An operation at a time that is not over. -/
def step (s : Beside σ K) (action : Nat × Op α) : Option (Beside σ K) :=
  if s.now ≤ action.1 then
    some ⟨store.exec action.1 action.2 s.store, store.refer action.1 action.2 s.reference,
      action.1⟩
  else none

/-- Each lookup from now on answers as the reference has it. -/
def Agrees (s : Beside σ K) : Prop :=
  ∀ a now, s.now ≤ now →
    (store.lookup now a s.store).1 =
      (alive ttl now (s.reference (store.key a))).isSome

/-- The operation does not make a key live longer, and does not remove one that is alive. -/
def Exact (s : Beside σ K) (action : Nat × Op α) : Prop :=
  match action.2 with
  | .lookup _ => True
  | .mark a => ∀ time, alive ttl action.1 (store.records s.store (store.key a)) = some time →
      store.remark time action.1 = time
  | .removeExpired => ∀ a time, store.records s.store (store.key a) = some time →
      time + ttl ≠ action.1

theorem agrees_iff_alive (s : Beside σ K) :
    store.Agrees s ↔ ∀ a, alive ttl s.now (store.records s.store (store.key a)) =
      alive ttl s.now (s.reference (store.key a)) := by
  simp only [Agrees, store.lookup_answer, alive_eq_iff]

/-- An operation keeps the agreement if it is exact, and only then. -/
theorem agrees_step_iff {s t : Beside σ K} {action : Nat × Op α} (h : store.Agrees s)
    (hstep : store.step s action = some t) : store.Agrees t ↔ store.Exact s action := by
  obtain ⟨now, op⟩ := action
  simp only [step] at hstep
  split_ifs at hstep with hnow
  obtain rfl := Option.some.inj hstep
  have halive : ∀ a, alive ttl now (store.records s.store (store.key a)) =
      alive ttl now (s.reference (store.key a)) := by
    intro a
    rw [← alive_alive hnow, (store.agrees_iff_alive s).mp h a, alive_alive hnow]
  rw [agrees_iff_alive]
  cases op with
  | lookup a =>
      refine iff_of_true (fun a' => ?_) trivial
      exact (store.alive_lookup now a s.store _).trans (halive a')
  | mark a =>
      simp only [exec, refer, store.alive_mark, Exact]
      cases hrecord : alive ttl now (store.records s.store (store.key a)) with
      | none =>
          have hreference := (halive a).symm.trans hrecord
          refine iff_of_true (fun a' => ?_) fun time htime => by cases htime
          simp only [hreference, Option.isSome_none, Bool.false_eq_true, if_false,
            Function.update_apply]
          by_cases hkey : store.key a' = store.key a
          · rw [if_pos hkey, if_pos hkey, hkey, hrecord, alive_self, Option.elim_none]
          · rw [if_neg hkey, if_neg hkey, halive]
      | some time =>
          have hreference := (halive a).symm.trans hrecord
          simp only [hreference, Option.isSome_some, if_true, Option.some.injEq, forall_eq']
          constructor
          · intro hall
            have ha := hall a
            rw [if_pos rfl, hreference, hrecord] at ha
            exact Option.some.inj ha
          · intro hremark a'
            by_cases hkey : store.key a' = store.key a
            · rw [if_pos hkey, hkey, hreference, hrecord, Option.elim_some, hremark]
            · rw [if_neg hkey, halive]
  | removeExpired =>
      simp only [exec, refer, store.records_removeExpired, Exact, ← halive, alive_removed_iff]

/-- From an empty store on, exact operations keep the store and the reference in agreement. -/
theorem agrees_of_run {start : σ} (hstart : ∀ k, store.records start k = none)
    {s : Beside σ K} (h : Run store.step store.Exact ⟨start, fun _ => none, 0⟩ s) :
    store.Agrees s := by
  refine h.inv ((store.agrees_iff_alive _).mpr fun a => by rw [hstart]) ?_
  exact fun t action u hagrees hexact hstep => (store.agrees_step_iff hagrees hstep).mpr hexact

end Store

end Expiring
