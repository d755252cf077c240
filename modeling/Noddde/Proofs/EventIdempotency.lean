import Noddde.Data.Expiring
import Noddde.Engine.EventIdempotency
/-!
# The idempotency stores and their expiry

Both stores are stores of records that expire.  They differ from the reference where the bulk
removal meets a record at the end of its life, and one of them where it marks a live key again.
-/

namespace Noddde

open Expiring Machine

/-! ## InMemoryEventIdempotencyStore -/

namespace EventIdempotencyStore

variable (store : EventIdempotencyStore) (ttlMs now : Nat) (key : String)

theorem hasProcessed_fst :
    (hasProcessed store (some ttlMs) now key).1 = (alive ttlMs now (store.get key)).isSome := by
  unfold hasProcessed
  cases hget : store.get key with
  | none => rfl
  | some recordedAt =>
      rw [alive_some]
      by_cases hlive : now ≤ recordedAt + ttlMs
      · rw [if_pos hlive]
        simp only [if_neg (show ¬ now - recordedAt > ttlMs by omega), Option.isSome_some]
      · rw [if_neg hlive]
        simp only [if_pos (show now - recordedAt > ttlMs by omega), Option.isSome_none]

/-- What a lookup removes has expired. -/
theorem alive_hasProcessed (key' : String) :
    alive ttlMs now ((hasProcessed store (some ttlMs) now key).2.get key') =
      alive ttlMs now (store.get key') := by
  unfold hasProcessed
  cases hget : store.get key with
  | none => rfl
  | some recordedAt =>
      by_cases hexpired : now - recordedAt > ttlMs
      · simp only [if_pos hexpired, InsertionMap.get_delete]
        split_ifs with hkey
        · rw [hkey, hget, alive_some, if_neg (by omega)]
          rfl
        · rfl
      · simp only [if_neg hexpired]

/-- A mark always takes the time of the mark. -/
def expiring : Store EventIdempotencyStore String String ttlMs where
  key := id
  records := InsertionMap.get
  lookup := fun now key store => hasProcessed store (some ttlMs) now key
  mark := fun now key store => markProcessed store now key
  removeExpired := fun now store => removeExpired store now ttlMs
  remark := fun _ now => now
  lookup_answer := fun now key store => hasProcessed_fst store ttlMs now key
  alive_lookup := fun now key store key' => alive_hasProcessed store ttlMs now key key'
  alive_mark := by
    intro now key store key'
    rw [markProcessed, InsertionMap.get_set, id_eq]
    by_cases hkey : key' = key
    · rw [if_pos hkey, if_pos hkey, alive_self]
      cases alive ttlMs now (store.get key') <;> rfl
    · rw [if_neg hkey, if_neg hkey]
  records_removeExpired := by
    intro now store key
    rw [removeExpired, InsertionMap.get_deleteWhere]
    congr 1
    funext recordedAt
    rw [← decide_not, decide_eq_decide]
    omega

end EventIdempotencyStore

/-! ## InMemoryIdempotencyStore -/

namespace IdempotencyStore

variable (store : IdempotencyStore) (ttlMs now : Nat)

def processedAt (key : String) : Option Nat := (store.get key).map (·.processedAt)

theorem map_getLiveRecord (commandId : ID) :
    (getLiveRecord store (some ttlMs) now commandId).1.map (·.processedAt) =
      alive ttlMs now (processedAt store commandId.render) := by
  simp only [getLiveRecord, processedAt]
  cases hget : store.get commandId.render with
  | none => rfl
  | some record =>
      rw [Option.map_some, alive_some]
      by_cases hlive : now ≤ record.processedAt + ttlMs
      · rw [if_pos hlive]
        simp only [if_neg (show ¬ now - record.processedAt > ttlMs by omega), Option.map_some]
      · rw [if_neg hlive]
        simp only [if_pos (show now - record.processedAt > ttlMs by omega), Option.map_none]

theorem alive_getLiveRecord (commandId : ID) (key : String) :
    alive ttlMs now (processedAt (getLiveRecord store (some ttlMs) now commandId).2 key) =
      alive ttlMs now (processedAt store key) := by
  simp only [getLiveRecord]
  cases hget : store.get commandId.render with
  | none => rfl
  | some record =>
      by_cases hexpired : now - record.processedAt > ttlMs
      · simp only [if_pos hexpired, processedAt, InsertionMap.get_delete]
        split_ifs with hkey
        · rw [hkey, hget, Option.map_some, alive_some, if_neg (by omega)]
          rfl
        · rfl
      · simp only [if_neg hexpired]

/-- `save` rejects a command whose id is live. -/
theorem save_fst (record : IdempotencyRecord) :
    (save store (some ttlMs) now record).1 =
      if (alive ttlMs now (processedAt store record.commandId.render)).isSome then
        .error (.idempotencyConflict record.commandId)
      else .ok () := by
  rw [← map_getLiveRecord, Option.isSome_map]
  unfold save
  rcases getLiveRecord store (some ttlMs) now record.commandId with ⟨_ | live, store'⟩ <;> rfl

/-- `save` of a record with the present time; what was live is left as it is. -/
theorem alive_save (record : IdempotencyRecord) (key : String) :
    alive ttlMs now (processedAt
        (save store (some ttlMs) now { record with processedAt := now }).2 key) =
      if key = record.commandId.render then
        some ((alive ttlMs now (processedAt store key)).getD now)
      else alive ttlMs now (processedAt store key) := by
  have hmap := map_getLiveRecord store ttlMs now record.commandId
  have halive := alive_getLiveRecord store ttlMs now record.commandId key
  cases hlive : getLiveRecord store (some ttlMs) now record.commandId with
  | mk live store' =>
      rw [hlive] at hmap halive
      cases live with
      | none =>
          simp only [save, hlive]
          simp only [processedAt, InsertionMap.get_set] at halive ⊢
          split_ifs with hkey
          · rw [hkey, ← processedAt, ← hmap, Option.map_some, alive_self]
            rfl
          · exact halive
      | some live =>
          simp only [save, hlive]
          rw [halive]
          split_ifs with hkey
          · rw [hkey, ← hmap]
            rfl
          · rfl

/-- The time of a mark that has been accepted stays. -/
def expiring : Store IdempotencyStore IdempotencyRecord String ttlMs where
  key := fun record => record.commandId.render
  records := processedAt
  lookup := fun now record store => exists' store (some ttlMs) now record.commandId
  mark := fun now record store =>
    (save store (some ttlMs) now { record with processedAt := now }).2
  removeExpired := fun now store => removeExpired store now ttlMs
  remark := fun processedAt _ => processedAt
  lookup_answer := by
    intro now record store
    rw [← map_getLiveRecord, Option.isSome_map]
    rfl
  alive_lookup := fun now record store key =>
    alive_getLiveRecord store ttlMs now record.commandId key
  alive_mark := by
    intro now record store key
    rw [alive_save]
    cases alive ttlMs now (processedAt store key) <;> rfl
  records_removeExpired := by
    intro now store key
    rw [removeExpired, processedAt, InsertionMap.get_deleteWhere, processedAt]
    cases store.get key with
    | none => rfl
    | some record =>
        have hiff : record.processedAt + ttlMs ≤ now ↔ ¬ now < record.processedAt + ttlMs :=
          Nat.not_lt.symm
        by_cases hlt : now < record.processedAt + ttlMs <;> simp [Option.filter, hiff, hlt]

/-- Each `save` from now on rejects if, and only if, the reference has the id live. -/
def Rejects (s : Beside IdempotencyStore String) : Prop :=
  ∀ (record : IdempotencyRecord) now, s.now ≤ now →
    ((save s.store (some ttlMs) now record).1 = .error (.idempotencyConflict record.commandId) ↔
      (alive ttlMs now (s.reference record.commandId.render)).isSome = true)

variable {ttlMs}

theorem rejects_of_agrees {s : Beside IdempotencyStore String}
    (h : (expiring ttlMs).Agrees s) : Rejects ttlMs s := by
  intro record now hnow
  have hlookup : (alive ttlMs now (processedAt s.store record.commandId.render)).isSome =
      (alive ttlMs now (s.reference record.commandId.render)).isSome :=
    ((expiring ttlMs).lookup_answer now record s.store).symm.trans (h record now hnow)
  rw [save_fst, hlookup]
  split_ifs with hlive <;> simp [hlive]

end IdempotencyStore

/-! ## Both stores -/

/-- Operations at times that do not decrease leave both stores with the answers of the
reference, as long as each operation is exact: no key is marked again while it is live, unless
at the time of its mark, and no bulk removal meets a record whose age is the time to live. -/
theorem idempotencyStores_agree (ttlMs : Nat) :
    (∀ s, Run (EventIdempotencyStore.expiring ttlMs).step
        (EventIdempotencyStore.expiring ttlMs).Exact ⟨∅, fun _ => none, 0⟩ s →
      (EventIdempotencyStore.expiring ttlMs).Agrees s) ∧
    ∀ s, Run (IdempotencyStore.expiring ttlMs).step
        (IdempotencyStore.expiring ttlMs).Exact ⟨∅, fun _ => none, 0⟩ s →
      (IdempotencyStore.expiring ttlMs).Agrees s ∧ IdempotencyStore.Rejects ttlMs s := by
  constructor
  · intro s hrun
    exact (EventIdempotencyStore.expiring ttlMs).agrees_of_run InsertionMap.get_empty hrun
  · intro s hrun
    have hagrees := (IdempotencyStore.expiring ttlMs).agrees_of_run (fun _ => rfl) hrun
    exact ⟨hagrees, IdempotencyStore.rejects_of_agrees hagrees⟩

namespace Sample

def deposit : IdempotencyRecord := ⟨.string "c-1", "Account", .string "a-1", 0⟩

theorem idempotencyStores_agree_marked :
    (∃ s, play (EventIdempotencyStore.expiring 10).step
        [(0, .mark "e-1"), (7, .removeExpired)] ⟨∅, fun _ => none, 0⟩ = some s ∧
      (EventIdempotencyStore.expiring 10).Agrees s) ∧
    ∃ s, play (IdempotencyStore.expiring 10).step
        [(0, .mark deposit), (5, .mark deposit), (7, .removeExpired)]
        ⟨∅, fun _ => none, 0⟩ = some s ∧
      IdempotencyStore.Rejects 10 s := by
  obtain ⟨hevents, hcommands⟩ := idempotencyStores_agree 10
  constructor
  · have hmark : (EventIdempotencyStore.expiring 10).Exact ⟨∅, fun _ => none, 0⟩
        (0, .mark "e-1") := by
      rintro time ⟨⟩
    have hremove : ∀ s, (EventIdempotencyStore.expiring 10).Exact s (7, .removeExpired) := by
      intro s key time _
      show time + 10 ≠ 7
      omega
    exact ⟨_, rfl, hevents _ ((Run.tail .refl hmark rfl).tail (hremove _) rfl)⟩
  · have hmark : ∀ s now, (IdempotencyStore.expiring 10).Exact s (now, .mark deposit) :=
      fun _ _ _ _ => rfl
    have hremove : ∀ s, (IdempotencyStore.expiring 10).Exact s (7, .removeExpired) := by
      intro s record time _
      show time + 10 ≠ 7
      omega
    exact ⟨_, rfl, (hcommands _ (((Run.tail .refl (hmark _ 0) rfl).tail (hmark _ 5) rfl).tail
      (hremove _) rfl)).2⟩

/-- A key that is marked at 0 and at 5, and lives for 10, still counts as processed at 11. -/
theorem not_idempotencyStores_agree :
    ¬ ∀ ttlMs,
      (∀ s, Reaches (EventIdempotencyStore.expiring ttlMs).step ⟨∅, fun _ => none, 0⟩ s →
        (EventIdempotencyStore.expiring ttlMs).Agrees s) ∧
      ∀ s, Reaches (IdempotencyStore.expiring ttlMs).step ⟨∅, fun _ => none, 0⟩ s →
        (IdempotencyStore.expiring ttlMs).Agrees s ∧ IdempotencyStore.Rejects ttlMs s := by
  intro hall
  have hreaches : Reaches (EventIdempotencyStore.expiring 10).step ⟨∅, fun _ => none, 0⟩ _ :=
    run_of_play (fun _ _ _ => trivial)
      (show play _ [(0, Op.mark "e-1"), (5, Op.mark "e-1")] _ = some _ from rfl)
  have hanswer := (hall 10).1 _ hreaches "e-1" 11 (by decide)
  revert hanswer
  decide

end Sample

end Noddde
