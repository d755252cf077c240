import Mathlib.Data.List.Perm.Basic
import Noddde.Engine.CompletionHooks
/-!
# Which completion hooks are invoked

The two loops are one loop over the hooks that are due, and it ends at the first of them
that rejects.
-/

namespace Noddde.UowCompletionHooks

variable {U H E : Type} [DecidableEq U]

def due (registry : Registry U H) (uow : U) (committed : Bool) : List H :=
  (if committed then (registry.getOrCreate uow).onCommitted else []) ++
    (registry.getOrCreate uow).onSettled

def OnlyLastRejects (settle : Settle H E) (invoked hooks : List H) : Prop :=
  ∀ done hook rest, hooks = done ++ hook :: rest → rest ≠ [] →
    settle (invoked ++ done) hook = .ok ()

/-- A hook is invoked once for each of its registrations by `onUowSettled` and, if the
unit of work has committed, for each of those by `onUowCommitted`. -/
def Isolated [DecidableEq H] (settle : Settle H E) (registry : Registry U H) (uow : U)
    (committed : Bool) : Prop :=
  ∀ hook,
    (runUowCompletionHooks settle registry uow committed).invoked.count hook =
      (if committed then (registry.getOrCreate uow).onCommitted.count hook else 0) +
        (registry.getOrCreate uow).onSettled.count hook

/-! ## One loop -/

theorem awaitEach_append (settle : Settle H E) (first second invoked : List H) :
    awaitEach settle (first ++ second) invoked =
      match awaitEach settle first invoked with
      | (.ok (), invoked) => awaitEach settle second invoked
      | (.error e, invoked) => (.error e, invoked) := by
  induction first generalizing invoked with
  | nil => rfl
  | cons hook rest ih =>
      simp only [List.cons_append, awaitEach]
      cases settle invoked hook with
      | ok _ => exact ih _
      | error e => rfl

theorem invoked_eq (settle : Settle H E) (registry : Registry U H) (uow : U)
    (committed : Bool) :
    (runUowCompletionHooks settle registry uow committed).invoked =
      (awaitEach settle (due registry uow committed) []).2 := by
  unfold runUowCompletionHooks due Registry.getOrCreate
  cases registry uow with
  | none => cases committed <;> rfl
  | some hooks =>
      cases committed with
      | false => rfl
      | true =>
          simp only [if_true, Option.getD_some, awaitEach_append]
          rcases awaitEach settle hooks.onCommitted [] with ⟨_ | _, invoked⟩ <;> rfl

theorem awaitEach_invokes (settle : Settle H E) (hooks invoked : List H) :
    ∃ done, done <+: hooks ∧ (awaitEach settle hooks invoked).2 = invoked ++ done := by
  induction hooks generalizing invoked with
  | nil => exact ⟨[], List.nil_prefix, (List.append_nil _).symm⟩
  | cons hook rest ih =>
      simp only [awaitEach]
      cases settle invoked hook with
      | ok _ =>
          obtain ⟨done, hdone, heq⟩ := ih (invoked ++ [hook])
          exact ⟨hook :: done, List.cons_prefix_cons.mpr ⟨rfl, hdone⟩, by simp [heq]⟩
      | error e => exact ⟨[hook], List.cons_prefix_cons.mpr ⟨rfl, List.nil_prefix⟩, rfl⟩

theorem onlyLastRejects_cons {settle : Settle H E} {invoked rest : List H} {hook : H} :
    OnlyLastRejects settle invoked (hook :: rest) ↔
      (rest ≠ [] → settle invoked hook = .ok ()) ∧
        OnlyLastRejects settle (invoked ++ [hook]) rest := by
  constructor
  · intro h
    refine ⟨fun hrest => by simpa using h [] hook rest rfl hrest, ?_⟩
    intro done other tail heq htail
    simpa using h (hook :: done) other tail (by simp [heq]) htail
  · rintro ⟨hfirst, hrest⟩ (_ | ⟨_, done⟩) other tail heq htail
    · obtain ⟨rfl, rfl⟩ : hook = other ∧ rest = tail := by simpa using heq
      simpa using hfirst htail
    · obtain ⟨rfl, rfl⟩ := List.cons.inj heq
      simpa using hrest done other tail rfl htail

/-- The loop reaches its end if nothing before the last hook rejects, and only then. -/
theorem awaitEach_eq_append_iff (settle : Settle H E) (hooks invoked : List H) :
    (awaitEach settle hooks invoked).2 = invoked ++ hooks ↔
      OnlyLastRejects settle invoked hooks := by
  induction hooks generalizing invoked with
  | nil =>
      refine iff_of_true (List.append_nil _).symm ?_
      intro done hook rest heq
      simp at heq
  | cons hook rest ih =>
      rw [onlyLastRejects_cons, ← ih]
      simp only [awaitEach]
      cases hsettle : settle invoked hook with
      | ok _ => simp
      | error e =>
          constructor
          · intro h
            obtain rfl : rest = [] := by simpa using h
            simp [awaitEach]
          · rintro ⟨hfirst, -⟩
            have hrest : rest = [] := by
              by_contra hrest
              cases hfirst hrest
            simp [hrest]

/-! ## Every hook once -/

section

variable [DecidableEq H]

theorem isolated_iff_perm (settle : Settle H E) (registry : Registry U H) (uow : U)
    (committed : Bool) :
    Isolated settle registry uow committed ↔
      (runUowCompletionHooks settle registry uow committed).invoked.Perm
        (due registry uow committed) := by
  rw [List.perm_iff_count]
  refine forall_congr' fun hook => ?_
  cases committed <;> simp [due]

theorem isolated_iff_onlyLastRejects (settle : Settle H E) (registry : Registry U H)
    (uow : U) (committed : Bool) :
    Isolated settle registry uow committed ↔
      OnlyLastRejects settle [] (due registry uow committed) := by
  obtain ⟨done, hprefix, hinvoked⟩ :=
    awaitEach_invokes settle (due registry uow committed) []
  rw [isolated_iff_perm, invoked_eq, ← awaitEach_eq_append_iff, hinvoked]
  simp only [List.nil_append]
  constructor
  · intro hperm
    exact hprefix.eq_of_length hperm.length_eq
  · rintro rfl
    exact .refl _

end

/-- The owner does not come back to the hooks that a rejection has cut off. -/
theorem runHooksOnce_again (settle : Settle H E) (owner : Owner U H) (uow : U) :
    ((owner.runHooksOnce settle uow).1.runHooksOnce settle uow).2 = [] := by
  unfold Owner.runHooksOnce
  cases h : owner.hooksRan <;> simp [h]

/-! ## Two locks in one unit of work -/

/-- The releases of two locks, by the names of their keys; the first of them rejects. -/
def twoReleases : Registry Unit String :=
  Registry.onUowSettled (Registry.onUowSettled (fun _ => none) () "Account:1") () "Account:2"

theorem not_isolated_twoReleases :
    ¬ ∀ (settle : Settle String String) (registry : Registry Unit String) (committed : Bool),
      Isolated settle registry () committed := by
  intro h
  have hsecond := h (fun _ key => if key = "Account:1" then .error "dead session" else .ok ())
    twoReleases true "Account:2"
  revert hsecond
  decide

end Noddde.UowCompletionHooks
