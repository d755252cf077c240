import Mathlib.Data.Set.Function
/-!
# Objects that are kept in slots

A store keeps many objects, each in the slot of a key that is computed from its
address.  An operation at an address reads and writes that one slot; so two
addresses can only be told apart as far as their keys can.
-/

namespace Keyed

variable {α κ σ ω ρ τ : Type} [DecidableEq α] [DecidableEq κ]

/-- A store with states `τ`.  What an operation answers and does is what `act` does to
the slot of its address. -/
structure Store (α κ σ ω ρ τ : Type) [DecidableEq κ] where
  encode : α → κ
  slot : τ → κ → σ
  exec : α → ω → τ → ρ × τ
  act : α → ω → σ → ρ × σ
  exec_answer : ∀ a o t, (exec a o t).1 = (act a o (slot t (encode a))).1
  exec_slot : ∀ a o t, slot (exec a o t).2 =
    Function.update (slot t) (encode a) (act a o (slot t (encode a))).2

variable (store : Store α κ σ ω ρ τ)

namespace Store

/-- The state after a sequence of operations. -/
def run (ops : List (α × ω)) (t : τ) : τ :=
  ops.foldl (fun t op => (store.exec op.1 op.2 t).2) t

/-- What an operation at `a` answers depends only on the operations that were made at
`a`, as long as all addresses are in `P`. -/
def Isolated (start : τ) (P : Set α) : Prop :=
  ∀ ops : List (α × ω), (∀ op ∈ ops, op.1 ∈ P) → ∀ a ∈ P, ∀ o,
    (store.exec a o (store.run ops start)).1 =
      (store.exec a o (store.run (ops.filter fun op => op.1 = a) start)).1

omit [DecidableEq α] in
/-- A slot is the work of the operations at its addresses. -/
theorem slot_run (ops : List (α × ω)) (t : τ) (k : κ) :
    store.slot (store.run ops t) k =
      (ops.filter fun op => store.encode op.1 = k).foldl
        (fun s op => (store.act op.1 op.2 s).2) (store.slot t k) := by
  induction ops generalizing t with
  | nil => rfl
  | cons op rest ih =>
      have hstep : store.run (op :: rest) t =
          store.run rest (store.exec op.1 op.2 t).2 := rfl
      rw [hstep, ih, store.exec_slot, List.filter_cons]
      by_cases hk : store.encode op.1 = k
      · subst hk
        simp
      · simp [hk, Ne.symm hk]

/-- Addresses with keys of their own do not interfere. -/
theorem isolated_of_injOn {P : Set α} (h : Set.InjOn store.encode P) (start : τ) :
    store.Isolated start P := by
  intro ops hops a ha o
  have hfilter : (ops.filter fun op => store.encode op.1 = store.encode a) =
      ops.filter fun op => op.1 = a := by
    apply List.filter_congr
    intro op hop
    simp only [decide_eq_decide]
    exact ⟨fun hkey => h (hops op hop) ha hkey, fun heq => heq ▸ rfl⟩
  have hself : ((ops.filter fun op => op.1 = a).filter fun op =>
      store.encode op.1 = store.encode a) = ops.filter fun op => op.1 = a := by
    apply List.filter_eq_self.mpr
    intro op hop
    have heq : op.1 = a := of_decide_eq_true (List.mem_filter.mp hop).2
    rw [heq, decide_eq_true_eq]
  rw [store.exec_answer, store.exec_answer, store.slot_run, store.slot_run, hfilter, hself]

/-- Some operation leaves a trace in a fresh slot that another one shows. -/
def Visible (start : τ) : Prop :=
  ∀ a b : α, store.encode a = store.encode b → ∃ o o' : ω,
    (store.act b o' (store.act a o (store.slot start (store.encode b))).2).1 ≠
      (store.act b o' (store.slot start (store.encode b))).1

theorem injOn_of_isolated {start : τ} {P : Set α} (hvisible : store.Visible start)
    (h : store.Isolated start P) : Set.InjOn store.encode P := by
  intro a ha b hb hkey
  by_contra hne
  obtain ⟨o, o', hdiff⟩ := hvisible a b hkey
  have hanswer := h [(a, o)] (by simpa using ha) b hb o'
  have hnone : ([(a, o)].filter fun op => op.1 = b) = [] := by simp [hne]
  have hslot : store.slot (store.run [(a, o)] start) (store.encode b) =
      (store.act a o (store.slot start (store.encode b))).2 := by
    rw [store.slot_run]
    simp [hkey]
  rw [hnone, store.exec_answer, store.exec_answer, hslot] at hanswer
  exact hdiff hanswer

/-- A store isolates the addresses in use exactly if their keys are distinct. -/
theorem isolated_iff {start : τ} (hvisible : store.Visible start) (P : Set α) :
    store.Isolated start P ↔ Set.InjOn store.encode P :=
  ⟨store.injOn_of_isolated hvisible, fun h => store.isolated_of_injOn h start⟩

end Store

end Keyed
