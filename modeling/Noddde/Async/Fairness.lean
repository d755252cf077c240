import Mathlib.Data.Nat.Find
import Mathlib.Order.Nat
import Noddde.Async.Machine
/-!
# Infinite executions of a machine

At each time an action is taken, or none.  An execution is fair to a kind of actions if it
does not pass them over for ever while one of them can be taken.
-/

namespace Machine

variable {σ α : Type} {step : σ → α → Option σ} {C : σ → α → Prop} {A : α → Prop}
  {P Q : σ → Prop}

structure Execution (step : σ → α → Option σ) where
  state : Nat → σ
  action : Nat → Option α
  next : ∀ n, match action n with
    | none => state (n + 1) = state n
    | some a => step (state n) a = some (state (n + 1))

def Enabled (step : σ → α → Option σ) (A : α → Prop) (s : σ) : Prop :=
  ∃ a t, A a ∧ step s a = some t

/-- What holds is kept until the goal is reached. -/
def Keeps (step : σ → α → Option σ) (C : σ → α → Prop) (P Q : σ → Prop) : Prop :=
  ∀ s a t, P s → C s a → step s a = some t → P t ∨ Q t

namespace Execution

variable {e : Execution step} {n : Nat}

/-- Every action is taken in a state in which `C` allows it. -/
def Meets (e : Execution step) (C : σ → α → Prop) : Prop :=
  ∀ n a, e.action n = some a → C (e.state n) a

def Fair (e : Execution step) (A : α → Prop) : Prop :=
  ∀ n, (∀ m, n ≤ m → Enabled step A (e.state m)) → ∃ m, n ≤ m ∧ ∃ a, A a ∧ e.action m = some a

theorem meets_true (e : Execution step) : e.Meets fun _ _ => True := fun _ _ _ => trivial

theorem step_of_action {a : α} (ha : e.action n = some a) :
    step (e.state n) a = some (e.state (n + 1)) := by
  have h := e.next n
  rw [ha] at h
  exact h

theorem stays_of_none (ha : e.action n = none) : e.state (n + 1) = e.state n := by
  have h := e.next n
  rw [ha] at h
  exact h

/-- The states of an execution are reached. -/
theorem run (hC : e.Meets C) (n : Nat) : Run step C (e.state 0) (e.state n) := by
  induction n with
  | zero => exact .refl
  | succ n ih =>
      cases ha : e.action n with
      | none => rwa [stays_of_none ha]
      | some a => exact ih.tail (hC n a ha) (step_of_action ha)

theorem keeps_or (hC : e.Meets C) (hkeeps : Keeps step C P Q) (hP : P (e.state n)) :
    P (e.state (n + 1)) ∨ Q (e.state (n + 1)) := by
  cases ha : e.action n with
  | none => exact .inl (by rwa [stays_of_none ha])
  | some a => exact hkeeps _ a _ hP (hC n a ha) (step_of_action ha)

/-- What every step keeps holds from then on. -/
theorem always_of_keeps (hC : e.Meets C)
    (hkeeps : ∀ s a t, P s → C s a → step s a = some t → P t) (hP : P (e.state n)) {m : Nat}
    (hm : n ≤ m) : P (e.state m) := by
  induction m, hm using Nat.le_induction with
  | base => exact hP
  | succ m _ ih =>
      have hkeeps' : Keeps step C P P := fun s a t hP hC hstep => .inl (hkeeps s a t hP hC hstep)
      exact (keeps_or hC hkeeps' ih).elim id id

/-- What holds from `n` to `m`, unless the goal is reached before. -/
theorem keeps_until (hC : e.Meets C) (hkeeps : Keeps step C P Q) (hP : P (e.state n)) {m : Nat}
    (hm : n ≤ m) (hQ : ∀ l, n ≤ l → l ≤ m → ¬ Q (e.state l)) : P (e.state m) := by
  induction m, hm using Nat.le_induction with
  | base => exact hP
  | succ m hm ih =>
      have hPm := ih fun l hl hlm => hQ l hl (Nat.le_succ_of_le hlm)
      exact (keeps_or hC hkeeps hPm).resolve_right
        (hQ (m + 1) (Nat.le_succ_of_le hm) (Nat.le_refl _))

/-- While `P` is kept an action of a kind can be taken, and it reaches the goal: a fair
execution gets there, and `P` holds until then. -/
theorem reaches_of_fair (hC : e.Meets C) (hfair : e.Fair A) (hkeeps : Keeps step C P Q)
    (henabled : ∀ s, P s → Enabled step A s)
    (hact : ∀ s a t, P s → C s a → A a → step s a = some t → Q t) (hP : P (e.state n)) :
    ∃ m, n ≤ m ∧ Q (e.state m) ∧ ∀ l, n ≤ l → l < m → P (e.state l) := by
  classical
  have hgoal : ∃ m, n ≤ m ∧ Q (e.state m) := by
    by_contra hnever
    have hQ : ∀ m, n ≤ m → ¬ Q (e.state m) := fun m hm hQ => hnever ⟨m, hm, hQ⟩
    have hstays : ∀ m, n ≤ m → P (e.state m) := fun m hm =>
      keeps_until hC hkeeps hP hm fun l hl _ => hQ l hl
    obtain ⟨m, hm, a, hA, ha⟩ := hfair n fun m hm => henabled _ (hstays m hm)
    exact hQ (m + 1) (Nat.le_succ_of_le hm)
      (hact _ a _ (hstays m hm) (hC m a ha) hA (step_of_action ha))
  obtain ⟨hm, hQ⟩ := Nat.find_spec hgoal
  refine ⟨Nat.find hgoal, hm, hQ, fun l hl hlt => keeps_until hC hkeeps hP hl fun k hk hkl => ?_⟩
  exact fun hQk => Nat.find_min hgoal (Nat.lt_of_le_of_lt hkl hlt) ⟨hk, hQk⟩

/-! ## Executions of a machine that is another one in disguise -/

variable {τ : Type} {step' : τ → α → Option τ} {f : τ → σ}

theorem enabled_map (hf : ∀ x a, step (f x) a = (step' x a).map f) (x : τ) :
    Enabled step A (f x) ↔ Enabled step' A x := by
  constructor
  · rintro ⟨a, t, hA, hstep⟩
    rw [hf] at hstep
    obtain ⟨y, hstep, -⟩ := Option.map_eq_some_iff.mp hstep
    exact ⟨a, y, hA, hstep⟩
  · rintro ⟨a, y, hA, hstep⟩
    exact ⟨a, f y, hA, by rw [hf, hstep, Option.map_some]⟩

/-- The states behind the disguise. -/
def behind (step' : τ → α → Option τ) (action : Nat → Option α) (x : τ) : Nat → τ
  | 0 => x
  | n + 1 =>
      match action n with
      | none => behind step' action x n
      | some a => (step' (behind step' action x n) a).getD (behind step' action x n)

theorem state_eq (hf : ∀ x a, step (f x) a = (step' x a).map f) {x : τ}
    (hx : e.state 0 = f x) (n : Nat) : e.state n = f (behind step' e.action x n) := by
  induction n with
  | zero => exact hx
  | succ n ih =>
      rw [behind]
      cases ha : e.action n with
      | none => rw [stays_of_none ha, ih]
      | some a =>
          have hstep := step_of_action ha
          rw [ih, hf] at hstep
          obtain ⟨y, hy, hstate⟩ := Option.map_eq_some_iff.mp hstep
          simp only [← hstate, hy, Option.getD_some]

/-- The execution behind the disguise takes the same actions. -/
def unmask (e : Execution step) (hf : ∀ x a, step (f x) a = (step' x a).map f) {x : τ}
    (hx : e.state 0 = f x) : Execution step' where
  state := behind step' e.action x
  action := e.action
  next n := by
    cases ha : e.action n with
    | none => simp only [behind, ha]
    | some a =>
        have hstep := step_of_action ha
        rw [state_eq hf hx, hf] at hstep
        obtain ⟨y, hy, -⟩ := Option.map_eq_some_iff.mp hstep
        simp only [behind, ha, hy, Option.getD_some]

variable (hf : ∀ x a, step (f x) a = (step' x a).map f) {x : τ} (hx : e.state 0 = f x)

theorem Fair.unmask (hfair : e.Fair A) : (e.unmask hf hx).Fair A := by
  intro n hn
  refine hfair n fun m hm => ?_
  rw [state_eq hf hx]
  exact (enabled_map hf _).mpr (hn m hm)

/-! ## Executions that come to rest -/

theorem play_append (first rest : List α) (s : σ) :
    play step (first ++ rest) s = (play step first s).bind (play step rest) := by
  induction first generalizing s with
  | nil => rfl
  | cons a first ih =>
      rw [List.cons_append, play, play, Option.bind_assoc]
      exact Option.bind_congr fun t _ => ih t

def ofActions (actions : List α) (s : σ) (h : (play step actions s).isSome) :
    Execution step where
  state n := (play step (actions.take n) s).getD s
  action n := actions[n]?
  next n := by
    have hsome : ∀ m, ∃ t, play step (actions.take m) s = some t := by
      intro m
      obtain ⟨u, hu⟩ := Option.isSome_iff_exists.mp h
      rw [← List.take_append_drop m actions, play_append] at hu
      obtain ⟨t, ht, -⟩ := Option.bind_eq_some_iff.mp hu
      exact ⟨t, ht⟩
    cases ha : actions[n]? with
    | none =>
        have hle := List.getElem?_eq_none_iff.mp ha
        rw [List.take_of_length_le hle, List.take_of_length_le (Nat.le_succ_of_le hle)]
    | some a =>
        obtain ⟨hlt, rfl⟩ := List.getElem?_eq_some_iff.mp ha
        obtain ⟨t, ht⟩ := hsome n
        obtain ⟨u, hu⟩ := hsome (n + 1)
        rw [hu, ht, Option.getD_some, Option.getD_some]
        rw [List.take_succ_eq_append_getElem hlt, play_append, ht] at hu
        simpa [play] using hu

/-- An execution that rests where no action of a kind can be taken is fair to it. -/
theorem fair_ofActions {actions : List α} {s : σ} (h : (play step actions s).isSome)
    (hrest : ¬ Enabled step A ((ofActions actions s h).state actions.length)) :
    (ofActions actions s h).Fair A := by
  intro n hn
  have hle := Nat.le_max_right n actions.length
  have hlast := hn _ (Nat.le_max_left n actions.length)
  simp only [ofActions, List.take_of_length_le hle, List.take_length] at hlast hrest
  exact absurd hlast hrest

end Execution

end Machine
