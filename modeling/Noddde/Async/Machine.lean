import Mathlib.Data.List.Basic
/-!
# Runs of a partial step function

A machine is a step function that refuses an action by answering `none`.  A run
takes actions one after another; a condition says which actions may be taken in
which states.
-/

namespace Machine

variable {σ α τ β : Type}

/-- `t` is reached from `s` by actions that each meet `C` in the state in which
they are taken. -/
inductive Run (step : σ → α → Option σ) (C : σ → α → Prop) (s : σ) : σ → Prop where
  | refl : Run step C s s
  | tail {t u : σ} {a : α} : Run step C s t → C t a → step t a = some u → Run step C s u

abbrev Reaches (step : σ → α → Option σ) (s t : σ) : Prop := Run step (fun _ _ => True) s t

def play (step : σ → α → Option σ) : List α → σ → Option σ
  | [], s => some s
  | a :: rest, s => (step s a).bind (play step rest)

variable {step : σ → α → Option σ} {C D : σ → α → Prop} {s t u : σ}

theorem Run.trans (hst : Run step C s t) (htu : Run step C t u) : Run step C s u := by
  induction htu with
  | refl => exact hst
  | tail _ hC hstep ih => exact ih.tail hC hstep

theorem Run.mono (h : Run step C s t) (hD : ∀ t a, C t a → D t a) : Run step D s t := by
  induction h with
  | refl => exact .refl
  | tail _ hC hstep ih => exact ih.tail (hD _ _ hC) hstep

theorem Run.reaches (h : Run step C s t) : Reaches step s t :=
  h.mono fun _ _ _ => trivial

/-- What holds at the start and is kept by every step holds throughout. -/
theorem Run.inv {I : σ → Prop} (h : Run step C s t) (hs : I s)
    (hI : ∀ t a u, I t → C t a → step t a = some u → I u) : I t := by
  induction h with
  | refl => exact hs
  | tail _ hC hstep ih => exact hI _ _ _ ih hC hstep

theorem play_cons_eq_some_iff {a : α} {rest : List α} :
    play step (a :: rest) s = some t ↔
      ∃ mid, step s a = some mid ∧ play step rest mid = some t :=
  Option.bind_eq_some_iff

theorem run_of_play {actions : List α} (hC : ∀ a ∈ actions, ∀ s, C s a)
    (h : play step actions s = some t) : Run step C s t := by
  induction actions generalizing s with
  | nil =>
      obtain rfl : s = t := by simpa [play] using h
      exact .refl
  | cons a rest ih =>
      obtain ⟨mid, hstep, hrest⟩ := play_cons_eq_some_iff.mp h
      obtain ⟨hfirst, hC⟩ := List.forall_mem_cons.mp hC
      exact (Run.tail .refl (hfirst _) hstep).trans (ih hC hrest)

/-- Take the listed actions, as long as each of them meets `C`. -/
def playMeeting (step : σ → α → Option σ) (C : σ → α → Prop) [∀ s a, Decidable (C s a)] :
    List α → σ → Option σ
  | [], s => some s
  | a :: rest, s => if C s a then (step s a).bind (playMeeting step C rest) else none

theorem run_of_playMeeting [∀ s a, Decidable (C s a)] {actions : List α}
    (h : playMeeting step C actions s = some t) : Run step C s t := by
  induction actions generalizing s with
  | nil =>
      obtain rfl : s = t := by simpa [playMeeting] using h
      exact .refl
  | cons a rest ih =>
      simp only [playMeeting] at h
      split_ifs at h with hC
      obtain ⟨mid, hstep, hrest⟩ := Option.bind_eq_some_iff.mp h
      exact (Run.tail .refl hC hstep).trans (ih hrest)

theorem play_of_playMeeting [∀ s a, Decidable (C s a)] {actions : List α}
    (h : playMeeting step C actions s = some t) : play step actions s = some t := by
  induction actions generalizing s with
  | nil => simpa [playMeeting, play] using h
  | cons a rest ih =>
      simp only [playMeeting] at h
      split_ifs at h with hC
      obtain ⟨mid, hstep, hrest⟩ := Option.bind_eq_some_iff.mp h
      exact play_cons_eq_some_iff.mpr ⟨mid, hstep, ih hrest⟩

/-- Simulation: a step is answered by a run, possibly an empty one. -/
theorem Run.simulate {step' : τ → β → Option τ} {D : τ → β → Prop} {R : σ → τ → Prop}
    {s' : τ} (h : Run step C s t) (hs : R s s')
    (hR : ∀ t a u t', R t t' → C t a → step t a = some u →
      ∃ u', Run step' D t' u' ∧ R u u') :
    ∃ t', Run step' D s' t' ∧ R t t' := by
  induction h with
  | refl => exact ⟨s', .refl, hs⟩
  | tail _ hC hstep ih =>
      obtain ⟨t', hrun, ht⟩ := ih
      obtain ⟨u', hrun', hu⟩ := hR _ _ _ _ ht hC hstep
      exact ⟨u', hrun.trans hrun', hu⟩

/-- However the actions that meet `C` are chosen, a state in `Q` is reached. -/
inductive Inevitable (step : σ → α → Option σ) (C : σ → α → Prop) (Q : σ → Prop) : σ → Prop where
  | now {s : σ} : Q s → Inevitable step C Q s
  | later {s t : σ} {a : α} : C s a → step s a = some t →
      (∀ a t, C s a → step s a = some t → Inevitable step C Q t) → Inevitable step C Q s

theorem Inevitable.exists_run {Q : σ → Prop} (h : Inevitable step C Q s) :
    ∃ t, Run step C s t ∧ Q t := by
  induction h with
  | now hs => exact ⟨_, .refl, hs⟩
  | later hC hstep _ ih =>
      obtain ⟨t, hrun, ht⟩ := ih _ _ hC hstep
      exact ⟨t, (Run.tail .refl hC hstep).trans hrun, ht⟩

theorem Inevitable.mono {Q R : σ → Prop} (h : Inevitable step C Q s) (hQ : ∀ t, Q t → R t) :
    Inevitable step C R s := by
  induction h with
  | now hs => exact .now (hQ _ hs)
  | later hC hstep _ ih => exact .later hC hstep ih

/-- Outside of `Q` some action may be taken, and every action makes `measure` smaller. -/
theorem inevitable_of_measure {I Q : σ → Prop} (measure : σ → Nat)
    (hI : ∀ t a u, I t → C t a → step t a = some u → I u)
    (hprogress : ∀ t, I t → Q t ∨ ∃ a u, C t a ∧ step t a = some u)
    (hmeasure : ∀ t a u, I t → C t a → step t a = some u → measure u < measure t)
    (hs : I s) : Inevitable step C Q s := by
  induction hn : measure s using Nat.strongRecOn generalizing s with
  | ind n ih =>
      rcases hprogress s hs with hQ | ⟨a, u, hC, hstep⟩
      · exact .now hQ
      · refine .later hC hstep fun a t hC hstep => ?_
        exact ih _ (hn ▸ hmeasure s a t hs hC hstep) (hI s a t hs hC hstep) rfl

end Machine
