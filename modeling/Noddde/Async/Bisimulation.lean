import Noddde.Async.Protocol
/-!
# Programs that behave alike

Two programs agree if no run tells them apart, whatever other threads do to the shared
state between their segments: they are ready in the same states, change the state in the
same way and end alike.
-/

namespace Async

variable {σ χ ε α β : Type}

/-- The two programs are in lockstep: a segment of one is answered by the other with the
same effect, and they end with the same outcome. -/
def Agree : Async σ χ ε α → Async σ χ ε α → Prop
  | .pure a, .pure b => a = b
  | .throw e, .throw f => e = f
  | .step act k, .step act' k' => ∀ c s,
      (act c s).isSome = (act' c s).isSome ∧
        ∀ b t b' t', act c s = some (b, t) → act' c s = some (b', t') →
          t = t' ∧ Agree (k b) (k' b')
  | _, _ => False

/-- Some run of the program ends with an outcome in `Q`. -/
def MayEnd (Q : Except ε α → Prop) : Async σ χ ε α → Prop
  | .pure a => Q (.ok a)
  | .throw e => Q (.error e)
  | .step act k => ∃ c s b t, act c s = some (b, t) ∧ MayEnd Q (k b)

/-- In every run the segments of the program cost at most `n` together. -/
def Spends (cost : σ → σ → Nat) : Async σ χ ε α → Nat → Prop
  | .step act k, n => ∀ c s b t, act c s = some (b, t) →
      cost s t ≤ n ∧ Spends cost (k b) (n - cost s t)
  | _, _ => True

/-! ## Programs that have not ended -/

theorem settled_bind {p : Async σ χ ε α} {f : α → Async σ χ ε β} (h : p.settled = false) :
    (p.bind f).settled = false := by
  cases p with
  | step act k => rfl
  | _ => cases h

theorem settled_tryCatch {p : Async σ χ ε α} {handler : ε → Async σ χ ε α}
    (h : p.settled = false) : (p.tryCatch handler).settled = false := by
  cases p with
  | step act k => rfl
  | _ => cases h

theorem MayEnd.nonempty {Q : Except ε α → Prop} {p : Async σ χ ε α} (h : p.MayEnd Q)
    (hp : p.settled = false) : Nonempty χ := by
  cases p with
  | step act k =>
      obtain ⟨c, -⟩ := h
      exact ⟨c⟩
  | _ => cases hp

/-! ## Agreement -/

namespace Agree

variable {p q : Async σ χ ε α} {f g : α → Async σ χ ε β}

theorem refl (p : Async σ χ ε α) : Agree p p := by
  induction p with
  | pure a => rfl
  | throw e => rfl
  | step act k ih =>
      intro c s
      refine ⟨rfl, fun b t b' t' hb hb' => ?_⟩
      obtain ⟨rfl, rfl⟩ := Prod.mk.inj (Option.some.inj (hb.symm.trans hb'))
      exact ⟨rfl, ih b⟩

theorem bind_right (h : ∀ a, Agree (f a) (g a)) : Agree (p.bind f) (p.bind g) := by
  induction p with
  | pure a => exact h a
  | throw e => rfl
  | step act k ih =>
      intro c s
      refine ⟨rfl, fun b t b' t' hb hb' => ?_⟩
      obtain ⟨rfl, rfl⟩ := Prod.mk.inj (Option.some.inj (hb.symm.trans hb'))
      exact ⟨rfl, ih b⟩

theorem bind_left (h : Agree p q) : Agree (p.bind f) (q.bind f) := by
  induction p generalizing q with
  | pure a =>
      cases q with
      | pure b => exact h ▸ refl _
      | throw e => exact h.elim
      | step act k => exact h.elim
  | throw e =>
      cases q with
      | pure b => exact h.elim
      | throw f => exact h
      | step act k => exact h.elim
  | step act k ih =>
      cases q with
      | pure b => exact h.elim
      | throw f => exact h.elim
      | step act' k' =>
          intro c s
          obtain ⟨hready, hstep⟩ := h c s
          refine ⟨hready, fun b t b' t' hb hb' => ?_⟩
          obtain ⟨ht, hk⟩ := hstep b t b' t' hb hb'
          exact ⟨ht, ih b hk⟩

/-- What follows a value that the program may return agrees as well. -/
theorem of_bind_right {a : α} (h : Agree (p.bind f) (p.bind g))
    (ha : p.MayEnd fun r => r = .ok a) : Agree (f a) (g a) := by
  induction p with
  | pure b =>
      obtain rfl := Except.ok.inj ha
      exact h
  | throw e => cases ha
  | step act k ih =>
      obtain ⟨c, s, b, t, hb, ha⟩ := ha
      exact ih b ((h c s).2 b t b t hb hb).2 ha

theorem spends {cost : σ → σ → Nat} {n : Nat} (h : Agree p q) (hp : p.Spends cost n) :
    q.Spends cost n := by
  induction p generalizing q n with
  | pure a =>
      cases q with
      | step act k => exact h.elim
      | _ => trivial
  | throw e =>
      cases q with
      | step act k => exact h.elim
      | _ => trivial
  | step act k ih =>
      cases q with
      | step act' k' =>
          intro c s b' t' hb'
          obtain ⟨hready, hstep⟩ := h c s
          obtain ⟨⟨b, t⟩, hb⟩ := Option.isSome_iff_exists.mp
            (hready.trans (Option.isSome_iff_exists.mpr ⟨_, hb'⟩))
          obtain ⟨rfl, hk⟩ := hstep b t b' t' hb hb'
          exact ⟨(hp c s b t hb).1, ih b hk (hp c s b t hb).2⟩
      | _ => trivial

/-- A handler that is never called makes no difference. -/
theorem tryCatch {bad : ε → Prop} {handler : ε → Async σ χ ε α}
    (hnever : ¬ p.MayEnd fun r => ∃ e, r = .error e ∧ bad e)
    (hhandler : ∀ e, ¬ bad e → handler e = .throw e) : Agree p (p.tryCatch handler) := by
  induction p with
  | pure a => rfl
  | throw e =>
      have hbad : ¬ bad e := fun hbad => hnever ⟨e, rfl, hbad⟩
      change Agree _ (handler e)
      rw [hhandler e hbad]
      rfl
  | step act k ih =>
      intro c s
      refine ⟨rfl, fun b t b' t' hb hb' => ?_⟩
      obtain ⟨rfl, rfl⟩ := Prod.mk.inj (Option.some.inj (hb.symm.trans hb'))
      exact ⟨rfl, ih b fun hend => hnever ⟨c, s, b, t, hb, hend⟩⟩

/-- A handler that goes on with the program is never called if it makes no difference. -/
theorem not_mayEnd {bad : ε → Prop} {handler : ε → Async σ χ ε α}
    (h : Agree (p.bind f) ((p.tryCatch handler).bind f))
    (hhandler : ∀ e, bad e → ((handler e).bind f).settled = false) :
    ¬ p.MayEnd fun r => ∃ e, r = .error e ∧ bad e := by
  induction p with
  | pure a =>
      rintro ⟨e, he, -⟩
      cases he
  | throw e =>
      rintro ⟨e', he, hbad⟩
      obtain rfl := Except.error.inj he
      have hstep := hhandler e hbad
      change Agree (.throw e) ((handler e).bind f) at h
      cases hf : (handler e).bind f with
      | pure a => simp [hf, settled] at hstep
      | throw e => simp [hf, settled] at hstep
      | step act k =>
          rw [hf] at h
          exact h.elim
  | step act k ih =>
      rintro ⟨c, s, b, t, hb, hend⟩
      exact ih b ((h c s).2 b t b t hb hb).2 hend

end Agree

/-! ## What a program may end with -/

namespace MayEnd

theorem mono {Q R : Except ε α → Prop} {p : Async σ χ ε α} (h : p.MayEnd Q)
    (hQ : ∀ r, Q r → R r) : p.MayEnd R := by
  induction p with
  | pure a => exact hQ _ h
  | throw e => exact hQ _ h
  | step act k ih =>
      obtain ⟨c, s, b, t, hb, hend⟩ := h
      exact ⟨c, s, b, t, hb, ih b hend⟩

theorem call {Q : Except ε α → Prop} {f : χ → Segment σ ε α} {c : χ} {s : σ}
    (h : Q (f c s).1) : (Async.call f).MayEnd Q := by
  refine ⟨c, s, (f c s).1, (f c s).2, rfl, ?_⟩
  revert h
  cases (f c s).1 with
  | ok a => exact id
  | error e => exact id

/-- The second part of a sequence ends so, after a value of the first. -/
theorem bind {Q : Except ε β → Prop} {p : Async σ χ ε α} {f : α → Async σ χ ε β} {a : α}
    (hp : p.MayEnd fun r => r = .ok a) (hf : (f a).MayEnd Q) : (p.bind f).MayEnd Q := by
  induction p with
  | pure b =>
      obtain rfl := Except.ok.inj hp
      exact hf
  | throw e => cases hp
  | step act k ih =>
      obtain ⟨c, s, b, t, hb, hend⟩ := hp
      exact ⟨c, s, b, t, hb, ih b hend⟩

end MayEnd

/-! ## Costs -/

namespace Spends

variable {cost : σ → σ → Nat} {m n : Nat}

theorem mono {p : Async σ χ ε α} (h : p.Spends cost m) (hmn : m ≤ n) : p.Spends cost n := by
  induction p generalizing m n with
  | pure a => trivial
  | throw e => trivial
  | step act k ih =>
      intro c s b t hb
      obtain ⟨hcost, hk⟩ := h c s b t hb
      exact ⟨Nat.le_trans hcost hmn, ih b hk (Nat.sub_le_sub_right hmn _)⟩

theorem bind {p : Async σ χ ε α} {f : α → Async σ χ ε β} (hp : p.Spends cost m)
    (hf : ∀ a, (f a).Spends cost n) : (p.bind f).Spends cost (m + n) := by
  induction p generalizing m with
  | pure a => exact (hf a).mono (Nat.le_add_left n m)
  | throw e => trivial
  | step act k ih =>
      intro c s b t hb
      obtain ⟨hcost, hk⟩ := hp c s b t hb
      refine ⟨Nat.le_trans hcost (Nat.le_add_right m n), ?_⟩
      rw [Nat.sub_add_comm hcost]
      exact ih b hk

theorem ofExcept (r : Except ε α) : (ofExcept r : Async σ χ ε α).Spends cost n := by
  cases r <;> trivial

theorem call {f : χ → Segment σ ε α} (h : ∀ c s, cost s (f c s).2 ≤ n) :
    (Async.call f).Spends cost n := by
  intro c s r t hact
  obtain ⟨-, rfl⟩ := Prod.mk.inj (Option.some.inj hact)
  exact ⟨h c s, ofExcept r⟩

/-- Segments that cost nothing. -/
theorem of_every {p : Async σ χ ε α} (h : p.Every fun s t => cost s t = 0) :
    p.Spends cost 0 := by
  induction p with
  | pure a => trivial
  | throw e => trivial
  | step act k ih =>
      intro c s b t hb
      obtain ⟨hcost, hk⟩ := h c s b t hb
      rw [hcost]
      exact ⟨Nat.le_refl 0, ih b hk⟩

end Spends

end Async
