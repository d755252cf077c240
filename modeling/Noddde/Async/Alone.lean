import Noddde.Async.Protocol
/-!
# Programs that run alone

The total counterpart of a weakest precondition, for a program between whose
segments nothing else runs.
-/

namespace Async

variable {σ χ ε α β : Type}

/-- From `s`, with no other thread running, the program is never blocked and ends
with an outcome and a state in `Q`, whatever the environment chooses. -/
def Alone (Q : Except ε α → σ → Prop) : Async σ χ ε α → σ → Prop
  | .pure a, s => Q (.ok a) s
  | .throw e, s => Q (.error e) s
  | .step act k, s => ∀ c, ∃ b t, act c s = some (b, t) ∧ Alone Q (k b) t

/-- What holds of the outcome of a bind, by what holds of its first part. -/
def Then (Q : Except ε β → σ → Prop) (f : α → Async σ χ ε β) : Except ε α → σ → Prop
  | .ok a => (f a).Alone Q
  | .error e => Q (.error e)

namespace Alone

variable {Q Q' : Except ε α → σ → Prop} {s : σ} {p : Async σ χ ε α}

@[simp] theorem alone_pure {a : α} :
    (Async.pure a : Async σ χ ε α).Alone Q s ↔ Q (.ok a) s := Iff.rfl

@[simp] theorem alone_throw {e : ε} :
    (Async.throw e : Async σ χ ε α).Alone Q s ↔ Q (.error e) s := Iff.rfl

@[simp] theorem alone_ofExcept {r : Except ε α} :
    (ofExcept r : Async σ χ ε α).Alone Q s ↔ Q r s := by
  cases r <;> rfl

@[simp] theorem alone_call {f : χ → Segment σ ε α} :
    (call f).Alone Q s ↔ ∀ c, (f c).wp Q s := by
  simp only [call, await, Alone, Option.some.injEq, Segment.wp]
  constructor
  · intro h c
    obtain ⟨r, t, hrt, hr⟩ := h c
    rw [hrt]
    exact alone_ofExcept.mp hr
  · intro h c
    exact ⟨_, _, rfl, alone_ofExcept.mpr (h c)⟩

theorem mono {p : Async σ χ ε α} (h : p.Alone Q s) (hQ : ∀ r t, Q r t → Q' r t) :
    p.Alone Q' s := by
  induction p generalizing s with
  | pure a => exact hQ _ _ h
  | throw e => exact hQ _ _ h
  | step act k ih =>
      intro c
      obtain ⟨b, t, hact, hk⟩ := h c
      exact ⟨b, t, hact, ih b hk⟩

theorem and (h : p.Alone Q s) (h' : p.Alone Q' s) :
    p.Alone (fun r t => Q r t ∧ Q' r t) s := by
  induction p generalizing s with
  | pure a => exact ⟨h, h'⟩
  | throw e => exact ⟨h, h'⟩
  | step act k ih =>
      intro c
      obtain ⟨b, t, hact, hk⟩ := h c
      obtain ⟨b', t', hact', hk'⟩ := h' c
      obtain ⟨rfl, rfl⟩ := Prod.mk.inj (Option.some.inj (hact.symm.trans hact'))
      exact ⟨b, t, hact, ih b hk hk'⟩

/-- The program does end. -/
theorem exists_outcome [Nonempty χ] (h : p.Alone Q s) : ∃ r t, Q r t := by
  induction p generalizing s with
  | pure a => exact ⟨_, s, h⟩
  | throw e => exact ⟨_, s, h⟩
  | step act k ih =>
      obtain ⟨b, t, -, hk⟩ := h (Classical.choice ‹Nonempty χ›)
      exact ih b hk

theorem bind {Q : Except ε β → σ → Prop} {p : Async σ χ ε α} {f : α → Async σ χ ε β}
    (h : p.Alone (Then Q f) s) : (p.bind f).Alone Q s := by
  induction p generalizing s with
  | pure a => exact h
  | throw e => exact h
  | step act k ih =>
      intro c
      obtain ⟨b, t, hact, hk⟩ := h c
      exact ⟨b, t, hact, ih b hk⟩

/-- What every segment does, the whole run does. -/
theorem every {φ : σ → σ → Prop} {p : Async σ χ ε α} (h : p.Alone Q s) (hp : p.Every φ)
    (hrefl : ∀ s, φ s s) (htrans : ∀ s t u, φ s t → φ t u → φ s u) :
    p.Alone (fun _ t => φ s t) s := by
  induction p generalizing s with
  | pure a => exact hrefl s
  | throw e => exact hrefl s
  | step act k ih =>
      intro c
      obtain ⟨b, t, hact, hk⟩ := h c
      obtain ⟨hstep, hevery⟩ := hp c s b t hact
      exact ⟨b, t, hact, (ih b hk hevery).mono fun _ u hu => htrans s t u hstep hu⟩

theorem attempt {Q : Except ε (Except ε α) → σ → Prop} {p : Async σ χ ε α}
    (h : p.Alone (fun r => Q (.ok r)) s) : p.attempt.Alone Q s := by
  induction p generalizing s with
  | pure a => exact h
  | throw e => exact h
  | step act k ih =>
      intro c
      obtain ⟨b, t, hact, hk⟩ := h c
      exact ⟨b, t, hact, ih b hk⟩

theorem tryCatch {p : Async σ χ ε α} {handler : ε → Async σ χ ε α}
    (h : p.Alone (fun r t => match r with
      | .ok a => Q (.ok a) t
      | .error e => (handler e).Alone Q t) s) :
    (p.tryCatch handler).Alone Q s := by
  refine bind (attempt (h.mono ?_))
  rintro (e | a) t ht
  · exact ht
  · exact ht

/-- The program and then `f`, which does not throw. -/
theorem tryFinally {p : Async σ χ ε α} {f : Async σ χ ε Unit}
    (h : p.Alone (fun r => f.Alone fun r' t => r' = .ok () ∧ Q r t) s) :
    (p.tryFinally f).Alone Q s := by
  refine bind (attempt (h.mono fun r t ht => bind (ht.mono ?_)))
  rintro _ u ⟨rfl, hu⟩
  exact alone_ofExcept.mpr hu

/-- A loop whose body does not throw; `I` says what holds once the body has run for
the first elements. -/
theorem forEach {xs : List β} {f : β → Async σ χ ε Unit} {I : List β → σ → Prop}
    (hI : I [] s)
    (hbody : ∀ done x rest t, done ++ x :: rest = xs → I done t →
      (f x).Alone (fun r u => r = .ok () ∧ I (done ++ [x]) u) t) :
    (forEach f xs).Alone (fun r t => r = .ok () ∧ I xs t) s := by
  suffices hloop : ∀ rest done s, done ++ rest = xs → I done s →
      (Async.forEach f rest).Alone (fun r t => r = .ok () ∧ I xs t) s from
    hloop xs [] s rfl hI
  intro rest
  induction rest with
  | nil =>
      intro done s hdone hs
      rw [List.append_nil] at hdone
      exact ⟨rfl, hdone ▸ hs⟩
  | cons x rest ih =>
      intro done s hdone hs
      apply bind
      refine (hbody done x rest s hdone hs).mono ?_
      rintro _ t ⟨rfl, ht⟩
      apply ih (done ++ [x]) t _ ht
      rw [List.append_assoc]
      exact hdone

end Alone

end Async
