import Noddde.Async.Protocol
import Mathlib.Data.List.Forall2
/-!
# Programs in lockstep

The relational counterpart of `Alone`: two programs run side by side, each on a state of
its own and with nothing else between their segments, and the environment makes the same
choices for both.  The rules follow the programs; where the two differ, the relations on
the results carry what is known of the difference.  What is said of the two holds as long
as the states after every segment are in `G`, and then these are in `H`.
-/

variable {σ σ' χ ε α α' β β' : Type}

/-! ## Segments -/

/-- Two outcomes: both a result, with states in `R`, or both the same error, with states in
`E`. -/
def Outcomes (R : α → α' → σ → σ' → Prop) (E : ε → σ → σ' → Prop) :
    Except ε α → Except ε α' → σ → σ' → Prop
  | .ok a, .ok a', s, s' => R a a' s s'
  | .error e, .error e', s, s' => e = e' ∧ E e s s'
  | _, _, _, _ => False

/-- Neither of the two has ended, or both have, with such outcomes. -/
abbrev BothEnd (R : α → α' → σ → σ' → Prop) (E : ε → σ → σ' → Prop) :
    Option (Except ε α × σ) → Option (Except ε α' × σ') → Prop :=
  Option.Rel fun r r' => Outcomes R E r.1 r'.1 r.2 r'.2

/-- The two segments end with such outcomes. -/
def Segment.Both (R : α → α' → σ → σ' → Prop) (E : ε → σ → σ' → Prop) (m : Segment σ ε α)
    (m' : Segment σ' ε α') (s : σ) (s' : σ') : Prop :=
  Outcomes R E (m s).1 (m' s').1 (m s).2 (m' s').2

namespace Segment

variable {R : α → α' → σ → σ' → Prop} {E : ε → σ → σ' → Prop} {s : σ} {s' : σ'}

theorem both_of_eq {m : Segment σ ε α} {m' : Segment σ' ε α'} {r : Except ε α} {r' : Except ε α'}
    {t : σ} {t' : σ'} (hm : m s = (r, t)) (hm' : m' s' = (r', t')) (h : Outcomes R E r r' t t') :
    Both R E m m' s s' := by
  unfold Both
  rwa [hm, hm']

@[simp] theorem both_pure {a : α} {a' : α'} :
    Both R E (pure a : Segment σ ε α) (pure a' : Segment σ' ε α') s s' ↔ R a a' s s' := Iff.rfl

@[simp] theorem both_raise {e : ε} :
    Both R E (raise e : Segment σ ε α) (raise e : Segment σ' ε α') s s' ↔ E e s s' :=
  ⟨And.right, fun h => ⟨rfl, h⟩⟩

@[simp] theorem both_read {f : σ → α} {f' : σ' → α'} :
    Both R E (read f) (read f') s s' ↔ R (f s) (f' s') s s' := Iff.rfl

@[simp] theorem both_modify {f : σ → σ} {f' : σ' → σ'}
    {R : Unit → Unit → σ → σ' → Prop} :
    Both R E (modify f) (modify f') s s' ↔ R () () (f s) (f' s') := Iff.rfl

theorem Both.mono {Q : α → α' → σ → σ' → Prop} {m : Segment σ ε α} {m' : Segment σ' ε α'}
    (h : Both Q E m m' s s') (hR : ∀ a a' t t', Q a a' t t' → R a a' t t') :
    Both R E m m' s s' := by
  unfold Both at h ⊢
  cases hm : (m s).1 <;> cases hm' : (m' s').1 <;> rw [hm, hm'] at h
  · exact h
  · exact h
  · exact h
  · exact hR _ _ _ _ h

theorem Both.imp_error {F : ε → σ → σ' → Prop} {m : Segment σ ε α} {m' : Segment σ' ε α'}
    (h : Both R F m m' s s') (hE : ∀ e t t', F e t t' → E e t t') : Both R E m m' s s' := by
  unfold Both at h ⊢
  cases hm : (m s).1 <;> cases hm' : (m' s').1 <;> rw [hm, hm'] at h
  · exact ⟨h.1, hE _ _ _ h.2⟩
  · exact h
  · exact h
  · exact h

theorem Both.bind {R : β → β' → σ → σ' → Prop} {Q : α → α' → σ → σ' → Prop}
    {m : Segment σ ε α} {m' : Segment σ' ε α'} {f : α → Segment σ ε β}
    {f' : α' → Segment σ' ε β'} (h : Both Q E m m' s s')
    (hf : ∀ a a' t t', Q a a' t t' → Both R E (f a) (f' a') t t') :
    Both R E (m >>= f) (m' >>= f') s s' := by
  unfold Both at h ⊢
  simp only [Bind.bind]
  rcases hm : m s with ⟨e | a, t⟩ <;> rcases hm' : m' s' with ⟨e' | a', t'⟩ <;>
    rw [hm, hm'] at h
  · exact h
  · exact h.elim
  · exact h.elim
  · exact hf _ _ _ _ h

/-- Both sides read one and the same result. -/
theorem Both.ofExcept {R : α → α → σ → σ' → Prop} {r : Except ε α}
    (hok : ∀ a, r = .ok a → R a a s s') (herror : ∀ e, r = .error e → E e s s') :
    Both R E (ofExcept r : Segment σ ε α) (ofExcept r : Segment σ' ε α) s s' := by
  cases r with
  | ok a => exact hok a rfl
  | error e => exact ⟨rfl, herror e rfl⟩

end Segment

/-! ## Programs -/

namespace Async

/-- The two programs are ready together, and end together: with results and states in `R`,
or with the same error and states in `E`. -/
def Lockstep (G H : σ → σ' → Prop) (R : α → α' → σ → σ' → Prop) (E : ε → σ → σ' → Prop) :
    Async σ χ ε α → Async σ' χ ε α' → σ → σ' → Prop
  | .pure a, .pure a', s, s' => R a a' s s'
  | .throw e, .throw e', s, s' => e = e' ∧ E e s s'
  | .step act k, .step act' k', s, s' => ∀ c, (act c s).isSome = (act' c s').isSome ∧
      ∀ b t b' t', act c s = some (b, t) → act' c s' = some (b', t') → G t t' →
        H t t' ∧ Lockstep G H R E (k b) (k' b') t t'
  | _, _, _, _ => False

/-- The program, run alone with the given choices; `none` if it is blocked or does not end
within them. -/
def alone : List χ → Async σ χ ε α → σ → Option (Except ε α × σ)
  | _, .pure a, s => some (.ok a, s)
  | _, .throw e, s => some (.error e, s)
  | [], .step _ _, _ => none
  | c :: rest, .step act k, s =>
      match act c s with
      | none => none
      | some (b, t) => alone rest (k b) t

/-- The states after the segments that the program runs, alone with the given choices. -/
def trace : List χ → Async σ χ ε α → σ → List σ
  | c :: rest, .step act k, s =>
      match act c s with
      | none => []
      | some (b, t) => t :: trace rest (k b) t
  | _, _, _ => []

namespace Lockstep

variable {G H : σ → σ' → Prop} {R : α → α' → σ → σ' → Prop} {E F : ε → σ → σ' → Prop} {s : σ}
  {s' : σ'} {p : Async σ χ ε α} {p' : Async σ' χ ε α'}

theorem mono {Q : α → α' → σ → σ' → Prop} (h : Lockstep G H Q F p p' s s')
    (hR : ∀ a a' t t', Q a a' t t' → R a a' t t') (hE : ∀ e t t', F e t t' → E e t t') :
    Lockstep G H R E p p' s s' := by
  induction p generalizing p' s s' with
  | pure a =>
      cases p' with
      | pure a' => exact hR _ _ _ _ h
      | _ => exact h.elim
  | throw e =>
      cases p' with
      | throw e' => exact ⟨h.1, hE _ _ _ h.2⟩
      | _ => exact h.elim
  | step act k ih =>
      cases p' with
      | step act' k' =>
          intro c
          refine ⟨(h c).1, fun b t b' t' hb hb' hG => ?_⟩
          obtain ⟨hH, hrest⟩ := (h c).2 b t b' t' hb hb' hG
          exact ⟨hH, ih b hrest⟩
      | _ => exact h.elim

/-- Runs of the two programs pass through states in `H` and end alike, if they pass through
states in `G`. -/
theorem run (h : Lockstep G H R E p p' s s') (cs : List χ)
    (hG : ∀ pair ∈ (p.trace cs s).zip (p'.trace cs s'), G pair.1 pair.2) :
    List.Forall₂ H (p.trace cs s) (p'.trace cs s') ∧ BothEnd R E (p.alone cs s) (p'.alone cs s') := by
  induction p generalizing p' s s' cs with
  | pure a =>
      cases p' with
      | pure a' => cases cs <;> exact ⟨.nil, .some h⟩
      | _ => exact h.elim
  | throw e =>
      cases p' with
      | throw e' => cases cs <;> exact ⟨.nil, .some h⟩
      | _ => exact h.elim
  | step act k ih =>
      cases p' with
      | step act' k' =>
          cases cs with
          | nil => exact ⟨.nil, .none⟩
          | cons c rest =>
              obtain ⟨hready, hstep⟩ := h c
              simp only [trace] at hG ⊢
              simp only [Async.alone]
              cases hact : act c s with
              | none =>
                  rw [hact] at hready
                  rw [Option.isNone_iff_eq_none.mp (Option.isSome_eq_false_iff.mp hready.symm)]
                  exact ⟨.nil, .none⟩
              | some result =>
                  obtain ⟨b, t⟩ := result
                  rw [hact] at hready
                  obtain ⟨⟨b', t'⟩, hact'⟩ := Option.isSome_iff_exists.mp hready.symm
                  simp only [hact, hact', List.zip_cons_cons, List.forall_mem_cons] at hG ⊢
                  obtain ⟨hH, hrest⟩ := hstep b t b' t' hact hact' hG.1
                  obtain ⟨htrace, hend⟩ := ih b hrest rest hG.2
                  exact ⟨.cons hH htrace, hend⟩
      | _ => exact h.elim

theorem bind {R : β → β' → σ → σ' → Prop} {Q : α → α' → σ → σ' → Prop}
    {f : α → Async σ χ ε β} {f' : α' → Async σ' χ ε β'} (h : Lockstep G H Q E p p' s s')
    (hf : ∀ a a' t t', Q a a' t t' → Lockstep G H R E (f a) (f' a') t t') :
    Lockstep G H R E (p.bind f) (p'.bind f') s s' := by
  induction p generalizing p' s s' with
  | pure a =>
      cases p' with
      | pure a' => exact hf _ _ _ _ h
      | _ => exact h.elim
  | throw e =>
      cases p' with
      | throw e' => exact h
      | _ => exact h.elim
  | step act k ih =>
      cases p' with
      | step act' k' =>
          intro c
          refine ⟨(h c).1, fun b t b' t' hb hb' hG => ?_⟩
          obtain ⟨hH, hrest⟩ := (h c).2 b t b' t' hb hb' hG
          exact ⟨hH, ih b hrest⟩
      | _ => exact h.elim

theorem attempt (h : Lockstep G H R F p p' s s') :
    Lockstep G H (Outcomes R F) E p.attempt p'.attempt s s' := by
  induction p generalizing p' s s' with
  | pure a =>
      cases p' with
      | pure a' => exact h
      | _ => exact h.elim
  | throw e =>
      cases p' with
      | throw e' => exact h
      | _ => exact h.elim
  | step act k ih =>
      cases p' with
      | step act' k' =>
          intro c
          refine ⟨(h c).1, fun b t b' t' hb hb' hG => ?_⟩
          obtain ⟨hH, hrest⟩ := (h c).2 b t b' t' hb hb' hG
          exact ⟨hH, ih b hrest⟩
      | _ => exact h.elim

theorem tryCatch {handler : ε → Async σ χ ε α} {handler' : ε → Async σ' χ ε α'}
    (h : Lockstep G H R F p p' s s')
    (hhandler : ∀ e t t', F e t t' → Lockstep G H R E (handler e) (handler' e) t t') :
    Lockstep G H R E (p.tryCatch handler) (p'.tryCatch handler') s s' := by
  refine bind (attempt h) ?_
  rintro (e | a) (e' | a') t t' houtcome
  · obtain ⟨rfl, hF⟩ := houtcome
    exact hhandler e t t' hF
  · exact houtcome.elim
  · exact houtcome.elim
  · exact houtcome

theorem tryFinally {f : Async σ χ ε Unit} {f' : Async σ' χ ε Unit}
    (h : Lockstep G H R E p p' s s')
    (hok : ∀ a a' t t', R a a' t t' → Lockstep G H (fun _ _ => R a a') E f f' t t')
    (herror : ∀ e t t', E e t t' → Lockstep G H (fun _ _ => E e) E f f' t t') :
    Lockstep G H R E (p.tryFinally f) (p'.tryFinally f') s s' := by
  refine bind (attempt h) ?_
  rintro (e | a) (e' | a') t t' houtcome
  · obtain ⟨rfl, hE⟩ := houtcome
    exact bind (herror e t t' hE) fun _ _ u u' hu => ⟨rfl, hu⟩
  · exact houtcome.elim
  · exact houtcome.elim
  · exact bind (hok a a' t t' houtcome) fun _ _ u u' hu => hu

theorem ofExcept {r : Except ε α} {r' : Except ε α'} (h : Outcomes R E r r' s s') :
    Lockstep G H R E (Async.ofExcept r : Async σ χ ε α) (Async.ofExcept r' : Async σ' χ ε α') s s' := by
  rcases r with e | a <;> rcases r' with e' | a' <;> exact h

/-- The outcomes put the states into `H`. -/
theorem states_of_outcomes (hR : ∀ a a' t t', R a a' t t' → H t t')
    (hE : ∀ e t t', E e t t' → H t t') {r : Except ε α} {r' : Except ε α'} {t : σ} {t' : σ'}
    (h : Outcomes R E r r' t t') : H t t' := by
  rcases r with e | a <;> rcases r' with e' | a'
  · exact hE _ _ _ h.2
  · exact h.elim
  · exact h.elim
  · exact hR _ _ _ _ h

theorem call {f : χ → Segment σ ε α} {f' : χ → Segment σ' ε α'}
    (hR : ∀ a a' t t', R a a' t t' → H t t') (hE : ∀ e t t', E e t t' → H t t')
    (h : ∀ c, G (f c s).2 (f' c s').2 → Segment.Both R E (f c) (f' c) s s') :
    Lockstep G H R E (Async.call f) (Async.call f') s s' := by
  intro c
  refine ⟨rfl, fun r t r' t' hr hr' hG => ?_⟩
  have hr := Option.some.inj hr
  have hr' := Option.some.inj hr'
  have houtcomes : Outcomes R E r r' t t' := by
    have hboth := h c (by rw [hr, hr']; exact hG)
    unfold Segment.Both at hboth
    rwa [hr, hr'] at hboth
  exact ⟨states_of_outcomes hR hE houtcomes, ofExcept houtcomes⟩

theorem await {act : χ → σ → Option (Except ε α × σ)} {act' : χ → σ' → Option (Except ε α' × σ')}
    (hR : ∀ a a' t t', R a a' t t' → H t t') (hE : ∀ e t t', E e t t' → H t t')
    (h : ∀ c, BothEnd R E (act c s) (act' c s')) :
    Lockstep G H R E (Async.await act) (Async.await act') s s' := by
  intro c
  have hc := h c
  generalize act c s = result at hc
  generalize act' c s' = result' at hc
  cases hc with
  | none => exact ⟨rfl, nofun⟩
  | some houtcomes =>
      refine ⟨rfl, fun r t r' t' hr hr' _ => ?_⟩
      obtain rfl := Option.some.inj hr
      obtain rfl := Option.some.inj hr'
      exact ⟨states_of_outcomes hR hE houtcomes, ofExcept houtcomes⟩

/-- Two loops over lists that match element by element. -/
theorem forEach {f : β → Async σ χ ε Unit} {f' : β' → Async σ' χ ε Unit} {M : β → β' → Prop}
    {I : σ → σ' → Prop} {xs : List β} {xs' : List β'} (hxs : List.Forall₂ M xs xs') (hI : I s s')
    (hbody : ∀ x x' t t', M x x' → I t t' → Lockstep G H (fun _ _ => I) E (f x) (f' x') t t') :
    Lockstep G H (fun _ _ => I) E (Async.forEach f xs) (Async.forEach f' xs') s s' := by
  induction hxs generalizing s s' with
  | nil => exact hI
  | cons hx _ ih =>
      exact bind (hbody _ _ _ _ hx hI) fun _ _ t t' ht => ih ht

end Lockstep

end Async
