import Mathlib.Order.Defs.Unbundled
import Noddde.Async.Program
/-!
# Rely-guarantee protocols for asynchronous programs

A `Protocol` fixes an invariant of the shared state and, for each thread, what
it may rely on while it is suspended and what it guarantees of its own
segments.  `Safe` is the weakest precondition of one thread under a protocol;
`Protocol.run` composes the threads: in every state that a pool of safe threads
reaches, the invariant holds and every thread is still safe.

What is known of every step from elsewhere, a condition on the runs or an
invariant of another protocol, is the protocol's `fact`.
-/

structure Protocol (ι σ : Type) where
  fact : σ → σ → Prop
  inv : σ → Prop
  rely : ι → σ → σ → Prop
  guar : ι → σ → σ → Prop
  rely_refl : ∀ i s, rely i s s
  rely_trans : ∀ i {s t u}, rely i s t → rely i t u → rely i s u
  guar_rely : ∀ {i j s t}, i ≠ j → guar i s t → rely j s t

/-- The step of thread `i` from `t` to `u` keeps the protocol, and `R` holds as
long as the other threads keep it. -/
def Protocol.Allows {ι σ : Type} (P : Protocol ι σ) (i : ι) (R : σ → Prop) (t u : σ) :
    Prop :=
  P.fact t u → P.inv u ∧ P.guar i t u ∧ ∀ v, P.inv v → P.rely i u v → R v

theorem Protocol.Allows.mono {ι σ : Type} {P : Protocol ι σ} {i : ι} {R R' : σ → Prop}
    {t u : σ} (h : P.Allows i R t u) (hR : ∀ v, P.inv v → R v → R' v) :
    P.Allows i R' t u := by
  intro hfact
  obtain ⟨hu, hg, hv⟩ := h hfact
  exact ⟨hu, hg, fun v hv' huv => hR v hv' (hv v hv' huv)⟩

namespace Async

variable {ι σ χ ε α β : Type}

/-- The postcondition that an outcome has to meet. -/
def Outcome (Q : α → σ → Prop) (E : ε → σ → Prop) : Except ε α → σ → Prop
  | .ok a => Q a
  | .error e => E e

/-- From `s`, whatever the other threads do between the segments of the program,
every segment keeps the invariant and the guarantee, and the program ends in `Q`
(with its value) or in `E` (with its error). -/
def Safe (P : Protocol ι σ) (i : ι) (Q : α → σ → Prop) (E : ε → σ → Prop) :
    Async σ χ ε α → σ → Prop
  | .pure a, s => ∀ t, P.inv t → P.rely i s t → Q a t
  | .throw e, s => ∀ t, P.inv t → P.rely i s t → E e t
  | .step act k, s => ∀ t, P.inv t → P.rely i s t →
      ∀ c b u, act c t = some (b, u) → P.fact t u →
        P.inv u ∧ P.guar i t u ∧ Safe P i Q E (k b) u

namespace Safe

variable {P : Protocol ι σ} {i : ι} {Q Q' : α → σ → Prop} {E E' : ε → σ → Prop}
  {s t : σ}

theorem rely {p : Async σ χ ε α} (h : Safe P i Q E p s) (hst : P.rely i s t) :
    Safe P i Q E p t := by
  cases p with
  | pure a => exact fun u hu htu => h u hu (P.rely_trans i hst htu)
  | throw e => exact fun u hu htu => h u hu (P.rely_trans i hst htu)
  | step act k => exact fun u hu htu => h u hu (P.rely_trans i hst htu)

/-- A postcondition may be used at every state the thread can still see. -/
theorem mono_stable {p : Async σ χ ε α} (h : Safe P i Q E p s)
    (hQ : ∀ a t, P.inv t → (∀ u, P.inv u → P.rely i t u → Q a u) → Q' a t)
    (hE : ∀ e t, P.inv t → (∀ u, P.inv u → P.rely i t u → E e u) → E' e t) :
    Safe P i Q' E' p s := by
  induction p generalizing s with
  | pure a =>
      exact fun t ht hst => hQ a t ht fun u hu htu => h u hu (P.rely_trans i hst htu)
  | throw e =>
      exact fun t ht hst => hE e t ht fun u hu htu => h u hu (P.rely_trans i hst htu)
  | step act k ih =>
      intro t ht hst c b u hact hfact
      obtain ⟨hu, hg, hk⟩ := h t ht hst c b u hact hfact
      exact ⟨hu, hg, ih b hk⟩

theorem mono {p : Async σ χ ε α} (h : Safe P i Q E p s)
    (hQ : ∀ a t, P.inv t → Q a t → Q' a t) (hE : ∀ e t, P.inv t → E e t → E' e t) :
    Safe P i Q' E' p s :=
  h.mono_stable
    (fun a t ht ha => hQ a t ht (ha t ht (P.rely_refl i t)))
    (fun e t ht he => hE e t ht (he t ht (P.rely_refl i t)))

theorem pure {a : α} (h : ∀ t, P.inv t → P.rely i s t → Q a t) :
    Safe P i Q E (.pure a : Async σ χ ε α) s := h

theorem throw {e : ε} (h : ∀ t, P.inv t → P.rely i s t → E e t) :
    Safe P i Q E (.throw e : Async σ χ ε α) s := h

theorem bind {Q : β → σ → Prop} {p : Async σ χ ε α} {f : α → Async σ χ ε β}
    (hs : P.inv s)
    (h : Safe P i (fun a t => Safe P i Q E (f a) t) E p s) :
    Safe P i Q E (p.bind f) s := by
  induction p generalizing s with
  | pure a => exact h s hs (P.rely_refl i s)
  | throw e => exact h
  | step act k ih =>
      intro t ht hst c b u hact hfact
      obtain ⟨hu, hg, hk⟩ := h t ht hst c b u hact hfact
      exact ⟨hu, hg, ih b hu hk⟩

/-- The outcome of `p.attempt` is the outcome of `p`, made a value. -/
theorem attempt {Q : Except ε α → σ → Prop} {p : Async σ χ ε α}
    (h : Safe P i (fun a => Q (.ok a)) (fun e => Q (.error e)) p s) :
    Safe P i Q E p.attempt s := by
  induction p generalizing s with
  | pure a => exact h
  | throw e => exact h
  | step act k ih =>
      intro t ht hst c b u hact hfact
      obtain ⟨hu, hg, hk⟩ := h t ht hst c b u hact hfact
      exact ⟨hu, hg, ih b hk⟩

theorem tryCatch {p : Async σ χ ε α} {h : ε → Async σ χ ε α} (hs : P.inv s)
    (hp : Safe P i Q (fun e t => Safe P i Q E (h e) t) p s) :
    Safe P i Q E (p.tryCatch h) s := by
  induction p generalizing s with
  | pure a => exact hp
  | throw e => exact hp s hs (P.rely_refl i s)
  | step act k ih =>
      intro t ht hst c b u hact hfact
      obtain ⟨hu, hg, hk⟩ := hp t ht hst c b u hact hfact
      exact ⟨hu, hg, ih b hu hk⟩

theorem tryFinally {p : Async σ χ ε α} {f : Async σ χ ε Unit} (hs : P.inv s)
    (hp : Safe P i (fun a t => Safe P i (fun _ => Q a) E f t)
      (fun e t => Safe P i (fun _ => E e) E f t) p s) :
    Safe P i Q E (p.tryFinally f) s := by
  induction p generalizing s with
  | pure a =>
      have hf := hp s hs (P.rely_refl i s)
      change Safe P i Q E (f.bind fun _ => .pure a) s
      exact bind hs (hf.mono_stable (fun _ _ _ ha => ha) (fun _ _ _ he => he _ ‹_› (P.rely_refl i _)))
  | throw e =>
      have hf := hp s hs (P.rely_refl i s)
      change Safe P i Q E (f.bind fun _ => .throw e) s
      exact bind hs (hf.mono_stable (fun _ _ _ he => he) (fun _ _ _ he => he _ ‹_› (P.rely_refl i _)))
  | step act k ih =>
      intro t ht hst c b u hact hfact
      obtain ⟨hu, hg, hk⟩ := hp t ht hst c b u hact hfact
      exact ⟨hu, hg, ih b hu hk⟩

theorem ofExcept {r : Except ε α}
    (h : ∀ t, P.inv t → P.rely i s t → Outcome Q E r t) :
    Safe P i Q E (ofExcept r : Async σ χ ε α) s := by
  cases r with
  | ok a => exact h
  | error e => exact h

theorem await {act : χ → σ → Option (Except ε α × σ)}
    (h : ∀ t, P.inv t → P.rely i s t → ∀ c r u, act c t = some (r, u) →
      P.Allows i (Outcome Q E r) t u) :
    Safe P i Q E (await act) s := by
  intro t ht hst c r u hact hfact
  obtain ⟨hu, hg, hr⟩ := h t ht hst c r u hact hfact
  exact ⟨hu, hg, ofExcept hr⟩

theorem call {f : χ → Segment σ ε α}
    (h : ∀ t, P.inv t → P.rely i s t → ∀ c,
      (f c).wp (fun r u => P.Allows i (Outcome Q E r) t u) t) :
    Safe P i Q E (call f) s := by
  refine await fun t ht hst c r u hact => ?_
  obtain hru : f c t = (r, u) := by simpa using hact
  have hcall := h t ht hst c
  rwa [Segment.wp, hru] at hcall

/-- A loop whose body keeps `I` ends in `I`. -/
theorem forEach {xs : List β} {f : β → Async σ χ ε Unit} {I : List β → σ → Prop}
    (hs : P.inv s) (hI : I xs s)
    (hbody : ∀ x rest t, P.inv t → I (x :: rest) t →
      Safe P i (fun _ => I rest) E (f x) t)
    (hstable : ∀ rest t u, P.inv u → P.rely i t u → I rest t → I rest u) :
    Safe P i (fun _ => I []) E (forEach f xs) s := by
  induction xs generalizing s with
  | nil => exact pure fun t ht hst => hstable [] s t ht hst hI
  | cons x rest ih =>
      refine bind hs ((hbody x rest s hs hI).mono ?_ (fun _ _ _ he => he))
      exact fun _ t ht hI' => ih ht hI'

/-- A loop over numbered entries whose body leads from `I k` to `I (k + 1)`. -/
theorem forEach_zipIdx {xs : List β} {f : β × Nat → Async σ χ ε Unit} {I : Nat → σ → Prop}
    {k : Nat} (hs : P.inv s) (hI : I k s)
    (hbody : ∀ x k t, P.inv t → I k t → Safe P i (fun _ => I (k + 1)) E (f (x, k)) t) :
    Safe P i (fun _ _ => True) E (Async.forEach f (xs.zipIdx k)) s := by
  induction xs generalizing k s with
  | nil => exact pure fun _ _ _ => trivial
  | cons x rest ih =>
      rw [List.zipIdx_cons]
      exact bind hs ((hbody x k s hs hI).mono (fun _ t ht h => ih ht h) fun _ _ _ h => h)

end Safe

end Async

/-! ## Programs whose segments need no local knowledge -/

namespace Segment

variable {σ ε α β : Type}

/-- The segment relates the state before and after it by `φ`. -/
def Every (φ : σ → σ → Prop) (m : Segment σ ε α) : Prop := ∀ s, φ s (m s).2

namespace Every

variable {φ : σ → σ → Prop}

theorem pure [Std.Refl φ] (a : α) : (Pure.pure a : Segment σ ε α).Every φ :=
  fun s => Std.Refl.refl s

theorem raise [Std.Refl φ] (e : ε) : (raise e : Segment σ ε α).Every φ :=
  fun s => Std.Refl.refl s

theorem read [Std.Refl φ] (f : σ → α) : (read f : Segment σ ε α).Every φ :=
  fun s => Std.Refl.refl s

theorem modify {f : σ → σ} (h : ∀ s, φ s (f s)) : (modify f : Segment σ ε Unit).Every φ := h

theorem ofExcept [Std.Refl φ] (r : Except ε α) : (ofExcept r : Segment σ ε α).Every φ := by
  cases r with
  | ok a => exact pure a
  | error e => exact raise e

/-- What follows may use what is known of the value. -/
theorem bind_of [IsTrans σ φ] {m : Segment σ ε β} {f : β → Segment σ ε α} {P : β → Prop}
    (hm : m.Every φ) (hP : ∀ s b t, m s = (.ok b, t) → P b) (hf : ∀ b, P b → (f b).Every φ) :
    (m >>= f).Every φ := by
  intro s
  have hs := hm s
  simp only [Bind.bind]
  rcases hresult : m s with ⟨e | b, t⟩
  · rw [hresult] at hs
    exact hs
  · rw [hresult] at hs
    exact IsTrans.trans _ _ _ hs (hf b (hP s b t hresult) t)

theorem bind [IsTrans σ φ] {m : Segment σ ε β} {f : β → Segment σ ε α} (hm : m.Every φ)
    (hf : ∀ b, (f b).Every φ) : (m >>= f).Every φ :=
  hm.bind_of (fun _ _ _ _ => trivial) fun b (_ : True) => hf b

end Every

end Segment

namespace Async

variable {ι σ χ ε α β : Type}

/-- Every segment of the program relates the state before and after it by `φ`. -/
def Every (φ : σ → σ → Prop) : Async σ χ ε α → Prop
  | .step act k => ∀ c s b t, act c s = some (b, t) → φ s t ∧ Every φ (k b)
  | _ => True

namespace Every

variable {φ ψ : σ → σ → Prop}

theorem mono {p : Async σ χ ε α} (h : p.Every φ) (hφ : ∀ s t, φ s t → ψ s t) :
    p.Every ψ := by
  induction p with
  | pure a => trivial
  | throw e => trivial
  | step act k ih =>
      intro c s b t hact
      exact ⟨hφ s t (h c s b t hact).1, ih b (h c s b t hact).2⟩

theorem bind {p : Async σ χ ε α} {f : α → Async σ χ ε β} (hp : p.Every φ)
    (hf : ∀ a, (f a).Every φ) : (p.bind f).Every φ := by
  induction p with
  | pure a => exact hf a
  | throw e => trivial
  | step act k ih =>
      intro c s b t hact
      exact ⟨(hp c s b t hact).1, ih b (hp c s b t hact).2⟩

theorem attempt {p : Async σ χ ε α} (hp : p.Every φ) : p.attempt.Every φ := by
  induction p with
  | pure a => trivial
  | throw e => trivial
  | step act k ih =>
      intro c s b t hact
      exact ⟨(hp c s b t hact).1, ih b (hp c s b t hact).2⟩

theorem ofExcept (r : Except ε α) : (ofExcept r : Async σ χ ε α).Every φ := by
  cases r <;> trivial

theorem tryCatch {p : Async σ χ ε α} {h : ε → Async σ χ ε α} (hp : p.Every φ)
    (hh : ∀ e, (h e).Every φ) : (p.tryCatch h).Every φ := by
  refine hp.attempt.bind fun r => ?_
  cases r with
  | ok a => trivial
  | error e => exact hh e

theorem tryFinally {p : Async σ χ ε α} {f : Async σ χ ε Unit} (hp : p.Every φ)
    (hf : f.Every φ) : (p.tryFinally f).Every φ :=
  hp.attempt.bind fun r => hf.bind fun _ => ofExcept r

theorem await {act : χ → σ → Option (Except ε α × σ)}
    (h : ∀ c s r t, act c s = some (r, t) → φ s t) : (await act).Every φ :=
  fun c s r t hact => ⟨h c s r t hact, ofExcept r⟩

theorem call {f : χ → Segment σ ε α} (h : ∀ c s, (f c).wp (fun _ t => φ s t) s) :
    (call f).Every φ := by
  refine await fun c s r t hact => ?_
  have hrt : f c s = (r, t) := by simpa using hact
  have hcall := h c s
  rwa [Segment.wp, hrt] at hcall

theorem segment {f : χ → Segment σ ε α} (h : ∀ c, (f c).Every φ) : (Async.call f).Every φ :=
  call fun c s => h c s

/-- What follows a segment may use what is known of its value. -/
theorem segment_bind {f : χ → Segment σ ε α} {k : α → Async σ χ ε β} {P : α → Prop}
    (h : ∀ c, (f c).Every φ) (hP : ∀ c s a t, f c s = (.ok a, t) → P a)
    (hk : ∀ a, P a → (k a).Every φ) : ((Async.call f).bind k).Every φ := by
  intro c s r t hact
  have hresult : f c s = (r, t) := Option.some.inj hact
  have hs := h c s
  rw [hresult] at hs
  refine ⟨hs, ?_⟩
  cases r with
  | error e => trivial
  | ok a => exact hk a (hP c s a t hresult)

theorem forEach {xs : List β} {f : β → Async σ χ ε Unit}
    (h : ∀ x ∈ xs, (f x).Every φ) :
    (forEach f xs).Every φ := by
  induction xs with
  | nil => trivial
  | cons x rest ih =>
      exact (h x (by simp)).bind fun _ => ih fun y hy => h y (by simp [hy])

/-- Segments that keep the invariant and the guarantee by themselves are safe. -/
theorem safe {P : Protocol ι σ} {i : ι} {p : Async σ χ ε α}
    (h : p.Every fun s t => P.fact s t → P.inv s → P.inv t ∧ P.guar i s t) (s : σ) :
    Safe P i (fun _ _ => True) (fun _ _ => True) p s := by
  induction p generalizing s with
  | pure a => exact fun _ _ _ => trivial
  | throw e => exact fun _ _ _ => trivial
  | step act k ih =>
      intro t ht _ c b u hact hfact
      obtain ⟨hstep, hk⟩ := h c t b u hact
      obtain ⟨hu, hg⟩ := hstep hfact ht
      exact ⟨hu, hg, ih b hk u⟩

end Every

end Async

def Protocol.steps {ι σ : Type} (φ : σ → σ → Prop) : Protocol ι σ where
  fact _ _ := True
  inv _ := True
  rely _ _ _ := True
  guar _ := φ
  rely_refl _ _ := trivial
  rely_trans _ _ _ _ _ _ := trivial
  guar_rely _ _ := trivial

/-! ## Programs that need no precondition -/

namespace Async

variable {ι σ χ ε α β : Type}

/-- The program is safe from every state of the invariant, whatever it returns. -/
def Ok (P : Protocol ι σ) (i : ι) (p : Async σ χ ε α) : Prop :=
  ∀ s, P.inv s → Safe P i (fun _ _ => True) (fun _ _ => True) p s

namespace Ok

variable {P : Protocol ι σ} {i : ι}

theorem safe {p : Async σ χ ε α} (h : Ok P i p) {s : σ} (hs : P.inv s) :
    Safe P i (fun _ _ => True) (fun _ _ => True) p s :=
  h s hs

theorem pure (a : α) : Ok P i (.pure a : Async σ χ ε α) :=
  fun _ _ => Safe.pure fun _ _ _ => trivial

theorem throw (e : ε) : Ok P i (.throw e : Async σ χ ε α) :=
  fun _ _ => Safe.throw fun _ _ _ => trivial

theorem ofExcept (r : Except ε α) : Ok P i (ofExcept r : Async σ χ ε α) := by
  cases r with
  | ok a => exact pure a
  | error e => exact throw e

theorem bind {p : Async σ χ ε α} {f : α → Async σ χ ε β} (hp : Ok P i p)
    (hf : ∀ a, Ok P i (f a)) : Ok P i (p.bind f) :=
  fun s hs => Safe.bind hs
    ((hp s hs).mono (fun a t ht _ => hf a t ht) (fun _ _ _ _ => trivial))

theorem attempt {p : Async σ χ ε α} (hp : Ok P i p) : Ok P i p.attempt :=
  fun s hs => Safe.attempt (hp s hs)

theorem tryCatch {p : Async σ χ ε α} {h : ε → Async σ χ ε α} (hp : Ok P i p)
    (hh : ∀ e, Ok P i (h e)) : Ok P i (p.tryCatch h) :=
  fun s hs => Safe.tryCatch hs
    ((hp s hs).mono (fun _ _ _ _ => trivial) (fun e t ht _ => hh e t ht))

theorem tryFinally {p : Async σ χ ε α} {f : Async σ χ ε Unit} (hp : Ok P i p)
    (hf : Ok P i f) : Ok P i (p.tryFinally f) :=
  fun s hs => Safe.tryFinally hs
    ((hp s hs).mono (fun _ t ht _ => hf t ht) (fun _ t ht _ => hf t ht))

theorem await {act : χ → σ → Option (Except ε α × σ)}
    (h : ∀ t, P.inv t → ∀ c r u, act c t = some (r, u) →
      P.Allows i (fun _ => True) t u) : Ok P i (await act) :=
  fun s _ => Safe.await fun t ht _ c r u hact =>
    (h t ht c r u hact).mono fun _ _ _ => by cases r <;> trivial

theorem call {f : χ → Segment σ ε α}
    (h : ∀ t, P.inv t → ∀ c,
      (f c).wp (fun _ u => P.Allows i (fun _ => True) t u) t) :
    Ok P i (call f) := by
  refine await fun t ht c r u hact => ?_
  have hcall := h t ht c
  obtain hru : f c t = (r, u) := by simpa using hact
  rwa [Segment.wp, hru] at hcall

theorem forEach {xs : List β} {f : β → Async σ χ ε Unit} (h : ∀ x ∈ xs, Ok P i (f x)) :
    Ok P i (forEach f xs) := by
  induction xs with
  | nil => exact pure ()
  | cons x rest ih =>
      exact (h x (by simp)).bind fun _ => ih fun y hy => h y (by simp [hy])

theorem of_every {p : Async σ χ ε α}
    (h : p.Every fun s t => P.fact s t → P.inv s → P.inv t ∧ P.guar i s t) : Ok P i p :=
  fun s _ => h.safe s

end Ok

/-- Frame rule: what every segment keeps need not be tracked. -/
theorem Safe.frame {P : Protocol ι σ} {i : ι} {Q : α → σ → Prop} {E : ε → σ → Prop}
    {p : Async σ χ ε α} {s : σ} {I : σ → Prop} (h : Safe P i Q E p s)
    (hp : p.Every fun s t => I s → I t) (hI : I s)
    (hstable : ∀ t u, P.inv u → P.rely i t u → I t → I u) :
    Safe P i (fun a t => Q a t ∧ I t) (fun e t => E e t ∧ I t) p s := by
  induction p generalizing s with
  | pure a => exact fun t ht hst => ⟨h t ht hst, hstable s t ht hst hI⟩
  | throw e => exact fun t ht hst => ⟨h t ht hst, hstable s t ht hst hI⟩
  | step act k ih =>
      intro t ht hst c b u hact hfact
      obtain ⟨hu, hg, hk⟩ := h t ht hst c b u hact hfact
      obtain ⟨hstep, hrest⟩ := hp c t b u hact
      exact ⟨hu, hg, ih b hk hrest (hstep (hstable s t ht hst hI))⟩

/-- A program that is safe under a stricter protocol, whose steps keep `I`. -/
theorem Safe.narrow {P P' : Protocol ι σ} {i : ι} {Q : α → σ → Prop} {E : ε → σ → Prop}
    {p : Async σ χ ε α} {s : σ} {I : σ → Prop} (h : Safe P' i Q E p s) (hI : I s)
    (hfact : ∀ t u, P.fact t u → P'.fact t u) (hinv : ∀ t, P.inv t → P'.inv t)
    (hrely : ∀ t u, P.rely i t u → P'.rely i t u)
    (hguar : ∀ t u, P.inv t → P'.inv u → P'.guar i t u → I t →
      P.inv u ∧ P.guar i t u ∧ I u)
    (hstable : ∀ t u, P.inv u → P.rely i t u → I t → I u) :
    Safe P i (fun a t => Q a t ∧ I t) (fun e t => E e t ∧ I t) p s := by
  induction p generalizing s with
  | pure a =>
      exact fun t ht hst => ⟨h t (hinv t ht) (hrely s t hst), hstable s t ht hst hI⟩
  | throw e =>
      exact fun t ht hst => ⟨h t (hinv t ht) (hrely s t hst), hstable s t ht hst hI⟩
  | step act k ih =>
      intro t ht hst c b u hact hfact'
      obtain ⟨hu, hg, hk⟩ := h t (hinv t ht) (hrely s t hst) c b u hact (hfact t u hfact')
      obtain ⟨hu', hg', hI'⟩ := hguar t u ht hu hg (hstable s t ht hst hI)
      exact ⟨hu', hg', ih b hk hI'⟩

/-- Steps to which the protocol and the assertion `I` are indifferent. -/
structure Idle (P : Protocol ι σ) (i : ι) (φ : σ → σ → Prop) (I : σ → Prop) : Prop where
  allowed : ∀ s t, P.fact s t → P.inv s → φ s t → P.inv t ∧ P.guar i s t
  kept : ∀ s t, φ s t → I s → I t
  stable : ∀ s t, P.inv t → P.rely i s t → I s → I t

theorem Idle.safe {P : Protocol ι σ} {i : ι} {φ : σ → σ → Prop} {I : σ → Prop}
    (h : Idle P i φ I) {p : Async σ χ ε α} (hp : p.Every φ) {s : σ} (hI : I s) :
    Safe P i (fun _ => I) (fun _ => I) p s := by
  have hsafe := Every.safe (P := P) (i := i)
    (hp.mono fun s t hφ hfact hs => h.allowed s t hfact hs hφ) s
  exact (hsafe.frame (hp.mono h.kept) hI h.stable).mono (fun _ _ _ h => h.2)
    (fun _ _ _ h => h.2)

theorem Idle.ok {P : Protocol ι σ} {i : ι} {φ : σ → σ → Prop} {I : σ → Prop}
    (h : Idle P i φ I) {p : Async σ χ ε α} (hp : p.Every φ) : Ok P i p :=
  Ok.of_every (hp.mono fun s t hφ hfact hs => h.allowed s t hfact hs hφ)

end Async

/-! ## Composition -/

namespace Protocol

open Async

variable {ι σ χ ε : Type} [DecidableEq ι] {P : Protocol ι σ}
  {Q : ι → Unit → σ → Prop} {E : ι → ε → σ → Prop} {p q : Pool ι σ χ ε}

theorem fire_safe {i : ι} {c : χ} (hinv : P.inv p.state)
    (hsafe : ∀ j, Safe P j (Q j) (E j) (p.threads j) p.state)
    (hfire : p.fire i c = some q) (hfact : P.fact p.state q.state) :
    P.inv q.state ∧ ∀ j, Safe P j (Q j) (E j) (q.threads j) q.state := by
  simp only [Pool.fire, Option.map_eq_some_iff] at hfire
  obtain ⟨⟨rest, s⟩, hnext, rfl⟩ := hfire
  have hi := hsafe i
  cases hthread : p.threads i with
  | pure a => simp [hthread, Async.fire] at hnext
  | throw e => simp [hthread, Async.fire] at hnext
  | step act k =>
      rw [hthread] at hi hnext
      simp only [Async.fire, Option.map_eq_some_iff, Prod.mk.injEq] at hnext
      obtain ⟨⟨b, t⟩, hact, rfl, rfl⟩ := hnext
      obtain ⟨ht, hguar, hk⟩ := hi p.state hinv (P.rely_refl i _) c b t hact hfact
      refine ⟨ht, fun j => ?_⟩
      by_cases hij : j = i
      · subst hij
        simpa using hk
      · simp only [Function.update_of_ne hij]
        exact (hsafe j).rely (P.guar_rely (Ne.symm hij) hguar)

/-- A segment of a safe thread keeps its guarantee. -/
theorem guar_of_fire {i : ι} {c : χ} (hinv : P.inv p.state)
    (hsafe : ∀ j, Safe P j (Q j) (E j) (p.threads j) p.state)
    (hfire : p.fire i c = some q) (hfact : P.fact p.state q.state) :
    P.guar i p.state q.state := by
  simp only [Pool.fire, Option.map_eq_some_iff] at hfire
  obtain ⟨⟨rest, s⟩, hnext, rfl⟩ := hfire
  have hi := hsafe i
  cases hthread : p.threads i with
  | pure a => simp [hthread, Async.fire] at hnext
  | throw e => simp [hthread, Async.fire] at hnext
  | step act k =>
      rw [hthread] at hi hnext
      simp only [Async.fire, Option.map_eq_some_iff, Prod.mk.injEq] at hnext
      obtain ⟨⟨b, t⟩, hact, rfl, rfl⟩ := hnext
      exact (hi p.state hinv (P.rely_refl i _) c b t hact hfact).2.1

/-- Parallel composition: safe threads keep the invariant in every run. -/
theorem run (hinv : P.inv p.state)
    (hsafe : ∀ j, Safe P j (Q j) (E j) (p.threads j) p.state) (hrun : Pool.Run P.fact p q) :
    P.inv q.state ∧ ∀ j, Safe P j (Q j) (E j) (q.threads j) q.state := by
  induction hrun with
  | refl => exact ⟨hinv, hsafe⟩
  | tail _ hfire hfact ih => exact fire_safe ih.1 ih.2 hfire hfact

theorem inv_of_run (hinv : P.inv p.state)
    (hsafe : ∀ j, Safe P j (Q j) (E j) (p.threads j) p.state) (hrun : Pool.Run P.fact p q) :
    P.inv q.state :=
  (run hinv hsafe hrun).1

/-- A thread that resolved in a run meets its postcondition. -/
theorem resolved_of_run (hinv : P.inv p.state)
    (hsafe : ∀ j, Safe P j (Q j) (E j) (p.threads j) p.state) (hrun : Pool.Run P.fact p q)
    {i : ι} (hi : q.threads i = .pure ()) : Q i () q.state := by
  obtain ⟨hq, hsafe'⟩ := run hinv hsafe hrun
  have h := hsafe' i
  rw [hi] at h
  exact h q.state hq (P.rely_refl i _)

end Protocol
