import Mathlib.Logic.Function.Basic
/-!
# Asynchronous programs over a shared state

A program is a tree of synchronous segments.  Each `step` is one segment: it
runs without interruption on the shared state, may be blocked (the awaited
promise has not settled), and yields a value to the rest of the program.
Between two segments any other program may run.  The environment resolves what
a segment reads from outside (a clock, an answer of foreign code) through a
choice of type `χ`.
-/

/-! ## Segments -/

/-- A synchronous segment.  What it did before it throws stays done. -/
def Segment (σ ε α : Type) : Type := σ → Except ε α × σ

namespace Segment

variable {σ ε α β : Type}

instance : Monad (Segment σ ε) where
  pure a := fun s => (.ok a, s)
  bind m f := fun s =>
    match m s with
    | (.ok a, t) => f a t
    | (.error e, t) => (.error e, t)

def raise (e : ε) : Segment σ ε α := fun s => (.error e, s)

def read (f : σ → α) : Segment σ ε α := fun s => (.ok (f s), s)

def modify (f : σ → σ) : Segment σ ε Unit := fun s => (.ok (), f s)

def ofExcept : Except ε α → Segment σ ε α
  | .ok a => pure a
  | .error e => raise e

/-- The segment, run from `s`, ends with an outcome and a state in `Q`. -/
def wp (m : Segment σ ε α) (Q : Except ε α → σ → Prop) (s : σ) : Prop :=
  Q (m s).1 (m s).2

variable {Q : Except ε α → σ → Prop} {s : σ}

@[simp] theorem wp_pure {a : α} : wp (pure a : Segment σ ε α) Q s ↔ Q (.ok a) s := Iff.rfl

@[simp] theorem wp_raise {e : ε} :
    wp (raise e : Segment σ ε α) Q s ↔ Q (.error e) s := Iff.rfl

@[simp] theorem wp_read {f : σ → α} :
    wp (read f : Segment σ ε α) Q s ↔ Q (.ok (f s)) s := Iff.rfl

@[simp] theorem wp_modify {f : σ → σ} {Q : Except ε Unit → σ → Prop} :
    wp (modify f : Segment σ ε Unit) Q s ↔ Q (.ok ()) (f s) := Iff.rfl

@[simp] theorem wp_ofExcept {r : Except ε α} :
    wp (ofExcept r : Segment σ ε α) Q s ↔ Q r s := by
  cases r <;> rfl

@[simp] theorem wp_bind {m : Segment σ ε β} {f : β → Segment σ ε α} :
    wp (m >>= f) Q s ↔
      wp m (fun r t => match r with
        | .ok b => wp (f b) Q t
        | .error e => Q (.error e) t) s := by
  unfold wp
  simp only [bind]
  rcases m s with ⟨_ | _, t⟩ <;> rfl

theorem wp_mono {m : Segment σ ε α} {R : Except ε α → σ → Prop} (h : wp m Q s)
    (hQ : ∀ r t, Q r t → R r t) : wp m R s :=
  hQ _ _ h

end Segment

/-! ## Programs -/

/-- A program with shared state `σ`, environment choices `χ` and errors `ε`. -/
inductive Async (σ χ ε α : Type) : Type 1 where
  | pure (a : α)
  | throw (e : ε)
  | step {β : Type} (act : χ → σ → Option (β × σ)) (k : β → Async σ χ ε α)

namespace Async

variable {σ χ ε α β γ : Type}

protected def bind : Async σ χ ε α → (α → Async σ χ ε β) → Async σ χ ε β
  | .pure a, f => f a
  | .throw e, _ => .throw e
  | .step act k, f => .step act fun b => (k b).bind f

instance : Monad (Async σ χ ε) where
  pure := Async.pure
  bind := Async.bind

/-- Run `p` and hand its outcome, value or error, to the caller. -/
def attempt : Async σ χ ε α → Async σ χ ε (Except ε α)
  | .pure a => .pure (.ok a)
  | .throw e => .pure (.error e)
  | .step act k => .step act fun b => (k b).attempt

def ofExcept : Except ε α → Async σ χ ε α
  | .ok a => .pure a
  | .error e => .throw e

/-- `try { p } catch (e) { h(e) }` -/
protected def tryCatch (p : Async σ χ ε α) (h : ε → Async σ χ ε α) : Async σ χ ε α :=
  p.attempt.bind fun
    | .ok a => .pure a
    | .error e => h e

instance : MonadExceptOf ε (Async σ χ ε) where
  throw := Async.throw
  tryCatch := Async.tryCatch

/-- `try { p } finally { f }`: an error of `f` replaces the outcome of `p`. -/
def tryFinally (p : Async σ χ ε α) (f : Async σ χ ε Unit) : Async σ χ ε α :=
  p.attempt.bind fun r => f.bind fun _ => ofExcept r

/-- One synchronous segment that may be blocked and may throw. -/
def await (act : χ → σ → Option (Except ε α × σ)) : Async σ χ ε α :=
  .step act ofExcept

/-- One synchronous segment that is always ready. -/
def call (f : χ → Segment σ ε α) : Async σ χ ε α :=
  await fun c s => some (f c s)

/-- `for (const x of xs) await f(x)` -/
def forEach (f : β → Async σ χ ε Unit) : List β → Async σ χ ε Unit
  | [] => .pure ()
  | x :: xs => (f x).bind fun _ => forEach f xs

@[simp] theorem pure_eq (a : α) : (pure a : Async σ χ ε α) = .pure a := rfl

@[simp] theorem bind_eq (p : Async σ χ ε α) (f : α → Async σ χ ε β) :
    p >>= f = p.bind f := rfl

@[simp] theorem throw_eq (e : ε) :
    (throw e : Async σ χ ε α) = .throw e := rfl

@[simp] theorem tryCatch_eq (p : Async σ χ ε α) (h : ε → Async σ χ ε α) :
    tryCatch p h = p.tryCatch h := rfl

@[simp] theorem tryCatchThe_eq (p : Async σ χ ε α) (h : ε → Async σ χ ε α) :
    tryCatchThe ε p h = p.tryCatch h := rfl

/-- Fire the next segment of a program, if it is ready under the choice `c`. -/
def fire (c : χ) : Async σ χ ε α → σ → Option (Async σ χ ε α × σ)
  | .step act k, s => (act c s).map fun r => (k r.1, r.2)
  | _, _ => none

def settled : Async σ χ ε α → Bool
  | .step _ _ => false
  | _ => true

def resolved : Async σ χ ε α → Bool
  | .pure _ => true
  | _ => false

theorem eq_pure_of_resolved {p : Async σ χ ε Unit} (h : p.resolved = true) : p = .pure () := by
  cases p with
  | pure a => rfl
  | throw e => cases h
  | step act k => cases h

end Async

/-! ## Pools

A pool is a family of programs that share one state.  A run fires segments of
any of them in any order. -/

structure Pool (ι σ χ ε : Type) where
  threads : ι → Async σ χ ε Unit
  state : σ

namespace Pool

variable {ι σ χ ε : Type} [DecidableEq ι]

def fire (p : Pool ι σ χ ε) (i : ι) (c : χ) : Option (Pool ι σ χ ε) :=
  ((p.threads i).fire c p.state).map fun r =>
    ⟨Function.update p.threads i r.1, r.2⟩

/-- `q` is reached from `p` by firing segments in some order, each of them with
a state before and after it in `C`. -/
inductive Run (C : σ → σ → Prop) (p : Pool ι σ χ ε) : Pool ι σ χ ε → Prop where
  | refl : Run C p p
  | tail {q r : Pool ι σ χ ε} {i : ι} {c : χ} :
      Run C p q → q.fire i c = some r → C q.state r.state → Run C p r

abbrev Reaches (p q : Pool ι σ χ ε) : Prop := Run (fun _ _ => True) p q

def play : List (ι × χ) → Pool ι σ χ ε → Option (Pool ι σ χ ε)
  | [], p => some p
  | (i, c) :: rest, p => (p.fire i c).bind (play rest)

/-- Fire the segments that a schedule lists, as long as every state that they lead
to is `ok`. -/
def playWhile (ok : σ → Bool) : List (ι × χ) → Pool ι σ χ ε → Option (Pool ι σ χ ε)
  | [], p => some p
  | (i, c) :: rest, p =>
      (p.fire i c).bind fun q => if ok q.state then playWhile ok rest q else none

variable {C D : σ → σ → Prop} {p q r : Pool ι σ χ ε}

theorem Run.trans (hpq : Run C p q) (hqr : Run C q r) : Run C p r := by
  induction hqr with
  | refl => exact hpq
  | tail _ hfire hC ih => exact ih.tail hfire hC

/-- A run may be shown to be a run under another condition, step by step. -/
theorem Run.imp (h : Run C p q)
    (hD : ∀ {q r i c}, Run C p q → q.fire i c = some r → C q.state r.state →
      D q.state r.state) : Run D p q := by
  induction h with
  | refl => exact .refl
  | tail hrun hfire hC ih => exact ih.tail hfire (hD hrun hfire hC)

theorem Run.reaches (h : Run C p q) : Reaches p q :=
  h.imp fun _ _ _ => trivial

theorem run_of_play {schedule : List (ι × χ)} (hC : ∀ s t, C s t)
    (h : play schedule p = some q) : Run C p q := by
  induction schedule generalizing p with
  | nil =>
      obtain rfl : p = q := by simpa [play] using h
      exact .refl
  | cons entry rest ih =>
      obtain ⟨i, c⟩ := entry
      simp only [play, Option.bind_eq_some_iff] at h
      obtain ⟨mid, hfire, hrest⟩ := h
      exact (Run.tail .refl hfire (hC _ _)).trans (ih hrest)

theorem run_of_playWhile {ok : σ → Bool} {schedule : List (ι × χ)}
    (hC : ∀ s t, ok t = true → C s t) (h : playWhile ok schedule p = some q) : Run C p q := by
  induction schedule generalizing p with
  | nil =>
      obtain rfl : p = q := by simpa [playWhile] using h
      exact .refl
  | cons entry rest ih =>
      obtain ⟨i, c⟩ := entry
      simp only [playWhile, Option.bind_eq_some_iff] at h
      obtain ⟨mid, hfire, hrest⟩ := h
      by_cases hok : ok mid.state = true
      · rw [if_pos hok] at hrest
        exact (Run.tail .refl hfire (hC _ _ hok)).trans (ih hrest)
      · rw [if_neg hok] at hrest
        cases hrest

end Pool
