import Noddde.Adapters.CommitMutex
import Noddde.Async.Fairness
/-!
# SyncCommitMutex is a line

The calls that have settled come first, then the one whose function executes, then those
that wait.  Every state of the mutex is a line of this form, and a step moves the line on.
-/

namespace Noddde.Adapters.SyncCommitMutex.Runs

open Machine

variable {T E : Type} {s t : Runs T E} {call : Nat} {outcome : Except E T}

/-! ## Lines -/

inductive Stage (T E : Type) where
  | idle
  | executing
  | executed (outcome : Except E T)

def Stage.rank : Stage T E → Nat
  | .idle => 0
  | .executing => 1
  | .executed _ => 2

structure Line (T E : Type) where
  outcomes : List (Except E T) := []
  stage : Stage T E := .idle
  waiting : Nat := 0

def sections (outcomes : List (Except E T)) : List (SectionEntry T E) :=
  outcomes.zipIdx.flatMap fun (outcome, call) => [.started call, .ended call outcome]

namespace Line

/-- The calls that wait, where the first of them has the number `first`. -/
def queuedFrom (first waiting : Nat) : List (RunCall T E) :=
  (List.range' first waiting).map fun call => .queued call (call + 1)

def unsettled (first waiting : Nat) : Stage T E → List (RunCall T E)
  | .idle => queuedFrom first waiting
  | .executing => .executing (first + 1) :: queuedFrom (first + 1) waiting
  | .executed outcome => .executed (first + 1) outcome :: queuedFrom (first + 1) waiting

def underway (first : Nat) : Stage T E → List (SectionEntry T E)
  | .idle => []
  | .executing => [.started first]
  | .executed outcome => [.started first, .ended first outcome]

/-- The mutex after the settled calls, with the other calls and what happened to them. -/
def layout (outcomes : List (Except E T)) (rest : List (RunCall T E))
    (entries : List (SectionEntry T E)) : Runs T E where
  mutex := ⟨outcomes.length + rest.length, (List.range (outcomes.length + 1)).reverse⟩
  calls := outcomes.map .settled ++ rest
  history := (sections outcomes ++ entries).reverse

def runs (line : Line T E) : Runs T E :=
  layout line.outcomes (unsettled line.outcomes.length line.waiting line.stage)
    (underway line.outcomes.length line.stage)

theorem queuedFrom_succ (first waiting : Nat) :
    (queuedFrom first (waiting + 1) : List (RunCall T E)) =
      .queued first (first + 1) :: queuedFrom (first + 1) waiting := by
  rw [queuedFrom, List.range'_succ, List.map_cons]
  rfl

theorem queuedFrom_concat (first waiting : Nat) :
    (queuedFrom first (waiting + 1) : List (RunCall T E)) =
      queuedFrom first waiting ++ [.queued (first + waiting) (first + waiting + 1)] := by
  rw [queuedFrom, List.range'_concat, List.map_append, Nat.one_mul]
  rfl

theorem length_queuedFrom (first waiting : Nat) :
    (queuedFrom first waiting : List (RunCall T E)).length = waiting := by
  rw [queuedFrom, List.length_map, List.length_range']

theorem eq_of_queuedFrom {first waiting i : Nat} {runCall : RunCall T E}
    (h : (queuedFrom first waiting)[i]? = some runCall) :
    runCall = .queued (first + i) (first + i + 1) := by
  rw [queuedFrom, List.getElem?_map] at h
  obtain ⟨n, hn, rfl⟩ := Option.map_eq_some_iff.mp h
  obtain ⟨hlt, rfl⟩ := List.getElem?_eq_some_iff.mp hn
  rw [List.getElem_range', Nat.one_mul]

theorem unsettled_concat (first waiting : Nat) (stage : Stage T E) :
    unsettled first (waiting + 1) stage = unsettled first waiting stage ++
      [.queued (first + (unsettled first waiting stage).length)
        (first + (unsettled first waiting stage).length + 1)] := by
  have hsucc : first + 1 + waiting = first + (waiting + 1) := by omega
  cases stage <;> simp [unsettled, queuedFrom_concat, length_queuedFrom, hsucc]

inductive Stands (line : Line T E) (call : Nat) : RunCall T E → Prop where
  | settled {outcome : Except E T} : line.outcomes[call]? = some outcome →
      Stands line call (.settled outcome)
  | executing : call = line.outcomes.length → line.stage = .executing →
      Stands line call (.executing (call + 1))
  | executed {outcome : Except E T} : call = line.outcomes.length →
      line.stage = .executed outcome → Stands line call (.executed (call + 1) outcome)
  | first {waiting : Nat} : call = line.outcomes.length → line.stage = .idle →
      line.waiting = waiting + 1 → Stands line call (.queued call (call + 1))
  | behind : line.outcomes.length < call → Stands line call (.queued call (call + 1))

theorem stands {line : Line T E} {runCall : RunCall T E}
    (h : line.runs.calls[call]? = some runCall) : Stands line call runCall := by
  obtain ⟨outcomes, stage, waiting⟩ := line
  by_cases hlt : call < outcomes.length
  · have hsettled : (runs ⟨outcomes, stage, waiting⟩).calls[call]? =
        some (.settled outcomes[call]) := by
      rw [runs, layout, List.getElem?_append_left (by simpa using hlt), List.getElem?_map,
        List.getElem?_eq_getElem hlt]
      rfl
    obtain rfl := Option.some.inj (hsettled.symm.trans h)
    exact .settled (List.getElem?_eq_getElem hlt)
  · obtain ⟨i, rfl⟩ := Nat.exists_eq_add_of_le (Nat.le_of_not_lt hlt)
    rw [runs, layout, List.getElem?_append_right (by simp), List.length_map,
      Nat.add_sub_cancel_left] at h
    have hbehind : ∀ j, (queuedFrom (outcomes.length + 1) waiting)[j]? = some runCall →
        Stands ⟨outcomes, stage, waiting⟩ (outcomes.length + (j + 1)) runCall := by
      intro j hj
      obtain rfl := eq_of_queuedFrom hj
      rw [Nat.add_assoc, Nat.add_comm 1 j]
      exact .behind (Nat.lt_add_of_pos_right (Nat.succ_pos j))
    cases stage with
    | idle =>
        cases waiting with
        | zero => cases h
        | succ waiting =>
            obtain rfl := eq_of_queuedFrom h
            cases i with
            | zero => exact .first rfl rfl rfl
            | succ i => exact .behind (Nat.lt_add_of_pos_right (Nat.succ_pos i))
    | executing =>
        cases i with
        | zero =>
            obtain rfl := Option.some.inj h
            exact .executing rfl rfl
        | succ i => exact hbehind i h
    | executed outcome =>
        cases i with
        | zero =>
            obtain rfl := Option.some.inj h
            exact .executed rfl rfl
        | succ i => exact hbehind i h

/-! ## Steps of a line -/

def step : Line T E → RunAction T E → Option (Line T E)
  | line, .run => some { line with waiting := line.waiting + 1 }
  | ⟨outcomes, .idle, waiting + 1⟩, .start call thrown =>
      if call = outcomes.length then
        match thrown with
        | none => some ⟨outcomes, .executing, waiting⟩
        | some e => some ⟨outcomes ++ [.error e], .idle, waiting⟩
      else none
  | ⟨outcomes, .executing, waiting⟩, .settle call outcome =>
      if call = outcomes.length then some ⟨outcomes, .executed outcome, waiting⟩ else none
  | ⟨outcomes, .executed outcome, waiting⟩, .finish call =>
      if call = outcomes.length then some ⟨outcomes ++ [outcome], .idle, waiting⟩ else none
  | _, _ => none

section Layout

variable (outcomes : List (Except E T)) (runCall : RunCall T E) (rest : List (RunCall T E))
  (entries : List (SectionEntry T E))

theorem mem_resolved_layout (promise : Nat) :
    promise ∈ (layout outcomes rest entries).mutex.resolved ↔ promise ≤ outcomes.length :=
  List.mem_reverse.trans (List.mem_range.trans Nat.lt_succ_iff)

theorem getElem?_layout :
    (layout outcomes (runCall :: rest) entries).calls[outcomes.length]? = some runCall := by
  simp [layout]

theorem note_layout (entry : SectionEntry T E) :
    (layout outcomes rest entries).note entry = layout outcomes rest (entries ++ [entry]) := by
  simp [layout, note]

theorem setCall_layout (next : RunCall T E) :
    (layout outcomes (runCall :: rest) entries).setCall outcomes.length next =
      layout outcomes (next :: rest) entries := by
  simp [layout, setCall]

theorem sections_concat (outcome : Except E T) : sections (outcomes ++ [outcome]) =
    sections outcomes ++ [.started outcomes.length, .ended outcomes.length outcome] := by
  rw [sections, List.zipIdx_append, List.flatMap_append]
  simp [sections]

theorem conclude_layout (outcome : Except E T) :
    (layout outcomes (runCall :: rest)
      [.started outcomes.length, .ended outcomes.length outcome]).conclude outcomes.length
        (outcomes.length + 1) outcome = layout (outcomes ++ [outcome]) rest [] := by
  rw [conclude, setCall_layout]
  simp [layout, SyncCommitMutex.release, sections_concat, List.range_succ (n := _ + 1),
    Nat.add_assoc, Nat.add_comm 1]

end Layout

theorem step_run (line : Line T E) : Runs.step line.runs .run = (line.step .run).map runs := by
  obtain ⟨outcomes, stage, waiting⟩ := line
  simp [Runs.step, step, runs, layout, SyncCommitMutex.run, unsettled_concat, Nat.add_assoc]

theorem step_start (line : Line T E) (call : Nat) (thrown : Option E) :
    Runs.step line.runs (.start call thrown) = (line.step (.start call thrown)).map runs := by
  by_cases hfirst : ∃ waiting, call = line.outcomes.length ∧ line.stage = .idle ∧
      line.waiting = waiting + 1
  · obtain ⟨outcomes, stage, waiting⟩ := line
    obtain ⟨waiting, rfl, rfl, rfl⟩ := hfirst
    have hresolved := fun rest entries =>
      (mem_resolved_layout (T := T) (E := E) outcomes rest entries _).mpr (Nat.le_refl _)
    simp only [Runs.step, runs, unsettled, queuedFrom_succ, getElem?_layout, if_pos (hresolved _ _),
      note_layout, step, if_true, underway, List.nil_append]
    cases thrown with
    | none => simp only [setCall_layout, Option.map_some, unsettled, runs, underway]
    | some e =>
        simp only [List.cons_append, List.nil_append, conclude_layout, Option.map_some, runs,
          unsettled, underway, List.length_append, List.length_singleton]
  · have hline : line.step (.start call thrown) = none := by
      obtain ⟨outcomes, stage, waiting⟩ := line
      cases stage <;> cases waiting <;> simp_all [step]
    rw [hline, Option.map_none, Runs.step]
    cases hcall : line.runs.calls[call]? with
    | none => rfl
    | some runCall =>
        cases stands hcall with
        | settled | executing | executed => rfl
        | first hlength hidle hwaiting => exact absurd ⟨_, hlength, hidle, hwaiting⟩ hfirst
        | behind hlt =>
            exact if_neg fun hmem => Nat.not_le_of_lt hlt ((mem_resolved_layout ..).mp hmem)

theorem step_settle (line : Line T E) (call : Nat) (outcome : Except E T) :
    Runs.step line.runs (.settle call outcome) = (line.step (.settle call outcome)).map runs := by
  by_cases hexecuting : call = line.outcomes.length ∧ line.stage = .executing
  · obtain ⟨outcomes, stage, waiting⟩ := line
    obtain ⟨rfl, rfl⟩ := hexecuting
    simp only [Runs.step, runs, unsettled, getElem?_layout, note_layout, setCall_layout, step,
      if_true, underway, Option.map_some, List.cons_append, List.nil_append]
  · have hline : line.step (.settle call outcome) = none := by
      obtain ⟨outcomes, stage, waiting⟩ := line
      cases stage <;> simp_all [step]
    rw [hline, Option.map_none, Runs.step]
    cases hcall : line.runs.calls[call]? with
    | none => rfl
    | some runCall =>
        cases stands hcall with
        | settled | executed | first | behind => rfl
        | executing hlength hstage => exact absurd ⟨hlength, hstage⟩ hexecuting

theorem step_finish (line : Line T E) (call : Nat) :
    Runs.step line.runs (.finish call) = (line.step (.finish call)).map runs := by
  by_cases hexecuted : ∃ outcome, call = line.outcomes.length ∧ line.stage = .executed outcome
  · obtain ⟨outcomes, stage, waiting⟩ := line
    obtain ⟨outcome, rfl, rfl⟩ := hexecuted
    simp only [Runs.step, runs, unsettled, getElem?_layout, conclude_layout, step, if_true,
      underway, Option.map_some, List.length_append, List.length_singleton]
  · have hline : line.step (.finish call) = none := by
      obtain ⟨outcomes, stage, waiting⟩ := line
      cases stage <;> simp_all [step]
    rw [hline, Option.map_none, Runs.step]
    cases hcall : line.runs.calls[call]? with
    | none => rfl
    | some runCall =>
        cases stands hcall with
        | settled | executing | first | behind => rfl
        | executed hlength hstage => exact absurd ⟨_, hlength, hstage⟩ hexecuted

theorem step_runs (line : Line T E) : ∀ a, Runs.step line.runs a = (line.step a).map runs
  | .run => step_run line
  | .start call thrown => step_start line call thrown
  | .settle call outcome => step_settle line call outcome
  | .finish call => step_finish line call

theorem runs_empty : ({} : Line T E).runs = {} := rfl

end Line

theorem exists_line {C : Runs T E → RunAction T E → Prop} {s : Runs T E}
    (h : Run step C {} s) : ∃ line : Line T E, s = line.runs := by
  refine Run.inv (I := fun s => ∃ line : Line T E, s = line.runs) h
    ⟨{}, Line.runs_empty.symm⟩ ?_
  rintro _ a u ⟨line, rfl⟩ - hstep
  rw [Line.step_runs] at hstep
  obtain ⟨next, -, rfl⟩ := Option.map_eq_some_iff.mp hstep
  exact ⟨next, rfl⟩

/-! ## What the line promises -/

def Executing (call : Nat) (s : Runs T E) : Prop :=
  ∃ promise, s.calls[call]? = some (.executing promise)

/-- A section lock in the order of the calls. -/
structure Fifo (s : Runs T E) : Prop where
  exclusive : ∀ i j, s.Executing i → s.Executing j → i = j
  /-- The functions are executed one after another, in the order of the calls. -/
  serial : ∃ outcomes, s.history.reverse = sections outcomes ∨
    s.history.reverse = sections outcomes ++ [.started outcomes.length]
  own : ∀ i outcome, s.calls[i]? = some (.settled outcome) → .ended i outcome ∈ s.history

def GoesOn (call : Nat) (a : RunAction T E) : Prop :=
  (∃ thrown, a = .start call thrown) ∨ a = .finish call

def FnSettles (e : Execution (step (T := T) (E := E))) (call : Nat) : Prop :=
  ∀ n, (e.state n).Executing call → ∃ m, n ≤ m ∧ ¬ (e.state m).Executing call

namespace Line

theorem executing_iff {line : Line T E} :
    line.runs.Executing call ↔ call = line.outcomes.length ∧ line.stage = .executing := by
  constructor
  · rintro ⟨promise, h⟩
    cases stands h with
    | executing hlength hstage => exact ⟨hlength, hstage⟩
  · obtain ⟨outcomes, stage, waiting⟩ := line
    rintro ⟨rfl, rfl⟩
    exact ⟨outcomes.length + 1, getElem?_layout ..⟩

theorem ended_mem_sections {outcomes : List (Except E T)}
    (h : outcomes[call]? = some outcome) : .ended call outcome ∈ sections outcomes := by
  rw [sections, List.mem_flatMap]
  exact ⟨(outcome, call), List.mk_mem_zipIdx_iff_getElem?.mpr h, by simp⟩

theorem ended_mem {line : Line T E} (h : line.outcomes[call]? = some outcome) :
    .ended call outcome ∈ line.runs.history := by
  rw [runs, layout, List.mem_reverse, List.mem_append]
  exact .inl (ended_mem_sections h)

theorem fifo (line : Line T E) : Fifo line.runs where
  exclusive i j hi hj := (executing_iff.mp hi).1.trans (executing_iff.mp hj).1.symm
  serial := by
    obtain ⟨outcomes, stage, waiting⟩ := line
    cases stage with
    | idle => exact ⟨outcomes, .inl (by simp [runs, layout, underway])⟩
    | executing => exact ⟨outcomes, .inr (by simp [runs, layout, underway])⟩
    | executed outcome =>
        exact ⟨outcomes ++ [outcome], .inl (by simp [runs, layout, underway, sections_concat])⟩
  own i outcome h := by
    cases stands h with
    | settled houtcome => exact ended_mem houtcome

/-! ## Progress -/

def position (line : Line T E) : Nat := 3 * line.outcomes.length + line.stage.rank

def total (line : Line T E) : Nat :=
  line.outcomes.length + (unsettled line.outcomes.length line.waiting line.stage).length

theorem length_calls (line : Line T E) : line.runs.calls.length = line.total := by
  rw [runs, layout, List.length_append, List.length_map, total]

inductive Moves : Line T E → RunAction T E → Line T E → Prop where
  | run (line : Line T E) : Moves line .run { line with waiting := line.waiting + 1 }
  | start (outcomes : List (Except E T)) (waiting : Nat) :
      Moves ⟨outcomes, .idle, waiting + 1⟩ (.start outcomes.length none)
        ⟨outcomes, .executing, waiting⟩
  | throw (outcomes : List (Except E T)) (waiting : Nat) (e : E) :
      Moves ⟨outcomes, .idle, waiting + 1⟩ (.start outcomes.length (some e))
        ⟨outcomes ++ [.error e], .idle, waiting⟩
  | settle (outcomes : List (Except E T)) (waiting : Nat) (outcome : Except E T) :
      Moves ⟨outcomes, .executing, waiting⟩ (.settle outcomes.length outcome)
        ⟨outcomes, .executed outcome, waiting⟩
  | finish (outcomes : List (Except E T)) (waiting : Nat) (outcome : Except E T) :
      Moves ⟨outcomes, .executed outcome, waiting⟩ (.finish outcomes.length)
        ⟨outcomes ++ [outcome], .idle, waiting⟩

variable {line next : Line T E} {a : RunAction T E}

theorem moves_of_step (h : line.step a = some next) : Moves line a next := by
  obtain ⟨outcomes, stage, waiting⟩ := line
  cases a with
  | run =>
      obtain rfl := Option.some.inj h
      exact .run _
  | start call thrown =>
      cases stage <;> cases waiting <;> simp only [step, reduceCtorEq] at h
      split_ifs at h with hcall
      subst hcall
      cases thrown with
      | none =>
          obtain rfl := Option.some.inj h
          exact .start ..
      | some e =>
          obtain rfl := Option.some.inj h
          exact .throw ..
  | settle call outcome =>
      cases stage <;> simp only [step, reduceCtorEq] at h
      split_ifs at h with hcall
      obtain rfl := Option.some.inj h
      exact hcall ▸ .settle ..
  | finish call =>
      cases stage <;> simp only [step, reduceCtorEq] at h
      split_ifs at h with hcall
      obtain rfl := Option.some.inj h
      exact hcall ▸ .finish ..

theorem position_le (h : Moves line a next) : line.position ≤ next.position := by
  cases h with
  | run => exact Nat.le_refl _
  | start | throw | settle | finish => simp [position, Stage.rank, Nat.mul_add]

/-- No call is lost. -/
theorem total_le (h : Moves line a next) : line.total ≤ next.total := by
  cases h with
  | run => simp [total, unsettled_concat]
  | start | throw | settle | finish =>
      simp [total, unsettled, length_queuedFrom] <;> omega

variable {e : Execution (Line.step (T := T) (E := E))} {n i : Nat}

def Settles (e : Execution (Line.step (T := T) (E := E))) (call : Nat) : Prop :=
  ∀ n, (e.state n).position = 3 * call + 1 → ∃ m, n ≤ m ∧ (e.state m).position ≠ 3 * call + 1

theorem position_mono {m : Nat} (hm : n ≤ m) : (e.state n).position ≤ (e.state m).position :=
  e.always_of_keeps (P := fun line => (e.state n).position ≤ line.position) e.meets_true
    (fun _ _ _ hP _ hstep => hP.trans (position_le (moves_of_step hstep))) (Nat.le_refl _) hm

theorem total_mono {m : Nat} (hm : n ≤ m) : (e.state n).total ≤ (e.state m).total :=
  e.always_of_keeps (P := fun line => (e.state n).total ≤ line.total) e.meets_true
    (fun _ _ _ hP _ hstep => hP.trans (total_le (moves_of_step hstep))) (Nat.le_refl _) hm

theorem position_lt {call : Nat} (ha : GoesOn call a) (h : Moves line a next) :
    line.position < next.position := by
  cases h with
  | run | settle => rcases ha with ⟨_, ha⟩ | ha <;> cases ha
  | start | throw | finish => simp [position, Stage.rank, Nat.mul_add]

/-- A call that is not settled goes on when its turn has come. -/
theorem enabled_goesOn (htotal : i < line.total)
    (hposition : line.position = 3 * i ∨ line.position = 3 * i + 2) :
    Enabled step (GoesOn i) line := by
  obtain ⟨outcomes, stage, waiting⟩ := line
  cases stage with
  | idle =>
      obtain rfl : i = outcomes.length := by
        simp only [position, Stage.rank] at hposition
        omega
      cases waiting with
      | zero => simp [total, unsettled, length_queuedFrom] at htotal
      | succ waiting =>
          exact ⟨.start outcomes.length none, _, .inl ⟨none, rfl⟩, by rw [step, if_pos rfl]⟩
  | executing =>
      simp only [position, Stage.rank] at hposition
      omega
  | executed outcome =>
      obtain rfl : i = outcomes.length := by
        simp only [position, Stage.rank] at hposition
        omega
      exact ⟨.finish outcomes.length, _, .inr rfl, by rw [step, if_pos rfl]⟩

theorem exists_past (hfair : e.Fair (GoesOn i)) (htotal : i < (e.state n).total)
    (hposition : (e.state n).position = 3 * i ∨ (e.state n).position = 3 * i + 2) :
    ∃ m, n ≤ m ∧ (e.state n).position < (e.state m).position := by
  have hkeeps : Keeps (step (T := T) (E := E)) (fun _ _ => True)
      (fun line => line.position = (e.state n).position ∧ i < line.total)
      (fun line => (e.state n).position < line.position) := by
    rintro line a next ⟨heq, htotal⟩ - hstep
    have hmoves := moves_of_step hstep
    rcases Nat.eq_or_lt_of_le (heq ▸ position_le hmoves) with hsame | hlt
    · exact .inl ⟨hsame.symm, htotal.trans_le (total_le hmoves)⟩
    · exact .inr hlt
  obtain ⟨m, hm, hpast, -⟩ := e.reaches_of_fair e.meets_true hfair hkeeps
    (fun line ⟨heq, htotal⟩ => enabled_goesOn htotal (heq ▸ hposition))
    (fun line a next ⟨heq, _⟩ _ ha hstep => heq ▸ position_lt ha (moves_of_step hstep))
    ⟨rfl, htotal⟩
  exact ⟨m, hm, hpast⟩

/-- The line comes to every position up to the end of a call, if the functions settle that
are on the way. -/
theorem exists_position (hfair : ∀ call, e.Fair (GoesOn call)) (htotal : i < (e.state n).total)
    (target : Nat) (htarget : target ≤ 3 * i + 3)
    (hsettles : ∀ call, 3 * call + 2 ≤ target → Settles e call) :
    ∃ m, n ≤ m ∧ target ≤ (e.state m).position := by
  induction target with
  | zero => exact ⟨n, Nat.le_refl n, Nat.zero_le _⟩
  | succ target ih =>
      obtain ⟨m, hm, hle⟩ := ih (by omega) fun call hcall => hsettles call (by omega)
      rcases Nat.eq_or_lt_of_le hle with heq | hlt
      · by_cases hexecuting : target % 3 = 1
        · have hposition : (e.state m).position = 3 * (target / 3) + 1 := by omega
          obtain ⟨k, hk, hne⟩ := hsettles (target / 3) (by omega) m hposition
          have hmono := position_mono (e := e) hk
          exact ⟨k, hm.trans hk, by omega⟩
        · have htotal' : target / 3 < (e.state m).total := by
            have hmono := total_mono (e := e) hm
            omega
          obtain ⟨k, hk, hlt⟩ := exists_past (hfair (target / 3)) htotal' (by omega)
          exact ⟨k, hm.trans hk, by omega⟩
      · exact ⟨m, hm, hlt⟩

theorem started_mem (hposition : 3 * i < line.position) : .started i ∈ line.runs.history := by
  obtain ⟨outcomes, stage, waiting⟩ := line
  rw [runs, layout, List.mem_reverse, List.mem_append]
  by_cases hlt : i < outcomes.length
  · refine .inl (List.mem_flatMap.mpr ⟨(outcomes[i], i), ?_, by simp⟩)
    exact List.mk_mem_zipIdx_iff_getElem?.mpr (List.getElem?_eq_getElem hlt)
  · simp only [position] at hposition
    cases stage with
    | idle =>
        simp only [Stage.rank] at hposition
        omega
    | executing | executed =>
        obtain rfl : i = outcomes.length := by
          simp only [Stage.rank] at hposition
          omega
        exact .inr (by simp [underway])

theorem settled_mem (hposition : 3 * i + 3 ≤ line.position) :
    ∃ outcome, line.runs.calls[i]? = some (.settled outcome) ∧
      .ended i outcome ∈ line.runs.history := by
  have hlt : i < line.outcomes.length := by
    cases hstage : line.stage <;> simp only [position, hstage, Stage.rank] at hposition <;> omega
  have houtcome := List.getElem?_eq_getElem hlt
  refine ⟨line.outcomes[i], ?_, ended_mem houtcome⟩
  rw [runs, layout, List.getElem?_append_left (by simpa using hlt), List.getElem?_map, houtcome]
  rfl

theorem executing_iff_position :
    line.runs.Executing i ↔ line.position = 3 * i + 1 := by
  rw [executing_iff, position]
  cases hstage : line.stage <;> simp [Stage.rank] <;> omega

end Line

/-- `SyncCommitMutex` executes the functions one at a time and in the order of the calls.  A
function is called once those before it have settled, and then its call answers what it does. -/
theorem fifo_section :
    (∀ s : Runs T E, Reaches step {} s → Fifo s) ∧
    ∀ e : Execution (step (T := T) (E := E)), e.state 0 = {} →
      (∀ call, e.Fair (GoesOn call)) →
      ∀ n i, i < (e.state n).calls.length → (∀ j < i, FnSettles e j) →
        (∃ m, n ≤ m ∧ .started i ∈ (e.state m).history) ∧
        (FnSettles e i → ∃ m, n ≤ m ∧ ∃ outcome,
          (e.state m).calls[i]? = some (.settled outcome) ∧
            .ended i outcome ∈ (e.state m).history) := by
  constructor
  · intro s hs
    obtain ⟨line, rfl⟩ := exists_line hs
    exact line.fifo
  · intro e h₀ hfair n i hi hearlier
    have hx : e.state 0 = Line.runs {} := h₀
    let lines := e.unmask Line.step_runs hx
    have hstate : ∀ n, e.state n = (lines.state n).runs := Execution.state_eq Line.step_runs hx
    have hlines : ∀ call, lines.Fair (GoesOn call) := fun call =>
      Execution.Fair.unmask Line.step_runs hx (hfair call)
    have htotal : i < (lines.state n).total := by
      rw [← Line.length_calls, ← hstate]
      exact hi
    have hsettles : ∀ call, FnSettles e call → Line.Settles lines call := by
      intro call h k hk
      obtain ⟨m, hm, hnot⟩ := h k (by rw [hstate, Line.executing_iff_position]; exact hk)
      rw [hstate, Line.executing_iff_position] at hnot
      exact ⟨m, hm, hnot⟩
    constructor
    · obtain ⟨m, hm, hposition⟩ := Line.exists_position hlines htotal (3 * i + 1) (by omega)
        fun call hcall => hsettles call (hearlier call (by omega))
      exact ⟨m, hm, by rw [hstate]; exact Line.started_mem hposition⟩
    · intro hown
      obtain ⟨m, hm, hposition⟩ := Line.exists_position hlines htotal (3 * i + 3) (by omega)
        fun call hcall => hsettles call (by
          rcases Nat.lt_or_ge call i with hlt | hge
          · exact hearlier call hlt
          · obtain rfl : call = i := by omega
            exact hown)
      exact ⟨m, hm, by rw [hstate]; exact Line.settled_mem hposition⟩

/-- The first function throws, and the second answers with a promise that resolves. -/
def throwThenResolve : List (RunAction Nat String) :=
  [.run, .run, .start 0 (some "aborted"), .start 1 none, .settle 1 (.ok 7), .finish 1]

theorem fifo_section_throwThenResolve :
    ∃ e : Execution (step (T := Nat) (E := String)), Fifo (e.state 6) ∧
      (∃ m, 2 ≤ m ∧ .started 1 ∈ (e.state m).history) ∧
      ∃ m, 2 ≤ m ∧ ∃ outcome, (e.state m).calls[1]? = some (.settled outcome) ∧
        .ended 1 outcome ∈ (e.state m).history := by
  have hplay : (play step throwThenResolve ({} : Runs Nat String)).isSome = true := rfl
  let e := Execution.ofActions throwThenResolve _ hplay
  have hcalls : (e.state 6).calls = [.settled (.error "aborted"), .settled (.ok 7)] := rfl
  have hlast : ∀ n, e.state (n + 6) = e.state 6 := fun n => by
    have hlength : throwThenResolve.length ≤ n + 6 := Nat.le_add_left 6 n
    simp only [e, Execution.ofActions, List.take_of_length_le hlength]
    rfl
  have hrest : ∀ call, ¬ Enabled (step (T := Nat) (E := String)) (GoesOn call) (e.state 6) := by
    rintro call ⟨a, t, ⟨thrown, rfl⟩ | rfl, hstep⟩ <;>
    · simp only [step, hcalls] at hstep
      rcases call with _ | _ | call <;> cases hstep
  have hfair : ∀ call, e.Fair (GoesOn call) := fun call =>
    Execution.fair_ofActions hplay (hrest call)
  have hsettles : ∀ call, FnSettles e call := by
    intro call n _
    refine ⟨n + 6, Nat.le_add_right n 6, ?_⟩
    rintro ⟨promise, h⟩
    rw [hlast, hcalls] at h
    rcases call with _ | _ | call <;> cases h
  have hcalled : 1 < (e.state 2).calls.length := Nat.le_refl 2
  have hprogress := fifo_section.2 e rfl hfair 2 1 hcalled fun call _ => hsettles call
  exact ⟨e, fifo_section.1 _ (e.run e.meets_true 6), hprogress.1, hprogress.2 (hsettles 1)⟩

end Noddde.Adapters.SyncCommitMutex.Runs
