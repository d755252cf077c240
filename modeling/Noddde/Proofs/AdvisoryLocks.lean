import Mathlib.Logic.Relation
import Noddde.Adapters.AdvisoryLocker
/-!
# Waiting for advisory locks

A session whose connection waits for a lock executes no other statement.  If it holds no
lock itself when it begins to wait, nobody waits for it, and every wait ends.
-/

namespace Noddde.Adapters

def LockStatement.index : LockStatement → Nat
  | .acquire i | .release i => i

namespace LockSystem

variable {P K L : Type} [DecidableEq P] [DecidableEq K] [DecidableEq L]
  {lockOf : K → L} {s next : LockSystem P K L}

/-! ## The invariant -/

inductive SubmittedIn (i : Nat) : CommandPhase → LockStatement → Prop
  | acquire : SubmittedIn i .acquireDb (.acquire i)
  | release (believedHeld : Bool) : SubmittedIn i (.releaseDb believedHeld) (.release i)

theorem SubmittedIn.index_eq {i : Nat} {phase : CommandPhase} {statement : LockStatement}
    (h : SubmittedIn i phase statement) : statement.index = i := by
  cases h <;> rfl

def Submitted (commands : List (Command P K)) (p : P) (statement : LockStatement) : Prop :=
  ∃ i c, commands[i]? = some c ∧ c.process = p ∧ SubmittedIn i c.phase statement

def timesOf (grant : Option (Grant P)) (p : P) : Nat :=
  match grant with
  | some grant => if grant.session = p then grant.times else 0
  | none => 0

def Holds (lockOf : K → L) (p : P) (lock : L) (command : Command P K) : Bool :=
  decide (command.process = p) && decide (lockOf command.key = lock) && command.phase.holding

def heldBy (lockOf : K → L) (commands : List (Command P K)) (p : P) (lock : L) : Nat :=
  commands.countP (Holds lockOf p lock)

/-- A command whose statement is submitted waits for the connection of its process. -/
def Awaited (locker : Locker K L) (i : Nat) (phase : CommandPhase) : Prop :=
  ∀ statement, SubmittedIn i phase statement →
    statement ∈ locker.queue ∨ statement = .acquire i ∧ locker.waiting = some i

structure Inv (lockOf : K → L) (s : LockSystem P K L) : Prop where
  locks : ∀ p lock, timesOf (s.locks lock) p = heldBy lockOf s.commands p lock
  times : ∀ lock grant, s.locks lock = some grant → 1 ≤ grant.times
  queued : ∀ p, ∀ statement ∈ (s.lockers p).queue, Submitted s.commands p statement
  nodup : ∀ p, (s.lockers p).queue.Nodup
  waiting : ∀ p i, (s.lockers p).waiting = some i →
    Submitted s.commands p (.acquire i) ∧ .acquire i ∉ (s.lockers p).queue
  awaited : ∀ i c, s.commands[i]? = some c → Awaited (s.lockers c.process) i c.phase
  localLocks : ∀ p, ∀ key ∈ (s.lockers p).localLocks,
    ∃ (i : Nat) (c : Command P K), s.commands[i]? = some c ∧ c.process = p ∧ c.key = key ∧
      c.phase.active = true

omit [DecidableEq K] in
theorem inv_init : Inv lockOf ({} : LockSystem P K L) := by
  refine ⟨fun p lock => rfl, fun lock grant h => ?_, fun p statement h => ?_,
    fun p => List.nodup_nil, fun p i h => ?_, fun i c h => ?_, fun p key h => ?_⟩
  · cases h
  · cases h
  · cases h
  · cases h
  · cases h

/-! ## A command changes its phase -/

omit [DecidableEq P] [DecidableEq K] in
theorem submitted_unique {commands : List (Command P K)} {p : P} {statement : LockStatement}
    {i : Nat} {c : Command P K} (h : Submitted commands p statement)
    (hindex : statement.index = i) (hc : commands[i]? = some c) :
    c.process = p ∧ SubmittedIn i c.phase statement := by
  obtain ⟨j, d, hd, hprocess, hin⟩ := h
  obtain rfl : j = i := hin.index_eq.symm.trans hindex
  have heq : d = c := Option.some.inj (hd.symm.trans hc)
  subst heq
  exact ⟨hprocess, hin⟩

omit [DecidableEq P] [DecidableEq K] in
theorem submitted_set {commands : List (Command P K)} {p : P} {statement : LockStatement}
    {i : Nat} {c : Command P K} (h : Submitted commands p statement)
    (hindex : statement.index ≠ i) : Submitted (commands.set i c) p statement := by
  obtain ⟨j, d, hd, hprocess, hin⟩ := h
  have hij : i ≠ j := fun heq => hindex (hin.index_eq.trans heq.symm)
  refine ⟨j, d, ?_, hprocess, hin⟩
  rw [List.getElem?_set_ne hij]
  exact hd

omit [DecidableEq K] in
theorem heldBy_set {commands : List (Command P K)} {i : Nat} {c d : Command P K}
    (hc : commands[i]? = some c) (p : P) (lock : L) :
    heldBy lockOf (commands.set i d) p lock + (if Holds lockOf p lock c then 1 else 0) =
      heldBy lockOf commands p lock + (if Holds lockOf p lock d then 1 else 0) := by
  obtain ⟨hlt, hget⟩ := List.getElem?_eq_some_iff.mp hc
  have hcount : heldBy lockOf (commands.set i d) p lock =
      heldBy lockOf commands p lock - (if Holds lockOf p lock commands[i] then 1 else 0) +
        (if Holds lockOf p lock d then 1 else 0) := List.countP_set hlt
  have hle : (if Holds lockOf p lock commands[i] then 1 else 0) ≤
      heldBy lockOf commands p lock := List.boole_getElem_le_countP hlt
  rw [hget] at hcount hle
  omega

omit [DecidableEq K] in
/-- A command that does not begin or end to hold its lock. -/
theorem heldBy_same {commands : List (Command P K)} {i : Nat} {c : Command P K}
    {phase : CommandPhase} (hc : commands[i]? = some c)
    (hholding : phase.holding = c.phase.holding) (p : P) (lock : L) :
    heldBy lockOf (commands.set i { c with phase }) p lock = heldBy lockOf commands p lock := by
  have hset := @heldBy_set _ _ _ _ _ lockOf commands i c { c with phase } hc p lock
  have hsame : Holds lockOf p lock { c with phase } = Holds lockOf p lock c := by
    unfold Holds
    rw [hholding]
  rw [hsame] at hset
  omega

/-- What the move of a command into a phase does to the locker of its process. -/
structure Moves (s : LockSystem P K L) (i : Nat) (c : Command P K) (phase : CommandPhase)
    (locker : Locker K L) : Prop where
  queued : ∀ statement ∈ locker.queue, SubmittedIn i phase statement ∨
    statement ∈ (s.lockers c.process).queue ∧ statement.index ≠ i
  kept : ∀ statement ∈ (s.lockers c.process).queue, statement.index ≠ i →
    statement ∈ locker.queue
  nodup : locker.queue.Nodup
  waiting : ∀ j, locker.waiting = some j → .acquire j ∉ locker.queue ∧
    (SubmittedIn i phase (.acquire j) ∨ (s.lockers c.process).waiting = some j ∧ j ≠ i)
  stillWaiting : ∀ j ≠ i, (s.lockers c.process).waiting = some j → locker.waiting = some j
  awaited : Awaited locker i phase
  localLocks : ∀ key ∈ locker.localLocks,
    if key = c.key then phase.active = true else key ∈ (s.lockers c.process).localLocks

theorem inv_move {i : Nat} {c : Command P K} {phase : CommandPhase} {locker : Locker K L}
    (h : Inv lockOf s) (hc : s.commands[i]? = some c) (hmoves : s.Moves i c phase locker)
    (hcommands : next.commands = s.commands.set i { c with phase })
    (hlockers : next.lockers = Function.update s.lockers c.process locker)
    (hlocks : ∀ p lock, timesOf (next.locks lock) p = heldBy lockOf next.commands p lock)
    (htimes : ∀ lock grant, next.locks lock = some grant → 1 ≤ grant.times) :
    Inv lockOf next := by
  obtain ⟨hlt, -⟩ := List.getElem?_eq_some_iff.mp hc
  have hlocker : next.lockers c.process = locker := by
    rw [hlockers, Function.update_self]
  have hlocker' {p : P} (hne : p ≠ c.process) : next.lockers p = s.lockers p := by
    rw [hlockers, Function.update_of_ne hne]
  have hself : next.commands[i]? = some { c with phase } := by
    rw [hcommands]
    exact List.getElem?_set_self hlt
  have hother {j : Nat} (hne : j ≠ i) : next.commands[j]? = s.commands[j]? := by
    rw [hcommands]
    exact List.getElem?_set_ne fun heq => hne heq.symm
  have hsubmitted {statement : LockStatement} (hin : SubmittedIn i phase statement) :
      Submitted next.commands c.process statement := ⟨i, _, hself, rfl, hin⟩
  have hkept {p : P} {statement : LockStatement} (hold : Submitted s.commands p statement)
      (hindex : statement.index ≠ i) : Submitted next.commands p statement := by
    rw [hcommands]
    exact submitted_set hold hindex
  have helsewhere {p : P} (hne : p ≠ c.process) {statement : LockStatement}
      (hold : Submitted s.commands p statement) : Submitted next.commands p statement := by
    apply hkept hold
    intro hindex
    exact hne (submitted_unique hold hindex hc).1.symm
  refine ⟨hlocks, htimes, fun p statement hmem => ?_, fun p => ?_, fun p j hwaiting => ?_,
    fun j d hd => ?_, fun p key hmem => ?_⟩
  · by_cases hp : p = c.process
    · subst hp
      rw [hlocker] at hmem
      cases hmoves.queued statement hmem with
      | inl hin => exact hsubmitted hin
      | inr hold => exact hkept (h.queued _ statement hold.1) hold.2
    · rw [hlocker' hp] at hmem
      exact helsewhere hp (h.queued p statement hmem)
  · by_cases hp : p = c.process
    · rw [hp, hlocker]
      exact hmoves.nodup
    · rw [hlocker' hp]
      exact h.nodup p
  · by_cases hp : p = c.process
    · subst hp
      rw [hlocker] at hwaiting ⊢
      obtain ⟨hnot, hwhy⟩ := hmoves.waiting j hwaiting
      refine ⟨?_, hnot⟩
      cases hwhy with
      | inl hin => exact hsubmitted hin
      | inr hold => exact hkept (h.waiting _ j hold.1).1 hold.2
    · rw [hlocker' hp] at hwaiting ⊢
      obtain ⟨hin, hnot⟩ := h.waiting p j hwaiting
      exact ⟨helsewhere hp hin, hnot⟩
  · by_cases hj : j = i
    · subst hj
      rw [hself] at hd
      cases hd
      show Awaited (next.lockers c.process) j phase
      rw [hlocker]
      exact hmoves.awaited
    · rw [hother hj] at hd
      have hawaited := h.awaited j d hd
      by_cases hp : d.process = c.process
      · rw [hp, hlocker]
        rw [hp] at hawaited
        intro statement hin
        have hindex : statement.index ≠ i := fun hindex => hj (hin.index_eq.symm.trans hindex)
        cases hawaited statement hin with
        | inl hmem => exact .inl (hmoves.kept statement hmem hindex)
        | inr hwas => exact .inr ⟨hwas.1, hmoves.stillWaiting j hj hwas.2⟩
      · rw [hlocker' hp]
        exact hawaited
  · have hactive (hold : key ∈ (s.lockers p).localLocks)
        (hne : p = c.process → key ≠ c.key) :
        ∃ (j : Nat) (d : Command P K), next.commands[j]? = some d ∧ d.process = p ∧
          d.key = key ∧ d.phase.active = true := by
      obtain ⟨j, d, hd, hprocess, hkey, hactive⟩ := h.localLocks p key hold
      have hj : j ≠ i := by
        intro heq
        subst heq
        have hsame : d = c := Option.some.inj (hd.symm.trans hc)
        subst hsame
        exact hne hprocess.symm hkey.symm
      exact ⟨j, d, (hother hj).trans hd, hprocess, hkey, hactive⟩
    by_cases hp : p = c.process
    · rw [hp, hlocker] at hmem
      have hlocal := hmoves.localLocks key hmem
      split_ifs at hlocal with hkey
      · exact ⟨i, _, hself, hp.symm, hkey.symm, hlocal⟩
      · rw [← hp] at hlocal
        exact hactive hlocal fun _ => hkey
    · rw [hlocker' hp] at hmem
      exact hactive hmem fun heq => absurd heq hp

/-! ## The locks -/

omit [DecidableEq P] [DecidableEq K] in
theorem locks_lock_eq {p : P} {lock : L} :
    (s.lock p lock).locks = Function.update s.locks lock
      (some ⟨p, (s.locks lock).elim 0 Grant.times + 1⟩) := rfl

omit [DecidableEq K] in
theorem locks_lock {i : Nat} {c : Command P K} (h : Inv lockOf s)
    (hc : s.commands[i]? = some c) (hholding : c.phase.holding = false)
    (havailable : s.available c.process (lockOf c.key) = true) (p : P) (lock : L) :
    timesOf ((s.lock c.process (lockOf c.key)).locks lock) p =
      heldBy lockOf (s.commands.set i { c with phase := .working }) p lock := by
  have hset := @heldBy_set _ _ _ _ _ lockOf s.commands i c { c with phase := .working } hc p lock
  have hbefore : Holds lockOf p lock c = false := by
    unfold Holds
    rw [hholding, Bool.and_false]
  have hold := h.locks p lock
  rw [hbefore] at hset
  unfold available at havailable
  rw [locks_lock_eq]
  by_cases hlock : lock = lockOf c.key
  · subst hlock
    rw [Function.update_self]
    have hafter : Holds lockOf p (lockOf c.key) { c with phase := .working } =
        decide (c.process = p) := by
      simp [Holds, CommandPhase.holding]
    rw [hafter] at hset
    cases hgrant : s.locks (lockOf c.key) with
    | none =>
        rw [hgrant] at hold
        simp only [timesOf, Option.elim_none] at hold ⊢
        by_cases hp : c.process = p
        · simp only [hp, decide_true, if_true] at hset ⊢
          simp at hset
          omega
        · simp only [hp, decide_false, if_false] at hset ⊢
          simp at hset
          omega
    | some grant =>
        rw [hgrant] at hold havailable
        have hsession : grant.session = c.process := of_decide_eq_true havailable
        simp only [timesOf, hsession, Option.elim_some] at hold ⊢
        by_cases hp : c.process = p
        · simp only [hp, decide_true, if_true] at hset hold ⊢
          simp at hset
          omega
        · simp only [hp, decide_false, if_false] at hset hold ⊢
          simp at hset
          omega
  · rw [Function.update_of_ne hlock]
    have hafter : Holds lockOf p lock { c with phase := .working } = false := by
      have hne : ¬ lockOf c.key = lock := fun heq => hlock heq.symm
      simp [Holds, hne]
    rw [hafter] at hset
    rw [hold]
    simp at hset
    exact hset.symm

omit [DecidableEq P] [DecidableEq K] in
theorem times_lock {p : P} {lock : L}
    (h : ∀ other grant, s.locks other = some grant → 1 ≤ grant.times) :
    ∀ other grant, (s.lock p lock).locks other = some grant → 1 ≤ grant.times := by
  intro other grant hgrant
  rw [locks_lock_eq] at hgrant
  by_cases heq : other = lock
  · subst heq
    rw [Function.update_self] at hgrant
    cases hgrant
    exact Nat.succ_pos _
  · rw [Function.update_of_ne heq] at hgrant
    exact h other grant hgrant

omit [DecidableEq K] in
theorem granted_of_holding {i : Nat} {c : Command P K} (h : Inv lockOf s)
    (hc : s.commands[i]? = some c) (hholding : c.phase.holding = true) :
    ∃ grant, s.locks (lockOf c.key) = some grant ∧ grant.session = c.process := by
  have hpos : 0 < heldBy lockOf s.commands c.process (lockOf c.key) := by
    apply List.countP_pos_iff.mpr
    refine ⟨c, List.mem_of_getElem? hc, ?_⟩
    simp [Holds, hholding]
  rw [← h.locks] at hpos
  unfold timesOf at hpos
  cases hgrant : s.locks (lockOf c.key) with
  | none =>
      rw [hgrant] at hpos
      cases hpos
  | some grant =>
      rw [hgrant] at hpos
      simp only at hpos
      split_ifs at hpos with hsession
      · exact ⟨grant, rfl, hsession⟩
      · cases hpos

omit [DecidableEq K] in
/-- What is granted to a session is held by a command of it. -/
theorem holding_of_granted {p : P} {lock : L} {grant : Grant P} (h : Inv lockOf s)
    (hgrant : s.locks lock = some grant) (hp : grant.session = p) :
    ∃ c ∈ s.commands, c.process = p ∧ lockOf c.key = lock ∧ c.phase.holding = true := by
  have htimes := h.times lock grant hgrant
  have hcount := h.locks p lock
  rw [hgrant, timesOf] at hcount
  simp only [hp, if_true] at hcount
  have hpos : 0 < heldBy lockOf s.commands p lock := by omega
  obtain ⟨c, hmem, hholds⟩ := List.countP_pos_iff.mp hpos
  simp only [Holds, Bool.and_eq_true, decide_eq_true_eq] at hholds
  exact ⟨c, hmem, hholds.1.1, hholds.1.2, hholds.2⟩

omit [DecidableEq K] in
theorem locks_unlock_eq {i : Nat} {c : Command P K} (h : Inv lockOf s)
    (hc : s.commands[i]? = some c) (hholding : c.phase.holding = true) :
    ∃ grant, s.locks (lockOf c.key) = some grant ∧ grant.session = c.process ∧
      (s.unlock c.process (lockOf c.key)).locks =
        Function.update s.locks (lockOf c.key) grant.drop := by
  obtain ⟨grant, hgrant, hsession⟩ := granted_of_holding h hc hholding
  have hholds : s.holdsLock c.process (lockOf c.key) = true := by
    rw [holdsLock, hgrant]
    exact decide_eq_true hsession
  refine ⟨grant, hgrant, hsession, ?_⟩
  simp only [unlock, hholds, if_true, hgrant, Option.bind_some]

/-- How often a session has a lock after one release. -/
theorem timesOf_drop {grant : Grant P} (p : P) :
    timesOf grant.drop p = if grant.session = p then grant.times - 1 else 0 := by
  unfold Grant.drop
  split_ifs with hlast hsession hsession
  · show 0 = _
    omega
  · rfl
  · rw [timesOf, if_pos hsession]
  · rw [timesOf, if_neg hsession]

omit [DecidableEq K] in
theorem locks_unlock {i : Nat} {c : Command P K} {threw : Bool} (h : Inv lockOf s)
    (hc : s.commands[i]? = some c) (hholding : c.phase.holding = true) (p : P) (lock : L) :
    timesOf ((s.unlock c.process (lockOf c.key)).locks lock) p =
      heldBy lockOf (s.commands.set i { c with phase := .done threw }) p lock := by
  have hset := @heldBy_set _ _ _ _ _ lockOf s.commands i c { c with phase := .done threw } hc p
    lock
  have hafter : Holds lockOf p lock { c with phase := .done threw } = false := by
    simp [Holds, CommandPhase.holding]
  rw [hafter] at hset
  have hold := h.locks p lock
  obtain ⟨grant, hgrant, hsession, hlocks⟩ := locks_unlock_eq h hc hholding
  rw [hlocks]
  by_cases hlock : lock = lockOf c.key
  · subst hlock
    have hbefore : Holds lockOf p (lockOf c.key) c = decide (c.process = p) := by
      simp [Holds, hholding]
    rw [hbefore] at hset
    rw [hgrant, timesOf] at hold
    rw [Function.update_self, timesOf_drop]
    by_cases hp : c.process = p
    · rw [if_pos (hsession.trans hp)] at hold ⊢
      rw [decide_eq_true hp, if_pos rfl, if_neg Bool.false_ne_true] at hset
      omega
    · have hne : ¬ grant.session = p := fun heq => hp (hsession.symm.trans heq)
      rw [if_neg hne] at hold ⊢
      rw [decide_eq_false hp, if_neg Bool.false_ne_true] at hset
      omega
  · rw [Function.update_of_ne hlock, hold]
    have hbefore : Holds lockOf p lock c = false := by
      have hne : ¬ lockOf c.key = lock := fun heq => hlock heq.symm
      simp [Holds, hne]
    rw [hbefore] at hset
    simp at hset
    exact hset.symm

omit [DecidableEq K] in
theorem times_unlock {i : Nat} {c : Command P K} (h : Inv lockOf s)
    (hc : s.commands[i]? = some c) (hholding : c.phase.holding = true) :
    ∀ other grant, (s.unlock c.process (lockOf c.key)).locks other = some grant →
      1 ≤ grant.times := by
  intro other grant hgrant
  obtain ⟨held, hheld, -, hlocks⟩ := locks_unlock_eq h hc hholding
  rw [hlocks] at hgrant
  by_cases heq : other = lockOf c.key
  · subst heq
    rw [Function.update_self] at hgrant
    unfold Grant.drop at hgrant
    split_ifs at hgrant with hlast
    cases hgrant
    show 1 ≤ held.times - 1
    omega
  · rw [Function.update_of_ne heq] at hgrant
    exact h.times other grant hgrant

/-! ## The steps -/

omit [DecidableEq P] [DecidableEq K] in
theorem submittedIn_acquire {i : Nat} {phase : CommandPhase} {statement : LockStatement}
    (hphase : phase = .acquireDb) (h : SubmittedIn i phase statement) :
    statement = .acquire i := by
  subst hphase
  cases h
  rfl

omit [DecidableEq K] in
/-- A statement in the queue that the command has not submitted is another command's. -/
theorem index_ne {i : Nat} {c : Command P K} {statement : LockStatement} (h : Inv lockOf s)
    (hc : s.commands[i]? = some c) (hmem : statement ∈ (s.lockers c.process).queue)
    (hnot : ¬ SubmittedIn i c.phase statement) : statement.index ≠ i :=
  fun hindex => hnot (submitted_unique (h.queued _ statement hmem) hindex hc).2

omit [DecidableEq K] in
theorem waiting_submitted {i j : Nat} {c : Command P K} (h : Inv lockOf s)
    (hc : s.commands[i]? = some c) (hwaiting : (s.lockers c.process).waiting = some j)
    (hj : j = i) : SubmittedIn i c.phase (.acquire i) := by
  subst hj
  exact (submitted_unique (h.waiting _ j hwaiting).1 rfl hc).2

theorem inv_enter {i : Nat} {c : Command P K} (h : Inv lockOf s) (hc : s.commands[i]? = some c)
    (henter : s.enter i c = some next) : Inv lockOf next := by
  unfold enter at henter
  split_ifs at henter with hguard
  obtain ⟨hphase, hfree⟩ := hguard
  cases henter
  have hnot (statement : LockStatement) : ¬ SubmittedIn i c.phase statement := by
    rw [hphase]
    intro hin
    cases hin
  have hnew : LockStatement.acquire i ∉ (s.lockers c.process).queue :=
    fun hmem => index_ne h hc hmem (hnot _) rfl
  have hmoves : s.Moves i c .acquireDb
      { s.lockers c.process with
        localLocks := c.key :: (s.lockers c.process).localLocks
        queue := (s.lockers c.process).queue ++ [.acquire i] } := by
    refine ⟨fun statement hmem => ?_, fun statement hmem _ => List.mem_append_left _ hmem, ?_,
      fun j hwaiting => ⟨?_, .inr ⟨hwaiting, ?_⟩⟩, fun j _ hwaiting => hwaiting,
      fun statement hin => ?_, fun key hmem => ?_⟩
    · cases List.mem_append.mp hmem with
      | inl hold => exact .inr ⟨hold, index_ne h hc hold (hnot _)⟩
      | inr hlast =>
          rw [List.mem_singleton.mp hlast]
          exact .inl .acquire
    · have hcons := List.nodup_cons.mpr ⟨hnew, h.nodup c.process⟩
      exact (List.perm_append_singleton _ _).nodup_iff.mpr hcons
    · intro hmem
      cases List.mem_append.mp hmem with
      | inl hold => exact (h.waiting _ j hwaiting).2 hold
      | inr hlast =>
          have heq := List.mem_singleton.mp hlast
          cases heq
          exact hnot _ (waiting_submitted h hc hwaiting rfl)
    · exact fun heq => hnot _ (waiting_submitted h hc hwaiting heq)
    · rw [submittedIn_acquire rfl hin]
      exact .inl (List.mem_append_right _ (List.mem_singleton_self _))
    · split_ifs with hkey
      · rfl
      · cases List.mem_cons.mp hmem with
        | inl heq => exact absurd heq hkey
        | inr hold => exact hold
  have hsame := @heldBy_same _ _ _ _ _ lockOf s.commands i c .acquireDb hc (by rw [hphase]; rfl)
  exact inv_move h hc hmoves rfl rfl (fun p lock => (h.locks p lock).trans (hsame p lock).symm)
    h.times

theorem inv_finish {i : Nat} {c : Command P K} (h : Inv lockOf s)
    (hc : s.commands[i]? = some c) (hfinish : s.finish lockOf i c = some next) :
    Inv lockOf next := by
  unfold finish at hfinish
  split_ifs at hfinish with hphase
  cases hfinish
  have hnot (statement : LockStatement) : ¬ SubmittedIn i c.phase statement := by
    rw [hphase]
    intro hin
    cases hin
  have hnew : LockStatement.release i ∉ (s.lockers c.process).queue :=
    fun hmem => index_ne h hc hmem (hnot _) rfl
  have hmoves (believedHeld : Bool) : s.Moves i c (.releaseDb believedHeld)
      { s.lockers c.process with
        queue := (s.lockers c.process).queue ++ [.release i] } := by
    refine ⟨fun statement hmem => ?_, fun statement hmem _ => List.mem_append_left _ hmem, ?_,
      fun j hwaiting => ⟨?_, .inr ⟨hwaiting, ?_⟩⟩, fun j _ hwaiting => hwaiting,
      fun statement hin => ?_, fun key hmem => ?_⟩
    · cases List.mem_append.mp hmem with
      | inl hold => exact .inr ⟨hold, index_ne h hc hold (hnot _)⟩
      | inr hlast =>
          rw [List.mem_singleton.mp hlast]
          exact .inl (.release _)
    · have hcons := List.nodup_cons.mpr ⟨hnew, h.nodup c.process⟩
      exact (List.perm_append_singleton _ _).nodup_iff.mpr hcons
    · intro hmem
      cases List.mem_append.mp hmem with
      | inl hold => exact (h.waiting _ j hwaiting).2 hold
      | inr hlast => cases List.mem_singleton.mp hlast
    · exact fun heq => hnot _ (waiting_submitted h hc hwaiting heq)
    · cases hin
      exact .inl (List.mem_append_right _ (List.mem_singleton_self _))
    · split_ifs with hkey
      · rfl
      · exact hmem
  have hsame (believedHeld : Bool) :=
    @heldBy_same _ _ _ _ _ lockOf s.commands i c (.releaseDb believedHeld) hc
      (by rw [hphase]; rfl)
  exact inv_move h hc (hmoves _) rfl rfl
    (fun p lock => (h.locks p lock).trans (hsame _ p lock).symm) h.times

theorem moves_rest {i : Nat} {c : Command P K} {phase : CommandPhase} {locker : Locker K L}
    {statement : LockStatement} {rest : List LockStatement} (h : Inv lockOf s)
    (hc : s.commands[i]? = some c)
    (hqueue : (s.lockers c.process).queue = statement :: rest)
    (hidle : (s.lockers c.process).waiting = none)
    (hin : ∀ other, SubmittedIn i c.phase other → other = statement)
    (hnone : ∀ other, ¬ SubmittedIn i phase other) (hrest : locker.queue = rest)
    (hwaiting : locker.waiting = none)
    (hindex : statement.index = i)
    (hlocal : ∀ key ∈ locker.localLocks,
      if key = c.key then phase.active = true else key ∈ (s.lockers c.process).localLocks) :
    s.Moves i c phase locker := by
  have hnodup := h.nodup c.process
  rw [hqueue] at hnodup
  obtain ⟨hnotin, hnodup⟩ := List.nodup_cons.mp hnodup
  refine ⟨fun other hmem => .inr ?_, fun other hmem hother => ?_, ?_, fun j hj => ?_,
    fun j _ hj => ?_, fun other hother => absurd hother (hnone other), hlocal⟩
  · rw [hrest] at hmem
    have hold : other ∈ (s.lockers c.process).queue := by
      rw [hqueue]
      exact List.mem_cons_of_mem _ hmem
    refine ⟨hold, index_ne h hc hold fun hother => ?_⟩
    rw [hin other hother] at hmem
    exact hnotin hmem
  · rw [hqueue] at hmem
    rw [hrest]
    cases List.mem_cons.mp hmem with
    | inl heq =>
        rw [heq] at hother
        exact absurd hindex hother
    | inr hmem => exact hmem
  · rw [hrest]
    exact hnodup
  · rw [hwaiting] at hj
    cases hj
  · rw [hidle] at hj
    cases hj

theorem inv_acquired {i : Nat} {c : Command P K} {rest : List LockStatement}
    (h : Inv lockOf s) (hc : s.commands[i]? = some c) (hphase : c.phase = .acquireDb)
    (hqueue : (s.lockers c.process).queue = .acquire i :: rest)
    (hidle : (s.lockers c.process).waiting = none)
    (havailable : s.available c.process (lockOf c.key) = true) :
    Inv lockOf ((s.setLocker c.process { s.lockers c.process with queue := rest }).acquired
      lockOf i c) := by
  have hmoves : s.Moves i c .working
      { s.lockers c.process with
        queue := rest
        waiting := none
        held := (s.lockers c.process).held.insert (lockOf c.key) } := by
    apply moves_rest h hc hqueue hidle
    · exact fun other hother => submittedIn_acquire hphase hother
    · intro other hother
      cases hother
    · rfl
    · rfl
    · rfl
    · intro key hmem
      split_ifs
      · rfl
      · exact hmem
  apply inv_move h hc hmoves rfl
  · show Function.update (Function.update s.lockers c.process _) c.process _ = _
    rw [Function.update_idem]
    simp only [setLocker, Function.update_self]
  · intro p lock
    exact locks_lock h hc (by rw [hphase]; rfl) havailable p lock
  · exact times_lock h.times

theorem inv_granted {i : Nat} {c : Command P K} (h : Inv lockOf s)
    (hc : s.commands[i]? = some c) (hphase : c.phase = .acquireDb)
    (hwaiting : (s.lockers c.process).waiting = some i)
    (havailable : s.available c.process (lockOf c.key) = true) :
    Inv lockOf (s.acquired lockOf i c) := by
  have hnotin := (h.waiting _ i hwaiting).2
  have hmoves : s.Moves i c .working
      { s.lockers c.process with
        waiting := none
        held := (s.lockers c.process).held.insert (lockOf c.key) } := by
    refine ⟨fun other hmem => .inr ⟨hmem, index_ne h hc hmem fun hother => ?_⟩,
      fun other hmem _ => hmem, h.nodup c.process, fun j hj => ?_, fun j hne hj => ?_,
      fun other hother => ?_, fun key hmem => ?_⟩
    · rw [submittedIn_acquire hphase hother] at hmem
      exact hnotin hmem
    · cases hj
    · rw [hwaiting] at hj
      exact absurd (Option.some.inj hj).symm hne
    · cases hother
    · split_ifs
      · rfl
      · exact hmem
  exact inv_move h hc hmoves rfl rfl
    (fun p lock => locks_lock h hc (by rw [hphase]; rfl) havailable p lock) (times_lock h.times)

/-- The connection takes up an acquire statement whose lock another session has. -/
theorem inv_waits {i : Nat} {c : Command P K} {rest : List LockStatement} (h : Inv lockOf s)
    (hc : s.commands[i]? = some c) (hphase : c.phase = .acquireDb)
    (hqueue : (s.lockers c.process).queue = .acquire i :: rest)
    (hidle : (s.lockers c.process).waiting = none)
    (hlockers : next.lockers = Function.update s.lockers c.process
      { s.lockers c.process with queue := rest, waiting := some i })
    (hcommands : next.commands = s.commands) (hlocks : next.locks = s.locks) :
    Inv lockOf next := by
  obtain ⟨hlt, hget⟩ := List.getElem?_eq_some_iff.mp hc
  have hset : s.commands.set i { c with phase := c.phase } = s.commands := by
    have hsame : s.commands.set i s.commands[i] = s.commands := List.set_getElem_self hlt
    rw [hget] at hsame
    exact hsame
  have hnodup := h.nodup c.process
  rw [hqueue] at hnodup
  obtain ⟨hnotin, hnodup⟩ := List.nodup_cons.mp hnodup
  have hmoves : s.Moves i c c.phase
      { s.lockers c.process with queue := rest, waiting := some i } := by
    refine ⟨fun other hmem => .inr ?_, fun other hmem hother => ?_, hnodup, fun j hj => ?_,
      fun j _ hj => ?_, fun other hother => ?_, fun key hmem => ?_⟩
    · have hold : other ∈ (s.lockers c.process).queue := by
        rw [hqueue]
        exact List.mem_cons_of_mem _ hmem
      refine ⟨hold, index_ne h hc hold fun hother => ?_⟩
      rw [submittedIn_acquire hphase hother] at hmem
      exact hnotin hmem
    · rw [hqueue] at hmem
      cases List.mem_cons.mp hmem with
      | inl heq =>
          rw [heq] at hother
          exact absurd rfl hother
      | inr hmem => exact hmem
    · cases hj
      refine ⟨hnotin, .inl ?_⟩
      rw [hphase]
      exact .acquire
    · rw [hidle] at hj
      cases hj
    · exact .inr ⟨submittedIn_acquire hphase hother, rfl⟩
    · split_ifs
      · rw [hphase]
        rfl
      · exact hmem
  apply inv_move h hc hmoves (hcommands.trans hset.symm) hlockers
  · intro p lock
    rw [hlocks, hcommands]
    exact h.locks p lock
  · rw [hlocks]
    exact h.times

theorem inv_released {i : Nat} {c : Command P K} {rest : List LockStatement}
    {believedHeld : Bool} (h : Inv lockOf s) (hc : s.commands[i]? = some c)
    (hphase : c.phase = .releaseDb believedHeld)
    (hqueue : (s.lockers c.process).queue = .release i :: rest)
    (hidle : (s.lockers c.process).waiting = none) :
    Inv lockOf ((s.setLocker c.process { s.lockers c.process with queue := rest }).released
      lockOf i c believedHeld) := by
  have hholding : c.phase.holding = true := by
    rw [hphase]
    rfl
  have hmoves (threw : Bool) (held : List L) : s.Moves i c (.done threw)
      { s.lockers c.process with
        queue := rest
        held
        localLocks := (s.lockers c.process).localLocks.filter fun key => key ≠ c.key } := by
    apply moves_rest h hc hqueue hidle
    · intro other hother
      rw [hphase] at hother
      cases hother
      rfl
    · intro other hother
      cases hother
    · rfl
    · exact hidle
    · rfl
    · intro key hmem
      obtain ⟨hold, hne⟩ := List.mem_filter.mp hmem
      have hne' : key ≠ c.key := of_decide_eq_true hne
      rw [if_neg hne']
      exact hold
  apply inv_move h hc (hmoves _ _) rfl
  · show Function.update (Function.update s.lockers c.process _) c.process _ = _
    rw [Function.update_idem]
    simp only [setLocker, Function.update_self]
    rfl
  · intro p lock
    exact locks_unlock h hc hholding p lock
  · exact fun lock grant hgrant => times_unlock h hc hholding lock grant hgrant

omit [DecidableEq K] in
theorem inv_call {p : P} {key : K} (h : Inv lockOf s) :
    Inv lockOf { s with commands := s.commands ++ [⟨p, key, .acquireLocal⟩] } := by
  have hold {i : Nat} {c : Command P K} (hc : s.commands[i]? = some c) :
      (s.commands ++ [⟨p, key, .acquireLocal⟩])[i]? = some c := by
    obtain ⟨hlt, -⟩ := List.getElem?_eq_some_iff.mp hc
    rw [List.getElem?_append_left hlt]
    exact hc
  have hsubmitted {q : P} {statement : LockStatement}
      (hin : Submitted s.commands q statement) :
      Submitted (s.commands ++ [⟨p, key, .acquireLocal⟩]) q statement := by
    obtain ⟨i, c, hc, hprocess, hin⟩ := hin
    exact ⟨i, c, hold hc, hprocess, hin⟩
  refine ⟨fun q lock => ?_, h.times, fun q statement hmem => hsubmitted (h.queued q _ hmem),
    h.nodup, fun q i hwaiting => ?_, fun i c hc => ?_, fun q other hmem => ?_⟩
  · have hnone : heldBy lockOf [(⟨p, key, .acquireLocal⟩ : Command P K)] q lock = 0 := by
      simp [heldBy, Holds, CommandPhase.holding]
    have happend : heldBy lockOf (s.commands ++ [⟨p, key, .acquireLocal⟩]) q lock =
        heldBy lockOf s.commands q lock + heldBy lockOf [⟨p, key, .acquireLocal⟩] q lock :=
      List.countP_append
    rw [hnone] at happend
    exact (h.locks q lock).trans happend.symm
  · exact ⟨hsubmitted (h.waiting q i hwaiting).1, (h.waiting q i hwaiting).2⟩
  · by_cases hlt : i < s.commands.length
    · have hwas : s.commands[i]? = some c := by
        have hc' : (s.commands ++ [⟨p, key, .acquireLocal⟩])[i]? = some c := hc
        rw [List.getElem?_append_left hlt] at hc'
        exact hc'
      exact h.awaited i c hwas
    · have hmem := List.mem_of_getElem? hc
      have hc' : (s.commands ++ [⟨p, key, .acquireLocal⟩])[i]? = some c := hc
      rw [List.getElem?_append_right (Nat.le_of_not_lt hlt)] at hc'
      have hlast := List.mem_singleton.mp (List.mem_of_getElem? hc')
      subst hlast
      intro statement hin
      cases hin
  · obtain ⟨i, c, hc, hprocess, hkey, hactive⟩ := h.localLocks q other hmem
    exact ⟨i, c, hold hc, hprocess, hkey, hactive⟩

/-- An acquire statement reaches the database while another session has its lock only at a
time when no command of its process holds one. -/
def WaitsFree (lockOf : K → L) (s : LockSystem P K L) : Action P K → Prop
  | .execute p => ∀ i rest, (s.lockers p).queue = .acquire i :: rest →
      ∀ c, s.commands[i]? = some c → s.available p (lockOf c.key) = false →
        ∀ d ∈ s.commands, d.process = p → d.phase.holding = false
  | _ => True

/-- While a connection waits for a lock no command of its process holds one. -/
def Free (s : LockSystem P K L) : Prop :=
  ∀ p i, (s.lockers p).waiting = some i →
    ∀ c ∈ s.commands, c.process = p → c.phase.holding = false

omit [DecidableEq K] [DecidableEq L] in
theorem free_move {i : Nat} {c : Command P K} {phase : CommandPhase} {locker : Locker K L}
    (h : s.Free) (hcommands : next.commands = s.commands.set i { c with phase })
    (hlockers : next.lockers = Function.update s.lockers c.process locker)
    (hlocker : ∀ j, locker.waiting = some j →
      phase.holding = false ∧ ∀ d ∈ s.commands, d.process = c.process → d.phase.holding = false) :
    next.Free := by
  intro p j hwaiting d hmem hprocess
  rw [hcommands] at hmem
  rw [hlockers] at hwaiting
  by_cases hp : p = c.process
  · rw [hp, Function.update_self] at hwaiting
    obtain ⟨hphase, hothers⟩ := hlocker j hwaiting
    cases List.mem_or_eq_of_mem_set hmem with
    | inl hold => exact hothers d hold (hprocess.trans hp)
    | inr heq =>
        rw [heq]
        exact hphase
  · rw [Function.update_of_ne hp] at hwaiting
    cases List.mem_or_eq_of_mem_set hmem with
    | inl hold => exact h p j hwaiting d hold hprocess
    | inr heq =>
        rw [heq] at hprocess
        exact absurd hprocess.symm hp

omit [DecidableEq L] in
theorem free_enter {i : Nat} {c : Command P K} (h : s.Free)
    (henter : s.enter i c = some next) : next.Free := by
  unfold enter at henter
  split_ifs at henter
  cases henter
  apply free_move h rfl rfl
  intro j hwaiting
  exact ⟨rfl, h c.process j hwaiting⟩

omit [DecidableEq K] in
theorem free_finish {i : Nat} {c : Command P K} (h : s.Free) (hc : s.commands[i]? = some c)
    (hfinish : s.finish lockOf i c = some next) : next.Free := by
  unfold finish at hfinish
  split_ifs at hfinish with hphase
  cases hfinish
  apply free_move h rfl rfl
  intro j hwaiting
  -- a working command holds its lock, so that the connection does not wait
  have hholding := h c.process j hwaiting c (List.mem_of_getElem? hc) rfl
  rw [hphase] at hholding
  cases hholding

theorem inv_execute {p : P} {rest : List LockStatement} {statement : LockStatement}
    (h : Inv lockOf s ∧ s.Free) (hidle : (s.lockers p).waiting = none)
    (hqueue : (s.lockers p).queue = statement :: rest) (hfree : WaitsFree lockOf s (.execute p))
    (hexecute : s.execute lockOf p rest statement = some next) :
    Inv lockOf next ∧ next.Free := by
  obtain ⟨hinv, hbefore⟩ := h
  have hsubmitted := hinv.queued p statement (by rw [hqueue]; exact List.mem_cons_self)
  cases statement with
  | acquire i =>
      obtain ⟨c, hc, rfl⟩ := Option.map_eq_some_iff.mp hexecute
      obtain ⟨hprocess, hin⟩ := submitted_unique hsubmitted rfl hc
      have hphase : c.phase = .acquireDb := by
        generalize c.phase = phase at hin
        cases hin
        rfl
      subst hprocess
      show Inv lockOf (if s.available c.process (lockOf c.key) then _ else _) ∧
        Free (if s.available c.process (lockOf c.key) then _ else _)
      split_ifs with havailable
      · refine ⟨inv_acquired hinv hc hphase hqueue hidle havailable, ?_⟩
        have hlockers : ((s.setLocker c.process { s.lockers c.process with queue := rest }).acquired
            lockOf i c).lockers = Function.update s.lockers c.process
              { s.lockers c.process with
                queue := rest
                waiting := none
                held := (s.lockers c.process).held.insert (lockOf c.key) } := by
          show Function.update (Function.update s.lockers c.process _) c.process _ = _
          rw [Function.update_idem]
          simp only [setLocker, Function.update_self]
        apply free_move hbefore rfl hlockers
        intro j hj
        cases hj
      · have hlockers : ((s.setLocker c.process { s.lockers c.process with queue := rest }).setLocker
            c.process { (s.setLocker c.process { s.lockers c.process with
              queue := rest }).lockers c.process with waiting := some i }).lockers =
            Function.update s.lockers c.process
              { s.lockers c.process with queue := rest, waiting := some i } := by
          show Function.update (Function.update s.lockers c.process _) c.process _ = _
          rw [Function.update_idem]
          simp only [setLocker, Function.update_self]
        refine ⟨inv_waits hinv hc hphase hqueue hidle hlockers rfl rfl, ?_⟩
        intro q j hwaiting d hmem hd
        rw [hlockers] at hwaiting
        by_cases hq : q = c.process
        · have hnot : s.available c.process (lockOf c.key) = false :=
            Bool.eq_false_iff.mpr havailable
          exact hfree i rest hqueue c hc hnot d hmem (hd.trans hq)
        · rw [Function.update_of_ne hq] at hwaiting
          exact hbefore q j hwaiting d hmem hd
  | release i =>
      obtain ⟨c, hc, hreleased⟩ := Option.bind_eq_some_iff.mp hexecute
      obtain ⟨hprocess, hin⟩ := submitted_unique hsubmitted rfl hc
      obtain ⟨believedHeld, hphase⟩ : ∃ believedHeld, c.phase = .releaseDb believedHeld := by
        generalize c.phase = phase at hin
        cases hin with
        | release believedHeld => exact ⟨believedHeld, rfl⟩
      subst hprocess
      rw [hphase] at hreleased
      cases hreleased
      refine ⟨inv_released hinv hc hphase hqueue hidle, ?_⟩
      have hlockers : ((s.setLocker c.process { s.lockers c.process with queue := rest }).released
          lockOf i c believedHeld).lockers = Function.update s.lockers c.process
            (((s.setLocker c.process { s.lockers c.process with queue := rest }).released
              lockOf i c believedHeld).lockers c.process) := by
        show Function.update (Function.update s.lockers c.process _) c.process _ = _
        rw [Function.update_idem]
        congr 1
        show _ = Function.update (Function.update s.lockers c.process _) c.process _ c.process
        rw [Function.update_self]
      apply free_move hbefore rfl hlockers
      intro j hj
      have hnone : (((s.setLocker c.process { s.lockers c.process with queue := rest }).released
          lockOf i c believedHeld).lockers c.process).waiting = none := by
        show (Function.update (Function.update s.lockers c.process _) c.process _
          c.process).waiting = none
        rw [Function.update_self]
        simp only [setLocker, Function.update_self]
        exact hidle
      rw [hnone] at hj
      cases hj

theorem inv_grant {p : P} {i : Nat} {c : Command P K} (h : Inv lockOf s ∧ s.Free)
    (hwaiting : (s.lockers p).waiting = some i) (hc : s.commands[i]? = some c)
    (havailable : s.available p (lockOf c.key) = true) :
    Inv lockOf (s.acquired lockOf i c) ∧ (s.acquired lockOf i c).Free := by
  obtain ⟨hinv, hbefore⟩ := h
  obtain ⟨hprocess, hin⟩ := submitted_unique (hinv.waiting p i hwaiting).1 rfl hc
  have hphase : c.phase = .acquireDb := by
    generalize c.phase = phase at hin
    cases hin
    rfl
  subst hprocess
  refine ⟨inv_granted hinv hc hphase hwaiting havailable, ?_⟩
  apply free_move hbefore rfl rfl
  intro j hj
  cases hj

theorem inv_step {action : Action P K} (h : Inv lockOf s ∧ s.Free)
    (hfree : WaitsFree lockOf s action) (hstep : s.step lockOf action = some next) :
    Inv lockOf next ∧ next.Free := by
  cases action with
  | call p key =>
      cases hstep
      refine ⟨inv_call h.1, fun q i hwaiting c hmem hprocess => ?_⟩
      cases List.mem_append.mp hmem with
      | inl hold => exact h.2 q i hwaiting c hold hprocess
      | inr hnew =>
          rw [List.mem_singleton.mp hnew]
          rfl
  | enter i =>
      obtain ⟨c, hc, henter⟩ := Option.bind_eq_some_iff.mp hstep
      exact ⟨inv_enter h.1 hc henter, free_enter h.2 henter⟩
  | execute p =>
      simp only [step] at hstep
      split at hstep
      · rename_i statement rest hidle hqueue
        exact inv_execute h hidle hqueue hfree hstep
      · cases hstep
  | grant p =>
      obtain ⟨i, hwaiting, hstep⟩ := Option.bind_eq_some_iff.mp hstep
      obtain ⟨c, hc, hstep⟩ := Option.bind_eq_some_iff.mp hstep
      split_ifs at hstep with havailable
      cases hstep
      exact inv_grant h hwaiting hc havailable
  | finish i =>
      obtain ⟨c, hc, hfinish⟩ := Option.bind_eq_some_iff.mp hstep
      exact ⟨inv_finish h.1 hc hfinish, free_finish h.2 hc hfinish⟩

/-! ## No deadlock -/

def CanMove (lockOf : K → L) (s : LockSystem P K L) : Prop :=
  ∃ action : Action P K, (∀ p key, action ≠ .call p key) ∧
    (s.step lockOf action).isSome = true

def WaitsFor (lockOf : K → L) (s : LockSystem P K L) (p q : P) : Prop :=
  ∃ i c grant, (s.lockers p).waiting = some i ∧ s.commands[i]? = some c ∧
    s.locks (lockOf c.key) = some grant ∧ grant.session = q ∧ q ≠ p

/-- No state is stuck, no sessions wait for each other, and no release is behind an acquire
statement of another key that waits. -/
structure DeadlockFree (lockOf : K → L) (s : LockSystem P K L) : Prop where
  moves : (∀ c ∈ s.commands, c.phase.ended = true) ∨ CanMove lockOf s
  acyclic : ∀ p, ¬ Relation.TransGen (WaitsFor lockOf s) p p
  unblocked : ∀ p i c, (s.lockers p).waiting = some i → s.commands[i]? = some c →
    ∀ j d, .release j ∈ (s.lockers p).queue → s.commands[j]? = some d → d.key = c.key

theorem moves_of_idle {p : P} {statement : LockStatement} (h : Inv lockOf s)
    (hidle : (s.lockers p).waiting = none) (hmem : statement ∈ (s.lockers p).queue) :
    CanMove lockOf s := by
  refine ⟨.execute p, fun q key heq => (by cases heq), ?_⟩
  cases hqueue : (s.lockers p).queue with
  | nil =>
      rw [hqueue] at hmem
      cases hmem
  | cons first rest =>
      have hstep : s.step lockOf (.execute p) = s.execute lockOf p rest first := by
        simp only [step, hidle, hqueue]
      rw [hstep]
      obtain ⟨i, c, hc, -, hin⟩ := h.queued p first (by rw [hqueue]; exact List.mem_cons_self)
      generalize hphase : c.phase = phase at hin
      cases hin with
      | acquire => simp [execute, hc]
      | release believedHeld => simp [execute, hc, hphase]

theorem moves_of_holding {i : Nat} {c : Command P K} (h : Inv lockOf s ∧ s.Free)
    (hc : s.commands[i]? = some c) (hholding : c.phase.holding = true) : CanMove lockOf s := by
  cases hphase : c.phase with
  | working =>
      refine ⟨.finish i, fun q key heq => (by cases heq), ?_⟩
      have hstep : s.step lockOf (.finish i) = s.finish lockOf i c := by
        simp only [step, hc, Option.bind_some]
      rw [hstep, finish, if_pos hphase]
      rfl
  | releaseDb believedHeld =>
      have hawaited := h.1.awaited i c hc
      rw [hphase] at hawaited
      cases hawaited _ (.release believedHeld) with
      | inl hmem =>
          cases hwaiting : (s.lockers c.process).waiting with
          | none => exact moves_of_idle h.1 hwaiting hmem
          | some j =>
              have hnot := h.2 c.process j hwaiting c (List.mem_of_getElem? hc) rfl
              rw [hholding] at hnot
              cases hnot
      | inr hacquire => cases hacquire.1
  | acquireLocal =>
      rw [hphase] at hholding
      cases hholding
  | acquireDb =>
      rw [hphase] at hholding
      cases hholding
  | done threw =>
      rw [hphase] at hholding
      cases hholding

/-- A connection that waits gets its lock, or another session can give it back. -/
theorem moves_of_waiting {p : P} {i : Nat} (h : Inv lockOf s ∧ s.Free)
    (hwaiting : (s.lockers p).waiting = some i) : CanMove lockOf s := by
  obtain ⟨j, c, hc, -, hin⟩ := (h.1.waiting p i hwaiting).1
  have hij : j = i := by
    generalize c.phase = phase at hin
    cases hin
    rfl
  subst hij
  cases havailable : s.available p (lockOf c.key) with
  | true =>
      refine ⟨.grant p, fun q key heq => (by cases heq), ?_⟩
      simp [step, hwaiting, hc, havailable]
  | false =>
      unfold available at havailable
      cases hgrant : s.locks (lockOf c.key) with
      | none =>
          rw [hgrant] at havailable
          cases havailable
      | some grant =>
          obtain ⟨d, hmem, -, -, hholding⟩ := holding_of_granted h.1 hgrant rfl
          obtain ⟨k, hk⟩ := List.mem_iff_getElem?.mp hmem
          exact moves_of_holding h hk hholding

theorem moves_of_active {i : Nat} {c : Command P K} (h : Inv lockOf s ∧ s.Free)
    (hc : s.commands[i]? = some c) (hactive : c.phase.active = true) : CanMove lockOf s := by
  cases hholding : c.phase.holding with
  | true => exact moves_of_holding h hc hholding
  | false =>
      have hphase : c.phase = .acquireDb := by
        generalize c.phase = phase at hactive hholding
        cases phase with
        | acquireDb => rfl
        | acquireLocal => cases hactive
        | done threw => cases hactive
        | working => cases hholding
        | releaseDb believedHeld => cases hholding
      cases hwaiting : (s.lockers c.process).waiting with
      | some j => exact moves_of_waiting h hwaiting
      | none =>
          have hawaited := h.1.awaited i c hc
          rw [hphase] at hawaited
          cases hawaited _ .acquire with
          | inl hmem => exact moves_of_idle h.1 hwaiting hmem
          | inr hwas =>
              rw [hwaiting] at hwas
              cases hwas.2

theorem moves_of_inv (h : Inv lockOf s ∧ s.Free) :
    (∀ c ∈ s.commands, c.phase.ended = true) ∨ CanMove lockOf s := by
  by_cases hended : ∀ c ∈ s.commands, c.phase.ended = true
  · exact .inl hended
  · right
    simp only [not_forall] at hended
    obtain ⟨c, hmem, hnot⟩ := hended
    obtain ⟨i, hc⟩ := List.mem_iff_getElem?.mp hmem
    by_cases hactive : c.phase.active = true
    · exact moves_of_active h hc hactive
    · have hphase : c.phase = .acquireLocal := by
        generalize c.phase = phase at hnot hactive
        cases phase with
        | acquireLocal => rfl
        | done threw => exact absurd rfl hnot
        | acquireDb => exact absurd rfl hactive
        | working => exact absurd rfl hactive
        | releaseDb believedHeld => exact absurd rfl hactive
      by_cases hlocal : c.key ∈ (s.lockers c.process).localLocks
      · obtain ⟨j, d, hd, -, -, hactive⟩ := h.1.localLocks _ _ hlocal
        exact moves_of_active h hd hactive
      · refine ⟨.enter i, fun q key heq => (by cases heq), ?_⟩
        have hstep : s.step lockOf (.enter i) = s.enter i c := by
          simp only [step, hc, Option.bind_some]
        rw [hstep, enter, if_pos ⟨hphase, hlocal⟩]
        rfl

omit [DecidableEq K] in
/-- A session that waits holds no lock, so that none waits for it. -/
theorem not_waitsFor_waiting {p q : P} {i : Nat} (h : Inv lockOf s ∧ s.Free)
    (hwaiting : (s.lockers q).waiting = some i) : ¬ WaitsFor lockOf s p q := by
  intro hwaits
  obtain ⟨j, c, grant, -, -, hgrant, hsession, -⟩ := hwaits
  obtain ⟨d, hmem, hprocess, -, hholding⟩ := holding_of_granted h.1 hgrant hsession
  rw [h.2 q i hwaiting d hmem hprocess] at hholding
  cases hholding

omit [DecidableEq K] in
theorem acyclic_of_inv (h : Inv lockOf s ∧ s.Free) (p : P) :
    ¬ Relation.TransGen (WaitsFor lockOf s) p p := by
  intro hcycle
  obtain ⟨q, hfirst, -⟩ := Relation.TransGen.head'_iff.mp hcycle
  obtain ⟨r, -, hlast⟩ := Relation.TransGen.tail'_iff.mp hcycle
  obtain ⟨i, -, -, hwaiting, -⟩ := hfirst
  exact not_waitsFor_waiting h hwaiting hlast

omit [DecidableEq K] in
theorem unblocked_of_inv {p : P} {i j : Nat} (h : Inv lockOf s ∧ s.Free)
    (hwaiting : (s.lockers p).waiting = some i) : .release j ∉ (s.lockers p).queue := by
  intro hmem
  obtain ⟨k, d, hd, hprocess, hin⟩ := h.1.queued p _ hmem
  have hholding : d.phase.holding = true := by
    generalize d.phase = phase at hin
    cases hin
    rfl
  rw [h.2 p i hwaiting d (List.mem_of_getElem? hd) hprocess] at hholding
  cases hholding

/-- Of lockers on one connection each, for any number of processes, keys and commands. -/
theorem deadlockFree_of_run {s : LockSystem P K L} (lockOf : K → L)
    (h : Machine.Run (step lockOf) (WaitsFree lockOf) {} s) : DeadlockFree lockOf s := by
  have hinv : Inv lockOf s ∧ s.Free := by
    apply h.inv (I := fun s => Inv lockOf s ∧ s.Free)
    · refine ⟨inv_init, fun p i hwaiting => ?_⟩
      cases hwaiting
    · exact fun s action next hinv hfree hstep => inv_step hinv hfree hstep
  exact ⟨moves_of_inv hinv, acyclic_of_inv hinv, fun p i c hwaiting _ j d hmem _ =>
    absurd hmem (unblocked_of_inv hinv hwaiting)⟩

/-! ## Two processes -/

instance : DecidablePred (WaitsFree lockOf s)
  | .execute p =>
      decidable_of_iff (∀ statement ∈ (s.lockers p).queue.head?,
          ∀ c ∈ s.commands[statement.index]?,
            statement = .acquire statement.index → s.available p (lockOf c.key) = false →
              ∀ d ∈ s.commands, d.process = p → d.phase.holding = false) <| by
        constructor
        · intro h i rest hqueue c hc hnot
          exact h (.acquire i) (by rw [hqueue]; rfl) c hc rfl hnot
        · intro h statement hhead c hc hacquire hnot
          obtain ⟨rest, hqueue⟩ := List.head?_eq_some_iff.mp hhead
          exact h statement.index rest (hacquire ▸ hqueue) c hc hnot
  | .call _ _ | .enter _ | .grant _ | .finish _ => isTrue trivial

/-- Every command waits for the connection or for the lock, and no lock is granted. -/
theorem not_canMove (hsubmitted : ∀ c ∈ s.commands, c.phase ≠ .acquireLocal ∧ c.phase ≠ .working)
    (hconnections : ∀ p, s.step lockOf (.execute p) = none ∧ s.step lockOf (.grant p) = none) :
    ¬ CanMove lockOf s := by
  rintro ⟨action, hcall, hsome⟩
  obtain ⟨next, hstep⟩ := Option.isSome_iff_exists.mp hsome
  cases action with
  | call p key => exact hcall p key rfl
  | enter i =>
      obtain ⟨c, hc, henter⟩ := Option.bind_eq_some_iff.mp hstep
      unfold enter at henter
      split_ifs at henter with hguard
      exact (hsubmitted c (List.mem_of_getElem? hc)).1 hguard.1
  | execute p =>
      rw [(hconnections p).1] at hstep
      cases hstep
  | grant p =>
      rw [(hconnections p).2] at hstep
      cases hstep
  | finish i =>
      obtain ⟨c, hc, hfinish⟩ := Option.bind_eq_some_iff.mp hstep
      unfold finish at hfinish
      split_ifs at hfinish with hphase
      exact (hsubmitted c (List.mem_of_getElem? hc)).2 hphase

namespace Sample

def account (id : String) : JsString := lockerKey (Json.ascii "Account") (Json.ascii id)

/-- Both processes want one lock: the second one waits until it is given back. -/
theorem deadlockFree_of_run_contended :
    ∃ s : LockSystem Bool JsString Int64, Machine.Run (step fnv1a64) (WaitsFree fnv1a64) {} s ∧
      (s.lockers true).waiting = some 1 ∧ DeadlockFree fnv1a64 s := by
  have hplay : (Machine.playMeeting (step fnv1a64) (WaitsFree fnv1a64)
      [.call false (account "1"), .call true (account "1"), .enter 0, .enter 1,
        .execute false, .execute true, .finish 0] ({} : LockSystem Bool JsString Int64)).map
        (fun s => (s.lockers true).waiting) = some (some 1) := by decide +kernel
  obtain ⟨s, hs, hwaiting⟩ := Option.map_eq_some_iff.mp hplay
  have hrun := Machine.run_of_playMeeting hs
  exact ⟨s, hrun, hwaiting, deadlockFree_of_run fnv1a64 hrun⟩

/-- Each process has the lock that the other one waits for, and its release is behind that
acquire statement. -/
theorem deadlockFree_crossed :
    ¬ ∀ s : LockSystem Bool JsString Int64, Reached fnv1a64 s → DeadlockFree fnv1a64 s := by
  intro hall
  have hplay : (Machine.play (step fnv1a64)
      [.call false (account "1"), .call true (account "2"), .enter 0, .enter 1,
        .execute false, .execute true,
        .call false (account "2"), .call true (account "1"), .enter 2, .enter 3,
        .execute false, .execute true, .finish 0, .finish 1]
        ({} : LockSystem Bool JsString Int64)).map
      (fun s => (s.commands.map Command.phase,
        [false, true].all fun p => (s.step fnv1a64 (.execute p)).isNone &&
          (s.step fnv1a64 (.grant p)).isNone)) =
      some ([.releaseDb true, .releaseDb true, .acquireDb, .acquireDb], true) := by decide +kernel
  obtain ⟨s, hs, hstate⟩ := Option.map_eq_some_iff.mp hplay
  obtain ⟨hphases, hnone⟩ := Prod.mk.inj hstate
  have hrun := Machine.run_of_play (C := fun _ _ => True) (fun _ _ _ => trivial) hs
  have hphase (c : Command Bool JsString) (hmem : c ∈ s.commands) :
      c.phase = .releaseDb true ∨ c.phase = .acquireDb := by
    have hin : c.phase ∈ s.commands.map Command.phase := List.mem_map_of_mem hmem
    rw [hphases] at hin
    simpa using hin
  have hstuck : ¬ CanMove fnv1a64 s := by
    apply not_canMove
    · intro c hmem
      cases hphase c hmem with
      | inl hrelease => simp [hrelease]
      | inr hacquire => simp [hacquire]
    · intro p
      have hp := List.all_eq_true.mp hnone p (by cases p <;> decide)
      simpa using hp
  have hsome : ∃ c, c ∈ s.commands := by
    apply List.exists_mem_of_ne_nil
    intro hnil
    rw [hnil] at hphases
    cases hphases
  obtain ⟨c, hmem⟩ := hsome
  cases (hall s hrun).moves with
  | inl hended =>
      have hend := hended c hmem
      cases hphase c hmem with
      | inl hrelease => simp [hrelease, CommandPhase.ended] at hend
      | inr hacquire => simp [hacquire, CommandPhase.ended] at hend
  | inr hmove => exact hstuck hmove

end Sample

end LockSystem

end Noddde.Adapters
