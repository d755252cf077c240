import Noddde.Proofs.CompletionProtocol
/-!
# Every completion hook once

The hooks that are due are run one after another.  A hook that rejects leaves those behind it
unrun, and a hook that is registered after the hooks were taken is not run either.
-/

namespace Noddde

variable {J Infra : Type} {wiring : Wiring J Infra} {x : Subject} {u : UowRef} {s t : World J}

/-! ## What is registered and what is run -/

def Obs.registered? (u : UowRef) : Obs J → Option (Hook J)
  | .registered v _ hook => if v = u then some hook else none
  | _ => none

/-- The hooks that were registered on `u`, in order. -/
def registeredIn (u : UowRef) (h : List (Obs J)) : List (Hook J) :=
  (h.filterMap (Obs.registered? u)).reverse

/-- A hook that waits for the commit is only due if the unit of work has committed. -/
def Hook.due (committed : Bool) (hook : Hook J) : Bool := committed || hook.isRelease

def dueIn (u : UowRef) (committed : Bool) (h : List (Obs J)) : List (Hook J) :=
  (registeredIn u h).filter (Hook.due committed)

def Obs.invoked? (u : UowRef) : Obs J → Option (Hook J)
  | .hookRan v hook _ => if v = u then some hook else none
  | _ => none

/-- The hooks of `u` that were invoked, whether they have rejected or not. -/
def invokedIn (u : UowRef) (h : List (Obs J)) : List (Hook J) :=
  (h.filterMap (Obs.invoked? u)).reverse

theorem registeredIn_append (new old : List (Obs J)) :
    registeredIn u (new ++ old) = registeredIn u old ++ registeredIn u new := by
  rw [registeredIn, List.filterMap_append, List.reverse_append, registeredIn, registeredIn]

theorem invokedIn_append (new old : List (Obs J)) :
    invokedIn u (new ++ old) = invokedIn u old ++ invokedIn u new := by
  rw [invokedIn, List.filterMap_append, List.reverse_append, invokedIn, invokedIn]

theorem dueIn_append (committed : Bool) (new old : List (Obs J)) :
    dueIn u committed (new ++ old) = dueIn u committed old ++ dueIn u committed new := by
  rw [dueIn, registeredIn_append, List.filter_append, dueIn, dueIn]

theorem mem_registeredIn {hook : Hook J} {h : List (Obs J)} :
    hook ∈ registeredIn u h ↔ ∃ d, .registered u d hook ∈ h := by
  rw [registeredIn, List.mem_reverse, List.mem_filterMap]
  constructor
  · rintro ⟨o, ho, heq⟩
    cases o with
    | registered v d other =>
        by_cases hv : v = u
        · subst hv
          obtain rfl := Option.some.inj ((if_pos rfl).symm.trans heq)
          exact ⟨d, ho⟩
        · cases (if_neg hv).symm.trans heq
    | _ => cases heq
  · rintro ⟨d, hmem⟩
    exact ⟨_, hmem, if_pos rfl⟩

theorem registeredIn_eq_nil {h : List (Obs J)} (hnone : ∀ o ∈ h, o.registered? u = none) :
    registeredIn u h = [] := by
  rw [registeredIn, List.filterMap_eq_nil_iff.mpr hnone, List.reverse_nil]

theorem registeredIn_cons (o : Obs J) (h : List (Obs J)) :
    registeredIn u (o :: h) = registeredIn u h ++ (o.registered? u).toList := by
  rw [← List.singleton_append, registeredIn_append]
  cases heq : o.registered? u <;> simp [registeredIn, heq]

/-- After a commit, everything is due. -/
theorem perm_dueIn {h : List (Obs J)} :
    ((registeredIn u h).filter (!·.isRelease) ++ (registeredIn u h).filter Hook.isRelease).Perm
      (dueIn u true h) := by
  have hdue : dueIn u true h = registeredIn u h := List.filter_eq_self.mpr fun _ _ => rfl
  rw [hdue]
  exact List.perm_append_comm.trans (List.filter_append_perm _ _)

/-! ## What is taken is what was registered -/

/-- The release of a lock is registered by the dispatch that has the lock. -/
def Hook.AskedBy (d : Origin) : Hook J → Prop
  | .release ticket _ _ => ticket.dispatch = d
  | .saveSnapshot .. => True

def CompletionHooks.register (hook : Hook J) (hooks : CompletionHooks J) : CompletionHooks J :=
  if hook.isRelease then { hooks with onSettled := hooks.onSettled ++ [hook] }
  else { hooks with onCommitted := hooks.onCommitted ++ [hook] }

variable (u) in
/-- What a step does to the registrations of `u`. -/
inductive RegisterChange (s t : World J) : Prop
  | same (new : List (Obs J)) (hooks : getOrCreate u t = getOrCreate u s)
      (history : t.history = new ++ s.history)
      (spares : ∀ o ∈ new, o.registered? u = none ∧
        ∀ committed within hooks, o ≠ .hooksTaken u committed within hooks)
  | registered {d : Origin} {hook : Hook J} (asked : hook.AskedBy d)
      (first : hook.isRelease = true → .registered u d hook ∉ s.history)
      (stored : getOrCreate u t = (getOrCreate u s).register hook)
      (history : t.history = .registered u d hook :: s.history)
  | took {committed : Bool} {within : Option UowRef} (history : t.history =
      .hooksTaken u committed within ((if committed then (getOrCreate u s).onCommitted else []) ++
        (getOrCreate u s).onSettled) :: s.history)
      (first : ∀ committed within hooks, .hooksTaken u committed within hooks ∉ s.history)

theorem Obs.registered?_eq_none {o : Obs J} (h : o.hooks u = false) :
    o.registered? u = none ∧ ∀ committed within hooks, o ≠ .hooksTaken u committed within hooks := by
  cases o with
  | registered v d hook => exact ⟨if_neg (of_decide_eq_false h), by simp⟩
  | hooksTaken v =>
      refine ⟨rfl, fun committed within hooks heq => ?_⟩
      obtain ⟨rfl, -⟩ := Obs.hooksTaken.inj heq
      exact of_decide_eq_false h rfl
  | _ => exact ⟨rfl, by simp⟩

theorem HookChange.registers (h : HookChange wiring u s t) : RegisterChange u s t := by
  cases h with
  | same hooks _ _ spares =>
      obtain ⟨new, hnew, hspares⟩ := spares
      refine .same new ?_ hnew fun o ho => Obs.registered?_eq_none (hspares o ho)
      rw [getOrCreate, hooks, getOrCreate]
  | registeredSnapshot _ _ _ eq =>
      subst eq
      refine .registered ?_ ?_ ?_ rfl
      · trivial
      · simp [Hook.isRelease]
      simp [CompletionHooks.register, Hook.isRelease, getOrCreate, onUowCommitted, World.setHooks,
        World.note, bind, Segment.modify, note]
  | registeredRelease _ _ first eq =>
      subst eq
      refine .registered ?_ (fun _ => first) ?_ rfl
      · rfl
      simp [CompletionHooks.register, Hook.isRelease, getOrCreate, onUowSettled, World.setHooks,
        World.note, bind, Segment.modify, note]
  | claimed _ _ eq =>
      subst eq
      exact .same [] rfl rfl (by simp)
  | took _ _ _ first eq =>
      subst eq
      exact .took rfl first
  | @ranSnapshotHook aggregateName aggregateId snapshot saved running eq =>
      subst eq
      refine .same [.hookRan u (.saveSnapshot aggregateName aggregateId snapshot) none] ?_ ?_
        (by simp [Obs.registered?])
      · cases saved <;> rfl
      · cases saved <;> rfl
  | @ranReleaseHook ticket aggregateName aggregateId _ running eq =>
      subst eq
      obtain ⟨new, hnew, hobs⟩ := Locker.release_history ticket aggregateName aggregateId s
      obtain ⟨_, _, heq⟩ := Locker.release_eq ticket aggregateName aggregateId s
      refine .same (.hookRan u (.release ticket aggregateName aggregateId) none :: new) ?_
        (congrArg _ hnew) fun o ho => ?_
      · rw [heq]
        rfl
      · rcases List.mem_cons.mp ho with rfl | ho
        · exact ⟨rfl, by simp⟩
        · rcases hobs o ho with ⟨_, rfl⟩ | ⟨_, _, rfl⟩ <;> exact ⟨rfl, by simp⟩

variable (u) in
structure Registrations (w : World J) : Prop where
  asked : ∀ d hook, .registered u d hook ∈ w.history → hook.AskedBy d
  once : ((registeredIn u w.history).filter Hook.isRelease).Nodup
  stored : (∀ committed within hooks, .hooksTaken u committed within hooks ∉ w.history) →
    getOrCreate u w = ⟨(registeredIn u w.history).filter (!·.isRelease),
      (registeredIn u w.history).filter Hook.isRelease⟩
  taken : Causal (fun o old => ∀ committed within hooks,
    o = .hooksTaken u committed within hooks → hooks.Perm (dueIn u committed old)) w.history

theorem registrations_empty : Registrations u ({} : World J) :=
  ⟨by simp, List.nodup_nil, fun _ => rfl, trivial⟩

theorem Hook.AskedBy.unique {hook : Hook J} {d d' : Origin} (h : hook.AskedBy d)
    (h' : hook.AskedBy d') (hrelease : hook.isRelease = true) : d = d' := by
  cases hook with
  | release => exact h.symm.trans h'
  | saveSnapshot => cases hrelease

theorem Registrations.step [JsValue J] (hs : Registrations u s) (h : Step wiring x s t) :
    Registrations u t := by
  cases (h.hooks u).registers with
  | same new hooks history spares =>
      have hregistered : registeredIn u t.history = registeredIn u s.history := by
        rw [history, registeredIn_append, registeredIn_eq_nil fun o ho => (spares o ho).1,
          List.append_nil]
      refine ⟨fun d hook hmem => ?_, hregistered ▸ hs.once, fun hnone => ?_, ?_⟩
      · rw [history] at hmem
        refine hs.asked d hook ((List.mem_append.mp hmem).resolve_left fun hmem => ?_)
        cases (if_pos rfl).symm.trans (spares _ hmem).1
      · rw [hooks, hregistered]
        exact hs.stored fun _ _ _ hmem => hnone _ _ _ (h.adds.grows.subset hmem)
      · rw [history]
        refine hs.taken.append fun before o after heq committed within hooks ho => ?_
        exact absurd ho ((spares o (by simp [heq])).2 _ _ _)
  | @registered d hook asked first stored history =>
      have hregistered : registeredIn u t.history = registeredIn u s.history ++ [hook] := by
        rw [history, registeredIn_cons, Obs.registered?, if_pos rfl]
        rfl
      refine ⟨fun d' other hmem => ?_, ?_, fun hnone => ?_, ?_⟩
      · rw [history] at hmem
        rcases List.mem_cons.mp hmem with heq | hmem
        · obtain ⟨-, rfl, rfl⟩ := Obs.registered.inj heq
          exact asked
        · exact hs.asked d' other hmem
      · rw [hregistered, List.filter_append]
        cases hrelease : hook.isRelease with
        | false => simpa [List.filter_cons, hrelease] using hs.once
        | true =>
            rw [List.filter_cons_of_pos hrelease, List.filter_nil]
            refine List.nodup_append.mpr ⟨hs.once, List.nodup_singleton _, ?_⟩
            rintro other hother _ hmem rfl
            obtain rfl := List.mem_singleton.mp hmem
            obtain ⟨d', hmem'⟩ := mem_registeredIn.mp (List.mem_of_mem_filter hother)
            obtain rfl := asked.unique (hs.asked _ _ hmem') hrelease
            exact first hrelease hmem'
      · rw [stored, hs.stored fun _ _ _ hmem => hnone _ _ _ (h.adds.grows.subset hmem), hregistered]
        unfold CompletionHooks.register
        cases hrelease : hook.isRelease <;> simp [List.filter_append, hrelease]
      · rw [history]
        exact ⟨by simp, hs.taken⟩
  | @took committed within history first =>
      have hregistered : registeredIn u t.history = registeredIn u s.history := by
        rw [history, registeredIn_cons]
        exact List.append_nil _
      refine ⟨fun d hook hmem => ?_, hregistered ▸ hs.once, fun hnone => ?_, ?_⟩
      · rw [history] at hmem
        exact hs.asked d hook ((List.mem_cons.mp hmem).resolve_left (by simp))
      · exact absurd (history ▸ List.mem_cons_self) (hnone _ _ _)
      · rw [history]
        refine ⟨fun committed' within' hooks heq => ?_, hs.taken⟩
        obtain ⟨-, rfl, -, rfl⟩ := Obs.hooksTaken.inj heq
        rw [hs.stored first]
        cases committed with
        | false => exact .refl _
        | true => exact perm_dueIn

/-! ## What is invoked -/

theorem invokedIn_cons (o : Obs J) (h : List (Obs J)) :
    invokedIn u (o :: h) = invokedIn u h ++ (o.invoked? u).toList := by
  rw [← List.singleton_append, invokedIn_append]
  cases heq : o.invoked? u <;> simp [invokedIn, heq]

theorem invokedIn_eq {new old : List (Obs J)} (hnone : ∀ o ∈ new, o.invoked? u = none) :
    invokedIn u (new ++ old) = invokedIn u old := by
  rw [invokedIn_append, invokedIn, invokedIn, List.filterMap_eq_nil_iff.mpr hnone,
    List.reverse_nil, List.append_nil]

variable (u) in
/-- What a step does to the loop over the hooks of `u`. -/
inductive InvokeChange (s t : World J) : Prop
  | same (new : List (Obs J)) (history : t.history = new ++ s.history)
      (spares : ∀ o ∈ new, o.invoked? u = none)
      (running : (t.frames u).running = (s.frames u).running ∨
        ∀ committed within hooks, .hooksTaken u committed within hooks ∉ s.history)
  | ended {hook : Hook J} (new : List (Obs J)) (turn : HookTurn u hook s)
      (history : t.history = .hookRan u hook none :: (new ++ s.history))
      (spares : ∀ o ∈ new, o.invoked? u = none ∧ o.publishes u = false)
  | rejected {hook : Hook J} {e : Err} (turn : HookTurn u hook s)
      (release : hook.isRelease = true) (eq : t = s.note (.hookRan u hook (some e)))

theorem Obs.invoked?_eq_none {o : Obs J} (hloops : o.loops u = false)
    (hrejected : ∀ hook e, o ≠ .hookRan u hook (some e)) : o.invoked? u = none := by
  cases o with
  | hookRan v hook error =>
      by_cases hv : v = u
      · subst hv
        cases error with
        | none => cases (of_decide_eq_false hloops) rfl
        | some e => exact absurd rfl (hrejected hook e)
      · exact if_neg hv
  | _ => rfl

theorem Step.invokes [JsValue J] (h : Step wiring x s t) (u : UowRef) : InvokeChange u s t := by
  obtain ⟨new, hnew, hexplained⟩ := h.explains
  have hsame : ∀ new', t.history = new' ++ s.history → new' = new := fun _ heq =>
    List.append_cancel_right (heq.symm.trans hnew)
  by_cases hrejects : ∃ hook e, .hookRan u hook (some e) ∈ new
  · obtain ⟨hook, e, hmem⟩ := hrejects
    obtain ⟨⟨-, -, hrelease, hturn⟩, heq⟩ := hexplained _ hmem
    exact .rejected hturn hrelease heq
  · push Not at hrejects
    have hinvoked : ∀ o ∈ new, o.loops u = false → o.invoked? u = none := fun o ho hloops =>
      Obs.invoked?_eq_none hloops fun hook e heq => hrejects hook e (heq ▸ ho)
    cases (h.hooks u).loop with
    | same new' running history spares =>
        obtain rfl := hsame new' history
        exact .same _ history (fun o ho => hinvoked o ho (spares o ho)) (.inl running)
    | took first running history =>
        obtain rfl := hsame [_] history
        exact .same [_] history (by simp [Obs.invoked?]) (.inr first)
    | ran hook new' running history spares =>
        obtain rfl := hsame (.hookRan u hook none :: new') history
        have hturn := (hexplained _ List.mem_cons_self).turn
        refine .ended new' hturn history fun o ho => ?_
        have hmem := List.mem_cons_of_mem (.hookRan u hook none) ho
        refine ⟨hinvoked o hmem (spares o ho), ?_⟩
        by_contra hpublishes
        have hnote : t = s.note o := by
          have hwhy := hexplained o hmem
          cases o with
          | dispatchCalled | dispatchResolved | dispatchRejected => exact hwhy.2
          | _ => exact absurd rfl hpublishes
        rw [hnote] at history
        obtain ⟨rfl, -⟩ := List.cons.inj history
        exact hpublishes rfl

variable (u) in
/-- A hook that rejects is the last one to be invoked. -/
structure Invocations (w : World J) : Prop where
  accepted : (∀ hook e, .hookRan u hook (some e) ∉ w.history) →
    invokedIn u w.history = ranHooksIn u w.history
  rejected : ∀ hook e, .hookRan u hook (some e) ∈ w.history → hook.isRelease = true ∧
    invokedIn u w.history = ranHooksIn u w.history ++ [hook] ∧
      (w.frames u).running.head? = some hook
  quiet : Causal (fun o old => ∀ hook error, o = .hookRan u hook error →
    ∀ o ∈ old, o.publishes u = false) w.history

theorem invocations_empty : Invocations u ({} : World J) := ⟨fun _ => rfl, by simp, trivial⟩

theorem Quiet.history (h : Quiet u s) : ∀ o ∈ s.history, o.publishes u = false := by
  intro o ho
  by_contra hpublishes
  rw [Bool.not_eq_false] at hpublishes
  have hquiet := h o ((mem_about (subject_of_publishes hpublishes)).mpr ho)
  rw [hpublishes] at hquiet
  cases hquiet

theorem ranHooksIn_eq {new old : List (Obs J)} (hnone : ∀ o ∈ new, o.invoked? u = none) :
    ranHooksIn u (new ++ old) = ranHooksIn u old := by
  have hnil : new.filterMap (Obs.ranHook? u) = [] := by
    rw [List.filterMap_eq_nil_iff]
    intro o ho
    have hinvoked := hnone o ho
    cases o with
    | hookRan v hook error =>
        cases error with
        | none => exact hinvoked
        | some e => rfl
    | _ => rfl
  rw [ranHooksIn, List.filterMap_append, hnil, List.nil_append, ranHooksIn]

theorem invoked?_hookRan (hook : Hook J) (error : Option Err) :
    (Obs.hookRan u hook error).invoked? u = some hook := if_pos rfl

theorem Invocations.step [JsValue J] (hs : Invocations u s) (hturns : HooksInTurn u s)
    (h : Step wiring x s t) : Invocations u t := by
  cases h.invokes u with
  | same new history spares running =>
      have hold : ∀ {hook error}, .hookRan u hook error ∈ t.history →
          .hookRan u hook error ∈ s.history := by
        intro hook error hmem
        rw [history] at hmem
        refine (List.mem_append.mp hmem).resolve_left fun hmem => ?_
        cases (invoked?_hookRan hook error).symm.trans (spares _ hmem)
      refine ⟨fun hnone => ?_, fun hook e hmem => ?_, ?_⟩
      · rw [history, invokedIn_eq spares, ranHooksIn_eq spares]
        exact hs.accepted fun hook e hmem => hnone hook e (h.adds.grows.subset hmem)
      · obtain ⟨hrelease, hinvoked, hhead⟩ := hs.rejected hook e (hold hmem)
        refine ⟨hrelease, ?_, ?_⟩
        · rw [history, invokedIn_eq spares, ranHooksIn_eq spares, hinvoked]
        · rcases running with running | untaken
          · rw [running, hhead]
          · rw [(hturns.before untaken).1] at hhead
            cases hhead
      · rw [history]
        refine hs.quiet.append fun before o after heq hook error ho => ?_
        have hnone := spares o (by simp [heq])
        rw [ho, invoked?_hookRan] at hnone
        cases hnone
  | @ended hook new turn history spares =>
      have hspares : ∀ o ∈ new, o.invoked? u = none := fun o ho => (spares o ho).1
      have hinvoked : invokedIn u t.history = invokedIn u s.history ++ [hook] := by
        rw [history, invokedIn_cons, invokedIn_eq hspares, invoked?_hookRan]
        rfl
      have hran : ranHooksIn u t.history = ranHooksIn u s.history ++ [hook] := by
        rw [history, ranHooksIn_cons, ranHooksIn_eq hspares, Obs.ranHook?, if_pos rfl]
        rfl
      refine ⟨fun _ => ?_, fun other e hmem => ?_, ?_⟩
      · rw [hinvoked, hran, hs.accepted turn.accepted]
      · rw [history] at hmem
        rcases List.mem_cons.mp hmem with heq | hmem
        · cases heq
        · rcases List.mem_append.mp hmem with hmem | hmem
          · cases (invoked?_hookRan other (some e)).symm.trans (hspares _ hmem)
          · exact absurd hmem (turn.accepted other e)
      · rw [history]
        have hquiet := turn.quiet.history
        refine ⟨fun _ _ _ o ho => ?_, hs.quiet.append fun before o after heq other error ho => ?_⟩
        · exact (List.mem_append.mp ho).elim (fun ho => (spares o ho).2) (hquiet o)
        · have hnone := hspares o (by simp [heq])
          rw [ho, invoked?_hookRan] at hnone
          cases hnone
  | @rejected hook e turn release eq =>
      subst eq
      have hinvoked : invokedIn u (s.note (.hookRan u hook (some e))).history =
          invokedIn u s.history ++ [hook] := by
        rw [World.note, invokedIn_cons, invoked?_hookRan]
        rfl
      have hran : ranHooksIn u (s.note (.hookRan u hook (some e))).history =
          ranHooksIn u s.history := ranHooksIn_note.trans (List.append_nil _)
      refine ⟨fun hnone => ?_, fun other e' hmem => ?_, ?_⟩
      · exact absurd List.mem_cons_self (hnone hook e)
      · rcases List.mem_cons.mp hmem with heq | hmem
        · obtain ⟨-, rfl, -⟩ := Obs.hookRan.inj heq
          exact ⟨release, by rw [hinvoked, hran, hs.accepted turn.accepted], turn.head⟩
        · exact absurd hmem (turn.accepted other e')
      · exact ⟨fun _ _ _ => turn.quiet.history, hs.quiet⟩

/-! ## The loop and what is due -/

/-- The hooks are taken at most once. -/
theorem taken_unique {h new new' old old' : List (Obs J)} (horderly : Orderly u h)
    {committed committed' : Bool} {within within' : Option UowRef} {hooks hooks' : List (Hook J)}
    (heq : h = new ++ .hooksTaken u committed within hooks :: old)
    (heq' : h = new' ++ .hooksTaken u committed' within' hooks' :: old') :
    new = new' ∧ committed = committed' ∧ hooks = hooks' ∧ old = old' := by
  obtain ⟨-, -, -, hfirst⟩ := horderly.follows heq rfl
  obtain ⟨-, -, -, hfirst'⟩ := horderly.follows heq' rfl
  rcases List.append_eq_append_iff.mp (heq.symm.trans heq') with ⟨between, rfl, hsplit⟩ |
    ⟨between, rfl, hsplit⟩
  · cases between with
    | nil =>
        obtain ⟨hsame, rfl⟩ := List.cons.inj hsplit
        obtain ⟨-, rfl, -, rfl⟩ := Obs.hooksTaken.inj hsame
        exact ⟨(List.append_nil _).symm, rfl, rfl, rfl⟩
    | cons o rest =>
        obtain ⟨-, hold⟩ := List.cons.inj hsplit
        exact absurd (by simp [hold]) (hfirst committed' within' hooks')
  · cases between with
    | nil =>
        obtain ⟨hsame, rfl⟩ := List.cons.inj hsplit
        obtain ⟨-, rfl, -, rfl⟩ := Obs.hooksTaken.inj hsame
        exact ⟨List.append_nil _, rfl, rfl, rfl⟩
    | cons o rest =>
        obtain ⟨-, hold⟩ := List.cons.inj hsplit
        exact absurd (by simp [hold]) (hfirst' committed within hooks)

/-- A hook that has rejected was invoked after those that have run, and `rest` is left. -/
theorem Invocations.split (hs : Invocations u s) (hturns : HooksInTurn u s) {committed : Bool}
    {within : Option UowRef} {hooks : List (Hook J)}
    (htaken : .hooksTaken u committed within hooks ∈ s.history) {hook : Hook J} {e : Err}
    (hrejected : .hookRan u hook (some e) ∈ s.history) :
    ∃ rest, hooks = invokedIn u s.history ++ rest ∧
      invokedIn u s.history = ranHooksIn u s.history ++ [hook] := by
  obtain ⟨-, hinvoked, hhead⟩ := hs.rejected hook e hrejected
  refine ⟨(s.frames u).running.tail, ?_, hinvoked⟩
  rw [← hturns.turns _ _ _ htaken, hinvoked, head_tail hhead, List.append_assoc]
  rfl

theorem Invocations.prefix (hs : Invocations u s) (hturns : HooksInTurn u s) {committed : Bool}
    {within : Option UowRef} {hooks : List (Hook J)}
    (htaken : .hooksTaken u committed within hooks ∈ s.history) :
    invokedIn u s.history <+: hooks := by
  by_cases hrejects : ∃ hook e, .hookRan u hook (some e) ∈ s.history
  · obtain ⟨hook, e, hrejected⟩ := hrejects
    obtain ⟨rest, hsplit, -⟩ := hs.split hturns htaken hrejected
    exact ⟨rest, hsplit.symm⟩
  · push Not at hrejects
    rw [hs.accepted hrejects, ← hturns.turns _ _ _ htaken]
    exact List.prefix_append _ _

/-- What is due at the end is what was taken, and what was registered later. -/
theorem Registrations.due (hs : Registrations u s) {committed : Bool} {within : Option UowRef}
    {hooks : List (Hook J)} {new old : List (Obs J)}
    (heq : s.history = new ++ .hooksTaken u committed within hooks :: old) :
    (dueIn u committed s.history).Perm (hooks ++ dueIn u committed new) := by
  have hperm := hs.taken.follows heq committed within hooks rfl
  have hold : dueIn u committed (.hooksTaken u committed within hooks :: old) =
      dueIn u committed old := by
    rw [dueIn, registeredIn_cons]
    exact congrArg _ (List.append_nil _)
  rw [heq, dueIn_append, hold]
  exact hperm.symm.append_right _

/-- No release is taken twice. -/
theorem Registrations.nodup (hs : Registrations u s) {committed : Bool} {within : Option UowRef}
    {hooks : List (Hook J)} {new old : List (Obs J)}
    (heq : s.history = new ++ .hooksTaken u committed within hooks :: old) :
    (hooks.filter Hook.isRelease).Nodup := by
  have hperm := (hs.due heq).filter Hook.isRelease
  have hall : (dueIn u committed s.history).filter Hook.isRelease =
      (registeredIn u s.history).filter Hook.isRelease := by
    rw [dueIn, List.filter_filter]
    exact List.filter_congr fun hook _ => by simp +contextual [Hook.due]
  rw [hall, List.filter_append] at hperm
  exact (hperm.nodup_iff.mp hs.once).of_append_left

/-- If what rejects is the last hook, nothing is left behind it. -/
theorem Registrations.rest_eq_nil (hs : Registrations u s) {committed : Bool}
    {within : Option UowRef} {hooks : List (Hook J)} {new old : List (Obs J)}
    (heq : s.history = new ++ .hooksTaken u committed within hooks :: old) {hook : Hook J}
    (hrelease : hook.isRelease = true) {done rest : List (Hook J)}
    (hsplit : hooks = done ++ [hook] ++ rest) (hlast : hooks.getLast? = some hook) :
    rest = [] := by
  by_contra hrest
  have hmem : hook ∈ rest := by
    rw [hsplit, List.getLast?_append_of_ne_nil _ hrest] at hlast
    exact List.mem_of_getLast? hlast
  have hnodup := hs.nodup heq
  rw [hsplit, List.filter_append, List.filter_append, List.filter_cons_of_pos hrelease] at hnodup
  exact List.disjoint_of_nodup_append hnodup (by simp) (List.mem_filter.mpr ⟨hmem, hrelease⟩)

/-! ## Runs -/

/-- A thread that has settled, with the error if there is one. -/
def settledWith : Option Err → Eff J Infra Unit
  | none => .pure ()
  | some e => .throw e

/-- What the owner of a unit of work, which has settled with `error`, has kept to: the hooks
that are due were invoked once each, after the end of the unit of work, outside of its scope
and before its first event was published, with `committed` exactly if it has committed; the
events that it has committed were published in order, each once, and all of them unless a
dispatch has rejected; and `error` is an error of its function, its commit, a bus or its
follow-up. -/
structure Concludes (u : UowRef) (error : Option Err) (h : List (Obs J)) : Prop where
  once : ∃ committed within hooks, .hooksTaken u committed within hooks ∈ h ∧
    (invokedIn u h).Perm (dueIn u committed h)
  follows : ∀ new o old, h = new ++ o :: old → o.follows u old
  quiet : ∀ new hook e old, h = new ++ .hookRan u hook e :: old →
    ∀ o ∈ old, o.publishes u = false
  inOrder : InOrder u h
  published : ∀ events, .committed u events ∈ h →
    (∀ event e, .dispatchRejected (some u) event e ∉ h) → calledIn u h = events
  reported : Reported u error h

theorem Reported.published {error : Option Err} (hs : Inv wiring s)
    (h : Reported u error s.history) {events : List (Event J)}
    (hcommitted : .committed u events ∈ s.history)
    (haccepted : ∀ event e, .dispatchRejected (some u) event e ∉ s.history) :
    calledIn u s.history = events := by
  have hall : Published u s.history → calledIn u s.history = events := fun hpublished =>
    (((hs.units u).committed _ hpublished.1).2).trans ((hs.units u).committed _ hcommitted).2.symm
  cases error with
  | none => exact hall h.2.2.2
  | some e =>
      rcases h.2 with ⟨-, hnone⟩ | ⟨event, hrejected⟩ | ⟨-, hpublished⟩
      · exact absurd hcommitted (hnone events)
      · exact absurd hrejected (haccepted event e)
      · exact hall hpublished

/-- No hook rejects but the last one that was taken. -/
def LastRejects (u : UowRef) (h : List (Obs J)) : Prop :=
  ∀ committed within hooks, .hooksTaken u committed within hooks ∈ h →
    ∀ hook e, .hookRan u hook (some e) ∈ h → hooks.getLast? = some hook

/-- No hook that is due was registered after the hooks were taken. -/
def NoneLate (u : UowRef) (h : List (Obs J)) : Prop :=
  ∀ new old committed within hooks, h = new ++ .hooksTaken u committed within hooks :: old →
    ∀ d hook, .registered u d hook ∈ new → hook.due committed = false

section Runs

variable [JsValue J] {C : World J → World J → Prop} {workload : Workload J} {q : Process J Infra}

/-- The completion protocol of an explicit unit of work, of a scope or of a saga execution in
either mode, whatever fails and whatever else runs: once its owner has settled, it has kept
to the protocol if and only if no hook but the last one has rejected, and no hook that is
due was registered after the hooks had been taken. -/
theorem concludes_iff (hrun : Pool.Run C (boot wiring workload) q) (hu : u.implicit = false)
    (hcreated : (q.state.uows u).created = true) {error : Option Err}
    (hended : q.threads u.owner = settledWith error) :
    Concludes u error q.state.history ↔
      LastRejects u q.state.history ∧ NoneLate u q.state.history := by
  have hall : Orderly u q.state.history ∧ HooksInTurn u q.state ∧ InOrder u q.state.history ∧
      Registrations u q.state ∧ Invocations u q.state := by
    apply steps_induction wiring (I := fun w => Orderly u w.history ∧ HooksInTurn u w ∧
      InOrder u w.history ∧ Registrations u w ∧ Invocations u w) hrun
    · exact ⟨trivial, hooksInTurn_empty, ⟨.inl rfl, .inl rfl, by simp⟩, registrations_empty,
        invocations_empty⟩
    · rintro s t x hinv _ h ⟨horderly, hturns, horder, hregistrations, hinvocations⟩
      exact ⟨horderly.step hinv hturns h, hturns.step h, horder.step h, hregistrations.step h,
        hinvocations.step hturns h⟩
  obtain ⟨horderly, hturns, horder, hregistrations, hinvocations⟩ := hall
  have hreport : Reported u error q.state.history ∧ Drained u q.state.history := by
    obtain ⟨hresolved, hrejected⟩ := reported_of_run hrun hu hcreated
    cases error with
    | none => exact hresolved hended
    | some e => exact hrejected e hended
  obtain ⟨hreported, committed, within, hooks, htaken, hdrained⟩ := hreport
  obtain ⟨new, old, heq⟩ := List.append_of_mem htaken
  have hdue := hregistrations.due heq
  constructor
  · intro hconcludes
    obtain ⟨committed', within', hooks', htaken', hperm⟩ := hconcludes.once
    obtain ⟨new', old', heq'⟩ := List.append_of_mem htaken'
    obtain ⟨rfl, rfl, rfl, rfl⟩ := taken_unique horderly heq heq'
    -- what was invoked is at most what was taken, and at least what is due
    have hprefix := hinvocations.prefix hturns htaken
    have hlength := (hperm.trans hdue).length_eq
    rw [List.length_append] at hlength
    have hle := hprefix.length_le
    have hlate : dueIn u committed new = [] := List.eq_nil_of_length_eq_zero (by omega)
    have hinvoked : invokedIn u q.state.history = hooks := hprefix.eq_of_length (by omega)
    constructor
    · intro committed' within' hooks' htaken' hook e hrejected
      obtain ⟨rest, hsplit, hran⟩ := hinvocations.split hturns htaken' hrejected
      obtain rfl : hooks = hooks' :=
        (hturns.turns _ _ _ htaken).symm.trans (hturns.turns _ _ _ htaken')
      rw [← hinvoked, hran, List.getLast?_append, List.getLast?_singleton]
      rfl
    · intro new' old' committed' within' hooks' heq' d hook hregistered
      obtain ⟨rfl, rfl, -, -⟩ := taken_unique horderly heq heq'
      by_contra hdue
      have hmem : hook ∈ dueIn u committed new :=
        List.mem_filter.mpr ⟨mem_registeredIn.mpr ⟨d, hregistered⟩, by simpa using hdue⟩
      rw [hlate] at hmem
      cases hmem
  · rintro ⟨hlast, hnoneLate⟩
    have hlate : dueIn u committed new = [] := by
      refine List.filter_eq_nil_iff.mpr fun hook hmem => ?_
      obtain ⟨d, hregistered⟩ := mem_registeredIn.mp hmem
      simp [hnoneLate _ _ _ _ _ heq d hook hregistered]
    have hinvoked : invokedIn u q.state.history = hooks := by
      by_cases hrejects : ∃ hook e, .hookRan u hook (some e) ∈ q.state.history
      · obtain ⟨hook, e, hrejected⟩ := hrejects
        obtain ⟨hrelease, -, -⟩ := hinvocations.rejected hook e hrejected
        obtain ⟨rest, hsplit, hran⟩ := hinvocations.split hturns htaken hrejected
        rw [hran] at hsplit
        have hrest := hregistrations.rest_eq_nil heq hrelease hsplit
          (hlast _ _ _ htaken hook e hrejected)
        rw [hsplit, hrest, hran, List.append_nil]
      · push Not at hrejects
        have hturn := hturns.turns _ _ _ htaken
        have hran : hooks.length ≤ (ranHooksIn u q.state.history).length :=
          hdrained.resolve_right fun ⟨hook, e, hrejected⟩ => hrejects hook e hrejected
        have hidle : (q.state.frames u).running = [] := by
          have hlength := congrArg List.length hturn
          rw [List.length_append] at hlength
          exact List.eq_nil_of_length_eq_zero (by omega)
        rw [hinvocations.accepted hrejects, ← hturn, hidle, List.append_nil]
    rw [hlate, List.append_nil, ← hinvoked] at hdue
    exact
      { once := ⟨committed, within, hooks, htaken, hdue.symm⟩
        follows := fun new o old heq => horderly.follows heq
        quiet := fun new hook e old heq => hinvocations.quiet.follows heq hook e rfl
        inOrder := horder
        published := fun events hcommitted haccepted =>
          hreported.published (inv_of_run wiring hrun) hcommitted haccepted
        reported := hreported }

end Runs

/-! ## A scope with two locks, whose locker fails once -/

namespace Sample

def twoReleases : Process Value Unit :=
  boot { locking with releaseMayReject := true } (work [] [⟨(call (add "a" none)).ambient,
    .dispatchCommand "Counter" (add "a" (some 2)) fun _ =>
      .dispatchCommand "Counter" (add "b" (some 3)) fun _ => .settle⟩])

/-- The scope runs to its end; after `n` segments, the locker rejects once. -/
def rejectingAfter (n : Nat) : List (Tid × Choice Unit) :=
  turns (.scope 0) n ++
    (.scope 0, { tick with rejects := some (.error "connection lost") }) :: turns (.scope 0) 6

end Sample

def Obs.rejectedHook? (u : UowRef) : Obs J → Option (Hook J)
  | .hookRan v hook (some _) => if v = u then some hook else none
  | _ => none

def Obs.takenHooks? (u : UowRef) : Obs J → Option (List (Hook J))
  | .hooksTaken v _ _ hooks => if v = u then some hooks else none
  | _ => none

theorem lastRejects_of {h : List (Obs J)} (hlast : ∀ hooks ∈ h.filterMap (Obs.takenHooks? u),
    ∀ hook ∈ h.filterMap (Obs.rejectedHook? u), hooks.getLast? = some hook) : LastRejects u h :=
  fun _ _ hooks htaken hook _ hrejected => hlast hooks
    (List.mem_filterMap.mpr ⟨_, htaken, if_pos rfl⟩) hook
    (List.mem_filterMap.mpr ⟨_, hrejected, if_pos rfl⟩)

theorem noneLate_of {h : List (Obs J)} (horder : h.Pairwise fun newer older =>
    (newer.registered? u).isNone ∨ (older.takenHooks? u).isNone) : NoneLate u h := by
  rintro new old committed within hooks rfl d hook hregistered
  rcases (List.pairwise_append.mp horder).2.2 _ hregistered _ List.mem_cons_self with hnone | hnone
  · rw [Obs.registered?, if_pos rfl] at hnone
    cases hnone
  · rw [Obs.takenHooks?, if_pos rfl] at hnone
    cases hnone

/-- The last release rejects: both hooks have been invoked, and the scope resolves. -/
theorem concludes_iff_lastRejects :
    ∃ q, Pool.play (Sample.rejectingAfter 24) Sample.twoReleases = some q ∧
      (q.state.history.filterMap (Obs.rejectedHook? (.scope 0))).length = 1 ∧
      (invokedIn (.scope 0) q.state.history).length = 2 ∧
      Concludes (.scope 0) none q.state.history := by
  have hplay : (Pool.play (Sample.rejectingAfter 24) Sample.twoReleases).any fun q =>
      (q.threads (.scope 0)).resolved &&
        decide ((q.state.uows (.scope 0)).created = true ∧
          (q.state.history.filterMap (Obs.rejectedHook? (.scope 0))).length = 1 ∧
          (invokedIn (.scope 0) q.state.history).length = 2 ∧
          (∀ hooks ∈ q.state.history.filterMap (Obs.takenHooks? (.scope 0)),
            ∀ hook ∈ q.state.history.filterMap (Obs.rejectedHook? (.scope 0)),
              hooks.getLast? = some hook) ∧
          q.state.history.Pairwise fun newer older =>
            (newer.registered? (.scope 0)).isNone ∨ (older.takenHooks? (.scope 0)).isNone) := by
    decide +kernel
  obtain ⟨q, hq, hfacts⟩ := (Option.any_eq_true _ _).mp hplay
  rw [Bool.and_eq_true, decide_eq_true_eq] at hfacts
  obtain ⟨hresolved, hcreated, hrejected, hinvoked, hlast, horder⟩ := hfacts
  have hended : q.threads (.scope 0) = settledWith none := Async.eq_pure_of_resolved hresolved
  have hiff := concludes_iff (u := .scope 0)
    (Pool.run_of_play (C := fun _ _ => True) (fun _ _ => trivial) hq) rfl hcreated hended
  exact ⟨q, hq, hrejected, hinvoked, hiff.mpr ⟨lastRejects_of hlast, noneLate_of horder⟩⟩

/-- The first release rejects: the second one is never invoked. -/
theorem concludes_fails :
    ∃ q, Pool.play (Sample.rejectingAfter 23) Sample.twoReleases = some q ∧
      q.threads (.scope 0) = settledWith none ∧ ¬ Concludes (.scope 0) none q.state.history := by
  have hplay : (Pool.play (Sample.rejectingAfter 23) Sample.twoReleases).any fun q =>
      (q.threads (.scope 0)).resolved &&
        decide ((invokedIn (.scope 0) q.state.history).length = 1 ∧
          ∀ committed, (dueIn (.scope 0) committed q.state.history).length = 2) := by
    decide +kernel
  obtain ⟨q, hq, hfacts⟩ := (Option.any_eq_true _ _).mp hplay
  rw [Bool.and_eq_true, decide_eq_true_eq] at hfacts
  obtain ⟨hresolved, hinvoked, hdue⟩ := hfacts
  refine ⟨q, hq, Async.eq_pure_of_resolved hresolved, fun hconcludes => ?_⟩
  obtain ⟨committed, _, _, _, hperm⟩ := hconcludes.once
  have hlength := hperm.length_eq
  rw [hinvoked, hdue committed] at hlength
  cases hlength

end Noddde
