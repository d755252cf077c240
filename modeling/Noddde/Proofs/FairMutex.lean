import Noddde.Engine.AggregateLocker
import Mathlib.Data.List.Nodup
/-!
# The in-memory locker is a fair mutex

The grants of a key followed by its queue are its calls in the order in which they were made,
without those that timed out.  Every step keeps this, as long as only holders release.
-/

namespace Noddde.InMemoryAggregateLocker.Locker

variable {locker : Locker} {key : String} {call c : Nat} {request : Request}
  {outcome : Except Err Unit}

/-! ## What a state promises -/

structure FairMutex (locker : Locker) : Prop where
  exclusive : ∀ c c', locker.Holds c → locker.Holds c' → locker.keyOf c = locker.keyOf c' →
    c = c'
  /-- Grants follow the order of the calls, and whoever still waits comes after them. -/
  inOrder : ∀ key, (locker.granted key ++ locker.waiting key).Sublist (locker.arrived key)
  /-- The queue is what is left of the calls when those that have settled are taken out. -/
  remaining : ∀ key, locker.waiting key =
    (locker.arrived key).filter fun c => ¬ locker.Settled c
  settlesOnce : (locker.settlements.map Prod.fst).Nodup
  timedOut : ∀ c e, (c, .error e) ∈ locker.settlements →
    (c, .ok ()) ∉ locker.settlements ∧ ∀ key, c ∉ locker.waiting key
  disarmed : ∀ c, (c, .ok ()) ∈ locker.settlements → locker.timers c = false
  held : ∀ key, locker.waiting key ≠ [] → ∃ c, locker.Holds c ∧ locker.keyOf c = some key

/-! ## The invariant -/

def rejected (locker : Locker) : List Nat :=
  locker.settlements.filterMap fun settlement =>
    if settlement.2.isOk then none else some settlement.1

def holding (locker : Locker) (key : String) : List Nat :=
  (locker.granted key).filter fun c => c ∉ locker.released

def locked (locker : Locker) (key : String) : Bool := (locker.getEntry key).locked

structure Inv (locker : Locker) : Prop where
  once : (locker.settlements.map Prod.fst).Nodup
  known : ∀ c, locker.Settled c → c < locker.requests.length
  line : ∀ key, locker.granted key ++ locker.waiting key =
    (locker.arrived key).filter fun c => c ∉ locker.rejected
  free : ∀ key, locker.locked key = false → locker.holding key = [] ∧ locker.waiting key = []
  owned : ∀ key, locker.locked key = true → ∃ c, locker.holding key = [c]
  freed : ∀ c ∈ locker.released, locker.Settled c
  timed : ∀ c, locker.timers c = true → ∃ key, c ∈ locker.waiting key

theorem inv_empty : Inv {} where
  once := List.nodup_nil
  known := by simp [Settled]
  line key := by simp [granted, resolved, waiting, getEntry, arrived]
  free key _ := by simp [holding, granted, resolved, waiting, getEntry]
  owned key h := by simp [locked, getEntry] at h
  freed := by simp
  timed := by simp

/-! ## Reading the settlements -/

theorem mem_resolved : c ∈ locker.resolved ↔ (c, .ok ()) ∈ locker.settlements := by
  simp only [resolved, List.mem_filterMap]
  constructor
  · rintro ⟨⟨c', outcome⟩, hmem, hok⟩
    cases outcome with
    | ok _ =>
        obtain rfl : c' = c := by simpa [Except.isOk, Except.toBool] using hok
        exact hmem
    | error e => simp [Except.isOk, Except.toBool] at hok
  · intro hmem
    exact ⟨_, hmem, by simp [Except.isOk, Except.toBool]⟩

theorem mem_rejected : c ∈ locker.rejected ↔ ∃ e, (c, .error e) ∈ locker.settlements := by
  simp only [rejected, List.mem_filterMap]
  constructor
  · rintro ⟨⟨c', outcome⟩, hmem, hok⟩
    cases outcome with
    | ok _ => simp [Except.isOk, Except.toBool] at hok
    | error e =>
        obtain rfl : c' = c := by simpa [Except.isOk, Except.toBool] using hok
        exact ⟨e, hmem⟩
  · rintro ⟨e, hmem⟩
    exact ⟨_, hmem, by simp [Except.isOk, Except.toBool]⟩

theorem settled_of_mem (h : (c, outcome) ∈ locker.settlements) : locker.Settled c :=
  List.mem_map_of_mem h

theorem settled_iff : locker.Settled c ↔ c ∈ locker.resolved ∨ c ∈ locker.rejected := by
  rw [mem_resolved, mem_rejected]
  constructor
  · intro h
    obtain ⟨⟨c', outcome⟩, hmem, rfl⟩ := List.mem_map.mp h
    cases outcome with
    | ok _ => exact .inl hmem
    | error e => exact .inr ⟨e, hmem⟩
  · rintro (h | ⟨e, h⟩)
    · exact settled_of_mem h
    · exact settled_of_mem h

theorem mem_granted : c ∈ locker.granted key ↔
    c ∈ locker.resolved ∧ locker.keyOf c = some key := by
  simp [granted]

theorem mem_holding : c ∈ locker.holding key ↔ locker.Holds c ∧ locker.keyOf c = some key := by
  simp only [holding, List.mem_filter, mem_granted, mem_resolved, Holds, decide_eq_true_eq]
  tauto

theorem mem_arrived : c ∈ locker.arrived key ↔ locker.keyOf c = some key := by
  simp only [arrived, List.mem_filter, List.mem_range, decide_eq_true_eq, and_iff_right_iff_imp]
  intro hkey
  by_contra hlt
  simp [keyOf, List.getElem?_eq_none (Nat.le_of_not_lt hlt)] at hkey

theorem lt_of_mem_arrived (hc : c ∈ locker.arrived key) : c < locker.requests.length :=
  List.mem_range.mp (List.mem_filter.mp hc).1

theorem nodup_arrived : (locker.arrived key).Nodup := List.nodup_range.filter _

namespace Inv

theorem eq_of_settled (hinv : Inv locker) {outcome' : Except Err Unit}
    (h : (c, outcome) ∈ locker.settlements) (h' : (c, outcome') ∈ locker.settlements) :
    outcome = outcome' :=
  congrArg Prod.snd (List.inj_on_of_nodup_map hinv.once h h' rfl)

theorem nodup_line (hinv : Inv locker) :
    (locker.granted key ++ locker.waiting key).Nodup := by
  rw [hinv.line]
  exact nodup_arrived.filter _

theorem mem_waiting (hinv : Inv locker) : c ∈ locker.waiting key ↔
    locker.keyOf c = some key ∧ ¬ locker.Settled c := by
  have hline : c ∈ locker.granted key ++ locker.waiting key ↔
      locker.keyOf c = some key ∧ c ∉ locker.rejected := by
    rw [hinv.line]
    simp [mem_arrived]
  rw [List.mem_append, mem_granted] at hline
  rw [settled_iff, not_or]
  constructor
  · intro hwaiting
    obtain ⟨hkey, hrejected⟩ := hline.mp (.inr hwaiting)
    refine ⟨hkey, fun hresolved => ?_, hrejected⟩
    exact List.disjoint_of_nodup_append hinv.nodup_line (mem_granted.mpr ⟨hresolved, hkey⟩) hwaiting
  · rintro ⟨hkey, hresolved, hrejected⟩
    exact (hline.mpr ⟨hkey, hrejected⟩).resolve_left fun h => hresolved h.1

theorem waiting_eq (hinv : Inv locker) : locker.waiting key =
    (locker.arrived key).filter fun c => ¬ locker.Settled c := by
  have hgranted : (locker.granted key).filter (fun c => ¬ locker.Settled c) = [] := by
    refine List.filter_eq_nil_iff.mpr fun c hc => ?_
    simpa using settled_iff.mpr (.inl (mem_granted.mp hc).1)
  have hwaiting : (locker.waiting key).filter (fun c => ¬ locker.Settled c) =
      locker.waiting key := by
    refine List.filter_eq_self.mpr fun c hc => ?_
    simpa using (hinv.mem_waiting.mp hc).2
  calc locker.waiting key
      = (locker.granted key ++ locker.waiting key).filter (fun c => ¬ locker.Settled c) := by
        rw [List.filter_append, hgranted, hwaiting, List.nil_append]
    _ = (locker.arrived key).filter fun c => ¬ locker.Settled c := by
        rw [hinv.line, List.filter_filter]
        refine List.filter_congr fun c _ => ?_
        by_cases hc : locker.Settled c
        · simp [hc]
        · have hrejected : c ∉ locker.rejected := fun h => hc (settled_iff.mpr (.inr h))
          simp [hc, hrejected]

theorem locked_of_holds (hinv : Inv locker) (hc : locker.Holds c)
    (hkey : locker.keyOf c = some key) :
    locker.locked key = true ∧ locker.holding key = [c] := by
  have hmem : c ∈ locker.holding key := mem_holding.mpr ⟨hc, hkey⟩
  cases hlocked : locker.locked key with
  | false => simp [(hinv.free key hlocked).1] at hmem
  | true =>
      obtain ⟨holder, hholder⟩ := hinv.owned key hlocked
      rw [hholder, List.mem_singleton] at hmem
      exact ⟨rfl, by rw [hholder, hmem]⟩

theorem fairMutex (hinv : Inv locker) : FairMutex locker where
  exclusive c c' hc hc' hkey := by
    cases hkey' : locker.keyOf c' with
    | none =>
        have hlt := hinv.known c' (settled_of_mem hc'.1)
        simp [keyOf, List.getElem?_eq_getElem hlt] at hkey'
    | some key =>
        have hholding := (hinv.locked_of_holds hc (hkey.trans hkey')).2
        rw [(hinv.locked_of_holds hc' hkey').2] at hholding
        exact (List.singleton_inj.mp hholding).symm
  inOrder key := by
    rw [hinv.line]
    exact List.filter_sublist
  remaining _ := hinv.waiting_eq
  settlesOnce := hinv.once
  timedOut c e hmem := by
    refine ⟨fun hok => ?_, fun key hwaiting => ?_⟩
    · cases hinv.eq_of_settled hmem hok
    · exact (hinv.mem_waiting.mp hwaiting).2 (settled_of_mem hmem)
  disarmed c hmem := by
    by_contra htimer
    obtain ⟨key, hwaiting⟩ := hinv.timed c (by simpa using htimer)
    exact (hinv.mem_waiting.mp hwaiting).2 (settled_of_mem hmem)
  held key hwaiting := by
    cases hlocked : locker.locked key with
    | false => exact absurd (hinv.free key hlocked).2 hwaiting
    | true =>
        obtain ⟨holder, hholder⟩ := hinv.owned key hlocked
        refine ⟨holder, mem_holding.mp ?_⟩
        rw [hholder]
        exact List.mem_singleton_self holder

end Inv

/-! ## What the updates do -/

section Updates

variable (locker) (key' : String) (entry : Entry) (running : Bool)

def numbered (request : Request) : Locker :=
  { locker with requests := locker.requests ++ [request] }

@[simp] theorem getEntry_setEntry : (locker.setEntry key entry).getEntry key' =
    if key' = key then entry else locker.getEntry key' := by
  simp only [getEntry, setEntry, Function.update_apply]
  split_ifs <;> rfl

@[simp] theorem waiting_setEntry : (locker.setEntry key entry).waiting key' =
    if key' = key then entry.queue else locker.waiting key' := by
  simp only [waiting, getEntry_setEntry]
  split_ifs <;> rfl

@[simp] theorem locked_setEntry : (locker.setEntry key entry).locked key' =
    if key' = key then entry.locked else locker.locked key' := by
  simp only [locked, getEntry_setEntry]
  split_ifs <;> rfl

@[simp] theorem waiting_settle :
    (locker.settle call outcome).waiting key' = locker.waiting key' := rfl

@[simp] theorem waiting_setTimer :
    (locker.setTimer call running).waiting key' = locker.waiting key' := rfl

@[simp] theorem waiting_numbered :
    (locker.numbered request).waiting key' = locker.waiting key' := rfl

@[simp] theorem locked_settle :
    (locker.settle call outcome).locked key' = locker.locked key' := rfl

@[simp] theorem locked_setTimer :
    (locker.setTimer call running).locked key' = locker.locked key' := rfl

@[simp] theorem locked_numbered :
    (locker.numbered request).locked key' = locker.locked key' := rfl

@[simp] theorem arrived_setEntry :
    (locker.setEntry key entry).arrived key' = locker.arrived key' := rfl

@[simp] theorem arrived_settle :
    (locker.settle call outcome).arrived key' = locker.arrived key' := rfl

@[simp] theorem arrived_setTimer :
    (locker.setTimer call running).arrived key' = locker.arrived key' := rfl

@[simp] theorem granted_setEntry :
    (locker.setEntry key entry).granted key' = locker.granted key' := rfl

@[simp] theorem granted_setTimer :
    (locker.setTimer call running).granted key' = locker.granted key' := rfl

@[simp] theorem settled_settle : (locker.settle call outcome).Settled c ↔
    locker.Settled c ∨ c = call := by
  simp [Settled, settle]

theorem resolved_settle : (locker.settle call outcome).resolved =
    locker.resolved ++ if outcome.isOk then [call] else [] := by
  simp only [resolved, settle, List.filterMap_append]
  split_ifs with hok <;> simp [hok]

theorem rejected_settle : (locker.settle call outcome).rejected =
    locker.rejected ++ if outcome.isOk then [] else [call] := by
  simp only [rejected, settle, List.filterMap_append]
  split_ifs with hok <;> simp [hok]

theorem granted_settle : (locker.settle call outcome).granted key =
    locker.granted key ++
      if outcome.isOk ∧ locker.keyOf call = some key then [call] else [] := by
  have hkey : (locker.settle call outcome).keyOf = locker.keyOf := rfl
  simp only [granted, resolved_settle, List.filter_append, hkey]
  by_cases hok : outcome.isOk = true
  · by_cases hcall : locker.keyOf call = some key <;> simp [hok, hcall]
  · simp [hok]

theorem keyOf_numbered (hc : c < locker.requests.length) :
    (locker.numbered request).keyOf c = locker.keyOf c := by
  simp only [keyOf, numbered, List.getElem?_append_left hc]

theorem keyOf_numbered_last :
    (locker.numbered request).keyOf locker.requests.length = some request.key := by
  simp [keyOf, numbered]

theorem length_numbered :
    (locker.numbered request).requests.length = locker.requests.length + 1 := by
  simp [numbered]

theorem arrived_numbered : (locker.numbered request).arrived key =
    locker.arrived key ++ if request.key = key then [locker.requests.length] else [] := by
  simp only [arrived, length_numbered, List.range_succ, List.filter_append]
  congr 1
  · refine List.filter_congr fun c hc => ?_
    rw [keyOf_numbered _ (List.mem_range.mp hc)]
  · by_cases hkey : request.key = key <;> simp [keyOf_numbered_last, hkey]

end Updates

theorem Inv.granted_numbered (hinv : Inv locker) :
    (locker.numbered request).granted key = locker.granted key := by
  refine List.filter_congr fun c hc => ?_
  rw [keyOf_numbered _ (hinv.known c (settled_of_mem (mem_resolved.mp hc)))]

namespace Inv

theorem once_settle (locker : Locker) (honce : (locker.settlements.map Prod.fst).Nodup)
    (hcall : ¬ locker.Settled call) :
    ((locker.settle call outcome).settlements.map Prod.fst).Nodup := by
  simp only [settle, List.map_append, List.map_cons, List.map_nil]
  refine List.nodup_append.mpr ⟨honce, List.nodup_singleton _, ?_⟩
  rintro c hc c' hc' rfl
  obtain rfl := List.mem_singleton.mp hc'
  exact hcall hc

theorem not_settled (hinv : Inv locker) : ¬ locker.Settled locker.requests.length :=
  fun h => absurd (hinv.known _ h) (Nat.lt_irrefl _)

theorem line_numbered (hinv : Inv locker) :
    ((locker.numbered request).arrived key).filter (fun c => c ∉ locker.rejected) =
      (locker.granted key ++ locker.waiting key) ++
        if request.key = key then [locker.requests.length] else [] := by
  have hnew : locker.requests.length ∉ locker.rejected := fun h =>
    hinv.not_settled (settled_iff.mpr (.inr h))
  rw [arrived_numbered, List.filter_append, ← hinv.line]
  split_ifs <;> simp [hnew]

theorem take (hinv : Inv locker) (hfree : locker.locked request.key = false) {entry : Entry}
    (hlocked : entry.locked = true) (hqueue : entry.queue = locker.waiting request.key) :
    Inv (((locker.numbered request).setEntry request.key entry).settle locker.requests.length
      (.ok ())) := by
  have hwaiting : ∀ key, (((locker.numbered request).setEntry request.key entry).settle
      locker.requests.length (.ok ())).waiting key = locker.waiting key := by
    intro key
    rw [waiting_settle, waiting_setEntry]
    split_ifs with hkey
    · rw [hqueue, hkey]
    · rfl
  have hgranted : ∀ key, (((locker.numbered request).setEntry request.key entry).settle
      locker.requests.length (.ok ())).granted key =
        locker.granted key ++ if request.key = key then [locker.requests.length] else [] := by
    intro key
    have hkeyOf : ((locker.numbered request).setEntry request.key entry).keyOf
        locker.requests.length = some request.key := keyOf_numbered_last _
    rw [granted_settle, granted_setEntry, hinv.granted_numbered, hkeyOf]
    by_cases hkey : request.key = key <;> simp [hkey, Except.isOk, Except.toBool]
  have hfreed : locker.requests.length ∉ locker.released := fun h =>
    hinv.not_settled (hinv.freed _ h)
  have hholding : ∀ key, (((locker.numbered request).setEntry request.key entry).settle
      locker.requests.length (.ok ())).holding key =
        locker.holding key ++ if request.key = key then [locker.requests.length] else [] := by
    intro key
    change List.filter (fun c => c ∉ locker.released) _ = _
    rw [hgranted, List.filter_append]
    by_cases hkey : request.key = key <;> simp [hkey, hfreed, holding]
  obtain ⟨hnone, hnobody⟩ := hinv.free _ hfree
  refine
    { once := once_settle ((locker.numbered request).setEntry request.key entry)
        hinv.once hinv.not_settled
      known := fun c hc => ?_
      line := fun key => ?_
      free := fun key hkey => ?_
      owned := fun key hkey => ?_
      freed := fun c hc => (settled_settle ..).mpr (.inl (hinv.freed c hc))
      timed := fun c hc => ?_ }
  · change c < (locker.numbered request).requests.length
    rw [length_numbered]
    rcases (settled_settle ..).mp hc with hc | rfl
    · exact Nat.lt_succ_of_lt (hinv.known c hc)
    · exact Nat.lt_succ_self _
  · have hline : (((locker.numbered request).setEntry request.key entry).settle
        locker.requests.length (.ok ())).rejected = locker.rejected := by
      rw [rejected_settle]
      simp [Except.isOk, Except.toBool, rejected, setEntry, numbered]
    rw [hgranted, hwaiting, arrived_settle, arrived_setEntry, hline, hinv.line_numbered]
    split_ifs with hkey
    · rw [hkey] at hnobody
      simp [hnobody]
    · simp
  · rw [locked_settle, locked_setEntry] at hkey
    split_ifs at hkey with heq
    · simp [hlocked] at hkey
    · rw [hholding, hwaiting, if_neg (Ne.symm heq), List.append_nil]
      exact hinv.free key hkey
  · rw [hholding]
    by_cases heq : request.key = key
    · subst heq
      exact ⟨_, by rw [hnone, if_pos rfl, List.nil_append]⟩
    · rw [locked_settle, locked_setEntry, if_neg (Ne.symm heq)] at hkey
      rw [if_neg heq, List.append_nil]
      exact hinv.owned key hkey
  · obtain ⟨key, hkey⟩ := hinv.timed c hc
    exact ⟨key, (hwaiting key).symm ▸ hkey⟩

/-- A call that finds the lock taken goes to the end of the queue. -/
theorem enqueue (hinv : Inv locker) (htaken : locker.locked request.key = true) {entry : Entry}
    (hlocked : entry.locked = true)
    (hqueue : entry.queue = locker.waiting request.key ++ [locker.requests.length])
    (running : Bool) :
    Inv (((locker.numbered request).setEntry request.key entry).setTimer locker.requests.length
      running) := by
  have hwaiting : ∀ key, (((locker.numbered request).setEntry request.key entry).setTimer
      locker.requests.length running).waiting key =
        locker.waiting key ++ if request.key = key then [locker.requests.length] else [] := by
    intro key
    rw [waiting_setTimer, waiting_setEntry]
    by_cases hkey : request.key = key
    · simp [hkey ▸ hqueue, hkey]
    · simp [hkey, Ne.symm hkey]
  have hgranted : ∀ key, (((locker.numbered request).setEntry request.key entry).setTimer
      locker.requests.length running).granted key = locker.granted key := by
    intro key
    rw [granted_setTimer, granted_setEntry, hinv.granted_numbered]
  have hholding : ∀ key, (((locker.numbered request).setEntry request.key entry).setTimer
      locker.requests.length running).holding key = locker.holding key := by
    intro key
    change List.filter (fun c => c ∉ locker.released) _ = _
    rw [hgranted, holding]
  refine
    { once := hinv.once
      known := fun c hc => ?_
      line := fun key => ?_
      free := fun key hkey => ?_
      owned := fun key hkey => ?_
      freed := hinv.freed
      timed := fun c hc => ?_ }
  · change c < (locker.numbered request).requests.length
    rw [length_numbered]
    exact Nat.lt_succ_of_lt (hinv.known c hc)
  · change _ = List.filter (fun c => c ∉ locker.rejected) _
    rw [hgranted, hwaiting, arrived_setTimer, arrived_setEntry, hinv.line_numbered,
      List.append_assoc]
  · rw [locked_setTimer, locked_setEntry] at hkey
    split_ifs at hkey with heq
    · simp [hlocked] at hkey
    · rw [hholding, hwaiting, if_neg (Ne.symm heq), List.append_nil]
      exact hinv.free key hkey
  · rw [hholding]
    rw [locked_setTimer, locked_setEntry] at hkey
    split_ifs at hkey with heq
    · exact hinv.owned key (heq ▸ htaken)
    · exact hinv.owned key hkey
  · by_cases hnew : c = locker.requests.length
    · refine ⟨request.key, ?_⟩
      rw [hwaiting, if_pos rfl, hnew]
      simp
    · have hold : locker.timers c = true := by
        simpa [setTimer, setEntry, numbered, Function.update_apply, hnew] using hc
      obtain ⟨key, hkey⟩ := hinv.timed c hold
      refine ⟨key, ?_⟩
      rw [hwaiting]
      exact List.mem_append_left _ hkey

theorem acquire (hinv : Inv locker) (request : Request) : Inv (locker.acquire request) := by
  unfold Locker.acquire
  dsimp only
  split_ifs with hfree
  · exact hinv.take hfree rfl rfl
  · have htaken : locker.locked request.key = true := by
      rw [locked]
      simpa using hfree
    refine hinv.enqueue htaken ?_ ?_ _
    · exact htaken
    · rfl

/-- Queues are disjoint. -/
theorem notMem_waiting (hinv : Inv locker) (hcall : call ∈ locker.waiting key) {key' : String}
    (hne : key' ≠ key) : call ∉ locker.waiting key' := by
  intro hwaiting
  have hkey := (hinv.mem_waiting.mp hcall).1
  rw [(hinv.mem_waiting.mp hwaiting).1] at hkey
  exact hne (Option.some.inj hkey)

/-- The timers after a call has left the queue of its key. -/
theorem timed_erase (hinv : Inv locker) (call : Nat) {waiting : String → List Nat}
    (hwaiting : ∀ key', ∀ c ∈ locker.waiting key', c ≠ call → c ∈ waiting key') {c : Nat}
    (hc : (locker.setTimer call false).timers c = true) : ∃ key', c ∈ waiting key' := by
  simp only [setTimer, Function.update_apply] at hc
  split_ifs at hc with heq
  obtain ⟨key', hkey⟩ := hinv.timed c hc
  exact ⟨key', hwaiting key' c hkey heq⟩

theorem timeOut (hinv : Inv locker) (hcall : call ∈ locker.waiting key) {entry : Entry}
    (hlocked : entry.locked = locker.locked key)
    (hqueue : entry.queue = (locker.waiting key).erase call) (e : Err) :
    Inv (((locker.setTimer call false).setEntry key entry).settle call (.error e)) := by
  obtain ⟨hkeyOf, hsettled⟩ := hinv.mem_waiting.mp hcall
  have hwaiting : ∀ key', (((locker.setTimer call false).setEntry key entry).settle call
      (.error e)).waiting key' = (locker.waiting key').erase call := by
    intro key'
    rw [waiting_settle, waiting_setEntry]
    split_ifs with heq
    · rw [hqueue, heq]
    · exact (List.erase_of_not_mem (hinv.notMem_waiting hcall heq)).symm
  have hgranted : ∀ key', (((locker.setTimer call false).setEntry key entry).settle call
      (.error e)).granted key' = locker.granted key' := by
    intro key'
    rw [granted_settle]
    simp [Except.isOk, Except.toBool]
  have hholding : ∀ key', (((locker.setTimer call false).setEntry key entry).settle call
      (.error e)).holding key' = locker.holding key' := by
    intro key'
    change List.filter (fun c => c ∉ locker.released) _ = _
    rw [hgranted, holding]
  have hstill : ∀ key', (((locker.setTimer call false).setEntry key entry).settle call
      (.error e)).locked key' = locker.locked key' := by
    intro key'
    rw [locked_settle, locked_setEntry]
    split_ifs with heq
    · rw [hlocked, heq]
    · rfl
  refine
    { once := once_settle ((locker.setTimer call false).setEntry key entry)
        hinv.once hsettled
      known := fun c hc => ?_
      line := fun key' => ?_
      free := fun key' hkey => ?_
      owned := fun key' hkey => ?_
      freed := fun c hc => (settled_settle ..).mpr (.inl (hinv.freed c hc))
      timed := fun c hc => ?_ }
  · rcases (settled_settle ..).mp hc with hc | rfl
    · exact hinv.known c hc
    · exact lt_of_mem_arrived (mem_arrived.mpr hkeyOf)
  · have hrejected : (((locker.setTimer call false).setEntry key entry).settle call
        (.error e)).rejected = locker.rejected ++ [call] := rejected_settle ..
    have hnotGranted : call ∉ locker.granted key' := fun h =>
      hsettled (settled_iff.mpr (.inl (mem_granted.mp h).1))
    calc _ = locker.granted key' ++ (locker.waiting key').erase call := by
          rw [hgranted, hwaiting]
      _ = (locker.granted key' ++ locker.waiting key').erase call :=
          (List.erase_append_right _ hnotGranted).symm
      _ = ((locker.arrived key').filter fun c => c ∉ locker.rejected).filter (· ≠ call) := by
          rw [hinv.nodup_line.erase_eq_filter, hinv.line]
          exact List.filter_congr fun c _ => by by_cases hc : c = call <;> simp [hc]
      _ = _ := by
          rw [hrejected, List.filter_filter]
          refine List.filter_congr fun c _ => ?_
          by_cases hc : c = call <;> simp [hc]
  · rw [hstill] at hkey
    obtain ⟨hnone, hnobody⟩ := hinv.free key' hkey
    exact ⟨(hholding key').trans hnone, by rw [hwaiting, hnobody, List.erase_nil]⟩
  · rw [hstill] at hkey
    rw [hholding]
    exact hinv.owned key' hkey
  · refine hinv.timed_erase call (fun key' c hc hne => ?_) hc
    rw [hwaiting]
    exact (List.mem_erase_of_ne hne).mpr hc

theorem expire (hinv : Inv locker) (call : Nat) (request : Request)
    (hrequest : locker.requests[call]? = some request) (hrunning : locker.timers call = true) :
    Inv (locker.expire call request) := by
  obtain ⟨key, hwaiting⟩ := hinv.timed call hrunning
  obtain rfl : request.key = key := by
    have hkey := (hinv.mem_waiting.mp hwaiting).1
    simpa [keyOf, hrequest] using hkey
  have hqueued : call ∈ (locker.getEntry request.key).queue := hwaiting
  simp only [Locker.expire, if_pos hqueued]
  refine hinv.timeOut hwaiting ?_ ?_ _
  · rfl
  · rfl

theorem granted_filter_released {holder : Nat} {key' : String} :
    (locker.granted key').filter (fun c => c ∉ locker.released ++ [holder]) =
      (locker.holding key').filter (· ≠ holder) := by
  rw [holding, List.filter_filter]
  refine List.filter_congr fun c _ => ?_
  by_cases hc : c = holder <;> simp [hc]

theorem holding_released (hinv : Inv locker) {holder : Nat} (hholds : locker.Holds holder)
    (hkeyOf : locker.keyOf holder = some key) (key' : String) :
    (locker.granted key').filter (fun c => c ∉ locker.released ++ [holder]) =
      if key = key' then [] else locker.holding key' := by
  rw [granted_filter_released]
  split_ifs with heq
  · rw [← heq, (hinv.locked_of_holds hholds hkeyOf).2]
    simp
  · refine List.filter_eq_self.mpr fun c hc => ?_
    have hkey := (mem_holding.mp hc).2
    have hne : c ≠ holder := by
      rintro rfl
      exact heq (Option.some.inj (hkeyOf.symm.trans hkey))
    simpa using hne

/-- The lock goes from its holder to the first in the queue. -/
theorem passOn (hinv : Inv locker) {holder : Nat} (hholds : locker.Holds holder)
    (hkeyOf : locker.keyOf holder = some key) {first : Nat} {rest : List Nat}
    (hfirst : locker.waiting key = first :: rest) {entry : Entry}
    (hlocked : entry.locked = true) (hqueue : entry.queue = rest) :
    Inv { (locker.setEntry key entry).resolve first with
      released := locker.released ++ [holder] } := by
  generalize hnext : { (locker.setEntry key entry).resolve first with
    released := locker.released ++ [holder] } = next
  obtain ⟨htaken, hheld⟩ := hinv.locked_of_holds hholds hkeyOf
  have hcall : first ∈ locker.waiting key := hfirst ▸ List.mem_cons_self
  obtain ⟨hkey, hsettled⟩ := hinv.mem_waiting.mp hcall
  have hne : first ≠ holder := fun h => hsettled (h ▸ settled_of_mem hholds.1)
  have hfreed : first ∉ locker.released := fun h => hsettled (hinv.freed _ h)
  have hwaiting : ∀ key', next.waiting key' = (locker.waiting key').erase first := by
    subst hnext
    intro key'
    change ((locker.setEntry key entry).waiting key') = _
    rw [waiting_setEntry]
    split_ifs with heq
    · rw [hqueue, heq, hfirst, List.erase_cons_head]
    · exact (List.erase_of_not_mem (hinv.notMem_waiting hcall heq)).symm
  have hgranted : ∀ key', next.granted key' =
      locker.granted key' ++ if key = key' then [first] else [] := by
    subst hnext
    intro key'
    change (((locker.setEntry key entry).setTimer first false).settle first (.ok ())).granted key' = _
    have hkey' : ((locker.setEntry key entry).setTimer first false).keyOf first = some key := hkey
    rw [granted_settle, granted_setTimer, granted_setEntry, hkey']
    by_cases heq : key = key' <;> simp [heq, Except.isOk, Except.toBool]
  have hholding : ∀ key', next.holding key' =
      if key = key' then [first] else locker.holding key' := by
    intro key'
    have hreleased : next.released = locker.released ++ [holder] := by
      subst hnext
      rfl
    rw [holding, hreleased, hgranted, List.filter_append, hinv.holding_released hholds hkeyOf]
    split_ifs with heq
    · simp [hfreed, hne]
    · simp
  have hstill : ∀ key', next.locked key' = locker.locked key' := by
    subst hnext
    intro key'
    change (locker.setEntry key entry).locked key' = _
    rw [locked_setEntry]
    split_ifs with heq
    · rw [hlocked, heq, htaken]
    · rfl
  have hsettledNext : ∀ c, next.Settled c ↔ locker.Settled c ∨ c = first := by
    subst hnext
    intro c
    exact settled_settle ..
  refine
    { once := ?_
      known := fun c hc => ?_
      line := fun key' => ?_
      free := fun key' hkey' => ?_
      owned := fun key' hkey' => ?_
      freed := fun c hc => (hsettledNext c).mpr ?_
      timed := fun c hc => ?_ }
  · subst hnext
    exact once_settle _ hinv.once hsettled
  · have hlength : next.requests = locker.requests := by
      subst hnext
      rfl
    rw [hlength]
    rcases (hsettledNext c).mp hc with hc | rfl
    · exact hinv.known c hc
    · exact lt_of_mem_arrived (mem_arrived.mpr hkey)
  · have harrived : next.arrived key' = locker.arrived key' := by
      subst hnext
      rfl
    have hrejected : next.rejected = locker.rejected := by
      subst hnext
      refine (rejected_settle ..).trans ?_
      simp [Except.isOk, Except.toBool, rejected, setTimer, setEntry]
    rw [hgranted, hwaiting, harrived, hrejected, ← hinv.line]
    split_ifs with heq
    · rw [← heq, hfirst, List.erase_cons_head, List.append_assoc, List.singleton_append]
    · rw [List.append_nil, List.erase_of_not_mem (hinv.notMem_waiting hcall (Ne.symm heq))]
  · rw [hstill] at hkey'
    have heq : key ≠ key' := by
      rintro rfl
      rw [htaken] at hkey'
      cases hkey'
    obtain ⟨hnone, hnobody⟩ := hinv.free key' hkey'
    refine ⟨?_, ?_⟩
    · rw [hholding, if_neg heq, hnone]
    · rw [hwaiting, hnobody, List.erase_nil]
  · rw [hholding]
    split_ifs with heq
    · exact ⟨first, rfl⟩
    · rw [hstill] at hkey'
      exact hinv.owned key' hkey'
  · have hreleased : next.released = locker.released ++ [holder] := by
      subst hnext
      rfl
    rw [hreleased, List.mem_append, List.mem_singleton] at hc
    rcases hc with hc | rfl
    · exact .inl (hinv.freed c hc)
    · exact .inl (settled_of_mem hholds.1)
  · refine hinv.timed_erase first (fun key' c hc hne => ?_) ?_
    · rw [hwaiting]
      exact (List.mem_erase_of_ne hne).mpr hc
    · subst hnext
      exact hc

/-- The holder of a lock for which nobody waits gives it back. -/
theorem unlock (hinv : Inv locker) {holder : Nat} (hholds : locker.Holds holder)
    (hkeyOf : locker.keyOf holder = some key) (hnobody : locker.waiting key = [])
    {entry : Entry} (hlocked : entry.locked = false) (hqueue : entry.queue = []) :
    Inv { locker.setEntry key entry with released := locker.released ++ [holder] } := by
  generalize hnext : { locker.setEntry key entry with
    released := locker.released ++ [holder] } = next
  have hwaiting : ∀ key', next.waiting key' = locker.waiting key' := by
    subst hnext
    intro key'
    change (locker.setEntry key entry).waiting key' = _
    rw [waiting_setEntry]
    split_ifs with heq
    · rw [hqueue, heq, hnobody]
    · rfl
  have hholding : ∀ key', next.holding key' =
      if key = key' then [] else locker.holding key' := by
    subst hnext
    exact hinv.holding_released hholds hkeyOf
  have hstill : ∀ key', next.locked key' =
      if key' = key then false else locker.locked key' := by
    subst hnext
    intro key'
    rw [← hlocked]
    exact locked_setEntry ..
  refine
    { once := ?_
      known := ?_
      line := fun key' => ?_
      free := fun key' hkey' => ?_
      owned := fun key' hkey' => ?_
      freed := fun c hc => ?_
      timed := fun c hc => ?_ }
  · subst hnext
    exact hinv.once
  · subst hnext
    exact hinv.known
  · rw [hwaiting]
    subst hnext
    exact hinv.line key'
  · rw [hwaiting, hholding]
    rw [hstill] at hkey'
    split_ifs at hkey' with heq
    · rw [heq, if_pos rfl]
      exact ⟨rfl, hnobody⟩
    · rw [if_neg (Ne.symm heq)]
      exact hinv.free key' hkey'
  · rw [hstill] at hkey'
    split_ifs at hkey' with heq
    rw [hholding, if_neg (Ne.symm heq)]
    exact hinv.owned key' hkey'
  · subst hnext
    rcases List.mem_append.mp hc with hc | hc
    · exact hinv.freed c hc
    · obtain rfl := List.mem_singleton.mp hc
      exact settled_of_mem hholds.1
  · have htimers : next.timers = locker.timers := by
      subst hnext
      rfl
    rw [htimers] at hc
    obtain ⟨key', hkey'⟩ := hinv.timed c hc
    exact ⟨key', (hwaiting key').symm ▸ hkey'⟩

theorem releaseFor (hinv : Inv locker) (hholds : locker.Holds call)
    (hrequest : locker.requests[call]? = some request) :
    Inv (locker.releaseFor call request) := by
  have hkeyOf : locker.keyOf call = some request.key := by simp [keyOf, hrequest]
  have htaken := (hinv.locked_of_holds hholds hkeyOf).1
  cases hentry : locker.locks request.key with
  | none => simp [locked, getEntry, hentry] at htaken
  | some entry =>
      have hlocked : entry.locked = true := by simpa [locked, getEntry, hentry] using htaken
      have hwaiting : locker.waiting request.key = entry.queue := by
        simp [waiting, getEntry, hentry]
      simp only [Locker.releaseFor, release, hentry, hlocked, Bool.true_eq_false, if_false]
      cases hqueue : entry.queue with
      | nil => exact hinv.unlock hholds hkeyOf (hwaiting.trans hqueue) rfl rfl
      | cons first rest =>
          exact hinv.passOn hholds hkeyOf (hwaiting.trans hqueue) rfl rfl

end Inv

/-! ## Runs -/

theorem inv_step {next : Locker} {action : Action} (hinv : Inv locker)
    (hholder : locker.ByHolder action) (hstep : locker.step action = some next) : Inv next := by
  cases action with
  | acquire request =>
      obtain rfl := Option.some.inj hstep
      exact hinv.acquire request
  | expire call =>
      obtain ⟨request, hrequest, hnext⟩ := Option.bind_eq_some_iff.mp hstep
      split_ifs at hnext with hrunning
      obtain rfl := Option.some.inj hnext
      exact hinv.expire call request hrequest hrunning
  | release call =>
      obtain ⟨request, hrequest, rfl⟩ := Option.map_eq_some_iff.mp hstep
      exact hinv.releaseFor hholder hrequest

theorem fairMutex_of_run (hrun : Machine.Run step ByHolder {} locker) : FairMutex locker :=
  (hrun.inv inv_empty fun _ _ _ hinv hholder hstep => inv_step hinv hholder hstep).fairMutex

namespace Sample

def counter (timeoutMs : Option Nat) : Request := ⟨"Counter", .string "a", timeoutMs⟩

/-- Three calls for one counter: the second times out in the queue, the third gets the lock. -/
theorem fairMutex_of_run_contended :
    ∃ locker, Machine.Run step ByHolder {} locker ∧
      locker.granted "Counter:a" = [0, 2] ∧ FairMutex locker := by
  have hplay : (Machine.playMeeting step ByHolder
      [.acquire (counter none), .acquire (counter (some 5)), .acquire (counter (some 9)),
        .expire 1, .release 0] {}).map (fun locker => locker.granted "Counter:a") =
      some [0, 2] := by decide +kernel
  obtain ⟨locker, hlocker, hgranted⟩ := Option.map_eq_some_iff.mp hplay
  have hrun := Machine.run_of_playMeeting hlocker
  exact ⟨locker, hrun, hgranted, fairMutex_of_run hrun⟩

end Sample

end Noddde.InMemoryAggregateLocker.Locker
