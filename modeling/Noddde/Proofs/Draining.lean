import Noddde.Engine.RelayDrain
import Noddde.Proofs.Outbox
/-!
# Draining the outbox

The batch that a call of `drain` awaits is its own, so it returns zero only when it has
found nothing to publish.  A batch of the timer that is in progress when `drain` is
called makes `processOnce` return zero as well.
-/

namespace Noddde.OutboxRelay

variable {J : Type} {store : OutboxStore J} {relay : Relay J} {batchSize : Option Nat}

/-! ## The unpublished entries -/

theorem unpublished_eq_nil :
    unpublished store = [] ↔ ∀ id entry, store.get id = some entry → entry.publishedAt ≠ none := by
  unfold unpublished
  rw [List.filter_eq_nil_iff]
  constructor
  · intro h id entry hget hnone
    exact h entry ((store.mem_values_iff entry).mpr ⟨id, hget⟩) (by simp [hnone])
  · intro h entry hmem hnone
    obtain ⟨id, hget⟩ := (store.mem_values_iff entry).mp hmem
    exact h id entry hget (by simpa using hnone)

theorem unpublished_markPublished_nil (h : unpublished store = []) (now : Nat) (id : String) :
    unpublished (store.markPublished now [id]) = [] := by
  rw [unpublished_eq_nil] at h ⊢
  intro id' entry hget
  rcases OutboxStore.get_markPublished store now id id' with hsame | ⟨-, before, -, hmarked⟩
  · exact h id' entry (hsame ▸ hget)
  · obtain rfl := Option.some.inj (hget.symm.trans hmarked)
    exact Option.some_ne_none now

theorem unpublished_markPublishedByEventIds_nil (h : unpublished store = []) (now : Nat)
    (eventIds : List String) :
    unpublished (store.markPublishedByEventIds now eventIds) = [] := by
  rw [unpublished_eq_nil] at h ⊢
  intro id' entry hget
  rcases OutboxStore.get_markPublishedByEventIds store now eventIds id' with
    hsame | ⟨before, -, -, hmarked⟩
  · exact h id' entry (hsame ▸ hget)
  · obtain rfl := Option.some.inj (hget.symm.trans hmarked)
    exact Option.some_ne_none now

/-- A batch is empty only when there is nothing left. -/
theorem unpublished_of_load_nil {n : Nat} (hn : n ≠ 0) (h : loadUnpublished store n = []) :
    unpublished store = [] := by
  rcases List.take_eq_nil_iff.mp h with rfl | hsorted
  · exact absurd rfl hn
  · have hlength := congrArg List.length hsorted
    rw [oldestFirst, List.length_insertionSort] at hlength
    exact List.eq_nil_of_length_eq_zero hlength

/-! ## The invariant -/

/-- A batch that returns zero leaves nothing. -/
def Batch.Empties (store : OutboxStore J) : Batch J → Prop
  | .loading entries => entries = [] → unpublished store = []
  | .returned dispatched => dispatched = 0 → unpublished store = []
  | .dispatching .. | .marking .. => True

theorem Batch.Empties.mono {batch : Batch J} (h : batch.Empties store) {store' : OutboxStore J}
    (hstore : unpublished store = [] → unpublished store' = []) : batch.Empties store' := by
  cases batch with
  | loading entries => exact fun hnil => hstore (h hnil)
  | returned dispatched => exact fun hzero => hstore (h hzero)
  | dispatching dispatched entry rest => trivial
  | marking dispatched rest => trivial

namespace Relay

structure Inv (relay : Relay J) : Prop where
  running : relay.calls.countP Batch.isRunning = if relay.processing then 1 else 0
  fresh : relay.drained = false → relay.drains = []
  first : ∀ call batch, relay.drains[call]? = some (.waits batch) → call = 0
  waits : ∀ batch, .waits batch ∈ relay.drains →
    ∃ b, relay.calls[batch]? = some b ∧ b.Empties relay.outboxStore
  drains : relay.Drains

theorem inv_idle : Inv ({ outboxStore := store } : Relay J) where
  running := rfl
  fresh _ := rfl
  first := by simp
  waits := by simp
  drains := by simp [Drains]

theorem draining_of_waits {batch : Nat} (h : .waits batch ∈ relay.drains) : relay.Draining :=
  ⟨_, h, rfl⟩

namespace Inv

theorem processing (hinv : Inv relay) {call : Nat} {batch : Batch J}
    (hcall : relay.calls[call]? = some batch) (hrunning : batch.isRunning = true) :
    relay.processing = true := by
  by_contra hidle
  have hnone := hinv.running
  rw [if_neg hidle, List.countP_eq_zero] at hnone
  exact hnone batch (List.mem_of_getElem? hcall) hrunning

/-! ## A call of processOnce -/

theorem move (hinv : Inv relay) {call : Nat} {batch : Batch J} (batch' : Batch J)
    (store : OutboxStore J) (hcall : relay.calls[call]? = some batch) (hrunning : batch.isRunning = true)
    (hempties : relay.Draining → batch.Empties relay.outboxStore → batch'.Empties store)
    (hstore : unpublished relay.outboxStore = [] → unpublished store = []) :
    Inv { relay with
      outboxStore := store
      processing := batch'.isRunning
      calls := relay.calls.set call batch' } where
  running := by
    obtain ⟨hlt, hget⟩ := List.getElem?_eq_some_iff.mp hcall
    have hcount := hinv.running
    rw [if_pos (hinv.processing hcall hrunning)] at hcount
    rw [List.countP_set hlt, hcount, hget, if_pos hrunning, Nat.sub_self, Nat.zero_add]
  fresh := hinv.fresh
  first := hinv.first
  waits awaited hwaits := by
    obtain ⟨b, hb, hbempties⟩ := hinv.waits awaited hwaits
    by_cases heq : call = awaited
    · subst heq
      obtain rfl : batch = b := Option.some.inj (hcall.symm.trans hb)
      obtain ⟨hlt, -⟩ := List.getElem?_eq_some_iff.mp hcall
      exact ⟨batch', List.getElem?_set_self hlt, hempties (draining_of_waits hwaits) hbempties⟩
    · exact ⟨b, (List.getElem?_set_ne heq).trans hb, hbempties.mono hstore⟩
  drains := hinv.drains

theorem stay (hinv : Inv relay) {call : Nat} {batch : Batch J} (batch' : Batch J)
    (store : OutboxStore J) (hcall : relay.calls[call]? = some batch)
    (hrunning : batch.isRunning = true) (hrunning' : batch'.isRunning = true)
    (hempties : batch'.Empties store)
    (hstore : unpublished relay.outboxStore = [] → unpublished store = []) :
    Inv { relay with outboxStore := store, calls := relay.calls.set call batch' } := by
  have hmove := hinv.move batch' store hcall hrunning (fun _ _ => hempties) hstore
  rwa [hrunning', ← hinv.processing hcall hrunning] at hmove

theorem proceed (hinv : Inv relay) {call dispatched : Nat} {batch : Batch J}
    {rest : List (OutboxEntry J)} (hcall : relay.calls[call]? = some batch)
    (hrunning : batch.isRunning = true)
    (hempties : relay.Draining → batch.Empties relay.outboxStore → rest = [] →
      dispatched = 0 → unpublished relay.outboxStore = []) :
    Inv (relay.proceed call dispatched rest) := by
  cases rest with
  | nil =>
      exact hinv.move (.returned dispatched) _ hcall hrunning
        (fun hdraining h => hempties hdraining h rfl) id
  | cons entry rest =>
      exact hinv.stay (.dispatching dispatched entry rest) _ hcall hrunning rfl trivial id

theorem settle (hinv : Inv relay) {call now : Nat} {ok : Bool} {next : Relay J}
    (hok : relay.Draining → ok = true) (hstep : relay.settle call ok now = some next) :
    Inv next := by
  unfold Relay.settle at hstep
  split at hstep
  · rename_i entries hcall
    obtain rfl := Option.some.inj hstep
    refine hinv.proceed hcall rfl fun hdraining hbatch hnil _ => hbatch ?_
    rwa [hok hdraining, if_pos rfl] at hnil
  · rename_i dispatched entry rest hcall
    obtain rfl := Option.some.inj hstep
    cases ok with
    | true =>
        exact hinv.stay (.marking dispatched rest) _ hcall rfl rfl trivial fun h =>
          unpublished_markPublished_nil h now entry.id
    | false =>
        refine hinv.proceed hcall rfl fun hdraining => ?_
        exact absurd (hok hdraining) Bool.false_ne_true
  · rename_i dispatched rest hcall
    obtain rfl := Option.some.inj hstep
    refine hinv.proceed hcall rfl fun hdraining _ _ hzero => ?_
    rw [hok hdraining, if_pos rfl] at hzero
    exact absurd hzero (Nat.succ_ne_zero dispatched)
  · cases hstep
  · cases hstep

theorem processOnce (hinv : Inv relay) : Inv (relay.processOnce batchSize) := by
  have hwaits {batches : List (Batch J)} (awaited : Nat) (h : .waits awaited ∈ relay.drains) :
      ∃ b, (relay.calls ++ batches)[awaited]? = some b ∧ b.Empties relay.outboxStore := by
    obtain ⟨b, hb, hempties⟩ := hinv.waits awaited h
    obtain ⟨hlt, -⟩ := List.getElem?_eq_some_iff.mp hb
    exact ⟨b, (List.getElem?_append_left hlt).trans hb, hempties⟩
  unfold Relay.processOnce
  split_ifs with hprocessing
  · exact
      { running := by
          rw [List.countP_append, hinv.running]
          rfl
        fresh := hinv.fresh
        first := hinv.first
        waits := hwaits
        drains := hinv.drains }
  · exact
      { running := by
          rw [List.countP_append, hinv.running, if_neg hprocessing]
          rfl
        fresh := hinv.fresh
        first := hinv.first
        waits := hwaits
        drains := hinv.drains }

/-- The batch that `drain` starts is its own. -/
theorem own (hsize : batchSize ≠ some 0) (hidle : relay.processing = false) :
    ∃ b, (relay.processOnce batchSize).calls[relay.calls.length]? = some b ∧
      b.Empties (relay.processOnce batchSize).outboxStore := by
  unfold Relay.processOnce
  rw [if_neg (by simp [hidle])]
  refine ⟨_, List.getElem?_concat_length, fun hnil => unpublished_of_load_nil ?_ hnil⟩
  cases batchSize with
  | none => exact Nat.succ_ne_zero _
  | some n => exact fun hzero => hsize (congrArg some hzero)

/-! ## A call of drain -/

theorem await (hinv : Inv relay) (hsize : batchSize ≠ some 0)
    (hidle : relay.processing = false) {drains : List Drain} (hdrained : relay.drained = true)
    (hfirst : ∀ call batch, drains[call]? = some (.waits batch) → call = 0)
    (hwaits : ∀ batch, .waits batch ∈ drains →
      batch = relay.calls.length ∨ .waits batch ∈ relay.drains)
    (hresolved : ∀ remains, .resolved remains ∈ drains → .resolved remains ∈ relay.drains) :
    Inv { relay.processOnce batchSize with drains } where
  running := hinv.processOnce.running
  fresh hfresh := by
    have hsame : (relay.processOnce batchSize).drained = relay.drained := by
      unfold Relay.processOnce
      split_ifs <;> rfl
    rw [hsame, hdrained] at hfresh
    cases hfresh
  first := hfirst
  waits batch hbatch := by
    rcases hwaits batch hbatch with rfl | hbatch
    · exact own hsize hidle
    · refine hinv.processOnce.waits batch ?_
      unfold Relay.processOnce
      split_ifs <;> exact hbatch
  drains remains hremains := hinv.drains remains (hresolved remains hremains)

theorem drain (hinv : Inv relay) (hsize : batchSize ≠ some 0)
    (hundisturbed : relay.Undisturbed .drain) : Inv (relay.drain batchSize) := by
  obtain ⟨hidle, hagain⟩ := hundisturbed
  unfold Relay.drain
  split_ifs with hdrained
  · obtain ⟨hpending, hnil⟩ := hagain hdrained
    have hremains : relay.remains relay.drains = {} := by
      unfold Relay.remains
      rw [hinv.running, hidle, hnil, List.countP_eq_zero.mpr]
      · rfl
      · exact fun drain hdrain hwaits => hpending ⟨drain, hdrain, hwaits⟩
    exact
      { running := hinv.running
        fresh := fun hfresh => absurd (hdrained.symm.trans hfresh) Bool.noConfusion
        first := by
          intro call batch hget
          rcases List.mem_append.mp (List.mem_of_getElem? hget) with hmem | hmem
          · exact absurd (draining_of_waits hmem) hpending
          · cases List.mem_singleton.mp hmem
        waits := by
          intro batch hbatch
          rcases List.mem_append.mp hbatch with hmem | hmem
          · exact hinv.waits batch hmem
          · cases List.mem_singleton.mp hmem
        drains := by
          intro remains hmem
          rcases List.mem_append.mp hmem with hmem | hmem
          · exact hinv.drains remains hmem
          · cases List.mem_singleton.mp hmem
            exact hremains }
  · have hnone := hinv.fresh (by simpa using hdrained)
    have hstopped : Inv ({ relay with drained := true }.stop) :=
      { running := hinv.running
        fresh := fun hfresh => by cases hfresh
        first := hinv.first
        waits := hinv.waits
        drains := hinv.drains }
    refine hstopped.await hsize hidle rfl ?_ ?_ ?_
    · intro call batch hget
      rw [hnone] at hget
      cases call with
      | zero => rfl
      | succ call => cases hget
    · intro batch hbatch
      rw [hnone] at hbatch
      cases List.mem_singleton.mp hbatch
      exact .inl rfl
    · intro remains hmem
      rw [hnone] at hmem
      cases List.mem_singleton.mp hmem

theorem goOn (hinv : Inv relay) (hsize : batchSize ≠ some 0) {call : Nat}
    (hidle : relay.processing = false) {next : Relay J}
    (hstep : relay.goOn batchSize call = some next) : Inv next := by
  unfold Relay.goOn at hstep
  split at hstep
  · rename_i batch hcall
    have hmem : Drain.waits batch ∈ relay.drains := List.mem_of_getElem? hcall
    obtain rfl := hinv.first call batch hcall
    have hfirst : ∀ drain call batch', (relay.drains.set 0 drain)[call]? =
        some (.waits batch') → call = 0 := by
      intro drain call batch' hget
      by_contra hne
      rw [List.getElem?_set_ne (Ne.symm hne)] at hget
      exact hne (hinv.first call batch' hget)
    split at hstep
    · rename_i processed hbatch
      obtain rfl := Option.some.inj hstep
      split_ifs with hprocessed
      · refine hinv.await hsize hidle ?_ (hfirst _) ?_ ?_
        · by_contra hfresh
          rw [hinv.fresh (by simpa using hfresh)] at hmem
          cases hmem
        · intro batch' hbatch'
          rcases List.mem_or_eq_of_mem_set hbatch' with hbatch' | heq
          · exact .inr hbatch'
          · cases heq
            exact .inl rfl
        · intro remains hremains
          rcases List.mem_or_eq_of_mem_set hremains with hremains | heq
          · exact hremains
          · cases heq
      · obtain ⟨b, hb, hempties⟩ := hinv.waits batch hmem
        obtain rfl : .returned processed = b := Option.some.inj (hbatch.symm.trans hb)
        have hnil : unpublished relay.outboxStore = [] :=
          hempties (Nat.eq_zero_of_not_pos hprocessed)
        have hremains : relay.remains (relay.drains.take 0) = {} := by
          unfold Relay.remains
          rw [hinv.running, hidle, hnil]
          rfl
        exact
          { running := hinv.running
            fresh := by
              intro hfresh
              rw [hinv.fresh hfresh] at hmem
              cases hmem
            first := hfirst _
            waits := by
              intro batch' hbatch'
              rcases List.mem_or_eq_of_mem_set hbatch' with hbatch' | heq
              · exact hinv.waits batch' hbatch'
              · cases heq
            drains := by
              intro remains hmem'
              rcases List.mem_or_eq_of_mem_set hmem' with hmem' | heq
              · exact hinv.drains remains hmem'
              · cases heq
                exact hremains }
    · cases hstep
  · cases hstep

theorem change (hinv : Inv relay) {store : OutboxStore J}
    (hstore : relay.Draining → unpublished relay.outboxStore = [] → unpublished store = []) :
    Inv { relay with outboxStore := store } where
  running := hinv.running
  fresh := hinv.fresh
  first := hinv.first
  waits batch hbatch := by
    obtain ⟨b, hb, hempties⟩ := hinv.waits batch hbatch
    exact ⟨b, hb, hempties.mono (hstore (draining_of_waits hbatch))⟩
  drains := hinv.drains

theorem step (hinv : Inv relay) (hsize : batchSize ≠ some 0) {action : Action J}
    {next : Relay J} (hcalm : relay.Calm action) (hundisturbed : relay.Undisturbed action)
    (hstep : relay.step batchSize action = some next) : Inv next := by
  cases action with
  | start =>
      obtain rfl := Option.some.inj hstep
      exact { hinv with }
  | stop =>
      obtain rfl := Option.some.inj hstep
      exact { hinv with }
  | tick =>
      obtain ⟨-, hnext⟩ := Option.ite_none_right_eq_some.mp hstep
      obtain rfl := Option.some.inj hnext
      exact hinv.processOnce
  | processOnce =>
      obtain rfl := Option.some.inj hstep
      exact hinv.processOnce
  | drain =>
      obtain rfl := Option.some.inj hstep
      exact hinv.drain hsize hundisturbed
  | settle call ok now => exact hinv.settle hcalm hstep
  | goOn call => exact hinv.goOn hsize hundisturbed hstep
  | save entries =>
      obtain rfl := Option.some.inj hstep
      exact hinv.change fun hdraining => absurd hdraining hcalm
  | markPublishedByEventIds now eventIds =>
      obtain rfl := Option.some.inj hstep
      exact hinv.change fun _ h => unpublished_markPublishedByEventIds_nil h now eventIds

end Inv

theorem drains_of_run (hsize : batchSize ≠ some 0)
    (hrun : Machine.Run (Relay.step · batchSize)
      (fun relay action => relay.Calm action ∧ relay.Undisturbed action)
      { outboxStore := store } relay) : relay.Drains :=
  (hrun.inv inv_idle fun _ _ _ hinv hmeets hstep =>
    hinv.step hsize hmeets.1 hmeets.2 hstep).drains

namespace Sample

def entry (id : String) (createdAt : Nat) : OutboxEntry Unit where
  id
  event := { name := "OrderPlaced", payload := (), metadata := none }
  aggregateName := none
  aggregateId := none
  createdAt
  publishedAt := none

def outbox : OutboxStore Unit := OutboxStore.save ∅ [entry "b" 2, entry "a" 1, entry "c" 3]

/-- A poll has published the first entry when `drain` is called; it takes two batches, and
`drain` is called once more at the end. -/
theorem drains_of_run_polled :
    ∃ relay, Machine.Run (Relay.step · (some 2))
        (fun relay action => relay.Calm action ∧ relay.Undisturbed action)
        { outboxStore := outbox } relay ∧
      relay.drains = [.resolved {}, .resolved {}] ∧ relay.Drains := by
  have hplay : (Machine.playMeeting (Relay.step · (some 2))
      (fun relay action => relay.Calm action ∧ relay.Undisturbed action)
      [.start, .tick, .settle 0 true 5, .settle 0 true 6, .settle 0 true 7,
        .settle 0 false 8, .drain, .settle 1 true 9, .settle 1 true 9, .processOnce,
        .settle 1 true 9, .settle 1 true 9, .settle 1 true 9, .goOn 0, .settle 3 true 9,
        .goOn 0, .drain] { outboxStore := outbox }).map
        Relay.drains = some [.resolved {}, .resolved {}] := by decide +kernel
  obtain ⟨relay, hrelay, hdrains⟩ := Option.map_eq_some_iff.mp hplay
  have hrun := Machine.run_of_playMeeting hrelay
  exact ⟨relay, hrun, hdrains, drains_of_run (by decide) hrun⟩

/-- A poll is in progress when `drain` is called: `processOnce` returns zero at once, and
`drain` resolves with the whole outbox left. -/
theorem drains_polling :
    ¬ ∀ relay : Relay Unit, Machine.Run (Relay.step · (some 2)) Calm { outboxStore := outbox }
      relay → relay.Drains := by
  intro hall
  have hplay : (Machine.playMeeting (Relay.step · (some 2)) Calm
      [.start, .tick, .drain, .goOn 0] { outboxStore := outbox }).map Relay.drains =
        some [.resolved { running := 1, unpublished := 3 }] := by decide +kernel
  obtain ⟨relay, hrelay, hdrains⟩ := Option.map_eq_some_iff.mp hplay
  have hclean := hall relay (Machine.run_of_playMeeting hrelay)
    { running := 1, unpublished := 3 } (by simp [hdrains])
  exact absurd hclean (by decide)

end Sample

end Relay

end Noddde.OutboxRelay
