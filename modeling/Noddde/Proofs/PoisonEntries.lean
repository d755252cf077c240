import Noddde.Proofs.Draining
/-!
# Poison entries

A batch is the front of the unpublished entries, and an entry that the bus rejects stays
there.  An entry with a whole batch of poison entries before it is never loaded; when
there is none like this, every batch publishes something until only poison is left.
-/

namespace Noddde.OutboxRelay

/-! ## Fronts of a list -/

section Fronts

variable {α : Type} {p : α → Bool} {n : Nat} {xs ys : List α}

/-- Whatever does not satisfy `p` has less than `n` elements that do before it. -/
def Admitted (p : α → Bool) (n : Nat) (xs : List α) : Prop :=
  ∀ before x after, xs = before ++ x :: after → p x = false → before.countP p < n

theorem Admitted.sublist (h : Admitted p n xs) (hys : ys.Sublist xs) : Admitted p n ys := by
  rintro before x after rfl hx
  obtain ⟨xs₁, xs₂, rfl, hbefore, hafter⟩ := List.append_sublist_iff.mp hys
  obtain ⟨xs₃, xs₄, rfl, hmem, -⟩ := List.cons_sublist_iff.mp hafter
  obtain ⟨mid, rest, rfl⟩ := List.append_of_mem hmem
  have hlt := h (xs₁ ++ mid) x (rest ++ xs₄) (by simp) hx
  calc before.countP p ≤ xs₁.countP p := hbefore.countP_le
    _ ≤ (xs₁ ++ mid).countP p := (List.sublist_append_left xs₁ mid).countP_le
    _ < n := hlt

/-- The first element that does not satisfy `p`. -/
theorem exists_first {x : α} (hmem : x ∈ xs) (hx : p x = false) :
    ∃ before y after, xs = before ++ y :: after ∧ p y = false ∧ ∀ z ∈ before, p z = true := by
  induction xs with
  | nil => cases hmem
  | cons z xs ih =>
      by_cases hz : p z = true
      · have hrest : x ∈ xs := by
          rcases List.mem_cons.mp hmem with rfl | hrest
          · exact absurd hz (by simp [hx])
          · exact hrest
        obtain ⟨before, y, after, rfl, hy, hbefore⟩ := ih hrest
        exact ⟨z :: before, y, after, rfl, hy, List.forall_mem_cons.mpr ⟨hz, hbefore⟩⟩
      · exact ⟨[], z, xs, rfl, by simpa using hz, List.forall_mem_nil _⟩

theorem Admitted.exists_front (h : Admitted p n xs) {x : α} (hmem : x ∈ xs)
    (hx : p x = false) : ∃ y ∈ xs.take n, p y = false := by
  obtain ⟨before, y, after, rfl, hy, hbefore⟩ := exists_first hmem hx
  have hlt := h before y after rfl hy
  rw [List.countP_eq_length.mpr hbefore] at hlt
  refine ⟨y, ?_, hy⟩
  rw [List.take_append]
  refine List.mem_append_right _ ?_
  obtain ⟨k, hk⟩ := Nat.exists_eq_succ_of_ne_zero (Nat.sub_ne_zero_of_lt hlt)
  rw [hk, List.take_succ_cons]
  exact List.mem_cons_self

/-- All that do not satisfy `p` are at the front, as long as there are any. -/
theorem Admitted.forall_of_front (h : Admitted p n xs) (hfront : ∀ x ∈ xs.take n, p x = true) :
    ∀ x ∈ xs, p x = true := by
  intro x hmem
  by_contra hx
  obtain ⟨y, hy, hnot⟩ := h.exists_front hmem (by simpa using hx)
  exact absurd (hfront y hy) (by simp [hnot])

end Fronts

/-! ## The store -/

variable {J : Type} {store store' : OutboxStore J} {poison : String → Bool} {n : Nat}

/-- Entries are kept under their ids. -/
def Keyed (store : OutboxStore J) : Prop :=
  ∀ id entry, store.get id = some entry → entry.id = id

theorem Keyed.markPublished (h : Keyed store) (now : Nat) (id : String) :
    Keyed (store.markPublished now [id]) := by
  intro id' entry hget
  rcases OutboxStore.get_markPublished store now id id' with hsame | ⟨-, before, hbefore, hmarked⟩
  · exact h id' entry (hsame ▸ hget)
  · obtain rfl := Option.some.inj (hget.symm.trans hmarked)
    exact h id' before hbefore

theorem keyed_save (h : Keyed store) (entries : List (OutboxEntry J)) :
    Keyed (store.save entries) := by
  intro id entry hget
  rcases OutboxStore.get_save store entries id with ⟨saved, -, hid, hsaved⟩ | ⟨-, hsame⟩
  · obtain rfl := Option.some.inj (hget.symm.trans hsaved)
    exact hid
  · exact h id entry (hsame ▸ hget)

theorem Keyed.id_eq (h : Keyed store) {id : String} {entry : OutboxEntry J}
    (hmem : (id, entry) ∈ store.entries) : entry.id = id :=
  h id entry ((store.mem_entries_iff id entry).mp hmem)

theorem Keyed.nodup (h : Keyed store) : ((unpublished store).map OutboxEntry.id).Nodup := by
  have hkeys : store.values.map OutboxEntry.id = store.entries.map Prod.fst := by
    rw [InsertionMap.values, List.map_map]
    exact List.map_congr_left fun e he => h.id_eq he
  have hsub : ((unpublished store).map OutboxEntry.id).Sublist
      (store.values.map OutboxEntry.id) := List.filter_sublist.map _
  rw [hkeys] at hsub
  exact store.nodup.sublist hsub

theorem mem_oldestFirst {entry : OutboxEntry J} :
    entry ∈ oldestFirst store ↔ entry ∈ unpublished store := List.mem_insertionSort _

theorem Keyed.nodup_oldestFirst (h : Keyed store) :
    ((oldestFirst store).map OutboxEntry.id).Nodup :=
  ((List.perm_insertionSort Older (unpublished store)).map OutboxEntry.id).nodup_iff.mpr h.nodup

theorem filter_setEntry_marked {id : String} {marked : OutboxEntry J}
    (hmarked : marked.publishedAt.isNone = false) {l : List (String × OutboxEntry J)}
    (hnodup : (l.map Prod.fst).Nodup) (hkeyed : ∀ e ∈ l, e.2.id = e.1)
    (hmem : id ∈ l.map Prod.fst) :
    ((InsertionMap.setEntry id marked l).map Prod.snd).filter (·.publishedAt.isNone) =
      ((l.map Prod.snd).filter (·.publishedAt.isNone)).filter (·.id ≠ id) := by
  induction l with
  | nil => cases hmem
  | cons e rest ih =>
      obtain ⟨hhead, hrest⟩ := List.forall_mem_cons.mp hkeyed
      rw [List.map_cons, List.nodup_cons] at hnodup
      by_cases he : e.1 = id
      · have hother : ∀ entry ∈ (rest.map Prod.snd).filter (·.publishedAt.isNone),
            decide (entry.id ≠ id) = true := by
          intro entry hentry
          obtain ⟨e', he', rfl⟩ := List.mem_map.mp (List.mem_of_mem_filter hentry)
          refine decide_eq_true fun hid => hnodup.1 ?_
          rw [he, ← hid, hrest e' he']
          exact List.mem_map_of_mem he'
        rw [InsertionMap.setEntry, if_pos he, List.map_cons, List.map_cons,
          List.filter_cons_of_neg (by simp [hmarked]), List.filter_filter, List.filter_cons_of_neg
            (by simp [hhead, he]), ← List.filter_filter, List.filter_eq_self.mpr hother]
      · have hmem' : id ∈ rest.map Prod.fst := by
          rcases List.mem_cons.mp hmem with heq | hmem
          · exact absurd heq.symm he
          · exact hmem
        have hkeep : decide (e.2.id ≠ id) = true := decide_eq_true (hhead ▸ he)
        rw [InsertionMap.setEntry, if_neg he, List.map_cons, List.map_cons, List.filter_cons,
          List.filter_cons, ih hnodup.2 hrest hmem']
        split_ifs
        · exact (List.filter_cons_of_pos (p := fun entry : OutboxEntry J =>
            decide (entry.id ≠ id)) hkeep).symm
        · rfl

/-- To mark an entry is to take it out of the unpublished ones. -/
theorem Keyed.unpublished_markPublished (h : Keyed store) (now : Nat) (id : String) :
    unpublished (store.markPublished now [id]) = (unpublished store).filter (·.id ≠ id) := by
  have hself (hnot : ∀ entry ∈ unpublished store, entry.id ≠ id) :
      unpublished store = (unpublished store).filter (·.id ≠ id) :=
    (List.filter_eq_self.mpr fun entry hentry => decide_eq_true (hnot entry hentry)).symm
  have hget {entry : OutboxEntry J} (hentry : entry ∈ unpublished store) :
      store.get entry.id = some entry := by
    obtain ⟨key, hkey⟩ := (store.mem_values_iff entry).mp (List.mem_of_mem_filter hentry)
    rwa [h key entry hkey]
  simp only [OutboxStore.markPublished, List.foldl_cons, List.foldl_nil]
  cases hid : store.get id with
  | none =>
      refine hself fun entry hentry heq => ?_
      have hsome := hget hentry
      rw [heq, hid] at hsome
      cases hsome
  | some entry =>
      dsimp only
      split_ifs with hpublished
      · have hmem := (store.mem_entries_iff id entry).mpr hid
        exact filter_setEntry_marked rfl store.nodup (fun e he => h.id_eq he)
          (List.mem_map.mpr ⟨_, hmem, rfl⟩)
      · refine hself fun entry' hentry' heq => hpublished ?_
        have hsome := hget hentry'
        rw [heq, hid] at hsome
        obtain rfl := Option.some.inj hsome
        simpa using (List.mem_filter.mp hentry').2

theorem Keyed.oldestFirst_markPublished (h : Keyed store) (now : Nat) (id : String) :
    oldestFirst (store.markPublished now [id]) = (oldestFirst store).filter (·.id ≠ id) := by
  rw [oldestFirst, h.unpublished_markPublished, oldestFirst, StableSort.filter_insertionSort]

/-! ## What one settlement does -/

/-- The batch after `dispatched` entries, with the listed ones still to come. -/
def Batch.next (dispatched : Nat) : List (OutboxEntry J) → Batch J
  | [] => .returned dispatched
  | entry :: rest => .dispatching dispatched entry rest

def Batch.entries : Batch J → List (OutboxEntry J)
  | .loading entries => entries
  | .dispatching _ entry rest => entry :: rest
  | .marking _ rest => rest
  | .returned _ => []

inductive Progress (poison : String → Bool) (store : OutboxStore J) :
    Batch J → OutboxStore J → Batch J → Prop where
  | loaded {entries : List (OutboxEntry J)} :
      Progress poison store (.loading entries) store (.next 0 entries)
  | rejected {dispatched : Nat} {entry : OutboxEntry J} {rest : List (OutboxEntry J)} :
      poison entry.id = true →
        Progress poison store (.dispatching dispatched entry rest) store (.next dispatched rest)
  | dispatched {dispatched : Nat} {entry : OutboxEntry J} {rest : List (OutboxEntry J)}
      (now : Nat) : poison entry.id = false →
        Progress poison store (.dispatching dispatched entry rest)
          (store.markPublished now [entry.id]) (.marking dispatched rest)
  | marked {dispatched : Nat} {rest : List (OutboxEntry J)} :
      Progress poison store (.marking dispatched rest) store (.next (dispatched + 1) rest)

variable {batch batch' : Batch J}

@[simp] theorem Batch.entries_next (dispatched : Nat) (rest : List (OutboxEntry J)) :
    (Batch.next dispatched rest).entries = rest := by
  cases rest <;> rfl

theorem Relay.proceed_eq (relay : Relay J) (call dispatched : Nat)
    (rest : List (OutboxEntry J)) :
    relay.proceed call dispatched rest = { relay with
      processing := (Batch.next dispatched rest).isRunning && relay.processing
      calls := relay.calls.set call (.next dispatched rest) } := by
  cases rest <;> rfl

theorem Relay.settle_progress {relay next : Relay J} {call now : Nat} {ok : Bool}
    (hanswers : relay.Answers poison call ok) (hstep : relay.settle call ok now = some next) :
    ∃ batch store' batch', relay.calls[call]? = some batch ∧ batch.isRunning = true ∧
      Progress poison relay.outboxStore batch store' batch' ∧
      next = { relay with
        outboxStore := store'
        processing := batch'.isRunning && relay.processing
        calls := relay.calls.set call batch' } := by
  unfold Relay.settle at hstep
  unfold Relay.Answers at hanswers
  split at hstep
  · rename_i entries hcall
    rw [hcall] at hanswers
    obtain rfl : ok = true := hanswers
    obtain rfl := Option.some.inj hstep
    exact ⟨_, _, _, hcall, rfl, .loaded, relay.proceed_eq call 0 entries⟩
  · rename_i dispatched entry rest hcall
    rw [hcall] at hanswers
    obtain rfl : ok = !poison entry.id := hanswers
    obtain rfl := Option.some.inj hstep
    cases hpoison : poison entry.id with
    | true =>
        exact ⟨_, _, _, hcall, rfl, .rejected hpoison, relay.proceed_eq call dispatched rest⟩
    | false => exact ⟨_, _, _, hcall, rfl, .dispatched now hpoison, rfl⟩
  · rename_i dispatched rest hcall
    rw [hcall] at hanswers
    obtain rfl : ok = true := hanswers
    obtain rfl := Option.some.inj hstep
    exact ⟨_, _, _, hcall, rfl, .marked, relay.proceed_eq call (dispatched + 1) rest⟩
  · cases hstep
  · cases hstep

namespace Progress

theorem keyed (hstep : Progress poison store batch store' batch') (h : Keyed store) :
    Keyed store' := by
  cases hstep with
  | dispatched now _ => exact h.markPublished now _
  | loaded => exact h
  | rejected _ => exact h
  | marked => exact h

theorem entries_subset (hstep : Progress poison store batch store' batch') :
    batch'.entries ⊆ batch.entries := by
  cases hstep with
  | loaded => rw [Batch.entries_next]; exact fun _ h => h
  | rejected _ => rw [Batch.entries_next]; exact List.subset_cons_self _ _
  | dispatched now _ => exact List.subset_cons_self _ _
  | marked => rw [Batch.entries_next]; exact fun _ h => h

/-- At most one entry of the batch is taken out, and it is no poison. -/
theorem oldestFirst (hstep : Progress poison store batch store' batch') (h : Keyed store) :
    oldestFirst store' = oldestFirst store ∨ ∃ entry ∈ batch.entries,
      poison entry.id = false ∧
        oldestFirst store' = (oldestFirst store).filter (·.id ≠ entry.id) := by
  cases hstep with
  | @dispatched _ entry rest now hpoison =>
      exact .inr ⟨entry, List.mem_cons_self, hpoison, h.oldestFirst_markPublished now entry.id⟩
  | loaded => exact .inl rfl
  | rejected _ => exact .inl rfl
  | marked => exact .inl rfl

theorem sublist (hstep : Progress poison store batch store' batch') (h : Keyed store) :
    (OutboxRelay.oldestFirst store').Sublist (OutboxRelay.oldestFirst store) := by
  rcases hstep.oldestFirst h with heq | ⟨entry, -, -, heq⟩
  · rw [heq]
  · rw [heq]
    exact List.filter_sublist

theorem poison_unpublished (hstep : Progress poison store batch store' batch')
    (h : Keyed store) : (unpublished store').filter (fun entry => poison entry.id) =
      (unpublished store).filter fun entry => poison entry.id := by
  cases hstep with
  | @dispatched _ entry rest now hpoison =>
      rw [h.unpublished_markPublished, List.filter_filter]
      refine List.filter_congr fun other _ => ?_
      by_cases heq : other.id = entry.id <;> simp [heq, hpoison]
  | loaded => rfl
  | rejected _ => rfl
  | marked => rfl

end Progress

/-! ## A batch that nothing disturbs -/

/-- The batch was loaded from this store, and nothing else has changed it since. -/
def Batch.Fits (poison : String → Bool) (n : Nat) (store : OutboxStore J) : Batch J → Prop
  | .loading entries => entries = loadUnpublished store n
  | .dispatching dispatched entry rest =>
      (entry :: rest).Sublist (oldestFirst store) ∧
        (dispatched = 0 → ∃ failed, loadUnpublished store n = failed ++ entry :: rest ∧
          ∀ other ∈ failed, poison other.id = true)
  | .marking _ rest => rest.Sublist (oldestFirst store)
  | .returned dispatched =>
      dispatched = 0 → ∀ entry ∈ loadUnpublished store n, poison entry.id = true

/-- The steps that are left; a batch that has dispatched something pays for the next one. -/
def Batch.weight (n : Nat) : Batch J → Nat
  | .loading entries => 2 * entries.length + 1
  | .dispatching dispatched _ rest =>
      2 * rest.length + 2 + if dispatched = 0 then 0 else 2 * n + 3
  | .marking _ rest => 2 * rest.length + 1 + (2 * n + 3)
  | .returned dispatched => if dispatched = 0 then 0 else 2 * n + 3

def toDo (n : Nat) (store : OutboxStore J) (weight : Nat) : Nat :=
  (2 * n + 4) * (oldestFirst store).length + weight

theorem Batch.fits_next {dispatched : Nat} {rest : List (OutboxEntry J)}
    (hrest : rest.Sublist (oldestFirst store))
    (hfailed : dispatched = 0 → ∃ failed, loadUnpublished store n = failed ++ rest ∧
      ∀ other ∈ failed, poison other.id = true) :
    (Batch.next dispatched rest).Fits poison n store := by
  cases rest with
  | nil =>
      intro hzero entry hentry
      obtain ⟨failed, heq, hpoison⟩ := hfailed hzero
      rw [heq, List.append_nil] at hentry
      exact hpoison entry hentry
  | cons entry rest => exact ⟨hrest, hfailed⟩

namespace Progress

theorem fits (hstep : Progress poison store batch store' batch') (hkeyed : Keyed store)
    (h : batch.Fits poison n store) : batch'.Fits poison n store' := by
  cases hstep with
  | @loaded entries =>
      obtain rfl : entries = loadUnpublished store n := h
      exact Batch.fits_next (List.take_sublist n _) fun _ => ⟨[], rfl, List.forall_mem_nil _⟩
  | @rejected dispatched entry rest hpoison =>
      obtain ⟨hsub, hfailed⟩ := h
      refine Batch.fits_next (List.sublist_of_cons_sublist hsub) fun hzero => ?_
      obtain ⟨failed, heq, hall⟩ := hfailed hzero
      refine ⟨failed ++ [entry], by rw [heq, List.append_assoc]; rfl, ?_⟩
      intro other hother
      rcases List.mem_append.mp hother with hother | hother
      · exact hall other hother
      · rwa [List.mem_singleton.mp hother]
  | @dispatched dispatched entry rest now hpoison =>
      obtain ⟨hsub, -⟩ := h
      have hnodup := hkeyed.nodup_oldestFirst.sublist (hsub.map OutboxEntry.id)
      rw [List.map_cons, List.nodup_cons] at hnodup
      have hself : rest.filter (·.id ≠ entry.id) = rest := by
        refine List.filter_eq_self.mpr fun other hother => decide_eq_true fun heq => ?_
        exact hnodup.1 (heq ▸ List.mem_map_of_mem hother)
      change rest.Sublist (OutboxRelay.oldestFirst _)
      rw [hkeyed.oldestFirst_markPublished, ← hself]
      exact (List.sublist_of_cons_sublist hsub).filter _
  | @marked dispatched rest =>
      exact Batch.fits_next h fun hzero => absurd hzero (Nat.succ_ne_zero dispatched)

theorem weight (hstep : Progress poison store batch store' batch') (hkeyed : Keyed store)
    (h : batch.Fits poison n store) :
    toDo n store' (batch'.weight n) < toDo n store (batch.weight n) := by
  have hnext (dispatched : Nat) (rest : List (OutboxEntry J)) :
      (Batch.next dispatched rest).weight n ≤
        2 * rest.length + if dispatched = 0 then 0 else 2 * n + 3 := by
    cases rest with
    | nil => exact Nat.le_add_left _ _
    | cons entry rest => simp [Batch.next, Batch.weight, Nat.mul_add]
  cases hstep with
  | @loaded entries =>
      have hle := hnext 0 entries
      rw [if_pos rfl] at hle
      exact Nat.add_lt_add_left (Nat.lt_succ_of_le hle) _
  | @rejected dispatched entry rest hpoison =>
      refine Nat.add_lt_add_left (Nat.lt_of_le_of_lt (hnext dispatched rest) ?_) _
      exact Nat.add_lt_add_right (Nat.lt_add_of_pos_right Nat.two_pos) _
  | @dispatched dispatched entry rest now hpoison =>
      obtain ⟨hsub, -⟩ := h
      have hfewer : (OutboxRelay.oldestFirst (store.markPublished now [entry.id])).length <
          (OutboxRelay.oldestFirst store).length := by
        rw [hkeyed.oldestFirst_markPublished]
        refine List.length_filter_lt_length_iff_exists.mpr ⟨entry, ?_, by simp⟩
        exact hsub.subset List.mem_cons_self
      have hpaid := Nat.mul_le_mul_left (2 * n + 4) hfewer
      rw [Nat.mul_succ] at hpaid
      simp only [toDo, Batch.weight]
      split_ifs <;> omega
  | @marked dispatched rest =>
      have hle := hnext (dispatched + 1) rest
      rw [if_neg (Nat.succ_ne_zero dispatched)] at hle
      refine Nat.add_lt_add_left (Nat.lt_of_le_of_lt hle ?_) _
      exact Nat.add_lt_add_right (Nat.lt_succ_self _) _

end Progress

/-! ## Draining -/

namespace Relay

variable {relay start : Relay J} {batchSize : Option Nat}

/-- What a call of `drain` that runs alone keeps of the store at its start. -/
structure Kept (poison : String → Bool) (start store : OutboxStore J) : Prop where
  keyed : Keyed store
  sublist : (oldestFirst store).Sublist (oldestFirst start)
  poison : (unpublished store).filter (fun entry => poison entry.id) =
    (unpublished start).filter fun entry => poison entry.id

inductive Alone (poison : String → Bool) (n : Nat) (relay : Relay J) : Prop where
  /-- It awaits this batch, and no other one is in progress. -/
  | waits (call : Nat) (batch : Batch J) (drains : relay.drains = [.waits call])
      (get : relay.calls[call]? = some batch) (fits : batch.Fits poison n relay.outboxStore)
      (processing : relay.processing = batch.isRunning)
      (others : ∀ other, other ≠ call → ∀ b ∈ relay.calls[other]?, b.isRunning = false)
  | resolved (remains : Remains) (drains : relay.drains = [.resolved remains])
      (calls : ∀ b ∈ relay.calls, b.isRunning = false)
      (front : ∀ entry ∈ loadUnpublished relay.outboxStore n, poison entry.id = true)

def remaining (n : Nat) (relay : Relay J) : Nat :=
  match relay.drains with
  | [.waits call] =>
      match relay.calls[call]? with
      | some batch => toDo n relay.outboxStore (batch.weight n) + 1
      | none => 0
  | _ => 0

theorem remaining_waits (relay : Relay J) {call : Nat} {batch : Batch J}
    (hdrains : relay.drains = [.waits call]) (hget : relay.calls[call]? = some batch) :
    relay.remaining n = toDo n relay.outboxStore (batch.weight n) + 1 := by
  unfold remaining
  rw [hdrains]
  dsimp only
  rw [hget]

@[simp] theorem processOnce_outboxStore :
    (relay.processOnce batchSize).outboxStore = relay.outboxStore := by
  unfold Relay.processOnce
  split_ifs <;> rfl

theorem kept_refl (h : Keyed store) : Kept poison store store :=
  ⟨h, List.Sublist.refl _, rfl⟩

theorem Kept.progress {start : OutboxStore J} (h : Kept poison start store)
    (hstep : Progress poison store batch store' batch') : Kept poison start store' where
  keyed := hstep.keyed h.keyed
  sublist := (hstep.sublist h.keyed).trans h.sublist
  poison := (hstep.poison_unpublished h.keyed).trans h.poison

/-- A call joins calls that do not run. -/
theorem others_of_concat {calls : List (Batch J)} {batch : Batch J}
    (hcalls : ∀ b ∈ calls, b.isRunning = false) :
    ∀ other, other ≠ calls.length → ∀ b ∈ (calls ++ [batch])[other]?, b.isRunning = false := by
  intro other hne b hb
  obtain ⟨hlt, -⟩ := List.getElem?_eq_some_iff.mp hb
  rw [List.length_append, List.length_singleton] at hlt
  rw [Option.mem_def, List.getElem?_append_left (by omega)] at hb
  exact hcalls b (List.mem_of_getElem? hb)

/-- A batch that is loaded now, by the only call in progress. -/
theorem alone_load (relay : Relay J) (hidle : relay.processing = false)
    (hcalls : ∀ b ∈ relay.calls, b.isRunning = false) {drains : List Drain}
    (hdrains : drains = [.waits relay.calls.length]) :
    Alone poison (batchSize.getD 100) { relay.processOnce batchSize with drains } := by
  unfold Relay.processOnce
  rw [if_neg (by simp [hidle])]
  exact .waits _ _ hdrains List.getElem?_concat_length rfl rfl (others_of_concat hcalls)

theorem remaining_load (relay : Relay J) (hidle : relay.processing = false)
    {drains : List Drain} (hdrains : drains = [.waits relay.calls.length]) :
    remaining (batchSize.getD 100) { relay.processOnce batchSize with drains } ≤
      toDo (batchSize.getD 100) relay.outboxStore (2 * batchSize.getD 100 + 1) + 1 := by
  unfold Relay.processOnce
  rw [if_neg (by simp [hidle])]
  refine (remaining_waits _ hdrains List.getElem?_concat_length).trans_le ?_
  refine Nat.add_le_add_right (Nat.add_le_add_left ?_ _) 1
  exact Nat.add_le_add_right (Nat.mul_le_mul_left 2 (List.length_take_le _ _)) 1

theorem alone_drain (hidle : relay.Idle) :
    Alone poison (batchSize.getD 100) (relay.drain batchSize) := by
  unfold Relay.drain
  rw [if_neg (by simp [hidle.drained])]
  refine alone_load { relay with drained := true }.stop hidle.processing hidle.calls ?_
  rw [hidle.drains]
  rfl

theorem calls_returned {call dispatched : Nat}
    (hget : relay.calls[call]? = some (.returned dispatched))
    (hothers : ∀ other, other ≠ call → ∀ b ∈ relay.calls[other]?, b.isRunning = false) :
    ∀ b ∈ relay.calls, b.isRunning = false := by
  intro b hb
  obtain ⟨other, hother⟩ := List.getElem?_of_mem hb
  by_cases heq : other = call
  · subst heq
    obtain rfl := Option.some.inj (hother.symm.trans hget)
    rfl
  · exact hothers other heq b hother

theorem Alone.settle {start : OutboxStore J} {call now : Nat} {ok : Bool} {next : Relay J}
    (h : Alone poison n relay) (hkept : Kept poison start relay.outboxStore)
    (hanswers : relay.Answers poison call ok) (hstep : relay.settle call ok now = some next) :
    Kept poison start next.outboxStore ∧ Alone poison n next ∧
      next.remaining n < relay.remaining n := by
  obtain ⟨batch, store', batch', hget, hrunning, hprogress, rfl⟩ :=
    settle_progress hanswers hstep
  cases h with
  | resolved remains hdrains hcalls hfront =>
      rw [hcalls batch (List.mem_of_getElem? hget)] at hrunning
      cases hrunning
  | waits awaited batch₀ hdrains hget₀ hfits hprocessing hothers =>
      obtain rfl : call = awaited := by
        by_contra hne
        rw [hothers call hne batch hget] at hrunning
        cases hrunning
      obtain rfl : batch = batch₀ := Option.some.inj (hget.symm.trans hget₀)
      obtain ⟨hlt, -⟩ := List.getElem?_eq_some_iff.mp hget
      have hget' : (relay.calls.set call batch')[call]? = some batch' :=
        List.getElem?_set_self hlt
      refine ⟨hkept.progress hprogress, .waits call batch' hdrains hget'
        (hprogress.fits hkept.keyed hfits) ?_ ?_, ?_⟩
      · rw [hprocessing, hrunning, Bool.and_true]
      · intro other hne b hb
        rw [Option.mem_def, List.getElem?_set_ne (Ne.symm hne)] at hb
        exact hothers other hne b hb
      · rw [remaining_waits relay hdrains hget, remaining_waits { relay with
          outboxStore := store'
          processing := batch'.isRunning && relay.processing
          calls := relay.calls.set call batch' } hdrains hget']
        exact Nat.add_lt_add_right (hprogress.weight hkept.keyed hfits) 1

theorem Alone.goOn {call : Nat} {next : Relay J}
    (h : Alone poison (batchSize.getD 100) relay)
    (hstep : relay.goOn batchSize call = some next) :
    next.outboxStore = relay.outboxStore ∧ Alone poison (batchSize.getD 100) next ∧
      next.remaining (batchSize.getD 100) < relay.remaining (batchSize.getD 100) := by
  unfold Relay.goOn at hstep
  split at hstep
  · rename_i batch hcall
    split at hstep
    · rename_i processed hbatch
      obtain rfl := Option.some.inj hstep
      cases h with
      | resolved remains hdrains hcalls hfront =>
          rw [hdrains, List.getElem?_singleton] at hcall
          split_ifs at hcall
          cases hcall
      | waits awaited batch₀ hdrains hget hfits hprocessing hothers =>
          rw [hdrains, List.getElem?_singleton] at hcall
          split_ifs at hcall with hzero
          subst hzero
          cases hcall
          obtain rfl := Option.some.inj (hbatch.symm.trans hget)
          have hidle : relay.processing = false := hprocessing
          have hcalls := calls_returned hget hothers
          have hset (drain : Drain) : relay.drains.set 0 drain = [drain] := by
            rw [hdrains]
            rfl
          split_ifs with hpos
          · refine ⟨?_, alone_load relay hidle hcalls (hset _), ?_⟩
            · exact processOnce_outboxStore
            · refine (remaining_load relay hidle (hset _)).trans_lt ?_
              rw [remaining_waits relay hdrains hget, Batch.weight, if_neg (by omega)]
              exact Nat.add_lt_add_right (Nat.add_lt_add_left (by omega) _) 1
          · refine ⟨rfl, .resolved _ (hset _) hcalls (hfits (Nat.eq_zero_of_not_pos hpos)), ?_⟩
            rw [remaining_waits relay hdrains hget]
            unfold remaining
            dsimp only
            rw [hset]
            exact Nat.succ_pos _
    · cases hstep
  · cases hstep

/-- Some promise is awaited until the call has resolved. -/
theorem Alone.proceeds (h : Alone poison (batchSize.getD 100) relay) :
    (∃ remains, relay.drains = [.resolved remains]) ∨ ∃ action next,
      relay.DrainsAlone poison action ∧ relay.step batchSize action = some next := by
  cases h with
  | resolved remains hdrains hcalls hfront => exact .inl ⟨remains, hdrains⟩
  | waits call batch hdrains hget hfits hprocessing hothers =>
      right
      cases batch with
      | loading entries =>
          refine ⟨.settle call true 0, ?_⟩
          simp [DrainsAlone, Answers, step, Relay.settle, hget]
      | dispatching dispatched entry rest =>
          refine ⟨.settle call (!poison entry.id) 0, ?_⟩
          simp [DrainsAlone, Answers, step, Relay.settle, hget]
      | marking dispatched rest =>
          refine ⟨.settle call true 0, ?_⟩
          simp [DrainsAlone, Answers, step, Relay.settle, hget]
      | returned dispatched =>
          refine ⟨.goOn 0, ?_⟩
          simp [DrainsAlone, step, Relay.goOn, hdrains, hget]

/-- `drain` resolves, and what it has left at the front is poison. -/
theorem drain_resolves (hkeyed : Keyed relay.outboxStore) (hidle : relay.Idle) :
    Machine.Inevitable (step · batchSize) (DrainsAlone · poison)
      (fun next => (∃ remains, next.drains = [.resolved remains]) ∧
        Kept poison relay.outboxStore next.outboxStore ∧
        Alone poison (batchSize.getD 100) next)
      (relay.drain batchSize) := by
  have hstart : Kept poison relay.outboxStore (relay.drain batchSize).outboxStore := by
    unfold Relay.drain
    rw [if_neg (by simp [hidle.drained])]
    dsimp only
    rw [processOnce_outboxStore]
    exact kept_refl hkeyed
  have hstep (t : Relay J) (action : Action J) (u : Relay J)
      (h : Kept poison relay.outboxStore t.outboxStore ∧ Alone poison (batchSize.getD 100) t)
      (hmeets : t.DrainsAlone poison action) (hnext : t.step batchSize action = some u) :
      (Kept poison relay.outboxStore u.outboxStore ∧ Alone poison (batchSize.getD 100) u) ∧
        u.remaining (batchSize.getD 100) < t.remaining (batchSize.getD 100) := by
    cases action with
    | settle call ok now =>
        obtain ⟨hkept, halone, hless⟩ := h.2.settle h.1 hmeets hnext
        exact ⟨⟨hkept, halone⟩, hless⟩
    | goOn call =>
        obtain ⟨hsame, halone, hless⟩ := h.2.goOn hnext
        exact ⟨⟨hsame ▸ h.1, halone⟩, hless⟩
    | _ => exact hmeets.elim
  refine Machine.inevitable_of_measure (remaining (batchSize.getD 100))
    (fun t action u h hmeets hnext => (hstep t action u h hmeets hnext).1)
    (fun t h => ?_) (fun t action u h hmeets hnext => (hstep t action u h hmeets hnext).2)
    ⟨hstart, alone_drain hidle⟩
  exact h.2.proceeds.imp_left fun hresolved => ⟨hresolved, h.1, h.2⟩

/-- Once no batch that is admitted is left, there is only poison. -/
theorem leavesPoison_of_admits (hadmits : relay.Admits batchSize poison) {next : Relay J}
    (hresolved : ∃ remains, next.drains = [.resolved remains])
    (hkept : Kept poison relay.outboxStore next.outboxStore)
    (halone : Alone poison (batchSize.getD 100) next) :
    next.LeavesPoison poison relay.outboxStore := by
  refine ⟨hresolved, ?_⟩
  cases halone with
  | waits call batch hdrains =>
      obtain ⟨remains, hdrains'⟩ := hresolved
      rw [hdrains] at hdrains'
      cases hdrains'
  | resolved remains hdrains hcalls hfront =>
      have hadmitted : Admitted (fun entry : OutboxEntry J => poison entry.id)
          (batchSize.getD 100) (oldestFirst next.outboxStore) :=
        Admitted.sublist hadmits hkept.sublist
      rw [← hkept.poison, List.filter_eq_self.mpr]
      exact fun entry hentry =>
        hadmitted.forall_of_front hfront entry (mem_oldestFirst.mpr hentry)

/-! ## An entry that starves -/

/-- A whole batch of poison entries is before the entry, and no batch has it. -/
structure Starves (poison : String → Bool) (n : Nat) (entry : OutboxEntry J)
    (relay : Relay J) : Prop where
  keyed : Keyed relay.outboxStore
  stuck : ∃ before after, oldestFirst relay.outboxStore = before ++ entry :: after ∧
    n ≤ before.countP fun other => poison other.id
  absent : ∀ batch ∈ relay.calls, ∀ other ∈ batch.entries, other.id ≠ entry.id

namespace Starves

variable {entry : OutboxEntry J}

theorem not_loaded (h : Starves poison n entry relay) :
    ∀ other ∈ loadUnpublished relay.outboxStore n, other.id ≠ entry.id := by
  intro other hother heq
  obtain ⟨before, after, horder, hcount⟩ := h.stuck
  have hnodup := h.keyed.nodup_oldestFirst
  rw [horder, List.map_append, List.map_cons, List.nodup_append] at hnodup
  have hother' : other ∈ before := by
    rw [loadUnpublished, horder,
      List.take_append_of_le_length (hcount.trans List.countP_le_length)] at hother
    exact List.mem_of_mem_take hother
  exact hnodup.2.2 other.id (List.mem_map_of_mem hother') entry.id List.mem_cons_self heq

theorem processOnce (h : Starves poison (batchSize.getD 100) entry relay) :
    Starves poison (batchSize.getD 100) entry (relay.processOnce batchSize) where
  keyed := by
    rw [processOnce_outboxStore]
    exact h.keyed
  stuck := by
    rw [processOnce_outboxStore]
    exact h.stuck
  absent batch hbatch other hother := by
    unfold Relay.processOnce at hbatch
    split_ifs at hbatch
    · rcases List.mem_append.mp hbatch with hbatch | hbatch
      · exact h.absent batch hbatch other hother
      · rw [List.mem_singleton.mp hbatch] at hother
        cases hother
    · rcases List.mem_append.mp hbatch with hbatch | hbatch
      · exact h.absent batch hbatch other hother
      · rw [List.mem_singleton.mp hbatch] at hother
        exact h.not_loaded other hother

theorem settle (h : Starves poison n entry relay) {call now : Nat} {ok : Bool}
    {next : Relay J} (hanswers : relay.Answers poison call ok)
    (hstep : relay.settle call ok now = some next) : Starves poison n entry next := by
  obtain ⟨batch, store', batch', hget, -, hprogress, rfl⟩ := settle_progress hanswers hstep
  have habsent := h.absent batch (List.mem_of_getElem? hget)
  refine ⟨hprogress.keyed h.keyed, ?_, fun other hother entry' hentry' => ?_⟩
  · obtain ⟨before, after, horder, hcount⟩ := h.stuck
    rcases hprogress.oldestFirst h.keyed with heq | ⟨gone, hgone, hpoison, heq⟩
    · exact ⟨before, after, heq.trans horder, hcount⟩
    · refine ⟨before.filter (·.id ≠ gone.id), after.filter (·.id ≠ gone.id), ?_, ?_⟩
      · have hkeep : decide (entry.id ≠ gone.id) = true :=
          decide_eq_true (habsent gone hgone).symm
        change oldestFirst store' = _
        rw [heq, horder, List.filter_append]
        exact congrArg _ (List.filter_cons_of_pos hkeep)
      · rw [List.countP_filter]
        refine hcount.trans_eq (List.countP_congr fun other _ => ?_)
        by_cases hid : other.id = gone.id <;> simp [hid, hpoison]
  · rcases List.mem_or_eq_of_mem_set hother with hother | rfl
    · exact h.absent other hother entry' hentry'
    · exact habsent entry' (hprogress.entries_subset hentry')

theorem step (h : Starves poison (batchSize.getD 100) entry relay) {action : Action J}
    {next : Relay J} (hmeets : relay.DrainsAlone poison action)
    (hstep : relay.step batchSize action = some next) :
    Starves poison (batchSize.getD 100) entry next := by
  cases action with
  | settle call ok now => exact h.settle hmeets hstep
  | goOn call =>
      change relay.goOn batchSize call = some next at hstep
      unfold Relay.goOn at hstep
      split at hstep
      · split at hstep
        · obtain rfl := Option.some.inj hstep
          split_ifs
          · exact { h.processOnce with }
          · exact { h with }
        · cases hstep
      · cases hstep
  | _ => exact hmeets.elim

end Starves

/-- What `drain` does not admit it does not publish. -/
theorem admits_of_drain (hkeyed : Keyed relay.outboxStore) (hidle : relay.Idle)
    (hdrain : Machine.Inevitable (step · batchSize) (DrainsAlone · poison)
      (LeavesPoison · poison relay.outboxStore) (relay.drain batchSize)) :
    relay.Admits batchSize poison := by
  intro before entry after horder hentry
  by_contra hnot
  have hstart : Starves poison (batchSize.getD 100) entry relay :=
    { keyed := hkeyed
      stuck := ⟨before, after, horder, Nat.le_of_not_lt hnot⟩
      absent := by
        intro batch hbatch other hother
        have hreturned := hidle.calls batch hbatch
        cases batch with
        | returned dispatched => cases hother
        | loading entries => cases hreturned
        | dispatching dispatched entry rest => cases hreturned
        | marking dispatched rest => cases hreturned }
  have hdrained : Starves poison (batchSize.getD 100) entry (relay.drain batchSize) := by
    unfold Relay.drain
    rw [if_neg (by simp [hidle.drained])]
    have hstopped : Starves poison (batchSize.getD 100) entry
        ({ relay with drained := true }.stop) := { hstart with }
    exact { hstopped.processOnce with }
  obtain ⟨last, hrun, -, hleft⟩ := hdrain.exists_run
  have hlast := hrun.inv hdrained fun _ _ _ h hmeets hstep => h.step hmeets hstep
  obtain ⟨before', after', horder', -⟩ := hlast.stuck
  have hmem : entry ∈ unpublished last.outboxStore := by
    rw [← mem_oldestFirst, horder']
    exact List.mem_append_right _ List.mem_cons_self
  rw [hleft, List.mem_filter, hentry] at hmem
  exact absurd hmem.2 Bool.false_ne_true

/-! ## Endless polling -/

/-- The batch in progress, when nothing but polls is under way. -/
inductive Current (poison : String → Bool) (n : Nat) (relay : Relay J) :
    Option (Batch J) → Prop where
  | idle (processing : relay.processing = false)
      (calls : ∀ b ∈ relay.calls, b.isRunning = false) : Current poison n relay none
  | busy {call : Nat} {batch : Batch J} (processing : relay.processing = true)
      (get : relay.calls[call]? = some batch) (running : batch.isRunning = true)
      (fits : batch.Fits poison n relay.outboxStore)
      (others : ∀ other, other ≠ call → ∀ b ∈ relay.calls[other]?, b.isRunning = false) :
      Current poison n relay (some batch)

/-- An idle relay has the next batch before it. -/
def currentWeight (n : Nat) : Option (Batch J) → Nat
  | none => 2 * n + 3
  | some batch => batch.weight n

/-- The entry is admitted, and was in no batch so far. -/
structure Hungry (poison : String → Bool) (n : Nat) (entry : OutboxEntry J) (relay : Relay J)
    (current : Option (Batch J)) : Prop where
  keyed : Keyed relay.outboxStore
  admitted : Admitted (fun entry : OutboxEntry J => poison entry.id) n
    (oldestFirst relay.outboxStore)
  waiting : entry ∈ oldestFirst relay.outboxStore
  inProgress : Current poison n relay current
  absent : ∀ batch ∈ current, ∀ other ∈ batch.entries, other.id ≠ entry.id

/-- There is no more to do than before, and less once a batch has started. -/
structure Advance (n : Nat) (relay next : Relay J) (current current' : Option (Batch J)) :
    Prop where
  le : toDo n next.outboxStore (currentWeight n current') ≤
    toDo n relay.outboxStore (currentWeight n current)
  lt : relay.processing = false → next.processing = true →
    toDo n next.outboxStore (currentWeight n current') <
      toDo n relay.outboxStore (currentWeight n current)

namespace Hungry

variable {entry : OutboxEntry J} {current : Option (Batch J)}

/-- A batch that has returned zero has found poison only. -/
theorem dispatched_ne_zero (h : Hungry poison n entry relay current)
    (hentry : poison entry.id = false) {dispatched : Nat}
    (hfits : (Batch.returned dispatched).Fits poison n relay.outboxStore) : dispatched ≠ 0 := by
  intro hzero
  have hall := h.admitted.forall_of_front (hfits hzero) entry h.waiting
  exact absurd hall (by simp [hentry])

theorem settle (h : Hungry poison n entry relay current) (hentry : poison entry.id = false)
    {call now : Nat} {ok : Bool} {next : Relay J} (hanswers : relay.Answers poison call ok)
    (hstep : relay.settle call ok now = some next) :
    ∃ current', Hungry poison n entry next current' ∧
      toDo n next.outboxStore (currentWeight n current') <
        toDo n relay.outboxStore (currentWeight n current) := by
  obtain ⟨batch, store', batch', hget, hrunning, hprogress, rfl⟩ :=
    settle_progress hanswers hstep
  obtain ⟨hkeyed, hadmitted, hwaiting, hcurrent, habsent⟩ := h
  cases hcurrent with
  | idle hidle hcalls =>
      rw [hcalls batch (List.mem_of_getElem? hget)] at hrunning
      cases hrunning
  | @busy awaited batch₀ hprocessing hget₀ hrunning₀ hfits hothers =>
      obtain rfl : call = awaited := by
        by_contra hne
        rw [hothers call hne batch hget] at hrunning
        cases hrunning
      obtain rfl : batch = batch₀ := Option.some.inj (hget.symm.trans hget₀)
      obtain ⟨hlt, -⟩ := List.getElem?_eq_some_iff.mp hget
      have hget' : (relay.calls.set call batch')[call]? = some batch' :=
        List.getElem?_set_self hlt
      have hothers' : ∀ other, other ≠ call → ∀ b ∈ (relay.calls.set call batch')[other]?,
          b.isRunning = false := by
        intro other hne b hb
        rw [Option.mem_def, List.getElem?_set_ne (Ne.symm hne)] at hb
        exact hothers other hne b hb
      have hwaiting' : entry ∈ oldestFirst store' := by
        rcases hprogress.oldestFirst hkeyed with heq | ⟨gone, hgone, -, heq⟩
        · exact heq ▸ hwaiting
        · rw [heq, List.mem_filter]
          exact ⟨hwaiting, decide_eq_true (habsent batch rfl gone hgone).symm⟩
      have hadmitted' := hadmitted.sublist (hprogress.sublist hkeyed)
      have hfits' := hprogress.fits hkeyed hfits
      have hless := hprogress.weight hkeyed hfits
      have hset (current' : Option (Batch J)) (hcurrent' : Current poison n { relay with
          outboxStore := store'
          processing := batch'.isRunning && relay.processing
          calls := relay.calls.set call batch' } current')
          (habsent' : ∀ b ∈ current', b = batch') : Hungry poison n entry { relay with
            outboxStore := store'
            processing := batch'.isRunning && relay.processing
            calls := relay.calls.set call batch' } current' :=
        { keyed := hprogress.keyed hkeyed
          admitted := hadmitted'
          waiting := hwaiting'
          inProgress := hcurrent'
          absent := by
            intro b hb other hother
            rw [habsent' b hb] at hother
            exact habsent batch rfl other (hprogress.entries_subset hother) }
      cases hrunning' : batch'.isRunning with
      | true =>
          refine ⟨some batch', ?_, hless⟩
          rw [← hrunning']
          refine hset _ (.busy ?_ hget' hrunning' hfits' hothers') fun b hb => ?_
          · simp [hrunning', hprocessing]
          · exact (Option.some.inj hb).symm
      | false =>
          cases batch' with
          | returned dispatched =>
              have hidle := hset none (.idle rfl (calls_returned hget' hothers')) (by simp)
              have hne := hidle.dispatched_ne_zero hentry hfits'
              refine ⟨none, hidle, ?_⟩
              simpa [currentWeight, Batch.weight, hne] using hless
          | loading entries => cases hrunning'
          | dispatching dispatched entry rest => cases hrunning'
          | marking dispatched rest => cases hrunning'

theorem processOnce (h : Hungry poison (batchSize.getD 100) entry relay current)
    (hnever : ∀ entries, .loading entries ∈ (relay.processOnce batchSize).calls →
      entry ∉ entries) :
    ∃ current', Hungry poison (batchSize.getD 100) entry (relay.processOnce batchSize) current' ∧
      Advance (batchSize.getD 100) relay (relay.processOnce batchSize) current current' := by
  obtain ⟨hkeyed, hadmitted, hwaiting, hcurrent, habsent⟩ := h
  unfold Relay.processOnce at hnever ⊢
  cases hcurrent with
  | idle hidle hcalls =>
      rw [if_neg (by simp [hidle])] at hnever ⊢
      have hother : ∀ other ∈ loadUnpublished relay.outboxStore (batchSize.getD 100),
          other.id ≠ entry.id := by
        intro other hother heq
        obtain rfl := List.inj_on_of_nodup_map hkeyed.nodup_oldestFirst
          (List.mem_of_mem_take hother) hwaiting heq
        exact hnever _ (List.mem_append_right _ (List.mem_singleton_self _)) hother
      have hless : 2 * (loadUnpublished relay.outboxStore (batchSize.getD 100)).length + 1 <
          2 * batchSize.getD 100 + 3 := by
        have hlength := List.length_take_le (batchSize.getD 100) (oldestFirst relay.outboxStore)
        unfold loadUnpublished
        omega
      refine ⟨some (.loading _), ⟨hkeyed, hadmitted, hwaiting, ?_, ?_⟩,
        Nat.add_le_add_left hless.le _, fun _ _ => Nat.add_lt_add_left hless _⟩
      · exact .busy rfl List.getElem?_concat_length rfl rfl (others_of_concat hcalls)
      · intro b hb
        obtain rfl := Option.some.inj hb
        exact hother
  | @busy call batch hprocessing hget hrunning hfits hothers =>
      rw [if_pos hprocessing]
      obtain ⟨hlt, -⟩ := List.getElem?_eq_some_iff.mp hget
      refine ⟨some batch, ⟨hkeyed, hadmitted, hwaiting, ?_, habsent⟩, le_rfl, fun hidle _ => ?_⟩
      · refine .busy hprocessing ((List.getElem?_append_left hlt).trans hget) hrunning hfits
          fun other hne b hb => ?_
        by_cases hold : other < relay.calls.length
        · rw [Option.mem_def, List.getElem?_append_left hold] at hb
          exact hothers other hne b hb
        · rw [Option.mem_def, List.getElem?_append_right (Nat.le_of_not_lt hold)] at hb
          rw [List.mem_singleton.mp (List.mem_of_getElem? hb)]
          rfl
      · rw [hprocessing] at hidle
        cases hidle

theorem step (h : Hungry poison (batchSize.getD 100) entry relay current)
    (hentry : poison entry.id = false) {action : Action J} {next : Relay J}
    (hmeets : relay.Polls poison action) (hstep : relay.step batchSize action = some next)
    (hnever : ∀ entries, .loading entries ∈ next.calls → entry ∉ entries) :
    ∃ current', Hungry poison (batchSize.getD 100) entry next current' ∧
      Advance (batchSize.getD 100) relay next current current' := by
  have hquiet (hidle : relay.processing = false) (hbusy : relay.processing = true) :
      False := by
    rw [hidle] at hbusy
    cases hbusy
  have hinProgress : ∀ timer, Current poison (batchSize.getD 100) { relay with timer }
      current := by
    intro timer
    cases h.inProgress with
    | idle hidle hcalls => exact .idle hidle hcalls
    | busy hprocessing hget hrunning hfits hothers =>
        exact .busy hprocessing hget hrunning hfits hothers
  cases action with
  | settle call ok now =>
      obtain ⟨current', hhungry, hless⟩ := h.settle hentry hmeets hstep
      exact ⟨current', hhungry, hless.le, fun _ _ => hless⟩
  | start =>
      obtain rfl := Option.some.inj hstep
      exact ⟨current, { h with inProgress := hinProgress true }, le_rfl,
        fun hidle hbusy => (hquiet hidle hbusy).elim⟩
  | stop =>
      obtain rfl := Option.some.inj hstep
      exact ⟨current, { h with inProgress := hinProgress false }, le_rfl,
        fun hidle hbusy => (hquiet hidle hbusy).elim⟩
  | tick =>
      obtain ⟨-, hnext⟩ := Option.ite_none_right_eq_some.mp hstep
      obtain rfl := Option.some.inj hnext
      exact h.processOnce hnever
  | processOnce =>
      obtain rfl := Option.some.inj hstep
      exact h.processOnce hnever
  | _ => exact hmeets.elim

/-- Polls that go on for ever do not leave it out for ever. -/
theorem not_forever {relays : Nat → Relay J} (hforever : PollsForever batchSize poison relays)
    (hentry : poison entry.id = false)
    (hnever : ∀ k entries, .loading entries ∈ (relays k).calls → entry ∉ entries) {k : Nat}
    (h : Hungry poison (batchSize.getD 100) entry (relays k) current) : False := by
  induction hbound : toDo (batchSize.getD 100) (relays k).outboxStore
      (currentWeight (batchSize.getD 100) current) using Nat.strongRecOn generalizing k current with
  | ind bound ih =>
      obtain ⟨m, hkm, hidle, hbusy⟩ := hforever.endless k
      have hreach : ∃ current', Hungry poison (batchSize.getD 100) entry (relays m) current' ∧
          toDo (batchSize.getD 100) (relays m).outboxStore
            (currentWeight (batchSize.getD 100) current') ≤ bound := by
        clear hidle hbusy
        induction m, hkm using Nat.le_induction with
        | base => exact ⟨current, h, hbound.le⟩
        | succ m _ ihm =>
            obtain ⟨current', hhungry, hle⟩ := ihm
            obtain ⟨action, hmeets, hstep⟩ := hforever.step m
            obtain ⟨current'', hhungry', hadvance⟩ :=
              hhungry.step hentry hmeets hstep (hnever (m + 1))
            exact ⟨current'', hhungry', hadvance.le.trans hle⟩
      obtain ⟨current', hhungry, hle⟩ := hreach
      obtain ⟨action, hmeets, hstep⟩ := hforever.step m
      obtain ⟨current'', hhungry', hadvance⟩ :=
        hhungry.step hentry hmeets hstep (hnever (m + 1))
      exact ih _ ((hadvance.lt hidle hbusy).trans_le hle) hhungry' rfl

end Hungry

/-- Every entry that is no poison is admitted if and only if `drain` publishes all of them
and endless polling has each of them in a batch. -/
theorem feeds_iff (hkeyed : Keyed relay.outboxStore) (hidle : relay.Idle) :
    relay.Feeds batchSize poison ↔ relay.Admits batchSize poison := by
  constructor
  · exact fun hfeeds => admits_of_drain hkeyed hidle hfeeds.drain
  · intro hadmits
    refine ⟨?_, ?_⟩
    · exact (drain_resolves hkeyed hidle).mono fun next hnext =>
        leavesPoison_of_admits hadmits hnext.1 hnext.2.1 hnext.2.2
    · rintro relays rfl hforever entry hmem hentry
      by_contra hnot
      have hnever : ∀ k entries, .loading entries ∈ (relays k).calls → entry ∉ entries :=
        fun k entries hcall hin => hnot ⟨k, entries, hcall, hin⟩
      have hstart : Hungry poison (batchSize.getD 100) entry (relays 0) none :=
        { keyed := hkeyed
          admitted := hadmits
          waiting := mem_oldestFirst.mpr hmem
          inProgress := .idle hidle.processing hidle.calls
          absent := by simp }
      exact hstart.not_forever hforever hentry hnever

namespace Sample

theorem keyed_outbox : Keyed outbox := keyed_save (fun _ _ hget => by cases hget) _

theorem idle_outbox : Idle { outboxStore := outbox } := ⟨rfl, by simp, rfl, rfl⟩

/-- The oldest of the three entries is poison, and a batch has two entries. -/
theorem feeds_iff_two :
    Feeds { outboxStore := outbox } (some 2) fun id => id = "a" := by
  refine (feeds_iff keyed_outbox idle_outbox).mpr fun before entry after horder hentry => ?_
  have hpoison : (oldestFirst outbox).countP (fun entry => decide (entry.id = "a")) = 1 := by
    decide +kernel
  rw [horder, List.countP_append] at hpoison
  exact Nat.lt_succ_of_le (hpoison ▸ Nat.le_add_right _ _)

/-- With batches of one entry the others are never published. -/
theorem feeds_one :
    ¬ ∀ (relay : Relay Unit) (n : Nat) (poison : String → Bool), 1 ≤ n →
      Keyed relay.outboxStore → relay.Idle → relay.Feeds (some n) poison := by
  intro hall
  have hfeeds := hall { outboxStore := outbox } 1 (fun id => id = "a") le_rfl keyed_outbox
    idle_outbox
  have hadmits := admits_of_drain keyed_outbox idle_outbox hfeeds.drain
  have hlt := hadmits [entry "a" 1] (entry "b" 2) [entry "c" 3] (by decide +kernel) (by decide)
  exact absurd hlt (by decide)

end Sample

end Relay

end Noddde.OutboxRelay
