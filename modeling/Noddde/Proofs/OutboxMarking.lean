import Mathlib.Data.List.Perm.Subperm
import Noddde.Adapters.OutboxStores
import Noddde.Adapters.Sample
import Noddde.Data.ExceptMap
import Noddde.Data.JsonRoundTrip
import Noddde.Proofs.Timestamps
/-!
# The outbox stores agree on what they mark

A store that marks by a column, or by the events themselves, marks what is asked for.  The
store of TypeORM marks what it finds among the oldest ten thousand unpublished entries.
-/

namespace Noddde.Adapters

variable {N : Type}

/-! ## What a store holds -/

/-- The entries of a store; their ids are its primary key. -/
structure OutboxContent (N : Type) where
  entries : List (ProperEntry N)
  nodup : (entries.map fun entry => entry.1.id).Nodup

def Listed (eventIds : List JsString) (entry : JsonOutboxEntry N) : Prop :=
  ∃ eventId ∈ DrizzleOutboxStore.eventId entry.event, eventId ∈ eventIds

instance (eventIds : List JsString) (entry : JsonOutboxEntry N) :
    Decidable (Listed eventIds entry) :=
  inferInstanceAs (Decidable (∃ eventId ∈ DrizzleOutboxStore.eventId entry.event, _))

namespace OutboxContent

variable (content : OutboxContent N)

def remaining (eventIds : List JsString) : List String :=
  (content.entries.filter fun entry =>
    entry.1.publishedAt.isNone && !decide (Listed eventIds entry.1)).map fun entry => entry.1.id

def inMemory : InMemoryOutboxStore.Entries N where
  entries := content.entries.map fun entry => (entry.1.id, entry.1)
  nodup := by
    rw [List.map_map]
    exact content.nodup

variable [Json.Number N]

def prisma : List PrismaOutboxStore.Row :=
  content.entries.map fun entry => PrismaOutboxStore.toRow entry.1

def typeORM : List TypeORMOutboxStore.Row :=
  content.entries.map fun entry => TypeORMOutboxStore.toRow entry.1

end OutboxContent

/-! ## What marking is to do -/

/-- The unpublished rows are those with the given ids, and the rows that were published
before are as they were. -/
structure Marked {R : Type} (id : R → String) (unpublished : R → Bool) (ids : List String)
    (before after : List R) : Prop where
  remaining : ∀ x, x ∈ (after.filter unpublished).map id ↔ x ∈ ids
  untouched : ∀ row ∈ before, unpublished row = false → row ∈ after

variable [Json.Number N]

/-- All four stores of the content mark what is asked for; the one of Drizzle has it in
`table`. -/
structure OutboxStoresAgree (byCreatedAt : TypeORMOutboxStore.ByCreatedAt)
    (content : OutboxContent N) (table : OutboxTable) (eventIds : List JsString)
    (now : Instant) : Prop where
  inMemory : Marked JsonOutboxEntry.id (fun entry => entry.publishedAt.isNone)
    (content.remaining eventIds) content.inMemory.values
    (InMemoryOutboxStore.markPublishedByEventIds eventIds now content.inMemory).values
  drizzle : Marked OutboxRow.id (fun row => row.publishedAt.isNone)
    (content.remaining eventIds) table
    (DrizzleOutboxStore.markPublishedByEventIds eventIds now table)
  prisma : Marked PrismaOutboxStore.Row.id (fun row => row.publishedAt.isNone)
    (content.remaining eventIds) content.prisma
    (PrismaOutboxStore.markPublishedByEventIds eventIds now content.prisma)
  typeORM : ∃ after, TypeORMOutboxStore.markPublishedByEventIds N byCreatedAt eventIds now
      content.typeORM = .ok after ∧
    Marked TypeORMOutboxStore.Row.id (fun row => row.publishedAt.isNone)
      (content.remaining eventIds) content.typeORM after

/-- Every unpublished entry that is to be marked has a non-empty event id and is among the
oldest ten thousand unpublished entries. -/
def WithinReach (byCreatedAt : TypeORMOutboxStore.ByCreatedAt) (content : OutboxContent N)
    (eventIds : List JsString) : Prop :=
  ∀ entry ∈ content.entries, entry.1.publishedAt = none → Listed eventIds entry.1 →
    DrizzleOutboxStore.eventId entry.1.event ≠ some [] ∧
      TypeORMOutboxStore.toRow entry.1 ∈
        (TypeORMOutboxStore.unpublished byCreatedAt content.typeORM).take 10000

/-- A store of at most ten thousand entries, each with an event id. -/
theorem withinReach_of_length_le {byCreatedAt : TypeORMOutboxStore.ByCreatedAt}
    {content : OutboxContent N} {eventIds : List JsString}
    (hlength : content.entries.length ≤ 10000)
    (hnonempty : ∀ entry ∈ content.entries,
      DrizzleOutboxStore.eventId entry.1.event ≠ some []) :
    WithinReach byCreatedAt content eventIds := by
  intro entry hentry hunpublished _
  refine ⟨hnonempty entry hentry, ?_⟩
  have hperm := byCreatedAt.perm (content.typeORM.filter fun row => row.publishedAt.isNone)
  have hle : (TypeORMOutboxStore.unpublished byCreatedAt content.typeORM).length ≤ 10000 :=
    calc (TypeORMOutboxStore.unpublished byCreatedAt content.typeORM).length
        = (content.typeORM.filter fun row => row.publishedAt.isNone).length := hperm.length_eq
      _ ≤ content.typeORM.length := List.length_filter_le ..
      _ = content.entries.length := List.length_map ..
      _ ≤ 10000 := hlength
  rw [List.take_of_length_le hle]
  apply hperm.mem_iff.mpr
  refine List.mem_filter.mpr ⟨List.mem_map.mpr ⟨entry, hentry, rfl⟩, ?_⟩
  simp [TypeORMOutboxStore.toRow, hunpublished]

/-! ## Stores that mark row by row -/

section RowByRow

omit [Json.Number N]

variable {R : Type} {id : R → String} {unpublished : R → Bool} {eventIds : List JsString}

/-- `update` does to the row what is to be done to the entry. -/
structure Treats (id : R → String) (unpublished : R → Bool) (eventIds : List JsString)
    (update : R → R) (entry : ProperEntry N) (row : R) : Prop where
  represents : id row = entry.1.id ∧ unpublished row = entry.1.publishedAt.isNone
  keepsId : id (update row) = id row
  publishes : unpublished (update row) = (unpublished row && !decide (Listed eventIds entry.1))
  untouched : unpublished row = false → update row = row

theorem marked_of_treats {update : R → R} {content : OutboxContent N} {before : List R}
    (h : List.Forall₂ (Treats id unpublished eventIds update) content.entries before) :
    Marked id unpublished (content.remaining eventIds) before (before.map update) := by
  suffices hrows : ∀ {entries : List (ProperEntry N)} {rows : List R},
      List.Forall₂ (Treats id unpublished eventIds update) entries rows →
      ((rows.map update).filter unpublished).map id =
        ((entries.filter fun entry => entry.1.publishedAt.isNone &&
          !decide (Listed eventIds entry.1)).map fun entry => entry.1.id) ∧
      ∀ row ∈ rows, unpublished row = false → row ∈ rows.map update by
    obtain ⟨hremaining, huntouched⟩ := hrows h
    refine ⟨fun x => ?_, huntouched⟩
    rw [hremaining]
    rfl
  intro entries rows h
  induction h with
  | nil => exact ⟨rfl, by simp⟩
  | @cons entry row _ _ hrow _ ih =>
      obtain ⟨hremaining, huntouched⟩ := ih
      constructor
      · rw [List.map_cons, List.filter_cons, List.filter_cons, hrow.publishes,
          hrow.represents.2]
        split
        · rw [List.map_cons, List.map_cons, hremaining, hrow.keepsId, hrow.represents.1]
        · exact hremaining
      · refine List.forall_mem_cons.mpr ⟨fun hpublished => ?_, fun other hother hpublished => ?_⟩
        · rw [List.map_cons, hrow.untouched hpublished]
          exact List.mem_cons_self
        · exact List.mem_cons_of_mem _ (huntouched other hother hpublished)

/-- An update that goes by the event id of the row. -/
theorem marked_of_eventId (id : R → String) (unpublished : R → Bool)
    (eventId : R → Option JsString) (publish : R → R) (eventIds : List JsString)
    {content : OutboxContent N} {before : List R}
    (h : List.Forall₂ (fun entry row => id row = entry.1.id ∧
      eventId row = DrizzleOutboxStore.eventId entry.1.event ∧
      unpublished row = entry.1.publishedAt.isNone) content.entries before)
    (hid : ∀ row, id (publish row) = id row)
    (hpublish : ∀ row, unpublished (publish row) = false) :
    Marked id unpublished (content.remaining eventIds) before (before.map fun row =>
      if (∃ x ∈ eventId row, x ∈ eventIds) ∧ unpublished row = true then publish row
      else row) := by
  refine marked_of_treats (h.imp fun entry row hrow => ?_)
  obtain ⟨hrowId, heventId, hpublished⟩ := hrow
  have hlisted : (∃ x ∈ eventId row, x ∈ eventIds) ↔ Listed eventIds entry.1 := by
    rw [heventId]
    rfl
  refine ⟨⟨hrowId, hpublished⟩, ?_, ?_, fun hrow => by simp [hrow]⟩
  · split
    · exact hid row
    · rfl
  · simp only [hlisted]
    by_cases hlisted : Listed eventIds entry.1 <;>
      cases hrow : unpublished row <;> simp [hlisted, hrow, hpublish]

end RowByRow

section Columns

variable (content : OutboxContent N) (eventIds : List JsString) (now : Instant)

omit [Json.Number N] in
theorem marked_inMemory :
    Marked JsonOutboxEntry.id (fun entry => entry.publishedAt.isNone)
      (content.remaining eventIds) content.inMemory.values
      (InMemoryOutboxStore.markPublishedByEventIds eventIds now content.inMemory).values := by
  have hvalues : content.inMemory.values = content.entries.map Subtype.val := by
    simp [OutboxContent.inMemory, InsertionMap.values, Function.comp_def]
  have hrows : List.Forall₂ (fun (entry : ProperEntry N) (row : JsonOutboxEntry N) =>
      row.id = entry.1.id ∧
        DrizzleOutboxStore.eventId row.event = DrizzleOutboxStore.eventId entry.1.event ∧
        row.publishedAt.isNone = entry.1.publishedAt.isNone)
      content.entries content.inMemory.values := by
    rw [hvalues, List.forall₂_map_right_iff]
    exact List.forall₂_same.mpr fun entry _ => ⟨rfl, rfl, rfl⟩
  have hmarked := marked_of_eventId JsonOutboxEntry.id (fun entry => entry.publishedAt.isNone)
    (fun entry => DrizzleOutboxStore.eventId entry.event)
    (fun entry => { entry with publishedAt := some (some now) }) eventIds hrows
    (fun _ => rfl) fun _ => rfl
  convert hmarked using 2
  simp [InMemoryOutboxStore.markPublishedByEventIds, InsertionMap.values,
    InsertionMap.mapValues, Function.comp_def, and_comm]

theorem marked_prisma :
    Marked PrismaOutboxStore.Row.id (fun row => row.publishedAt.isNone)
      (content.remaining eventIds) content.prisma
      (PrismaOutboxStore.markPublishedByEventIds eventIds now content.prisma) := by
  have hrows : List.Forall₂ (fun (entry : ProperEntry N) (row : PrismaOutboxStore.Row) =>
      row.id = entry.1.id ∧ row.eventId = DrizzleOutboxStore.eventId entry.1.event ∧
        row.publishedAt.isNone = entry.1.publishedAt.isNone)
      content.entries content.prisma := by
    rw [OutboxContent.prisma, List.forall₂_map_right_iff]
    exact List.forall₂_same.mpr fun entry _ => ⟨rfl, rfl, rfl⟩
  have hmarked := marked_of_eventId PrismaOutboxStore.Row.id
    (fun row => row.publishedAt.isNone) PrismaOutboxStore.Row.eventId
    (fun row => { row with publishedAt := some (some now) }) eventIds hrows
    (fun _ => rfl) fun _ => rfl
  convert hmarked using 2
  unfold PrismaOutboxStore.markPublishedByEventIds
  split
  · rename_i hempty
    obtain rfl := List.eq_nil_of_length_eq_zero hempty
    simp
  · simp

/-- A row of Drizzle represents the entry that it was written for. -/
theorem toRow_eq_ok {entry : JsonOutboxEntry N} {row : OutboxRow}
    (h : DrizzleOutboxStore.toRow entry = .ok row) :
    row.id = entry.id ∧ row.eventId = DrizzleOutboxStore.eventId entry.event ∧
      row.publishedAt.isNone = entry.publishedAt.isNone := by
  obtain ⟨t, publishedAt, -, hpublished, rfl⟩ := Outbox.toRow_spec h
  refine ⟨rfl, rfl, ?_⟩
  cases hentry : entry.publishedAt with
  | none =>
      rw [hentry] at hpublished
      obtain rfl := Except.ok.inj hpublished
      rfl
  | some date =>
      rw [hentry] at hpublished
      cases htimestamp : toDbTimestamp date with
      | error e => simp [DrizzleOutboxStore.optionalTimestamp, htimestamp, Except.map] at hpublished
      | ok timestamp =>
          simp only [DrizzleOutboxStore.optionalTimestamp, htimestamp, Except.map] at hpublished
          obtain rfl := Except.ok.inj hpublished
          rfl

variable {content} in
theorem marked_drizzle {table : OutboxTable}
    (htable : (content.entries.map Subtype.val).mapM DrizzleOutboxStore.toRow = .ok table) :
    Marked OutboxRow.id (fun row => row.publishedAt.isNone) (content.remaining eventIds) table
      (DrizzleOutboxStore.markPublishedByEventIds eventIds now table) := by
  have hmarked := marked_of_eventId OutboxRow.id (fun row => row.publishedAt.isNone)
    OutboxRow.eventId (fun row => { row with publishedAt := some (dbTimestamp now) }) eventIds
    ((List.forall₂_map_left_iff.mp (ExceptMap.forall₂_of_mapM htable)).imp fun _ _ => toRow_eq_ok)
    (fun _ => rfl) fun _ => rfl
  convert hmarked using 2
  unfold DrizzleOutboxStore.markPublishedByEventIds
  split
  · rename_i hempty
    obtain rfl := List.eq_nil_of_length_eq_zero hempty
    simp
  · simp

end Columns

/-! ## The store that reads the events -/

section TypeORM

variable {byCreatedAt : TypeORMOutboxStore.ByCreatedAt} {content : OutboxContent N}
  {eventIds : List JsString} {now : Instant}

omit [Json.Number N] in
theorem OutboxContent.eq_of_id {entry entry' : ProperEntry N} (h : entry ∈ content.entries)
    (h' : entry' ∈ content.entries) (hid : entry.1.id = entry'.1.id) : entry = entry' :=
  List.inj_on_of_nodup_map content.nodup h h' hid

theorem ofRow_toRow (entry : ProperEntry N) :
    TypeORMOutboxStore.ofRow (TypeORMOutboxStore.toRow entry.1) = .ok entry.1 := by
  simp [TypeORMOutboxStore.ofRow, TypeORMOutboxStore.toRow, Json.parse_stringify entry.2]

/-- The rows that are read are those of some unpublished entries. -/
theorem exists_loaded (byCreatedAt : TypeORMOutboxStore.ByCreatedAt)
    (content : OutboxContent N) (batchSize : Nat) :
    ∃ loaded : List (ProperEntry N), (∀ entry ∈ loaded, entry ∈ content.entries) ∧
      (TypeORMOutboxStore.unpublished byCreatedAt content.typeORM).take batchSize =
        loaded.map (fun entry => TypeORMOutboxStore.toRow entry.1) ∧
      TypeORMOutboxStore.loadUnpublished byCreatedAt batchSize content.typeORM =
        .ok (loaded.map Subtype.val) := by
  have hrows : ∀ row ∈ (TypeORMOutboxStore.unpublished byCreatedAt content.typeORM).take
      batchSize, ∃ entry ∈ content.entries, TypeORMOutboxStore.toRow entry.1 = row := by
    intro row hrow
    have hmem := (byCreatedAt.perm _).mem_iff.mp (List.mem_of_mem_take hrow)
    exact List.mem_map.mp (List.mem_filter.mp hmem).1
  have hpre : ∀ rows : List TypeORMOutboxStore.Row,
      (∀ row ∈ rows, ∃ entry ∈ content.entries, TypeORMOutboxStore.toRow entry.1 = row) →
      ∃ loaded : List (ProperEntry N), (∀ entry ∈ loaded, entry ∈ content.entries) ∧
        rows = loaded.map fun entry => TypeORMOutboxStore.toRow entry.1 := by
    intro rows hrows
    induction rows with
    | nil => exact ⟨[], by simp, rfl⟩
    | cons row rest ih =>
        obtain ⟨⟨entry, hentry, rfl⟩, hrest⟩ := List.forall_mem_cons.mp hrows
        obtain ⟨loaded, hloaded, rfl⟩ := ih hrest
        exact ⟨entry :: loaded, List.forall_mem_cons.mpr ⟨hentry, hloaded⟩, rfl⟩
  obtain ⟨loaded, hloaded, heq⟩ := hpre _ hrows
  refine ⟨loaded, hloaded, heq, ?_⟩
  rw [TypeORMOutboxStore.loadUnpublished, heq]
  exact ExceptMap.mapM_map_ok ofRow_toRow loaded

/-- The entries that TypeORM marks, if they are unpublished. -/
def Matched (byCreatedAt : TypeORMOutboxStore.ByCreatedAt) (content : OutboxContent N)
    (eventIds : List JsString) (entry : JsonOutboxEntry N) : Prop :=
  TypeORMOutboxStore.toRow entry ∈
      (TypeORMOutboxStore.unpublished byCreatedAt content.typeORM).take 10000 ∧
    TypeORMOutboxStore.hasListedEventId eventIds entry = true

/-- What a call leaves of each row. -/
theorem exists_markPublishedByEventIds (byCreatedAt : TypeORMOutboxStore.ByCreatedAt)
    (content : OutboxContent N) (eventIds : List JsString) (now : Instant) :
    ∃ matchingIds : List String,
      TypeORMOutboxStore.markPublishedByEventIds N byCreatedAt eventIds now content.typeORM =
        .ok (content.typeORM.map fun row =>
          if row.id ∈ matchingIds then { row with publishedAt := some (some now) } else row) ∧
      ∀ entry ∈ content.entries,
        entry.1.id ∈ matchingIds ↔ Matched byCreatedAt content eventIds entry.1 := by
  by_cases hempty : eventIds = []
  · subst hempty
    refine ⟨[], by simp [TypeORMOutboxStore.markPublishedByEventIds], fun entry _ => ?_⟩
    simp [Matched, TypeORMOutboxStore.hasListedEventId]
  · obtain ⟨loaded, hloaded, hrows, hload⟩ := exists_loaded byCreatedAt content 10000
    refine ⟨((loaded.map Subtype.val).filter
      (TypeORMOutboxStore.hasListedEventId eventIds)).map (·.id), ?_, fun entry hentry => ?_⟩
    · have hlength : ¬ eventIds.length = 0 := by simpa using hempty
      simp only [TypeORMOutboxStore.markPublishedByEventIds, if_neg hlength, hload, bind,
        Except.bind, TypeORMOutboxStore.markPublished]
      split
      · rename_i hmatching
        rw [if_neg (Nat.ne_of_gt hmatching)]
      · rename_i hmatching
        rw [List.eq_nil_of_length_eq_zero (Nat.eq_zero_of_not_pos hmatching)]
        simp
    · unfold Matched
      rw [hrows]
      constructor
      · intro hid
        obtain ⟨other, hother, hid⟩ := List.mem_map.mp hid
        obtain ⟨hloadedOther, hlisted⟩ := List.mem_filter.mp hother
        obtain ⟨found, hfound, rfl⟩ := List.mem_map.mp hloadedOther
        obtain rfl := content.eq_of_id (hloaded found hfound) hentry hid
        exact ⟨List.mem_map.mpr ⟨found, hfound, rfl⟩, hlisted⟩
      · rintro ⟨hrow, hlisted⟩
        obtain ⟨other, hmem, hrow⟩ := List.mem_map.mp hrow
        have hid := congrArg TypeORMOutboxStore.Row.id hrow
        obtain rfl := content.eq_of_id (hloaded other hmem) hentry hid
        exact List.mem_map.mpr ⟨_, List.mem_filter.mpr
          ⟨List.mem_map.mpr ⟨other, hmem, rfl⟩, hlisted⟩, rfl⟩

theorem matched_iff {entry : JsonOutboxEntry N} :
    Matched byCreatedAt content eventIds entry ↔
      TypeORMOutboxStore.toRow entry ∈
          (TypeORMOutboxStore.unpublished byCreatedAt content.typeORM).take 10000 ∧
        DrizzleOutboxStore.eventId entry.event ≠ some [] ∧ Listed eventIds entry := by
  unfold Matched TypeORMOutboxStore.hasListedEventId Listed
  cases DrizzleOutboxStore.eventId entry.event <;> simp

theorem Matched.unpublished {entry : JsonOutboxEntry N}
    (h : Matched byCreatedAt content eventIds entry) : entry.publishedAt = none := by
  have hmem := (byCreatedAt.perm _).mem_iff.mp (List.mem_of_mem_take h.1)
  simpa [TypeORMOutboxStore.toRow] using (List.mem_filter.mp hmem).2

/-- What was to be marked is marked only if it is matched. -/
theorem matched_of_marked {entry : ProperEntry N} {after : List TypeORMOutboxStore.Row}
    (hafter : TypeORMOutboxStore.markPublishedByEventIds N byCreatedAt eventIds now
      content.typeORM = .ok after)
    (hmarked : Marked TypeORMOutboxStore.Row.id (fun row => row.publishedAt.isNone)
      (content.remaining eventIds) content.typeORM after)
    (hentry : entry ∈ content.entries) (hunpublished : entry.1.publishedAt = none)
    (hlisted : Listed eventIds entry.1) : Matched byCreatedAt content eventIds entry.1 := by
  obtain ⟨matchingIds, hmark, hmatching⟩ :=
    exists_markPublishedByEventIds byCreatedAt content eventIds now
  obtain rfl := Except.ok.inj (hmark.symm.trans hafter)
  have hremaining : entry.1.id ∉ content.remaining eventIds := by
    intro hmem
    obtain ⟨other, hother, hid⟩ := List.mem_map.mp hmem
    obtain ⟨hother, hunlisted⟩ := List.mem_filter.mp hother
    obtain rfl := content.eq_of_id hother hentry hid
    simp [hlisted] at hunlisted
  by_contra hunmatched
  have hunmarked : entry.1.id ∉ matchingIds := fun hid =>
    hunmatched ((hmatching entry hentry).mp hid)
  refine hremaining ((hmarked.remaining _).mp (List.mem_map.mpr
    ⟨TypeORMOutboxStore.toRow entry.1, List.mem_filter.mpr ⟨?_, ?_⟩, rfl⟩))
  · exact List.mem_map.mpr ⟨_, List.mem_map.mpr ⟨entry, hentry, rfl⟩, if_neg hunmarked⟩
  · simp [TypeORMOutboxStore.toRow, hunpublished]

theorem marked_typeORM (h : WithinReach byCreatedAt content eventIds) :
    ∃ after, TypeORMOutboxStore.markPublishedByEventIds N byCreatedAt eventIds now
        content.typeORM = .ok after ∧
      Marked TypeORMOutboxStore.Row.id (fun row => row.publishedAt.isNone)
        (content.remaining eventIds) content.typeORM after := by
  obtain ⟨matchingIds, hmark, hmatching⟩ :=
    exists_markPublishedByEventIds byCreatedAt content eventIds now
  refine ⟨_, hmark, marked_of_treats ?_⟩
  rw [OutboxContent.typeORM, List.forall₂_map_right_iff]
  refine List.forall₂_same.mpr fun entry hentry => ?_
  have hmarks : (TypeORMOutboxStore.toRow entry.1).id ∈ matchingIds ↔
      entry.1.publishedAt = none ∧ Listed eventIds entry.1 := by
    refine (hmatching entry hentry).trans ⟨fun hmatched => ?_, fun hdue => ?_⟩
    · exact ⟨hmatched.unpublished, (matched_iff.mp hmatched).2.2⟩
    · obtain ⟨hnonempty, hrow⟩ := h entry hentry hdue.1 hdue.2
      exact matched_iff.mpr ⟨hrow, hnonempty, hdue.2⟩
  refine ⟨⟨rfl, rfl⟩, ?_, ?_, fun hpublished => ?_⟩
  · split <;> rfl
  · simp only [hmarks]
    by_cases hlisted : Listed eventIds entry.1 <;>
      cases hpublishedAt : entry.1.publishedAt <;>
        simp [hlisted, hpublishedAt, TypeORMOutboxStore.toRow]
  · have hunmarked : ¬ (TypeORMOutboxStore.toRow entry.1).id ∈ matchingIds := fun hmem => by
      simp [TypeORMOutboxStore.toRow, (hmarks.mp hmem).1] at hpublished
    exact if_neg hunmarked

/-- TypeORM marks what is asked for exactly if all of it is within reach. -/
theorem outboxStoresAgree_iff {table : OutboxTable}
    (htable : (content.entries.map Subtype.val).mapM DrizzleOutboxStore.toRow = .ok table) :
    OutboxStoresAgree byCreatedAt content table eventIds now ↔
      WithinReach byCreatedAt content eventIds := by
  constructor
  · intro h entry hentry hunpublished hlisted
    obtain ⟨after, hafter, hmarked⟩ := h.typeORM
    obtain ⟨hrow, hnonempty, -⟩ := matched_iff.mp
      (matched_of_marked hafter hmarked hentry hunpublished hlisted)
    exact ⟨hnonempty, hrow⟩
  · intro h
    exact ⟨marked_inMemory content eventIds now, marked_drizzle eventIds now htable,
      marked_prisma content eventIds now, marked_typeORM h⟩

end TypeORM

/-! ## A relay that has fallen behind -/

namespace Sample

/-- Rows of one time stay in the order of the table. -/
def byCreatedAt : TypeORMOutboxStore.ByCreatedAt where
  order rows := rows.mergeSort fun row row' =>
    decide ((row.createdAt.map Instant.ms).getD 0 ≤ (row'.createdAt.map Instant.ms).getD 0)
  perm rows := List.mergeSort_perm _ _
  sorted rows := by
    refine (List.pairwise_mergeSort ?_ ?_ rows).imp ?_
    · intro a b c
      simp only [decide_eq_true_eq]
      exact le_trans
    · intro a b
      simp only [Bool.or_eq_true, decide_eq_true_eq]
      exact le_total _ _
    · intro a b hab t ht t' ht'
      simpa [Option.mem_def.mp ht, Option.mem_def.mp ht'] using hab

def epoch : Instant := ⟨0, by decide⟩

def eventId (i : Nat) : JsString := List.replicate (i + 1) 0x78

def outboxEvent (i : Nat) : Json (Fin 10) :=
  .object [(Json.ascii "metadata", .object [(Json.ascii "eventId", .string (eventId i))])]

theorem outboxEvent_proper (i : Nat) : (outboxEvent i).Proper := by
  refine .object (List.nodup_singleton _) (List.forall_mem_singleton.mpr ?_)
  exact .object (List.nodup_singleton _) (List.forall_mem_singleton.mpr (.string _))

def outboxEntry (i : Nat) : ProperEntry (Fin 10) :=
  ⟨{ id := String.ofList (List.replicate i 'x')
     event := outboxEvent i
     createdAt := some epoch }, outboxEvent_proper i⟩

theorem outboxEntry_id_injective :
    Function.Injective fun i => (outboxEntry i).1.id := by
  intro i j h
  have hlist := congrArg String.toList h
  simpa [outboxEntry] using congrArg List.length hlist

/-- So many unpublished entries. -/
def backlog (n : Nat) : OutboxContent (Fin 10) where
  entries := (List.range n).map outboxEntry
  nodup := by
    rw [List.map_map]
    exact List.nodup_range.map outboxEntry_id_injective

theorem listed_outboxEntry {n i : Nat} (h : i < n) :
    Listed ((List.range n).map eventId) (outboxEntry i).1 := by
  refine ⟨eventId i, ?_, List.mem_map.mpr ⟨i, List.mem_range.mpr h, rfl⟩⟩
  simp [outboxEntry, outboxEvent, DrizzleOutboxStore.eventId, Json.property,
    Json.optionalProperty, InsertionMap.getEntry]

theorem exists_drizzle_backlog (n : Nat) :
    ∃ table, ((backlog n).entries.map Subtype.val).mapM DrizzleOutboxStore.toRow =
      .ok table := by
  let row (i : Nat) : OutboxRow :=
    { id := (outboxEntry i).1.id
      event := (outboxEntry i).1.event.stringify
      eventId := DrizzleOutboxStore.eventId (outboxEntry i).1.event
      aggregateName := none
      aggregateId := none
      createdAt := dbTimestamp epoch
      publishedAt := none }
  refine ⟨(List.range n).map row, ?_⟩
  rw [backlog, List.map_map]
  exact ExceptMap.mapM_map_ok (f := DrizzleOutboxStore.toRow) (v := row) (fun _ => rfl)
    (List.range n)

/-- Of a backlog of more than ten thousand entries some stay unpublished. -/
theorem not_matched_backlog {n : Nat} (hn : 10000 < n) :
    ¬ ∀ entry ∈ (backlog n).entries,
      Matched byCreatedAt (backlog n) ((List.range n).map eventId) entry.1 := by
  intro h
  let rows := (TypeORMOutboxStore.unpublished byCreatedAt (backlog n).typeORM).take 10000
  have hsubset : ((backlog n).entries.map fun entry => entry.1.id) ⊆
      rows.map TypeORMOutboxStore.Row.id := by
    intro id hid
    obtain ⟨entry, hentry, rfl⟩ := List.mem_map.mp hid
    exact List.mem_map.mpr ⟨_, (h entry hentry).1, rfl⟩
  have hlength := ((backlog n).nodup.subperm hsubset).length_le
  have hrows : rows.length ≤ 10000 := List.length_take_le _ _
  simp only [List.length_map, backlog, List.length_range] at hlength
  omega

theorem not_outboxStoresAgree {n : Nat} (hn : 10000 < n) {table : OutboxTable} :
    ¬ OutboxStoresAgree byCreatedAt (backlog n) table ((List.range n).map eventId) epoch := by
  intro h
  obtain ⟨after, hafter, hmarked⟩ := h.typeORM
  refine not_matched_backlog hn fun entry hentry => ?_
  obtain ⟨i, hi, rfl⟩ := List.mem_map.mp hentry
  exact matched_of_marked hafter hmarked hentry rfl
    (listed_outboxEntry (List.mem_range.mp hi))

theorem not_outboxStoresAgree_backlog :
    ¬ ∀ (content : OutboxContent (Fin 10)) (table : OutboxTable) (eventIds : List JsString),
      (content.entries.map Subtype.val).mapM DrizzleOutboxStore.toRow = .ok table →
      OutboxStoresAgree byCreatedAt content table eventIds epoch := by
  intro h
  obtain ⟨table, htable⟩ := exists_drizzle_backlog 10001
  exact not_outboxStoresAgree (Nat.lt_succ_self 10000) (h _ table _ htable)

/-- The third entry is published. -/
def mixed : OutboxContent (Fin 10) where
  entries := [outboxEntry 0, outboxEntry 1,
    ⟨{ (outboxEntry 2).1 with publishedAt := some epoch }, (outboxEntry 2).2⟩]
  nodup := by decide +kernel

/-- The events of the first and the third entry are marked, and the second one remains. -/
theorem outboxStoresAgree_mixed :
    ∃ table, (mixed.entries.map Subtype.val).mapM DrizzleOutboxStore.toRow = .ok table ∧
      mixed.remaining [eventId 0, eventId 2] = [(outboxEntry 1).1.id] ∧
      OutboxStoresAgree byCreatedAt mixed table [eventId 0, eventId 2] epoch := by
  have heventId (i : Nat) : DrizzleOutboxStore.eventId (outboxEvent i) = some (eventId i) := by
    simp [outboxEvent, DrizzleOutboxStore.eventId, Json.property, Json.optionalProperty,
      InsertionMap.getEntry]
  have htable : ∃ table, (mixed.entries.map Subtype.val).mapM DrizzleOutboxStore.toRow =
      .ok table := ⟨_, rfl⟩
  obtain ⟨table, htable⟩ := htable
  refine ⟨table, htable, by decide +kernel, (outboxStoresAgree_iff htable).mpr ?_⟩
  apply withinReach_of_length_le (by decide)
  intro entry hentry
  simp only [mixed, List.mem_cons, List.not_mem_nil, or_false] at hentry
  rcases hentry with rfl | rfl | rfl <;> simp [outboxEntry, heventId, eventId]

end Sample

end Noddde.Adapters
