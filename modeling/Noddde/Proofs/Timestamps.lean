import Noddde.Adapters.Timestamps
import Noddde.Adapters.Sample
import Noddde.Data.DateRoundTrip
import Noddde.Data.ExceptMap
import Noddde.Data.JsonRoundTrip
/-!
# What is read back of a timestamp

The text that the stores write is UTC and is read as local time.  An entry of the outbox
keeps its time where the host shows UTC at that time.  A question for a processed key is
answered as it should be where the difference does not move the age of its record across the
limit.
-/

namespace Noddde.Adapters

def readBack (zone : Zone) (t : Instant) : JsDate :=
  (DateText.shown t).bind fun dateTime => zone.instant dateTime.toMs

/-- The host shows the instant in UTC, and the year has more than two digits. -/
def Plain (zone : Zone) (t : Instant) : Prop :=
  ¬ DateText.ShortYear t ∧ zone.offset t.ms = 0

theorem parse_dbTimestamp (zone : Zone) (t : Instant) :
    DateText.parse zone (dbTimestamp t) = readBack zone t := by
  rw [dbTimestamp, DateText.replace_toISOString]
  exact DateText.parse_text zone t

theorem parse_dbTimestamp_eq_some_iff {zone : Zone} {t : Instant} :
    DateText.parse zone (dbTimestamp t) = some t ↔ Plain zone t := by
  rw [dbTimestamp, DateText.replace_toISOString]
  exact DateText.parse_eq_some_iff

/-- A year of more than two digits is read as it is. -/
theorem readBack_of_long {zone : Zone} {t : Instant} (h : ¬ DateText.ShortYear t) :
    readBack zone t = zone.instant t.ms := by
  rw [← parse_dbTimestamp, dbTimestamp, DateText.replace_toISOString]
  exact DateText.parse_of_long h

/-! ## The outbox -/

namespace Outbox

variable {N : Type} [Json.Number N]

/-- Every entry that is loaded has the `createdAt` it was saved with. -/
def KeepsCreatedAt (zone : Zone) (outbox : Outbox N) : Prop :=
  ∀ (batchSize : Nat) (entries : List (JsonOutboxEntry N)),
    DrizzleOutboxStore.loadUnpublished zone batchSize outbox.table = .ok entries →
      ∀ entry ∈ entries, ∃ saved, outbox.savedWith entry.id = some saved ∧
        entry.createdAt = saved.createdAt

/-- What is unpublished was created at a time that the host shows in UTC. -/
def CreatedPlainly (zone : Zone) (outbox : Outbox N) : Prop :=
  ∀ row ∈ outbox.table, row.publishedAt = none →
    ∀ saved, outbox.savedWith row.id = some saved → ∀ t, saved.createdAt = some t → Plain zone t

/-- A row holds what its entry has been saved with. -/
def SavedRow (outbox : Outbox N) (row : OutboxRow) : Prop :=
  ∃ saved t, outbox.savedWith row.id = some saved ∧ saved.event.Proper ∧
    saved.createdAt = some t ∧ row.event = saved.event.stringify ∧ row.createdAt = dbTimestamp t

def Inv (outbox : Outbox N) : Prop := ∀ row ∈ outbox.table, outbox.SavedRow row

/-- Publishing changes none of these columns. -/
theorem inv_map {outbox : Outbox N} {f : OutboxRow → OutboxRow} (h : outbox.Inv)
    (hid : ∀ row, (f row).id = row.id) (hevent : ∀ row, (f row).event = row.event)
    (hcreatedAt : ∀ row, (f row).createdAt = row.createdAt) :
    Inv { outbox with table := outbox.table.map f } := by
  intro row hmem
  obtain ⟨old, hold, rfl⟩ := List.mem_map.mp hmem
  obtain ⟨saved, t, hsaved, hproper, ht, hjson, htext⟩ := h old hold
  refine ⟨saved, t, ?_, hproper, ht, (hevent old).trans hjson, (hcreatedAt old).trans htext⟩
  rw [hid]
  exact hsaved

theorem inv_filter {outbox : Outbox N} {p : OutboxRow → Bool} (h : outbox.Inv) :
    Inv { outbox with table := outbox.table.filter p } :=
  fun row hmem => h row (List.mem_of_mem_filter hmem)

theorem toRow_spec {entry : JsonOutboxEntry N} {row : OutboxRow}
    (h : DrizzleOutboxStore.toRow entry = .ok row) :
    ∃ t publishedAt, entry.createdAt = some t ∧
      DrizzleOutboxStore.optionalTimestamp entry.publishedAt = .ok publishedAt ∧
      row =
        { id := entry.id
          event := entry.event.stringify
          eventId := DrizzleOutboxStore.eventId entry.event
          aggregateName := entry.aggregateName
          aggregateId := entry.aggregateId
          createdAt := dbTimestamp t
          publishedAt } := by
  unfold DrizzleOutboxStore.toRow at h
  cases hcreated : entry.createdAt with
  | none =>
      rw [hcreated] at h
      cases h
  | some t =>
      rw [hcreated] at h
      cases hpublished : DrizzleOutboxStore.optionalTimestamp entry.publishedAt with
      | error error =>
          rw [hpublished] at h
          cases h
      | ok publishedAt =>
          rw [hpublished] at h
          cases h
          exact ⟨t, publishedAt, rfl, rfl, rfl⟩

omit [Json.Number N] in
/-- Of entries with different ids, each one is found. -/
theorem find?_of_nodup {entries : List (JsonOutboxEntry N)} {entry : JsonOutboxEntry N}
    (hnodup : (entries.map JsonOutboxEntry.id).Nodup) (hmem : entry ∈ entries) :
    entries.find? (fun other => other.id = entry.id) = some entry := by
  induction entries with
  | nil => cases hmem
  | cons first rest ih =>
      obtain ⟨hfirst, hrest⟩ := List.nodup_cons.mp hnodup
      by_cases hid : first.id = entry.id
      · rw [List.find?_cons_of_pos (by simpa using hid)]
        cases List.mem_cons.mp hmem with
        | inl heq => rw [heq]
        | inr hin => exact absurd (hid ▸ List.mem_map_of_mem hin) hfirst
      · rw [List.find?_cons_of_neg (by simpa using hid)]
        cases List.mem_cons.mp hmem with
        | inl heq => exact absurd (by rw [heq]) hid
        | inr hin => exact ih hrest hin

omit [Json.Number N] in
theorem find?_eq_none_of_id {entries : List (JsonOutboxEntry N)} {id : String}
    (h : id ∉ entries.map JsonOutboxEntry.id) :
    entries.find? (fun other => other.id = id) = none := by
  rw [List.find?_eq_none]
  intro entry hmem hid
  exact h (of_decide_eq_true hid ▸ List.mem_map_of_mem hmem)

theorem exists_of_forall₂ {α β : Type} {R : α → β → Prop} {xs : List α} {ys : List β} {y : β}
    (h : List.Forall₂ R xs ys) (hmem : y ∈ ys) : ∃ x ∈ xs, R x y := by
  induction h with
  | nil => cases hmem
  | cons hfirst _ ih =>
      cases List.mem_cons.mp hmem with
      | inl heq => exact ⟨_, List.mem_cons_self, heq ▸ hfirst⟩
      | inr hin =>
          obtain ⟨x, hx, hrel⟩ := ih hin
          exact ⟨x, List.mem_cons_of_mem _ hx, hrel⟩

theorem ids_of_rows {entries : List (JsonOutboxEntry N)} {rows : List OutboxRow}
    (h : List.Forall₂ (fun entry row => DrizzleOutboxStore.toRow entry = .ok row) entries rows) :
    rows.map OutboxRow.id = entries.map JsonOutboxEntry.id := by
  have hids : List.Forall₂ Eq (entries.map JsonOutboxEntry.id) (rows.map OutboxRow.id) := by
    rw [List.forall₂_map_left_iff, List.forall₂_map_right_iff]
    refine h.imp fun entry row hrow => ?_
    obtain ⟨t, publishedAt, -, -, rfl⟩ := toRow_spec hrow
    rfl
  rw [List.forall₂_eq_eq_eq] at hids
  exact hids.symm

theorem inv_save {driver : Driver .drizzle} {outbox : Outbox N} {entries : List (ProperEntry N)}
    {table : OutboxTable} (h : outbox.Inv)
    (hsave : DrizzleOutboxStore.save driver (entries.map Subtype.val) outbox.table = .ok table) :
    Inv { table, saved := (entries.map Subtype.val).reverse ++ outbox.saved } := by
  have hproper (entry : JsonOutboxEntry N) (hmem : entry ∈ entries.map Subtype.val) :
      entry.event.Proper := by
    obtain ⟨proper, -, rfl⟩ := List.mem_map.mp hmem
    exact proper.2
  generalize entries.map Subtype.val = entries at hsave hproper
  unfold DrizzleOutboxStore.save at hsave
  split_ifs at hsave with hempty
  · cases hsave
    rw [List.length_eq_zero_iff.mp hempty]
    exact h
  · cases hrows : entries.mapM DrizzleOutboxStore.toRow with
    | error error =>
        rw [hrows] at hsave
        cases hsave
    | ok rows =>
        rw [hrows] at hsave
        change (if _ then _ else _) = _ at hsave
        split_ifs at hsave with hnodup
        cases hsave
        have hforall := ExceptMap.forall₂_of_mapM hrows
        rw [List.map_append, ids_of_rows hforall, List.nodup_append'] at hnodup
        obtain ⟨-, hnew, hdisjoint⟩ := hnodup
        intro row hmem
        cases List.mem_append.mp hmem with
        | inl hold =>
            obtain ⟨saved, t, hsaved, hrest⟩ := h row hold
            refine ⟨saved, t, ?_, hrest⟩
            have hid : row.id ∉ entries.reverse.map JsonOutboxEntry.id := by
              rw [List.map_reverse, List.mem_reverse]
              exact hdisjoint (List.mem_map_of_mem hold)
            unfold savedWith
            rw [List.find?_append, find?_eq_none_of_id hid]
            exact hsaved
        | inr hin =>
            obtain ⟨entry, hentry, hrow⟩ := exists_of_forall₂ hforall hin
            obtain ⟨t, publishedAt, ht, -, rfl⟩ := toRow_spec hrow
            refine ⟨entry, t, ?_, hproper entry hentry, ht, rfl, rfl⟩
            have hreverse : (entries.reverse.map JsonOutboxEntry.id).Nodup := by
              rw [List.map_reverse, List.nodup_reverse]
              exact hnew
            unfold savedWith
            rw [List.find?_append, find?_of_nodup hreverse (List.mem_reverse.mpr hentry)]
            rfl

theorem inv_step {driver : Driver .drizzle} {outbox next : Outbox N} {call : Call N}
    (h : outbox.Inv) (hstep : outbox.step driver call = some next) : next.Inv := by
  cases call with
  | save entries =>
      simp only [step] at hstep
      split at hstep
      · rename_i table hsave
        cases hstep
        exact inv_save h hsave
      · cases hstep
        exact h
  | markPublished ids now =>
      cases hstep
      unfold DrizzleOutboxStore.markPublished
      split_ifs with hempty
      · exact h
      · apply inv_map h
        · intro row
          split_ifs <;> rfl
        · intro row
          split_ifs <;> rfl
        · intro row
          split_ifs <;> rfl
  | markPublishedByEventIds eventIds now =>
      cases hstep
      unfold DrizzleOutboxStore.markPublishedByEventIds
      split_ifs with hempty
      · exact h
      · apply inv_map h
        · intro row
          split_ifs <;> rfl
        · intro row
          split_ifs <;> rfl
        · intro row
          split_ifs <;> rfl
  | deletePublished olderThan =>
      simp only [step] at hstep
      split at hstep
      · rename_i table hdelete
        cases hstep
        unfold DrizzleOutboxStore.deletePublished at hdelete
        cases hthreshold : DrizzleOutboxStore.optionalTimestamp olderThan with
        | error error =>
            rw [hthreshold] at hdelete
            cases hdelete
        | ok threshold =>
            rw [hthreshold] at hdelete
            cases hdelete
            exact inv_filter h
      · cases hstep
        exact h

theorem mem_unpublished {table : OutboxTable} {row : OutboxRow} :
    row ∈ DrizzleOutboxStore.unpublished table ↔ row ∈ table ∧ row.publishedAt = none := by
  unfold DrizzleOutboxStore.unpublished
  rw [List.mem_insertionSort, List.mem_filter, Option.isNone_iff_eq_none]

theorem ofRow_spec {zone : Zone} {row : OutboxRow} {entry : JsonOutboxEntry N}
    (h : DrizzleOutboxStore.ofRow zone row = .ok entry) :
    entry.id = row.id ∧ entry.createdAt = DateText.parse zone row.createdAt := by
  unfold DrizzleOutboxStore.ofRow at h
  split at h
  · cases h
    exact ⟨rfl, rfl⟩
  · cases h

theorem ofRow_of_saved {zone : Zone} {outbox : Outbox N} {row : OutboxRow}
    (h : outbox.SavedRow row) :
    ∃ entry : JsonOutboxEntry N, DrizzleOutboxStore.ofRow zone row = .ok entry := by
  obtain ⟨saved, t, -, hproper, -, hevent, -⟩ := h
  unfold DrizzleOutboxStore.ofRow
  rw [hevent, Json.parse_stringify hproper]
  exact ⟨_, rfl⟩

theorem keepsCreatedAt_of_plain {zone : Zone} {outbox : Outbox N} (h : outbox.Inv)
    (hplain : outbox.CreatedPlainly zone) : outbox.KeepsCreatedAt zone := by
  intro batchSize entries hload entry hentry
  obtain ⟨row, hrow, hread⟩ := exists_of_forall₂ (ExceptMap.forall₂_of_mapM hload) hentry
  obtain ⟨hmem, hunpublished⟩ := mem_unpublished.mp (List.mem_of_mem_take hrow)
  obtain ⟨saved, t, hsaved, -, ht, -, htext⟩ := h row hmem
  obtain ⟨hid, hcreatedAt⟩ := ofRow_spec hread
  refine ⟨saved, hid ▸ hsaved, ?_⟩
  rw [hcreatedAt, htext, ht]
  exact parse_dbTimestamp_eq_some_iff.mpr (hplain row hmem hunpublished saved hsaved t ht)

theorem plain_of_keepsCreatedAt {zone : Zone} {outbox : Outbox N} (h : outbox.Inv)
    (hkeeps : outbox.KeepsCreatedAt zone) : outbox.CreatedPlainly zone := by
  intro row hmem hunpublished saved hsaved t ht
  -- A batch of all rows is loaded.
  have hall : ∃ entries : List (JsonOutboxEntry N),
      DrizzleOutboxStore.loadUnpublished zone (DrizzleOutboxStore.unpublished outbox.table).length
        outbox.table = .ok entries := by
    unfold DrizzleOutboxStore.loadUnpublished
    rw [List.take_length]
    exact ExceptMap.exists_mapM fun other hother => ofRow_of_saved (h other (mem_unpublished.mp hother).1)
  obtain ⟨entries, hload⟩ := hall
  have hforall := ExceptMap.forall₂_of_mapM hload
  rw [List.take_length] at hforall
  obtain ⟨entry, hentry, hread⟩ :=
    exists_of_forall₂ hforall.flip (mem_unpublished.mpr ⟨hmem, hunpublished⟩)
  obtain ⟨hid, hcreatedAt⟩ := ofRow_spec hread
  obtain ⟨loaded, hloaded, hsame⟩ := hkeeps _ entries hload entry hentry
  obtain ⟨held, heldAt, hheld, -, heldTime, -, htext⟩ := h row hmem
  rw [hid, hsaved] at hloaded
  rw [hsaved] at hheld
  cases hloaded
  cases hheld
  rw [ht] at heldTime
  cases heldTime
  rw [hcreatedAt, htext, ht] at hsame
  exact parse_dbTimestamp_eq_some_iff.mp hsame

theorem keepsCreatedAt_iff {driver : Driver .drizzle} {zone : Zone} {outbox : Outbox N}
    (h : Machine.Reaches (step driver) {} outbox) :
    outbox.KeepsCreatedAt zone ↔ outbox.CreatedPlainly zone := by
  have hinv : outbox.Inv := by
    apply h.inv (I := Inv)
    · intro row hmem
      cases hmem
    · exact fun outbox call next hinv _ hstep => inv_step hinv hstep
  exact ⟨plain_of_keepsCreatedAt hinv, keepsCreatedAt_of_plain hinv⟩

end Outbox

/-! ## The idempotency records -/

namespace FirstMarks

def table (marks : FirstMarks) : IdempotencyTable := fun key => (marks key).map dbTimestamp

theorem table_update (marks : FirstMarks) (key : String) (mark : Option Instant) :
    table (Function.update marks key mark) =
      Function.update marks.table key (mark.map dbTimestamp) := by
  funext other
  by_cases heq : other = key
  · subst heq
    simp [table]
  · simp [table, heq]

end FirstMarks

/-- The age that the host computes of a record is on the same side of the limit as its age.
No age is above the limit if the host reads no date. -/
def AgeRight (zone : Zone) (ttlMs : ℚ) (now mark : Instant) : Prop :=
  ((now.ms - mark.ms : Int) : ℚ) ≤ ttlMs ↔
    ∀ date ∈ readBack zone mark, ((now.ms - date.ms : Int) : ℚ) ≤ ttlMs

/-- The host adds to the age how far it is ahead of UTC at the time of the record. -/
theorem ageRight_iff {zone : Zone} {ttlMs : ℚ} {now mark : Instant}
    (hlong : ¬ DateText.ShortYear mark)
    (hrange : (mark.ms - zone.offset mark.ms).natAbs ≤ maxTimeValue) :
    AgeRight zone ttlMs now mark ↔
      (((now.ms - mark.ms : Int) : ℚ) ≤ ttlMs ↔
        ((now.ms - mark.ms + zone.offset mark.ms : Int) : ℚ) ≤ ttlMs) := by
  have hread : readBack zone mark = some ⟨mark.ms - zone.offset mark.ms, hrange⟩ := by
    rw [readBack_of_long hlong]
    exact DateText.timeClip_eq_some.mpr rfl
  have hage : now.ms - (mark.ms - zone.offset mark.ms) =
      now.ms - mark.ms + zone.offset mark.ms := by omega
  unfold AgeRight
  rw [hread]
  simp only [Option.mem_some_iff, forall_eq', hage]

/-- It is whenever `hasProcessed` is called with a key that is marked. -/
def AgesRight (zone : Zone) (ttlMs : ℚ) :
    List (Instant × IdempotencyCall) → FirstMarks → Prop
  | [], _ => True
  | (now, .hasProcessed key) :: calls, marks =>
      (∀ mark ∈ marks key, AgeRight zone ttlMs now mark) ∧
        AgesRight zone ttlMs calls (marks.hasProcessed ttlMs key now).2
  | (now, .markProcessed key) :: calls, marks =>
      AgesRight zone ttlMs calls (marks.markProcessed key now)

namespace DrizzleEventIdempotencyStore

theorem isStale_eq_false_iff {zone : Zone} {ttlMs : ℚ} {now mark : Instant} :
    isStale zone ttlMs now (dbTimestamp mark) = false ↔
      ∀ date ∈ readBack zone mark, ((now.ms - date.ms : Int) : ℚ) ≤ ttlMs := by
  unfold isStale
  rw [parse_dbTimestamp]
  cases readBack zone mark with
  | none => simp
  | some date => simp

theorem markProcessed_table (driver : Driver .drizzle) (key : String) (now : Instant)
    (marks : FirstMarks) :
    markProcessed driver key now marks.table = (.ok (), (marks.markProcessed key now).table) := by
  have hviolation : Drizzle.isUniqueViolation driver.duplicateKey = true :=
    driver.isUniqueViolation
  unfold markProcessed FirstMarks.markProcessed
  cases hmark : marks key with
  | none =>
      have htable : marks.table key = none := by simp [FirstMarks.table, hmark]
      rw [htable]
      simp [FirstMarks.table_update]
  | some mark =>
      have htable : marks.table key = some (dbTimestamp mark) := by
        simp [FirstMarks.table, hmark]
      rw [htable]
      simp [hviolation]

/-- `hasProcessed` of a key that is not marked, or whose age is right. -/
theorem hasProcessed_table {zone : Zone} {ttlMs : ℚ} {key : String} {now : Instant}
    {marks : FirstMarks} (h : ∀ mark ∈ marks key, AgeRight zone ttlMs now mark) :
    hasProcessed zone (some ttlMs) key now marks.table =
      ((marks.hasProcessed ttlMs key now).1, (marks.hasProcessed ttlMs key now).2.table) := by
  unfold hasProcessed FirstMarks.hasProcessed
  cases hmark : marks key with
  | none =>
      have htable : marks.table key = none := by simp [FirstMarks.table, hmark]
      simp only [htable]
  | some mark =>
      have htable : marks.table key = some (dbTimestamp mark) := by
        simp [FirstMarks.table, hmark]
      have hright := h mark hmark
      unfold AgeRight at hright
      rw [← isStale_eq_false_iff] at hright
      simp only [htable]
      by_cases hage : ((now.ms - mark.ms : Int) : ℚ) ≤ ttlMs
      · rw [if_pos hage, hright.mp hage]
        rfl
      · have hstale : isStale zone ttlMs now (dbTimestamp mark) = true := by
          rw [← Bool.not_eq_false]
          exact fun hfalse => hage (hright.mpr hfalse)
        rw [if_neg hage, hstale, if_pos rfl, FirstMarks.table_update]
        rfl

/-- The answer tells whether the age is right. -/
theorem ageRight_of_hasProcessed {zone : Zone} {ttlMs : ℚ} {key : String} {now mark : Instant}
    {marks : FirstMarks} (hmark : marks key = some mark)
    (h : (hasProcessed zone (some ttlMs) key now marks.table).1 =
      (marks.hasProcessed ttlMs key now).1) : AgeRight zone ttlMs now mark := by
  have htable : marks.table key = some (dbTimestamp mark) := by
    simp [FirstMarks.table, hmark]
  unfold AgeRight
  rw [← isStale_eq_false_iff]
  unfold hasProcessed FirstMarks.hasProcessed at h
  simp only [htable, hmark] at h
  cases hstale : isStale zone ttlMs now (dbTimestamp mark) with
  | true =>
      rw [hstale, if_pos rfl] at h
      split_ifs at h with hage
      exact iff_of_false hage (by decide)
  | false =>
      rw [hstale, if_neg Bool.false_ne_true] at h
      split_ifs at h with hage
      exact iff_of_true hage rfl

theorem answers_eq_iff (zone : Zone) (driver : Driver .drizzle) (ttlMs : ℚ)
    (calls : List (Instant × IdempotencyCall)) (marks : FirstMarks) :
    answers zone driver (some ttlMs) calls marks.table = marks.answers ttlMs calls ↔
      AgesRight zone ttlMs calls marks := by
  induction calls generalizing marks with
  | nil => simp [answers, FirstMarks.answers, AgesRight]
  | cons timed calls ih =>
      obtain ⟨now, call⟩ := timed
      cases call with
      | markProcessed key =>
          simp only [answers, FirstMarks.answers, AgesRight, markProcessed_table]
          exact ih _
      | hasProcessed key =>
          simp only [answers, FirstMarks.answers, AgesRight, List.cons.injEq]
          constructor
          · intro h
            have hright : ∀ mark ∈ marks key, AgeRight zone ttlMs now mark :=
              fun mark hmark => ageRight_of_hasProcessed hmark h.1
            rw [hasProcessed_table hright] at h
            exact ⟨hright, (ih _).mp h.2⟩
          · intro h
            rw [hasProcessed_table h.1]
            exact ⟨rfl, (ih _).mpr h.2⟩

end DrizzleEventIdempotencyStore

/-- Of the outbox, in every state of its table, and of the records, for all calls at any times. -/
theorem timestamps_roundTrip_iff {N : Type} [Json.Number N] (zone : Zone)
    (driver : Driver .drizzle) :
    (∀ outbox : Outbox N, Machine.Reaches (Outbox.step driver) {} outbox →
      (outbox.KeepsCreatedAt zone ↔ outbox.CreatedPlainly zone)) ∧
    ∀ (ttlMs : ℚ) (calls : List (Instant × IdempotencyCall)),
      DrizzleEventIdempotencyStore.answers zone driver (some ttlMs) calls (fun _ => none) =
          FirstMarks.answers ttlMs calls (fun _ => none) ↔
        AgesRight zone ttlMs calls (fun _ => none) :=
  ⟨fun _ h => Outbox.keepsCreatedAt_iff h, fun ttlMs calls =>
    DrizzleEventIdempotencyStore.answers_eq_iff zone driver ttlMs calls fun _ => none⟩

/-! ## A host on UTC, and one that is ahead -/

namespace Sample

def sqlite : Driver .drizzle where
  duplicateKey :=
    { code := some "SQLITE_CONSTRAINT_PRIMARYKEY"
      message := "UNIQUE constraint failed: noddde_outbox.id" }
  updateResult n := { changes := some n }
  isUniqueViolation := by decide
  rowsAffected _ := rfl
  counts _ _ hcount := List.mem_singleton.mp hcount

/-- Ahead of UTC by a number of hours below 24, all the year. -/
def ahead (hours : Fin 24) : Zone where
  offset _ := hours.val * 3600000
  lt_day _ := by
    have hlt := hours.isLt
    unfold Calendar.msPerDay
    omega

/-- At half past ten in the morning of the fifteenth of January 2024. -/
def morning : Instant := ⟨1705314600000, by decide⟩

def placed : ProperEntry (Fin 10) :=
  ⟨{ id := "1"
     event := .object [(Json.ascii "name", .string (Json.ascii "OrderPlaced"))]
     createdAt := some morning },
   .object (by decide) fun field hmem => by
    rw [List.mem_singleton.mp hmem]
    exact .string _⟩

instance (t : Instant) : Decidable (DateText.ShortYear t) :=
  inferInstanceAs (Decidable (_ ∧ _))

instance (zone : Zone) (t : Instant) : Decidable (Plain zone t) :=
  inferInstanceAs (Decidable (_ ∧ _))

theorem timestamps_roundTrip_iff_utc :
    ∃ outbox : Outbox (Fin 10), Machine.Reaches (Outbox.step sqlite) {} outbox ∧
      outbox.table.length = 1 ∧ outbox.KeepsCreatedAt (ahead 0) := by
  have hplay : (Machine.play (Outbox.step sqlite) [.save [placed]] {}).map
      (fun outbox => (outbox.table.length, outbox.saved.map JsonOutboxEntry.createdAt)) =
      some (1, [some morning]) := by decide +kernel
  obtain ⟨outbox, hbox, hstate⟩ := Option.map_eq_some_iff.mp hplay
  obtain ⟨hlength, hsaved⟩ := Prod.mk.inj hstate
  have hrun := Machine.run_of_play (C := fun _ _ => True) (fun _ _ _ => trivial) hbox
  refine ⟨outbox, hrun, hlength, ((timestamps_roundTrip_iff (ahead 0) sqlite).1 outbox hrun).mpr ?_⟩
  intro row _ _ saved hfound t ht
  have hmem : saved.createdAt ∈ outbox.saved.map JsonOutboxEntry.createdAt :=
    List.mem_map_of_mem (List.mem_of_find?_eq_some hfound)
  rw [hsaved, ht, List.mem_singleton] at hmem
  cases hmem
  decide +kernel

/-- Two hours ahead of UTC an entry is loaded as two hours older, and a record that is kept
for an hour is stale at once. -/
theorem timestamps_ahead :
    (¬ ∀ (zone : Zone) (outbox : Outbox (Fin 10)),
      Machine.Reaches (Outbox.step sqlite) {} outbox → outbox.KeepsCreatedAt zone) ∧
    ¬ ∀ (zone : Zone) (ttlMs : ℚ) (calls : List (Instant × IdempotencyCall)),
      DrizzleEventIdempotencyStore.answers zone sqlite (some ttlMs) calls (fun _ => none) =
        FirstMarks.answers ttlMs calls (fun _ => none) := by
  constructor
  · intro hall
    have hplay : (Machine.play (Outbox.step sqlite) [.save [placed]] {}).map
        (fun outbox => (outbox.saved.map JsonOutboxEntry.createdAt,
          (DrizzleOutboxStore.loadUnpublished (ahead 2) 100 outbox.table).toOption.map
            (List.map (@JsonOutboxEntry.createdAt (Fin 10))))) =
        some ([some morning], some [timeClip (morning.ms - 7200000)]) := by decide +kernel
    obtain ⟨outbox, hbox, hstate⟩ := Option.map_eq_some_iff.mp hplay
    obtain ⟨hsaved, hloaded⟩ := Prod.mk.inj hstate
    have hrun := Machine.run_of_play (C := fun _ _ => True) (fun _ _ _ => trivial) hbox
    have hkeeps := hall (ahead 2) outbox hrun
    cases hload : (DrizzleOutboxStore.loadUnpublished (ahead 2) 100 outbox.table :
        Except TimestampError (List (JsonOutboxEntry (Fin 10)))) with
    | error error =>
        rw [hload] at hloaded
        cases hloaded
    | ok entries =>
        rw [hload] at hloaded
        have htimes : entries.map JsonOutboxEntry.createdAt =
            [timeClip (morning.ms - 7200000)] := Option.some.inj hloaded
        obtain ⟨entry, hentry, hcreatedAt⟩ := List.mem_map.mp
          (htimes ▸ List.mem_singleton_self _ :
            timeClip (morning.ms - 7200000) ∈ entries.map JsonOutboxEntry.createdAt)
        obtain ⟨saved, hfound, hsame⟩ := hkeeps 100 entries hload entry hentry
        have hmem : saved.createdAt ∈ outbox.saved.map JsonOutboxEntry.createdAt :=
          List.mem_map_of_mem (List.mem_of_find?_eq_some hfound)
        rw [hsaved, List.mem_singleton, ← hsame, hcreatedAt] at hmem
        exact absurd hmem (by decide +kernel)
  · intro hall
    have hanswers := hall (ahead 2) 3600000
      [(morning, .markProcessed "e"), (morning, .hasProcessed "e")]
    exact absurd hanswers (by decide +kernel)

end Sample

end Noddde.Adapters
