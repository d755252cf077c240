import Noddde.Adapters.EventReaders
import Noddde.Adapters.Sample
import Noddde.Data.ExceptMap
import Noddde.Data.StableSort
/-!
# The event readers stream the log exactly once

Keyset pagination yields what its query selects, in the order of the ids.  The query selects
what the filter asks for, unless the filter is the empty string.
-/

namespace Noddde.Adapters

variable {N : Type} [Json.Number N]

def EventReadOptions.Passes (options : EventReadOptions) (row : LoggedRow N) : Prop :=
  ∀ aggregateName ∈ options.aggregateName, row.aggregateName = aggregateName

omit [Json.Number N] in
instance (options : EventReadOptions) (row : LoggedRow N) : Decidable (options.Passes row) :=
  inferInstanceAs (Decidable (∀ aggregateName ∈ options.aggregateName, _))

/-- The reader ends, however many queries it is given beyond those it needs, and has then
yielded the rows that pass, decoded, each once and in the order of the ids. -/
def StreamsOnce (reader : SqlEventReader) (log : EventLog N) (options : EventReadOptions) :
    Prop :=
  ∃ (rows : List (LoggedRow N)) (events : List (JsonEvent N)),
    rows.Perm (log.rows.filter fun row => decide (options.Passes row)) ∧
    (rows.Pairwise fun row row' => row.id < row'.id) ∧
    (rows.mapM fun row => reader.deserialize row.toEventRow) = .ok events ∧
    ∃ needed, ∀ queries, needed ≤ queries →
      reader.read log options queries = some (events, .ok ())

/-- Every row that passes decodes, and no filter is given by the empty string, unless every
row passes it. -/
def Readable (reader : SqlEventReader) (log : EventLog N) (options : EventReadOptions) : Prop :=
  (∀ row ∈ log.rows, options.Passes row →
    (reader.deserialize row.toEventRow).isOk = true) ∧
  (options.aggregateName = some "" → ∀ row ∈ log.rows, options.Passes row)

/-! ## The log in the order of its ids -/

section Log

omit [Json.Number N]

variable (log : EventLog N)

def byId (row row' : LoggedRow N) : Prop := row.id ≤ row'.id

instance : DecidableRel (byId (N := N)) := fun row row' =>
  inferInstanceAs (Decidable (row.id ≤ row'.id))

instance : IsTrans (LoggedRow N) byId := ⟨fun _ _ _ => le_trans⟩

instance : Std.Total (byId (N := N)) := ⟨fun row row' => le_total row.id row'.id⟩

def EventLog.selected (options : EventReadOptions) : List (LoggedRow N) :=
  (log.rows.filter options.selects).insertionSort byId

theorem selected_sorted (options : EventReadOptions) :
    (log.selected options).Pairwise fun row row' => row.id < row'.id := by
  have hsorted := List.pairwise_insertionSort byId (log.rows.filter options.selects)
  have hdistinct : (log.selected options).Pairwise fun row row' => row.id ≠ row'.id := by
    refine List.pairwise_map.mp ?_
    exact (((List.perm_insertionSort byId _).map _).nodup_iff).mpr
      ((List.filter_sublist.map _).nodup log.nodup)
  exact (hsorted.and hdistinct).imp fun h => lt_of_le_of_ne h.1 h.2

theorem page_eq (options : EventReadOptions) (batchSize cursor : Nat) :
    log.page options batchSize cursor =
      ((log.selected options).filter fun row => decide (cursor < row.id)).take batchSize := by
  unfold EventLog.page EventLog.selected
  rw [StableSort.filter_insertionSort, List.filter_filter]
  rfl

/-- A reader that has a query for each row it selects ends. -/
theorem read_eq (deserialize : EventRow N → Except StoreError (JsonEvent N)) {batchSize : Nat}
    (hbatch : 0 < batchSize) (options : EventReadOptions) {queries : Nat}
    (hqueries : (log.selected options).length < queries) :
    log.read deserialize batchSize options queries =
      some (Keyset.yieldEach (fun row => deserialize row.toEventRow) (log.selected options)) := by
  have hall : (log.selected options).filter (fun row => decide (0 < row.id)) =
      log.selected options := by
    refine List.filter_eq_self.mpr fun row hrow => ?_
    have hmem := (List.perm_insertionSort byId _).mem_iff.mp hrow
    simpa using log.positive row (List.mem_filter.mp hmem).1
  have hleft : ((log.selected options).filter fun row => decide (0 < row.id)).length <
      queries := by
    rwa [hall]
  have hpages := Keyset.readPages_eq (fun row => deserialize row.toEventRow)
    (selected_sorted log options) hbatch hleft
  rw [hall] at hpages
  rw [← hpages, EventLog.read]
  congr 1
  funext cursor
  exact page_eq log options batchSize cursor

end Log

theorem reader_read_eq (reader : SqlEventReader) (log : EventLog N) (options : EventReadOptions)
    {queries : Nat} (hqueries : (log.selected options).length < queries) :
    reader.read log options queries =
      some (Keyset.yieldEach (fun row => reader.deserialize row.toEventRow)
        (log.selected options)) := by
  cases reader with
  | drizzle batchSize pos => exact read_eq log deserializeEvent pos options hqueries
  | prisma => exact read_eq log _ (by decide) options hqueries
  | typeORM => exact read_eq log _ (by decide) options hqueries

/-! ## What is selected -/

omit [Json.Number N] in
/-- A filter that is not the empty string selects what passes. -/
theorem selects_eq {options : EventReadOptions} {row : LoggedRow N}
    (h : options.aggregateName = some "" → options.Passes row) :
    options.selects row = decide (options.Passes row) := by
  obtain ⟨aggregateName⟩ := options
  unfold EventReadOptions.selects EventReadOptions.Passes
  cases aggregateName with
  | none => simp
  | some name =>
      by_cases hname : name = ""
      · subst hname
        have hrow : row.aggregateName = "" := h rfl "" rfl
        simp [hrow]
      · by_cases hrow : row.aggregateName = name <;> simp [hname, hrow]

theorem streamsOnce_of_readable {reader : SqlEventReader} {log : EventLog N}
    {options : EventReadOptions} (h : Readable reader log options) :
    StreamsOnce reader log options := by
  obtain ⟨hdecodes, hempty⟩ := h
  have hselected : log.rows.filter options.selects =
      log.rows.filter fun row => decide (options.Passes row) :=
    List.filter_congr fun row hrow => selects_eq fun hfilter => hempty hfilter row hrow
  have hperm : (log.selected options).Perm
      (log.rows.filter fun row => decide (options.Passes row)) := by
    rw [← hselected]
    exact List.perm_insertionSort byId _
  have hok : ∀ row ∈ log.selected options,
      ∃ event, reader.deserialize row.toEventRow = .ok event := by
    intro row hrow
    obtain ⟨hmem, hpasses⟩ := List.mem_filter.mp (hperm.mem_iff.mp hrow)
    exact ExceptMap.isOk_iff.mp (hdecodes row hmem (of_decide_eq_true hpasses))
  obtain ⟨events, hevents⟩ := ExceptMap.exists_mapM hok
  refine ⟨log.selected options, events, hperm, selected_sorted log options, hevents,
    (log.selected options).length + 1, fun queries hqueries => ?_⟩
  rw [reader_read_eq reader log options hqueries, Keyset.yieldEach_eq_ok_iff.mpr hevents]

theorem readable_of_streamsOnce {reader : SqlEventReader} {log : EventLog N}
    {options : EventReadOptions} (h : StreamsOnce reader log options) :
    Readable reader log options := by
  obtain ⟨rows, events, hperm, -, hevents, needed, hread⟩ := h
  have hqueries := hread (max needed ((log.selected options).length + 1)) (le_max_left _ _)
  have hlt : (log.selected options).length < max needed ((log.selected options).length + 1) :=
    lt_of_lt_of_le (Nat.lt_succ_self _) (le_max_right _ _)
  rw [reader_read_eq reader log options hlt] at hqueries
  have hselected := Keyset.yieldEach_eq_ok_iff.mp (Option.some.inj hqueries)
  refine ⟨fun row hrow hpasses => ?_, fun hfilter row hrow => ?_⟩
  · have hmem := hperm.mem_iff.mpr (List.mem_filter.mpr ⟨hrow, decide_eq_true hpasses⟩)
    exact ExceptMap.isOk_of_mapM hevents row hmem
  · -- as many rows pass as are selected, which are all of them
    have hall : log.rows.filter options.selects = log.rows := by
      refine List.filter_eq_self.mpr fun row _ => ?_
      simp [EventReadOptions.selects, hfilter]
    have hlength : (log.rows.filter fun row => decide (options.Passes row)).length =
        log.rows.length := by
      rw [← hperm.length_eq, (ExceptMap.forall₂_of_mapM hevents).length_eq,
        ← (ExceptMap.forall₂_of_mapM hselected).length_eq, EventLog.selected, hall,
        List.length_insertionSort]
    exact of_decide_eq_true (List.length_filter_eq_length_iff.mp hlength row hrow)

theorem streamsOnce_iff_readable (reader : SqlEventReader) (log : EventLog N)
    (options : EventReadOptions) :
    StreamsOnce reader log options ↔ Readable reader log options :=
  ⟨readable_of_streamsOnce, streamsOnce_of_readable⟩

/-! ## The empty filter -/

namespace Sample

def accountLog : EventLog (Fin 10) where
  rows :=
    [{ id := 1
       aggregateName := "Account"
       aggregateId := "a1"
       sequenceNumber := 1
       eventName := "Opened"
       payload := .string [0x31]
       metadata := .null }]
  positive := by simp
  nodup := List.nodup_singleton _

theorem not_streamsOnce_emptyFilter :
    ¬ ∀ options, StreamsOnce SqlEventReader.prisma accountLog options := by
  intro h
  have hpasses := (readable_of_streamsOnce (h { aggregateName := some "" })).2 rfl _
    (List.mem_singleton_self _)
  exact absurd (hpasses "" rfl) (by decide)

end Sample

end Noddde.Adapters
