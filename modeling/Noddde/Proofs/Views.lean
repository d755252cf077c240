import Noddde.Engine.ReadModel
/-!
# Views under concurrent updates

As long as no two callers edit one view at the same time, a view is the fold of
the updates that were written to it, in the order in which they were written.
-/

namespace Noddde.ReadModel

variable {ι J Infra : Type}

/-! ## The reference fold -/

/-- The reducers of a projection are pure and do not throw: together they are
`reduce`. -/
def Projection.Reduces (projection : Projection J Infra)
    (reduce : Event J → J → Option J) : Prop :=
  ∀ eventName handler, projection.on.get eventName = some handler →
    ∀ event view infra, event.name = eventName →
      handler.reduce event view infra = .ok (reduce event view)

/-- One step of the fold; a missing view is `initialView`. -/
def applyToView [JsValue J] (reduce : Event J → J → Option J) (initialView : J) (view : Option J)
    (event : Event J) : Option J :=
  reduce event (nullishCoalesce view initialView)

def foldView [JsValue J] (reduce : Event J → J → Option J) (initialView : J) (view : Option J)
    (events : List (Event J)) : Option J :=
  events.foldl (applyToView reduce initialView) view

def Projection.viewKey? (projection : Projection J Infra) (event : Event J) : Option String :=
  match projection.on.get event.name with
  | none => none
  | some handler =>
      match handler.viewId event with
      | .ok viewId => some viewId.render
      | .error _ => none

theorem viewKey?_eq_some {projection : Projection J Infra} {event : Event J} {key : String} :
    projection.viewKey? event = some key ↔
      ∃ handler viewId, projection.on.get event.name = some handler ∧
        handler.viewId event = .ok viewId ∧ viewId.render = key := by
  unfold Projection.viewKey?
  cases hget : projection.on.get event.name with
  | none => simp
  | some handler =>
      cases hid : handler.viewId event with
      | error error => simp [hid]
      | ok viewId => simp [hid]

theorem id_isSome_of_viewId {handler : EventHandler J Infra} {event : Event J} {viewId : ID}
    (h : handler.viewId event = .ok viewId) : handler.id.isSome = true := by
  unfold EventHandler.viewId at h
  cases hid : handler.id with
  | none => simp [hid] at h
  | some id => rfl

/-! ## What is tracked -/

section Tracking

variable [DecidableEq ι]

namespace State

variable (s : State ι J)

/-- The updates of one view, oldest first. -/
def updatesOf (name key : String) : List (Event J) :=
  ((s.updates.filter fun update => update.projection = name ∧ update.key = key).map
    Update.event).reverse

/-- The updates of the views of a projection that `i` has written, oldest first. -/
def writtenBy (i : ι) (name : String) : List (Event J) :=
  ((s.updates.filter fun update => update.caller = i ∧ update.projection = name).map
    Update.event).reverse

/-- No two callers are between the load and the write of one view. -/
def Exclusive (name : String) : Prop :=
  ∀ i j key, s.editing i = some (name, key) → s.editing j = some (name, key) → i = j

end State

/-- What a caller sees of the others: they leave what it is editing alone. -/
structure Kept (name : String) (i : ι) (s t : State ι J) : Prop where
  handlers : t.handlers = s.handlers
  editing : t.editing i = s.editing i
  written : t.writtenBy i name = s.writtenBy i name
  view : ∀ key, s.editing i = some (name, key) →
    (t.views name).get key = (s.views name).get key

theorem Kept.refl (name : String) (i : ι) (s : State ι J) : Kept name i s s :=
  ⟨rfl, rfl, rfl, fun _ _ => rfl⟩

theorem Kept.trans {name : String} {i : ι} {s t u : State ι J} (hst : Kept name i s t)
    (htu : Kept name i t u) : Kept name i s u where
  handlers := htu.handlers.trans hst.handlers
  editing := htu.editing.trans hst.editing
  written := htu.written.trans hst.written
  view key hkey := (htu.view key (hst.editing.trans hkey)).trans (hst.view key hkey)

end Tracking

/-- Every view of the projection is the fold of its updates, each of which went to
the view of its event. -/
structure Folded [JsValue J] (name : String) (projection : Projection J Infra)
    (reduce : Event J → J → Option J) (before : ViewStore J) (s : State ι J) : Prop where
  view : ∀ key, (s.views name).get key =
    foldView reduce projection.initialView (before.get key) (s.updatesOf name key)
  key : ∀ update ∈ s.updates, update.projection = name →
    projection.viewKey? update.event = some update.key

variable [DecidableEq ι] [JsValue J]

/-- The protocol of the callers that update views of the projection `name`. -/
def editors (name : String) (projection : Projection J Infra)
    (reduce : Event J → J → Option J) (before : ViewStore J) : Protocol ι (State ι J) where
  fact _ t := t.Exclusive name
  inv s := s.Exclusive name ∧ Folded name projection reduce before s
  rely := Kept name
  guar i s t := ∀ j, j ≠ i → Kept name j s t
  rely_refl := Kept.refl name
  rely_trans _ _ _ _ := Kept.trans
  guar_rely hne hguar := hguar _ hne.symm

/-! ## The segments of an update -/

variable {name : String} {projection : Projection J Infra}
  {reduce : Event J → J → Option J} {before : ViewStore J} {i : ι} {s t : State ι J}

/-- Nothing has been updated so far, and nothing is being edited. -/
theorem inv_start (hupdates : s.updates = []) (hediting : ∀ i, s.editing i = none) :
    (editors name projection reduce (s.views name)).inv s := by
  refine ⟨fun i j key hi => ?_, fun key => ?_, fun update hupdate => ?_⟩
  · rw [hediting i] at hi
    cases hi
  · simp [State.updatesOf, hupdates, foldView]
  · simp [hupdates] at hupdate

omit [JsValue J] in
theorem kept_edit (s : State ι J) (view : Option (String × String)) {j : ι} (hj : j ≠ i) :
    Kept name j s (s.edit i view) :=
  ⟨rfl, Function.update_of_ne hj _ _, rfl, fun _ _ => rfl⟩

omit [DecidableEq ι] in
theorem Folded.congr (h : Folded name projection reduce before s)
    (hviews : t.views name = s.views name)
    (hupdates : ∀ key, t.updatesOf name key = s.updatesOf name key)
    (hmem : ∀ update ∈ t.updates, update.projection = name → update ∈ s.updates) :
    Folded name projection reduce before t where
  view key := by rw [hviews, hupdates, h.view key]
  key update hupdate hname := h.key update (hmem update hupdate hname) hname

/-- A segment that only changes what its caller is editing. -/
theorem allows_edit {Q : State ι J → Prop} (view : Option (String × String))
    (hs : (editors name projection reduce before).inv s)
    (hQ : ∀ t, (editors name projection reduce before).inv t →
      Kept name i (s.edit i view) t → Q t) :
    (editors name projection reduce before).Allows i Q s (s.edit i view) := by
  intro hexclusive
  exact ⟨⟨hexclusive, hs.2.congr rfl (fun _ => rfl) fun _ h _ => h⟩, fun j hj => kept_edit s view hj,
    fun t hinv ht => hQ t hinv ht⟩

omit [JsValue J] in
theorem get_writeStore (store : ViewStore J) (key : String) (newView : Option J)
    (key' : String) :
    (writeStore store key newView).get key' = if key' = key then newView else store.get key' := by
  cases newView with
  | none => exact InsertionMap.get_delete store key key'
  | some view => exact InsertionMap.get_set store key key' view

/-- The state after `writeView`. -/
def State.write (i : ι) (name : String) (viewId : ID) (event : Event J) (newView : Option J)
    (s : State ι J) : State ι J :=
  { s.edit i none with
    views := Function.update s.views name (writeStore (s.views name) viewId.render newView)
    updates := ⟨i, name, viewId.render, event⟩ :: s.updates }

omit [JsValue J] in
theorem updatesOf_write (viewId : ID) (event : Event J) (newView : Option J)
    (other key : String) :
    (s.write i other viewId event newView).updatesOf name key =
      s.updatesOf name key ++ if other = name ∧ viewId.render = key then [event] else [] := by
  simp only [State.updatesOf, State.write, List.filter_cons, decide_eq_true_eq]
  split_ifs <;> simp

omit [JsValue J] in
theorem writtenBy_write (viewId : ID) (event : Event J) (newView : Option J)
    (other : String) (j : ι) :
    (s.write i other viewId event newView).writtenBy j name =
      s.writtenBy j name ++ if i = j ∧ other = name then [event] else [] := by
  simp only [State.writtenBy, State.write, List.filter_cons, decide_eq_true_eq]
  split_ifs <;> simp

omit [DecidableEq ι] in
theorem foldView_append_singleton (initialView : J) (view : Option J) (events : List (Event J))
    (event : Event J) :
    foldView reduce initialView view (events ++ [event]) =
      reduce event (nullishCoalesce (foldView reduce initialView view events) initialView) := by
  simp [foldView, applyToView]

/-- The write of an update of the projection, by the one caller that edits the view. -/
theorem allows_write {Q : State ι J → Prop} {viewId : ID} {event : Event J}
    (hs : (editors name projection reduce before).inv s)
    (hediting : s.editing i = some (name, viewId.render))
    (hkey : projection.viewKey? event = some viewId.render)
    (hQ : ∀ t, (editors name projection reduce before).inv t →
      Kept name i (s.write i name viewId event
        (reduce event (nullishCoalesce ((s.views name).get viewId.render) projection.initialView))) t →
      Q t) :
    (editors name projection reduce before).Allows i Q s (s.write i name viewId event
      (reduce event (nullishCoalesce ((s.views name).get viewId.render) projection.initialView))) := by
  intro hexclusive
  refine ⟨⟨hexclusive, fun key => ?_, fun update hupdate hname => ?_⟩, fun j hj => ?_,
    fun t hinv ht => hQ t hinv ht⟩
  · rw [updatesOf_write]
    simp only [State.write, Function.update_self, get_writeStore, true_and]
    by_cases heq : key = viewId.render
    · subst heq
      rw [if_pos rfl, if_pos rfl, foldView_append_singleton, hs.2.view viewId.render]
    · rw [if_neg heq, if_neg (fun h => heq h.symm), List.append_nil]
      exact hs.2.view key
  · rcases List.mem_cons.mp hupdate with rfl | hupdate
    · exact hkey
    · exact hs.2.key update hupdate hname
  · refine ⟨rfl, Function.update_of_ne hj _ _, ?_, fun key hkey => ?_⟩
    · rw [writtenBy_write, if_neg (fun h => hj h.1.symm), List.append_nil]
    · have hne : key ≠ viewId.render := by
        intro heq
        subst heq
        exact hj (hs.1 j i _ hkey hediting)
      simp only [State.write, Function.update_self, get_writeStore, if_neg hne]

/-- The write of an update of another projection. -/
theorem allows_write_other {Q : State ι J → Prop} {other : String} {viewId : ID}
    {event : Event J} {newView : Option J} (hother : other ≠ name)
    (hs : (editors name projection reduce before).inv s)
    (hQ : ∀ t, (editors name projection reduce before).inv t →
      Kept name i (s.write i other viewId event newView) t → Q t) :
    (editors name projection reduce before).Allows i Q s
      (s.write i other viewId event newView) := by
  have hviews : (s.write i other viewId event newView).views name = s.views name :=
    Function.update_of_ne hother.symm _ _
  intro hexclusive
  refine ⟨⟨hexclusive, hs.2.congr hviews (fun key => ?_) fun update hupdate hname => ?_⟩,
    fun j hj => ?_, fun t hinv ht => hQ t hinv ht⟩
  · rw [updatesOf_write, if_neg (fun h => hother h.1), List.append_nil]
  · exact (List.mem_cons.mp hupdate).resolve_left fun heq => hother (by rw [← hname, heq])
  · refine ⟨rfl, Function.update_of_ne hj _ _, ?_, fun key _ => by rw [hviews]⟩
    rw [writtenBy_write, if_neg (fun h => hother h.2), List.append_nil]

/-! ## An update -/

variable {E : Err → State ι J → Prop}

/-- The caller `i` is between the load and the write of a view, whose content is
`view`. -/
structure Holds (name : String) (i : ι) (key : String) (view : Option J)
    (written : List (Event J)) (s : State ι J) : Prop where
  editing : s.editing i = some (name, key)
  view : (s.views name).get key = view
  written : s.writtenBy i name = written

omit [JsValue J] in
theorem Holds.kept {key : String} {view : Option J} {written : List (Event J)}
    (h : Holds name i key view written s) (hst : Kept name i s t) :
    Holds name i key view written t where
  editing := hst.editing.trans h.editing
  view := (hst.view key h.editing).trans h.view
  written := hst.written.trans h.written

section Own

variable {handler : EventHandler J Infra} {viewId : ID} {event : Event J}
  {written : List (Event J)}

theorem loadView_safe (hwritten : s.writtenBy i name = written) :
    Async.Safe (editors name projection reduce before) i
      (fun currentView t => ∃ view,
        currentView = nullishCoalesce view projection.initialView ∧
          Holds name i viewId.render view written t)
      E (Async.call fun _ : Choice Infra => loadView i name projection viewId) s := by
  refine Async.Safe.call fun t ht hst _ => ?_
  apply allows_edit _ ht
  intro u _ hu
  have hholds : Holds name i viewId.render ((t.views name).get viewId.render) written
      (t.edit i (some (name, viewId.render))) :=
    ⟨Function.update_self _ _ _, rfl, hst.written.trans hwritten⟩
  exact ⟨_, rfl, hholds.kept hu⟩

theorem reduceEvent_safe {view : Option J}
    (hreduce : ∀ view infra, handler.reduce event view infra = .ok (reduce event view))
    (hs : Holds name i viewId.render view written s) :
    Async.Safe (editors name projection reduce before) i
      (fun newView t =>
        newView = reduce event (nullishCoalesce view projection.initialView) ∧
        Holds name i viewId.render view written t)
      E (Async.call (reduceEvent i handler event
        (nullishCoalesce view projection.initialView))) s := by
  refine Async.Safe.call fun t ht hst c => ?_
  simp only [Segment.wp, reduceEvent, hreduce]
  intro hexclusive
  refine ⟨ht, fun j _ => Kept.refl name j t, fun u _ htu => ⟨rfl, ?_⟩⟩
  exact hs.kept (hst.trans htu)

theorem writeView_safe {view : Option J} (hkey : projection.viewKey? event = some viewId.render)
    (hs : Holds name i viewId.render view written s) :
    Async.Safe (editors name projection reduce before) i
      (fun _ t => t.writtenBy i name = written ++ [event]) E
      (Async.call fun _ : Choice Infra => writeView i name viewId event
        (reduce event (nullishCoalesce view projection.initialView))) s := by
  refine Async.Safe.call fun t ht hst _ => ?_
  have hholds := hs.kept hst
  rw [← hholds.view]
  apply allows_write ht hholds.editing hkey
  intro u _ htu
  change u.writtenBy i name = _
  rw [htu.written, writtenBy_write, if_pos ⟨rfl, rfl⟩, hholds.written]

/-- An update of the projection adds its event to what `i` has written. -/
theorem updateView_safe (hs : (editors name projection reduce before).inv s)
    (hreduce : ∀ view infra, handler.reduce event view infra = .ok (reduce event view))
    (hkey : projection.viewKey? event = some viewId.render)
    (hwritten : s.writtenBy i name = written) :
    Async.Safe (editors name projection reduce before) i
      (fun _ t => t.writtenBy i name = written ++ [event]) E
      (updateView i name projection handler viewId event) s := by
  refine Async.Safe.bind hs ((loadView_safe hwritten).mono ?_ fun _ _ _ he => he)
  rintro _ t ht ⟨view, rfl, hholds⟩
  refine Async.Safe.bind ht ((reduceEvent_safe hreduce hholds).mono ?_ fun _ _ _ he => he)
  rintro _ u _ ⟨rfl, hholds⟩
  exact writeView_safe hkey hholds

end Own

/-- An update of another projection adds nothing to what `i` has written. -/
theorem updateView_safe_other {other : String} {projection' : Projection J Infra}
    {handler : EventHandler J Infra} {viewId : ID} {event : Event J}
    {written : List (Event J)} (hother : other ≠ name)
    (hs : (editors name projection reduce before).inv s)
    (hwritten : s.writtenBy i name = written) :
    Async.Safe (editors name projection reduce before) i
      (fun _ t => t.writtenBy i name = written) (fun _ t => t.writtenBy i name = written)
      (updateView i other projection' handler viewId event) s := by
  have hload : Async.Safe (editors name projection reduce before) i
      (fun _ t => t.writtenBy i name = written) (fun _ t => t.writtenBy i name = written)
      (Async.call fun _ : Choice Infra => loadView i other projection' viewId) s := by
    refine Async.Safe.call fun t ht hst _ => ?_
    apply allows_edit _ ht
    intro u _ hu
    exact hu.written.trans (hst.written.trans hwritten)
  refine Async.Safe.bind hs (hload.mono ?_ fun _ _ _ he => he)
  intro currentView t ht hwritten
  have hreduce : Async.Safe (editors name projection reduce before) i
      (fun _ t => t.writtenBy i name = written) (fun _ t => t.writtenBy i name = written)
      (Async.call (reduceEvent i handler event currentView)) t := by
    refine Async.Safe.call fun u hu htu c => ?_
    unfold Segment.wp reduceEvent
    split
    · intro hexclusive
      exact ⟨hu, fun j _ => Kept.refl name j u, fun v _ huv =>
        huv.written.trans (htu.written.trans hwritten)⟩
    · apply allows_edit none hu
      intro v _ huv
      exact huv.written.trans (htu.written.trans hwritten)
  refine Async.Safe.bind ht (hreduce.mono ?_ fun _ _ _ he => he)
  intro newView u _ hwritten
  refine Async.Safe.call fun v hv huv _ => ?_
  apply allows_write_other hother hv
  intro w _ hvw
  change w.writtenBy i name = _
  rw [hvw.written, writtenBy_write, if_neg (fun h => hother h.2), List.append_nil,
    huv.written, hwritten]

theorem foreign_safe {written : List (Event J)} (hwritten : s.writtenBy i name = written) :
    Async.Safe (editors name projection reduce before) i
      (fun _ t => t.writtenBy i name = written) (fun _ t => t.writtenBy i name = written)
      (foreign : Program ι J Infra Unit) s := by
  refine Async.Safe.call fun t ht hst c => ?_
  have hkept : ∀ u, Kept name i t u → u.writtenBy i name = written := fun u htu =>
    htu.written.trans (hst.written.trans hwritten)
  cases c.rejects with
  | none => exact fun hexclusive => ⟨ht, fun j _ => Kept.refl name j t, fun u _ => hkept u⟩
  | some error => exact fun hexclusive => ⟨ht, fun j _ => Kept.refl name j t, fun u _ => hkept u⟩

/-! ## The journal of a projection -/

/-- The updates of the projection with who made them, oldest first. -/
def State.journal (s : State ι J) (name : String) : List (ι × Event J) :=
  ((s.updates.filter fun update => update.projection = name).map fun update =>
    (update.caller, update.event)).reverse

omit [JsValue J] in
theorem journal_by (s : State ι J) (name : String) (i : ι) :
    ((s.journal name).filter fun entry => entry.1 = i).map Prod.snd = s.writtenBy i name := by
  simp only [State.journal, State.writtenBy, List.filter_reverse, List.map_reverse]
  congr 1
  induction s.updates with
  | nil => rfl
  | cons update rest ih =>
      by_cases hname : update.projection = name
      · by_cases hcaller : update.caller = i
        · simp [hname, hcaller, ih]
        · simp [hname, hcaller, ih]
      · simp [hname, ih]

omit [DecidableEq ι] in
/-- A view is the fold of the entries of the journal that go to it. -/
theorem Folded.view_eq (h : Folded name projection reduce before s) (key : String) :
    (s.views name).get key =
      foldView reduce projection.initialView (before.get key)
        (((s.journal name).map Prod.snd).filter fun event =>
          projection.viewKey? event = some key) := by
  rw [h.view key]
  congr 1
  simp only [State.updatesOf, State.journal, List.map_reverse, List.filter_reverse]
  congr 1
  have hkey := h.key
  generalize s.updates = updates at hkey
  induction updates with
  | nil => rfl
  | cons update rest ih =>
      have hrest := ih fun u hu hname => hkey u (List.mem_cons_of_mem _ hu) hname
      by_cases hname : update.projection = name
      · have hupdate := hkey update List.mem_cons_self hname
        by_cases heq : update.key = key
        · simpa [hname, heq, hupdate] using hrest
        · simpa [hname, heq, hupdate] using hrest
      · simpa [hname] using hrest

end Noddde.ReadModel
