import Mathlib.Data.List.Forall2
/-!
# Sequencing and mapping by functions that may fail
-/

namespace ExceptMap

variable {α β γ ε : Type} {f : α → Except ε β} {xs : List α} {ys : List β}

theorem bind_eq_ok {x : Except ε α} {g : α → Except ε β} {b : β} (h : x >>= g = .ok b) :
    ∃ a, x = .ok a ∧ g a = .ok b := by
  cases x with
  | error error => cases h
  | ok a => exact ⟨a, rfl, h⟩

theorem forall₂_of_mapM (h : xs.mapM f = .ok ys) :
    List.Forall₂ (fun x y => f x = .ok y) xs ys := by
  induction xs generalizing ys with
  | nil =>
      obtain rfl := Except.ok.inj h
      exact .nil
  | cons x rest ih =>
      rw [List.mapM_cons] at h
      cases hx : f x with
      | error e => simp [hx, bind, Except.bind] at h
      | ok y =>
          cases hrest : rest.mapM f with
          | error e => simp [hx, hrest, bind, Except.bind] at h
          | ok others =>
              simp only [hx, hrest, bind, Except.bind] at h
              obtain rfl := Except.ok.inj h
              exact .cons hx (ih hrest)

theorem mapM_of_forall₂ (h : List.Forall₂ (fun x y => f x = .ok y) xs ys) :
    xs.mapM f = .ok ys := by
  induction h with
  | nil => rfl
  | cons hx _ ih =>
      rw [List.mapM_cons, hx, ih]
      rfl

theorem mapM_congr {g : α → Except ε β} (h : ∀ x ∈ xs, f x = g x) : xs.mapM f = xs.mapM g := by
  induction xs with
  | nil => rfl
  | cons x rest ih =>
      obtain ⟨hx, hrest⟩ := List.forall_mem_cons.mp h
      rw [List.mapM_cons, List.mapM_cons, hx, ih hrest]

/-- A map all of whose answers a function gives. -/
theorem eq_map_of_mapM {g : α → β} (hg : ∀ x y, f x = .ok y → y = g x)
    (h : xs.mapM f = .ok ys) : ys = xs.map g := by
  have hall := forall₂_of_mapM h
  clear h
  induction hall with
  | nil => rfl
  | cons hx _ ih => rw [List.map_cons, hg _ _ hx, ih]

theorem mapM_drop (h : xs.mapM f = .ok ys) (n : Nat) :
    (xs.drop n).mapM f = .ok (ys.drop n) :=
  mapM_of_forall₂ (List.forall₂_drop n (forall₂_of_mapM h))

theorem isOk_iff {r : Except ε β} : r.isOk = true ↔ ∃ y, r = .ok y := by
  cases r <;> simp [Except.isOk, Except.toBool]

theorem isOk_of_mapM (h : xs.mapM f = .ok ys) : ∀ x ∈ xs, (f x).isOk = true := by
  have hall := forall₂_of_mapM h
  clear h
  induction hall with
  | nil => simp
  | cons hx _ ih => exact List.forall_mem_cons.mpr ⟨isOk_iff.mpr ⟨_, hx⟩, ih⟩

theorem exists_mapM (h : ∀ x ∈ xs, ∃ y, f x = .ok y) : ∃ ys, xs.mapM f = .ok ys := by
  induction xs with
  | nil => exact ⟨[], rfl⟩
  | cons x rest ih =>
      obtain ⟨⟨y, hx⟩, hrest⟩ := List.forall_mem_cons.mp h
      obtain ⟨others, hothers⟩ := ih hrest
      refine ⟨y :: others, ?_⟩
      rw [List.mapM_cons, hx, hothers]
      rfl

theorem mapM_map_ok {g : γ → α} {v : γ → β} (h : ∀ z, f (g z) = .ok (v z)) (zs : List γ) :
    (zs.map g).mapM f = .ok (zs.map v) := by
  induction zs with
  | nil => rfl
  | cons z rest ih =>
      rw [List.map_cons, List.mapM_cons, h, ih]
      rfl

end ExceptMap
