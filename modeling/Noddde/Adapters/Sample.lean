import Noddde.Adapters.StateTables
/-!
# PostgreSQL behind the three ORMs

What their drivers report, for runs on concrete inputs.
-/

namespace Noddde.Adapters.Sample

/-- The digits, as the only numbers. -/
instance : Json.Number (Fin 10) where
  render n := [(0x30 + n.val).toUInt16]
  read text :=
    match text with
    | [c] => if h : c.toNat - 0x30 < 10 then some ⟨c.toNat - 0x30, h⟩ else none
    | _ => none
  read_render := by decide
  render_units := by
    intro n c hc
    have hdigit : ∀ n : Fin 10, Json.isNumberUnit (0x30 + n.val).toUInt16 = true := by decide
    rw [List.mem_singleton.mp hc]
    exact hdigit n
  render_ne_nil := by decide

/-- PostgreSQL, which `postgres-js` connects to Drizzle. -/
def postgres : StateStores where
  driver persistence :=
    match persistence with
    | .drizzleStateStored | .drizzleSaga =>
        { duplicateKey :=
            { code := some "23505"
              message := "duplicate key value violates unique constraint" }
          updateResult := fun n => { count := some n }
          isUniqueViolation := by decide
          rowsAffected := fun _ => rfl
          counts := fun _ _ hcount => List.mem_singleton.mp hcount }
    | .prismaStateStored | .prismaSaga =>
        { duplicateKey := { code := some "P2002", message := "Unique constraint failed" }
          updateResult := fun n => { count := some n }
          isUniqueViolation := by decide
          rowsAffected := fun _ => rfl
          counts := fun _ _ hcount => List.mem_singleton.mp hcount }
    | .typeORMStateStored | .typeORMSaga =>
        { duplicateKey :=
            { code := some "23505"
              message := "duplicate key value violates unique constraint" }
          updateResult := fun n => { affected := some n }
          isUniqueViolation := by decide
          rowsAffected := fun _ => rfl
          counts := fun _ _ hcount => List.mem_singleton.mp hcount }
  nativeJson := false
  upserts := true

end Noddde.Adapters.Sample
