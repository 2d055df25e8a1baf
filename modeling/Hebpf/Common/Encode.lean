import Hebpf.Common.Json

namespace Hebpf.Common

variable {α β : Type}

theorem mapM_map_eq_ok {write : α → β} {read : β → Result α}
    (hread : ∀ value, read (write value) = .ok value) (values : List α) :
    (values.map write).mapM read = .ok values := by
  induction values with
  | nil => rfl
  | cons value rest ih =>
      rw [List.map_cons, List.mapM_cons, hread, ih]
      rfl

theorem Json.getVector_array {write : α → Json} {read : Json → Result α}
    (hread : ∀ value, read (write value) = .ok value) (values : List α) :
    (Json.array (values.map write)).getVector read = .ok values :=
  mapM_map_eq_ok hread values

end Hebpf.Common
