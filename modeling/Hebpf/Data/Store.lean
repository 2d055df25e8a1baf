import Hebpf.Data.Bytes

namespace Hebpf.Data.Bytes

/-! Memory of a fixed extent that fields are stored to.  Each store is stated
between what stands before the field and what stands behind it. -/

def write (bytes : Bytes) (index : Nat) (data : Bytes) : Except Fault Bytes :=
  if index + data.length ≤ bytes.length then
    .ok (bytes.take index ++ data ++ bytes.drop (index + data.length))
  else .error .wroteOutside

def writeAll (bytes : Bytes) (index : Nat) :
    List Bytes → Except Fault Bytes
  | [] => .ok bytes
  | data :: rest => do
      let stored ← bytes.write index data
      writeAll stored (index + data.length) rest

theorem write_append (front behind : Bytes) {old data : Bytes}
    (hlength : old.length = data.length) :
    write (front ++ (old ++ behind)) front.length data =
      .ok (front ++ (data ++ behind)) := by
  have hbound : front.length + data.length ≤
      (front ++ (old ++ behind)).length := by
    rw [List.length_append, List.length_append, hlength, ← Nat.add_assoc]
    exact Nat.le_add_right _ _
  rw [write, if_pos hbound, List.take_left, ← hlength, ← List.length_append,
    ← List.append_assoc front old behind, List.drop_left, List.append_assoc]

theorem writeAll_append (front behind : Bytes) {old : Bytes}
    {all : List Bytes} (hlength : old.length = all.flatten.length) :
    writeAll (front ++ (old ++ behind)) front.length all =
      .ok (front ++ (all.flatten ++ behind)) := by
  induction all generalizing front old with
  | nil =>
      obtain rfl := List.length_eq_zero_iff.mp hlength
      rfl
  | cons data rest ih =>
      rw [List.flatten_cons, List.length_append] at hlength
      have hsplit : old.take data.length ++ old.drop data.length = old :=
        List.take_append_drop _ _
      have hfirst : (old.take data.length).length = data.length := by
        rw [List.length_take, hlength]
        exact Nat.min_eq_left (Nat.le_add_right _ _)
      have hrest : (old.drop data.length).length = rest.flatten.length := by
        rw [List.length_drop, hlength, Nat.add_sub_cancel_left]
      rw [← hsplit, List.append_assoc, writeAll, write_append _ _ hfirst]
      have hlater := ih (front ++ data) hrest
      rw [List.length_append, List.append_assoc, List.append_assoc] at hlater
      rw [List.flatten_cons, List.append_assoc]
      exact hlater

theorem exists_fields (bytes : Bytes) {lengths : List Nat}
    (hroom : lengths.sum ≤ bytes.length) :
    ∃ fields rest, bytes = List.flatten fields ++ rest ∧
      fields.map List.length = lengths := by
  induction lengths generalizing bytes with
  | nil => exact ⟨[], bytes, rfl, rfl⟩
  | cons length lengths ih =>
      rw [List.sum_cons] at hroom
      obtain ⟨fields, rest, hdrop, hfields⟩ := ih (bytes.drop length) (by
        rw [List.length_drop]
        omega)
      refine ⟨bytes.take length :: fields, rest, ?_, ?_⟩
      · rw [List.flatten_cons, List.append_assoc, ← hdrop,
          List.take_append_drop]
      · rw [List.map_cons, hfields, List.length_take,
          Nat.min_eq_left (by omega)]

theorem word_of_flatten {width : Nat} {values : List Nat} (front behind : Bytes)
    {index : Nat} (hindex : index < values.length)
    (hvalues : ∀ value ∈ values, value < 256 ^ width) :
    wordValue (((front ++ ((values.map (wordBytes width)).flatten ++
      behind)).drop (front.length + width * index)).take width) =
        values[index] := by
  induction values generalizing front index with
  | nil => cases hindex
  | cons value rest ih =>
      obtain ⟨hvalue, hrest⟩ := List.forall_mem_cons.mp hvalues
      rw [List.map_cons, List.flatten_cons, List.append_assoc]
      cases index with
      | zero =>
          rw [Nat.mul_zero, Nat.add_zero, List.drop_left,
            List.take_left' (length_wordBytes width value),
            wordValue_wordBytes hvalue]
          rfl
      | succ index =>
          have hlater := ih (front ++ wordBytes width value)
            (Nat.lt_of_succ_lt_succ hindex) hrest
          rw [List.length_append, length_wordBytes, List.append_assoc]
            at hlater
          rw [Nat.mul_succ, Nat.add_comm (width * index), ← Nat.add_assoc,
            hlater]
          rfl

end Hebpf.Data.Bytes
