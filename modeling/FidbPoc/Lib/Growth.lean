import FidbPoc.Lib.Table

namespace FidbPoc.Lib.Growth

open Table

variable {α β : Type} {column : α → β} {settled : α → Prop} {rows rows' rows'' : List α}

/-- A table that has only grown: the column of the old rows is what it was, and a settled row is the same row. -/
structure Grown (column : α → β) (settled : α → Prop) (rows rows' : List α) : Prop where
  columns : rows.map column <+: rows'.map column
  settled : ∀ (i : Nat) (row : α), rows[i]? = some row → settled row → rows'[i]? = some row

theorem Grown.refl (rows : List α) : Grown column settled rows rows := ⟨List.prefix_refl _, fun _ _ h _ => h⟩

theorem Grown.trans (h : Grown column settled rows rows') (h' : Grown column settled rows' rows'') :
    Grown column settled rows rows'' :=
  ⟨h.columns.trans h'.columns, fun i row hrow hsettled => h'.settled i row (h.settled i row hrow hsettled) hsettled⟩

/-- A settled row is still in the table. -/
theorem Grown.mem (h : Grown column settled rows rows') {row : α} (hrow : row ∈ rows) (hsettled : settled row) : row ∈ rows' := by
  obtain ⟨i, hi⟩ := List.mem_iff_getElem?.mp hrow
  exact List.mem_iff_getElem?.mpr ⟨i, h.settled i row hi hsettled⟩

theorem Grown.length_le (h : Grown column settled rows rows') : rows.length ≤ rows'.length := by
  simpa using h.columns.length_le

theorem grown_append (rows added : List α) : Grown column settled rows (rows ++ added) := by
  refine ⟨⟨added.map column, (List.map_append ..).symm⟩, fun i row hrow _ => ?_⟩
  obtain ⟨hi, -⟩ := List.getElem?_eq_some_iff.mp hrow
  rw [List.getElem?_append_left hi]
  exact hrow

/-- An update of rows that are not settled, which leaves the column alone. -/
theorem grown_updateWhere {p : α → Bool} {f : α → α} (hcolumn : ∀ row, p row = true → column (f row) = column row)
    (hsettled : ∀ row ∈ rows, p row = true → ¬settled row) : Grown column settled rows (updateWhere p f rows) := by
  refine ⟨?_, fun i row hrow hs => ?_⟩
  · exact (map_updateWhere column hcolumn rows).symm ▸ List.prefix_refl (rows.map column)
  · have hp : ¬p row = true := fun hp => hsettled row (List.mem_of_getElem? hrow) hp hs
    rw [updateWhere, List.getElem?_map, hrow, Option.map_some, if_neg hp]

end FidbPoc.Lib.Growth
