import FidbPoc.Lib.Checked
import FidbPoc.Lib.Dict
import FidbPoc.Lib.Sums

namespace FidbPoc.Lib.Dict

open Checked Sums

variable {ε κ ν ρ ω : Type} [DecidableEq κ]

def keys (d : Dict κ ν) : List κ := d.entries.map Prod.fst

omit [DecidableEq κ] in
theorem nodup_keys (d : Dict κ ν) : d.keys.Nodup := d.nodup

omit [DecidableEq κ] in
theorem mem_keys_of_mem {d : Dict κ ν} {e : κ × ν} (h : e ∈ d.entries) : e.1 ∈ d.keys :=
  List.mem_map_of_mem h

theorem mem_keys {d : Dict κ ν} {k : κ} : k ∈ d.keys ↔ ∃ v, d.get? k = some v := by
  simp [keys, get?_eq_some_iff]

theorem get?_eq_none_iff {d : Dict κ ν} {k : κ} : d.get? k = none ↔ k ∉ d.keys := by
  rw [mem_keys, not_exists]
  exact Option.eq_none_iff_forall_ne_some

theorem get?_of_mem {d : Dict κ ν} {e : κ × ν} (h : e ∈ d.entries) : d.get? e.1 = some e.2 :=
  get?_eq_some_iff.mpr h

omit [DecidableEq κ] in
theorem keys_empty : (empty : Dict κ ν).keys = [] := rfl

theorem entries_set_of_not_mem {d : Dict κ ν} {k : κ} (h : k ∉ d.keys) (v : ν) :
    (d.set k v).entries = d.entries ++ [(k, v)] := by
  rw [entries_set]
  unfold keys at h
  generalize d.entries = entries at h ⊢
  induction entries with
  | nil => rfl
  | cons e rest ih =>
    simp only [List.map_cons, List.mem_cons, not_or] at h
    simp [assign, Ne.symm h.1, ih h.2]

theorem keys_set_of_not_mem {d : Dict κ ν} {k : κ} (h : k ∉ d.keys) (v : ν) : (d.set k v).keys = d.keys ++ [k] := by
  simp only [keys, entries_set_of_not_mem h, List.map_append, List.map_singleton]

/-- Values without repetitions name their keys. -/
theorem key_unique {d : Dict κ ν} (hd : d.values.Nodup) {k k' : κ} {v : ν} (h : d.get? k = some v)
    (h' : d.get? k' = some v) : k = k' :=
  congrArg Prod.fst
    (List.inj_on_of_nodup_map (f := Prod.snd) hd (get?_eq_some_iff.mp h) (get?_eq_some_iff.mp h') rfl)

/-- A join on a column that is unique keeps, for one value of it, the rows of its key. -/
theorem filter_join {α β : Type} {d : Dict κ ν} (hd : d.values.Nodup) {k : κ} {v : ν} [DecidableEq ν]
    (hk : d.get? k = some v) (key : α → κ) (g : ν → α → β) (p : β → Bool) (hp : ∀ w x, p (g w x) = decide (w = v))
    (rows : List α) :
    (rows.filterMap fun x => (d.get? (key x)).map fun w => g w x).filter p =
      (rows.filter fun x => key x = k).map (g v) := by
  induction rows with
  | nil => rfl
  | cons x rows ih =>
    cases hx : d.get? (key x) with
    | none =>
      have hne : ¬key x = k := fun h => by simp [h, hk] at hx
      simp [hx, hne, ih]
    | some w =>
      by_cases hw : w = v
      · have heq : key x = k := key_unique hd (hw ▸ hx) hk
        simp [heq, hk, hp, ih]
      · have hne : ¬key x = k := fun h => hw (Option.some.inj (hx.symm.trans (h ▸ hk)))
        simp [hx, hne, hp, hw, ih]

section insert

/-- `INSERT`: a listed key breaks the primary key. -/
def insertRow (e : ε) (d : Dict κ ν) (row : κ × ν) : Except ε (Dict κ ν) := do
  require (row.1 ∉ d.keys) e
  pure (d.set row.1 row.2)

def insertRows (e : ε) (d : Dict κ ν) (rows : List (κ × ν)) : Except ε (Dict κ ν) := rows.foldlM (insertRow e) d

variable {e : ε} {d d' : Dict κ ν} {rows : List (κ × ν)}

theorem insertRow_eq_ok {row : κ × ν} : insertRow e d row = .ok d' ↔ row.1 ∉ d.keys ∧ d.set row.1 row.2 = d' := by
  simp only [insertRow, bind_eq_ok, require_eq_ok, pure_eq_ok, exists_const]

theorem insertRows_eq_ok :
    insertRows e d rows = .ok d' ↔ (d.keys ++ rows.map Prod.fst).Nodup ∧ d'.entries = d.entries ++ rows := by
  induction rows generalizing d with
  | nil =>
    obtain ⟨entries, hentries⟩ := d
    obtain ⟨entries', hentries'⟩ := d'
    simp [insertRows, pure_eq_ok, keys, hentries, eq_comm]
  | cons row rows ih =>
    have hstep : insertRows e d (row :: rows) = .ok d' ↔
        row.1 ∉ d.keys ∧ insertRows e (d.set row.1 row.2) rows = .ok d' := by
      simp only [insertRows, List.foldlM_cons, bind_eq_ok, insertRow_eq_ok, and_assoc, exists_and_left,
        exists_eq_left']
    rw [hstep]
    by_cases hk : row.1 ∈ d.keys
    · refine iff_of_false (fun h => h.1 hk) fun h => ?_
      exact (List.nodup_append.mp h.1).2.2 row.1 hk row.1 (by simp) rfl
    · rw [ih, keys_set_of_not_mem hk, entries_set_of_not_mem hk]
      simp [hk]

/-- Rows with keys of their own can be inserted. -/
theorem insertRows_total (e : ε) (hrows : (rows.map Prod.fst).Nodup) (hfresh : ∀ row ∈ rows, row.1 ∉ d.keys) :
    ∃ d', insertRows e d rows = .ok d' := by
  have hnodup : (d.keys ++ rows.map Prod.fst).Nodup := by
    refine List.nodup_append.mpr ⟨d.nodup_keys, hrows, ?_⟩
    rintro k hk k' hk' rfl
    obtain ⟨row, hrow, rfl⟩ := List.mem_map.mp hk'
    exact hfresh row hrow hk
  exact ⟨⟨d.entries ++ rows, by simpa [keys] using hnodup⟩, insertRows_eq_ok.mpr ⟨hnodup, rfl⟩⟩

theorem get?_of_insertRows (h : insertRows e d rows = .ok d') {k : κ} {v : ν} :
    d'.get? k = some v ↔ d.get? k = some v ∨ (k, v) ∈ rows := by
  rw [get?_eq_some_iff, get?_eq_some_iff, (insertRows_eq_ok.mp h).2, List.mem_append]

theorem keys_of_insertRows (h : insertRows e d rows = .ok d') : d'.keys = d.keys ++ rows.map Prod.fst := by
  simp [keys, (insertRows_eq_ok.mp h).2]

/-- A loop that can insert each row behind those before it inserts them all. -/
theorem foldlM_set {insert : Dict κ ν → κ × ν → Except ε (Dict κ ν)} (hnodup : (d.keys ++ rows.map Prod.fst).Nodup)
    (hinsert : ∀ before row after table, rows = before ++ row :: after → table.entries = d.entries ++ before →
      row.1 ∉ table.keys → insert table row = .ok (table.set row.1 row.2)) :
    ∃ table, rows.foldlM insert d = .ok table ∧ table.entries = d.entries ++ rows := by
  induction rows using List.reverseRecOn with
  | nil => exact ⟨d, rfl, (List.append_nil _).symm⟩
  | append_singleton rows row ih =>
    rw [List.map_append, List.map_singleton, ← List.append_assoc, List.nodup_append] at hnodup
    obtain ⟨table, htable, hentries⟩ := ih hnodup.1 fun before row' after table hrows =>
      hinsert before row' (after ++ [row]) table (by rw [hrows, List.append_assoc, List.cons_append])
    have hkeys : table.keys = d.keys ++ rows.map Prod.fst := by
      rw [keys, hentries, List.map_append]
      rfl
    have hnew : row.1 ∉ table.keys := fun hmem =>
      hnodup.2.2 row.1 (hkeys ▸ hmem) row.1 (List.mem_singleton_self _) rfl
    refine ⟨table.set row.1 row.2, ?_, ?_⟩
    · rw [List.foldlM_append, htable, ok_bind, List.foldlM_cons, hinsert rows row [] table rfl hentries hnew, ok_bind]
      rfl
    · rw [entries_set_of_not_mem hnew, hentries, List.append_assoc]

end insert

section replace

/-- `INSERT OR REPLACE` of rows, one after the other. -/
def replaceRows (d : Dict κ ν) (rows : List (κ × ν)) : Dict κ ν := rows.foldl (fun d row => d.set row.1 row.2) d

theorem replaceRows_append (d : Dict κ ν) (rows rows' : List (κ × ν)) :
    d.replaceRows (rows ++ rows') = (d.replaceRows rows).replaceRows rows' :=
  List.foldl_append ..

theorem mem_keys_replaceRows {d : Dict κ ν} {rows : List (κ × ν)} {k : κ} :
    k ∈ (d.replaceRows rows).keys ↔ k ∈ d.keys ∨ k ∈ rows.map Prod.fst := by
  induction rows generalizing d with
  | nil => simp [replaceRows]
  | cons row rows ih =>
    have hset : k ∈ (d.set row.1 row.2).keys ↔ k ∈ d.keys ∨ k = row.1 := by
      rw [keys, entries_set, keys_assign]
      split
      · rename_i hrow
        exact ⟨.inl, fun h => h.elim id fun h => h ▸ hrow⟩
      · rw [List.mem_append, List.mem_singleton, keys]
    rw [replaceRows, List.foldl_cons, ← replaceRows, ih, hset, List.map_cons, List.mem_cons, or_assoc]

theorem replaceRows_flatMap {α : Type} (rows : α → List (κ × ν)) (xs : List α) (d : Dict κ ν) :
    xs.foldl (fun d x => d.replaceRows (rows x)) d = d.replaceRows (xs.flatMap rows) := by
  induction xs generalizing d with
  | nil => rfl
  | cons x xs ih => rw [List.foldl_cons, ih, List.flatMap_cons, replaceRows_append]

/-- Rows with keys of their own are appended. -/
theorem entries_replaceRows {d : Dict κ ν} {rows : List (κ × ν)} (h : (d.keys ++ rows.map Prod.fst).Nodup) :
    (d.replaceRows rows).entries = d.entries ++ rows := by
  induction rows generalizing d with
  | nil => simp [replaceRows]
  | cons row rows ih =>
    have hfresh : row.1 ∉ d.keys := fun hk => (List.nodup_append.mp h).2.2 _ hk row.1 (by simp) rfl
    have hrest : ((d.set row.1 row.2).keys ++ rows.map Prod.fst).Nodup := by
      rw [keys_set_of_not_mem hfresh]
      simpa using h
    have hstep : d.replaceRows (row :: rows) = (d.set row.1 row.2).replaceRows rows := rfl
    rw [hstep, ih hrest, entries_set_of_not_mem hfresh]
    simp

end replace

section ignore

/-- `INSERT OR IGNORE`: a listed key keeps its row. -/
def setDefault (d : Dict κ ν) (k : κ) (v : ν) : Dict κ ν := if k ∈ d.keys then d else d.set k v

/-- `INSERT OR IGNORE` of rows, one after the other. -/
def insertOrIgnore (d : Dict κ ν) (rows : List (κ × ν)) : Dict κ ν :=
  rows.foldl (fun d row => d.setDefault row.1 row.2) d

/-- `INSERT OR IGNORE` of one row a key, its value taken from the table before the row. -/
def fill (v : Dict κ ν → ν) (ks : List κ) (d : Dict κ ν) : Dict κ ν := ks.foldl (fun d k => d.setDefault k (v d)) d

variable {v : Dict κ ν → ν} {ks : List κ} {d : Dict κ ν} {k : κ}

theorem mem_keys_setDefault {k' : κ} (x : ν) : k ∈ (d.setDefault k' x).keys ↔ k ∈ d.keys ∨ k = k' := by
  unfold setDefault
  split
  · rename_i hk'
    exact ⟨Or.inl, fun h => h.elim id fun h => h ▸ hk'⟩
  · rename_i hk'
    simp [keys_set_of_not_mem hk']

theorem mem_keys_insertOrIgnore {rows : List (κ × ν)} :
    k ∈ (d.insertOrIgnore rows).keys ↔ k ∈ d.keys ∨ k ∈ rows.map Prod.fst := by
  induction rows generalizing d with
  | nil => simp [insertOrIgnore]
  | cons row rows ih =>
    rw [List.map_cons, List.mem_cons, ← or_assoc, ← mem_keys_setDefault row.2]
    exact ih

theorem fill_invariant {P : Dict κ ν → Prop} (h : P d) (hset : ∀ d k, P d → k ∉ d.keys → P (d.set k (v d))) :
    P (fill v ks d) := by
  induction ks generalizing d with
  | nil => exact h
  | cons k ks ih =>
    apply ih
    simp only [setDefault]
    split
    · exact h
    · rename_i hk
      exact hset d k h hk

/-- Old rows stay in place, new ones follow. -/
theorem entries_fill (v : Dict κ ν → ν) (ks : List κ) (d : Dict κ ν) : ∃ more, (fill v ks d).entries = d.entries ++ more :=
  fill_invariant (P := fun d' => ∃ more, d'.entries = d.entries ++ more) ⟨[], by simp⟩ fun d' k h hk => by
    obtain ⟨more, hmore⟩ := h
    exact ⟨more ++ [(k, v d')], by rw [entries_set_of_not_mem hk, hmore, List.append_assoc]⟩

theorem mem_keys_fill : k ∈ (fill v ks d).keys ↔ k ∈ d.keys ∨ k ∈ ks := by
  induction ks generalizing d with
  | nil => simp [fill]
  | cons k' ks ih =>
    rw [List.mem_cons, ← or_assoc, ← mem_keys_setDefault (v d)]
    exact ih

theorem get?_fill_of_some {x : ν} (h : d.get? k = some x) : (fill v ks d).get? k = some x := by
  obtain ⟨more, hmore⟩ := entries_fill v ks d
  rw [get?_eq_some_iff, hmore]
  exact List.mem_append_left more (get?_eq_some_iff.mp h)

/-- A row that was not there before holds the constant that was inserted. -/
theorem get?_fill_const {c x : ν} (h : (fill (fun _ => c) ks d).get? k = some x) : d.get? k = some x ∨ x = c := by
  refine fill_invariant (P := fun d' => d'.get? k = some x → d.get? k = some x ∨ x = c) Or.inl
    (fun d' k' hd' _ h => ?_) h
  rw [get?_set] at h
  split at h
  · exact Or.inr (Option.some.inj h).symm
  · exact hd' h

theorem total_fill_const (f : ν → ℤ) {c : ν} (hc : f c = 0) :
    total f (fill (fun _ => c) ks d).values = total f d.values :=
  fill_invariant (P := fun d' => total f d'.values = total f d.values) rfl fun d' k h hk => by
    rw [values_set_of_none (get?_eq_none_iff.mpr hk), total_concat, hc, add_zero, h]

end ignore

section update

def mapValues (f : κ → ν → ω) (d : Dict κ ν) : Dict κ ω :=
  ⟨d.entries.map fun e => (e.1, f e.1 e.2), by simpa [Function.comp_def] using d.nodup⟩

theorem get?_mapValues (f : κ → ν → ω) (d : Dict κ ν) (k : κ) : (d.mapValues f).get? k = (d.get? k).map (f k) := by
  obtain ⟨entries, hentries⟩ := d
  simp only [get?, mapValues]
  clear hentries
  induction entries with
  | nil => rfl
  | cons e rest ih =>
    by_cases he : e.1 = k
    · simp [he]
    · simpa [he] using ih

omit [DecidableEq κ] in
theorem keys_mapValues (f : κ → ν → ω) (d : Dict κ ν) : (d.mapValues f).keys = d.keys := by
  simp [keys, mapValues]

/-- `UPDATE .. FROM rows`: a row of the table takes what the first of the rows with its key makes of it. -/
def updateFrom (key : ρ → κ) (f : ρ → ν → ν) (rows : List ρ) (d : Dict κ ν) : Dict κ ν :=
  d.mapValues fun k v => (rows.find? fun r => key r = k).elim v fun r => f r v

theorem get?_updateFrom (key : ρ → κ) (f : ρ → ν → ν) (rows : List ρ) (d : Dict κ ν) (k : κ) :
    (d.updateFrom key f rows).get? k =
      (d.get? k).map fun v => (rows.find? fun r => key r = k).elim v fun r => f r v :=
  get?_mapValues ..

/-- A sum over a table joined with rows is the sum over the rows joined with the table. -/
theorem total_join (δ : ρ → ν → ℤ) (key : ρ → κ) {rows : List ρ} (hnodup : (rows.map key).Nodup) (d : Dict κ ν) :
    total (fun e => (rows.find? fun r => key r = e.1).elim 0 fun r => δ r e.2) d.entries =
      total (fun r => (d.get? (key r)).elim 0 (δ r)) rows := by
  induction rows with
  | nil => exact total_zero fun _ _ => rfl
  | cons r rows ih =>
    obtain ⟨hr, hrows⟩ := List.nodup_cons.mp hnodup
    have hnone : rows.find? (fun r' => key r' = key r) = none :=
      List.find?_eq_none.mpr fun r' hr' h => hr (of_decide_eq_true h ▸ List.mem_map_of_mem hr')
    have hsplit : ∀ e ∈ d.entries, ((r :: rows).find? fun r => key r = e.1).elim 0 (fun r => δ r e.2) =
        (if e.1 = key r then (d.get? (key r)).elim 0 (δ r) else 0) +
          (rows.find? fun r => key r = e.1).elim 0 fun r => δ r e.2 := by
      intro e he
      by_cases hk : e.1 = key r
      · have hget : d.get? (key r) = some e.2 := hk ▸ get?_of_mem he
        simp [hk, hnone, hget]
      · simp [hk, Ne.symm hk]
    have hone : total (fun e : κ × ν => if e.1 = key r then (d.get? (key r)).elim 0 (δ r) else 0) d.entries =
        (d.get? (key r)).elim 0 (δ r) := by
      have h := total_eq_single d.nodup_keys (key r) ((d.get? (key r)).elim 0 (δ r))
      rw [keys, total_map] at h
      rw [h]
      split
      · rfl
      · rename_i hk
        rw [get?_eq_none_iff.mpr hk, Option.elim_none]
    rw [total_congr hsplit, total_add, hone, ih hrows, total_cons]

/-- What an `UPDATE .. FROM` adds to a column. -/
theorem total_updateFrom (c : ν → ℤ) (key : ρ → κ) (f : ρ → ν → ν) {rows : List ρ} (hnodup : (rows.map key).Nodup)
    (d : Dict κ ν) :
    total c (d.updateFrom key f rows).values =
      total c d.values + total (fun r => (d.get? (key r)).elim 0 fun v => c (f r v) - c v) rows := by
  rw [← total_join (fun r v => c (f r v) - c v) key hnodup d]
  simp only [values, updateFrom, mapValues, total_map, ← total_add]
  refine total_congr fun e _ => ?_
  cases rows.find? fun r => key r = e.1 with
  | none => simp
  | some r => simp

/-- A column, summed over the keys, or over any keys that include them. -/
theorem total_values (c : ν → ℤ) (d : Dict κ ν) {ks : List κ} (hnodup : ks.Nodup) (hsub : ∀ k ∈ d.keys, k ∈ ks) :
    total c d.values = total (fun k => (d.get? k).elim 0 c) ks := by
  have hjoin := total_join (fun (_ : κ) v => c v) id (by simpa using hnodup) d
  refine Eq.trans ?_ hjoin
  rw [values, total_map]
  refine total_congr fun e he => ?_
  have hids : (ks.map id).Nodup := by simpa using hnodup
  have hfind : ks.find? (fun k => id k = e.1) = some e.1 := Table.find?_key hids (hsub e.1 (mem_keys_of_mem he))
  rw [hfind, Option.elim_some]

end update

section group

variable {α : Type}

/-- `GROUP BY`: one row a key, with the aggregate of its rows. -/
def groupBy (key : α → κ) (aggregate : List α → ν) (rows : List α) : Dict κ ν :=
  ⟨(rows.map key).dedup.map fun k => (k, aggregate (rows.filter fun x => key x = k)), by
    simpa [Function.comp_def] using List.nodup_dedup _⟩

variable {key : α → κ} {aggregate : List α → ν} {rows : List α}

theorem keys_groupBy : (groupBy key aggregate rows).keys = (rows.map key).dedup := by
  simp [keys, groupBy, Function.comp_def]

theorem mem_keys_groupBy {k : κ} : k ∈ (groupBy key aggregate rows).keys ↔ ∃ x ∈ rows, key x = k := by
  rw [keys_groupBy, List.mem_dedup, List.mem_map]

theorem get?_groupBy {k : κ} {v : ν} :
    (groupBy key aggregate rows).get? k = some v ↔
      (∃ x ∈ rows, key x = k) ∧ aggregate (rows.filter fun x => key x = k) = v := by
  rw [get?_eq_some_iff]
  simp only [groupBy, List.mem_map, List.mem_dedup, Prod.mk.injEq]
  constructor
  · rintro ⟨k', hk', rfl, rfl⟩
    exact ⟨hk', rfl⟩
  · rintro ⟨hk, rfl⟩
    exact ⟨k, hk, rfl, rfl⟩

/-- The aggregate of a key, or that of no rows where there is none. -/
theorem getD_groupBy {c : ν} (hc : aggregate [] = c) (k : κ) :
    ((groupBy key aggregate rows).get? k).getD c = aggregate (rows.filter fun x => key x = k) := by
  by_cases h : ∃ x ∈ rows, key x = k
  · rw [get?_groupBy.mpr ⟨h, rfl⟩, Option.getD_some]
  · have hnone : (groupBy key aggregate rows).get? k = none := get?_eq_none_iff.mpr fun hk => h (mem_keys_groupBy.mp hk)
    have hempty : rows.filter (fun x => key x = k) = [] :=
      List.filter_eq_nil_iff.mpr fun x hx hk => h ⟨x, hx, of_decide_eq_true hk⟩
    rw [hnone, Option.getD_none, hempty, hc]

/-- A column that sums a column of the rows keeps its total. -/
theorem total_groupBy (f : α → ℤ) (c : ν → ℤ) (hc : ∀ xs, c (aggregate xs) = total f xs) :
    total c (groupBy key aggregate rows).values = total f rows := by
  have hgroups := total_groups key f (List.nodup_dedup (rows.map key))
    fun x hx => List.mem_dedup.mpr (List.mem_map_of_mem (f := key) hx)
  rw [← hgroups]
  simp only [values, groupBy, total_map, hc]

end group

end FidbPoc.Lib.Dict
