import FidbPoc.Corpus.Index

namespace FidbPoc.Corpus

open FidbPoc.Lib FidbPoc.Lib.Checked FidbPoc.Lib.Sums

section ids

theorem lt_nextId {ids : List Nat} {i : Nat} (h : i ∈ ids) : i < nextId ids := by
  induction ids with
  | nil => cases h
  | cons j ids ih =>
    rcases List.mem_cons.mp h with rfl | h
    · exact Nat.lt_succ_of_le (le_max_left ..)
    · exact (ih h).trans_le (Nat.succ_le_succ (le_max_right ..))

theorem nextId_not_mem (ids : List Nat) : nextId ids ∉ ids := fun h => lt_irrefl _ (lt_nextId h)

theorem foldr_max_range' (n : Nat) : (List.range' 1 n).foldr max 0 = n := by
  induction n with
  | zero => rfl
  | succ n ih =>
    have hsplit : ∀ (l : List Nat) (m : Nat), (l ++ [m]).foldr max 0 = max (l.foldr max 0) m := by
      intro l m
      induction l with
      | nil => simp
      | cons k l ihl => simp [ihl, max_assoc]
    rw [List.range'_concat, hsplit, ih]
    omega

theorem nextId_range' (n : Nat) : nextId (List.range' 1 n) = n + 1 := by
  rw [nextId, foldr_max_range']

end ids

section signatures

variable {e : Evidence} {d : Dict Signature Nat} {s : Signature} {i : Nat}

theorem nodup_insertSignatures (h : d.values.Nodup) : (insertSignatures e d).values.Nodup :=
  Dict.fill_invariant (P := fun d => d.values.Nodup) h fun d k h hk => by
    rw [Dict.values_set_of_none (Dict.get?_eq_none_iff.mpr hk)]
    exact List.nodup_append.mpr ⟨h, List.nodup_singleton _, fun i hi j hj hij => by
      obtain rfl := List.mem_singleton.mp hj
      exact nextId_not_mem _ (hij ▸ hi)⟩

theorem mem_keys_insertSignatures : s ∈ (insertSignatures e d).keys ↔ s ∈ d.keys ∨ s ∈ e.hashSummary.keys :=
  Dict.mem_keys_fill

theorem get?_insertSignatures_of_some (h : d.get? s = some i) : (insertSignatures e d).get? s = some i :=
  Dict.get?_fill_of_some h

/-- A new signature gets an id of its own. -/
theorem insertSignatures_fresh (hd : d.values.Nodup) (hs : s ∉ d.keys)
    (h : (insertSignatures e d).get? s = some i) : i ∉ d.values := by
  intro hi
  obtain ⟨s', hs'⟩ := Dict.mem_values.mp hi
  have heq := Dict.key_unique (nodup_insertSignatures hd) h (get?_insertSignatures_of_some (e := e) hs')
  exact hs (heq ▸ Dict.mem_keys.mpr ⟨i, hs'⟩)

end signatures

section rows

variable {signature : Dict Signature Nat} {e : Evidence} {s : Signature} {i : Nat}

/-- The query observations recorded for a signature: the units that observed it. -/
theorem getD_deltaQuery (hids : signature.values.Nodup) (hs : signature.get? s = some i) :
    ((deltaQueryBySignature signature e).get? i).getD 0 = (e.unitsOf s).length := by
  have hjoin := Dict.filter_join hids hs (fun u : Signature × FoldUnit => u.1) (fun i _ => i) (fun j => decide (j = i))
    (fun _ _ => rfl) e.observedUnits
  have hrows : (e.observedUnits.filterMap fun u => signature.get? u.1) =
      e.observedUnits.filterMap fun u => (signature.get? u.1).map fun i => i := by simp
  rw [deltaQueryBySignature, Dict.getD_groupBy (c := 0) rfl, hrows]
  simp only [id_eq, hjoin, List.length_map, Evidence.unitsOf]

theorem mem_keys_deltaOwner {o : String} (hids : signature.values.Nodup) (hs : signature.get? s = some i) :
    (i, o) ∈ (deltaOwnerBySignature signature e).keys ↔ (s, o) ∈ e.hashSignatureOwner.keys := by
  simp only [deltaOwnerBySignature, Dict.mem_keys_groupBy, List.mem_filterMap, Option.map_eq_some_iff]
  constructor
  · rintro ⟨_, ⟨row, hrow, j, hj, rfl⟩, h⟩
    obtain ⟨rfl, rfl⟩ := Prod.mk.inj h
    exact Dict.key_unique hids hj hs ▸ Dict.mem_keys_of_mem hrow
  · intro h
    obtain ⟨row, hrow, heq⟩ := List.mem_map.mp h
    obtain ⟨h₁, h₂⟩ := Prod.mk.inj heq
    exact ⟨_, ⟨row, hrow, i, h₁ ▸ hs, rfl⟩, by rw [h₂]⟩

/-- The owners under an id are owners of the evidence. -/
theorem owner_of_mem_deltaOwner {k : Nat × String} (h : k ∈ (deltaOwnerBySignature signature e).keys) :
    k.2 ∈ e.owners ∧ k.1 ∈ signature.values := by
  simp only [deltaOwnerBySignature, Dict.mem_keys_groupBy, List.mem_filterMap, Option.map_eq_some_iff] at h
  obtain ⟨_, ⟨row, hrow, i, hi, rfl⟩, rfl⟩ := h
  exact ⟨Evidence.mem_owners.mpr ⟨row.1.1, Dict.mem_keys_of_mem hrow⟩, Dict.mem_values.mpr ⟨_, hi⟩⟩

/-- The owner column of the rows under one id. -/
def ownersUnder (deltaOwner : Dict (Nat × String) SignatureOwner) (i : Nat) : List String :=
  (deltaOwner.entries.filter fun owner => owner.1.1 = i).map fun owner => owner.1.2

theorem mem_ownersUnder {deltaOwner : Dict (Nat × String) SignatureOwner} {o : String} :
    o ∈ ownersUnder deltaOwner i ↔ (i, o) ∈ deltaOwner.keys := by
  simp only [ownersUnder, Dict.keys, List.mem_map, List.mem_filter, decide_eq_true_eq]
  constructor
  · rintro ⟨row, ⟨hrow, rfl⟩, rfl⟩
    exact ⟨row, hrow, rfl⟩
  · rintro ⟨row, hrow, h⟩
    exact ⟨row, ⟨hrow, by rw [h]⟩, by rw [h]⟩

theorem nodup_ownersUnder (deltaOwner : Dict (Nat × String) SignatureOwner) (i : Nat) :
    (ownersUnder deltaOwner i).Nodup := by
  have hnodup : ((deltaOwner.entries.filter fun owner => owner.1.1 = i).map Prod.fst).Nodup :=
    (List.filter_sublist.map _).nodup deltaOwner.nodup
  have hcolumn : ownersUnder deltaOwner i =
      ((deltaOwner.entries.filter fun owner => owner.1.1 = i).map Prod.fst).map Prod.snd := by
    simp [ownersUnder]
  rw [hcolumn]
  refine hnodup.map_on ?_
  rintro k hk k' hk' h
  obtain ⟨row, hrow, rfl⟩ := List.mem_map.mp hk
  obtain ⟨row', hrow', rfl⟩ := List.mem_map.mp hk'
  have hi : row.1.1 = i := of_decide_eq_true (List.mem_filter.mp hrow).2
  have hi' : row'.1.1 = i := of_decide_eq_true (List.mem_filter.mp hrow').2
  exact Prod.ext (hi.trans hi'.symm) h

/-- The new owners of a signature are those that reference it. -/
theorem length_ownersUnder (hids : signature.values.Nodup) (hs : signature.get? s = some i) :
    (ownersUnder (deltaOwnerBySignature signature e) i).length = (e.ownersOf s).length := by
  refine ((List.perm_ext_iff_of_nodup (nodup_ownersUnder _ _) (e.nodup_ownersOf s)).mpr fun o => ?_).length_eq
  rw [mem_ownersUnder, mem_keys_deltaOwner hids hs, Evidence.mem_ownersOf]

theorem length_ownersUnder_le (signature : Dict Signature Nat) (e : Evidence) (i : Nat) :
    (ownersUnder (deltaOwnerBySignature signature e) i).length ≤ e.owners.length :=
  (List.subperm_of_subset (nodup_ownersUnder _ _) fun _ ho =>
    (owner_of_mem_deltaOwner (mem_ownersUnder.mp ho)).1).length_le

end rows

end FidbPoc.Corpus
