import FidbPoc.Validation.Reference

namespace FidbPoc.Validation.Reference

open FidbPoc.Lib FidbPoc.Lib.Checked

section Spec

/-- A retained row of a file has the signature. -/
def Retained (evidence : Evidence) (owner routeId treatmentId : String) (signature : Signature) : Prop :=
  ∃ file ∈ evidence.signatures.entries, file.1 = (owner, routeId, treatmentId) ∧
    ∃ route line row, routeOf evidence.routes routeId = .ok route ∧ line ∈ file.2.lines ∧ readRow line = .ok row ∧
      signatureOf (referenceLanguage row) route.targetOs route.binaryFormat row = .ok signature

/-- The naive reading of a match: a query function, and a retained row like it of the owner,
not of the query's own route and treatment unless these are included. -/
def Matching (evidence : Evidence) (query : Query) (lines : Lines) (owner text : String) : Prop :=
  ∃ line ∈ lines, ∃ row, queryRow query line = .ok row ∧ row.text = text ∧
    ∃ routeId treatmentId, Retained evidence owner routeId treatmentId row.signature ∧
      (query.includeExact = true ∨ (routeId, treatmentId) ≠ (query.routeId, query.treatmentId))

/-- A text is in the set of an owner. -/
def Listed (found : Matches) (owner text : String) : Prop := ∃ texts, found.1.get? owner = some texts ∧ text ∈ texts

/-- The same files with their rows in some order, whatever the order of the files. -/
def Reordered (evidence evidence' : Evidence) : Prop :=
  evidence'.routes = evidence.routes ∧
    (∀ place item, evidence.signatures.get? place = some item →
      ∃ item', evidence'.signatures.get? place = some item' ∧ item'.source = item.source ∧ item'.lines.Perm item.lines) ∧
    ∀ place item', evidence'.signatures.get? place = some item' → ∃ item, evidence.signatures.get? place = some item

end Spec

section Build

variable {limit : Nat} {evidence : Evidence} {index : Index} {route : Route} {place : Place} {item : Item}

/-- What a file is read to. -/
def Brings (routes : List Route) (file : Place × Item) (identity : Identity) : Prop :=
  ∃ route, routeOf routes file.1.2.1 = .ok route ∧
    ∃ line ∈ file.2.lines, ∃ row, identityRow route file.1 file.2 line = .ok row ∧ row.1 = identity

/-- An identity is in the table or in the batch. -/
def Held (state : Dict Identity Named × List (Identity × Named)) (identity : Identity) : Prop :=
  identity ∈ state.1.keys ∨ identity ∈ state.2.map Prod.fst

theorem batchRow_held {state state' : Dict Identity Named × List (Identity × Named)} {line : Option SignatureRow}
    (h : batchRow limit route place item state line = .ok state') (identity : Identity) :
    Held state' identity ↔ Held state identity ∨ ∃ row, identityRow route place item line = .ok row ∧ row.1 = identity := by
  simp only [batchRow, bind_eq_ok, pure_eq_ok] at h
  obtain ⟨row, hrow, rfl⟩ := h
  have hrow' : (∃ row', identityRow route place item line = .ok row' ∧ row'.1 = identity) ↔ row.1 = identity :=
    ⟨fun ⟨_, h, heq⟩ => Except.ok.inj (hrow.symm.trans h) ▸ heq, fun heq => ⟨row, hrow, heq⟩⟩
  rw [hrow', Held, Held]
  split
  · rw [Dict.mem_keys_insertOrIgnore, List.map_append, List.mem_append, List.map_singleton, List.mem_singleton]
    simp [or_assoc, eq_comm]
  · rw [List.map_append, List.mem_append, List.map_singleton, List.mem_singleton, or_assoc, eq_comm]

/-- Batches, wherever they end, leave the rows of the file in the table. -/
theorem insertFile_keys {routes : List Route} {table table' : Dict Identity Named} {file : Place × Item}
    (h : insertFile limit routes table file = .ok table') (identity : Identity) :
    identity ∈ table'.keys ↔ identity ∈ table.keys ∨ Brings routes file identity := by
  simp only [insertFile, bind_eq_ok, pure_eq_ok] at h
  obtain ⟨route, hroute, state, hstate, rfl⟩ := h
  have hstep (state : Dict Identity Named × List (Identity × Named)) (line : Option SignatureRow)
      (state' : Dict Identity Named × List (Identity × Named))
      (h : batchRow limit route file.1 file.2 state line = .ok state') := batchRow_held h
  have hcollect := foldlM_collect hstep hstate identity
  rw [Held] at hcollect
  rw [Dict.mem_keys_insertOrIgnore, hcollect, Brings]
  have hbrings : (∃ found, routeOf routes file.1.2.1 = .ok found ∧
      ∃ line ∈ file.2.lines, ∃ row, identityRow found file.1 file.2 line = .ok row ∧ row.1 = identity) ↔
      ∃ line ∈ file.2.lines, ∃ row, identityRow route file.1 file.2 line = .ok row ∧ row.1 = identity :=
    ⟨fun ⟨_, h, hline⟩ => Except.ok.inj (hroute.symm.trans h) ▸ hline, fun hline => ⟨route, hroute, hline⟩⟩
  rw [hbrings]
  simp [Held]

theorem build_keys (h : buildReferenceIndex limit evidence = .ok index) (identity : Identity) :
    identity ∈ index.referenceIdentity.keys ↔
      Retained evidence identity.owner identity.routeId identity.treatmentId identity.signature := by
  simp only [buildReferenceIndex, bind_eq_ok, pure_eq_ok] at h
  obtain ⟨table, htable, rfl⟩ := h
  have hstep (table : Dict Identity Named) (file : Place × Item) (table' : Dict Identity Named)
      (h : insertFile limit evidence.routes table file = .ok table') := insertFile_keys h
  have hcollect := foldlM_collect hstep htable identity
  rw [hcollect, Dict.keys_empty]
  simp only [List.not_mem_nil, false_or, List.mem_insertionSort]
  constructor
  · rintro ⟨file, hfile, route, hroute, line, hline, row, hrow, rfl⟩
    simp only [identityRow, bind_eq_ok, pure_eq_ok] at hrow
    obtain ⟨read, hread, signature, hsignature, rfl⟩ := hrow
    exact ⟨file, hfile, rfl, route, line, read, hroute, hline, hread, hsignature⟩
  · rintro ⟨file, hfile, hplace, route, line, row, hroute, hline, hread, hsignature⟩
    refine ⟨file, hfile, route, by rw [hplace]; exact hroute, line, hline,
      (identity, ⟨row.name.getD (row.functionName.getD ""), file.2.source⟩), ?_, rfl⟩
    rw [identityRow, hread, ok_bind, hsignature, ok_bind, hplace]
    rfl

/-- The index is built when every file has a route and only rows that can be read. -/
theorem build_isOk : (∃ index, buildReferenceIndex limit evidence = .ok index) ↔
    ∀ file ∈ evidence.signatures.entries, ∃ route, routeOf evidence.routes file.1.2.1 = .ok route ∧
      ∀ line ∈ file.2.lines, ∃ row, identityRow route file.1 file.2 line = .ok row := by
  have hbatch (route : Route) (file : Place × Item) (state : Dict Identity Named × List (Identity × Named))
      (line : Option SignatureRow) : (∃ state', batchRow limit route file.1 file.2 state line = .ok state') ↔
      ∃ row, identityRow route file.1 file.2 line = .ok row := by
    simp only [batchRow, bind_eq_ok, pure_eq_ok]
    exact ⟨fun ⟨_, row, hrow, _⟩ => ⟨row, hrow⟩, fun ⟨row, hrow⟩ => ⟨_, row, hrow, rfl⟩⟩
  have hfile (table : Dict Identity Named) (file : Place × Item) :
      (∃ table', insertFile limit evidence.routes table file = .ok table') ↔
        ∃ route, routeOf evidence.routes file.1.2.1 = .ok route ∧
          ∀ line ∈ file.2.lines, ∃ row, identityRow route file.1 file.2 line = .ok row := by
    simp only [insertFile, bind_eq_ok, pure_eq_ok]
    constructor
    · rintro ⟨_, route, hroute, state, hstate, _⟩
      exact ⟨route, hroute, (foldlM_isOk (hbatch route file)).mp ⟨state, hstate⟩⟩
    · rintro ⟨route, hroute, hlines⟩
      obtain ⟨state, hstate⟩ := (foldlM_isOk (s := (table, [])) (hbatch route file)).mpr hlines
      exact ⟨_, route, hroute, state, hstate, rfl⟩
  simp only [buildReferenceIndex, bind_eq_ok, pure_eq_ok]
  have hsorted : (∀ file ∈ evidence.signatures.entries.insertionSort placeOrder, ∃ route,
      routeOf evidence.routes file.1.2.1 = .ok route ∧
        ∀ line ∈ file.2.lines, ∃ row, identityRow route file.1 file.2 line = .ok row) ↔
      ∀ file ∈ evidence.signatures.entries, ∃ route, routeOf evidence.routes file.1.2.1 = .ok route ∧
        ∀ line ∈ file.2.lines, ∃ row, identityRow route file.1 file.2 line = .ok row := by
    simp only [List.mem_insertionSort]
  rw [← hsorted, ← foldlM_isOk hfile]
  exact ⟨fun ⟨_, table, htable, _⟩ => ⟨table, htable⟩, fun ⟨table, htable⟩ => ⟨_, table, htable, rfl⟩⟩

end Build

section Shortcut

variable {table : Dict Identity Named} {query : Query} {signature : Signature} {owner : String} {row : OwnerRow}

/-- The count and the probe for the query's own identity together say what a scan of the identities would. -/
theorem passes_iff (h : (Dict.groupBy (fun row => (row.1.signature, row.1.owner)) ownerRow table.entries).get?
      (signature, owner) = some row) :
    passes ⟨table, Dict.groupBy (fun row => (row.1.signature, row.1.owner)) ownerRow table.entries⟩ query
        ((signature, owner), row) = true ↔
      ∃ identity ∈ table.keys, identity.signature = signature ∧ identity.owner = owner ∧
        (query.includeExact = true ∨ (identity.routeId, identity.treatmentId) ≠ (query.routeId, query.treatmentId)) := by
  obtain ⟨⟨first, hfirst, hkey⟩, hrow⟩ := Dict.get?_groupBy.mp h
  obtain ⟨hsignature, howner⟩ := Prod.mk.inj hkey
  have hfirstKey : first.1 ∈ table.keys := Dict.mem_keys_of_mem hfirst
  -- the rows that the count counts, each with a key of its own
  have hcount : row.identityCount = (table.entries.filter fun row => (row.1.signature, row.1.owner) = (signature, owner)).length := by
    rw [← hrow]
    rfl
  have hnodup : ((table.entries.filter fun row => (row.1.signature, row.1.owner) = (signature, owner)).map Prod.fst).Nodup :=
    (List.filter_sublist.map Prod.fst).nodup table.nodup
  have hmem {entry : Identity × Named} : (entry ∈ table.entries.filter fun row => (row.1.signature, row.1.owner) = (signature, owner)) ↔
      entry ∈ table.entries ∧ entry.1.signature = signature ∧ entry.1.owner = owner := by
    rw [List.mem_filter, decide_eq_true_eq, Prod.mk.injEq]
  generalize table.entries.filter (fun row => (row.1.signature, row.1.owner) = (signature, owner)) = same at hcount hnodup hmem
  simp only [passes, Bool.or_eq_true, Bool.not_eq_true', List.any_eq_false, decide_eq_true_eq, Bool.and_eq_true, hcount,
    ne_eq, Prod.mk.injEq]
  constructor
  · rintro ((hexact | hmany) | hnone)
    · exact ⟨first.1, hfirstKey, hsignature, howner, .inl hexact⟩
    · rcases same with _ | ⟨one, _ | ⟨other, rest⟩⟩
      · simp at hmany
      · simp at hmany
      · obtain ⟨hone, hone₁, hone₂⟩ := hmem.mp (List.mem_cons_self : one ∈ one :: other :: rest)
        obtain ⟨hother, hother₁, hother₂⟩ := hmem.mp (List.mem_cons_of_mem one (List.mem_cons_self : other ∈ other :: rest))
        by_cases hquery : one.1.routeId = query.routeId ∧ one.1.treatmentId = query.treatmentId
        · refine ⟨other.1, Dict.mem_keys_of_mem hother, hother₁, hother₂, .inr fun hquery' => ?_⟩
          have hne : one.1 ≠ other.1 := fun heq => (List.nodup_cons.mp hnodup).1 (by simp [heq])
          apply hne
          obtain ⟨⟨s, o, r, t⟩, named⟩ := one
          obtain ⟨⟨s', o', r', t'⟩, named'⟩ := other
          simp_all
        · exact ⟨one.1, Dict.mem_keys_of_mem hone, hone₁, hone₂, .inr hquery⟩
    · refine ⟨first.1, hfirstKey, hsignature, howner, .inr fun hquery => ?_⟩
      exact hnone first hfirst ⟨⟨⟨hsignature, howner⟩, hquery.1⟩, hquery.2⟩
  · rintro ⟨identity, hidentity, hsame, hsame', hexact | hother⟩
    · exact .inl (.inl hexact)
    · obtain ⟨named, hnamed⟩ := Dict.mem_keys.mp hidentity
      have hentry := hmem.mpr ⟨Dict.get?_eq_some_iff.mp hnamed, hsame, hsame'⟩
      by_cases hmany : 1 < same.length
      · exact .inl (.inr hmany)
      · right
        rintro entry hmemEntry ⟨⟨⟨hentry₁, hentry₂⟩, hroute⟩, htreatment⟩
        have hentry' := hmem.mpr ⟨hmemEntry, hentry₁, hentry₂⟩
        rcases same with _ | ⟨only, _ | ⟨second, rest⟩⟩
        · cases hentry
        · rw [List.mem_singleton] at hentry hentry'
          rw [hentry', ← hentry] at hroute htreatment
          exact hother ⟨hroute, htreatment⟩
        · simp at hmany

end Shortcut

section Query

variable {found : Matches} {owner text : String}

theorem listed_addMatch (row : QueryRow × (Signature × String) × OwnerRow) :
    Listed (addMatch found row) owner text ↔ Listed found owner text ∨ (row.2.1.2 = owner ∧ row.1.text = text) := by
  simp only [Listed, addMatch, Dict.get?_set]
  by_cases howner : owner = row.2.1.2
  · subst howner
    simp only [if_true, Option.some.injEq, exists_eq_left', true_and]
    cases hget : found.1.get? row.2.1.2 with
    | none => simp [eq_comm]
    | some texts =>
      simp only [Option.getD_some, Option.some.injEq, exists_eq_left']
      split
      · rename_i hmem
        exact ⟨.inl, fun h => h.elim id fun h => h ▸ hmem⟩
      · rw [List.mem_append, List.mem_singleton, eq_comm]
  · simp only [if_neg howner, Ne.symm howner, false_and, or_false]

theorem listed_foldl (rows : List (QueryRow × (Signature × String) × OwnerRow)) :
    Listed (rows.foldl addMatch found) owner text ↔
      Listed found owner text ∨ ∃ row ∈ rows, row.2.1.2 = owner ∧ row.1.text = text := by
  induction rows generalizing found with
  | nil => simp
  | cons row rows ih => rw [List.foldl_cons, ih, listed_addMatch, or_assoc, List.exists_mem_cons_iff]

variable {limit : Nat} {evidence : Evidence} {index : Index} {query : Query} {lines : Lines} {found' : Matches}

/-- The matches of a query over a built index. -/
theorem listed_queryIndex (hbuild : buildReferenceIndex limit evidence = .ok index)
    (hquery : queryIndex index query lines = .ok found') : Listed found' owner text ↔ Matching evidence query lines owner text := by
  have hkeys := build_keys hbuild
  simp only [buildReferenceIndex, bind_eq_ok, pure_eq_ok] at hbuild
  obtain ⟨table, _, rfl⟩ := hbuild
  simp only [queryIndex, bind_eq_ok, pure_eq_ok] at hquery
  obtain ⟨rows, hrows, rfl⟩ := hquery
  have hempty : ¬Listed (.empty, .empty) owner text := by
    rintro ⟨_, h, _⟩
    cases h
  rw [listed_foldl, or_iff_right hempty]
  constructor
  · rintro ⟨row, hrow, rfl, rfl⟩
    obtain ⟨queried, hqueried, hpair⟩ := List.mem_flatMap.mp hrow
    obtain ⟨reference, hreference, rfl⟩ := List.mem_map.mp hpair
    rw [List.mem_filter, Bool.and_eq_true, decide_eq_true_eq] at hreference
    obtain ⟨hentry, hsignature, hpasses⟩ := hreference
    obtain ⟨line, hline, hread⟩ := mem_mapM hrows queried hqueried
    obtain ⟨identity, hidentity, hsame, howner, hexact⟩ := (passes_iff (Dict.get?_of_mem hentry)).mp hpasses
    have hretained := (hkeys identity).mp hidentity
    rw [hsame, howner] at hretained
    exact ⟨line, hline, queried, hread, rfl, identity.routeId, identity.treatmentId, hsignature ▸ hretained, hexact⟩
  · rintro ⟨line, hline, queried, hread, rfl, routeId, treatmentId, hretained, hexact⟩
    have hidentity := (hkeys ⟨queried.signature, owner, routeId, treatmentId⟩).mpr hretained
    obtain ⟨named, hnamed⟩ := Dict.mem_keys.mp hidentity
    obtain ⟨row, hgroup⟩ : ∃ row, (Dict.groupBy (fun row => (row.1.signature, row.1.owner)) ownerRow table.entries).get?
        (queried.signature, owner) = some row :=
      ⟨_, Dict.get?_groupBy.mpr ⟨⟨_, Dict.get?_eq_some_iff.mp hnamed, rfl⟩, rfl⟩⟩
    obtain ⟨read, hmem, hread'⟩ := mapM_mem hrows line hline
    obtain rfl := Except.ok.inj (hread.symm.trans hread')
    refine ⟨(queried, (queried.signature, owner), row), List.mem_flatMap.mpr ⟨queried, hmem, ?_⟩, rfl, rfl⟩
    refine List.mem_map.mpr ⟨_, List.mem_filter.mpr ⟨Dict.get?_eq_some_iff.mp hgroup, ?_⟩, rfl⟩
    rw [Bool.and_eq_true, decide_eq_true_eq]
    exact ⟨rfl, (passes_iff hgroup).mpr ⟨_, hidentity, rfl, rfl, hexact⟩⟩

theorem queryIndex_isOk : (∃ found, queryIndex index query lines = .ok found) ↔
    ∀ line ∈ lines, ∃ row, queryRow query line = .ok row := by
  simp only [queryIndex, bind_eq_ok, pure_eq_ok]
  constructor
  · rintro ⟨_, rows, hrows, _⟩ line hline
    obtain ⟨row, _, hrow⟩ := mapM_mem hrows line hline
    exact ⟨row, hrow⟩
  · intro hlines
    obtain ⟨rows, hrows⟩ := mapM_total hlines
    exact ⟨_, rows, hrows, rfl⟩

/-- No owner is listed without a match. -/
theorem queryIndex_nonempty (hquery : queryIndex index query lines = .ok found') {texts : List String}
    (h : found'.1.get? owner = some texts) : texts ≠ [] := by
  simp only [queryIndex, bind_eq_ok, pure_eq_ok] at hquery
  obtain ⟨rows, _, rfl⟩ := hquery
  have hadd (found : Matches) (row : QueryRow × (Signature × String) × OwnerRow)
      (hfound : ∀ owner texts, found.1.get? owner = some texts → texts ≠ []) :
      ∀ owner texts, (addMatch found row).1.get? owner = some texts → texts ≠ [] := by
    intro owner texts h
    simp only [addMatch, Dict.get?_set] at h
    split at h
    · obtain rfl := Option.some.inj h
      split
      · rename_i hmem
        exact List.ne_nil_of_mem hmem
      · simp
    · exact hfound owner texts h
  have hall (rows : List (QueryRow × (Signature × String) × OwnerRow)) (found : Matches)
      (hfound : ∀ owner texts, found.1.get? owner = some texts → texts ≠ []) :
      ∀ owner texts, (rows.foldl addMatch found).1.get? owner = some texts → texts ≠ [] := by
    induction rows generalizing found with
    | nil => exact hfound
    | cons row rows ih => exact ih _ (hadd found row hfound)
  exact hall _ _ (fun _ _ h => by cases h) owner texts h

end Query

section Order

variable {evidence evidence' : Evidence}

/-- Reordered files retain the same rows. -/
theorem Reordered.retained (h : Reordered evidence evidence') {owner routeId treatmentId : String} {signature : Signature} :
    Retained evidence' owner routeId treatmentId signature ↔ Retained evidence owner routeId treatmentId signature := by
  obtain ⟨hroutes, hto, hfrom⟩ := h
  constructor
  · rintro ⟨⟨place, item'⟩, hfile, hplace, route, line, row, hroute, hline, hrest⟩
    obtain ⟨item, hitem⟩ := hfrom place item' (Dict.get?_eq_some_iff.mpr hfile)
    obtain ⟨found, hfound, _, hlines⟩ := hto place item hitem
    obtain rfl := Option.some.inj (hfound.symm.trans (Dict.get?_eq_some_iff.mpr hfile))
    exact ⟨(place, item), Dict.get?_eq_some_iff.mp hitem, hplace, route, line, row, hroutes ▸ hroute,
      hlines.mem_iff.mp hline, hrest⟩
  · rintro ⟨⟨place, item⟩, hfile, hplace, route, line, row, hroute, hline, hrest⟩
    obtain ⟨item', hitem', _, hlines⟩ := hto place item (Dict.get?_eq_some_iff.mpr hfile)
    exact ⟨(place, item'), Dict.get?_eq_some_iff.mp hitem', hplace, route, line, row, hroutes ▸ hroute,
      hlines.mem_iff.mpr hline, hrest⟩

theorem Reordered.build_isOk (h : Reordered evidence evidence') {limit limit' : Nat}
    (hbuild : ∃ index, buildReferenceIndex limit evidence = .ok index) :
    ∃ index, buildReferenceIndex limit' evidence' = .ok index := by
  obtain ⟨hroutes, hto, hfrom⟩ := h
  rw [Reference.build_isOk] at hbuild ⊢
  rintro ⟨place, item'⟩ hfile
  obtain ⟨item, hitem⟩ := hfrom place item' (Dict.get?_eq_some_iff.mpr hfile)
  obtain ⟨found, hfound, hsource, hlines⟩ := hto place item hitem
  obtain rfl := Option.some.inj (hfound.symm.trans (Dict.get?_eq_some_iff.mpr hfile))
  obtain ⟨route, hroute, hrows⟩ := hbuild (place, item) (Dict.get?_eq_some_iff.mp hitem)
  refine ⟨route, hroutes ▸ hroute, fun line hline => ?_⟩
  obtain ⟨row, hrow⟩ := hrows line (hlines.mem_iff.mp hline)
  refine ⟨row, ?_⟩
  rw [← hrow, identityRow, identityRow, hsource]

end Order

section Result

/-- Leaving one exact identity out is exact, whatever the order of rows and files and the size of the batches. -/
theorem leave_one_out_exact (limit : Nat) (evidence : Evidence) (index : Index)
    (hbuild : buildReferenceIndex limit evidence = .ok index) (query : Query) (lines : Lines) (found : Matches)
    (hquery : queryIndex index query lines = .ok found) :
    (∀ owner text, Listed found owner text ↔ Matching evidence query lines owner text) ∧
      (∀ owner texts, found.1.get? owner = some texts → texts ≠ []) ∧
      ∀ limit' evidence' lines', Reordered evidence evidence' → lines'.Perm lines →
        ∃ index' found', buildReferenceIndex limit' evidence' = .ok index' ∧ queryIndex index' query lines' = .ok found' ∧
          ∀ owner text, Listed found' owner text ↔ Listed found owner text := by
  refine ⟨fun _ _ => listed_queryIndex hbuild hquery, fun _ _ h => queryIndex_nonempty hquery h, ?_⟩
  intro limit' evidence' lines' hreordered hlines
  obtain ⟨index', hbuild'⟩ := @Reordered.build_isOk _ _ hreordered limit limit' ⟨index, hbuild⟩
  obtain ⟨found', hquery'⟩ := (@queryIndex_isOk index' query lines').mpr fun line hline =>
    queryIndex_isOk.mp ⟨found, hquery⟩ line (hlines.mem_iff.mp hline)
  refine ⟨index', found', hbuild', hquery', fun owner text => ?_⟩
  rw [listed_queryIndex hbuild hquery, listed_queryIndex hbuild' hquery']
  simp only [Matching, hreordered.retained, hlines.mem_iff]

def inflateRow : SignatureRow :=
  ⟨some "x86:LE:64:default", none, some "f1", some "s1", some 0, some 40, some "inflate", none, some "0x1000"⟩

/-- Two treatments of one library, the same function in both, once with a repeated row. -/
def twoTreatments : Evidence where
  signatures := ((Dict.empty.set ("zlib", "gcc", "O2") ⟨"a.jsonl", [some inflateRow, some inflateRow]⟩).set
    ("zlib", "gcc", "O3") ⟨"b.jsonl", [some inflateRow]⟩)
  routes := [⟨"gcc", "linux", "ELF"⟩]

/-- The other treatment's row is a match when the query's own is left out. -/
theorem leave_one_out_exact_two : ∃ index found, buildReferenceIndex 5000 twoTreatments = .ok index ∧
    queryIndex index ⟨"gcc", "O2", "linux", "ELF", false⟩ [some inflateRow] = .ok found ∧
    (Listed found "zlib" "0x1000:f1:s1:0:40" ↔
      Matching twoTreatments ⟨"gcc", "O2", "linux", "ELF", false⟩ [some inflateRow] "zlib" "0x1000:f1:s1:0:40") := by
  obtain ⟨index, hindex⟩ : ∃ index, buildReferenceIndex 5000 twoTreatments = .ok index := by
    refine build_isOk.mpr fun file hfile => ⟨⟨"gcc", "linux", "ELF"⟩, ?_⟩
    obtain rfl | rfl : file = (("zlib", "gcc", "O2"), ⟨"a.jsonl", [some inflateRow, some inflateRow]⟩) ∨
        file = (("zlib", "gcc", "O3"), ⟨"b.jsonl", [some inflateRow]⟩) := by
      simpa [twoTreatments, Dict.assign, Dict.empty] using hfile
    · refine ⟨rfl, fun line hline => ?_⟩
      obtain rfl : line = some inflateRow := by simpa using hline
      exact ⟨_, rfl⟩
    · refine ⟨rfl, fun line hline => ?_⟩
      obtain rfl : line = some inflateRow := by simpa using hline
      exact ⟨_, rfl⟩
  obtain ⟨found, hfound⟩ : ∃ found, queryIndex index ⟨"gcc", "O2", "linux", "ELF", false⟩ [some inflateRow] = .ok found :=
    queryIndex_isOk.mpr fun line hline => by
      obtain rfl : line = some inflateRow := by simpa using hline
      exact ⟨_, rfl⟩
  exact ⟨index, found, hindex, hfound, (leave_one_out_exact 5000 twoTreatments index hindex
    ⟨"gcc", "O2", "linux", "ELF", false⟩ [some inflateRow] found hfound).1 "zlib" "0x1000:f1:s1:0:40"⟩

end Result

end FidbPoc.Validation.Reference
