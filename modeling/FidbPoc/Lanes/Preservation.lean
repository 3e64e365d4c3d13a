import FidbPoc.Lanes.Database

namespace FidbPoc.Lanes

open FidbPoc.Lib FidbPoc.Lib.Checked

section Tables

variable {ν : Type} {table : Dict Nat ν} {row : ν}

theorem le_foldr_max {keys : List Nat} {k : Nat} (h : k ∈ keys) : k ≤ keys.foldr max 0 := by
  induction keys with
  | nil => cases h
  | cons x keys ih =>
    rw [List.foldr_cons]
    obtain rfl | h := List.mem_cons.mp h
    · exact le_max_left k _
    · exact le_max_of_le_right (ih h)

theorem nextRowid_fresh (table : Dict Nat ν) : nextRowid table ∉ table.keys := by
  intro h
  have hle := le_foldr_max h
  unfold nextRowid at hle
  omega

theorem get?_nextRowid (table : Dict Nat ν) : table.get? (nextRowid table) = none :=
  Dict.get?_eq_none_iff.mpr (nextRowid_fresh table)

theorem values_append (table : Dict Nat ν) (row : ν) :
    (table.set (nextRowid table) row).values = table.values ++ [row] := by
  unfold Dict.values
  rw [Dict.entries_set_of_not_mem (nextRowid_fresh table), List.map_append]
  rfl

end Tables

/-- What a later table keeps of an earlier one. -/
def Keeps {κ ν : Type} [DecidableEq κ] (earlier later : Dict κ ν) : Prop :=
  ∀ k row, earlier.get? k = some row → later.get? k = some row

section Keeps

variable {κ ν : Type} [DecidableEq κ] {table : Dict κ ν} {k : κ} {row : ν}

theorem keeps_refl (table : Dict κ ν) : Keeps table table := fun _ _ h => h

theorem keeps_set (h : table.get? k = none) (row : ν) : Keeps table (table.set k row) := by
  intro k' row' h'
  have hne : k' ≠ k := fun he => by rw [he, h] at h'; cases h'
  rw [Dict.get?_set, if_neg hne, h']

theorem filter_key (table : Dict κ ν) (k : κ) :
    (table.entries.filter fun e => e.1 = k) = ((table.get? k).map (Prod.mk k)).toList := by
  obtain ⟨entries, hnodup⟩ := table
  unfold Dict.get?
  induction entries with
  | nil => rfl
  | cons e rest ih =>
    simp only [List.map_cons, List.nodup_cons] at hnodup
    by_cases he : e.1 = k
    · subst he
      have hrest : (rest.filter fun e' => e'.1 = e.1) = [] := by
        refine List.filter_eq_nil_iff.mpr fun e' he' hk => hnodup.1 ?_
        rw [← of_decide_eq_true hk]
        exact List.mem_map_of_mem he'
      rw [List.filter_cons_of_pos (by simp), List.find?_cons_of_pos (by simp), hrest]
      rfl
    · simpa [he] using ih hnodup.2

end Keeps

/-- The occurrence that an observation row joins to. -/
def joinedRow (db : Database) (o : Observation) : Option Occurrence := do
  let b ← db.builds.get? o.buildVariantId
  let r ← db.releases.get? b.releaseId
  let f ← db.families.get? r.familyId
  pure
    { sublaneId := o.sublaneId, library := f.name, libraryVersion := r.version, sourceLanguage := f.sourceLanguage,
      sourceUrl := r.sourceUrl, sourceSha256 := r.sourceSha256, buildId := o.buildVariantId, routeId := b.routeId,
      compilerFamily := b.compilerFamily, compilerVersion := b.compilerVersion, compilerSha256 := b.compilerSha256,
      treatmentId := b.treatmentId, buildManifestSha256 := b.buildManifestSha256,
      ghidraLanguageId := o.ghidraLanguageId, ghidraCompilerSpecId := o.ghidraCompilerSpecId,
      domainPath := o.domainPath, functionName := o.functionName, fullHash := o.fullHash,
      specificHash := o.specificHash, specificHashAdditionalSize := o.specificHashAdditionalSize,
      codeUnitSize := o.codeUnitSize }

theorem joined_eq_filterMap (db : Database) : joined db = db.observations.values.filterMap (joinedRow db) := by
  unfold joined
  induction db.observations.values with
  | nil => rfl
  | cons o rest ih =>
    rw [List.flatMap_cons, List.filterMap_cons, ih, filter_key]
    unfold joinedRow
    cases db.builds.get? o.buildVariantId with
    | none => rfl
    | some b =>
      simp only [Option.map_some, Option.toList_some, List.flatMap_singleton, filter_key, Option.bind_some, bind]
      cases db.releases.get? b.releaseId with
      | none => rfl
      | some r =>
        simp only [Option.map_some, Option.toList_some, List.flatMap_singleton, Option.bind_some]
        cases db.families.get? r.familyId <;> rfl

/-- What identifies a release of a library, without its source URL. -/
structure SourceKey where
  library : String
  sourceLanguage : String
  version : String
  sourceSha256 : String
  deriving DecidableEq

def Occurrence.sourceKey (o : Occurrence) : SourceKey :=
  ⟨o.library, o.sourceLanguage, o.libraryVersion, o.sourceSha256.text⟩

/-- The source URL of the first occurrence of a release. -/
def firstUrl (os : List Occurrence) (key : SourceKey) : Option String :=
  (os.find? fun o => o.sourceKey = key).map Occurrence.sourceUrl

def urlOf (st : Building) (key : SourceKey) : Option String := do
  let f ← st.familyIds.get? (key.library, key.sourceLanguage)
  let r ← st.releaseIds.get? (f, key.version, key.sourceSha256)
  let row ← st.db.releases.get? r
  pure row.sourceUrl

/-- The caches say what the tables hold. -/
structure Caches (st : Building) : Prop where
  families : ∀ k f, st.familyIds.get? k = some f → st.db.families.get? f = some ⟨k.1, k.2⟩
  releases : ∀ k r, st.releaseIds.get? k = some r → k.1 ∈ st.db.families.keys ∧ ∃ row,
    st.db.releases.get? r = some row ∧ row.familyId = k.1 ∧ row.version = k.2.1 ∧ row.sourceSha256.text = k.2.2
  builds : ∀ b known, st.buildFingerprints.get? b = some known → st.db.builds.get? b = some known

/-- A step that only adds rows, and no observation. -/
structure Extends (before after : Database) : Prop where
  families : Keeps before.families after.families
  releases : Keeps before.releases after.releases
  builds : Keeps before.builds after.builds
  observations : after.observations = before.observations

theorem Extends.refl (db : Database) : Extends db db := ⟨keeps_refl _, keeps_refl _, keeps_refl _, rfl⟩

theorem Extends.trans {a b c : Database} (h : Extends a b) (h' : Extends b c) : Extends a c :=
  ⟨fun k row hk => h'.families k row (h.families k row hk), fun k row hk => h'.releases k row (h.releases k row hk),
    fun k row hk => h'.builds k row (h.builds k row hk), h'.observations.trans h.observations⟩

theorem joinedRow_extends {before after : Database} (h : Extends before after) {o : Observation} {x : Occurrence}
    (hx : joinedRow before o = some x) : joinedRow after o = some x := by
  unfold joinedRow at hx ⊢
  simp only [Option.bind_eq_bind, Option.bind_eq_some_iff] at hx ⊢
  obtain ⟨b, hb, r, hr, f, hf, hx⟩ := hx
  exact ⟨b, h.builds _ _ hb, r, h.releases _ _ hr, f, h.families _ _ hf, hx⟩

section Step

variable {st st' : Building} {row : Occurrence} {f r : Nat}

theorem familyOf_spec (hc : Caches st) (h : familyOf st row = .ok (st', f)) :
    Caches st' ∧ Extends st.db st'.db ∧ st'.familyIds.get? (row.library, row.sourceLanguage) = some f ∧
      urlOf st' = urlOf st ∧ st'.signatureRecords = st.signatureRecords := by
  unfold familyOf at h
  split at h
  · rename_i id hid
    cases h
    exact ⟨hc, .refl _, hid, rfl, rfl⟩
  · rename_i hnone
    simp only [insertFamily, bind_eq_ok, require_eq_ok, pure_eq_ok] at h
    obtain ⟨_, ⟨_, -, rfl⟩, h⟩ := h
    cases h
    have hfresh := get?_nextRowid st.db.families
    have hkeeps := keeps_set hfresh (⟨row.library, row.sourceLanguage⟩ : Family)
    refine ⟨⟨?_, ?_, hc.builds⟩, ⟨hkeeps, keeps_refl _, keeps_refl _, rfl⟩, ?_, ?_, rfl⟩
    · intro k f hk
      rw [Dict.get?_set] at hk
      split at hk
      · rename_i hkey
        subst hkey
        cases hk
        rw [Dict.get?_set, if_pos rfl]
      · exact hkeeps f _ (hc.families k f hk)
    · intro k r hk
      obtain ⟨hmem, rest⟩ := hc.releases k r hk
      obtain ⟨row', hrow'⟩ := Dict.mem_keys.mp hmem
      exact ⟨Dict.mem_keys.mpr ⟨row', hkeeps k.1 row' hrow'⟩, rest⟩
    · rw [Dict.get?_set, if_pos rfl]
    · funext key
      unfold urlOf
      simp only [Dict.get?_set]
      split
      · rename_i hkey
        -- no release belongs to a family that was just listed
        have hnew : st.releaseIds.get? (nextRowid st.db.families, key.version, key.sourceSha256) = none := by
          cases hr : st.releaseIds.get? (nextRowid st.db.families, key.version, key.sourceSha256) with
          | none => rfl
          | some r => exact absurd (hc.releases _ r hr).1 (nextRowid_fresh st.db.families)
        rw [hkey, hnone]
        simp [hnew]
      · rfl

/-- A cached family and a cached release give the release's source URL. -/
theorem urlOf_cached (hc : Caches st) (hf : st.familyIds.get? (row.library, row.sourceLanguage) = some f)
    (hr : st.releaseIds.get? (f, row.libraryVersion, row.sourceSha256.text) = some r) :
    ∃ url, urlOf st row.sourceKey = some url ∧
      st.db.releases.get? r = some ⟨f, row.libraryVersion, url, row.sourceSha256⟩ := by
  obtain ⟨-, release, hrelease, hfamily, hversion, hsha⟩ := hc.releases _ r hr
  refine ⟨release.sourceUrl, ?_, ?_⟩
  · unfold urlOf Occurrence.sourceKey
    simp only [hf, hr, hrelease, Option.bind_eq_bind, Option.bind_some]
    rfl
  · have hsha' : release.sourceSha256 = row.sourceSha256 := Digest.ext hsha
    dsimp only at hfamily hversion
    rw [hrelease, ← hfamily, ← hversion, ← hsha']

theorem releaseOf_spec (hc : Caches st) (hf : st.familyIds.get? (row.library, row.sourceLanguage) = some f)
    (h : releaseOf st row f = .ok (st', r)) :
    Caches st' ∧ Extends st.db st'.db ∧ st'.familyIds = st.familyIds ∧
      st'.releaseIds.get? (f, row.libraryVersion, row.sourceSha256.text) = some r ∧
      (∀ key, urlOf st' key = (urlOf st key).or (if key = row.sourceKey then some row.sourceUrl else none)) ∧
      st'.signatureRecords = st.signatureRecords := by
  unfold releaseOf at h
  split at h
  · rename_i id hid
    cases h
    refine ⟨hc, .refl _, rfl, hid, fun key => ?_, rfl⟩
    split
    · rename_i hkey
      obtain ⟨url, hurl, -⟩ := urlOf_cached hc hf hid
      rw [hkey, hurl]
      rfl
    · exact (Option.or_none).symm
  · rename_i hnone
    simp only [insertRelease, bind_eq_ok, require_eq_ok, pure_eq_ok] at h
    obtain ⟨_, ⟨_, -, _, hmem, rfl⟩, h⟩ := h
    cases h
    have hfresh := get?_nextRowid st.db.releases
    have hkeeps := keeps_set hfresh (⟨f, row.libraryVersion, row.sourceUrl, row.sourceSha256⟩ : Release)
    refine ⟨⟨hc.families, ?_, hc.builds⟩, ⟨keeps_refl _, hkeeps, keeps_refl _, rfl⟩, rfl, ?_, ?_, rfl⟩
    · intro k r hk
      rw [Dict.get?_set] at hk
      split at hk
      · rename_i hkey
        subst hkey
        cases hk
        exact ⟨hmem, _, by rw [Dict.get?_set, if_pos rfl], rfl, rfl, rfl⟩
      · obtain ⟨hfamily, release, hrelease, hrest⟩ := hc.releases k r hk
        exact ⟨hfamily, release, hkeeps r release hrelease, hrest⟩
    · rw [Dict.get?_set, if_pos rfl]
    · intro key
      cases hk : st.familyIds.get? (key.library, key.sourceLanguage) with
      | none =>
        have hne : key ≠ row.sourceKey := by
          rintro rfl
          exact absurd (hk.symm.trans hf) (by simp)
        simp [urlOf, hk, hne]
      | some f' =>
        by_cases hkey : key = row.sourceKey
        · subst hkey
          obtain rfl := Option.some.inj (hk.symm.trans hf)
          have hold : urlOf st row.sourceKey = none := by
            simp [urlOf, Occurrence.sourceKey, hf, hnone]
          rw [hold, if_pos rfl]
          unfold urlOf
          simp only [Occurrence.sourceKey, hf, Dict.get?_set, if_true, Option.bind_eq_bind, Option.bind_some]
          rfl
        · -- families are told apart by their ids, so the new release is listed under one key only
          have hother : ¬(f', key.version, key.sourceSha256) = (f, row.libraryVersion, row.sourceSha256.text) := by
            intro he
            simp only [Prod.mk.injEq] at he
            obtain ⟨rfl, hversion, hsha⟩ := he
            have hfamily := (hc.families _ _ hk).symm.trans (hc.families _ _ hf)
            simp only [Option.some.injEq, Family.mk.injEq] at hfamily
            obtain ⟨library, sourceLanguage, version, sourceSha256⟩ := key
            exact hkey (SourceKey.mk.injEq .. ▸ ⟨hfamily.1, hfamily.2, hversion, hsha⟩)
          rw [if_neg hkey, Option.or_none]
          unfold urlOf
          simp only [hk, Dict.get?_set, if_neg hother, Option.bind_eq_bind, Option.bind_some]
          cases hr : st.releaseIds.get? (f', key.version, key.sourceSha256) with
          | none => rfl
          | some r =>
            obtain ⟨-, release, hrelease, -⟩ := hc.releases _ r hr
            have hne : r ≠ nextRowid st.db.releases := fun he => by rw [he, hfresh] at hrelease; cases hrelease
            simp only [Option.bind_some, if_neg hne]

theorem buildOf_spec (hc : Caches st) (h : buildOf st row r = .ok st') :
    Caches st' ∧ Extends st.db st'.db ∧ st'.db.builds.get? row.buildId = some (fingerprint row r) ∧
      st'.familyIds = st.familyIds ∧ st'.releaseIds = st.releaseIds ∧ urlOf st' = urlOf st ∧
      st'.signatureRecords = st.signatureRecords := by
  unfold buildOf at h
  split at h
  · rename_i known hknown
    simp only [bind_eq_ok, require_eq_ok, pure_eq_ok] at h
    obtain ⟨_, rfl, rfl⟩ := h
    exact ⟨hc, .refl _, hc.builds _ _ hknown, rfl, rfl, rfl, rfl⟩
  · rename_i hnone
    simp only [insertBuild, bind_eq_ok, require_eq_ok, pure_eq_ok] at h
    obtain ⟨_, ⟨_, hmem, _, -, _, -, rfl⟩, rfl⟩ := h
    have hkeeps := keeps_set (Dict.get?_eq_none_iff.mpr hmem) (fingerprint row r)
    refine ⟨⟨hc.families, hc.releases, ?_⟩, ⟨keeps_refl _, keeps_refl _, hkeeps, rfl⟩, ?_, rfl, rfl, rfl, rfl⟩
    · intro b known hb
      rw [Dict.get?_set] at hb
      split at hb
      · rename_i hkey
        cases hb
        rw [Dict.get?_set, if_pos hkey]
      · exact hkeeps b known (hc.builds b known hb)
    · rw [Dict.get?_set, if_pos rfl]

end Step

/-- An occurrence as the database gives it back: with the source URL that its release was listed with. -/
def withUrl (url : SourceKey → Option String) (o : Occurrence) : Occurrence :=
  { o with sourceUrl := (url o.sourceKey).getD o.sourceUrl }

theorem firstUrl_append (os : List Occurrence) (o : Occurrence) (key : SourceKey) :
    firstUrl (os ++ [o]) key = (firstUrl os key).or (if key = o.sourceKey then some o.sourceUrl else none) := by
  unfold firstUrl
  rw [List.find?_append]
  cases os.find? fun o => o.sourceKey = key with
  | some o' => rfl
  | none =>
    by_cases hkey : o.sourceKey = key
    · simp [hkey]
    · simp [hkey, Ne.symm hkey]

theorem firstUrl_of_mem {os : List Occurrence} {o : Occurrence} (h : o ∈ os) :
    ∃ url, firstUrl os o.sourceKey = some url := by
  have hfound : (os.find? fun o' => o'.sourceKey = o.sourceKey).isSome := List.find?_isSome.mpr ⟨o, h, by simp⟩
  obtain ⟨o', ho'⟩ := Option.isSome_iff_exists.mp hfound
  exact ⟨o'.sourceUrl, by rw [firstUrl, ho']; rfl⟩

/-- What holds after the occurrences of a list. -/
structure Holds (os : List Occurrence) (st : Building) : Prop where
  caches : Caches st
  urls : urlOf st = firstUrl os
  rows : st.db.observations.values.map (joinedRow st.db) = os.map fun o => some (withUrl (firstUrl os) o)
  records : st.signatureRecords = os.length

theorem withUrl_append {os : List Occurrence} {o : Occurrence} (h : o ∈ os) (new : Occurrence) :
    withUrl (firstUrl (os ++ [new])) o = withUrl (firstUrl os) o := by
  obtain ⟨url, hurl⟩ := firstUrl_of_mem h
  unfold withUrl
  rw [firstUrl_append, hurl]
  rfl

theorem addRow_holds {lane : Lane} {st st' : Building} {os : List Occurrence} {row : Occurrence} (h : Holds os st)
    (hadd : addRow lane st row = .ok st') : Holds (os ++ [row]) st' := by
  simp only [addRow, bind_eq_ok] at hadd
  obtain ⟨⟨st₁, f⟩, hfamily, ⟨st₂, r⟩, hrelease, st₃, hbuild, hadd⟩ := hadd
  have hcounted : Caches { st with signatureRecords := st.signatureRecords + 1 } :=
    ⟨h.caches.families, h.caches.releases, h.caches.builds⟩
  obtain ⟨hc₁, he₁, hf₁, hu₁, hn₁⟩ := familyOf_spec hcounted hfamily
  obtain ⟨hc₂, he₂, hf₂, hr₂, hu₂, hn₂⟩ := releaseOf_spec hc₁ hf₁ hrelease
  obtain ⟨hc₃, he₃, hb₃, hf₃, hr₃, hu₃, hn₃⟩ := buildOf_spec hc₂ hbuild
  have hextends : Extends st.db st₃.db := he₁.trans (he₂.trans he₃)
  have hurls : urlOf st₃ = firstUrl (os ++ [row]) := by
    funext key
    have hst : urlOf { st with signatureRecords := st.signatureRecords + 1 } = firstUrl os := h.urls
    rw [hu₃, hu₂, hu₁, hst, firstUrl_append]
  split at hadd
  · cases hadd
  · rename_i sublane hsublane
    simp only [insertObservation, bind_eq_ok, require_eq_ok, pure_eq_ok] at hadd
    obtain ⟨_, ⟨_, -, _, -, rfl⟩, rfl⟩ := hadd
    refine ⟨⟨hc₃.families, hc₃.releases, hc₃.builds⟩, hurls, ?_, ?_⟩
    · have hvalues : (st₃.db.observations.set (nextRowid st₃.db.observations)
          (observationOf row sublane.policyId)).values =
          st.db.observations.values ++ [observationOf row sublane.policyId] := by
        rw [values_append, hextends.observations]
      have hrow (o : Observation) : joinedRow { st₃.db with
          observations := st₃.db.observations.set (nextRowid st₃.db.observations)
            (observationOf row sublane.policyId) } o = joinedRow st₃.db o := rfl
      simp only [hvalues, hrow, List.map_append, List.map_cons, List.map_nil]
      congr 1
      · -- the rows before keep what they join to
        refine (List.map_congr_left fun o ho => ?_).trans (h.rows.trans (List.map_congr_left fun o ho => ?_))
        · have hmem := List.mem_map_of_mem (f := joinedRow st.db) ho
          rw [h.rows] at hmem
          obtain ⟨x, -, hx⟩ := List.mem_map.mp hmem
          rw [← hx]
          exact joinedRow_extends hextends hx.symm
        · rw [withUrl_append ho]
      · have hf := hf₁
        rw [← hf₂, ← hf₃] at hf
        have hr := hr₂
        rw [← hr₃] at hr
        obtain ⟨url, hurl, hrelease⟩ := urlOf_cached hc₃ hf hr
        have hfamily := hc₃.families _ _ hf
        rw [hurls] at hurl
        unfold joinedRow withUrl
        simp only [observationOf, hb₃, fingerprint, hrelease, hfamily, hurl, Option.bind_eq_bind, Option.bind_some]
        rfl
    · have hn := hn₃.trans (hn₂.trans hn₁)
      dsimp only at hn ⊢
      rw [hn, h.records, List.length_append]
      rfl

theorem addOccurrence_eq_ok {lane : Lane} {st st' : Building} {raw : Json.Fields} :
    addOccurrence lane st raw = .ok st' ↔ ∃ row, validateOccurrence lane raw = .ok row ∧ addRow lane st row = .ok st' :=
  bind_eq_ok

/-- A run of the loop validates every occurrence, and keeps what holds. -/
theorem addOccurrences_holds {lane : Lane} {raws : List Json.Fields} {st st' : Building} {os : List Occurrence}
    (h : Holds os st) (hrun : raws.foldlM (addOccurrence lane) st = .ok st') :
    ∃ rows, raws.mapM (validateOccurrence lane) = .ok rows ∧ Holds (os ++ rows) st' := by
  induction raws generalizing st os with
  | nil =>
    cases hrun
    exact ⟨[], rfl, by rwa [List.append_nil]⟩
  | cons raw raws ih =>
    rw [List.foldlM_cons, bind_eq_ok] at hrun
    obtain ⟨st₁, hadd, hrun⟩ := hrun
    obtain ⟨row, hrow, hadd⟩ := addOccurrence_eq_ok.mp hadd
    obtain ⟨rows, hrows, hholds⟩ := ih (addRow_holds h hadd) hrun
    refine ⟨row :: rows, ?_, ?_⟩
    · rw [List.mapM_cons, hrow, ok_bind, hrows]
      rfl
    · rwa [List.append_assoc] at hholds

section Sources

/-- Occurrences of one release give one source URL. -/
def SourcesAgree (os : List Occurrence) : Prop :=
  ∀ o ∈ os, ∀ o' ∈ os, o.sourceKey = o'.sourceKey → o.sourceUrl = o'.sourceUrl

variable {os : List Occurrence}

theorem withUrl_firstUrl {o : Occurrence} (h : o ∈ os) :
    firstUrl os o.sourceKey = some (withUrl (firstUrl os) o).sourceUrl := by
  obtain ⟨url, hurl⟩ := firstUrl_of_mem h
  unfold withUrl
  rw [hurl]
  rfl

theorem withUrl_eq_self (h : SourcesAgree os) : os.map (withUrl (firstUrl os)) = os := by
  refine (List.map_congr_left fun o ho => ?_).trans (List.map_id os)
  have hfirst := withUrl_firstUrl ho
  obtain ⟨o', hfound, hurl⟩ := Option.map_eq_some_iff.mp hfirst
  have hkey : o'.sourceKey = o.sourceKey := by simpa using List.find?_some hfound
  have hsame : (withUrl (firstUrl os) o).sourceUrl = o.sourceUrl :=
    hurl.symm.trans (h o' (List.mem_of_find?_eq_some hfound) o ho hkey)
  have hrow : withUrl (firstUrl os) o = { o with sourceUrl := (withUrl (firstUrl os) o).sourceUrl } := rfl
  rw [hrow, hsame]
  rfl

/-- Joining gives the occurrences back exactly where their sources agree. -/
theorem map_withUrl_perm : (os.map (withUrl (firstUrl os))).Perm os ↔ SourcesAgree os := by
  constructor
  · intro h
    have hfirst : ∀ o ∈ os, firstUrl os o.sourceKey = some o.sourceUrl := by
      intro o ho
      obtain ⟨p, hp, rfl⟩ := List.mem_map.mp (h.mem_iff.mpr ho)
      exact withUrl_firstUrl hp
    intro o ho o' ho' hkey
    have hboth := (hfirst o ho).symm.trans (hkey ▸ hfirst o' ho')
    exact Option.some.inj hboth
  · intro h
    rw [withUrl_eq_self h]

end Sources

theorem joined_of_holds {os : List Occurrence} {st : Building} (h : Holds os st) :
    joined st.db = os.map (withUrl (firstUrl os)) := by
  have hrows := congrArg (List.filterMap id) h.rows
  rw [joined_eq_filterMap]
  simpa [List.filterMap_map, Function.comp_def] using hrows

theorem holds_empty (db : Database) (hobservations : db.observations = Dict.empty) :
    Holds [] ⟨db, Dict.empty, Dict.empty, Dict.empty, 0⟩ := by
  refine ⟨⟨?_, ?_, ?_⟩, ?_, ?_, rfl⟩
  · exact fun k f h => nomatch h
  · exact fun k r h => nomatch h
  · exact fun b known h => nomatch h
  · funext key
    rfl
  · rw [hobservations]
    rfl

/-- The tables of a database that is filled are those of the occurrences. -/
theorem fillDatabase_spec {registry : Registry} {request : Request} {raws : List Json.Fields} {db : Database}
    (h : fillDatabase registry request raws = .ok db) :
    ∃ lane rows, findLane registry request.laneId = .ok lane ∧ raws.mapM (validateOccurrence lane) = .ok rows ∧
      joined db = rows.map (withUrl (firstUrl rows)) ∧ db.generation.signatureRecords = raws.length := by
  simp only [fillDatabase, bind_eq_ok, require_eq_ok, pure_eq_ok] at h
  obtain ⟨⟨lane, generation⟩, hopened, db₀, hregistry, st, hrun, _, -, rfl⟩ := h
  have hlane : findLane registry request.laneId = .ok lane := by
    simp only [openGeneration, bind_eq_ok, pure_eq_ok] at hopened
    obtain ⟨_, -, _, -, _, -, _, -, _, -, lane', hlane, _, -, hpair⟩ := hopened
    cases hpair
    exact hlane
  have hempty : db₀.observations = Dict.empty := by
    simp only [insertRegistry, bind_eq_ok, pure_eq_ok] at hregistry
    obtain ⟨_, -, _, -, _, -, rfl⟩ := hregistry
    rfl
  obtain ⟨rows, hrows, hholds⟩ := addOccurrences_holds (holds_empty db₀ hempty) hrun
  rw [List.nil_append] at hholds
  refine ⟨lane, rows, hlane, hrows, joined_of_holds hholds, ?_⟩
  have hlength : rows.length = raws.length := (mapM_eq_ok hrows).length_eq.symm
  exact hholds.records.trans hlength

/-- The published rows join to the validated occurrences, and their number is recorded. -/
def Preserves (registry : Registry) (request : Request) (raws : List Json.Fields) (after : Option Entry)
    (report : Report) : Prop :=
  ∃ db lane rows, after = some (.published db) ∧ findLane registry request.laneId = .ok lane ∧
    raws.mapM (validateOccurrence lane) = .ok rows ∧ (joined db).Perm rows ∧
    report.generation.signatureRecords = raws.length

/-- Every two occurrences of one library, language, version and source digest give one source URL. -/
def OneUrlPerRelease (registry : Registry) (request : Request) (raws : List Json.Fields) : Prop :=
  ∀ lane rows, findLane registry request.laneId = .ok lane → raws.mapM (validateOccurrence lane) = .ok rows →
    SourcesAgree rows

section Mirrors

def hexDigest : String := String.ofList (List.replicate 64 'a')

def mirrorLane : Lane :=
  ⟨"linux", "Linux", "active", [⟨"linux-x86_64", "x86_64-linux", "ghidra-12",
    ⟨"linux", "x86_64", "x86-64", "elf", "little", 64⟩, "mapped", ["x86:LE:64:default"], ["gcc"]⟩]⟩

def mirrorRegistry : Registry := ⟨[⟨"ghidra-12", "12.0", "PUBLIC", "20260101", "default", "fid-v1"⟩], [mirrorLane]⟩

def mirrorRequest : Request :=
  ⟨"linux", "g1", hexDigest, "run-1", hexDigest, "signature-ledger-only", "2026-01-01T00:00:00+00:00"⟩

def mirrorOccurrence (url functionName : String) : Json.Fields :=
  [("sublane_id", .str "linux-x86_64"), ("library", .str "zlib"), ("library_version", .str "1.3.1"),
    ("source_language", .str "c"), ("source_url", .str url), ("source_sha256", .str hexDigest),
    ("build_id", .str "zlib-gcc-o2"), ("route_id", .str "linux-gcc"), ("compiler_family", .str "gcc"),
    ("compiler_version", .str "13.2"), ("compiler_sha256", .null), ("treatment_id", .str "o2"),
    ("build_manifest_sha256", .str hexDigest), ("ghidra_language_id", .str "x86:LE:64:default"),
    ("ghidra_compiler_spec_id", .str "gcc"), ("domain_path", .str "/zlib/inflate.o"),
    ("function_name", .str functionName), ("full_hash", .str "0123456789abcdef"),
    ("specific_hash", .str "fedcba9876543210"), ("specific_hash_additional_size", .int 4), ("code_unit_size", .int 21)]

/-- Two functions of one release, whose archive was fetched from two mirrors. -/
def mirrorOccurrences : List Json.Fields :=
  [mirrorOccurrence "https://zlib.net/zlib.tar.gz" "inflate",
    mirrorOccurrence "https://github.com/madler/zlib.tar.gz" "deflate"]

def publishedUrls (after : Option Entry) : List String :=
  match after with
  | some (.published db) => (joined db).map Occurrence.sourceUrl
  | _ => []

def validatedUrls (registry : Registry) (request : Request) (raws : List Json.Fields) : List String :=
  match findLane registry request.laneId with
  | .error _ => []
  | .ok lane =>
    match raws.mapM (validateOccurrence lane) with
    | .error _ => []
    | .ok rows => rows.map Occurrence.sourceUrl

end Mirrors

end FidbPoc.Lanes
