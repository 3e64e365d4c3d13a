import FidbPoc.Sources.Acquisition

namespace FidbPoc.Sources

open FidbPoc.Lib FidbPoc.Lib.Checked

section Totals

variable {pairs : List (String × Nat)} {size : String → Nat}

/-- The rows of a digest agree on its bytes, and each digest is counted once. -/
theorem sumByDigest_eq (h : ∀ p ∈ pairs, p.2 = size p.1) :
    sumByDigest pairs = ((pairs.map Prod.fst).dedup.map size).sum := by
  have hentries : ∀ e ∈ (Dict.ofList pairs).entries, e.2 = size e.1 := by
    induction pairs using List.reverseRecOn with
    | nil => intro e he; cases he
    | append_singleton pairs p ih =>
      have hfold : Dict.ofList (pairs ++ [p]) = (Dict.ofList pairs).set p.1 p.2 := List.foldl_concat ..
      have hpairs := ih fun q hq => h q (List.mem_append_left _ hq)
      intro e he
      rw [hfold, ← Dict.get?_eq_some_iff, Dict.get?_set] at he
      split at he
      · rename_i hkey
        rw [hkey, ← Option.some.inj he]
        exact h p (by simp)
      · exact hpairs e (Dict.get?_eq_some_iff.mp he)
  have hvalues : (Dict.ofList pairs).values = ((Dict.ofList pairs).entries.map Prod.fst).map size := by
    rw [Dict.values, List.map_map]
    exact List.map_congr_left hentries
  have hkeys : ((Dict.ofList pairs).entries.map Prod.fst).Perm (pairs.map Prod.fst).dedup := by
    refine (List.perm_ext_iff_of_nodup (Dict.ofList pairs).nodup (List.nodup_dedup _)).mpr fun k => ?_
    rw [Dict.mem_keys_ofList, List.mem_dedup]
  rw [sumByDigest, hvalues]
  exact (hkeys.map size).sum_eq

end Totals

/-- The header of a receipt says what its rows are. -/
structure Describes (receipt : Receipt) : Prop where
  verified : receipt.summary.verifiedCached = receipt.sources.length
  missing : receipt.summary.missingOrBroken = (receipt.summary.pinned : Int) - receipt.summary.verifiedCached
  nonneg : 0 ≤ receipt.summary.missingOrBroken
  observed : receipt.summary.observedCachedBytes = (receipt.sources.map SourceRow.bytes).sum
  unique : ∃ size : String → Nat, (∀ row ∈ receipt.sources, row.bytes = size row.sha256) ∧
    receipt.summary.uniqueObservedCachedBytes = ((receipt.sources.map SourceRow.sha256).dedup.map size).sum

section Holding

variable {γ : Type} (hashing : Hashing γ)

def Verified (cache : Cache γ) (digest : String) : Prop := (inspectCached hashing cache digest).state = .verifiedCached

instance (cache : Cache γ) (digest : String) : Decidable (Verified hashing cache digest) :=
  inferInstanceAs (Decidable (_ = _))

def sizeOf (cache : Cache γ) (digest : String) : Nat := (inspectCached hashing cache digest).bytes.getD 0

/-- The row is that of a pin whose object lies verified in the cache. -/
def Backed (cache : Cache γ) (pins : List Pin) (row : SourceRow) : Prop :=
  ∃ pin ∈ pins, pin.candidateKey = row.candidateKey ∧ row.sha256 = pin.sha256 ∧
    row.bytes = sizeOf hashing cache pin.sha256 ∧ Verified hashing cache pin.sha256

variable {hashing} {lock : Lock} {cache : Cache γ} {rows : List Candidate} {pins : List Pin}
  {records : Dict String SourceRow} {summary : Summary}

theorem insertionSort_rank_perm (sources : List SourceRow) :
    (sources.insertionSort fun row row' => row.rank ≤ row'.rank).Perm sources :=
  List.perm_insertionSort _ _

theorem Backed.bytes_eq {row : SourceRow} (h : Backed hashing cache pins row) :
    row.bytes = sizeOf hashing cache row.sha256 := by
  obtain ⟨pin, -, -, hsha256, hbytes, -⟩ := h
  rw [hsha256, hbytes]

/-- The totals over records that are backed by the cache. -/
theorem describes_of_backed {failures : List Failure} {created now : String}
    (hrows : ∀ row ∈ records.values, Backed hashing cache pins row)
    (hverified : summary.verifiedCached = records.values.length)
    (hmissing : summary.missingOrBroken = (summary.pinned : Int) - summary.verifiedCached)
    (hle : records.values.length ≤ summary.pinned)
    (hobserved : summary.observedCachedBytes = (records.values.map SourceRow.bytes).sum)
    (hunique : summary.uniqueObservedCachedBytes = sumByDigest (records.values.map fun row => (row.sha256, row.bytes))) :
    Describes (renderReceipt lock summary failures records.values created now) := by
  have hperm := insertionSort_rank_perm records.values
  refine ⟨?_, hmissing, ?_, ?_, sizeOf hashing cache, fun row hrow => ?_, ?_⟩
  · exact hverified.trans hperm.length_eq.symm
  · change 0 ≤ summary.missingOrBroken
    omega
  · exact hobserved.trans (hperm.map SourceRow.bytes).sum_eq.symm
  · exact (hrows row (hperm.mem_iff.mp hrow)).bytes_eq
  · have hsize : ∀ p ∈ records.values.map fun row => (row.sha256, row.bytes), p.2 = sizeOf hashing cache p.1 := by
      rintro _ hp
      obtain ⟨row, hrow, rfl⟩ := List.mem_map.mp hp
      exact (hrows row hrow).bytes_eq
    refine hunique.trans ((sumByDigest_eq hsize).trans ?_)
    rw [List.map_map]
    exact (((hperm.map SourceRow.sha256).dedup).map _).sum_eq.symm

/-- Records under distinct keys, each backed by the cache, are no more than the pins. -/
theorem records_length_le (hkeyed : records.KeyedBy SourceRow.candidateKey)
    (hrows : ∀ row ∈ records.values, Backed hashing cache pins row) : records.values.length ≤ pins.length := by
  have hsubset : records.values.map SourceRow.candidateKey ⊆ pins.map Pin.candidateKey := by
    intro key hkey
    obtain ⟨row, hrow, rfl⟩ := List.mem_map.mp hkey
    obtain ⟨pin, hpin, hpinKey, -⟩ := hrows row hrow
    exact hpinKey ▸ List.mem_map_of_mem hpin
  simpa using (hkeyed.nodup_values.subperm hsubset).length_le

/-- If every verified pin has a record, the digests of the records are those of the verified pins. -/
theorem digests_perm (hkeyed : records.KeyedBy SourceRow.candidateKey) (hnodup : (pins.map Pin.candidateKey).Nodup)
    (hrows : ∀ row ∈ records.values, Backed hashing cache pins row)
    (hrecorded : ∀ pin ∈ pins, Verified hashing cache pin.sha256 → ∃ row, records.get? pin.candidateKey = some row) :
    (records.values.map SourceRow.sha256).Perm
      ((pins.filter fun pin => Verified hashing cache pin.sha256).map Pin.sha256) := by
  have hleft : (records.values.map fun row => (row.candidateKey, row.sha256)).Nodup := by
    refine List.Nodup.of_map Prod.fst ?_
    rw [List.map_map]
    exact hkeyed.nodup_values
  have hright : ((pins.filter fun pin => Verified hashing cache pin.sha256).map fun pin =>
      (pin.candidateKey, pin.sha256)).Nodup := by
    refine List.Nodup.of_map Prod.fst ?_
    rw [List.map_map]
    exact hnodup.sublist (List.filter_sublist.map _)
  have hperm := (List.perm_ext_iff_of_nodup hleft hright).mpr fun p => ?_
  · have := hperm.map Prod.snd
    rwa [List.map_map, List.map_map] at this
  · constructor
    · intro hp
      obtain ⟨row, hrow, rfl⟩ := List.mem_map.mp hp
      obtain ⟨pin, hpin, hkey, hsha256, -, hverified⟩ := hrows row hrow
      exact List.mem_map.mpr ⟨pin, List.mem_filter.mpr ⟨hpin, by simpa using hverified⟩, by rw [hkey, hsha256]⟩
    · intro hp
      obtain ⟨pin, hmem, rfl⟩ := List.mem_map.mp hp
      obtain ⟨hpin, hverified⟩ := List.mem_filter.mp hmem
      obtain ⟨row, hrow⟩ := hrecorded pin hpin (by simpa using hverified)
      have hvalue : row ∈ records.values := Dict.mem_values.mpr ⟨_, hrow⟩
      have hkey : row.candidateKey = pin.candidateKey := hkeyed _ _ hrow
      obtain ⟨pin', hpin', hkey', hsha256, -⟩ := hrows row hvalue
      have hsame : pin' = pin := List.inj_on_of_nodup_map hnodup hpin' hpin (hkey'.trans hkey)
      exact List.mem_map.mpr ⟨row, hvalue, by rw [hkey, hsha256, hsame]⟩

/-- A status over the pins of the rows, when all that is not verified has no bytes. -/
theorem describes_of_status {failures : List Failure} {created now : String}
    (hkeyed : records.KeyedBy SourceRow.candidateKey) (hnodup : ((pinsOf rows).map Pin.candidateKey).Nodup)
    (hrows : ∀ row ∈ records.values, Backed hashing cache (pinsOf rows) row)
    (hrecorded : ∀ pin ∈ pinsOf rows, Verified hashing cache pin.sha256 → ∃ row, records.get? pin.candidateKey = some row)
    (hempty : ∀ pin ∈ pinsOf rows, Verified hashing cache pin.sha256 ∨ sizeOf hashing cache pin.sha256 = 0) :
    Describes (renderReceipt lock (acquisitionStatus hashing cache rows) failures records.values created now) := by
  have hperm := digests_perm hkeyed hnodup hrows hrecorded
  have hlength := hperm.length_eq
  rw [List.length_map, List.length_map] at hlength
  have hbytes : records.values.map SourceRow.bytes =
      (records.values.map SourceRow.sha256).map (sizeOf hashing cache) := by
    rw [List.map_map]
    exact List.map_congr_left fun row hrow => (hrows row hrow).bytes_eq
  refine describes_of_backed hrows hlength.symm rfl (records_length_le hkeyed hrows) ?_ ?_
  · have hsum : ∀ pins : List Pin, (∀ pin ∈ pins, Verified hashing cache pin.sha256 ∨ sizeOf hashing cache pin.sha256 = 0) →
        (pins.map fun pin => sizeOf hashing cache pin.sha256).sum =
          ((pins.filter fun pin => Verified hashing cache pin.sha256).map fun pin => sizeOf hashing cache pin.sha256).sum := by
      intro pins hpins
      induction pins with
      | nil => rfl
      | cons pin rest ih =>
        have hrest := ih fun p hp => hpins p (List.mem_cons_of_mem _ hp)
        by_cases hverified : Verified hashing cache pin.sha256
        · simp [hverified, hrest]
        · have hzero := (hpins pin List.mem_cons_self).resolve_left hverified
          simp [hverified, hrest, hzero]
    have htotal := hsum _ hempty
    rw [hbytes, (hperm.map (sizeOf hashing cache)).sum_eq, List.map_map]
    exact htotal
  · have hcached : ∀ p ∈ ((pinsOf rows).filter fun pin => Verified hashing cache pin.sha256).map fun pin =>
        (pin.sha256, sizeOf hashing cache pin.sha256), p.2 = sizeOf hashing cache p.1 := by
      intro p hp
      obtain ⟨pin, -, rfl⟩ := List.mem_map.mp hp
      rfl
    have hrecords : ∀ p ∈ records.values.map fun row => (row.sha256, row.bytes), p.2 = sizeOf hashing cache p.1 := by
      intro p hp
      obtain ⟨row, hrow, rfl⟩ := List.mem_map.mp hp
      exact (hrows row hrow).bytes_eq
    have hstatus := sumByDigest_eq hcached
    rw [List.map_map] at hstatus
    rw [sumByDigest_eq hrecords, List.map_map]
    exact hstatus.trans ((hperm.dedup.map _).sum_eq).symm

end Holding

section Selecting

variable {lock : Lock} {requested : List String} {rows : List Candidate}

theorem keys_pinsOf_sublist (rows : List Candidate) :
    ((pinsOf rows).map Pin.candidateKey).Sublist (rows.map Candidate.candidateKey) := by
  induction rows with
  | nil => exact .slnil
  | cons row rest ih =>
    cases row with
    | pinned pin => exact ih.cons_cons _
    | unresolved rank key => exact ih.cons _

theorem selectRows_keys (h : selectRows lock requested = .ok rows) : (rows.map Candidate.candidateKey).Nodup := by
  unfold selectRows at h
  by_cases hnil : requested = []
  · rw [if_pos hnil, pure_eq_ok] at h
    exact h ▸ lock.keys
  · rw [if_neg hnil] at h
    simp only [bind_eq_ok, pure_eq_ok, require_eq_ok] at h
    obtain ⟨-, hnodup, -, -, rfl⟩ := h
    rw [List.map_filterMap]
    refine hnodup.filterMap fun a b key ha hb => ?_
    obtain ⟨row, hrow, rfl⟩ := Option.map_eq_some_iff.mp ha
    obtain ⟨row', hrow', hkey⟩ := Option.map_eq_some_iff.mp hb
    have hfirst : row.candidateKey = a := by simpa using List.find?_some hrow
    have hsecond : row'.candidateKey = b := by simpa using List.find?_some hrow'
    rw [← hfirst, ← hsecond, hkey]

theorem selectRows_subset (h : selectRows lock requested = .ok rows) : rows ⊆ lock.candidates := by
  unfold selectRows at h
  by_cases hnil : requested = []
  · rw [if_pos hnil, pure_eq_ok] at h
    exact h ▸ fun _ => id
  · rw [if_neg hnil] at h
    simp only [bind_eq_ok, pure_eq_ok, require_eq_ok] at h
    obtain ⟨-, -, -, -, rfl⟩ := h
    intro row hrow
    obtain ⟨key, -, hfind⟩ := List.mem_filterMap.mp hrow
    exact List.mem_of_find?_eq_some hfind

theorem mem_pinsOf {pin : Pin} : pin ∈ pinsOf rows ↔ .pinned pin ∈ rows := by
  constructor
  · intro h
    obtain ⟨row, hrow, hpin⟩ := List.mem_filterMap.mp h
    cases row with
    | pinned p => exact Option.some.inj hpin ▸ hrow
    | unresolved rank key => cases hpin
  · exact fun h => List.mem_filterMap.mpr ⟨_, h, rfl⟩

end Selecting

section Refreshing

variable {γ : Type} {hashing : Hashing γ} {lock : Lock} {cache : Cache γ} {startedUtc : String} {pins : List Pin}
  {records : Dict String SourceRow}

/-- The loop over the verified pins writes the row of each of them, and leaves the other records. -/
theorem get?_refreshed (hnodup : (pins.map Pin.candidateKey).Nodup) (key : String) :
    (pins.foldl (refreshRecord hashing lock cache startedUtc) records).get? key =
      match pins.find? fun pin => pin.candidateKey = key with
      | some pin => some (refreshedRow hashing lock cache startedUtc (records.get? key) pin)
      | none => records.get? key := by
  induction pins generalizing records with
  | nil => rfl
  | cons pin rest ih =>
    rw [List.map_cons, List.nodup_cons] at hnodup
    rw [List.foldl_cons, ih hnodup.2, List.find?_cons]
    by_cases hkey : pin.candidateKey = key
    · have hrest : rest.find? (fun pin => pin.candidateKey = key) = none := by
        rw [List.find?_eq_none]
        intro other hother heq
        exact hnodup.1 (List.mem_map.mpr ⟨other, hother, (of_decide_eq_true heq).trans hkey.symm⟩)
      simp only [hrest, hkey, decide_true]
      rw [refreshRecord, hkey, Dict.get?_set_self]
    · have hsame : (refreshRecord hashing lock cache startedUtc records pin).get? key = records.get? key := by
        rw [refreshRecord, Dict.get?_set, if_neg (Ne.symm hkey)]
      simp only [hkey, decide_false, hsame]

theorem keyedBy_refreshed (h : records.KeyedBy SourceRow.candidateKey) :
    (pins.foldl (refreshRecord hashing lock cache startedUtc) records).KeyedBy SourceRow.candidateKey := by
  induction pins generalizing records with
  | nil => exact h
  | cons pin rest ih => exact ih (h.set rfl)

theorem get?_sources {sources : List SourceRow} {key : String} {row : SourceRow}
    (h : (Dict.ofList (sources.map fun row => (row.candidateKey, row))).get? key = some row) :
    row ∈ sources ∧ row.candidateKey = key := by
  induction sources using List.reverseRecOn with
  | nil => cases h
  | append_singleton sources last ih =>
    have hfold : Dict.ofList ((sources ++ [last]).map fun row => (row.candidateKey, row)) =
        (Dict.ofList (sources.map fun row => (row.candidateKey, row))).set last.candidateKey last := by
      rw [List.map_append]
      exact List.foldl_concat ..
    rw [hfold, Dict.get?_set] at h
    split at h
    · rename_i hkey
      rw [← Option.some.inj h]
      exact ⟨by simp, hkey.symm⟩
    · exact ⟨List.mem_append_left _ (ih h).1, (ih h).2⟩

theorem keyedBy_sources (sources : List SourceRow) :
    (Dict.ofList (sources.map fun row => (row.candidateKey, row))).KeyedBy SourceRow.candidateKey :=
  fun _ _ h => (get?_sources h).2

end Refreshing

section Acquisitions

variable {γ : Type} {hashing : Hashing γ} {lock : Lock} {cache : Cache γ} {pin : Pin} {fetch : Fetch γ}

theorem inspectCached_file {content : γ} {digest : String} (h : cache digest = .file content) :
    inspectCached hashing cache digest =
      ⟨if hashing.sha256 content = digest then .verifiedCached else .broken, some (hashing.bytes content)⟩ := by
  rw [inspectCached, h]

theorem verified_iff {digest : String} :
    Verified hashing cache digest ↔ ∃ content, cache digest = .file content ∧ hashing.sha256 content = digest := by
  unfold Verified inspectCached
  cases cache digest with
  | missing => simp
  | special => simp
  | file content => simp

theorem download_eq_ok {url digest : String} {responses : List (Response γ)} {content : γ}
    (h : download hashing lock url digest responses = .ok content) :
    hashing.sha256 content = digest ∧ .received content ∈ responses := by
  induction responses with
  | nil => cases h
  | cons response rest ih =>
    cases response with
    | failed => exact ⟨(ih h).1, List.mem_cons_of_mem _ (ih h).2⟩
    | received c =>
      rw [download] at h
      split at h
      · exact ⟨(ih h).1, List.mem_cons_of_mem _ (ih h).2⟩
      · split at h
        · rename_i hsha256
          cases h
          exact ⟨hsha256, List.mem_cons_self⟩
        · cases h

/-- What one acquisition does to the cache, and what its result says. -/
structure Acquires (hashing : Hashing γ) (cache : Cache γ) (pin : Pin) (fetch : Fetch γ) (cache' : Cache γ)
    (result : Result Acquired) : Prop where
  others : ∀ digest, digest ≠ pin.sha256 → cache' digest = cache digest
  kept : Verified hashing cache pin.sha256 → cache' = cache
  verified : ∀ acquired, result = .ok acquired → Verified hashing cache' pin.sha256
  bytes : ∀ acquired, result = .ok acquired → acquired.bytes = sizeOf hashing cache' pin.sha256
  downloaded : ∀ acquired, result = .ok acquired → ¬Verified hashing cache pin.sha256 → acquired.cacheHit = false
  delivered : ¬Verified hashing cache pin.sha256 → ∀ content, cache' pin.sha256 = .file content →
    hashing.sha256 content = pin.sha256 → fetch.Delivers content

theorem acquirePinned_acquires : Acquires hashing cache pin fetch (acquirePinned hashing lock cache pin fetch).1
    (acquirePinned hashing lock cache pin fetch).2 := by
  cases fetch with
  | unavailable error =>
    refine ⟨fun _ _ => rfl, fun _ => rfl, fun _ h => (by cases h), fun _ h => (by cases h), fun _ h => (by cases h),
      fun hn content hfile hsha256 => ?_⟩
    exact absurd (verified_iff.mpr ⟨content, hfile, hsha256⟩) hn
  | responses list =>
    by_cases hverified : Verified hashing cache pin.sha256
    · have hcached : acquirePinned hashing lock cache pin (.responses list) =
          (cache, .ok ⟨sizeOf hashing cache pin.sha256, true⟩) := if_pos hverified
      rw [hcached]
      refine ⟨fun _ _ => rfl, fun _ => rfl, fun _ _ => hverified, fun acquired h => ?_, fun _ _ hn => absurd hverified hn,
        fun hn => absurd hverified hn⟩
      rw [← Except.ok.inj h]
    · cases hdownload : download hashing lock pin.url pin.sha256 (list.take acquisitionAttempts) with
      | error error =>
        have hfetched : acquirePinned hashing lock cache pin (.responses list) =
            (Function.update cache pin.sha256 .missing, .error error) := by
          refine (if_neg hverified).trans ?_
          rw [hdownload]
        rw [hfetched]
        refine ⟨fun _ h => Function.update_of_ne h _ _, fun h => absurd h hverified, fun _ h => (by cases h),
          fun _ h => (by cases h), fun _ h => (by cases h), fun _ content hfile _ => ?_⟩
        have hmissing : Function.update cache pin.sha256 .missing pin.sha256 = (.missing : Object γ) := Function.update_self ..
        cases hmissing.symm.trans hfile
      | ok content =>
        have hfetched : acquirePinned hashing lock cache pin (.responses list) =
            (Function.update cache pin.sha256 (.file content), .ok ⟨hashing.bytes content, false⟩) := by
          refine (if_neg hverified).trans ?_
          rw [hdownload]
        rw [hfetched]
        have hfile : Function.update cache pin.sha256 (.file content) pin.sha256 = .file content := Function.update_self ..
        refine ⟨fun _ h => Function.update_of_ne h _ _, fun h => absurd h hverified, fun _ _ => ?_, fun acquired h => ?_,
          fun acquired h _ => ?_, fun _ content' hfile' _ => ?_⟩
        · exact verified_iff.mpr ⟨content, hfile, (download_eq_ok hdownload).1⟩
        · rw [← Except.ok.inj h, sizeOf, inspectCached_file hfile, Option.getD_some]
        · rw [← Except.ok.inj h]
        · cases hfile.symm.trans hfile'
          exact List.mem_of_mem_take (download_eq_ok hdownload).2

theorem acquire_acquires : Acquires hashing cache pin fetch (acquire hashing lock cache pin fetch).1
    (acquire hashing lock cache pin fetch).2 := by
  have h := @acquirePinned_acquires γ hashing lock cache pin fetch
  have hresult : ∀ acquired, (acquire hashing lock cache pin fetch).2 = .ok acquired →
      (acquirePinned hashing lock cache pin fetch).2 = .ok acquired := by
    intro acquired hacquired
    simp only [acquire, bind_eq_ok, require_eq_ok, pure_eq_ok] at hacquired
    obtain ⟨_, hpinned, -, -, rfl⟩ := hacquired
    exact hpinned
  exact ⟨h.others, h.kept, fun a ha => h.verified a (hresult a ha), fun a ha => h.bytes a (hresult a ha),
    fun a ha => h.downloaded a (hresult a ha), h.delivered⟩

variable {cache' : Cache γ} {result : Result Acquired} {digest : String}

/-- An acquisition leaves verified objects alone. -/
theorem Acquires.keeps (h : Acquires hashing cache pin fetch cache' result) (hverified : Verified hashing cache digest) :
    cache' digest = cache digest := by
  by_cases hdigest : digest = pin.sha256
  · rw [h.kept (hdigest ▸ hverified)]
  · exact h.others digest hdigest

theorem inspectCached_congr (h : cache' digest = cache digest) :
    inspectCached hashing cache' digest = inspectCached hashing cache digest := by
  rw [inspectCached, inspectCached, h]

theorem Verified.congr (hverified : Verified hashing cache digest) (h : cache' digest = cache digest) :
    Verified hashing cache' digest := by
  rw [Verified, inspectCached_congr h]
  exact hverified

theorem sizeOf_congr (h : cache' digest = cache digest) : sizeOf hashing cache' digest = sizeOf hashing cache digest := by
  rw [sizeOf, sizeOf, inspectCached_congr h]

theorem Backed.acquire {pins : List Pin} {row : SourceRow} (h : Backed hashing cache pins row)
    (hacquires : Acquires hashing cache pin fetch cache' result) : Backed hashing cache' pins row := by
  obtain ⟨p, hp, hkey, hsha256, hbytes, hverified⟩ := h
  have hkeeps := hacquires.keeps hverified
  exact ⟨p, hp, hkey, hsha256, hbytes.trans (sizeOf_congr hkeeps).symm, hverified.congr hkeeps⟩

end Acquisitions

end FidbPoc.Sources
