import FidbPoc.Sources.Pulls

namespace FidbPoc.Sources

open FidbPoc.Lib FidbPoc.Lib.Checked

/-- A row without its time stamps. -/
def SourceRow.timeless (row : SourceRow) : SourceRow :=
  { row with firstObservedUtc := "", downloadedUtc := "", lastVerifiedUtc := "" }

def Receipt.timeless (receipt : Receipt) : Receipt :=
  { receipt with createdUtc := "", updatedUtc := "", sources := receipt.sources.map SourceRow.timeless }

section Pulls

variable {γ : Type} (hashing : Hashing γ) (lock : Lock) (payload : Pin → γ)

def Op.IsDownload : Op γ → Prop
  | .acquire _ _ => True
  | .complete _ _ _ => True
  | _ => False

/-- The one content with the digest of the pin that its URL serves is its payload. -/
def Serves (pin : Pin) (fetch : Fetch γ) : Prop :=
  ∀ content, fetch.Delivers content → hashing.sha256 content = pin.sha256 → content = payload pin

/-- A pull from its start to its end in which no download fails, whatever the order in which they complete. -/
def PullsThrough (requested : List String) (s t : System γ) : Prop :=
  ∃ workers now startedUtc updatedUtc begun trace last finishedUtc,
    Next hashing lock s (.start requested workers now startedUtc updatedUtc) begun ∧
    Run (Next hashing lock) begun trace last ∧ (∀ st ∈ trace, st.op.IsDownload) ∧
    (∀ st ∈ trace, ∀ pin fetch, st.op = .acquire pin fetch → Serves hashing payload pin fetch) ∧
    Next hashing lock last (.finish finishedUtc) t ∧ ∀ pull, last.pull = some pull → pull.failures = []

/-- What the row of a downloaded pin says. -/
def downloadedRow (pin : Pin) (bytes : Nat) : SourceRow := sourceRow lock pin bytes "downloaded" "" "" ""

/-- How far a pull has come from where it began. -/
structure Toward (found : Cache γ) (begun : Pulling) (cache : Cache γ) (pull : Pulling) : Prop where
  rows : pull.rows = begun.rows
  historical : pull.historicalFailures = begun.historicalFailures
  kept : ∀ digest, Verified hashing found digest → cache digest = found digest
  others : ∀ key, (∀ pin ∈ begun.waiting, pin.candidateKey ≠ key) →
    pull.receiptRecords.get? key = begun.receiptRecords.get? key
  waiting : pull.waiting.Sublist begun.waiting
  absent : ∀ pin ∈ pull.waiting, ¬Verified hashing cache pin.sha256
  resolved : ∀ entry ∈ pull.resolved, entry.1 ∈ begun.waiting ∧ ∀ acquired, entry.2 = .ok acquired →
    acquired.cacheHit = false ∧ Verified hashing cache entry.1.sha256 ∧ acquired.bytes = sizeOf hashing cache entry.1.sha256
  done : ∀ pin ∈ begun.waiting, pin ∈ pull.waiting ∨ pin ∈ pull.resolved.map Prod.fst ∨ pull.failures ≠ [] ∨
    (Verified hashing cache pin.sha256 ∧ ∃ row, pull.receiptRecords.get? pin.candidateKey = some row ∧
      row.timeless = downloadedRow lock pin (sizeOf hashing cache pin.sha256))
  content : ∀ pin ∈ begun.waiting, pin ∈ pull.waiting ∨ ∀ content, cache pin.sha256 = .file content →
    hashing.sha256 content = pin.sha256 → content = payload pin

end Pulls

section Steps

variable {γ : Type} {hashing : Hashing γ} {lock : Lock} {payload : Pin → γ} {found cache cache' : Cache γ} {begun pull : Pulling} {pin : Pin}
  {fetch : Fetch γ}  {result : Result Acquired}

theorem acquiredRow_timeless {observedUtc : String} {existing : Option SourceRow} {acquired : Acquired}
    (h : acquired.cacheHit = false) :
    (acquiredRow lock observedUtc existing pin acquired).timeless = downloadedRow lock pin acquired.bytes := by
  simp [acquiredRow, SourceRow.timeless, sourceRow, downloadedRow, h]

theorem Toward.acquire {earlier later : List Pin} (h : Toward hashing lock payload found begun cache pull)
    (hdistinct : (begun.waiting.map Pin.sha256).Nodup) (hwaiting : pull.waiting = earlier ++ pin :: later)
    (hacquires : Acquires hashing cache pin fetch cache' result) (hserves : Serves hashing payload pin fetch) :
    Toward hashing lock payload found begun cache'
      { pull with waiting := earlier ++ later, resolved := (pin, result) :: pull.resolved } := by
  have hpin : pin ∈ pull.waiting := by simp [hwaiting]
  have hrest : (earlier ++ later).Sublist pull.waiting := by
    rw [hwaiting]
    exact (List.Sublist.refl earlier).append (List.sublist_cons_self pin later)
  have hnodup := hdistinct.sublist (h.waiting.map Pin.sha256)
  refine ⟨h.rows, h.historical, fun digest hverified => ?_, h.others, hrest.trans h.waiting, fun p hp => ?_,
    fun entry hentry => ?_, fun p hp => ?_, fun p hp => ?_⟩
  · have hkept := h.kept digest hverified
    exact (hacquires.keeps (hverified.congr hkept)).trans hkept
  · -- The other waiting pins have other digests.
    have hne : p.sha256 ≠ pin.sha256 := by
      intro heq
      have hsame : p = pin := List.inj_on_of_nodup_map hnodup (hrest.subset hp) hpin heq
      rw [hwaiting, List.map_append, List.map_cons, List.nodup_middle, List.nodup_cons] at hnodup
      exact hnodup.1 (by rw [← List.map_append, ← hsame]; exact List.mem_map_of_mem hp)
    rw [Verified, inspectCached_congr (hacquires.others _ hne)]
    exact h.absent p (hrest.subset hp)
  · obtain rfl | hentry := List.mem_cons.mp hentry
    · refine ⟨h.waiting.subset hpin, fun acquired hok => ?_⟩
      exact ⟨hacquires.downloaded acquired hok (h.absent pin hpin), hacquires.verified acquired hok,
        hacquires.bytes acquired hok⟩
    · obtain ⟨hmem, hok⟩ := h.resolved entry hentry
      refine ⟨hmem, fun acquired ha => ?_⟩
      obtain ⟨hhit, hverified, hbytes⟩ := hok acquired ha
      have hkeeps := hacquires.keeps hverified
      exact ⟨hhit, hverified.congr hkeeps, hbytes.trans (sizeOf_congr hkeeps).symm⟩
  · obtain hp | hp | hfailed | ⟨hverified, row, hrow, htimeless⟩ := h.done p hp
    · rw [hwaiting] at hp
      simp only [List.mem_append, List.mem_cons] at hp
      obtain hp | rfl | hp := hp
      · exact .inl (List.mem_append_left _ hp)
      · exact .inr (.inl (by simp))
      · exact .inl (List.mem_append_right _ hp)
    · exact .inr (.inl (List.mem_cons_of_mem _ hp))
    · exact .inr (.inr (.inl hfailed))
    · have hkeeps := hacquires.keeps hverified
      refine .inr (.inr (.inr ⟨hverified.congr hkeeps, row, hrow, ?_⟩))
      rw [sizeOf_congr hkeeps, htimeless]
  · by_cases hsame : p = pin
    · subst hsame
      exact .inr fun content hfile hsha256 =>
        hserves content (hacquires.delivered (h.absent p hpin) content hfile hsha256) hsha256
    · have hne : p.sha256 ≠ pin.sha256 :=
        fun heq => hsame (List.inj_on_of_nodup_map hdistinct hp (h.waiting.subset hpin) heq)
      obtain hp | hcontent := h.content p hp
      · rw [hwaiting] at hp
        simp only [List.mem_append, List.mem_cons] at hp
        exact .inl (List.mem_append.mpr (hp.imp id fun hp => hp.resolve_left hsame))
      · refine .inr fun content hfile hsha256 => hcontent content ?_ hsha256
        rw [← hacquires.others _ hne]
        exact hfile

theorem Toward.complete {earlier later : List (Pin × Result Acquired)} {observedUtc : String}
    (h : Toward hashing lock payload found begun cache pull) (hkeys : (begun.waiting.map Pin.candidateKey).Nodup)
    (hresolved : pull.resolved = earlier ++ (pin, result) :: later) :
    Toward hashing lock payload found begun cache
      (completeRow lock { pull with resolved := earlier ++ later } pin result observedUtc) := by
  have hrest : ∀ entry ∈ earlier ++ later, entry ∈ pull.resolved := by
    intro entry hentry
    rw [hresolved]
    simp only [List.mem_append, List.mem_cons] at hentry ⊢
    exact hentry.imp id .inr
  have hothers : ∀ p ∈ pull.resolved.map Prod.fst, p = pin ∨ p ∈ (earlier ++ later).map Prod.fst := by
    intro p hp
    rw [hresolved] at hp
    simp only [List.map_append, List.map_cons, List.mem_append, List.mem_cons] at hp ⊢
    obtain hp | hp | hp := hp
    · exact .inr (.inl hp)
    · exact .inl hp
    · exact .inr (.inr hp)
  obtain ⟨hpin, hok⟩ := h.resolved (pin, result) (by simp [hresolved])
  cases result with
  | error error =>
    have hfailed : pull.failures ++ [⟨pin.candidateKey, error.kind, error.message, observedUtc⟩] ≠ [] := by simp
    exact ⟨h.rows, h.historical, h.kept, h.others, h.waiting, h.absent, fun entry he => h.resolved entry (hrest entry he),
      fun p hp => .inr (.inr (.inl hfailed)), h.content⟩
  | ok acquired =>
    obtain ⟨hhit, hverified, hbytes⟩ := hok acquired rfl
    refine ⟨h.rows, h.historical, h.kept, fun key hkey => ?_, h.waiting, h.absent,
      fun entry he => h.resolved entry (hrest entry he), fun p hp => ?_, h.content⟩
    · rw [completeRow, Dict.get?_set, if_neg (Ne.symm (hkey pin hpin))]
      exact h.others key hkey
    · by_cases hsame : p = pin
      · subst hsame
        refine .inr (.inr (.inr ⟨hverified, acquiredRow lock observedUtc (pull.receiptRecords.get? p.candidateKey) p acquired,
          Dict.get?_set_self .., ?_⟩))
        rw [acquiredRow_timeless hhit, hbytes]
      · have hkey : p.candidateKey ≠ pin.candidateKey := fun heq => hsame (List.inj_on_of_nodup_map hkeys hp hpin heq)
        obtain hp | hp | hfailed | ⟨hverified, row, hrow, htimeless⟩ := h.done p hp
        · exact .inl hp
        · exact .inr (.inl ((hothers p hp).resolve_left hsame))
        · exact .inr (.inr (.inl hfailed))
        · refine .inr (.inr (.inr ⟨hverified, row, ?_, htimeless⟩))
          rw [completeRow, Dict.get?_set, if_neg hkey]
          exact hrow

end Steps

section Ends

variable {γ : Type} {hashing : Hashing γ} {lock : Lock} {payload : Pin → γ} {found cache cache' : Cache γ} {receipt : Option Receipt}
  {requested : List String} {workers workers' : Int} {now now' startedUtc startedUtc' : String} {begun begun' pull pull' : Pulling}
  {s t t' : System γ}

theorem refreshedRow_timeless {existing : Option SourceRow} {pin : Pin} :
    (refreshedRow hashing lock cache startedUtc existing pin).timeless =
      (refreshedRow hashing lock cache startedUtc' existing pin).timeless := rfl

/-- What a pull begins with. -/
structure Begins (hashing : Hashing γ) (lock : Lock) (found : Cache γ) (requested : List String) (begun : Pulling) : Prop where
  selected : selectRows lock requested = .ok begun.rows
  waiting : begun.waiting = (pinsOf begun.rows).filter fun pin => ¬Verified hashing found pin.sha256
  resolved : begun.resolved = []

theorem startPull_begins (h : startPull hashing lock found receipt requested workers now startedUtc = .ok begun) :
    Begins hashing lock found requested begun := by
  simp only [startPull, bind_eq_ok, pure_eq_ok, require_eq_ok, Prod.exists] at h
  obtain ⟨rows, hrows, -, -, created, records, historical, -, rfl⟩ := h
  exact ⟨hrows, rfl, rfl⟩

theorem Begins.toward (h : Begins hashing lock found requested begun) : Toward hashing lock payload found begun found begun := by
  refine ⟨rfl, rfl, fun _ _ => rfl, fun _ _ => rfl, List.Sublist.refl _, fun pin hpin => ?_, fun entry hentry => ?_,
    fun pin hpin => .inl hpin, fun pin hpin => .inl hpin⟩
  · rw [h.waiting] at hpin
    exact of_decide_eq_true (List.mem_filter.mp hpin).2
  · rw [h.resolved] at hentry
    cases hentry

theorem Begins.keys (h : Begins hashing lock found requested begun) : (begun.waiting.map Pin.candidateKey).Nodup := by
  have hkeys := (selectRows_keys h.selected).sublist (keys_pinsOf_sublist begun.rows)
  rw [h.waiting]
  exact hkeys.sublist (List.filter_sublist.map _)

/-- Two starts from the same files differ in their time stamps only. -/
theorem startPull_timeless (h : startPull hashing lock found receipt requested workers now startedUtc = .ok begun)
    (h' : startPull hashing lock found receipt requested workers' now' startedUtc' = .ok begun') :
    begun.rows = begun'.rows ∧ begun.waiting = begun'.waiting ∧ begun.historicalFailures = begun'.historicalFailures ∧
      ∀ key, (begun.receiptRecords.get? key).map SourceRow.timeless = (begun'.receiptRecords.get? key).map SourceRow.timeless := by
  simp only [startPull, bind_eq_ok, pure_eq_ok, require_eq_ok, Prod.exists] at h h'
  obtain ⟨rows, hrows, -, -, created, records, historical, hexisting, rfl⟩ := h
  obtain ⟨rows', hrows', -, -, created', records', historical', hexisting', rfl⟩ := h'
  obtain rfl : rows = rows' := Except.ok.inj (hrows.symm.trans hrows')
  obtain ⟨rfl, rfl⟩ : records = records' ∧ historical = historical' := by
    cases receipt with
    | none =>
      rw [existingReceipt, pure_eq_ok] at hexisting hexisting'
      cases hexisting
      cases hexisting'
      exact ⟨rfl, rfl⟩
    | some r =>
      simp only [existingReceipt, bind_eq_ok, pure_eq_ok, Prod.mk.injEq] at hexisting hexisting'
      obtain ⟨-, -, -, rfl, rfl⟩ := hexisting
      obtain ⟨-, -, -, rfl, rfl⟩ := hexisting'
      exact ⟨rfl, rfl⟩
  refine ⟨rfl, rfl, rfl, fun key => ?_⟩
  have hkeys := (selectRows_keys hrows).sublist (keys_pinsOf_sublist rows)
  have hcached := hkeys.sublist ((List.filter_sublist (p := fun pin => Verified hashing found pin.sha256)).map _)
  have hrefreshed := @get?_refreshed γ hashing lock found startedUtc _ records hcached key
  have hrefreshed' := @get?_refreshed γ hashing lock found startedUtc' _ records hcached key
  refine (congrArg _ hrefreshed).trans (Eq.trans ?_ (congrArg _ hrefreshed').symm)
  split
  · exact congrArg some refreshedRow_timeless
  · rfl

/-- The records of two ended pulls that began alike. -/
theorem records_timeless (hwaiting : begun.waiting = begun'.waiting)
    (hrecords : ∀ key,
      (begun.receiptRecords.get? key).map SourceRow.timeless = (begun'.receiptRecords.get? key).map SourceRow.timeless)
    (h : Toward hashing lock payload found begun cache pull) (h' : Toward hashing lock payload found begun' cache' pull')
    (hdone : ∀ pin ∈ begun.waiting, Verified hashing cache pin.sha256 ∧ ∃ row,
      pull.receiptRecords.get? pin.candidateKey = some row ∧
        row.timeless = downloadedRow lock pin (sizeOf hashing cache pin.sha256))
    (hdone' : ∀ pin ∈ begun.waiting, Verified hashing cache' pin.sha256 ∧ ∃ row,
      pull'.receiptRecords.get? pin.candidateKey = some row ∧
        row.timeless = downloadedRow lock pin (sizeOf hashing cache' pin.sha256))
    (hsame : ∀ pin ∈ begun.waiting, cache pin.sha256 = cache' pin.sha256) (key : String) :
    (pull.receiptRecords.get? key).map SourceRow.timeless = (pull'.receiptRecords.get? key).map SourceRow.timeless := by
  by_cases hkey : ∃ pin ∈ begun.waiting, pin.candidateKey = key
  · obtain ⟨pin, hpin, rfl⟩ := hkey
    obtain ⟨-, row, hrow, htimeless⟩ := hdone pin hpin
    obtain ⟨-, row', hrow', htimeless'⟩ := hdone' pin hpin
    rw [hrow, hrow', Option.map_some, Option.map_some, htimeless, htimeless', sizeOf_congr (hsame pin hpin)]
  · have hother : ∀ pin ∈ begun.waiting, pin.candidateKey ≠ key := fun pin hpin heq => hkey ⟨pin, hpin, heq⟩
    rw [h.others key hother, h'.others key (hwaiting ▸ hother), hrecords key]

/-- Rows under the same keys with the same contents, sorted by distinct ranks. -/
theorem sources_timeless {records records' : Dict String SourceRow} (hkeyed : records.KeyedBy SourceRow.candidateKey)
    (hkeyed' : records'.KeyedBy SourceRow.candidateKey)
    (hranks : ∀ row ∈ records.values, ∀ row' ∈ records.values, row.rank = row'.rank → row.candidateKey = row'.candidateKey)
    (h : ∀ key, (records.get? key).map SourceRow.timeless = (records'.get? key).map SourceRow.timeless) :
    (records.values.insertionSort fun row row' => row.rank ≤ row'.rank).map SourceRow.timeless =
      (records'.values.insertionSort fun row row' => row.rank ≤ row'.rank).map SourceRow.timeless := by
  have hnodup : ∀ d : Dict String SourceRow, d.KeyedBy SourceRow.candidateKey → (d.values.map SourceRow.timeless).Nodup := by
    intro d hd
    refine List.Nodup.of_map SourceRow.candidateKey ?_
    rw [List.map_map]
    exact hd.nodup_values
  have hmem : ∀ d : Dict String SourceRow, ∀ row, row ∈ d.values.map SourceRow.timeless ↔
      ∃ key, (d.get? key).map SourceRow.timeless = some row := by
    intro d row
    simp only [List.mem_map, Dict.mem_values, Option.map_eq_some_iff]
    constructor
    · rintro ⟨r, ⟨key, hr⟩, heq⟩
      exact ⟨key, r, hr, heq⟩
    · rintro ⟨key, r, hr, heq⟩
      exact ⟨r, ⟨key, hr⟩, heq⟩
  have hvalues : (records.values.map SourceRow.timeless).Perm (records'.values.map SourceRow.timeless) := by
    refine (List.perm_ext_iff_of_nodup (hnodup records hkeyed) (hnodup records' hkeyed')).mpr fun row => ?_
    simp only [hmem, h]
  have hperm := ((insertionSort_rank_perm records.values).map SourceRow.timeless).trans
    (hvalues.trans ((insertionSort_rank_perm records'.values).map SourceRow.timeless).symm)
  have hsorted : ∀ rows : List SourceRow, ((rows.insertionSort fun row row' => row.rank ≤ row'.rank).map
      SourceRow.timeless).Pairwise fun row row' => row.rank ≤ row'.rank := by
    intro rows
    rw [List.pairwise_map]
    exact List.pairwise_insertionSort _ rows
  refine hperm.eq_of_pairwise (fun a b ha hb hab hba => ?_) (hsorted _) (hsorted _)
  -- Rows of one rank have one key, and a key has one row.
  have hvalue : ∀ row ∈ (records.values.insertionSort fun row row' => row.rank ≤ row'.rank).map SourceRow.timeless,
      ∃ r, records.get? row.candidateKey = some r ∧ r.timeless = row ∧ r ∈ records.values := by
    intro row hrow
    obtain ⟨r, hr, rfl⟩ := List.mem_map.mp hrow
    have hr' := (insertionSort_rank_perm records.values).mem_iff.mp hr
    exact ⟨r, hkeyed.mem_values.mp hr', rfl, hr'⟩
  obtain ⟨r, hr, rfl, hrow⟩ := hvalue a ha
  obtain ⟨r', hr', rfl, hrow'⟩ := hvalue b (hperm.mem_iff.mpr hb)
  have hkey : r.timeless.candidateKey = r'.timeless.candidateKey := hranks r hrow r' hrow' (le_antisymm hab hba)
  rw [hkey, hr'] at hr
  rw [Option.some.inj hr]

theorem acquisitionStatus_congr {rows : List Candidate} (h : ∀ pin ∈ pinsOf rows, cache pin.sha256 = cache' pin.sha256) :
    acquisitionStatus hashing cache rows = acquisitionStatus hashing cache' rows := by
  have hinspect : ∀ pin ∈ pinsOf rows, inspectCached hashing cache pin.sha256 = inspectCached hashing cache' pin.sha256 :=
    fun pin hpin => inspectCached_congr (h pin hpin)
  have hfilter : ((pinsOf rows).filter fun pin => (inspectCached hashing cache pin.sha256).state = .verifiedCached) =
      (pinsOf rows).filter fun pin => (inspectCached hashing cache' pin.sha256).state = .verifiedCached := by
    refine List.filter_congr fun pin hpin => ?_
    rw [hinspect pin hpin]
  have hbytes : ((pinsOf rows).map fun pin => (inspectCached hashing cache pin.sha256).bytes.getD 0) =
      (pinsOf rows).map fun pin => (inspectCached hashing cache' pin.sha256).bytes.getD 0 := by
    refine List.map_congr_left fun pin hpin => ?_
    rw [hinspect pin hpin]
  have hcached : (((pinsOf rows).filter fun pin => (inspectCached hashing cache' pin.sha256).state = .verifiedCached).map
      fun pin => (pin.sha256, (inspectCached hashing cache pin.sha256).bytes.getD 0)) =
      ((pinsOf rows).filter fun pin => (inspectCached hashing cache' pin.sha256).state = .verifiedCached).map
        fun pin => (pin.sha256, (inspectCached hashing cache' pin.sha256).bytes.getD 0) := by
    refine List.map_congr_left fun pin hpin => ?_
    rw [hinspect pin (List.mem_filter.mp hpin).1]
  simp only [acquisitionStatus, hfilter, hbytes, hcached]

/-- How a pull stands before it finishes: every pin that was not there has been downloaded. -/
structure Ended (hashing : Hashing γ) (lock : Lock) (payload : Pin → γ) (requested : List String) (s : System γ)
    (begun pull : Pulling) (last t : System γ) : Prop where
  started : ∃ workers now startedUtc, startPull hashing lock s.cache s.receipt requested workers now startedUtc = .ok begun
  running : last.pull = some pull
  reached : ∃ trace, Run (Next hashing lock) s trace last
  toward : Toward hashing lock payload s.cache begun last.cache pull
  failures : pull.failures = []
  done : ∀ pin ∈ begun.waiting, Verified hashing last.cache pin.sha256 ∧ ∃ row,
    pull.receiptRecords.get? pin.candidateKey = some row ∧
      row.timeless = downloadedRow lock pin (sizeOf hashing last.cache pin.sha256)
  content : ∀ pin ∈ begun.waiting, last.cache pin.sha256 = .file (payload pin)
  written : ∃ finishedUtc, t.receipt =
    some (writeReceipt lock pull (acquisitionStatus hashing last.cache pull.rows) finishedUtc)

theorem Op.IsDownload.underway {op : Op γ} (h : op.IsDownload) (hnext : Next hashing lock s op t) : s.pull ≠ none := by
  cases hnext with
  | acquire _ => exact Option.some_ne_none _
  | complete _ _ => exact Option.some_ne_none _
  | start _ => exact h.elim
  | refuse _ => exact h.elim
  | finish _ _ => exact h.elim
  | change => exact h.elim
  | interrupt => exact h.elim

theorem Toward.next {op : Op γ} (h : Toward hashing lock payload found begun s.cache pull) (hpull : s.pull = some pull)
    (hkeys : (begun.waiting.map Pin.candidateKey).Nodup) (hdistinct : (begun.waiting.map Pin.sha256).Nodup)
    (hdownload : op.IsDownload) (hserves : ∀ pin fetch, op = .acquire pin fetch → Serves hashing payload pin fetch)
    (hnext : Next hashing lock s op t) :
    ∃ pull', t.pull = some pull' ∧ Toward hashing lock payload found begun t.cache pull' := by
  cases hnext with
  | acquire hwaiting =>
    cases hpull
    exact ⟨_, rfl, h.acquire hdistinct hwaiting acquire_acquires (hserves _ _ rfl)⟩
  | complete hresolved hcompleted =>
    cases hpull
    exact ⟨_, rfl, hcompleted ▸ h.complete hkeys hresolved⟩
  | start _ => exact hdownload.elim
  | refuse _ => exact hdownload.elim
  | finish _ _ => exact hdownload.elim
  | change => exact hdownload.elim
  | interrupt => exact hdownload.elim

theorem PullsThrough.ended (h : PullsThrough hashing lock payload requested s t)
    (hdistinct : ∀ rows, selectRows lock requested = .ok rows → Distinct hashing s.cache rows) :
    ∃ begun pull last, Ended hashing lock payload requested s begun pull last t := by
  obtain ⟨workers, now, startedUtc, updatedUtc, middle, trace, last, finishedUtc, hstart, hrun, hdownloads, hserves, hfinish,
    hfailures⟩ := h
  have hwhole := hrun.cons hstart
  cases hstart with
  | refuse _ =>
    -- A refused pull has nothing to finish.
    have hidle : last.pull = none := by
      refine hrun.invariant (P := fun u => u.pull = none) rfl fun st hst hnext hnone => ?_
      exact absurd hnone (Op.IsDownload.underway (hdownloads st hst) hnext)
    cases hfinish with
    | finish _ _ => cases hidle
  | @start cache receipt _ _ _ _ _ begun hstart =>
    have hbegins := startPull_begins hstart
    have hsha256 := hdistinct _ hbegins.selected
    rw [Distinct, ← hbegins.waiting] at hsha256
    obtain ⟨pull, hpull, htoward⟩ : ∃ pull, last.pull = some pull ∧
        Toward hashing lock payload cache begun last.cache pull := by
      refine hrun.invariant (P := fun u => ∃ pull, u.pull = some pull ∧ Toward hashing lock payload cache begun u.cache pull)
        ⟨begun, rfl, hbegins.toward⟩ fun st hst hnext hbefore => ?_
      obtain ⟨pull, hpull, htoward⟩ := hbefore
      exact htoward.next hpull hbegins.keys hsha256 (hdownloads st hst) (hserves st hst) hnext
    have hnone := hfailures pull hpull
    cases hfinish with
    | finish hwaiting hresolved =>
      cases hpull
      have hdone : ∀ pin ∈ begun.waiting, Verified hashing _ pin.sha256 ∧ ∃ row, _ := fun pin hpin => by
        obtain hp | hp | hfailed | hdone := htoward.done pin hpin
        · rw [hwaiting] at hp
          cases hp
        · rw [hresolved] at hp
          cases hp
        · exact absurd hnone hfailed
        · exact hdone
      refine ⟨begun, pull, _, ⟨workers, now, startedUtc, hstart⟩, rfl, ⟨_, hwhole⟩, htoward, hnone, hdone, fun pin hpin => ?_,
        finishedUtc, rfl⟩
      obtain ⟨content, hfile, hcontent⟩ := verified_iff.mp (hdone pin hpin).1
      obtain hp | hpayload := htoward.content pin hpin
      · rw [hwaiting] at hp
        cases hp
      · rw [hfile, hpayload content hfile hcontent]

/-- Two pulls from the same state in which every download succeeds leave the same receipt, time stamps aside. -/
theorem order_immaterial {trace : List (Step (System γ) (Op γ))} (hrun : Run (Next hashing lock) ⟨found, none, none⟩ trace s)
    (hdistinct : ∀ rows, selectRows lock requested = .ok rows → Distinct hashing s.cache rows)
    (h : PullsThrough hashing lock payload requested s t) (h' : PullsThrough hashing lock payload requested s t') :
    t.receipt.map Receipt.timeless = t'.receipt.map Receipt.timeless := by
  obtain ⟨begun, pull, last, hended⟩ := h.ended hdistinct
  obtain ⟨begun', pull', last', hended'⟩ := h'.ended hdistinct
  obtain ⟨workers, now, startedUtc, hstart⟩ := hended.started
  obtain ⟨workers', now', startedUtc', hstart'⟩ := hended'.started
  obtain ⟨hrows, hwaiting, hhistorical, hrecords⟩ := startPull_timeless hstart hstart'
  have hdone' := hended'.done
  have hcontent' := hended'.content
  rw [← hwaiting] at hdone' hcontent'
  have hsame : ∀ pin ∈ begun.waiting, last.cache pin.sha256 = last'.cache pin.sha256 :=
    fun pin hpin => (hended.content pin hpin).trans (hcontent' pin hpin).symm
  have hcaches : ∀ pin ∈ pinsOf begun.rows, last.cache pin.sha256 = last'.cache pin.sha256 := by
    intro pin hpin
    by_cases hverified : Verified hashing s.cache pin.sha256
    · rw [hended.toward.kept _ hverified, hended'.toward.kept _ hverified]
    · refine hsame pin ?_
      rw [(startPull_begins hstart).waiting]
      exact List.mem_filter.mpr ⟨hpin, decide_eq_true hverified⟩
  have htimeless := records_timeless hwaiting hrecords hended.toward hended'.toward hended.done hdone' hsame
  obtain ⟨_, hreached⟩ := hended.reached
  obtain ⟨_, hreached'⟩ := hended'.reached
  have htracked := (tracked (hrun.append hreached)).pull _ hended.running
  have htracked' := (tracked (hrun.append hreached')).pull _ hended'.running
  have hranks : ∀ row ∈ pull.receiptRecords.values, ∀ row' ∈ pull.receiptRecords.values, row.rank = row'.rank →
      row.candidateKey = row'.candidateKey := by
    intro row hrow row' hrow' heq
    obtain ⟨pin, hpin, hkey, hrank, -⟩ := htracked.rows row hrow
    obtain ⟨pin', hpin', hkey', hrank', -⟩ := htracked.rows row' hrow'
    have hnodup : (lock.candidates.map Candidate.rank).Nodup := lock.ranks ▸ List.nodup_range'
    have hpins : Candidate.pinned pin = .pinned pin' :=
      List.inj_on_of_nodup_map hnodup (mem_pinsOf.mp hpin) (mem_pinsOf.mp hpin') (hrank.symm.trans (heq.trans hrank'))
    rw [← hkey, ← hkey', Candidate.pinned.inj hpins]
  have hsources := sources_timeless htracked.keyed htracked'.keyed hranks htimeless
  obtain ⟨finishedUtc, hwritten⟩ := hended.written
  obtain ⟨finishedUtc', hwritten'⟩ := hended'.written
  have hstatus : acquisitionStatus hashing last.cache pull.rows = acquisitionStatus hashing last'.cache pull'.rows := by
    rw [hended.toward.rows, hended'.toward.rows, ← hrows]
    exact acquisitionStatus_congr hcaches
  have hfailures : pull.historicalFailures ++ pull.failures = pull'.historicalFailures ++ pull'.failures := by
    rw [hended.toward.historical, hended'.toward.historical, hended.failures, hended'.failures, hhistorical]
  rw [hwritten, hwritten', Option.map_some, Option.map_some]
  simp only [writeReceipt, renderReceipt, Receipt.timeless, hstatus, hfailures, hsources]

/-- Over every run whose pulls meet the condition, each receipt describes its rows, each row is that of an object that was
verified when the row was stamped, and the order of successful downloads does not matter. -/
theorem receipts_describe_their_rows {trace : List (Step (System γ) (Op γ))}
    (hrun : Run (Next hashing lock) ⟨found, none, none⟩ trace s) (hmeets : ∀ st ∈ trace, Meets hashing lock st.before st.op) :
    (∀ receipt, s.receipt = some receipt → Describes receipt ∧ ∀ row ∈ receipt.sources, Recorded hashing lock trace row) ∧
    ∀ requested payload t t', (∀ rows, selectRows lock requested = .ok rows → Distinct hashing s.cache rows) →
      PullsThrough hashing lock payload requested s t → PullsThrough hashing lock payload requested s t' →
        t.receipt.map Receipt.timeless = t'.receipt.map Receipt.timeless := by
  have hstart : Standing hashing (⟨found, none, none⟩ : System γ) := ⟨fun _ hr => (by cases hr), fun _ hp => (by cases hp)⟩
  have hstanding := hrun.invariant hstart fun st hst hnext h => h.next hnext (hmeets st hst)
  refine ⟨fun receipt hreceipt => ⟨hstanding.receipt receipt hreceipt, ((tracked hrun).receipt receipt hreceipt).rows⟩, ?_⟩
  intro requested payload t t' hdistinct h h'
  exact order_immaterial hrun hdistinct h h'

end Ends

namespace ThreePins

def hashing : Hashing String := ⟨id, String.length⟩

def pin (rank : Nat) (key : String) : Pin := ⟨rank, key, "homebrew", key, "1", "https://r", "https://u", "none", key, 1⟩

def lock : Lock where
  acquisitionId := "sources"
  lockSha256 := "lock"
  downloads := "downloads"
  maxArchiveBytes := 10
  candidates := [.pinned (pin 1 "a"), .pinned (pin 2 "b"), .pinned (pin 3 "c")]
  ranks := rfl
  keys := by decide

/-- Only the first object is there. -/
def found : Cache String := fun digest => if digest = "a" then .file "a" else .missing

def whole : Cache String := fun digest => .file digest

def served (pin : Pin) : Fetch String := .responses [.received pin.sha256]

def start (requested : List String) : Op String := .start requested 1 "t0" "t0" "t0"

/-- The pull of all sources when all are there. -/
def wholePull : Pulling where
  rows := lock.candidates
  before := acquisitionStatus hashing whole lock.candidates
  createdUtc := "t0"
  historicalFailures := []
  failures := []
  receiptRecords := (pinsOf lock.candidates).foldl (refreshRecord hashing lock whole "t0") .empty
  waiting := []
  resolved := []

def wholeReceipt : Receipt := writeReceipt lock wholePull (acquisitionStatus hashing whole lock.candidates) "t0"

/-- A pull of one source after one of all: one pin is counted, three rows are listed. -/
theorem subset_miscounted : ¬ ∀ (lock : Lock) (cache : Cache String) (trace : List (Step (System String) (Op String)))
    (s : System String), Run (Next hashing lock) ⟨cache, none, none⟩ trace s →
      ∀ receipt, s.receipt = some receipt → Describes receipt := by
  intro h
  have hfirst : Next hashing lock ⟨whole, none, none⟩ (start []) ⟨whole, some wholeReceipt, some wholePull⟩ := .start rfl
  have hfinish : Next hashing lock ⟨whole, some wholeReceipt, some wholePull⟩ (.finish "t0")
      ⟨whole, some wholeReceipt, none⟩ := .finish rfl rfl
  have hsecond : Next hashing lock ⟨whole, some wholeReceipt, none⟩ (start ["a"]) _ := .start rfl
  have hrun := Run.cons hfirst (Run.cons hfinish (Run.cons hsecond .nil))
  have hverified := (h lock whole _ _ hrun _ rfl).verified
  exact absurd hverified (by decide)

/-- The pull of all sources when only the first is there. -/
def openPull : Pulling where
  rows := lock.candidates
  before := acquisitionStatus hashing found lock.candidates
  createdUtc := "t0"
  historicalFailures := []
  failures := []
  receiptRecords := refreshRecord hashing lock found "t0" .empty (pin 1 "a")
  waiting := [pin 2 "b", pin 3 "c"]
  resolved := []

def stopped : System String := ⟨found, some (writeReceipt lock openPull openPull.before "t0"), none⟩

theorem serves_served (p : Pin) : Serves hashing Pin.sha256 p (served p) := by
  intro content hdelivers _
  simpa [served, Fetch.Delivers] using hdelivers

def downloaded (cache : Cache String) (pull : Pulling) (p : Pin) (rest : List Pin) : Pulling :=
  completeRow lock { pull with waiting := rest, resolved := [] } p (acquire hashing lock cache p (served p)).2 "t1"

theorem download_runs {cache : Cache String} (receipt : Option Receipt) {pull : Pulling} {p : Pin} {earlier later : List Pin}
    (hwaiting : pull.waiting = earlier ++ p :: later) (hresolved : pull.resolved = []) :
    ∃ trace receipt', Run (Next hashing lock) ⟨cache, receipt, some pull⟩ trace
        ⟨(acquire hashing lock cache p (served p)).1, receipt', some (downloaded cache pull p (earlier ++ later))⟩ ∧
      ∀ st ∈ trace, st.op = .acquire p (served p) ∨ st.op = .complete p "t1" "t1" := by
  have hacquire : Next hashing lock ⟨cache, receipt, some pull⟩ (.acquire p (served p)) _ := .acquire hwaiting
  have hcomplete := @Next.complete String hashing lock (acquire hashing lock cache p (served p)).1 receipt
    { pull with
      waiting := earlier ++ later
      resolved := (p, (acquire hashing lock cache p (served p)).2) :: pull.resolved }
    [] [] p (acquire hashing lock cache p (served p)).2 "t1" "t1" _ (by rw [hresolved]; rfl) rfl
  exact ⟨_, _, Run.cons hacquire (Run.cons hcomplete .nil), by simp⟩

theorem served_download {p : Pin} {op : Op String} (h : op = .acquire p (served p) ∨ op = .complete p "t1" "t1") :
    op.IsDownload ∧ ∀ pin fetch, op = .acquire pin fetch → Serves hashing Pin.sha256 pin fetch := by
  obtain rfl | rfl := h
  · refine ⟨trivial, fun pin fetch h => ?_⟩
    cases h
    exact serves_served p
  · exact ⟨trivial, fun pin fetch h => (by cases h)⟩

/-- The two missing sources are downloaded in this order. -/
theorem pulls_through {p q : Pin} {earlier later : List Pin} (hwaiting : openPull.waiting = earlier ++ p :: later)
    (hmiddle : (downloaded found openPull p (earlier ++ later)).waiting = [] ++ q :: [])
    (hresolved : (downloaded found openPull p (earlier ++ later)).resolved = [])
    {last : Pulling} (hlast : downloaded (acquire hashing lock found p (served p)).1
      (downloaded found openPull p (earlier ++ later)) q [] = last)
    (hend : last.waiting = [] ∧ last.resolved = [] ∧ last.failures = []) :
    ∃ t, PullsThrough hashing lock Pin.sha256 [] stopped t := by
  have hstart : Next hashing lock stopped (start []) ⟨found, _, some openPull⟩ := .start rfl
  obtain ⟨first, receipt, hfirst, hfirstOps⟩ := download_runs _ hwaiting rfl
  obtain ⟨second, receipt', hsecond, hsecondOps⟩ := download_runs receipt hmiddle hresolved
  rw [List.append_nil, hlast] at hsecond
  have hops : ∀ st ∈ first ++ second, st.op.IsDownload ∧
      ∀ pin fetch, st.op = .acquire pin fetch → Serves hashing Pin.sha256 pin fetch := by
    intro st hst
    obtain hst | hst := List.mem_append.mp hst
    · exact served_download (hfirstOps st hst)
    · exact served_download (hsecondOps st hst)
  exact ⟨_, _, _, _, _, _, first ++ second, _, "t2", hstart, hfirst.append hsecond, fun st hst => (hops st hst).1,
    fun st hst => (hops st hst).2, .finish hend.1 hend.2.1, fun pull hpull => Option.some.inj hpull ▸ hend.2.2⟩

/-- The second source before the third, and the other way round, from where a first pull was stopped. -/
theorem both_orders_described : ∃ trace t t', Run (Next hashing lock) ⟨found, none, none⟩ trace stopped ∧
    (∀ receipt, stopped.receipt = some receipt → Describes receipt ∧
      ∀ row ∈ receipt.sources, Recorded hashing lock trace row) ∧
    PullsThrough hashing lock Pin.sha256 [] stopped t ∧ PullsThrough hashing lock Pin.sha256 [] stopped t' ∧
    t.receipt.map Receipt.timeless = t'.receipt.map Receipt.timeless := by
  have hstart : Next hashing lock ⟨found, none, none⟩ (start []) ⟨found, stopped.receipt, some openPull⟩ := .start rfl
  have hrun := Run.cons hstart (Run.cons .interrupt .nil)
  obtain ⟨t, ht⟩ := @pulls_through (pin 2 "b") (pin 3 "c") [] [pin 3 "c"] rfl rfl rfl _ rfl ⟨rfl, rfl, rfl⟩
  obtain ⟨t', ht'⟩ := @pulls_through (pin 3 "c") (pin 2 "b") [pin 2 "b"] [] rfl rfl rfl _ rfl ⟨rfl, rfl, rfl⟩
  have hmeets : ∀ st ∈ [⟨⟨found, none, none⟩, start [], ⟨found, stopped.receipt, some openPull⟩⟩,
      (⟨⟨found, stopped.receipt, some openPull⟩, .interrupt, stopped⟩ : Step (System String) (Op String))],
      Meets hashing lock st.before st.op := by
    simp only [List.forall_mem_cons, List.not_mem_nil, false_imp_iff, implies_true, and_true]
    refine ⟨fun rows hrows _ => ⟨fun r hr => (by cases hr), ?_⟩, trivial⟩
    cases hrows
    decide
  have hdistinct : ∀ rows, selectRows lock [] = .ok rows → Distinct hashing found rows := by
    intro rows hrows
    cases hrows
    unfold Distinct
    decide
  obtain ⟨hdescribes, horders⟩ := receipts_describe_their_rows hrun hmeets
  exact ⟨_, t, t', hrun, hdescribes, ht, ht', horders [] Pin.sha256 t t' hdistinct ht ht'⟩

end ThreePins

end FidbPoc.Sources
