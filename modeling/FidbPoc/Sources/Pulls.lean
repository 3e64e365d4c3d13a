import FidbPoc.Sources.Receipts

namespace FidbPoc.Sources

open FidbPoc.Lib FidbPoc.Lib.Checked

section Conditions

variable {γ : Type} (hashing : Hashing γ) (lock : Lock)

/-- What a pull has to find: each row of the receipt is that of a requested pin with its object, and what is broken has no
bytes. -/
structure Ready (cache : Cache γ) (receipt : Option Receipt) (rows : List Candidate) : Prop where
  standing : ∀ r, receipt = some r → ∀ row ∈ r.sources,
    ∃ pin ∈ pinsOf rows, pin.candidateKey = row.candidateKey ∧ Verified hashing cache pin.sha256
  empty : ∀ pin ∈ pinsOf rows, Verified hashing cache pin.sha256 ∨ sizeOf hashing cache pin.sha256 = 0

/-- The pins to download have distinct digests. -/
def Distinct (cache : Cache γ) (rows : List Candidate) : Prop :=
  (((pinsOf rows).filter fun pin => ¬Verified hashing cache pin.sha256).map Pin.sha256).Nodup

/-- The pins of failed downloads have no object, nor anything with bytes in its place. -/
def Settled (cache : Cache γ) (pull : Pulling) : Prop :=
  ∀ failure ∈ pull.failures, ∀ pin ∈ pinsOf pull.rows, pin.candidateKey = failure.candidateKey →
    ¬Verified hashing cache pin.sha256 ∧ sizeOf hashing cache pin.sha256 = 0

def Meets (s : System γ) : Op γ → Prop
  | .start requested workers _ _ _ => ∀ rows, selectRows lock requested = .ok rows → 1 ≤ workers ∧ workers ≤ 32 →
      Ready hashing s.cache s.receipt rows
  | .finish _ => ∀ pull, s.pull = some pull → Settled hashing s.cache pull
  | _ => True

/-- What a pull that started so keeps between its steps. -/
structure Underway (cache : Cache γ) (pull : Pulling) : Prop where
  keyed : pull.receiptRecords.KeyedBy SourceRow.candidateKey
  keys : ((pinsOf pull.rows).map Pin.candidateKey).Nodup
  pinned : pull.before.pinned = (pinsOf pull.rows).length
  backed : ∀ row ∈ pull.receiptRecords.values, Backed hashing cache (pinsOf pull.rows) row
  waiting : pull.waiting ⊆ pinsOf pull.rows
  resolved : ∀ entry ∈ pull.resolved, entry.1 ∈ pinsOf pull.rows ∧ ∀ acquired, entry.2 = .ok acquired →
    Verified hashing cache entry.1.sha256 ∧ acquired.bytes = sizeOf hashing cache entry.1.sha256
  covered : ∀ pin ∈ pinsOf pull.rows, (∃ row, pull.receiptRecords.get? pin.candidateKey = some row) ∨
    pin ∈ pull.waiting ∨ pin ∈ pull.resolved.map Prod.fst ∨
      ∃ failure ∈ pull.failures, failure.candidateKey = pin.candidateKey

structure Standing (s : System γ) : Prop where
  receipt : ∀ r, s.receipt = some r → Describes r
  pull : ∀ p, s.pull = some p → Underway hashing s.cache p

end Conditions

section Steps

variable {γ : Type} {hashing : Hashing γ} {lock : Lock} {cache cache' : Cache γ} {receipt : Option Receipt}
  {requested : List String} {workers : Int} {now startedUtc : String} {pull : Pulling} {pin : Pin} {fetch : Fetch γ}
  {result : Result Acquired} {records : Dict String SourceRow}

theorem existingReceipt_records {created : String} {historical : List Failure}
    (h : existingReceipt lock receipt now = .ok (created, records, historical)) :
    records.KeyedBy SourceRow.candidateKey ∧
      ∀ key row, records.get? key = some row → ∃ r, receipt = some r ∧ row ∈ r.sources := by
  cases receipt with
  | none =>
    rw [existingReceipt, pure_eq_ok] at h
    cases h
    exact ⟨Dict.keyedBy_empty _, fun _ _ h => by cases h⟩
  | some r =>
    simp only [existingReceipt, bind_eq_ok, pure_eq_ok, Prod.mk.injEq] at h
    obtain ⟨-, -, -, rfl, -⟩ := h
    exact ⟨keyedBy_sources _, fun key row hrow => ⟨r, rfl, (get?_sources hrow).1⟩⟩

theorem startPull_rows (h : startPull hashing lock cache receipt requested workers now startedUtc = .ok pull) :
    selectRows lock requested = .ok pull.rows ∧ (1 ≤ workers ∧ workers ≤ 32) ∧
      pull.before = acquisitionStatus hashing cache pull.rows := by
  simp only [startPull, bind_eq_ok, pure_eq_ok, require_eq_ok, Prod.exists] at h
  obtain ⟨rows, hrows, -, hworkers, created, records, historical, -, rfl⟩ := h
  exact ⟨hrows, hworkers, rfl⟩

theorem startPull_underway (h : startPull hashing lock cache receipt requested workers now startedUtc = .ok pull)
    (hready : Ready hashing cache receipt pull.rows) : Underway hashing cache pull := by
  simp only [startPull, bind_eq_ok, pure_eq_ok, require_eq_ok, Prod.exists] at h
  obtain ⟨rows, hrows, -, -, created, records, historical, hexisting, rfl⟩ := h
  obtain ⟨hkeyed, hsources⟩ := existingReceipt_records hexisting
  have hkeys : ((pinsOf rows).map Pin.candidateKey).Nodup := (selectRows_keys hrows).sublist (keys_pinsOf_sublist rows)
  let cached := (pinsOf rows).filter fun pin => Verified hashing cache pin.sha256
  have hcached : (cached.map Pin.candidateKey).Nodup := hkeys.sublist (List.filter_sublist.map _)
  have hget : ∀ pin ∈ cached, (cached.foldl (refreshRecord hashing lock cache startedUtc) records).get? pin.candidateKey =
      some (refreshedRow hashing lock cache startedUtc (records.get? pin.candidateKey) pin) := by
    intro pin hpin
    rw [get?_refreshed hcached, Table.find?_key hcached hpin]
  have hkeyed' := @keyedBy_refreshed γ hashing lock cache startedUtc cached records hkeyed
  refine ⟨hkeyed', hkeys, rfl, ?_, List.filter_subset_self _, fun _ h => (by cases h), ?_⟩
  · intro row hrow
    obtain ⟨pin, hpin, hkey, hverified⟩ : ∃ pin ∈ pinsOf rows, pin.candidateKey = row.candidateKey ∧
        Verified hashing cache pin.sha256 := by
      have hrow' := hkeyed'.mem_values.mp hrow
      rw [get?_refreshed hcached] at hrow'
      split at hrow'
      · rename_i pin hfind
        obtain ⟨hpin, hverified⟩ := List.mem_filter.mp (List.mem_of_find?_eq_some hfind)
        exact ⟨pin, hpin, by simpa using List.find?_some hfind, by simpa using hverified⟩
      · obtain ⟨r, hr, hsource⟩ := hsources _ _ hrow'
        exact hready.standing r hr row hsource
    have hmem : pin ∈ cached := List.mem_filter.mpr ⟨hpin, by simpa using hverified⟩
    have hrow' := hkeyed'.mem_values.mp hrow
    rw [← hkey, hget pin hmem] at hrow'
    rw [← Option.some.inj hrow']
    exact ⟨pin, hpin, rfl, rfl, rfl, hverified⟩
  · intro pin hpin
    by_cases hverified : Verified hashing cache pin.sha256
    · exact .inl ⟨_, hget pin (List.mem_filter.mpr ⟨hpin, by simpa using hverified⟩)⟩
    · exact .inr (.inl (List.mem_filter.mpr ⟨hpin, decide_eq_true hverified⟩))

/-- The first receipt of such a pull. -/
theorem startPull_describes (h : startPull hashing lock cache receipt requested workers now startedUtc = .ok pull)
    (hready : Ready hashing cache receipt pull.rows) (updatedUtc : String) :
    Describes (writeReceipt lock pull pull.before updatedUtc) := by
  have hunderway := startPull_underway h hready
  rw [(startPull_rows h).2.2]
  refine describes_of_status hunderway.keyed hunderway.keys hunderway.backed (fun pin hpin hverified => ?_) hready.empty
  simp only [startPull, bind_eq_ok, pure_eq_ok, require_eq_ok, Prod.exists] at h
  obtain ⟨rows, hrows, -, -, created, records, historical, -, rfl⟩ := h
  obtain hrecorded | hwaiting | hresolved | ⟨failure, hfailure, -⟩ := hunderway.covered pin hpin
  · exact hrecorded
  · exact absurd hverified (of_decide_eq_true (List.mem_filter.mp hwaiting).2)
  · cases hresolved
  · cases hfailure

theorem Underway.acquire {earlier later : List Pin} (h : Underway hashing cache pull)
    (hwaiting : pull.waiting = earlier ++ pin :: later) (hacquires : Acquires hashing cache pin fetch cache' result) :
    Underway hashing cache' { pull with waiting := earlier ++ later, resolved := (pin, result) :: pull.resolved } := by
  have hpin : pin ∈ pull.waiting := by simp [hwaiting]
  refine ⟨h.keyed, h.keys, h.pinned, fun row hrow => (h.backed row hrow).acquire hacquires, fun p hp => ?_, ?_, fun p hp => ?_⟩
  · refine h.waiting ?_
    rw [hwaiting]
    simp only [List.mem_append, List.mem_cons] at hp ⊢
    exact hp.imp id .inr
  · rintro entry hentry
    obtain rfl | hentry := List.mem_cons.mp hentry
    · exact ⟨h.waiting hpin, fun acquired hok => ⟨hacquires.verified acquired hok, hacquires.bytes acquired hok⟩⟩
    · obtain ⟨hmem, hok⟩ := h.resolved entry hentry
      refine ⟨hmem, fun acquired hacquired => ?_⟩
      obtain ⟨hverified, hbytes⟩ := hok acquired hacquired
      have hkeeps := hacquires.keeps hverified
      exact ⟨hverified.congr hkeeps, hbytes.trans (sizeOf_congr hkeeps).symm⟩
  · obtain hrecorded | hp | hp | hfailed := h.covered p hp
    · exact .inl hrecorded
    · rw [hwaiting] at hp
      simp only [List.mem_append, List.mem_cons] at hp
      obtain hp | rfl | hp := hp
      · exact .inr (.inl (List.mem_append_left _ hp))
      · exact .inr (.inr (.inl (by simp)))
      · exact .inr (.inl (List.mem_append_right _ hp))
    · exact .inr (.inr (.inl (List.mem_cons_of_mem _ hp)))
    · exact .inr (.inr (.inr hfailed))

theorem Underway.complete {earlier later : List (Pin × Result Acquired)} {observedUtc : String}
    (h : Underway hashing cache pull) (hresolved : pull.resolved = earlier ++ (pin, result) :: later) :
    Underway hashing cache (completeRow lock { pull with resolved := earlier ++ later } pin result observedUtc) := by
  have hentry : (pin, result) ∈ pull.resolved := by simp [hresolved]
  have hrest : ∀ entry ∈ earlier ++ later, entry ∈ pull.resolved := by
    intro entry hentry
    rw [hresolved]
    simp only [List.mem_append, List.mem_cons] at hentry ⊢
    exact hentry.imp id .inr
  have hothers : ∀ p ∈ pull.resolved.map Prod.fst, p = pin ∨ p ∈ (earlier ++ later).map Prod.fst := by
    intro p hp
    rw [hresolved] at hp
    simp only [List.map_append, List.map_cons, List.mem_append, List.mem_cons] at hp ⊢
    obtain hp | hp | hp := hp
    · exact .inr (.inl hp)
    · exact .inl hp
    · exact .inr (.inr hp)
  obtain ⟨hpin, hok⟩ := h.resolved _ hentry
  cases result with
  | error error =>
    refine ⟨h.keyed, h.keys, h.pinned, h.backed, h.waiting, fun entry he => h.resolved entry (hrest entry he), fun p hp => ?_⟩
    obtain hrecorded | hp | hp | ⟨failure, hfailure, hkey⟩ := h.covered p hp
    · exact .inl hrecorded
    · exact .inr (.inl hp)
    · obtain rfl | hp := hothers p hp
      · exact .inr (.inr (.inr ⟨_, List.mem_append_right _ List.mem_cons_self, rfl⟩))
      · exact .inr (.inr (.inl hp))
    · exact .inr (.inr (.inr ⟨failure, List.mem_append_left _ hfailure, hkey⟩))
  | ok acquired =>
    obtain ⟨hverified, hbytes⟩ := hok acquired rfl
    refine ⟨h.keyed.set rfl, h.keys, h.pinned, fun row hrow => ?_, h.waiting,
      fun entry he => h.resolved entry (hrest entry he), fun p hp => ?_⟩
    · obtain ⟨key, hget⟩ := Dict.mem_values.mp hrow
      rw [completeRow, Dict.get?_set] at hget
      split at hget
      · rw [← Option.some.inj hget]
        exact ⟨pin, hpin, rfl, rfl, hbytes, hverified⟩
      · exact h.backed row (Dict.mem_values.mpr ⟨key, hget⟩)
    · by_cases hkey : p.candidateKey = pin.candidateKey
      · refine .inl ⟨acquiredRow lock observedUtc (pull.receiptRecords.get? pin.candidateKey) pin acquired, ?_⟩
        rw [completeRow, hkey]
        exact Dict.get?_set_self ..
      · obtain ⟨row, hrow⟩ | hp | hp | hfailed := h.covered p hp
        · refine .inl ⟨row, ?_⟩
          rw [completeRow, Dict.get?_set, if_neg hkey]
          exact hrow
        · exact .inr (.inl hp)
        · obtain rfl | hp := hothers p hp
          · exact absurd rfl hkey
          · exact .inr (.inr (.inl hp))
        · exact .inr (.inr (.inr hfailed))

/-- The receipt after each download. -/
theorem Underway.interim_describes (h : Underway hashing cache pull) (updatedUtc : String) :
    Describes (writeReceipt lock pull (interimSummary pull) updatedUtc) := by
  refine describes_of_backed h.backed rfl rfl ?_ rfl rfl
  exact (records_length_le h.keyed h.backed).trans_eq h.pinned.symm

/-- The last receipt. -/
theorem Underway.finish_describes (h : Underway hashing cache pull) (hwaiting : pull.waiting = [])
    (hresolved : pull.resolved = []) (hsettled : Settled hashing cache pull) (updatedUtc : String) :
    Describes (writeReceipt lock pull (acquisitionStatus hashing cache pull.rows) updatedUtc) := by
  have hcases : ∀ pin ∈ pinsOf pull.rows, (∃ row, pull.receiptRecords.get? pin.candidateKey = some row) ∨
      (¬Verified hashing cache pin.sha256 ∧ sizeOf hashing cache pin.sha256 = 0) := by
    intro pin hpin
    obtain hrecorded | hp | hp | ⟨failure, hfailure, hkey⟩ := h.covered pin hpin
    · exact .inl hrecorded
    · rw [hwaiting] at hp
      cases hp
    · rw [hresolved] at hp
      cases hp
    · exact .inr (hsettled failure hfailure pin hpin hkey.symm)
  refine describes_of_status h.keyed h.keys h.backed (fun pin hpin hverified => ?_) fun pin hpin => ?_
  · exact (hcases pin hpin).resolve_right fun hfailed => hfailed.1 hverified
  · obtain ⟨row, hrow⟩ | ⟨-, hzero⟩ := hcases pin hpin
    · obtain ⟨p, hp, hkey, -, -, hverified⟩ := h.backed row (Dict.mem_values.mpr ⟨_, hrow⟩)
      rw [h.keyed _ _ hrow] at hkey
      exact .inl (List.inj_on_of_nodup_map h.keys hp hpin hkey ▸ hverified)
    · exact .inr hzero

theorem Standing.next {s t : System γ} {op : Op γ} (h : Standing hashing s) (hnext : Next hashing lock s op t)
    (hmeets : Meets hashing lock s op) : Standing hashing t := by
  obtain ⟨hreceipt, hpull⟩ := h
  cases hnext with
  | start hstart =>
    obtain ⟨hrows, hworkers, -⟩ := startPull_rows hstart
    have hready := hmeets _ hrows hworkers
    refine ⟨fun r hr => ?_, fun p hp => ?_⟩
    · cases hr
      exact startPull_describes hstart hready _
    · cases hp
      exact startPull_underway hstart hready
  | refuse _ => exact ⟨hreceipt, hpull⟩
  | acquire hwaiting =>
    refine ⟨hreceipt, fun p hp => ?_⟩
    cases hp
    exact (hpull _ rfl).acquire hwaiting acquire_acquires
  | complete hresolved hcompleted =>
    subst hcompleted
    refine ⟨fun r hr => ?_, fun p hp => ?_⟩
    · cases hr
      exact ((hpull _ rfl).complete hresolved).interim_describes _
    · cases hp
      exact (hpull _ rfl).complete hresolved
  | finish hwaiting hresolved =>
    refine ⟨fun r hr => ?_, fun p hp => (by cases hp)⟩
    cases hr
    exact (hpull _ rfl).finish_describes hwaiting hresolved (hmeets _ rfl) _
  | change => exact ⟨hreceipt, fun p hp => by cases hp⟩
  | interrupt => exact ⟨hreceipt, fun p hp => by cases hp⟩

end Steps

section History

variable {γ : Type} (hashing : Hashing γ) (lock : Lock)

/-- The time that a step stamps its rows with. -/
def Op.observed : Op γ → Option String
  | .start _ _ _ startedUtc _ => some startedUtc
  | .complete _ observedUtc _ => some observedUtc
  | _ => none

/-- The row is that of a pin of the lock, whose object was verified when the row was stamped. -/
def Recorded (trace : List (Step (System γ) (Op γ))) (row : SourceRow) : Prop :=
  ∃ pin ∈ pinsOf lock.candidates, pin.candidateKey = row.candidateKey ∧ row.rank = pin.rank ∧ row.sha256 = pin.sha256 ∧
    ∃ st ∈ trace, st.op.observed = some row.lastVerifiedUtc ∧ Verified hashing st.after.cache pin.sha256

structure TrackedReceipt (trace : List (Step (System γ) (Op γ))) (receipt : Receipt) : Prop where
  rows : ∀ row ∈ receipt.sources, Recorded hashing lock trace row
  keys : (receipt.sources.map SourceRow.candidateKey).Nodup

structure TrackedPull (trace : List (Step (System γ) (Op γ))) (cache : Cache γ) (pull : Pulling) : Prop where
  rows : ∀ row ∈ pull.receiptRecords.values, Recorded hashing lock trace row
  keyed : pull.receiptRecords.KeyedBy SourceRow.candidateKey
  waiting : pull.waiting ⊆ pinsOf lock.candidates
  resolved : ∀ entry ∈ pull.resolved, entry.1 ∈ pinsOf lock.candidates ∧
    ∀ acquired, entry.2 = .ok acquired → Verified hashing cache entry.1.sha256

/-- What every run keeps of the rows, whatever it meets. -/
structure Tracked (trace : List (Step (System γ) (Op γ))) (s : System γ) : Prop where
  receipt : ∀ r, s.receipt = some r → TrackedReceipt hashing lock trace r
  pull : ∀ p, s.pull = some p → TrackedPull hashing lock trace s.cache p

variable {hashing} {lock} {trace : List (Step (System γ) (Op γ))} {s t : System γ} {op : Op γ} {row : SourceRow}

theorem Recorded.later (h : Recorded hashing lock trace row) (st : Step (System γ) (Op γ)) :
    Recorded hashing lock (trace ++ [st]) row := by
  obtain ⟨pin, hpin, hkey, hrank, hsha256, st', hst', hobserved, hverified⟩ := h
  exact ⟨pin, hpin, hkey, hrank, hsha256, st', List.mem_append_left _ hst', hobserved, hverified⟩

theorem pinsOf_subset {rows : List Candidate} (h : rows ⊆ lock.candidates) : pinsOf rows ⊆ pinsOf lock.candidates :=
  fun _ hpin => mem_pinsOf.mpr (h (mem_pinsOf.mp hpin))

theorem writeReceipt_sources {pull : Pulling} {summary : Summary} {updatedUtc : String} :
    (writeReceipt lock pull summary updatedUtc).sources.Perm pull.receiptRecords.values :=
  insertionSort_rank_perm _

theorem TrackedReceipt.later {receipt : Receipt} (h : TrackedReceipt hashing lock trace receipt)
    (st : Step (System γ) (Op γ)) : TrackedReceipt hashing lock (trace ++ [st]) receipt :=
  ⟨fun row hrow => (h.rows row hrow).later st, h.keys⟩

theorem TrackedPull.later {cache : Cache γ} {pull : Pulling} (h : TrackedPull hashing lock trace cache pull)
    (st : Step (System γ) (Op γ)) : TrackedPull hashing lock (trace ++ [st]) cache pull :=
  ⟨fun row hrow => (h.rows row hrow).later st, h.keyed, h.waiting, h.resolved⟩

/-- A receipt that is written from the records of a pull. -/
theorem TrackedPull.write {cache : Cache γ} {pull : Pulling} (h : TrackedPull hashing lock trace cache pull)
    (summary : Summary) (updatedUtc : String) : TrackedReceipt hashing lock trace (writeReceipt lock pull summary updatedUtc) := by
  have hperm := @writeReceipt_sources lock pull summary updatedUtc
  exact ⟨fun row hrow => h.rows row (hperm.mem_iff.mp hrow),
    ((hperm.map SourceRow.candidateKey).nodup_iff).mpr h.keyed.nodup_values⟩

variable {cache cache' : Cache γ} {pull : Pulling} {pin : Pin} {fetch : Fetch γ} {result : Result Acquired} {st : Step (System γ) (Op γ)}

theorem TrackedPull.start {receipt : Option Receipt} {requested : List String} {workers : Int} {now startedUtc : String}
    (h : ∀ r, receipt = some r → TrackedReceipt hashing lock trace r)
    (hstart : startPull hashing lock cache receipt requested workers now startedUtc = .ok pull)
    (hobserved : st.op.observed = some startedUtc) (hafter : st.after.cache = cache) :
    TrackedPull hashing lock (trace ++ [st]) cache pull := by
  simp only [startPull, bind_eq_ok, pure_eq_ok, require_eq_ok, Prod.exists] at hstart
  obtain ⟨rows, hrows, -, -, created, records, historical, hexisting, rfl⟩ := hstart
  obtain ⟨hkeyed, hsources⟩ := existingReceipt_records hexisting
  have hsubset := pinsOf_subset (selectRows_subset hrows)
  have hkeys : ((pinsOf rows).map Pin.candidateKey).Nodup := (selectRows_keys hrows).sublist (keys_pinsOf_sublist rows)
  let cached := (pinsOf rows).filter fun pin => Verified hashing cache pin.sha256
  have hcached : (cached.map Pin.candidateKey).Nodup := hkeys.sublist (List.filter_sublist.map _)
  have hkeyed' := @keyedBy_refreshed γ hashing lock cache startedUtc cached records hkeyed
  refine ⟨fun row hrow => ?_, hkeyed', fun pin hpin => hsubset (List.mem_filter.mp hpin).1, fun _ h => (by cases h)⟩
  have hrow' := hkeyed'.mem_values.mp hrow
  rw [get?_refreshed hcached] at hrow'
  split at hrow'
  · rename_i pin hfind
    obtain ⟨hpin, hverified⟩ := List.mem_filter.mp (List.mem_of_find?_eq_some hfind)
    rw [← Option.some.inj hrow']
    refine ⟨pin, hsubset hpin, rfl, rfl, rfl, st, by simp, hobserved, ?_⟩
    rw [hafter]
    simpa using hverified
  · obtain ⟨r, hr, hsource⟩ := hsources _ _ hrow'
    exact ((h r hr).rows row hsource).later st

theorem TrackedPull.acquire {earlier later : List Pin} (h : TrackedPull hashing lock trace cache pull)
    (hwaiting : pull.waiting = earlier ++ pin :: later) (hacquires : Acquires hashing cache pin fetch cache' result) :
    TrackedPull hashing lock trace cache'
      { pull with waiting := earlier ++ later, resolved := (pin, result) :: pull.resolved } := by
  have hsubset := h.waiting
  rw [hwaiting] at hsubset
  refine ⟨h.rows, h.keyed, fun p hp => hsubset ?_, fun entry hentry => ?_⟩
  · simp only [List.mem_append, List.mem_cons] at hp ⊢
    exact hp.imp id .inr
  · obtain rfl | hentry := List.mem_cons.mp hentry
    · exact ⟨hsubset (by simp), hacquires.verified⟩
    · obtain ⟨hmem, hok⟩ := h.resolved entry hentry
      exact ⟨hmem, fun acquired ha => (hok acquired ha).congr (hacquires.keeps (hok acquired ha))⟩

theorem TrackedPull.complete {earlier later : List (Pin × Result Acquired)} {observedUtc : String}
    (h : TrackedPull hashing lock trace cache pull) (hresolved : pull.resolved = earlier ++ (pin, result) :: later)
    (hobserved : st.op.observed = some observedUtc) (hafter : st.after.cache = cache) :
    TrackedPull hashing lock (trace ++ [st]) cache
      (completeRow lock { pull with resolved := earlier ++ later } pin result observedUtc) := by
  have hrest : ∀ entry ∈ earlier ++ later, entry ∈ pull.resolved := by
    intro entry hentry
    rw [hresolved]
    simp only [List.mem_append, List.mem_cons] at hentry ⊢
    exact hentry.imp id .inr
  have hlater := h.later st
  cases result with
  | error error => exact ⟨hlater.rows, h.keyed, h.waiting, fun entry he => h.resolved entry (hrest entry he)⟩
  | ok acquired =>
    obtain ⟨hpin, hok⟩ := h.resolved (pin, .ok acquired) (by simp [hresolved])
    refine ⟨fun row hrow => ?_, h.keyed.set rfl, h.waiting, fun entry he => h.resolved entry (hrest entry he)⟩
    obtain ⟨key, hget⟩ := Dict.mem_values.mp hrow
    rw [completeRow, Dict.get?_set] at hget
    split at hget
    · rw [← Option.some.inj hget]
      exact ⟨pin, hpin, rfl, rfl, rfl, st, by simp, hobserved, hafter ▸ hok acquired rfl⟩
    · exact hlater.rows row (Dict.mem_values.mpr ⟨key, hget⟩)

theorem Tracked.next (h : Tracked hashing lock trace s) (hnext : Next hashing lock s op t) :
    Tracked hashing lock (trace ++ [⟨s, op, t⟩]) t := by
  obtain ⟨hreceipt, hpull⟩ := h
  cases hnext with
  | start hstart =>
    refine ⟨fun r hr => ?_, fun p hp => ?_⟩
    · cases hr
      exact (TrackedPull.start hreceipt hstart rfl rfl).write _ _
    · cases hp
      exact TrackedPull.start hreceipt hstart rfl rfl
  | refuse _ => exact ⟨fun r hr => (hreceipt r hr).later _, fun _ hp => (by cases hp)⟩
  | acquire hwaiting =>
    refine ⟨fun r hr => (hreceipt r hr).later _, fun p hp => ?_⟩
    cases hp
    exact ((hpull _ rfl).acquire hwaiting acquire_acquires).later _
  | complete hresolved hcompleted =>
    subst hcompleted
    refine ⟨fun r hr => ?_, fun p hp => ?_⟩
    · cases hr
      exact ((hpull _ rfl).complete hresolved rfl rfl).write _ _
    · cases hp
      exact (hpull _ rfl).complete hresolved rfl rfl
  | finish _ _ =>
    refine ⟨fun r hr => ?_, fun _ hp => (by cases hp)⟩
    cases hr
    exact ((hpull _ rfl).later _).write _ _
  | change => exact ⟨fun r hr => (hreceipt r hr).later _, fun _ hp => (by cases hp)⟩
  | interrupt => exact ⟨fun r hr => (hreceipt r hr).later _, fun _ hp => (by cases hp)⟩

theorem tracked {cache : Cache γ} (h : Run (Next hashing lock) ⟨cache, none, none⟩ trace s) :
    Tracked hashing lock trace s := by
  induction h with
  | nil => exact ⟨fun _ hr => (by cases hr), fun _ hp => (by cases hp)⟩
  | snoc _ hnext ih => exact ih.next hnext

end History

end FidbPoc.Sources
