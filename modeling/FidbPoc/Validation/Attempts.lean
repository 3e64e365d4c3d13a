import FidbPoc.Lib.Numbered
import FidbPoc.Lib.Python
import FidbPoc.Lib.Run
import FidbPoc.Validation.Claims
import Mathlib.Data.List.Dedup
import Mathlib.Data.List.DropRight
import Mathlib.Data.String.Basic

namespace FidbPoc.Validation.Attempts

open FidbPoc.Lib FidbPoc.Lib.Numbered FidbPoc.Lib.Python

/-- A directory of JSON files, in the order of their writing. -/
abbrev Directory := Dict String

/-- What the receipt of an explicit requeue names. -/
structure Receipt where
  positions : List Nat
  /-- each position with its archived path -/
  archivedResults : List (Nat × String)

structure WorkUnit where
  routeId : String
  treatmentId : String

structure Manifest where
  /-- the run root, relative to the project root -/
  runPath : String
  positions : List Nat
  unit : Nat → WorkUnit

/-- What a run root holds of the unit results, their archived attempts and the requeues. -/
structure Records where
  results : Nat → Option Result
  attempts : Nat → Directory Result
  requeues : Directory Receipt

def Records.empty : Records := ⟨fun _ => none, fun _ => Dict.empty, Dict.empty⟩

def resultName (attempt : Nat) : String := "result-" ++ format03d attempt ++ ".json"

def receiptName (number : Nat) : String := "requeue-" ++ format03d number ++ ".json"

def reasonCodeOf : Result → Option String
  | .complete => none
  | .failed reasonCode => reasonCode

/-- `re.fullmatch(r"result-(\d+)\.json", name)` -/
def attemptNumber (name : List Char) : Option Nat :=
  if "result-".toList <+: name ∧ ".json".toList <:+ name then decimal ((name.drop 7).take (name.length - 12)) else none

/-- `re.search(r"/result-(\d+)\.json$", path)` -/
def archivedNumber (path : List Char) : Option Nat :=
  if '/' ∈ path then attemptNumber (path.rtakeWhile (· ≠ '/')) else none

/-- `int(folder.split("-", 1)[0])` -/
def positionOf (folder : List Char) : Option Nat := decimal (folder.takeWhile (· ≠ '-'))

section Run

variable (manifest : Manifest)

def unitFolder (position : Nat) : String :=
  format03d position ++ "-" ++ (manifest.unit position).routeId ++ "-" ++ (manifest.unit position).treatmentId

def archivedPath (position attempt : Nat) : String :=
  manifest.runPath ++ "/units/" ++ unitFolder manifest position ++ "/attempts/" ++ resultName attempt

/-- The first of the receipts, ordered by name and read backwards, that names the position. -/
def latestReceipt (requeues : Directory Receipt) (position : Nat) : Option Receipt :=
  ((requeues.entries.insertionSort fun a b => b.1 ≤ a.1).find? fun e => position ∈ e.2.positions).map Prod.snd

/-- The attempt that a receipt says was archived; zero where none of its rows says so. -/
def archivedAttempt (receipt : Receipt) (position : Nat) : Nat :=
  (receipt.archivedResults.findSome? fun row => if row.1 = position then archivedNumber row.2.toList else none).getD 0

def latestExplicitRequeueAttempt (records : Records) (position : Nat) : Nat :=
  match positionOf (unitFolder manifest position).toList with
  | none => 0
  | some position =>
    match latestReceipt records.requeues position with
    | none => 0
    | some receipt => archivedAttempt receipt position

def priorSupervisorAttempts (records : Records) (position : Nat) (reasonCode : String) : Nat :=
  (records.attempts position).entries.countP fun e =>
    match attemptNumber e.1.toList with
    | none => false
    | some attempt =>
      latestExplicitRequeueAttempt manifest records position < attempt && reasonCodeOf e.2 == some reasonCode

/-- A result that is not complete moves to the first free name; with the number of the attempt. -/
def archiveFailedResult (records : Records) (position : Nat) : Option (Records × Nat) :=
  match records.results position with
  | some (.failed reasonCode) =>
    let attempts := records.attempts position
    let attempt := free resultName (attempts.entries.map Prod.fst)
    some ({ records with
      results := Function.update records.results position none
      attempts := Function.update records.attempts position (attempts.set (resultName attempt) (.failed reasonCode)) },
      attempt)
  | _ => none

def write (records : Records) (position : Nat) (result : Result) : Records :=
  if (records.results position).isSome then records
  else { records with results := Function.update records.results position (some result) }

def supervisorFailure (records : Records) (position : Nat) (reasonCode : String) : Records :=
  write records position (.failed (some reasonCode))

/-- What the supervisor does about a cell whose worker it has stopped for a timeout. -/
def handleTimeout (cellTimeoutAttempts : Nat) (records : Records) (position : Nat) : Records :=
  let failed := supervisorFailure records position "cell-timeout"
  let attempt := priorSupervisorAttempts manifest failed position "cell-timeout" + 1
  if attempt < cellTimeoutAttempts ∧ (failed.results position).bind reasonCodeOf = some "cell-timeout" then
    ((archiveFailedResult failed position).map Prod.fst).getD failed
  else failed

/-- Archive the candidates of a requeue one by one, with the rows of its receipt. -/
def archiveRows : List Nat → Records → Option (Records × List (Nat × String))
  | [], records => some (records, [])
  | position :: rest, records => do
    let (archived, attempt) ← archiveFailedResult records position
    let (final, rows) ← archiveRows rest archived
    return (final, (position, archivedPath manifest position attempt) :: rows)

def requeueFailedValidation (records : Records) (positions : List Nat) : Option Records :=
  let requested := positions.dedup.insertionSort (· ≤ ·)
  if requested = [] ∨ (∃ p ∈ requested, p < 1) then none
  else if ∃ p ∈ requested, p ∉ manifest.positions then none
  else if ∃ p ∈ requested, records.results p = none ∨ records.results p = some .complete then none
  else do
    let (archived, rows) ← archiveRows manifest requested records
    let number := free receiptName (archived.requeues.entries.map Prod.fst)
    return { archived with requeues := archived.requeues.set (receiptName number) ⟨requested, rows⟩ }

/-- The failures that the supervisor records beside timeouts. -/
inductive Cause
  | preparationFailed
  | workerRestartsExhausted
  deriving DecidableEq

def Cause.reasonCode : Cause → String
  | .preparationFailed => "preparation-failed"
  | .workerRestartsExhausted => "worker-restarts-exhausted"

/-- What happens to the unit results of a run: a worker comes to a position and runs it, the supervisor
records a failure or handles a timeout, a failed result is archived, an operator requeues positions. -/
inductive Op
  | work (position : Nat) (failed : Bool)
  | fail (position : Nat) (cause : Cause)
  | timeout (position : Nat) (cellTimeoutAttempts : Nat)
  | archive (position : Nat)
  | requeue (positions : List Nat)

/-- A step, unless the operation raises. A worker passes over a position that has a result. -/
def step (records : Records) : Op → Option Records
  | .work position failed => some (write records position (if failed then .failed none else .complete))
  | .fail position cause => some (supervisorFailure records position cause.reasonCode)
  | .timeout position cellTimeoutAttempts => some (handleTimeout manifest cellTimeoutAttempts records position)
  | .archive position => some (((archiveFailedResult records position).map Prod.fst).getD records)
  | .requeue positions => requeueFailedValidation manifest records positions

def next (records : Records) (op : Op) (records' : Records) : Prop := step manifest records op = some records'

end Run

section Names

theorem decimal_mid (value : Nat) (before after : List Char) :
    decimal (((before ++ ((format03d value).toList ++ after)).drop before.length).take (format03d value).toList.length) =
      some value := by
  rw [List.drop_left, List.take_left]
  exact decimal_format03d value

theorem toList_resultName (attempt : Nat) :
    (resultName attempt).toList = "result-".toList ++ ((format03d attempt).toList ++ ".json".toList) := by
  simp [resultName]

theorem attemptNumber_resultName (attempt : Nat) : attemptNumber (resultName attempt).toList = some attempt := by
  have hlength : (resultName attempt).toList.length - 12 = (format03d attempt).toList.length := by
    rw [toList_resultName]
    simp
  have hends : "result-".toList <+: (resultName attempt).toList ∧ ".json".toList <:+ (resultName attempt).toList := by
    rw [toList_resultName]
    exact ⟨List.prefix_append .., (List.suffix_append ..).trans (List.suffix_append ..)⟩
  rw [attemptNumber, if_pos hends, hlength, toList_resultName]
  exact decimal_mid attempt "result-".toList ".json".toList

theorem resultName_injective : Function.Injective resultName := by
  intro m n h
  have hread := attemptNumber_resultName m
  rw [h, attemptNumber_resultName n] at hread
  exact (Option.some.inj hread).symm

theorem receiptName_injective : Function.Injective receiptName := by
  intro m n h
  have hlist := congrArg String.toList h
  simp only [receiptName, String.toList_append, List.append_assoc, List.append_cancel_left_eq,
    List.append_cancel_right_eq] at hlist
  exact format03d_injective (String.toList_inj.mp hlist)

theorem slash_not_mem_resultName (attempt : Nat) : '/' ∉ (resultName attempt).toList := by
  rw [toList_resultName, List.mem_append, List.mem_append]
  rintro (h | h | h)
  · exact absurd h (by decide)
  · exact absurd (isDigit_format03d h) (by decide)
  · exact absurd h (by decide)

/-- A receipt names the attempt that was archived. -/
theorem archivedNumber_archivedPath (manifest : Manifest) (position attempt : Nat) :
    archivedNumber (archivedPath manifest position attempt).toList = some attempt := by
  obtain ⟨folders, hfolders⟩ : ∃ folders, (archivedPath manifest position attempt).toList =
      (folders ++ ['/']) ++ (resultName attempt).toList := by
    refine ⟨(manifest.runPath ++ "/units/" ++ unitFolder manifest position ++ "/attempts").toList, ?_⟩
    simp [archivedPath]
  have hname : ((folders ++ ['/']) ++ (resultName attempt).toList).rtakeWhile (· ≠ '/') = (resultName attempt).toList := by
    rw [List.rtakeWhile, List.reverse_append, List.takeWhile_append_of_pos]
    · simp
    · intro c hc
      have hne : c ≠ '/' := by
        rintro rfl
        exact slash_not_mem_resultName attempt (List.mem_reverse.mp hc)
      simpa using hne
  rw [archivedNumber, hfolders, if_pos (by simp), hname]
  exact attemptNumber_resultName attempt

/-- The folder of a unit gives its position back. -/
theorem positionOf_unitFolder (manifest : Manifest) (position : Nat) :
    positionOf (unitFolder manifest position).toList = some position := by
  obtain ⟨rest, hrest⟩ : ∃ rest, (unitFolder manifest position).toList = (format03d position).toList ++ '-' :: rest := by
    refine ⟨((manifest.unit position).routeId ++ "-" ++ (manifest.unit position).treatmentId).toList, ?_⟩
    simp [unitFolder]
  have hdigits : ∀ c ∈ (format03d position).toList, decide (c ≠ '-') = true := by
    intro c hc
    have hdigit := isDigit_format03d hc
    by_contra hdash
    obtain rfl : c = '-' := by simpa using hdash
    exact absurd hdigit (by decide)
  rw [positionOf, hrest, List.takeWhile_append_of_pos hdigits]
  simpa using decimal_format03d position

end Names

section Effects

variable {manifest : Manifest} {r r' r'' : Records}

/-- Attempts and receipts are numbered from one on, in the order of their writing. -/
structure Kept (r : Records) : Prop where
  attempts : ∀ p, Consecutive resultName ((r.attempts p).entries.map Prod.fst)
  requeues : Consecutive receiptName (r.requeues.entries.map Prod.fst)

theorem kept_empty : Kept .empty := ⟨fun _ => consecutive_nil _, consecutive_nil _⟩

/-- The failed results of some positions have moved to the attempts. -/
structure Archives (before after : Records) (ps : List Nat) : Prop where
  results : ∀ q, after.results q = if q ∈ ps then none else before.results q
  kept : ∀ q ∉ ps, after.attempts q = before.attempts q
  added : ∀ q ∈ ps, ∃ reasonCode, before.results q = some (.failed reasonCode) ∧
    (after.attempts q).entries =
      (before.attempts q).entries ++ [(resultName ((before.attempts q).entries.length + 1), .failed reasonCode)]
  requeues : after.requeues = before.requeues

theorem Kept.free_eq (hk : Kept r) (p : Nat) :
    free resultName ((r.attempts p).entries.map Prod.fst) = (r.attempts p).entries.length + 1 := by
  rw [(hk.attempts p).free_eq resultName_injective, List.length_map]

theorem archiveFailedResult_archives (hk : Kept r) {p n : Nat} (h : archiveFailedResult r p = some (r', n)) :
    Archives r r' [p] ∧ n = (r.attempts p).entries.length + 1 := by
  unfold archiveFailedResult at h
  split at h
  · rename_i reasonCode hresult
    simp only [Option.some.injEq, Prod.mk.injEq] at h
    obtain ⟨rfl, rfl⟩ := h
    refine ⟨⟨fun q => ?_, fun q hq => ?_, fun q hq => ⟨reasonCode, ?_, ?_⟩, rfl⟩, hk.free_eq p⟩
    · simp [Function.update_apply]
    · simp [List.mem_singleton.not.mp hq]
    · rwa [List.mem_singleton.mp hq]
    · obtain rfl := List.mem_singleton.mp hq
      have hfree := free_not_mem resultName_injective ((r.attempts q).entries.map Prod.fst)
      rw [hk.free_eq q] at hfree
      simp only [Function.update_self, Dict.entries_set, hk.free_eq q, Dict.assign_of_not_mem hfree]
  · cases h

theorem archiveFailedResult_isSome {p : Nat} {reasonCode : Option String} (h : r.results p = some (.failed reasonCode)) :
    (archiveFailedResult r p).isSome := by
  simp [archiveFailedResult, h]

theorem Archives.nil : Archives r r [] :=
  ⟨fun q => by simp, fun _ _ => rfl, fun q hq => absurd hq List.not_mem_nil, rfl⟩

/-- Two archivings of different positions are one of them all. -/
theorem Archives.append {ps ps' : List Nat} (h : Archives r r' ps) (h' : Archives r' r'' ps') (hne : ∀ p ∈ ps, p ∉ ps') :
    Archives r r'' (ps ++ ps') := by
  refine ⟨fun q => ?_, fun q hq => ?_, fun q hq => ?_, h'.requeues.trans h.requeues⟩
  · rw [h'.results, h.results]
    by_cases hq : q ∈ ps <;> by_cases hq' : q ∈ ps' <;> simp [hq, hq']
  · rw [List.mem_append, not_or] at hq
    rw [h'.kept q hq.2, h.kept q hq.1]
  · by_cases hp : q ∈ ps
    · rw [h'.kept q (hne q hp)]
      exact h.added q hp
    · obtain ⟨reasonCode, hresult, hentries⟩ := h'.added q ((List.mem_append.mp hq).resolve_left hp)
      rw [h.results, if_neg hp] at hresult
      rw [h.kept q hp] at hentries
      exact ⟨reasonCode, hresult, hentries⟩

theorem Archives.attempts_prefix {ps : List Nat} (h : Archives r r' ps) (q : Nat) :
    (r.attempts q).entries <+: (r'.attempts q).entries := by
  by_cases hq : q ∈ ps
  · obtain ⟨reasonCode, -, hentries⟩ := h.added q hq
    exact hentries ▸ List.prefix_append ..
  · exact ⟨[], by rw [List.append_nil, h.kept q hq]⟩

theorem Archives.keeps {ps : List Nat} (h : Archives r r' ps) (hk : Kept r) : Kept r' := by
  refine ⟨fun q => ?_, h.requeues ▸ hk.requeues⟩
  by_cases hq : q ∈ ps
  · obtain ⟨reasonCode, -, hentries⟩ := h.added q hq
    rw [hentries, List.map_append, List.map_singleton, consecutive_concat, List.length_map]
    exact ⟨hk.attempts q, rfl⟩
  · rw [h.kept q hq]
    exact hk.attempts q

theorem archiveRows_archives (hk : Kept r) {ps : List Nat} (hnodup : ps.Nodup) {rows : List (Nat × String)}
    (h : archiveRows manifest ps r = some (r', rows)) :
    Archives r r' ps ∧ rows = ps.map fun p => (p, archivedPath manifest p ((r.attempts p).entries.length + 1)) := by
  induction ps generalizing r rows with
  | nil =>
    simp only [archiveRows, Option.some.injEq, Prod.mk.injEq] at h
    obtain ⟨rfl, rfl⟩ := h
    exact ⟨.nil, rfl⟩
  | cons p ps ih =>
    obtain ⟨hp, hnodup⟩ := List.nodup_cons.mp hnodup
    simp only [archiveRows, Option.bind_eq_bind, Option.bind_eq_some_iff, Prod.exists, Option.pure_def,
      Option.some.injEq, Prod.mk.injEq] at h
    obtain ⟨archived, n, harchived, final, rest, hrest, rfl, rfl⟩ := h
    obtain ⟨hone, rfl⟩ := archiveFailedResult_archives hk harchived
    obtain ⟨hall, rfl⟩ := ih (hone.keeps hk) hnodup hrest
    have hkept : ∀ q ∈ ps, archived.attempts q = r.attempts q := by
      intro q hq
      apply hone.kept
      rw [List.mem_singleton]
      rintro rfl
      exact hp hq
    refine ⟨hone.append hall fun q hq => List.mem_singleton.mp hq ▸ hp, ?_⟩
    rw [List.map_cons, List.map_congr_left fun q hq => by rw [hkept q hq]]

/-- What an explicit requeue leaves behind: every position archived once, and a receipt that says so. -/
structure Requeues (manifest : Manifest) (before after : Records) (requested : List Nat) : Prop where
  archives : Archives before { after with requeues := before.requeues } requested
  receipt : after.requeues.entries = before.requeues.entries ++ [(receiptName (before.requeues.entries.length + 1),
    ⟨requested, requested.map fun p => (p, archivedPath manifest p ((before.attempts p).entries.length + 1))⟩)]

theorem requeueFailedValidation_requeues (hk : Kept r) {positions : List Nat}
    (h : requeueFailedValidation manifest r positions = some r') :
    Requeues manifest r r' (positions.dedup.insertionSort (· ≤ ·)) := by
  unfold requeueFailedValidation at h
  simp only at h
  split at h
  · cases h
  split at h
  · cases h
  split at h
  · cases h
  have hnodup : (positions.dedup.insertionSort (· ≤ ·)).Nodup :=
    (List.perm_insertionSort ..).nodup_iff.mpr (List.nodup_dedup _)
  simp only [Option.bind_eq_bind, Option.bind_eq_some_iff, Prod.exists, Option.pure_def, Option.some.injEq] at h
  obtain ⟨archived, rows, harchived, rfl⟩ := h
  obtain ⟨harchives, rfl⟩ := archiveRows_archives hk hnodup harchived
  have hfree := free_not_mem receiptName_injective (archived.requeues.entries.map Prod.fst)
  have hsame : archived.requeues = r.requeues := harchives.requeues
  refine ⟨⟨harchives.results, harchives.kept, harchives.added, rfl⟩, ?_⟩
  rw [Dict.entries_set, Dict.assign_of_not_mem hfree, (harchives.keeps hk).requeues.free_eq receiptName_injective,
    List.length_map, hsame]

theorem Requeues.keeps {requested : List Nat} (h : Requeues manifest r r' requested) (hk : Kept r) : Kept r' := by
  refine ⟨(h.archives.keeps hk).attempts, ?_⟩
  rw [h.receipt, List.map_append, List.map_singleton, consecutive_concat, List.length_map]
  exact ⟨hk.requeues, rfl⟩

end Effects

end FidbPoc.Validation.Attempts
