import FidbPoc.Validation.Attempts

namespace FidbPoc.Validation.Attempts

open FidbPoc.Lib FidbPoc.Lib.Numbered FidbPoc.Lib.Python

def timedOut : Result := .failed (some "cell-timeout")

section History

variable (p : Nat)

def requeues (st : Step Records Op) : Bool :=
  match st.op with
  | .requeue positions => decide (p ∈ positions)
  | _ => false

/-- The supervisor's step puts a timeout down for the position, which had no result. -/
def timesOut (st : Step Records Op) : Bool :=
  match st.op with
  | .timeout position _ => decide (position = p) && (st.before.results p).isNone
  | _ => false

/-- The number of the first attempt that a step adds to those of the position. -/
def addedAttempt (st : Step Records Op) : Nat :=
  (((st.after.attempts p).entries.drop (st.before.attempts p).entries.length).head?.bind fun e =>
    attemptNumber e.1.toList).getD 0

/-- The attempt that the latest explicit requeue of the position archived; zero before the first. -/
def requeuedAttempt (trace : List (Step Records Op)) : Nat :=
  trace.foldl (fun boundary st => if requeues p st then addedAttempt p st else boundary) 0

/-- The timeouts of the position since its latest explicit requeue. -/
def timeouts (trace : List (Step Records Op)) : Nat :=
  trace.foldl (fun n st => if requeues p st then 0 else if timesOut p st then n + 1 else n) 0

/-- What the retry allowance promises of a position: no attempt is overwritten, the boundary is the latest requeue's
attempt, and a timed-out cell is made pending again while the allowance since that requeue lasts. -/
structure Restarts (manifest : Manifest) (trace : List (Step Records Op)) (r : Records) : Prop where
  kept : ∀ st ∈ trace, ∀ e ∈ (st.before.attempts p).entries, e ∈ (st.after.attempts p).entries
  boundary : latestExplicitRequeueAttempt manifest r p = requeuedAttempt p trace
  retried : r.results p = none → ∀ cellTimeoutAttempts,
    ((handleTimeout manifest cellTimeoutAttempts r p).results p = none ↔ timeouts p trace + 1 < cellTimeoutAttempts)

/-- A receipt with the number names the position. -/
def Names (r : Records) (number : Nat) : Prop :=
  ∃ receipt, r.requeues.get? (receiptName number) = some receipt ∧ p ∈ receipt.positions

/-- The name of the last receipt that names the position is the greatest, as text, of the names of such receipts. -/
def LastByName (r : Records) : Prop :=
  ∀ last, Names p r last → (∀ number, Names p r number → number ≤ last) →
    ∀ number, Names p r number → receiptName number ≤ receiptName last

def naming (r : Records) : List (String × Receipt) := r.requeues.entries.filter fun e => p ∈ e.2.positions

/-- The timeouts of a position among its attempts after a boundary and its result. -/
def timedOutSince (r : Records) (boundary : Nat) : Nat :=
  ((r.attempts p).entries.drop boundary).countP (fun e => e.2 = timedOut) + if r.results p = some timedOut then 1 else 0

end History

section Steps

variable {manifest : Manifest} {r r' : Records} {trace : List (Step Records Op)}

theorem requeuedAttempt_snoc (p : Nat) (st : Step Records Op) :
    requeuedAttempt p (trace ++ [st]) = if requeues p st then addedAttempt p st else requeuedAttempt p trace :=
  List.foldl_concat ..

theorem timeouts_snoc (p : Nat) (st : Step Records Op) :
    timeouts p (trace ++ [st]) =
      if requeues p st then 0 else if timesOut p st then timeouts p trace + 1 else timeouts p trace :=
  List.foldl_concat ..

/-- The files of a run account for its history. -/
structure Accounted (trace : List (Step Records Op)) (r : Records) : Prop where
  kept : Kept r
  archived : ∀ e ∈ r.requeues.entries, ∀ p ∈ e.2.positions,
    1 ≤ archivedAttempt e.2 p ∧ archivedAttempt e.2 p ≤ (r.attempts p).entries.length
  ascending : ∀ p, (naming p r).Pairwise fun e e' => archivedAttempt e.2 p < archivedAttempt e'.2 p
  requeued : ∀ p, requeuedAttempt p trace = ((naming p r).getLast?.map fun e => archivedAttempt e.2 p).getD 0
  counted : ∀ p, timeouts p trace = timedOutSince p r (requeuedAttempt p trace)

theorem accounted_empty : Accounted [] .empty :=
  ⟨kept_empty, fun _ he => absurd he List.not_mem_nil, fun _ => .nil, fun _ => rfl, fun _ => rfl⟩

theorem Accounted.requeuedAttempt_le (h : Accounted trace r) (p : Nat) :
    requeuedAttempt p trace ≤ (r.attempts p).entries.length := by
  rw [h.requeued p]
  cases hlast : (naming p r).getLast? with
  | none => exact Nat.zero_le _
  | some e =>
    obtain ⟨he, hp⟩ := List.mem_filter.mp (List.mem_of_getLast? hlast)
    exact (h.archived e he p (of_decide_eq_true hp)).2

/-- A step that writes no receipt: the attempts grow, and the timeouts by those that the step records. -/
structure Quiet (st : Step Records Op) : Prop where
  kept : Kept st.after
  requeues : st.after.requeues = st.before.requeues
  attempts : ∀ p, (st.before.attempts p).entries <+: (st.after.attempts p).entries
  counted : ∀ p boundary, boundary ≤ (st.before.attempts p).entries.length →
    timedOutSince p st.after boundary = timedOutSince p st.before boundary + if timesOut p st then 1 else 0

theorem Accounted.quiet {st : Step Records Op} (h : Accounted trace st.before) (hq : Quiet st)
    (hop : ∀ p, Attempts.requeues p st = false) : Accounted (trace ++ [st]) st.after := by
  have hnaming : ∀ p, naming p st.after = naming p st.before := fun p => by rw [naming, naming, hq.requeues]
  have hboundary : ∀ p, requeuedAttempt p (trace ++ [st]) = requeuedAttempt p trace := fun p => by
    simp [requeuedAttempt_snoc, hop p]
  refine ⟨hq.kept, fun e he p hp => ?_, fun p => ?_, fun p => ?_, fun p => ?_⟩
  · obtain ⟨hone, hle⟩ := h.archived e (hq.requeues ▸ he) p hp
    exact ⟨hone, hle.trans (hq.attempts p).length_le⟩
  · rw [hnaming p]
    exact h.ascending p
  · rw [hboundary p, hnaming p, h.requeued p]
  · rw [hboundary p, timeouts_snoc, hop p, hq.counted p _ (h.requeuedAttempt_le p), ← h.counted p]
    cases timesOut p st <;> rfl

theorem timedOutSince_write (p q boundary : Nat) (result : Result) :
    timedOutSince p (write r q result) boundary =
      timedOutSince p r boundary + if q = p ∧ r.results p = none ∧ result = timedOut then 1 else 0 := by
  unfold write
  split
  · rename_i hsome
    have hnot : ¬(q = p ∧ r.results p = none ∧ result = timedOut) := by
      rintro ⟨rfl, hnone, -⟩
      simp [hnone] at hsome
    rw [if_neg hnot, Nat.add_zero]
  · rename_i hnone
    by_cases hq : q = p
    · subst hq
      have hnone : r.results q = none := by simpa using hnone
      simp [timedOutSince, hnone]
    · simp [timedOutSince, hq, Function.update_of_ne (Ne.symm hq)]

theorem timedOutSince_archives {ps : List Nat} (h : Archives r r' ps) (p boundary : Nat)
    (hb : boundary ≤ (r.attempts p).entries.length) : timedOutSince p r' boundary = timedOutSince p r boundary := by
  unfold timedOutSince
  by_cases hp : p ∈ ps
  · obtain ⟨reasonCode, hresult, hentries⟩ := h.added p hp
    rw [hentries, List.drop_append_of_le_length hb, List.countP_append, List.countP_singleton, h.results, if_pos hp, hresult]
    simp
  · rw [h.kept p hp, h.results, if_neg hp]

theorem write_kept (hk : Kept r) (p : Nat) (result : Result) : Kept (write r p result) := by
  unfold write
  split
  · exact hk
  · exact ⟨hk.attempts, hk.requeues⟩

@[simp] theorem write_attempts (p : Nat) (result : Result) : (write r p result).attempts = r.attempts := by
  unfold write
  split <;> rfl

@[simp] theorem write_requeues (p : Nat) (result : Result) : (write r p result).requeues = r.requeues := by
  unfold write
  split <;> rfl

theorem quiet_of_archives {st : Step Records Op} {middle : Records} {ps : List Nat} (hk : Kept middle)
    (hattempts : middle.attempts = st.before.attempts) (hrequeues : middle.requeues = st.before.requeues)
    (hcount : ∀ p boundary, timedOutSince p middle boundary =
      timedOutSince p st.before boundary + if timesOut p st then 1 else 0)
    (h : Archives middle st.after ps) : Quiet st := by
  refine ⟨h.keeps hk, h.requeues.trans hrequeues, fun p => ?_, fun p boundary hb => ?_⟩
  · rw [← hattempts]
    exact h.attempts_prefix p
  · rw [timedOutSince_archives h p boundary (hattempts ▸ hb), hcount]

theorem archives_getD (hk : Kept r) (p : Nat) : ∃ ps, Archives r (((archiveFailedResult r p).map Prod.fst).getD r) ps := by
  cases harchived : archiveFailedResult r p with
  | none => exact ⟨[], .nil⟩
  | some archived => exact ⟨[p], (archiveFailedResult_archives (n := archived.2) hk harchived).1⟩

theorem handleTimeout_archives (hk : Kept r) (cellTimeoutAttempts p : Nat) :
    ∃ ps, Archives (write r p timedOut) (handleTimeout manifest cellTimeoutAttempts r p) ps := by
  unfold handleTimeout
  simp only
  split
  · exact archives_getD (write_kept hk p _) p
  · exact ⟨[], .nil⟩

/-- Every operation but a requeue is quiet. -/
theorem quiet_of_next {before after : Records} {op : Op} (hk : Kept before) (hn : next manifest before op after)
    (hop : ∀ positions, op ≠ .requeue positions) : Quiet ⟨before, op, after⟩ := by
  have hwrite : ∀ q result, result ≠ timedOut → (∀ p, timesOut p ⟨before, op, write before q result⟩ = false) →
      Quiet ⟨before, op, write before q result⟩ := by
    intro q result hne htimes
    refine quiet_of_archives (write_kept hk q result) (write_attempts q result) (write_requeues q result)
      (fun p boundary => ?_) .nil
    rw [timedOutSince_write, htimes p, if_neg fun h => hne h.2.2]
    rfl
  cases op with
  | work q failed =>
    obtain rfl := Option.some.inj hn
    refine hwrite q _ ?_ fun _ => rfl
    cases failed <;> decide
  | fail q cause =>
    obtain rfl := Option.some.inj hn
    refine hwrite q _ ?_ fun _ => rfl
    cases cause <;> decide
  | timeout q cellTimeoutAttempts =>
    obtain rfl := Option.some.inj hn
    obtain ⟨ps, harchives⟩ := @handleTimeout_archives manifest _ hk cellTimeoutAttempts q
    refine quiet_of_archives (write_kept hk q timedOut) (write_attempts q _) (write_requeues q _)
      (fun p boundary => ?_) harchives
    rw [timedOutSince_write]
    simp [timesOut]
  | archive q =>
    obtain rfl := Option.some.inj hn
    obtain ⟨ps, harchives⟩ := archives_getD hk q
    exact quiet_of_archives hk rfl rfl (fun _ _ => rfl) harchives
  | requeue positions => exact absurd rfl (hop positions)

theorem archivedAttempt_rows {requested : List Nat} (number : Nat → Nat) {p : Nat} (hp : p ∈ requested) :
    archivedAttempt ⟨requested, requested.map fun q => (q, archivedPath manifest q (number q))⟩ p = number p := by
  have hfound : ∀ qs : List Nat, p ∈ qs → ((qs.map fun q => (q, archivedPath manifest q (number q))).findSome? fun row =>
      if row.1 = p then archivedNumber row.2.toList else none) = some (number p) := by
    intro qs hqs
    induction qs with
    | nil => cases hqs
    | cons q qs ih =>
      by_cases hq : q = p
      · subst hq
        simp [archivedNumber_archivedPath]
      · simpa [hq] using ih ((List.mem_cons.mp hqs).resolve_left (Ne.symm hq))
  rw [archivedAttempt, hfound requested hp]
  rfl

theorem addedAttempt_requeue {st : Step Records Op} {requested : List Nat}
    (h : Requeues manifest st.before st.after requested) {p : Nat} (hp : p ∈ requested) :
    addedAttempt p st = (st.before.attempts p).entries.length + 1 := by
  obtain ⟨reasonCode, -, hentries⟩ := h.archives.added p hp
  have hafter : (st.after.attempts p).entries = (st.before.attempts p).entries ++
    [(resultName ((st.before.attempts p).entries.length + 1), .failed reasonCode)] := hentries
  rw [addedAttempt, hafter, List.drop_left, List.head?_cons, Option.bind_some, attemptNumber_resultName]
  rfl

/-- A requeue restarts the accounts of the positions that it names. -/
theorem Accounted.requeue {st : Step Records Op} {requested : List Nat} (h : Accounted trace st.before)
    (hr : Requeues manifest st.before st.after requested) (hop : ∀ p, requeues p st = decide (p ∈ requested))
    (htimes : ∀ p, timesOut p st = false) : Accounted (trace ++ [st]) st.after := by
  have hnaming : ∀ p, naming p st.after = naming p st.before ++ if p ∈ requested then
      [(receiptName (st.before.requeues.entries.length + 1),
        ⟨requested, requested.map fun q => (q, archivedPath manifest q ((st.before.attempts q).entries.length + 1))⟩)]
      else [] := by
    intro p
    rw [naming, hr.receipt, List.filter_append, List.filter_singleton, naming]
    by_cases hp : p ∈ requested <;> simp [hp]
  have hlength : ∀ p, (st.before.attempts p).entries.length ≤ (st.after.attempts p).entries.length := fun p =>
    (hr.archives.attempts_prefix p).length_le
  have hattempt := @archivedAttempt_rows manifest requested fun q => (st.before.attempts q).entries.length + 1
  refine ⟨hr.keeps h.kept, fun e he p hp => ?_, fun p => ?_, fun p => ?_, fun p => ?_⟩
  · rw [hr.receipt] at he
    obtain he | he := List.mem_append.mp he
    · exact ⟨(h.archived e he p hp).1, (h.archived e he p hp).2.trans (hlength p)⟩
    · obtain rfl := List.mem_singleton.mp he
      obtain ⟨reasonCode, -, hentries⟩ := hr.archives.added p hp
      have hafter := congrArg List.length hentries
      rw [List.length_append, List.length_singleton] at hafter
      rw [hattempt hp]
      exact ⟨Nat.succ_pos _, hafter.ge⟩
  · rw [hnaming p]
    split
    · rename_i hp
      refine List.pairwise_append.mpr ⟨h.ascending p, List.pairwise_singleton .., fun e he e' he' => ?_⟩
      obtain ⟨hmem, hpe⟩ := List.mem_filter.mp he
      obtain rfl := List.mem_singleton.mp he'
      rw [hattempt hp]
      exact Nat.lt_succ_of_le (h.archived e hmem p (of_decide_eq_true hpe)).2
    · rw [List.append_nil]
      exact h.ascending p
  · rw [hnaming p, requeuedAttempt_snoc, hop p]
    by_cases hp : p ∈ requested
    · rw [if_pos hp, if_pos (decide_eq_true hp), addedAttempt_requeue hr hp, List.getLast?_concat]
      exact (hattempt hp).symm
    · rw [if_neg hp, if_neg (by simp [hp]), List.append_nil, h.requeued p]
  · rw [requeuedAttempt_snoc, timeouts_snoc, hop p, htimes p]
    by_cases hp : p ∈ requested
    · obtain ⟨reasonCode, -, hentries⟩ := hr.archives.added p hp
      have hdrop : (st.after.attempts p).entries.drop ((st.before.attempts p).entries.length + 1) = [] := by
        have hafter := congrArg List.length hentries
        rw [List.length_append, List.length_singleton] at hafter
        exact List.drop_eq_nil_of_le hafter.le
      have hnone : st.after.results p = none := (hr.archives.results p).trans (if_pos hp)
      rw [if_pos (decide_eq_true hp), if_pos (decide_eq_true hp), addedAttempt_requeue hr hp, timedOutSince, hdrop, hnone]
      rfl
    · have hkept : st.after.attempts p = st.before.attempts p := hr.archives.kept p hp
      have hsame : st.after.results p = st.before.results p := (hr.archives.results p).trans (if_neg hp)
      have hnot : ¬decide (p ∈ requested) = true := by simp [hp]
      rw [if_neg hnot, if_neg hnot, if_neg Bool.false_ne_true, h.counted p, timedOutSince, timedOutSince, hkept, hsame]

theorem requeue_of_next {before after : Records} {positions : List Nat} (hk : Kept before)
    (hn : next manifest before (.requeue positions) after) :
    Requeues manifest before after (positions.dedup.insertionSort (· ≤ ·)) :=
  requeueFailedValidation_requeues hk hn

/-- No step overwrites an attempt. -/
theorem kept_of_next {before after : Records} {op : Op} (hk : Kept before) (hn : next manifest before op after) :
    Kept after ∧ ∀ p, (before.attempts p).entries <+: (after.attempts p).entries := by
  by_cases hop : ∃ positions, op = .requeue positions
  · obtain ⟨positions, rfl⟩ := hop
    have hr := requeue_of_next hk hn
    exact ⟨hr.keeps hk, fun p => hr.archives.attempts_prefix p⟩
  · have hq := quiet_of_next hk hn fun positions h => hop ⟨positions, h⟩
    exact ⟨hq.kept, hq.attempts⟩

theorem accounted_of_run (h : Run (next manifest) .empty trace r) : Accounted trace r := by
  induction h with
  | nil => exact accounted_empty
  | @snoc trace before op after _ hn ih =>
    by_cases hop : ∃ positions, op = .requeue positions
    · obtain ⟨positions, rfl⟩ := hop
      refine ih.requeue (requeue_of_next ih.kept hn) (fun p => ?_) fun _ => rfl
      rw [decide_eq_decide.mpr ((List.mem_insertionSort _).trans List.mem_dedup)]
      rfl
    · have hne : ∀ positions, op ≠ .requeue positions := fun positions h => hop ⟨positions, h⟩
      refine ih.quiet (quiet_of_next ih.kept hn hne) fun p => ?_
      cases op with
      | requeue positions => exact absurd rfl (hne positions)
      | _ => rfl

theorem attempts_kept_of_run (h : Run (next manifest) .empty trace r) (p : Nat) :
    ∀ st ∈ trace, ∀ e ∈ (st.before.attempts p).entries, e ∈ (st.after.attempts p).entries := by
  intro st hst e he
  obtain ⟨hn, hk⟩ := h.invariant_before kept_empty (fun st _ hn hk => (kept_of_next hk hn).1) st hst
  exact ((kept_of_next hk hn).2 p).subset he

end Steps

section Boundary

variable {manifest : Manifest} {r : Records} {trace : List (Step Records Op)} {p : Nat}

theorem mem_naming {e : String × Receipt} : e ∈ naming p r ↔ e ∈ r.requeues.entries ∧ p ∈ e.2.positions := by
  simp [naming]

theorem names_iff {number : Nat} : Names p r number ↔ ∃ e ∈ naming p r, e.1 = receiptName number := by
  constructor
  · rintro ⟨receipt, hreceipt, hp⟩
    exact ⟨(receiptName number, receipt), mem_naming.mpr ⟨Dict.get?_eq_some_iff.mp hreceipt, hp⟩, rfl⟩
  · rintro ⟨⟨_, receipt⟩, he, rfl⟩
    obtain ⟨hmem, hp⟩ := mem_naming.mp he
    exact ⟨receipt, Dict.get?_eq_some_iff.mpr hmem, hp⟩

/-- The receipt taken is the one with the greatest name. -/
theorem latestReceipt_spec (r : Records) (p : Nat) : (latestReceipt r.requeues p = none ∧ naming p r = []) ∨
    ∃ e ∈ naming p r, latestReceipt r.requeues p = some e.2 ∧ ∀ e' ∈ naming p r, e'.1 ≤ e.1 := by
  let order : String × Receipt → String × Receipt → Prop := fun a b => b.1 ≤ a.1
  have : Std.Total order := ⟨fun a b => le_total b.1 a.1⟩
  have : IsTrans (String × Receipt) order := ⟨fun a b c hab hbc => le_trans hbc hab⟩
  have hsorted : (r.requeues.entries.insertionSort order).Pairwise order := List.pairwise_insertionSort ..
  cases hfind : (r.requeues.entries.insertionSort order).find? fun e => decide (p ∈ e.2.positions) with
  | none =>
    refine .inl ⟨by rw [latestReceipt, hfind]; rfl, List.eq_nil_iff_forall_not_mem.mpr fun e he => ?_⟩
    obtain ⟨hmem, hp⟩ := mem_naming.mp he
    exact absurd hp (by simpa using List.find?_eq_none.mp hfind e ((List.mem_insertionSort _).mpr hmem))
  | some e =>
    refine .inr ⟨e, mem_naming.mpr ⟨?_, ?_⟩, by rw [latestReceipt, hfind]; rfl, fun e' he' => ?_⟩
    · exact (List.mem_insertionSort _).mp (List.mem_of_find?_eq_some hfind)
    · simpa using List.find?_some hfind
    · obtain ⟨hmem, hp⟩ := mem_naming.mp he'
      obtain ⟨-, front, back, happend, hfront⟩ := List.find?_eq_some_iff_append.mp hfind
      have hin : e' ∈ front ++ e :: back := happend ▸ (List.mem_insertionSort _).mpr hmem
      rw [happend, List.pairwise_append] at hsorted
      obtain hin | hin := List.mem_append.mp hin
      · exact absurd hp (by simpa using hfront e' hin)
      · obtain rfl | hin := List.mem_cons.mp hin
        · exact le_rfl
        · exact (List.pairwise_cons.mp hsorted.2.1).1 e' hin

theorem latestExplicitRequeueAttempt_eq (manifest : Manifest) (r : Records) (p : Nat) :
    latestExplicitRequeueAttempt manifest r p =
      ((latestReceipt r.requeues p).map fun receipt => archivedAttempt receipt p).getD 0 := by
  unfold latestExplicitRequeueAttempt
  simp only [positionOf_unitFolder]
  cases latestReceipt r.requeues p <;> rfl

/-- Of the receipts that name a position the last one has the greatest number, and the others an earlier attempt. -/
theorem Accounted.last (h : Accounted trace r) {last : String × Receipt} (hlast : (naming p r).getLast? = some last) :
    ∃ n, last.1 = receiptName n ∧ ∀ e ∈ naming p r, e = last ∨
      (archivedAttempt e.2 p < archivedAttempt last.2 p ∧ ∀ m, e.1 = receiptName m → m < n) := by
  obtain ⟨front, hfront⟩ := List.getLast?_eq_some_iff.mp hlast
  have hmem : last ∈ r.requeues.entries := (mem_naming.mp (List.mem_of_getLast? hlast)).1
  obtain ⟨n, -, -, hn⟩ := h.kept.requeues.mem_iff.mp (List.mem_map_of_mem hmem)
  have hnumbers := ((List.pairwise_map.mp (h.kept.requeues.pairwise receiptName_injective)).filter
    fun e => decide (p ∈ e.2.positions))
  have hattempts := h.ascending p
  rw [← naming, hfront] at hnumbers
  rw [hfront] at hattempts ⊢
  refine ⟨n, hn.symm, fun e he => ?_⟩
  obtain he | he := List.mem_append.mp he
  · have hlt := (List.pairwise_append.mp hnumbers).2.2 e he last (by simp)
    exact .inr ⟨(List.pairwise_append.mp hattempts).2.2 e he last (by simp), fun m hm => hlt m n hm.symm hn⟩
  · exact .inl (List.mem_singleton.mp he)

/-- The boundary is the one of the latest requeue just when its receipt has the greatest name. -/
theorem Accounted.boundary_iff (h : Accounted trace r) :
    latestExplicitRequeueAttempt manifest r p = requeuedAttempt p trace ↔ LastByName p r := by
  rw [latestExplicitRequeueAttempt_eq, h.requeued p]
  obtain ⟨hnone, hempty⟩ | ⟨e, he, hlatest, hgreatest⟩ := latestReceipt_spec r p
  · refine iff_of_true (by rw [hnone, hempty]; rfl) fun last hnames => ?_
    obtain ⟨e, he, -⟩ := names_iff.mp hnames
    simp [hempty] at he
  · obtain ⟨last, hlast⟩ : ∃ last, (naming p r).getLast? = some last := by
      rw [← Option.isSome_iff_exists, List.getLast?_isSome]
      exact List.ne_nil_of_mem he
    have hmem := List.mem_of_getLast? hlast
    obtain ⟨n, hn, hothers⟩ := h.last hlast
    rw [hlatest, hlast, Option.map_some, Option.map_some, Option.getD_some, Option.getD_some]
    constructor
    · -- the receipt taken is the last one, and every number that names the position is at most its own
      intro heq last' hlast' hmax number hnumber
      obtain rfl | ⟨hlt, -⟩ := hothers e he
      · obtain ⟨e', he', hname'⟩ := names_iff.mp hnumber
        have hle : n ≤ last' := hmax n (names_iff.mpr ⟨e, he, hn⟩)
        obtain ⟨f, hf, hfname⟩ := names_iff.mp hlast'
        have hge : last' ≤ n := by
          obtain rfl | ⟨-, hlt⟩ := hothers f hf
          · exact (receiptName_injective (hfname.symm.trans hn)).le
          · exact (hlt last' hfname).le
        rw [← hname', Nat.le_antisymm hge hle, ← hn]
        exact hgreatest e' he'
      · omega
    · intro hnamed
      have hmax : ∀ number, Names p r number → number ≤ n := by
        intro number hnumber
        obtain ⟨f, hf, hfname⟩ := names_iff.mp hnumber
        obtain rfl | ⟨-, hlt⟩ := hothers f hf
        · exact (receiptName_injective (hfname.symm.trans hn)).le
        · exact (hlt number hfname).le
      obtain ⟨number, -, -, hnumber⟩ := h.kept.requeues.mem_iff.mp (List.mem_map_of_mem (mem_naming.mp he).1)
      have hle := hnamed n (names_iff.mpr ⟨last, hmem, hn⟩) hmax number (names_iff.mpr ⟨e, he, hnumber.symm⟩)
      rw [hnumber, ← hn] at hle
      have hsame : e = last := by
        have hkey := le_antisymm hle (hgreatest last hmem)
        exact List.inj_on_of_nodup_map r.requeues.nodup (mem_naming.mp he).1 (mem_naming.mp hmem).1 hkey
      rw [hsame]

/-- The attempts counted are the timeouts after the boundary. -/
theorem priorSupervisorAttempts_eq (hk : Kept r) (p : Nat) : priorSupervisorAttempts manifest r p "cell-timeout" =
    ((r.attempts p).entries.drop (latestExplicitRequeueAttempt manifest r p)).countP fun e => e.2 = timedOut := by
  have hcount := @Consecutive.countP_above _ _ resultName (fun name => attemptNumber name.toList) attemptNumber_resultName
    (fun result : Result => reasonCodeOf result == some "cell-timeout") (latestExplicitRequeueAttempt manifest r p) _
    (hk.attempts p)
  have hreason : ∀ result : Result, (reasonCodeOf result == some "cell-timeout") = decide (result = timedOut) := by
    intro result
    rw [Bool.eq_iff_iff]
    cases result <;> simp [reasonCodeOf, timedOut]
  exact hcount.trans (by simp only [hreason])

theorem handleTimeout_eq (cellTimeoutAttempts : Nat) : handleTimeout manifest cellTimeoutAttempts r p =
    if priorSupervisorAttempts manifest (write r p timedOut) p "cell-timeout" + 1 < cellTimeoutAttempts ∧
        ((write r p timedOut).results p).bind reasonCodeOf = some "cell-timeout" then
      ((archiveFailedResult (write r p timedOut) p).map Prod.fst).getD (write r p timedOut)
    else write r p timedOut := rfl

/-- A timed-out cell is pending again when its timeout, counted with those before it, is within the allowance. -/
theorem handleTimeout_none_iff (hk : Kept r) (hnone : r.results p = none) (cellTimeoutAttempts : Nat) :
    (handleTimeout manifest cellTimeoutAttempts r p).results p = none ↔
      priorSupervisorAttempts manifest r p "cell-timeout" + 1 < cellTimeoutAttempts := by
  have hfailed : (write r p timedOut).results p = some timedOut := by simp [write, hnone]
  have hprior : priorSupervisorAttempts manifest (write r p timedOut) p "cell-timeout" =
      priorSupervisorAttempts manifest r p "cell-timeout" := by
    have hboundary : latestExplicitRequeueAttempt manifest (write r p timedOut) p = latestExplicitRequeueAttempt manifest r p := by
      rw [latestExplicitRequeueAttempt_eq, latestExplicitRequeueAttempt_eq, write_requeues]
    simp only [priorSupervisorAttempts, write_attempts, hboundary]
  have hreason : ((write r p timedOut).results p).bind reasonCodeOf = some "cell-timeout" := by rw [hfailed]; rfl
  rw [handleTimeout_eq, hprior, hreason]
  by_cases hlt : priorSupervisorAttempts manifest r p "cell-timeout" + 1 < cellTimeoutAttempts
  · rw [if_pos ⟨hlt, rfl⟩]
    refine iff_of_true ?_ hlt
    obtain ⟨archived, harchived⟩ := Option.isSome_iff_exists.mp (archiveFailedResult_isSome hfailed)
    rw [harchived, Option.map_some, Option.getD_some,
      (archiveFailedResult_archives (n := archived.2) (write_kept hk p _) harchived).1.results, if_pos (by simp)]
  · rw [if_neg fun h => hlt h.1, hfailed]
    exact iff_of_false (by simp) hlt

theorem toList_receiptName (number : Nat) :
    (receiptName number).toList = "requeue-".toList ++ ((format03d number).toList ++ ".json".toList) := by
  simp [receiptName]

/-- Receipt names of three digits are ordered as their numbers are. -/
theorem receiptName_le {m n : Nat} (hmn : m ≤ n) (hn : n ≤ 999) : receiptName m ≤ receiptName n := by
  obtain rfl | hlt := Nat.eq_or_lt_of_le hmn
  · exact le_rfl
  · refine le_of_lt (String.lt_iff_toList_lt.mpr ?_)
    rw [toList_receiptName, toList_receiptName]
    have hrest := format03d_lt hlt (Nat.lt_succ_of_le hn) ".json".toList
    simpa [List.cons_lt_cons_iff] using hrest

/-- The condition holds until the thousandth requeue. -/
theorem Kept.lastByName (hk : Kept r) (hlength : r.requeues.entries.length ≤ 999) : LastByName p r := by
  intro last hlast hmax number hnumber
  obtain ⟨receipt, hreceipt, -⟩ := hlast
  have hmem := List.mem_map_of_mem (f := Prod.fst) (Dict.get?_eq_some_iff.mp hreceipt)
  obtain ⟨n, -, hle, hn⟩ := hk.requeues.mem_iff.mp hmem
  obtain rfl := receiptName_injective hn
  rw [List.length_map] at hle
  exact receiptName_le (hmax number hnumber) (hle.trans hlength)

/-- The allowance restarts exactly at a requeue, as long as its receipt has the greatest name of those that name the
position. -/
theorem retry_allowance_iff (h : Run (next manifest) .empty trace r) (p : Nat) :
    Restarts p manifest trace r ↔ LastByName p r := by
  have haccounted := accounted_of_run h
  refine ⟨fun hr => haccounted.boundary_iff.mp hr.boundary, fun hlast => ?_⟩
  have hboundary := (@Accounted.boundary_iff manifest r trace p haccounted).mpr hlast
  refine ⟨attempts_kept_of_run h p, hboundary, fun hnone cellTimeoutAttempts => ?_⟩
  rw [handleTimeout_none_iff haccounted.kept hnone, priorSupervisorAttempts_eq haccounted.kept, hboundary,
    haccounted.counted p, timedOutSince, hnone]
  simp

end Boundary

namespace Thousand

def manifest : Manifest := ⟨"runs/fixed", [1], fun _ => ⟨"route", "treatment"⟩⟩

variable {r : Records}

theorem requeue_one {reasonCode : Option String} (h : r.results 1 = some (.failed reasonCode)) :
    ∃ r', next manifest r (.requeue [1]) r' := by
  obtain ⟨archived, harchived⟩ := Option.isSome_iff_exists.mp (archiveFailedResult_isSome h)
  have hrows : archiveRows manifest [1] r = some (archived.1, [(1, archivedPath manifest 1 archived.2)]) := by
    simp [archiveRows, harchived]
  have hone : [1].dedup.insertionSort (· ≤ ·) = [1] := rfl
  have hsome : (requeueFailedValidation manifest r [1]).isSome = true := by
    simp only [requeueFailedValidation, hone]
    rw [if_neg (by decide), if_neg (by decide), if_neg (by simp [h]), hrows]
    rfl
  exact Option.isSome_iff_exists.mp hsome

/-- Position 1 has failed and been requeued a number of times, and is pending. -/
structure Requeued (k : Nat) (trace : List (Step Records Op)) (r : Records) : Prop where
  reached : Run (next manifest) .empty trace r
  pending : r.results 1 = none
  length : (r.attempts 1).entries.length = k
  ordinary : ∀ e ∈ (r.attempts 1).entries, e.2 ≠ timedOut
  requeues : r.requeues.entries = (List.range' 1 k).map fun m => (receiptName m, ⟨[1], [(1, archivedPath manifest 1 m)]⟩)

theorem requeued_zero : Requeued 0 [] .empty :=
  ⟨.nil, rfl, rfl, fun _ h => absurd h List.not_mem_nil, rfl⟩

/-- A pending position fails and is requeued. -/
theorem fail_requeue {trace : List (Step Records Op)} (h : Run (next manifest) .empty trace r) (hnone : r.results 1 = none) :
    ∃ trace' r', Run (next manifest) .empty trace' r' ∧ timeouts 1 trace' = 0 ∧
      Requeues manifest (write r 1 (.failed none)) r' [1] := by
  have hfailed : (write r 1 (.failed none)).results 1 = some (.failed none) := by simp [write, hnone]
  have hwork : next manifest r (.work 1 true) (write r 1 (.failed none)) := rfl
  obtain ⟨r', hr'⟩ := requeue_one hfailed
  have hkept := (accounted_of_run (h.snoc hwork)).kept
  refine ⟨_, r', (h.snoc hwork).snoc hr', ?_, requeue_of_next hkept hr'⟩
  rw [timeouts_snoc]
  rfl

theorem requeued_succ {k : Nat} {trace : List (Step Records Op)} (h : Requeued k trace r) :
    ∃ trace' r', Requeued (k + 1) trace' r' := by
  obtain ⟨trace', r', hrun, -, hr⟩ := fail_requeue h.reached h.pending
  obtain ⟨reasonCode, hresult, hentries⟩ := hr.archives.added 1 (by simp)
  have hreason : reasonCode = none := by
    simp only [write, h.pending, Option.isSome_none, Bool.false_eq_true, if_false, Function.update_self, Option.some.injEq,
      Result.failed.injEq] at hresult
    exact hresult.symm
  have hreceipt := hr.receipt
  rw [write_attempts] at hentries
  simp only [write_attempts, write_requeues, h.requeues, h.length, List.length_map, List.length_range', List.map_cons,
    List.map_nil] at hreceipt
  refine ⟨trace', r', hrun, (hr.archives.results 1).trans (if_pos (by simp)), ?_, fun e he => ?_, ?_⟩
  · have hlength := congrArg List.length hentries
    rw [List.length_append, h.length, List.length_singleton] at hlength
    exact hlength
  · have he : e ∈ (r.attempts 1).entries ++ _ := hentries ▸ he
    obtain he | he := List.mem_append.mp he
    · exact h.ordinary e he
    · rw [List.mem_singleton.mp he, hreason]
      simp [timedOut]
  · rw [hreceipt, List.range'_1_concat, List.map_append, Nat.add_comm 1 k]
    rfl

theorem exists_requeued (k : Nat) : ∃ trace r, Requeued k trace r := by
  induction k with
  | zero => exact ⟨_, _, requeued_zero⟩
  | succ k ih =>
    obtain ⟨trace, r, h⟩ := ih
    exact requeued_succ h

/-- After 999 requeues the allowance still restarts. -/
theorem restarts_999 : ∃ trace r, Run (next manifest) .empty trace r ∧ r.requeues.entries.length = 999 ∧
    Restarts 1 manifest trace r := by
  obtain ⟨trace, r, h⟩ := exists_requeued 999
  have hlength : r.requeues.entries.length = 999 := by rw [h.requeues, List.length_map, List.length_range']
  exact ⟨trace, r, h.reached, hlength,
    (retry_allowance_iff h.reached 1).mpr ((accounted_of_run h.reached).kept.lastByName hlength.le)⟩

theorem receiptName_1000_lt : receiptName 1000 < receiptName 999 := by
  rw [String.lt_iff_toList_lt]
  decide

/-- The receipt 999 hides the one of the thousandth requeue. -/
theorem boundary_le {path : String} (hr : r.requeues.entries =
    (List.range' 1 999).map (fun m => (receiptName m, ⟨[1], [(1, archivedPath manifest 1 m)]⟩)) ++
      [(receiptName 1000, ⟨[1], [(1, path)]⟩)]) : latestExplicitRequeueAttempt manifest r 1 ≤ 999 := by
  have hmem : ∀ m, 1 ≤ m → m ≤ 999 → (receiptName m, ⟨[1], [(1, archivedPath manifest 1 m)]⟩) ∈ r.requeues.entries := by
    intro m hone hle
    rw [hr, List.mem_append, List.mem_map]
    exact .inl ⟨m, List.mem_range'_1.mpr (by omega), rfl⟩
  rw [latestExplicitRequeueAttempt_eq]
  obtain ⟨hnone, -⟩ | ⟨e, he, hlatest, hgreatest⟩ := latestReceipt_spec r 1
  · rw [hnone]
    exact Nat.zero_le _
  · rw [hlatest, Option.map_some, Option.getD_some]
    have he := (mem_naming.mp he).1
    rw [hr] at he
    obtain he | he := List.mem_append.mp he
    · obtain ⟨m, hm, rfl⟩ := List.mem_map.mp he
      have hattempt : archivedAttempt ⟨[1], [(1, archivedPath manifest 1 m)]⟩ 1 = m :=
        @archivedAttempt_rows manifest [1] (fun _ => m) 1 (by simp)
      have hbound := List.mem_range'_1.mp hm
      rw [hattempt]
      omega
    · obtain rfl := List.mem_singleton.mp he
      have hle := hgreatest _ (mem_naming.mpr ⟨hmem 999 (by omega) le_rfl, by simp⟩)
      exact absurd hle receiptName_1000_lt.not_ge

/-- A position has been requeued 999 times, times out and is tried again, fails and is requeued for the thousandth time.
With two attempts allowed its next timeout, the first since that requeue, is not tried again. -/
theorem thousandth_not_restarted : ∃ trace r, Run (next manifest) .empty trace r ∧ r.results 1 = none ∧
    timeouts 1 trace = 0 ∧ (handleTimeout manifest 2 r 1).results 1 ≠ none := by
  obtain ⟨trace, r, h⟩ := exists_requeued 999
  have hkept := (accounted_of_run h.reached).kept
  -- the first timeout is retried, so its result is the attempt 1000
  have hpending : (handleTimeout manifest 2 r 1).results 1 = none := by
    rw [handleTimeout_none_iff hkept h.pending, priorSupervisorAttempts_eq hkept]
    have hzero : ((r.attempts 1).entries.drop (latestExplicitRequeueAttempt manifest r 1)).countP (fun e => e.2 = timedOut)
        = 0 := by
      refine List.countP_eq_zero.mpr fun e he => ?_
      simpa using h.ordinary e (List.mem_of_mem_drop he)
    omega
  have htimeout : next manifest r (.timeout 1 2) (handleTimeout manifest 2 r 1) := rfl
  obtain ⟨ps, harchives⟩ := @handleTimeout_archives manifest r hkept 2 1
  have hwritten : (write r 1 timedOut).results 1 = some timedOut := by simp [write, h.pending]
  have hmem : 1 ∈ ps := by
    by_contra hnot
    rw [harchives.results, if_neg hnot, hwritten] at hpending
    cases hpending
  obtain ⟨reasonCode, hresult, hattempts⟩ := harchives.added 1 hmem
  rw [hwritten] at hresult
  rw [← Option.some.inj hresult, write_attempts] at hattempts
  obtain ⟨trace', r', hrun, hzero, hr⟩ := fail_requeue (h.reached.snoc htimeout) hpending
  obtain ⟨_, -, hentries⟩ := hr.archives.added 1 (by simp)
  have hreceipt := hr.receipt
  rw [write_attempts, hattempts] at hentries
  rw [write_requeues, harchives.requeues, write_requeues, h.requeues] at hreceipt
  have hboundary : latestExplicitRequeueAttempt manifest r' 1 ≤ 999 :=
    boundary_le (by rw [hreceipt, List.length_map, List.length_range']; rfl)
  refine ⟨trace', r', hrun, (hr.archives.results 1).trans (if_pos (by simp)), hzero, ?_⟩
  have hkept' := (accounted_of_run hrun).kept
  rw [ne_eq, handleTimeout_none_iff hkept' ((hr.archives.results 1).trans (if_pos (by simp))), priorSupervisorAttempts_eq hkept']
  have hpos : 0 < ((r'.attempts 1).entries.drop (latestExplicitRequeueAttempt manifest r' 1)).countP
      (fun e => e.2 = timedOut) := by
    rw [hentries, List.append_assoc, List.drop_append_of_le_length (h.length ▸ hboundary)]
    refine List.countP_pos_iff.mpr ⟨_, List.mem_append_right _ List.mem_cons_self, ?_⟩
    simp [timedOut]
  omega

end Thousand

end FidbPoc.Validation.Attempts
