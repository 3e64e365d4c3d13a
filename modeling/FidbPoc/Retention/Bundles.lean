import FidbPoc.Retention.Accounting

namespace FidbPoc.Retention

open FidbPoc.Lib FidbPoc.Lib.Checked FidbPoc.Lib.Leaders Collected

section

variable {t : Files} {hashing : Hashing} {policy : RetentionPolicy} {ledger : Ledger} {holds : List RetentionHold}
variable {jobId : String} {number : Nat}

/-- A failed attempt that no hold protects, with its one staging directory. -/
structure Staged (t : Files) (hashing : Hashing) (policy : RetentionPolicy) (ledger : Ledger) (holds : List RetentionHold)
    (jobId : String) (c : Candidate) : Prop where
  failed : c.attempt ∈ failedAttemptsOf ledger jobId
  staging : stagingMatches t policy c.attempt.jobId c.attempt.leaseGeneration = [c.root]
  free : holdFor holds c.attempt.jobId (some c.attempt.attemptNumber) = none
  examined : c = candidateOf hashing ledger c.attempt c.root

theorem mem_failedAttemptsOf {a : Attempt} :
    a ∈ failedAttemptsOf ledger jobId ↔ a ∈ ledger.attempts ∧ a.jobId = jobId ∧ isFailed a.state = true := by
  unfold failedAttemptsOf
  rw [List.mem_filter, mem_attemptsOf, and_assoc]

theorem failedAttemptsOf_nodup : ((failedAttemptsOf ledger jobId).map (·.attemptNumber)).Nodup :=
  (attemptsOf_nodup jobId).sublist (List.filter_sublist.map _)

theorem failedAttemptsOf_ids_nodup : ((failedAttemptsOf ledger jobId).map (·.attemptId)).Nodup := by
  have hperm : (attemptsOf ledger jobId).Perm (ledger.attempts.filter fun a => a.jobId = jobId) :=
    List.perm_insertionSort ..
  have hids : ((attemptsOf ledger jobId).map (·.attemptId)).Nodup :=
    (hperm.map _).nodup_iff.mpr (ledger.attempts_nodup.sublist (List.filter_sublist.map _))
  exact hids.sublist (List.filter_sublist.map _)

/-- The failed attempts of a job that have a number: at most one. -/
theorem countP_failedAttemptsOf_le (other : String) :
    (failedAttemptsOf ledger jobId).countP (Attempt.is other number) ≤ 1 := by
  have hle : (failedAttemptsOf ledger jobId).countP (Attempt.is other number) ≤
      ((failedAttemptsOf ledger jobId).map (·.attemptNumber)).count number := by
    rw [List.count, List.countP_map]
    exact List.countP_mono_left fun a _ ha => by simp [Attempt.is] at ha; simp [ha.2]
  exact hle.trans (List.nodup_iff_count_le_one.mp failedAttemptsOf_nodup number)

theorem countP_failedAttemptsOf_other {other : String} (h : other ≠ jobId) :
    (failedAttemptsOf ledger jobId).countP (Attempt.is other number) = 0 :=
  List.countP_eq_zero.mpr fun a ha => by
    simp [Attempt.is, (mem_failedAttemptsOf.mp ha).2.1, Ne.symm h]

theorem countP_failedAttemptsOf {a : Attempt} (h : a ∈ failedAttemptsOf ledger jobId) :
    (failedAttemptsOf ledger jobId).countP (Attempt.is jobId a.attemptNumber) = 1 := by
  refine le_antisymm (countP_failedAttemptsOf_le jobId) (List.countP_pos_iff.mpr ⟨a, h, ?_⟩)
  simp [Attempt.is, (mem_failedAttemptsOf.mp h).2.1]

/-- What examining one failed attempt yields: it is accounted for now, or it is a candidate. -/
structure Looked (t : Files) (hashing : Hashing) (policy : RetentionPolicy) (ledger : Ledger) (holds : List RetentionHold)
    (a : Attempt) (e : Examined) : Prop where
  accounts : ∀ jobId number, e.collected.accounts jobId number +
    (e.candidate.toList.map (·.attempt)).countP (Attempt.is jobId number) = if a.is jobId number then 1 else 0
  bundles : e.collected.bundles = []
  candidate : ∀ c, e.candidate = some c → c.attempt = a ∧
    stagingMatches t policy a.jobId a.leaseGeneration = [c.root] ∧ holdFor holds a.jobId (some a.attemptNumber) = none ∧
    c = candidateOf hashing ledger a c.root

theorem names_attemptNote {a : Attempt} {path : Option Path} {reason : String} :
    (attemptNote a path reason).names jobId number = a.is jobId number := by
  simp [Note.names, Attempt.is, attemptNote]

theorem looked_examineAttempt {a : Attempt} {e : Examined} (h : examineAttempt t hashing policy ledger holds a = .ok e) :
    Looked t hashing policy ledger holds a e := by
  unfold examineAttempt at h
  split at h
  · rename_i root hroot
    obtain ⟨known, -, h⟩ := bind_eq_ok.mp h
    split at h
    · obtain ⟨path, -, h⟩ := bind_eq_ok.mp h
      obtain rfl := pure_eq_ok.mp h
      refine ⟨fun jobId number => ?_, rfl, fun c hc => by cases hc⟩
      rw [accounts_preserve]
      simp [Note.names, attemptNote, Attempt.is]
    · rename_i hfree
      obtain rfl := pure_eq_ok.mp h
      refine ⟨fun jobId number => ?_, rfl, ?_⟩
      · simp [candidateOf, List.countP_cons]
      · rintro c ⟨⟩
        exact ⟨rfl, hroot, hfree, rfl⟩
  · obtain rfl := pure_eq_ok.mp h
    refine ⟨fun jobId number => ?_, rfl, fun c hc => by cases hc⟩
    rw [accounts_quarantine, names_attemptNote]
    rfl

/-- What examining the failed attempts of a job yields. -/
theorem looked_mapM {attempts : List Attempt} {examined : List Examined}
    (h : attempts.mapM (examineAttempt t hashing policy ledger holds) = .ok examined) :
    (∀ jobId number, ((examined.map (·.collected)).map fun c => c.accounts jobId number).sum +
        ((examined.filterMap (·.candidate)).map (·.attempt)).countP (Attempt.is jobId number) =
      attempts.countP (Attempt.is jobId number)) ∧
    ((examined.filterMap (·.candidate)).map (·.attempt)).Sublist attempts := by
  have hrows := mapM_eq_ok h
  clear h
  induction hrows with
  | nil => exact ⟨fun _ _ => rfl, .refl _⟩
  | @cons a e attempts examined ha _ ih =>
    have hlooked := looked_examineAttempt ha
    have hsplit : (e :: examined).filterMap (·.candidate) = e.candidate.toList ++ examined.filterMap (·.candidate) := by
      cases hc : e.candidate with
      | none => simp [hc]
      | some c => simp [hc]
    refine ⟨fun jobId number => ?_, ?_⟩
    · have hone := hlooked.accounts jobId number
      have hrest := ih.1 jobId number
      rw [hsplit, List.map_append, List.countP_append, List.countP_cons]
      simp only [List.map_cons, List.sum_cons] at hrest ⊢
      omega
    · rw [hsplit, List.map_append]
      cases hc : e.candidate with
      | none => exact ih.2.cons a
      | some c =>
        obtain rfl := (hlooked.candidate c hc).1
        exact ih.2.cons_cons c.attempt

theorem staged_of_mem {examined : List Examined}
    (h : (failedAttemptsOf ledger jobId).mapM (examineAttempt t hashing policy ledger holds) = .ok examined)
    {c : Candidate} (hc : c ∈ examined.filterMap (·.candidate)) : Staged t hashing policy ledger holds jobId c := by
  obtain ⟨e, he, hec⟩ := List.mem_filterMap.mp hc
  obtain ⟨a, ha, hlook⟩ := mem_mapM h e he
  obtain ⟨rfl, hstaging, hfree, hexamined⟩ := (looked_examineAttempt hlook).candidate c hec
  exact ⟨ha, hstaging, hfree, hexamined⟩

end

section Groups

variable {t : Files} {hashing : Hashing} {policy : RetentionPolicy} {job : Job} {candidates group : List Candidate}
variable {rep c : Candidate} {collected : Collected}

theorem representative_eq_some (h : representative candidates = some rep) :
    rep ∈ candidates ∧ ∀ c ∈ candidates, c.attempt.attemptNumber ≤ rep.attempt.attemptNumber := by
  unfold representative at h
  rw [foldl_keepBest] at h
  obtain ⟨hrep, hbest⟩ := mem_leaders.mp (List.mem_of_head? h)
  refine ⟨hrep, fun c hc => ?_⟩
  rcases Prod.Lex.toLex_le_toLex.mp (hbest c hc) with hlt | ⟨heq, -⟩
  · exact le_of_lt hlt
  · exact le_of_eq heq

theorem representative_eq_none (h : representative candidates = none) : candidates = [] := by
  unfold representative at h
  rcases List.eq_nil_or_concat' candidates with rfl | ⟨front, last, rfl⟩
  · rfl
  · rw [List.foldl_concat] at h
    unfold keepBest at h
    split at h
    · cases h
    · split at h <;> cases h

theorem names_candidateNote {reason : String} {note : Note} (h : candidateNote t policy reason c = .ok note)
    (jobId : String) (number : Nat) : note.names jobId number = c.attempt.is jobId number := by
  unfold candidateNote at h
  obtain ⟨path, -, h⟩ := bind_eq_ok.mp h
  exact pure_eq_ok.mp h ▸ names_attemptNote

theorem names_differingNote {note : Note} (h : differingNote t policy c = .ok note) (jobId : String) (number : Nat) :
    note.names jobId number = c.attempt.is jobId number := by
  unfold differingNote at h
  obtain ⟨base, hbase, h⟩ := bind_eq_ok.mp h
  exact pure_eq_ok.mp h ▸ names_candidateNote hbase jobId number

/-- Notes about candidates count as their attempts do. -/
theorem countP_notes {f : Candidate → Result Note} {notes : List Note} (h : group.mapM f = .ok notes)
    (hf : ∀ c note, f c = .ok note → ∀ jobId number, note.names jobId number = c.attempt.is jobId number)
    (jobId : String) (number : Nat) :
    notes.countP (Note.names jobId number) = (group.map (·.attempt)).countP (Attempt.is jobId number) := by
  have hrows := mapM_eq_ok h
  clear h
  induction hrows with
  | nil => rfl
  | cons hnote _ ih => rw [List.map_cons, List.countP_cons, List.countP_cons, ih, hf _ _ hnote]

theorem countP_collapsible (hids : (candidates.map (·.attempt.attemptId)).Nodup) (hrep : rep ∈ candidates)
    (jobId : String) (number : Nat) :
    (candidates.map (·.attempt)).countP (Attempt.is jobId number) =
      ((collapsible policy candidates rep).map (·.attempt)).countP (Attempt.is jobId number) +
        ((differing policy candidates rep).map (·.attempt)).countP (Attempt.is jobId number) := by
  have hperm : candidates.Perm (rep :: others candidates rep) := Table.perm_cons_filter hids hrep
  have hsplit : ((others candidates rep).map (·.attempt)).countP (Attempt.is jobId number) =
      (((others candidates rep).filter fun c => collapses policy rep c).map (·.attempt)).countP (Attempt.is jobId number) +
        ((differing policy candidates rep).map (·.attempt)).countP (Attempt.is jobId number) := by
    simp only [List.countP_map, differing]
    simpa using List.countP_eq_countP_filter_add (others candidates rep) _ (collapses policy rep)
  rw [(hperm.map _).countP_eq, collapsible, List.map_cons, List.map_cons, List.countP_cons, List.countP_cons, hsplit]
  omega

theorem mem_collapsible (h : c ∈ collapsible policy candidates rep) (hrep : rep ∈ candidates) :
    c ∈ candidates ∧ c.fingerprint = rep.fingerprint := by
  rcases List.mem_cons.mp h with rfl | h
  · exact ⟨hrep, rfl⟩
  · obtain ⟨hothers, hsame⟩ := List.mem_filter.mp h
    exact ⟨List.mem_of_mem_filter hothers, of_decide_eq_true (Bool.and_eq_true_iff.mp hsame).2⟩

theorem scanGroup_refused {stats : Stats} {reason : String} (h : scanGroup t policy group stats = .ok (.refused c reason)) :
    c ∈ group := by
  induction group generalizing stats with
  | nil => cases pure_eq_ok.mp h
  | cons d rest ih =>
    obtain ⟨scanned, -, h⟩ := bind_eq_ok.mp h
    cases scanned with
    | error message =>
      cases pure_eq_ok.mp h
      exact List.mem_cons_self
    | ok more => exact List.mem_cons_of_mem d (ih h)

theorem attemptStats_isSymlink {path : Path} {maximumFiles : Int} {stats : Stats}
    (h : attemptStats t path maximumFiles = .ok stats) : t.isSymlink path = false := by
  unfold attemptStats at h
  simp only [bind_eq_ok, require_eq_ok] at h
  obtain ⟨-, hlink, -⟩ := h
  exact hlink

/-- Only directories that are no links are scanned to the end. -/
theorem scanGroup_scanned {stats total : Stats} (h : scanGroup t policy group stats = .ok (.scanned total)) :
    ∀ c ∈ group, t.isSymlink c.root = false := by
  induction group generalizing stats with
  | nil => exact fun _ hc => (List.not_mem_nil hc).elim
  | cons d rest ih =>
    obtain ⟨scanned, hscanned, h⟩ := bind_eq_ok.mp h
    cases scanned with
    | error message => cases pure_eq_ok.mp h
    | ok more =>
      refine List.forall_mem_cons.mpr ⟨?_, ih h⟩
      cases hstats : attemptStats t d.root policy.maximumScanFiles with
      | ok found => exact attemptStats_isSymlink hstats
      | error fault =>
        rw [hstats] at hscanned
        cases fault <;> cases hscanned

/-- How a group of candidates ends: kept as it is, refused for one member, or bundled. -/
inductive Settled (t : Files) (policy : RetentionPolicy) (job : Job) (rep : Candidate) (group : List Candidate) :
    Collected → Prop
  | kept {notes : List Note} (h : group.mapM (candidateNote t policy "failure bundling disabled") = .ok notes) :
      Settled t policy job rep group { preserved := notes }
  | refused {member : Candidate} {reason : String} {note : Note} (hmember : member ∈ group)
      (h : candidateNote t policy reason member = .ok note) : Settled t policy job rep group (.quarantine note)
  | bundled {files : List EvidenceFile} {stats : Stats} {bundle : Bundle}
      (hscan : scanGroup t policy group Stats.zero = .ok (.scanned stats))
      (h : bundleOf t policy job rep group files stats = .ok bundle) :
      Settled t policy job rep group (.act (.bundleFailedAttempts bundle))

theorem settled_collectGroup (hrep : rep ∈ group) (h : collectGroup t policy job rep group = .ok collected) :
    Settled t policy job rep group collected := by
  unfold collectGroup at h
  split at h
  · split at h
    · obtain ⟨note, hnote, h⟩ := bind_eq_ok.mp h
      exact pure_eq_ok.mp h ▸ .refused hrep hnote
    · obtain ⟨scan, hscan, h⟩ := bind_eq_ok.mp h
      cases scan with
      | refused member reason =>
        obtain ⟨note, hnote, h⟩ := bind_eq_ok.mp h
        exact pure_eq_ok.mp h ▸ .refused (scanGroup_refused hscan) hnote
      | scanned stats =>
        obtain ⟨bundle, hbundle, h⟩ := bind_eq_ok.mp h
        exact pure_eq_ok.mp h ▸ .bundled hscan hbundle
  · obtain ⟨notes, hnotes, h⟩ := bind_eq_ok.mp h
    exact pure_eq_ok.mp h ▸ .kept hnotes

/-- What a bundle records of its job, its representative and its group. -/
structure Bundled (t : Files) (policy : RetentionPolicy) (job : Job) (rep : Candidate) (group : List Candidate)
    (bundle : Bundle) : Prop where
  job : bundle.jobId = job.jobId ∧ bundle.jobState = job.state ∧ bundle.batchId = job.batchId
  representative : bundle.representativeAttemptId = rep.attempt.attemptId ∧
    bundle.representativeAttemptNumber = rep.attempt.attemptNumber ∧ bundle.failureFingerprint = rep.fingerprint
  sources : group.mapM (fun c => relative t policy.root c.root) = .ok bundle.sourcePaths
  collapsed : bundle.collapsedAttempts = group.map (·.attempt.attemptNumber)

theorem bundleOf_eq_ok {files : List EvidenceFile} {stats : Stats} {bundle : Bundle}
    (h : bundleOf t policy job rep group files stats = .ok bundle) : Bundled t policy job rep group bundle := by
  unfold bundleOf at h
  simp only [bind_eq_ok, pure_eq_ok] at h
  obtain ⟨sourcePaths, hsources, -, -, -, -, rfl⟩ := h
  exact ⟨⟨rfl, rfl, rfl⟩, ⟨rfl, rfl, rfl⟩, hsources, rfl⟩

theorem stands_bundle {bundle : Bundle} (h : Bundled t policy job rep group bundle)
    (hgroup : ∀ c ∈ group, c.attempt.jobId = job.jobId) (jobId : String) (number : Nat) :
    bundle.stands jobId number = (group.map (·.attempt)).countP (Attempt.is jobId number) := by
  unfold Bundle.stands
  rw [h.job.1, h.collapsed]
  split
  · rename_i hjob
    rw [List.count, List.countP_map, List.countP_map]
    exact List.countP_congr fun c hc => by simp [Attempt.is, hgroup c hc, hjob]
  · rename_i hjob
    exact (List.countP_eq_zero.mpr fun a ha => by
      obtain ⟨c, hc, rfl⟩ := List.mem_map.mp ha
      simp [Attempt.is, hgroup c hc, hjob]).symm

end Groups

end FidbPoc.Retention
