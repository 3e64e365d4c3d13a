import FidbPoc.Lib.Separators
import FidbPoc.Retention.Bundles

namespace FidbPoc.Retention

open FidbPoc.Lib FidbPoc.Lib.Checked FidbPoc.Lib.Leaders Collected

section Jobs

variable {t : Files} {hashing : Hashing} {policy : RetentionPolicy} {ledger : Ledger} {holds : List RetentionHold}

/-- The group of a job that is bundled or refused together: candidates of the job
with one failure, the latest of all its candidates first. -/
structure Grouped (t : Files) (hashing : Hashing) (policy : RetentionPolicy) (ledger : Ledger) (holds : List RetentionHold)
    (job : Job) (rep : Candidate) (group : List Candidate) : Prop where
  first : group.head? = some rep
  staged : ∀ c ∈ group, Staged t hashing policy ledger holds job.jobId c ∧ c.fingerprint = rep.fingerprint
  latest : ∀ c, Staged t hashing policy ledger holds job.jobId c → c.attempt.attemptNumber ≤ rep.attempt.attemptNumber
  nodup : (group.map (·.attempt)).Nodup

/-- What a pass makes of the failed attempts of a job: every one is accounted for once,
unless a group is refused for one of its members. -/
inductive Outcome (t : Files) (hashing : Hashing) (policy : RetentionPolicy) (ledger : Ledger)
    (holds : List RetentionHold) (job : Job) (collected : Collected) : Prop
  | accounted (bundles : collected.bundles = [])
      (exact : ∀ jobId number, collected.accounts jobId number =
        (failedAttemptsOf ledger job.jobId).countP (Attempt.is jobId number))
  | bundled {rep : Candidate} {group : List Candidate} {bundle : Bundle} (bundles : collected.bundles = [bundle])
      (grouped : Grouped t hashing policy ledger holds job rep group)
      (real : ∀ c ∈ group, t.isSymlink c.root = false) (fields : Bundled t policy job rep group bundle)
      (exact : ∀ jobId number, collected.accounts jobId number =
        (failedAttemptsOf ledger job.jobId).countP (Attempt.is jobId number))
  | refused {rep member : Candidate} {group : List Candidate} (bundles : collected.bundles = [])
      (grouped : Grouped t hashing policy ledger holds job rep group) (hmember : member ∈ group)
      (noted : ∃ note ∈ collected.quarantined, ∀ jobId number, note.names jobId number = member.attempt.is jobId number)
      (exact : ∀ jobId number, collected.accounts jobId number + (group.map (·.attempt)).countP (Attempt.is jobId number) =
        (failedAttemptsOf ledger job.jobId).countP (Attempt.is jobId number) +
          if member.attempt.is jobId number then 1 else 0)

/-- Every candidate of a job is found. -/
theorem mem_of_staged {jobId : String} {examined : List Examined}
    (h : (failedAttemptsOf ledger jobId).mapM (examineAttempt t hashing policy ledger holds) = .ok examined)
    {c : Candidate} (hc : Staged t hashing policy ledger holds jobId c) : c ∈ examined.filterMap (·.candidate) := by
  obtain ⟨e, he, hlook⟩ := mapM_mem h c.attempt hc.failed
  refine List.mem_filterMap.mpr ⟨e, he, ?_⟩
  unfold examineAttempt at hlook
  rw [hc.staging] at hlook
  simp only [hc.free] at hlook
  obtain ⟨known, -, hlook⟩ := bind_eq_ok.mp hlook
  obtain rfl := pure_eq_ok.mp hlook
  exact congrArg some hc.examined.symm

theorem outcome_failedJob {job : Job} {f : FailedJob} (h : failedJob t hashing policy ledger holds job = .ok f) :
    Outcome t hashing policy ledger holds job f.collected := by
  unfold failedJob at h
  obtain ⟨examined, hexamined, h⟩ := bind_eq_ok.mp h
  obtain ⟨settled, hsettled, h⟩ := bind_eq_ok.mp h
  obtain rfl := pure_eq_ok.mp h
  dsimp only
  obtain ⟨hcount, hsub⟩ := looked_mapM hexamined
  have hlooked : (Collected.concat (examined.map (·.collected))).bundles = [] := by
    rw [bundles_concat, List.flatMap_map, List.flatMap_eq_nil_iff]
    exact fun e he => (mem_mapM hexamined e he).elim fun a ha => (looked_examineAttempt ha.2).bundles
  unfold collectCandidates at hsettled
  split at hsettled
  · rename_i hnone
    obtain rfl := pure_eq_ok.mp hsettled
    refine .accounted (by rw [bundles_append, hlooked]; rfl) fun jobId number => ?_
    have hjob := hcount jobId number
    rw [representative_eq_none hnone] at hjob
    simpa using hjob
  · rename_i rep hrep
    obtain ⟨notes, hnotes, hsettled⟩ := bind_eq_ok.mp hsettled
    obtain ⟨kept, hkept, hsettled⟩ := bind_eq_ok.mp hsettled
    obtain rfl := pure_eq_ok.mp hsettled
    obtain ⟨hmem, hlatest⟩ := representative_eq_some hrep
    have hids : ((examined.filterMap (·.candidate)).map (·.attempt.attemptId)).Nodup := by
      have hsubIds := failedAttemptsOf_ids_nodup.sublist (hsub.map (·.attemptId))
      rwa [List.map_map] at hsubIds
    have hgrouped : Grouped t hashing policy ledger holds job rep
        (collapsible policy (examined.filterMap (·.candidate)) rep) := by
      refine ⟨rfl, fun c hc => ?_, fun c hc => hlatest c (mem_of_staged hexamined hc), ?_⟩
      · obtain ⟨hcand, hsame⟩ := mem_collapsible hc hmem
        exact ⟨staged_of_mem hexamined hcand, hsame⟩
      · have hperm : (examined.filterMap (·.candidate)).Perm (rep :: others (examined.filterMap (·.candidate)) rep) :=
          Table.perm_cons_filter hids hmem
        have hnodup : ((examined.filterMap (·.candidate)).map (·.attempt)).Nodup :=
          List.Nodup.of_map (·.attemptId) (by rwa [List.map_map])
        have hall := (hperm.map (·.attempt)).nodup_iff.mp hnodup
        exact hall.sublist ((List.filter_sublist.cons_cons rep).map _)
    have hgroupJob : ∀ c ∈ collapsible policy (examined.filterMap (·.candidate)) rep, c.attempt.jobId = job.jobId :=
      fun c hc => (mem_failedAttemptsOf.mp (hgrouped.staged c hc).1.failed).2.1
    -- every candidate is in the group or differs from it
    have htotal : ∀ jobId number, ((Collected.concat (examined.map (·.collected))).append
          (Collected.append { quarantined := notes } kept)).accounts jobId number +
          ((collapsible policy (examined.filterMap (·.candidate)) rep).map (·.attempt)).countP (Attempt.is jobId number) =
        (failedAttemptsOf ledger job.jobId).countP (Attempt.is jobId number) + kept.accounts jobId number := by
      intro jobId number
      have hjob := hcount jobId number
      have hsplit : _ = ((collapsible policy _ rep).map (·.attempt)).countP (Attempt.is jobId number) + _ :=
        countP_collapsible hids hmem jobId number
      have hdiffer := countP_notes hnotes (fun _ _ => names_differingNote) jobId number
      have hnoted : Collected.accounts { quarantined := notes } jobId number = notes.countP (Note.names jobId number) := by
        simp [Collected.accounts, Collected.bundles]
      rw [accounts_append, accounts_append, accounts_concat, hnoted]
      omega
    have hbundles : ((Collected.concat (examined.map (·.collected))).append
        (Collected.append { quarantined := notes } kept)).bundles = kept.bundles := by
      rw [bundles_append, bundles_append, hlooked]
      rfl
    have hfirst : rep ∈ collapsible policy (examined.filterMap (·.candidate)) rep := List.mem_cons_self
    cases settled_collectGroup hfirst hkept with
    | @kept retained hretained =>
      refine .accounted hbundles fun jobId number => ?_
      have hall := htotal jobId number
      have hcounted := countP_notes hretained (fun _ _ h => names_candidateNote h) jobId number
      have hpreserved : Collected.accounts { preserved := retained } jobId number =
          retained.countP (Note.names jobId number) := by
        simp [Collected.accounts, Collected.bundles]
      omega
    | @refused member reason note hmember hnote =>
      refine .refused hbundles hgrouped hmember ⟨note, by simp [Collected.quarantine], names_candidateNote hnote⟩
        fun jobId number => ?_
      have hall := htotal jobId number
      rw [accounts_quarantine, names_candidateNote hnote] at hall
      exact hall
    | @bundled files stats bundle hscan hbundle =>
      have hfields := bundleOf_eq_ok hbundle
      refine .bundled hbundles hgrouped (scanGroup_scanned hscan) hfields fun jobId number => ?_
      have hall := htotal jobId number
      rw [accounts_bundle, stands_bundle hfields hgroupJob] at hall
      omega

end Jobs

section Places

variable {t : Files} {policy : RetentionPolicy}

theorem length_jobId {jobId : String} (h : Patterns.isJobId jobId = true) : jobId.toList.length = 68 := by
  simp only [Patterns.isJobId, Patterns.isSha256, String.toList_ofList, Bool.and_eq_true, decide_eq_true_eq] at h
  have hlong := h.2.1
  rw [List.length_drop] at hlong
  omega

/-- The name of a staging directory tells the job and the generation. -/
theorem stagingMark_inj {jobId other : String} {m n : Nat} {name : List Char} (h : Patterns.isJobId jobId = true)
    (h' : Patterns.isJobId other = true) (hname : stagingMark jobId m <+: name) (hname' : stagingMark other n <+: name) :
    jobId = other ∧ m = n := by
  obtain ⟨rest, rfl⟩ := hname
  obtain ⟨rest', heq⟩ := hname'
  simp only [stagingMark, List.append_assoc] at heq
  obtain ⟨hjob, heq⟩ := List.append_inj heq ((length_jobId h').trans (length_jobId h).symm)
  obtain ⟨-, heq⟩ := List.append_inj heq rfl
  have hplain : ∀ n : Nat, '-' ∉ (toString n).toList := fun n hmem => by
    have hdigit := Separators.isDigit_repr hmem
    cases hdigit
  obtain ⟨hgeneration, -⟩ := Separators.split_inj (hplain n) (hplain m) heq
  exact ⟨(String.toList_inj.mp hjob).symm, (Separators.repr_injective (String.toList_inj.mp hgeneration)).symm⟩

theorem mem_stagingMatches {jobId : String} {generation : Nat} {root : Path}
    (h : root ∈ stagingMatches t policy jobId generation) :
    ∃ name, root = stagingRoot policy ++ [name] ∧ IsName name ∧ stagingMark jobId generation <+: name.toList := by
  obtain ⟨name, hname, rfl⟩ := List.mem_map.mp h
  rw [List.mem_insertionSort, List.mem_filter, decide_eq_true_eq] at hname
  refine ⟨name, rfl, ?_, hname.2⟩
  unfold FileTree.listing at hname
  cases hr : t.resolve (stagingRoot policy) with
  | none => simp [hr] at hname
  | some q =>
    rw [hr] at hname
    obtain ⟨node, hnode⟩ := FileTree.mem_names.mp hname.1
    exact (t.named _ hnode).2 name (by simp)

/-- Two staging directories that are no links have one place only when they are
of one job and one generation. -/
theorem staging_inj {jobId other : String} {m n : Nat} {root root' path : Path} (h : Patterns.isJobId jobId = true)
    (h' : Patterns.isJobId other = true) (hroot : root ∈ stagingMatches t policy jobId m)
    (hroot' : root' ∈ stagingMatches t policy other n) (hlink : t.isSymlink root = false)
    (hlink' : t.isSymlink root' = false) (hpath : relative t policy.root root = .ok path)
    (hpath' : relative t policy.root root' = .ok path) : jobId = other ∧ m = n := by
  obtain ⟨name, rfl, hname, hmark⟩ := mem_stagingMatches hroot
  obtain ⟨name', rfl, hname', hmark'⟩ := mem_stagingMatches hroot'
  obtain ⟨r, hr, heq⟩ := relative_eq_ok.mp hpath
  obtain ⟨r', hr', heq'⟩ := relative_eq_ok.mp hpath'
  obtain ⟨q, -, rfl⟩ := FileTree.resolve_concat hname hlink hr
  obtain ⟨q', -, rfl⟩ := FileTree.resolve_concat hname' hlink' hr'
  have hlast : [name] = [name'] := (List.append_inj' (heq.trans heq'.symm) rfl).2
  obtain rfl := List.singleton_inj.mp hlast
  exact stagingMark_inj h h' hmark hmark'

end Places

section Plans

variable {w : World} {hashing : Hashing} {request : Request} {plan : Plan} {policy : RetentionPolicy}

theorem mem_selectedJobs {job : Job} (h : job ∈ selectedJobs w.ledger request) : job ∈ w.ledger.jobs := by
  unfold selectedJobs at h
  split at h
  · exact (mem_jobRows.mp h).1
  · exact (List.not_mem_nil h).elim

theorem selectedJobs_nodup : ((selectedJobs w.ledger request).map (·.jobId)).Nodup := by
  unfold selectedJobs
  split
  · exact jobRows_nodup
  · exact List.nodup_nil

/-- The outcomes that a plan's pass over the failed attempts is made of, job by job. -/
theorem outcomes_collectFailures {failures : Collected} (h : collectFailures w hashing policy request = .ok failures) :
    ∃ passes : List Collected, List.Forall₂ (Outcome w.files hashing policy w.ledger w.holds)
        (selectedJobs w.ledger request) passes ∧
      ∃ unknown, Silent unknown ∧ failures = (Collected.concat passes).append unknown := by
  unfold collectFailures at h
  obtain ⟨failed, hfailed, h⟩ := bind_eq_ok.mp h
  have hpasses : List.Forall₂ (Outcome w.files hashing policy w.ledger w.holds) (selectedJobs w.ledger request)
      (failed.map (·.collected)) :=
    List.forall₂_map_right_iff.mpr ((mapM_eq_ok hfailed).imp fun _ _ => outcome_failedJob)
  refine ⟨_, hpasses, ?_⟩
  dsimp only at h
  split at h
  · obtain ⟨unknown, hunknown, h⟩ := bind_eq_ok.mp h
    exact ⟨_, .mapM hunknown fun _ _ => silent_unknownStaging, (pure_eq_ok.mp h).symm⟩
  · exact ⟨_, .empty, (pure_eq_ok.mp h).symm⟩

section Outcomes

variable {t : Files} {ledger : Ledger} {holds : List RetentionHold} {job : Job} {collected : Collected}

/-- A number that one failed attempt of the job has is the number of that attempt only. -/
theorem attempt_of_is {a b : Attempt} (ha : a ∈ failedAttemptsOf ledger job.jobId)
    (hb : b ∈ failedAttemptsOf ledger job.jobId) (h : b.is job.jobId a.attemptNumber = true) : b = a :=
  Table.key_injective failedAttemptsOf_nodup hb ha (of_decide_eq_true (Bool.and_eq_true_iff.mp h).2)

theorem Outcome.accounts_le (h : Outcome t hashing policy ledger holds job collected) (jobId : String) (number : Nat) :
    collected.accounts jobId number ≤ (failedAttemptsOf ledger job.jobId).countP (Attempt.is jobId number) := by
  cases h with
  | accounted bundles exact => exact (exact jobId number).le
  | bundled bundles grouped real fields exact => exact (exact jobId number).le
  | @refused rep member group bundles grouped hmember noted exact =>
    have htotal := exact jobId number
    have hone : (if member.attempt.is jobId number then 1 else 0) ≤
        (group.map (·.attempt)).countP (Attempt.is jobId number) := by
      split
      · rename_i his
        exact List.countP_pos_iff.mpr ⟨_, List.mem_map_of_mem hmember, his⟩
      · exact Nat.zero_le _
    omega

/-- A failed attempt that is not accounted for belongs to a group that was refused for another attempt. -/
theorem Outcome.lost (h : Outcome t hashing policy ledger holds job collected) {a : Attempt}
    (ha : a ∈ failedAttemptsOf ledger job.jobId) (hnone : collected.accounts job.jobId a.attemptNumber = 0) :
    collected.bundles = [] ∧ ∃ c member, Staged t hashing policy ledger holds job.jobId c ∧
      Staged t hashing policy ledger holds job.jobId member ∧ c.attempt = a ∧ member.attempt ≠ a ∧
      member.fingerprint = c.fingerprint ∧
      ∃ note ∈ collected.quarantined, note.names job.jobId member.attempt.attemptNumber = true := by
  have hone := countP_failedAttemptsOf ha
  cases h with
  | accounted bundles exact =>
    have hall := exact job.jobId a.attemptNumber
    omega
  | bundled bundles grouped real fields exact =>
    have hall := exact job.jobId a.attemptNumber
    omega
  | @refused rep member group bundles grouped hmember noted exact =>
    have hall := exact job.jobId a.attemptNumber
    rw [hone, hnone, Nat.zero_add] at hall
    have hmemberStaged := (grouped.staged member hmember).1
    have hle : (group.map (·.attempt)).countP (Attempt.is job.jobId a.attemptNumber) ≤ 1 := by
      have hcount : (group.map (·.attempt)).countP (Attempt.is job.jobId a.attemptNumber) ≤
          (group.map (·.attempt)).countP (fun b => decide (b = a)) := by
        refine List.countP_mono_left fun b hb his => ?_
        obtain ⟨c, hc, rfl⟩ := List.mem_map.mp hb
        exact decide_eq_true (attempt_of_is ha (grouped.staged c hc).1.failed his)
      have hunique := List.nodup_iff_count_le_one.mp grouped.nodup a
      exact hcount.trans ((List.countP_congr fun b _ => by simp).le.trans hunique)
    have hother : member.attempt.is job.jobId a.attemptNumber = false := by
      by_contra his
      rw [Bool.not_eq_false] at his
      rw [his] at hall
      simp only [if_true] at hall
      omega
    rw [hother] at hall
    obtain ⟨b, hb, his⟩ := List.countP_pos_iff.mp (by rw [hall]; simp : 0 < (group.map (·.attempt)).countP
      (Attempt.is job.jobId a.attemptNumber))
    obtain ⟨c, hc, rfl⟩ := List.mem_map.mp hb
    obtain ⟨hstaged, hsame⟩ := grouped.staged c hc
    obtain ⟨note, hnote, hnames⟩ := noted
    refine ⟨bundles, c, member, hstaged, hmemberStaged, attempt_of_is ha hstaged.failed his, ?_, ?_, note, hnote, ?_⟩
    · rintro rfl
      simp [Attempt.is, (mem_failedAttemptsOf.mp ha).2.1] at hother
    · exact (grouped.staged member hmember).2.trans hsame.symm
    · rw [hnames]
      simp [Attempt.is, (mem_failedAttemptsOf.mp hmemberStaged.failed).2.1]

theorem Outcome.bundles_jobId (h : Outcome t hashing policy ledger holds job collected) :
    (collected.bundles.map (·.jobId)).Sublist [job.jobId] := by
  cases h with
  | accounted bundles exact => simp [bundles]
  | bundled bundles grouped real fields exact => simp [bundles, fields.job.1]
  | refused bundles grouped hmember noted exact => simp [bundles]

theorem Outcome.jobId_eq (h : Outcome t hashing policy ledger holds job collected) {bundle : Bundle}
    (hbundle : bundle ∈ collected.bundles) : bundle.jobId = job.jobId :=
  List.mem_singleton.mp (h.bundles_jobId.subset (List.mem_map_of_mem hbundle))

/-- What the passes over jobs say about one job. -/
structure About (passes : List Collected) (jobId : String) (pass : Collected) : Prop where
  accounts : ∀ number, (passes.map fun c => c.accounts jobId number).sum = pass.accounts jobId number
  bundles : ∀ bundle ∈ passes.flatMap Collected.bundles, bundle.jobId = jobId → bundle ∈ pass.bundles

/-- Over jobs with distinct ids, a job is accounted for by its own pass. -/
theorem about_outcomes {jobs : List Job} {passes : List Collected} (hnodup : (jobs.map (·.jobId)).Nodup)
    (h : List.Forall₂ (Outcome t hashing policy ledger holds) jobs passes) :
    (∀ jobId, jobId ∉ jobs.map (·.jobId) → About passes jobId {}) ∧
    ∀ job ∈ jobs, ∃ pass ∈ passes, Outcome t hashing policy ledger holds job pass ∧ About passes job.jobId pass := by
  induction h with
  | nil =>
    exact ⟨fun _ _ => ⟨fun _ => rfl, fun _ h => (List.not_mem_nil h).elim⟩, fun _ h => (List.not_mem_nil h).elim⟩
  | @cons job pass jobs passes hpass _ ih =>
    obtain ⟨hfresh, hrest⟩ := List.nodup_cons.mp hnodup
    obtain ⟨hnone, hone⟩ := ih hrest
    have hcons : ∀ jobId found, jobId ≠ job.jobId → About passes jobId found → About (pass :: passes) jobId found := by
      intro jobId found hne habout
      have hzero : ∀ number, pass.accounts jobId number = 0 := fun number =>
        Nat.le_zero.mp ((hpass.accounts_le jobId number).trans (countP_failedAttemptsOf_other hne).le)
      refine ⟨fun number => ?_, fun bundle hbundle hjob => ?_⟩
      · rw [List.map_cons, List.sum_cons, hzero number, habout.accounts number, Nat.zero_add]
      · rcases List.mem_append.mp hbundle with hbundle | hbundle
        · exact absurd (hjob.symm.trans (hpass.jobId_eq hbundle)) hne
        · exact habout.bundles bundle hbundle hjob
    refine ⟨fun jobId hnot => ?_, fun other hmem => ?_⟩
    · rw [List.map_cons, List.mem_cons, not_or] at hnot
      exact hcons jobId {} hnot.1 (hnone jobId hnot.2)
    · rcases List.mem_cons.mp hmem with rfl | hmem
      · have hempty := hnone other.jobId hfresh
        refine ⟨pass, List.mem_cons_self, hpass, fun number => ?_, fun bundle hbundle hjob => ?_⟩
        · rw [List.map_cons, List.sum_cons, hempty.accounts number, accounts_empty, Nat.add_zero]
        · rcases List.mem_append.mp hbundle with hbundle | hbundle
          · exact hbundle
          · exact (List.not_mem_nil (hempty.bundles bundle hbundle hjob)).elim
      · obtain ⟨found, hfound, houtcome, habout⟩ := hone other hmem
        have hne : other.jobId ≠ job.jobId := fun he => hfresh (List.mem_map.mpr ⟨other, hmem, he⟩)
        exact ⟨found, List.mem_cons_of_mem pass hfound, houtcome, hcons other.jobId found hne habout⟩

theorem bundles_jobIds {jobs : List Job} {passes : List Collected}
    (h : List.Forall₂ (Outcome t hashing policy ledger holds) jobs passes) :
    ((passes.flatMap Collected.bundles).map (·.jobId)).Sublist (jobs.map (·.jobId)) := by
  induction h with
  | nil => exact .refl []
  | @cons job pass jobs passes hpass _ ih =>
    rw [List.flatMap_cons, List.map_append]
    exact hpass.bundles_jobId.append ih

end Outcomes

end Plans

section Results

variable {w : World} {hashing : Hashing} {request : Request} {plan : Plan} {policy : RetentionPolicy}

/-- How a plan accounts for the failed attempts of the jobs it is about. -/
structure Accounted (w : World) (hashing : Hashing) (request : Request) (policy : RetentionPolicy) (plan : Plan) : Prop where
  once : ∀ jobId number, plan.basis.collected.accounts jobId number ≤ 1
  failed : ∀ jobId number, 0 < plan.basis.collected.accounts jobId number →
    ∃ job ∈ selectedJobs w.ledger request, job.jobId = jobId ∧
      ∃ a ∈ failedAttemptsOf w.ledger jobId, a.attemptNumber = number
  lost : ∀ job ∈ selectedJobs w.ledger request, ∀ a ∈ failedAttemptsOf w.ledger job.jobId,
    plan.basis.collected.accounts job.jobId a.attemptNumber = 0 →
      (∀ bundle ∈ plan.basis.collected.bundles, bundle.jobId ≠ job.jobId) ∧
      ∃ c member, Staged w.files hashing policy w.ledger w.holds job.jobId c ∧
        Staged w.files hashing policy w.ledger w.holds job.jobId member ∧ c.attempt = a ∧ member.attempt ≠ a ∧
        member.fingerprint = c.fingerprint ∧
        ∃ note ∈ plan.quarantined, note.names job.jobId member.attempt.attemptNumber = true

/-- A bundle stands for failed attempts of one job that no hold protects and that failed in
one way; its sources are their staging directories, and its representative is the job's latest. -/
structure Sound (w : World) (hashing : Hashing) (request : Request) (policy : RetentionPolicy) (bundle : Bundle) : Prop where
  job : ∃ job ∈ selectedJobs w.ledger request, bundle.jobId = job.jobId ∧ bundle.jobState = job.state
  sources : ∃ group : List Candidate, bundle.collapsedAttempts = group.map (·.attempt.attemptNumber) ∧
    group.mapM (fun c => relative w.files policy.root c.root) = .ok bundle.sourcePaths ∧
    ∀ c ∈ group, Staged w.files hashing policy w.ledger w.holds bundle.jobId c ∧
      c.fingerprint = bundle.failureFingerprint ∧ w.files.isSymlink c.root = false
  first : bundle.collapsedAttempts.head? = some bundle.representativeAttemptNumber
  latest : ∀ c, Staged w.files hashing policy w.ledger w.holds bundle.jobId c →
    c.attempt.attemptNumber ≤ bundle.representativeAttemptNumber

theorem Staged.ext {t : Files} {ledger : Ledger} {holds : List RetentionHold} {jobId other : String} {c d : Candidate}
    (hc : Staged t hashing policy ledger holds jobId c) (hd : Staged t hashing policy ledger holds other d)
    (h : c.attempt = d.attempt) : c = d := by
  have hroot : c.root = d.root := List.singleton_inj.mp (hc.staging.symm.trans (h ▸ hd.staging))
  rw [hc.examined, hd.examined, h, hroot]

/-- Two attempts with one staging directory are one attempt. -/
theorem Staged.place_inj {jobId other : String} {c d : Candidate} {path : Path}
    (hc : Staged w.files hashing policy w.ledger w.holds jobId c)
    (hd : Staged w.files hashing policy w.ledger w.holds other d)
    (hjob : Patterns.isJobId jobId = true) (hother : Patterns.isJobId other = true)
    (hlink : w.files.isSymlink c.root = false) (hlink' : w.files.isSymlink d.root = false)
    (hpath : relative w.files policy.root c.root = .ok path) (hpath' : relative w.files policy.root d.root = .ok path) :
    c = d := by
  obtain ⟨hcAttempt, hcJob, -⟩ := mem_failedAttemptsOf.mp hc.failed
  obtain ⟨hdAttempt, hdJob, -⟩ := mem_failedAttemptsOf.mp hd.failed
  have hcRoot := hc.staging
  have hdRoot := hd.staging
  rw [hcJob] at hcRoot
  rw [hdJob] at hdRoot
  obtain ⟨rfl, hgeneration⟩ := staging_inj hjob hother (hcRoot ▸ List.mem_singleton_self _)
    (hdRoot ▸ List.mem_singleton_self _) hlink hlink' hpath hpath'
  have hsame : c.attempt = d.attempt := Table.key_injective w.ledger.generations_nodup hcAttempt hdAttempt
    (Prod.ext (hcJob.trans hdJob.symm) hgeneration)
  exact hc.ext hd hsame

theorem accounts_compiled {successes failures validation : Collected} {passes : List Collected} {unknown : Collected}
    (h : Compiled w hashing request plan policy successes failures validation) (hunknown : Silent unknown)
    (hfailures : failures = (Collected.concat passes).append unknown) :
    plan.basis.collected.bundles = passes.flatMap Collected.bundles ∧ ∀ jobId number,
      plan.basis.collected.accounts jobId number = (passes.map fun c => c.accounts jobId number).sum := by
  have hsuccesses := silent_collectSuccesses h.completed
  have hvalidation := silent_collectValidation h.validated
  rw [h.collected, hfailures]
  constructor
  · simp [hsuccesses.bundles, hvalidation.bundles, hunknown.bundles]
  · intro jobId number
    simp [hsuccesses.accounts, hvalidation.accounts, hunknown.accounts]

/-- In a plan every failed attempt of a selected job is accounted for at most once, and
one that is not shares its failure with another for which the whole group was refused. -/
theorem failed_attempts_accounted (h : compileRetentionPlan w hashing request = .ok plan) :
    ∃ policy, loadRetentionPolicy w.files w.projectRoot w.document = .ok policy ∧
      Accounted w hashing request policy plan := by
  obtain ⟨policy, successes, failures, validation, hcompiled⟩ := compileRetentionPlan_eq_ok h
  obtain ⟨passes, hpasses, unknown, hunknown, hfailures⟩ := outcomes_collectFailures hcompiled.failed
  obtain ⟨hbundles, haccounts⟩ := accounts_compiled hcompiled hunknown hfailures
  obtain ⟨hnone, hone⟩ := about_outcomes selectedJobs_nodup hpasses
  refine ⟨policy, hcompiled.loaded, fun jobId number => ?_, fun jobId number hpos => ?_, fun job hjob a ha hlost => ?_⟩
  · rw [haccounts]
    by_cases hmem : jobId ∈ (selectedJobs w.ledger request).map (·.jobId)
    · obtain ⟨job, hjob, rfl⟩ := List.mem_map.mp hmem
      obtain ⟨pass, -, houtcome, habout⟩ := hone job hjob
      rw [habout.accounts]
      exact (houtcome.accounts_le job.jobId number).trans (countP_failedAttemptsOf_le job.jobId)
    · rw [(hnone jobId hmem).accounts]
      exact Nat.zero_le 1
  · rw [haccounts] at hpos
    by_cases hmem : jobId ∈ (selectedJobs w.ledger request).map (·.jobId)
    · obtain ⟨job, hjob, rfl⟩ := List.mem_map.mp hmem
      obtain ⟨pass, -, houtcome, habout⟩ := hone job hjob
      rw [habout.accounts] at hpos
      obtain ⟨a, ha, his⟩ := List.countP_pos_iff.mp (hpos.trans_le (houtcome.accounts_le job.jobId number))
      exact ⟨job, hjob, rfl, a, ha, of_decide_eq_true (Bool.and_eq_true_iff.mp his).2⟩
    · rw [(hnone jobId hmem).accounts] at hpos
      exact absurd hpos (lt_irrefl 0)
  · rw [haccounts] at hlost
    obtain ⟨pass, hpass, houtcome, habout⟩ := hone job hjob
    rw [habout.accounts] at hlost
    obtain ⟨hempty, c, member, hc, hmember, hattempt, hne, hsame, note, hnote, hnames⟩ := houtcome.lost ha hlost
    refine ⟨fun bundle hbundle he => ?_, c, member, hc, hmember, hattempt, hne, hsame, note, ?_, hnames⟩
    · have hown := habout.bundles bundle (hbundles ▸ hbundle) he
      rw [hempty] at hown
      exact List.not_mem_nil hown
    · rw [Plan.quarantined, hcompiled.collected, hfailures]
      simp only [quarantined_append, quarantined_concat, List.mem_append, List.mem_flatMap]
      exact .inr (.inl (.inl ⟨pass, hpass, hnote⟩))

theorem Outcome.sound {job : Job} {pass : Collected} {bundle : Bundle} (hjob : job ∈ selectedJobs w.ledger request)
    (h : Outcome w.files hashing policy w.ledger w.holds job pass) (hbundle : bundle ∈ pass.bundles) :
    Sound w hashing request policy bundle ∧ bundle.sourcePaths.Nodup := by
  cases h with
  | accounted bundles exact =>
    rw [bundles] at hbundle
    exact (List.not_mem_nil hbundle).elim
  | refused bundles grouped hmember noted exact =>
    rw [bundles] at hbundle
    exact (List.not_mem_nil hbundle).elim
  | @bundled rep group found bundles grouped real fields exact =>
    rw [bundles, List.mem_singleton] at hbundle
    subst hbundle
    obtain ⟨hjobId, hstate, -⟩ := fields.job
    obtain ⟨-, hnumber, hfingerprint⟩ := fields.representative
    have hstaged : ∀ c ∈ group, Staged w.files hashing policy w.ledger w.holds bundle.jobId c := fun c hc =>
      hjobId ▸ (grouped.staged c hc).1
    refine ⟨⟨⟨job, hjob, hjobId, hstate⟩, ⟨group, fields.collapsed, fields.sources, fun c hc => ?_⟩, ?_,
      fun c hc => ?_⟩, ?_⟩
    · exact ⟨hstaged c hc, (grouped.staged c hc).2.trans hfingerprint.symm, real c hc⟩
    · rw [fields.collapsed, List.head?_map, grouped.first, hnumber]
      rfl
    · rw [hnumber]
      exact grouped.latest c (hjobId ▸ hc)
    · have hvalid : Patterns.isJobId bundle.jobId = true := hjobId ▸ w.ledger.jobId_valid job (mem_selectedJobs hjob)
      exact nodup_mapM fields.sources (List.Nodup.of_map _ grouped.nodup) fun c hc d hd path hpath hpath' =>
        (hstaged c hc).place_inj (hstaged d hd) hvalid hvalid (real c hc) (real d hd) hpath hpath'

/-- Every bundle of a plan is sound, and no directory is the source of two. -/
theorem bundles_sound (h : compileRetentionPlan w hashing request = .ok plan) :
    ∃ policy, loadRetentionPolicy w.files w.projectRoot w.document = .ok policy ∧
      (∀ bundle ∈ plan.basis.collected.bundles, Sound w hashing request policy bundle) ∧
      (plan.basis.collected.bundles.flatMap (·.sourcePaths)).Nodup := by
  obtain ⟨policy, successes, failures, validation, hcompiled⟩ := compileRetentionPlan_eq_ok h
  obtain ⟨passes, hpasses, unknown, hunknown, hfailures⟩ := outcomes_collectFailures hcompiled.failed
  obtain ⟨hbundles, -⟩ := accounts_compiled hcompiled hunknown hfailures
  obtain ⟨hnone, hone⟩ := about_outcomes selectedJobs_nodup hpasses
  have hsound : ∀ bundle ∈ plan.basis.collected.bundles,
      Sound w hashing request policy bundle ∧ bundle.sourcePaths.Nodup := by
    intro bundle hbundle
    rw [hbundles] at hbundle
    have hmem := (bundles_jobIds hpasses).subset (List.mem_map_of_mem hbundle)
    obtain ⟨job, hjob, hjobId⟩ := List.mem_map.mp hmem
    obtain ⟨pass, -, houtcome, habout⟩ := hone job hjob
    exact houtcome.sound hjob (habout.bundles bundle hbundle hjobId.symm)
  refine ⟨policy, hcompiled.loaded, fun bundle hbundle => (hsound bundle hbundle).1,
    List.nodup_flatMap.mpr ⟨fun bundle hbundle => (hsound bundle hbundle).2, ?_⟩⟩
  have hdistinct : plan.basis.collected.bundles.Pairwise fun a b => a.jobId ≠ b.jobId := by
    rw [hbundles]
    exact List.pairwise_map.mp (selectedJobs_nodup.sublist (bundles_jobIds hpasses))
  refine hdistinct.imp_of_mem fun {a b} ha hb hne => ?_
  rintro path hpath hpath'
  obtain ⟨⟨jobA, hjobA, hidA, -⟩, ⟨groupA, -, hsourcesA, hgroupA⟩, -, -⟩ := (hsound a ha).1
  obtain ⟨⟨jobB, hjobB, hidB, -⟩, ⟨groupB, -, hsourcesB, hgroupB⟩, -, -⟩ := (hsound b hb).1
  obtain ⟨c, hc, hplace⟩ := mem_mapM hsourcesA path hpath
  obtain ⟨d, hd, hplace'⟩ := mem_mapM hsourcesB path hpath'
  obtain ⟨hcStaged, -, hcReal⟩ := hgroupA c hc
  obtain ⟨hdStaged, -, hdReal⟩ := hgroupB d hd
  have hvalidA : Patterns.isJobId a.jobId = true := hidA ▸ w.ledger.jobId_valid jobA (mem_selectedJobs hjobA)
  have hvalidB : Patterns.isJobId b.jobId = true := hidB ▸ w.ledger.jobId_valid jobB (mem_selectedJobs hjobB)
  obtain rfl := hcStaged.place_inj hdStaged hvalidA hvalidB hcReal hdReal hplace hplace'
  have hjobs := (mem_failedAttemptsOf.mp hcStaged.failed).2.1.symm.trans (mem_failedAttemptsOf.mp hdStaged.failed).2.1
  exact hne hjobs

end Results

section Samples

def zeroSha256 : Sha256 := ⟨String.ofList (List.replicate 64 '0'), by decide⟩

def plainHashing : Hashing :=
  { fingerprint := fun _ => zeroSha256, retained := fun _ => zeroSha256, plan := fun _ => zeroSha256
    render := fun document => ⟨0, 0, zeroSha256, some document⟩, render_json := fun _ => rfl }

def plainDocument : PolicyDocument :=
  { schemaVersion := "fidb-retention-policy/v1"
    name := "plain"
    preserveUntilLaneImported := true
    pruneAfterReceipt := ["work"]
    requiredResultArtifacts := ["fidb"]
    retainLatestEvidenceBundle := true
    collapseIdenticalRetries := true
    evidenceGlobs := ["*.log"]
    maxEvidenceFileBytes := 1
    validationEnabled := false
    validationAutomaticAfterTerminalRun := false
    validationScratchGlobs := ["work"]
    validationRequiredFoldArtifacts := ["a"]
    validationPruneCompositeBinaries := false
    validationRequiredSignatureEvidenceSchema := "s"
    automationEnabled := false
    automationTriggers := ["queue-drained", "machine-validation-complete"]
    automationMode := "plan"
    dryRunFirst := true
    maximumEstimatedSeconds := 1
    workerAction := "none"
    memoryCleanupEnabled := false
    auditAfterRecycle := false
    postRecycleRssWarningMib := 1
    parkTerminalWorkers := false
    parkPollSeconds := 1
    maximumActions := 1
    maximumScanFiles := 1
    authoritySha256 := zeroSha256
    paths := ⟨"runs", "validation", "bundles", "plans", "state", "audits", "receipts", "holds"⟩ }

def plainJobId : String := String.ofList ("job-".toList ++ List.replicate 64 '0')

def plainAttempt (number : Nat) : Attempt :=
  ⟨number, plainJobId, number, number, .failed, "t", none, some "boom"⟩

/-- One job whose two attempts failed alike. -/
def plainLedger : Ledger :=
  { syncGeneration := 1, syncedAt := none, armed := false, paused := true
    jobs := [⟨plainJobId, "b", "c", .failed, true, none⟩]
    attempts := [plainAttempt 1, plainAttempt 2]
    stageAttempts := [], drained := []
    jobs_nodup := by simp
    jobId_valid := by decide
    attempts_nodup := by simp [plainAttempt]
    numbers_nodup := by simp [plainAttempt]
    generations_nodup := by simp [plainAttempt] }

def plainStaging (number : Nat) : Path := ["runs", "staging", plainJobId ++ s!"-g{number}-a"]

def plainFiles : Files :=
  { entries := [(["runs"], .directory), (["runs", "staging"], .directory), (plainStaging 1, .directory),
      (plainStaging 2, .directory)]
    nodup := by decide
    named := by decide
    grounded := List.forall_mem_cons.mpr ⟨rfl, List.forall_mem_cons.mpr ⟨rfl, List.forall_mem_cons.mpr ⟨rfl,
      List.forall_mem_cons.mpr ⟨rfl, fun _ h => (List.not_mem_nil h).elim⟩⟩⟩⟩ }

def plainWorld : World := ⟨[], plainDocument, [], plainLedger, plainFiles⟩

def plainRequest : Request := ⟨.production, "manual", none, none⟩

theorem plain_compiled : ∃ plan, compileRetentionPlan plainWorld plainHashing plainRequest = .ok plan ∧
    plan.basis.collected.bundles.map (·.collapsedAttempts) = [[2, 1]] := by
  have h : (compileRetentionPlan plainWorld plainHashing plainRequest).toOption.map
      (fun plan => plan.basis.collected.bundles.map (·.collapsedAttempts)) = some [[2, 1]] := by decide
  cases hcompiled : compileRetentionPlan plainWorld plainHashing plainRequest with
  | error fault =>
    rw [hcompiled] at h
    cases h
  | ok plan =>
    rw [hcompiled] at h
    exact ⟨plan, rfl, Option.some.inj h⟩

theorem failed_attempts_accounted_plain : ∃ (plan : Plan) (policy : RetentionPolicy),
    plan.basis.collected.bundles.map (·.collapsedAttempts) = [[2, 1]] ∧
    Accounted plainWorld plainHashing plainRequest policy plan := by
  obtain ⟨plan, hcompiled, hbundles⟩ := plain_compiled
  obtain ⟨policy, -, haccounted⟩ := failed_attempts_accounted hcompiled
  exact ⟨plan, policy, hbundles, haccounted⟩

theorem bundles_sound_plain : ∃ (plan : Plan) (policy : RetentionPolicy),
    plan.basis.collected.bundles.map (·.collapsedAttempts) = [[2, 1]] ∧
    (∀ bundle ∈ plan.basis.collected.bundles, Sound plainWorld plainHashing plainRequest policy bundle) ∧
    (plan.basis.collected.bundles.flatMap (·.sourcePaths)).Nodup := by
  obtain ⟨plan, hcompiled, hbundles⟩ := plain_compiled
  obtain ⟨policy, -, hsound, hnodup⟩ := bundles_sound hcompiled
  exact ⟨plan, policy, hbundles, hsound, hnodup⟩

end Samples

end FidbPoc.Retention
