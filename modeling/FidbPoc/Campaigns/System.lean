import FidbPoc.Campaigns.Reports
import FidbPoc.Lib.Run
import Mathlib.Logic.Function.Basic

namespace FidbPoc.Campaigns

open Lib

/-- What a worker does with the first of its cases. -/
inductive WorkerPhase
  | reaching
  | archiving
  | matching
  deriving DecidableEq

structure Worker where
  authorities : Authorities
  mode : Mode
  cases : List Case
  phase : WorkerPhase

/-- The cases that the worker has not reached. -/
def Worker.ahead (w : Worker) : List Case :=
  match w.phase with
  | .reaching => w.cases
  | _ => w.cases.tail

inductive WorkerAct
  | skip
  | archiveSummary
  | archiveFailure
  | finish (execution : Execution)
  | fail (error : String)
  | exit
  | crash

section Files

variable (dir : Directory) (runId : String) (c : Case)

def Directory.setSummary (summary : Option Summary) : Directory :=
  { dir with summaries := Function.update dir.summaries runId (Function.update (dir.summaries runId) c summary) }

def Directory.setFailure (error : Option String) : Directory :=
  { dir with failures := Function.update dir.failures runId (Function.update (dir.failures runId) c error) }

def Directory.setReport (mode : Mode) (report : Report) : Directory :=
  { dir with reports := Function.update dir.reports mode (some report) }

def Directory.setEvidence (mode : Mode) (digest : String) : Directory :=
  { dir with evidence := Function.update dir.evidence mode (some digest) }

/-- The worker finds a summary that stands for the case. -/
def reusableCase (a : Authorities) : Prop :=
  ∃ previous ∈ dir.summaries a.campaign.sourceRunId c,
    Reusable a.campaign c a.method.authoritySha256 a.method.selected previous

end Files

/-- One step of a worker. It archives the earlier summary and the earlier failure of a case before it runs the matcher on it,
and may end at any point. -/
inductive WorkerStep (dir : Directory) : Worker → WorkerAct → Directory → Option Worker → Prop
  | skip {a : Authorities} {mode : Mode} {c : Case} {rest : List Case} (hreusable : reusableCase dir c a) :
      WorkerStep dir ⟨a, mode, c :: rest, .reaching⟩ .skip dir (some ⟨a, mode, rest, .reaching⟩)
  | archiveSummary {a : Authorities} {mode : Mode} {c : Case} {rest : List Case} (hreusable : ¬ reusableCase dir c a) :
      WorkerStep dir ⟨a, mode, c :: rest, .reaching⟩ .archiveSummary (dir.setSummary a.campaign.sourceRunId c none)
        (some ⟨a, mode, c :: rest, .archiving⟩)
  | archiveFailure {a : Authorities} {mode : Mode} {c : Case} {rest : List Case} :
      WorkerStep dir ⟨a, mode, c :: rest, .archiving⟩ .archiveFailure (dir.setFailure a.campaign.sourceRunId c none)
        (some ⟨a, mode, c :: rest, .matching⟩)
  | finish {a : Authorities} {mode : Mode} {c : Case} {rest : List Case} {execution : Execution}
      (hfallback : execution.fallbackReason.isSome → a.requestedBackend = a.method.gpu) :
      WorkerStep dir ⟨a, mode, c :: rest, .matching⟩ (.finish execution)
        (dir.setSummary a.campaign.sourceRunId c (some (workerSummary a mode c execution)))
        (some ⟨a, mode, rest, .reaching⟩)
  | fail {a : Authorities} {mode : Mode} {c : Case} {rest : List Case} {error : String} :
      WorkerStep dir ⟨a, mode, c :: rest, .matching⟩ (.fail error) (dir.setFailure a.campaign.sourceRunId c (some error))
        (some ⟨a, mode, rest, .reaching⟩)
  | exit {a : Authorities} {mode : Mode} : WorkerStep dir ⟨a, mode, [], .reaching⟩ .exit dir none
  | crash {w : Worker} : WorkerStep dir w .crash dir none

/-- How far a run of the campaign is. -/
inductive RunPhase
  | working
  | aggregated (report : Report)
  | published (report : Report)

structure CampaignRun where
  mode : Mode
  phase : RunPhase

/-- A campaign directory, the authorities in force, the run that holds the lock with its workers, and the workers that
earlier runs left behind. -/
structure Site where
  authorities : Authorities
  dir : Directory
  run : Option CampaignRun
  workers : List Worker
  orphans : List Worker

inductive Op
  | edit (a : Authorities)
  | begin (mode : Mode) (functionsHashed : Case → Nat)
  | worker (w : Worker) (act : WorkerAct)
  | orphan (w : Worker) (act : WorkerAct)
  | aggregate
  | publish (digest : String)
  | write
  | stop

def emptyDirectory : Directory := ⟨fun _ _ => none, fun _ _ => none, fun _ => none, fun _ => none⟩

/-- A campaign directory before its first run. -/
def initial (a : Authorities) : Site := ⟨a, emptyDirectory, none, [], []⟩

def startWorker (a : Authorities) (mode : Mode) (chunk : Chunk) : Worker := ⟨a, mode, chunk.cases, .reaching⟩

/-- One step around a campaign directory. A run that is killed, or that raises, leaves its workers behind. -/
inductive Next (site : Site) : Op → Site → Prop
  | edit {a : Authorities} (hrun : site.run = none) : Next site (.edit a) { site with authorities := a }
  | begin {mode : Mode} {functionsHashed : Case → Nat} (hrun : site.run = none)
      (hhashed : ∀ row ∈ pendingCases site.authorities site.dir mode functionsHashed, 0 < row.2)
      (hterminal : scheduledCaseChunks site.authorities site.dir mode functionsHashed = [] →
        terminalCampaignReport site.authorities site.dir mode = none) :
      Next site (.begin mode functionsHashed)
        { site with
          run := some ⟨mode, .working⟩
          workers := (scheduledCaseChunks site.authorities site.dir mode functionsHashed).map
            (startWorker site.authorities mode) }
  | worker {w : Worker} {w' : Option Worker} {act : WorkerAct} {dir : Directory} {xs ys : List Worker}
      (hworkers : site.workers = xs ++ w :: ys) (hstep : WorkerStep site.dir w act dir w') :
      Next site (.worker w act) { site with dir, workers := xs ++ w'.toList ++ ys }
  | orphan {w : Worker} {w' : Option Worker} {act : WorkerAct} {dir : Directory} {xs ys : List Worker}
      (horphans : site.orphans = xs ++ w :: ys) (hstep : WorkerStep site.dir w act dir w') :
      Next site (.orphan w act) { site with dir, orphans := xs ++ w'.toList ++ ys }
  | aggregate {mode : Mode} (hrun : site.run = some ⟨mode, .working⟩) (hworkers : site.workers = []) :
      Next site .aggregate { site with run := some ⟨mode, .aggregated (aggregate site.authorities site.dir mode)⟩ }
  | publish {mode : Mode} {report : Report} {digest : String} (hrun : site.run = some ⟨mode, .aggregated report⟩) :
      Next site (.publish digest)
        { site with
          dir := site.dir.setEvidence mode digest
          run := some ⟨mode, .published { report with databaseSha256 := some digest }⟩ }
  | write {mode : Mode} {report : Report} (hrun : site.run = some ⟨mode, .published report⟩) :
      Next site .write { site with dir := site.dir.setReport mode report, run := none }
  | stop {run : CampaignRun} (hrun : site.run = some run) :
      Next site .stop { site with run := none, workers := [], orphans := site.orphans ++ site.workers }

section Steps

variable {dir dir' : Directory} {runId runId' : String} {c c' : Case} {w : Worker} {w' : Option Worker} {act : WorkerAct}
  {s : Summary}

theorem setSummary_summaries (summary : Option Summary) : (dir.setSummary runId c summary).summaries runId' c' =
    if runId' = runId ∧ c' = c then summary else dir.summaries runId' c' := by
  unfold Directory.setSummary
  by_cases hrun : runId' = runId
  · subst hrun
    by_cases hc : c' = c
    · simp [hc]
    · simp [hc]
  · simp [hrun]

@[simp] theorem setFailure_summaries (error : Option String) : (dir.setFailure runId c error).summaries = dir.summaries := rfl

/-- A worker changes neither reports nor hash evidence. -/
theorem WorkerStep.frame (h : WorkerStep dir w act dir' w') :
    dir'.reports = dir.reports ∧ dir'.evidence = dir.evidence := by
  cases h <;> exact ⟨rfl, rfl⟩

theorem WorkerStep.authorities {v : Worker} (h : WorkerStep dir w act dir' (some v)) :
    v.authorities = w.authorities ∧ v.mode = w.mode := by
  cases h <;> exact ⟨rfl, rfl⟩

/-- A summary that is there after a step of a worker was there before, or is the one that the worker has made. -/
theorem WorkerStep.summaries (h : WorkerStep dir w act dir' w') (hs : dir'.summaries runId c = some s) :
    dir.summaries runId c = some s ∨ ∃ execution, s = workerSummary w.authorities w.mode c execution := by
  cases h with
  | skip | archiveFailure | fail | exit | crash => exact .inl hs
  | archiveSummary =>
    rw [setSummary_summaries] at hs
    split at hs
    · cases hs
    · exact .inl hs
  | finish =>
    rw [setSummary_summaries] at hs
    split at hs
    · rename_i heq
      cases hs
      rw [heq.2]
      exact .inr ⟨_, rfl⟩
    · exact .inl hs

/-- A case that a worker has reached in a step is one with a summary that stands for it, or without a summary; a worker that
crashes reaches no other case. -/
theorem WorkerStep.reached (h : WorkerStep dir w act dir' w') (hact : act ≠ .crash) (hc : c ∈ w.ahead) :
    (∃ v, w' = some v ∧ c ∈ v.ahead) ∨ reusableCase dir c w.authorities ∨
      dir'.summaries w.authorities.campaign.sourceRunId c = none := by
  cases h with
  | skip hreusable =>
    obtain rfl | hc := List.mem_cons.mp hc
    · exact .inr (.inl hreusable)
    · exact .inl ⟨_, rfl, hc⟩
  | archiveSummary =>
    obtain rfl | hc := List.mem_cons.mp hc
    · exact .inr (.inr (by simp [setSummary_summaries]))
    · exact .inl ⟨_, rfl, hc⟩
  | archiveFailure | finish | fail => exact .inl ⟨_, rfl, hc⟩
  | exit => exact absurd hc List.not_mem_nil
  | crash => exact absurd rfl hact

theorem aggregate_setEvidence {a : Authorities} {mode mode' : Mode} {digest : String} :
    aggregate a (dir.setEvidence mode' digest) mode = aggregate a dir mode := rfl

end Steps

end FidbPoc.Campaigns
