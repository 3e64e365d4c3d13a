import FidbPoc.Campaigns.Reports
import FidbPoc.Lib.Dict
import FidbPoc.Lib.Python
import FidbPoc.Lib.Run
import Mathlib.Data.List.Nodup
import Mathlib.Logic.Function.Basic

namespace FidbPoc.Campaigns.Sessions

open FidbPoc.Lib FidbPoc.Lib.Python

section Archive

inductive Kind
  | summary
  | failure
  deriving DecidableEq

def Kind.text : Kind → String
  | .summary => "summary"
  | .failure => "failure"

/-- A terminal record of a case. -/
inductive Record
  | summary (summary : Summary)
  | failure (error : String)

/-- What the directory of a case holds of records. -/
structure CaseFiles where
  summary : Option Summary
  failure : Option String
  attempts : Dict String Record

def attemptName (ordinal : Nat) (kind : Kind) : String := "attempt-" ++ format03d ordinal ++ "-" ++ kind.text ++ ".json"

/-- `int(path.name.split("-", 2)[1])` -/
def ordinalOf (name : String) : Option Nat := decimal ((name.toList.drop 8).takeWhile (· ≠ '-'))

/-- `max(ordinals, default=0) + 1` -/
def nextOrdinal (attempts : Dict String Record) : Nat :=
  ((attempts.entries.map Prod.fst).filterMap ordinalOf).foldr max 0 + 1

theorem ordinalOf_attemptName (ordinal : Nat) (kind : Kind) : ordinalOf (attemptName ordinal kind) = some ordinal := by
  have htext : (attemptName ordinal kind).toList.drop 8 =
      (format03d ordinal).toList ++ '-' :: (kind.text.toList ++ ".json".toList) := by
    simp [attemptName]
  have hdigits : ∀ c ∈ (format03d ordinal).toList, decide (c ≠ '-') = true := by
    intro c hc
    have hdigit := isDigit_format03d hc
    rw [decide_eq_true_eq]
    rintro rfl
    revert hdigit
    decide
  rw [ordinalOf, htext, List.takeWhile_append_of_pos hdigits, List.takeWhile_cons_of_neg (by decide), List.append_nil,
    decimal_format03d]

theorem attemptName_inj {ordinal ordinal' : Nat} {kind kind' : Kind} (h : attemptName ordinal kind = attemptName ordinal' kind') :
    ordinal = ordinal' ∧ kind = kind' := by
  have hordinal : ordinal = ordinal' := by
    have hread := ordinalOf_attemptName ordinal kind
    rw [h, ordinalOf_attemptName] at hread
    exact (Option.some.inj hread).symm
  subst hordinal
  refine ⟨rfl, ?_⟩
  have hlist := congrArg String.toList h
  simp only [attemptName, String.toList_append, List.append_cancel_right_eq, List.append_cancel_left_eq] at hlist
  cases kind <;> cases kind' <;> first | rfl | (revert hlist; decide)

theorem le_foldr_max {n : Nat} {numbers : List Nat} (h : n ∈ numbers) : n ≤ numbers.foldr max 0 := by
  induction numbers with
  | nil => cases h
  | cons first rest ih =>
    rw [List.foldr_cons]
    obtain rfl | h := List.mem_cons.mp h
    · exact le_max_left ..
    · exact (ih h).trans (le_max_right ..)

/-- The next ordinal gives names that no archived record has. -/
theorem get?_nextOrdinal (attempts : Dict String Record) (kind : Kind) :
    attempts.get? (attemptName (nextOrdinal attempts) kind) = none := by
  by_contra hsome
  obtain ⟨record, hrecord⟩ := Option.ne_none_iff_exists'.mp hsome
  have hmem : attemptName (nextOrdinal attempts) kind ∈ attempts.entries.map Prod.fst :=
    List.mem_map.mpr ⟨_, Dict.get?_eq_some_iff.mp hrecord, rfl⟩
  have hle := le_foldr_max (List.mem_filterMap.mpr ⟨_, hmem, ordinalOf_attemptName _ kind⟩)
  exact absurd hle (Nat.not_succ_le_self _)

end Archive

section Workers

/-- Where a worker is: before its indexes are there, or with its first case: the records that it has found and is still to
archive, the match, and the scratch after it. -/
inductive Phase
  | starting
  | reaching
  | found (summary failure : Bool)
  | archiving (ordinal : Nat) (summary failure : Bool)
  | matching
  | matched

/-- A live worker process with the cases that it has not done with. -/
structure Worker where
  pid : Nat
  mode : Mode
  cases : List Case
  phase : Phase

/-- The case that the worker executes. -/
def Worker.executing (w : Worker) : Option Case :=
  match w.phase with
  | .starting => none
  | .reaching => none
  | _ => w.cases.head?

/-- A scratch directory: one of a worker process, or the `work` of a case. -/
inductive Scratch
  | worker (pid : Nat)
  | work (c : Case)

def Worker.Owns (w : Worker) : Scratch → Prop
  | .worker pid => w.pid = pid
  | .work c => w.executing = some c

/-- The campaign root: the files of its cases and the scratch directories. -/
structure Root where
  files : Case → CaseFiles
  scratch : Set Scratch

def Root.setFiles (root : Root) (c : Case) (files : CaseFiles) : Root :=
  { root with files := Function.update root.files c files }

def Root.directory (root : Root) : Directory :=
  ⟨fun _ c => (root.files c).summary, fun _ c => (root.files c).failure, fun _ => none, fun _ => none⟩

inductive WorkerAct
  | prepare
  | skip
  | look
  | scan
  | archiveSummary
  | archiveFailure
  | start
  | finish (execution : Execution)
  | tidy
  | fail (error : String)
  | exit
  | crash

/-- `_reusable_case` on a case of the campaign. -/
def reusableCase (a : Authorities) (root : Root) (c : Case) : Prop :=
  ∃ previous ∈ (root.files c).summary, Reusable a.campaign c a.method.authoritySha256 a.method.selected previous

/-- One step of a worker, which may end at any point. -/
inductive WorkerStep (a : Authorities) (root : Root) : Worker → WorkerAct → Root → Option Worker → Prop
  | prepare {pid : Nat} {mode : Mode} {cases : List Case} :
      WorkerStep a root ⟨pid, mode, cases, .starting⟩ .prepare { root with scratch := insert (.worker pid) root.scratch }
        (some ⟨pid, mode, cases, .reaching⟩)
  | skip {pid : Nat} {mode : Mode} {c : Case} {rest : List Case} (hreusable : reusableCase a root c) :
      WorkerStep a root ⟨pid, mode, c :: rest, .reaching⟩ .skip root (some ⟨pid, mode, rest, .reaching⟩)
  | look {pid : Nat} {mode : Mode} {c : Case} {rest : List Case} (hreusable : ¬reusableCase a root c) :
      WorkerStep a root ⟨pid, mode, c :: rest, .reaching⟩ .look root
        (some ⟨pid, mode, c :: rest, .found (root.files c).summary.isSome (root.files c).failure.isSome⟩)
  | scan {pid : Nat} {mode : Mode} {c : Case} {rest : List Case} {summary failure : Bool} :
      WorkerStep a root ⟨pid, mode, c :: rest, .found summary failure⟩ .scan root
        (some ⟨pid, mode, c :: rest, .archiving (nextOrdinal (root.files c).attempts) summary failure⟩)
  | archiveSummary {pid ordinal : Nat} {mode : Mode} {c : Case} {rest : List Case} {failure : Bool} {summary : Summary}
      (hsummary : (root.files c).summary = some summary) :
      WorkerStep a root ⟨pid, mode, c :: rest, .archiving ordinal true failure⟩ .archiveSummary
        (root.setFiles c ⟨none, (root.files c).failure,
          (root.files c).attempts.set (attemptName ordinal .summary) (.summary summary)⟩)
        (some ⟨pid, mode, c :: rest, .archiving ordinal false failure⟩)
  | archiveFailure {pid ordinal : Nat} {mode : Mode} {c : Case} {rest : List Case} {error : String}
      (hfailure : (root.files c).failure = some error) :
      WorkerStep a root ⟨pid, mode, c :: rest, .archiving ordinal false true⟩ .archiveFailure
        (root.setFiles c ⟨(root.files c).summary, none,
          (root.files c).attempts.set (attemptName ordinal .failure) (.failure error)⟩)
        (some ⟨pid, mode, c :: rest, .archiving ordinal false false⟩)
  | start {pid ordinal : Nat} {mode : Mode} {c : Case} {rest : List Case} :
      WorkerStep a root ⟨pid, mode, c :: rest, .archiving ordinal false false⟩ .start
        { root with scratch := insert (.work c) root.scratch } (some ⟨pid, mode, c :: rest, .matching⟩)
  | finish {pid : Nat} {mode : Mode} {c : Case} {rest : List Case} {execution : Execution}
      (hfallback : execution.fallbackReason.isSome → a.requestedBackend = a.method.gpu) :
      WorkerStep a root ⟨pid, mode, c :: rest, .matching⟩ (.finish execution)
        (root.setFiles c { root.files c with summary := some (workerSummary a mode c execution) })
        (some ⟨pid, mode, c :: rest, .matched⟩)
  | tidy {pid : Nat} {mode : Mode} {c : Case} {rest : List Case} :
      WorkerStep a root ⟨pid, mode, c :: rest, .matched⟩ .tidy { root with scratch := root.scratch \ {.work c} }
        (some ⟨pid, mode, rest, .reaching⟩)
  | fail {pid : Nat} {mode : Mode} {c : Case} {rest : List Case} {error : String} :
      WorkerStep a root ⟨pid, mode, c :: rest, .matching⟩ (.fail error)
        (root.setFiles c { root.files c with failure := some error }) (some ⟨pid, mode, rest, .reaching⟩)
  | exit {pid : Nat} {mode : Mode} : WorkerStep a root ⟨pid, mode, [], .reaching⟩ .exit root none
  | crash {w : Worker} : WorkerStep a root w .crash root none

end Workers

section System

/-- How far the call that holds the lock is; the chunks of `starting` have no process yet. -/
inductive RunPhase
  | locked
  | cleaned
  | starting (chunks : List (List Case))
  | retained

structure CampaignRun where
  mode : Mode
  phase : RunPhase

/-- A campaign root with the call that holds its lock, the workers of that call, and the workers that earlier calls left. -/
structure Site where
  root : Root
  run : Option CampaignRun
  workers : List Worker
  orphans : List Worker

def Site.live (site : Site) : List Worker := site.workers ++ site.orphans

inductive Op
  | acquire (mode : Mode)
  | clean
  | schedule (functionsHashed : Case → Nat)
  | spawn (pid : Nat)
  | worker (w : Worker) (act : WorkerAct)
  | orphan (w : Worker) (act : WorkerAct)
  | retain
  | release
  | stop

/-- `_cleanup_campaign_scratch` -/
def Root.cleanup (root : Root) : Root := { root with scratch := ∅ }

/-- One step around a campaign root. A call that is killed, or that raises while it starts its workers, releases the lock and
leaves the workers that it has started. -/
inductive Next (a : Authorities) (site : Site) : Op → Site → Prop
  | acquire {mode : Mode} (hrun : site.run = none) : Next a site (.acquire mode) { site with run := some ⟨mode, .locked⟩ }
  | clean {mode : Mode} (hrun : site.run = some ⟨mode, .locked⟩) :
      Next a site .clean { site with root := site.root.cleanup, run := some ⟨mode, .cleaned⟩ }
  | schedule {mode : Mode} {functionsHashed : Case → Nat} (hrun : site.run = some ⟨mode, .cleaned⟩)
      (hhashed : ∀ row ∈ pendingCases a site.root.directory mode functionsHashed, 0 < row.2) :
      Next a site (.schedule functionsHashed)
        { site with
          run := some ⟨mode, .starting ((scheduledCaseChunks a site.root.directory mode functionsHashed).map Chunk.cases)⟩ }
  | spawn {mode : Mode} {pid : Nat} {chunk : List Case} {chunks : List (List Case)}
      (hrun : site.run = some ⟨mode, .starting (chunk :: chunks)⟩) (hpid : ∀ w ∈ site.live, w.pid ≠ pid) :
      Next a site (.spawn pid)
        { site with run := some ⟨mode, .starting chunks⟩, workers := site.workers ++ [⟨pid, mode, chunk, .starting⟩] }
  | worker {w : Worker} {w' : Option Worker} {act : WorkerAct} {root : Root} {xs ys : List Worker}
      (hworkers : site.workers = xs ++ w :: ys) (hstep : WorkerStep a site.root w act root w') :
      Next a site (.worker w act) { site with root, workers := xs ++ w'.toList ++ ys }
  | orphan {w : Worker} {w' : Option Worker} {act : WorkerAct} {root : Root} {xs ys : List Worker}
      (horphans : site.orphans = xs ++ w :: ys) (hstep : WorkerStep a site.root w act root w') :
      Next a site (.orphan w act) { site with root, orphans := xs ++ w'.toList ++ ys }
  | retain {mode : Mode} (hrun : site.run = some ⟨mode, .starting []⟩) (hworkers : site.workers = []) :
      Next a site .retain { site with root := site.root.cleanup, run := some ⟨mode, .retained⟩ }
  | release {mode : Mode} (hrun : site.run = some ⟨mode, .retained⟩) : Next a site .release { site with run := none }
  | stop {run : CampaignRun} (hrun : site.run = some run) :
      Next a site .stop { site with run := none, workers := [], orphans := site.orphans ++ site.workers }

/-- A campaign root that no process works in. -/
def idle (root : Root) : Site := ⟨root, none, [], []⟩

end System

end FidbPoc.Campaigns.Sessions
