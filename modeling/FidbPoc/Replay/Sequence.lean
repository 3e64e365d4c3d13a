import FidbPoc.Lib.Run
import FidbPoc.Replay.Oracle

namespace FidbPoc.Replay

open FidbPoc.Lib FidbPoc.Lib.Checked FidbPoc.Matching

inductive State
  | qualified
  | mismatch
  deriving DecidableEq

/-- What a replay is checked against of the case of a summary. -/
structure Case where
  runId : String
  position : Int
  fold : String
  routeId : String
  treatmentId : String
  querySha256 : String
  fidbSha256 : List String
  linkHarnessPolicy : String
  deriving DecidableEq

structure OracleReceipt where
  implementation : String
  source : String
  functions : Nat
  functionsWithCandidates : Nat
  acceptedFunctions : Nat
  inputPath : String
  inputSha256 : String

structure Summary (κ : Type) where
  state : State
  case : Case
  oracle : OracleReceipt
  comparisons : List (Comparison κ)

/-- A file: not there, no JSON document, or its document. -/
inductive Stored (α : Type)
  | missing
  | unreadable
  | document (value : α)

structure Directory (κ : Type) where
  oracleInput : Stored (OracleDocument κ)
  summary : Stored (Summary κ)
  outputs : Dict String (Execution κ)

/-- The source evidence of a replay, the semantics of the authority, and the hash of a written document. -/
structure Request (κ : Type) where
  case : Case
  implementation : String
  languageId : String
  compilerSpecId : String
  scoreThreshold : κ
  mediumCodeUnitLimit : Int
  inputPath : String
  truth : TruthSource
  float32 : κ → κ
  sha256 : OracleDocument κ → String

section Loading

variable {κ : Type} [DecidableEq κ] (request : Request κ)

def Matches (previous : Summary κ) (oracle : OracleDocument κ) : Prop :=
  previous.state = .qualified ∧ previous.case = request.case ∧ previous.oracle.implementation = request.implementation ∧
    previous.oracle.inputPath = request.inputPath ∧ previous.oracle.inputSha256 = request.sha256 oracle

instance (previous : Summary κ) (oracle : OracleDocument κ) : Decidable (Matches request previous oracle) :=
  inferInstanceAs (Decidable (_ ∧ _))

def Compatible (oracle : OracleDocument κ) : Prop :=
  oracle.schemaVersion = "fidb-portable-fid-input/v1" ∧ oracle.oracle = request.implementation ∧
    oracle.languageId = request.languageId ∧ oracle.compilerSpecId = request.compilerSpecId ∧
    request.float32 oracle.scoreThreshold = request.float32 request.scoreThreshold ∧
    oracle.mediumCodeUnitLimit = request.mediumCodeUnitLimit

instance (oracle : OracleDocument κ) : Decidable (Compatible request oracle) :=
  inferInstanceAs (Decidable (_ ∧ _))

def loadRetainedOracleReplay (directory : Directory κ) : Result (OracleDocument κ) :=
  match directory.summary, directory.oracleInput with
  | .missing, _ => .error (valueError "replay requested but retained native oracle is unavailable")
  | _, .missing => .error (valueError "replay requested but retained native oracle is unavailable")
  | .document previous, .document oracle => do
    require (Matches request previous oracle) (valueError "retained native oracle does not match current source evidence")
    require (Compatible request oracle) (valueError "retained native oracle uses incompatible matching semantics")
    pure oracle
  | _, _ => .error (valueError "retained native oracle evidence is unreadable")

/-- The summary of a finished case: the hash is that of the file as it lies there. -/
def summaryOf (source : String) (oracle stored : OracleDocument κ) (comparisons : List (Comparison κ)) : Summary κ where
  state := if comparisons.all (·.equivalent) then .qualified else .mismatch
  case := request.case
  oracle := {
    implementation := request.implementation
    source := source
    functions := oracle.functions.length
    functionsWithCandidates := oracle.functions.countP fun row => !row.candidates.isEmpty
    acceptedFunctions := oracle.functions.countP fun row => !row.nativeMatches.isEmpty
    inputPath := request.inputPath
    inputSha256 := request.sha256 stored }
  comparisons := comparisons

variable {request} {directory : Directory κ} {oracle : OracleDocument κ} {source : String}
  {comparisons : List (Comparison κ)}

theorem load_eq_ok : loadRetainedOracleReplay request directory = .ok oracle ↔
    directory.oracleInput = .document oracle ∧ Compatible request oracle ∧
      ∃ previous, directory.summary = .document previous ∧ Matches request previous oracle := by
  obtain ⟨stored, summary, outputs⟩ := directory
  cases summary with
  | missing => simp [loadRetainedOracleReplay]
  | unreadable => cases stored <;> simp [loadRetainedOracleReplay]
  | document previous =>
    cases stored with
    | missing => simp [loadRetainedOracleReplay]
    | unreadable => simp [loadRetainedOracleReplay]
    | document stored =>
      simp only [loadRetainedOracleReplay, bind_eq_ok, require_eq_ok, pure_eq_ok, Stored.document.injEq]
      constructor
      · rintro ⟨-, hmatches, -, hcompatible, rfl⟩
        exact ⟨rfl, hcompatible, previous, rfl, hmatches⟩
      · rintro ⟨rfl, hcompatible, _, rfl, hmatches⟩
        exact ⟨(), hmatches, (), hcompatible, rfl⟩

omit [DecidableEq κ] in
theorem summaryOf_qualified {stored : OracleDocument κ} :
    (summaryOf request source oracle stored comparisons).state = .qualified ↔ ∀ c ∈ comparisons, c.equivalent = true := by
  rw [← List.all_eq_true]
  by_cases h : comparisons.all (·.equivalent) = true
  · simp [summaryOf, h]
  · simp [summaryOf, h]

omit [DecidableEq κ] in
/-- The summary that a case leaves is one that the next replay accepts if, and only if, it says `qualified`. -/
theorem summaryOf_matches :
    Matches request (summaryOf request source oracle oracle comparisons) oracle ↔ ∀ c ∈ comparisons, c.equivalent = true := by
  rw [Matches, summaryOf_qualified]
  exact ⟨fun h => h.1, fun h => ⟨h, rfl, rfl, rfl, rfl⟩⟩

end Loading

inductive Phase (κ : Type)
  | idle
  | loaded (oracle : OracleDocument κ)
  | annotated (oracle : OracleDocument κ)
  | matched (oracle : OracleDocument κ) (policy : ComparisonPolicy κ) (executions unwritten : List (Execution κ))

structure System (κ : Type) where
  directory : Directory κ
  phase : Phase κ

inductive Op (κ : Type)
  | load
  | annotate
  | execute (policy : ComparisonPolicy κ) (executions : List (Execution κ))
  | output
  | finish
  | stop

section Replaying

variable {κ : Type} [DecidableEq κ] (request : Request κ)

/-- Replays in place, one write a step: whatever the backends return, and stopped anywhere by an exception or a kill. -/
inductive Next : System κ → Op κ → System κ → Prop
  | load {directory : Directory κ} {oracle : OracleDocument κ} (h : loadRetainedOracleReplay request directory = .ok oracle) :
      Next ⟨directory, .idle⟩ .load ⟨directory, .loaded oracle⟩
  | refuse {directory : Directory κ} {e : Error} (h : loadRetainedOracleReplay request directory = .error e) :
      Next ⟨directory, .idle⟩ .load ⟨directory, .idle⟩
  | annotate {directory : Directory κ} {oracle annotated : OracleDocument κ}
      (h : annotateTruth request.truth oracle = .ok annotated) :
      Next ⟨directory, .loaded oracle⟩ .annotate
        ⟨{ directory with oracleInput := .document annotated }, .annotated annotated⟩
  | execute {directory : Directory κ} {oracle : OracleDocument κ} {policy : ComparisonPolicy κ}
      {executions : List (Execution κ)} (himplementation : policy.implementation = request.implementation)
      (hexecutions : executions ≠ []) :
      Next ⟨directory, .annotated oracle⟩ (.execute policy executions)
        ⟨directory, .matched oracle policy executions executions⟩
  | output {directory : Directory κ} {oracle : OracleDocument κ} {policy : ComparisonPolicy κ}
      {executions rest : List (Execution κ)} {execution : Execution κ} :
      Next ⟨directory, .matched oracle policy executions (execution :: rest)⟩ .output
        ⟨{ directory with
            outputs := directory.outputs.set (policy.device execution.backend ++ "-output.json") execution },
          .matched oracle policy executions rest⟩
  | finish {directory : Directory κ} {oracle stored : OracleDocument κ} {policy : ComparisonPolicy κ}
      {executions : List (Execution κ)} {comparisons : List (Comparison κ)}
      (h : executions.mapM (compareWithOracle policy oracle) = .ok comparisons)
      (hstored : directory.oracleInput = .document stored) :
      Next ⟨directory, .matched oracle policy executions []⟩ .finish
        ⟨{ directory with summary := .document (summaryOf request "retained-replay" oracle stored comparisons) }, .idle⟩
  | stop {directory : Directory κ} {phase : Phase κ} : Next ⟨directory, phase⟩ .stop ⟨directory, .idle⟩

/-- What a qualified native export leaves: its annotated oracle, which the loader accepts. -/
def Retained (native : OracleDocument κ) (directory : Directory κ) : Prop :=
  ∃ oracle, annotateTruth request.truth native = .ok oracle ∧ loadRetainedOracleReplay request directory = .ok oracle

/-- The loader accepts the directory, and its functions are those of the native export but for their truth. -/
def Accepts (native : OracleDocument κ) (directory : Directory κ) : Prop :=
  ∃ oracle, loadRetainedOracleReplay request directory = .ok oracle ∧
    oracle.functions.map OracleFunction.untold = native.functions.map OracleFunction.untold

/-- Every backend of the replay decides as the native matcher did. -/
def Agreeing : Phase κ → Prop
  | .matched oracle policy executions _ => ∀ execution ∈ executions, Agree policy oracle execution
  | _ => True

def Phase.HasOracle (oracle : OracleDocument κ) : Phase κ → Prop
  | .idle => True
  | .loaded o => o = oracle
  | .annotated o => o = oracle
  | .matched o _ _ _ => o = oracle

structure Standing (oracle : OracleDocument κ) (s : System κ) : Prop where
  accepted : loadRetainedOracleReplay request s.directory = .ok oracle
  settled : annotateTruth request.truth oracle = .ok oracle
  phase : s.phase.HasOracle oracle

end Replaying

section Runs

variable {κ : Type} [DecidableEq κ] {request : Request κ} {native oracle : OracleDocument κ} {start : Directory κ}
  {s t : System κ} {op : Op κ} {trace : List (Step (System κ) (Op κ))}

omit [DecidableEq κ] in
theorem comparisons_equivalent_iff {policy : ComparisonPolicy κ} {executions : List (Execution κ)}
    {comparisons : List (Comparison κ)} (h : executions.mapM (compareWithOracle policy oracle) = .ok comparisons) :
    (∀ c ∈ comparisons, c.equivalent = true) ↔ ∀ execution ∈ executions, Agree policy oracle execution := by
  have hpairs := mapM_eq_ok h
  clear h
  induction hpairs with
  | nil => simp
  | cons hcompared _ ih =>
    rw [List.forall_mem_cons, List.forall_mem_cons]
    exact and_congr (compareWithOracle_equivalent hcompared) ih

/-- A qualified native run leaves a directory that a replay accepts. -/
theorem Retained.of_native {policy : ComparisonPolicy κ} {executions : List (Execution κ)}
    {comparisons : List (Comparison κ)} {outputs : Dict String (Execution κ)}
    (hannotated : annotateTruth request.truth native = .ok oracle) (hcompatible : Compatible request native)
    (hcompared : executions.mapM (compareWithOracle policy oracle) = .ok comparisons)
    (hagree : ∀ execution ∈ executions, Agree policy oracle execution) :
    Retained request native
      ⟨.document oracle, .document (summaryOf request "native-execution" oracle oracle comparisons), outputs⟩ := by
  refine ⟨oracle, hannotated, load_eq_ok.mpr ⟨rfl, ?_, _, rfl, ?_⟩⟩
  · simp only [annotateTruth, bind_eq_ok, pure_eq_ok] at hannotated
    obtain ⟨bias, -, rfl⟩ := hannotated
    exact hcompatible
  · exact summaryOf_matches.mpr ((comparisons_equivalent_iff hcompared).mpr hagree)

theorem Standing.next (h : Standing request oracle s) (hnext : Next request s op t)
    (hagreeing : op = .finish → Agreeing s.phase) : Standing request oracle t := by
  obtain ⟨haccepted, hsettled, hphase⟩ := h
  cases hnext with
  | load hload =>
    rw [haccepted] at hload
    exact ⟨haccepted, hsettled, (Except.ok.inj hload).symm⟩
  | refuse hload => exact ⟨haccepted, hsettled, trivial⟩
  | annotate hannotated =>
    cases hphase
    rw [hsettled] at hannotated
    cases hannotated
    -- The file is written again with the document that it holds.
    obtain ⟨-, hcompatible, previous, hprevious, hmatches⟩ := load_eq_ok.mp haccepted
    exact ⟨load_eq_ok.mpr ⟨rfl, hcompatible, previous, hprevious, hmatches⟩, hsettled, rfl⟩
  | execute _ _ => exact ⟨haccepted, hsettled, hphase⟩
  | output => exact ⟨load_eq_ok.mpr (load_eq_ok.mp haccepted), hsettled, hphase⟩
  | finish hcompared hstored =>
    cases hphase
    obtain ⟨horacle, hcompatible, -⟩ := load_eq_ok.mp haccepted
    cases hstored.symm.trans horacle
    have hequivalent := (comparisons_equivalent_iff hcompared).mpr (hagreeing rfl)
    exact ⟨load_eq_ok.mpr ⟨horacle, hcompatible, _, rfl, summaryOf_matches.mpr hequivalent⟩, hsettled, trivial⟩
  | stop => exact ⟨haccepted, hsettled, trivial⟩

/-- A replay that finishes with a difference leaves a summary that no replay accepts. -/
theorem agreeing_of_accepts (hnext : Next request s .finish t) (h : Accepts request native t.directory) :
    Agreeing s.phase := by
  cases hnext with
  | finish hcompared hstored =>
    obtain ⟨oracle, hload, -⟩ := h
    obtain ⟨-, -, previous, hprevious, hstate, -⟩ := load_eq_ok.mp hload
    cases hprevious
    exact (comparisons_equivalent_iff hcompared).mp (summaryOf_qualified.mp hstate)

/-- Replays in place keep the retained oracle exactly as long as none of them finishes with a difference. -/
theorem replays_keep_oracle_iff (hretained : Retained request native start)
    (hrun : Run (Next request) ⟨start, .idle⟩ trace s) :
    (∀ st ∈ trace, Accepts request native st.after.directory) ↔
      ∀ st ∈ trace, st.op = .finish → Agreeing st.before.phase := by
  obtain ⟨oracle, hannotated, hload⟩ := hretained
  have hstart : Standing request oracle ⟨start, .idle⟩ := ⟨hload, annotateTruth_annotated hannotated, trivial⟩
  constructor
  · intro haccepts st hst hop
    obtain ⟨_, _, _, hnext, _⟩ := hrun.split hst
    exact agreeing_of_accepts (hop ▸ hnext) (haccepts st hst)
  · intro hagreeing st hst
    have hbefore := hrun.invariant_before hstart fun st hst hnext h => h.next hnext (hagreeing st hst)
    obtain ⟨hnext, hstanding⟩ := hbefore st hst
    have hafter := hstanding.next hnext (hagreeing st hst)
    exact ⟨oracle, hafter.accepted, annotateTruth_untold hannotated⟩

end Runs

namespace TwoReplays

def truth : TruthSource where
  owners := ["zlib"]
  nameOwners := fun _ => ["zlib"]
  intervals := []
  symbols := fun _ => [0]
  truthMapPath := "fold-A/truth-map.json"
  linkMapPath := none
  parseAddress := fun _ => some 4096

def request : Request Nat where
  case := ⟨"run", 1, "A", "route", "O2", "query", ["fidb"], "policy"⟩
  implementation := "ghidra-fid-program-seeker"
  languageId := "x86:LE:64:default"
  compilerSpecId := "gcc"
  scoreThreshold := 14
  mediumCodeUnitLimit := 24
  inputPath := "evidence/oracle-input.json"
  truth := truth
  float32 := id
  sha256 := fun document => document.languageId

def candidate : Candidate := ⟨"c", "zlib", "inflate", "full", "specific", 0, 20, 0, 0, false, false, false, false⟩

def inflate : OracleFunction Nat where
  address := "1000"
  fullHash := "full"
  specificHash := "specific"
  candidates := [candidate]
  functionName := "inflate"
  nativeMatches := [⟨⟨"c", "zlib", "inflate", 20⟩, 20, 0, 0, "full"⟩]
  truth := none

def native : OracleDocument Nat :=
  ⟨matchInputSchema, "ghidra-fid-program-seeker", "x86:LE:64:default", "gcc", 14, 24, [inflate], none⟩

def bias : AddressBias := ⟨4096, 1, 1⟩

def oracle : OracleDocument Nat :=
  { native with
    functions := [{ inflate with truth := some (functionTruth truth bias inflate) }]
    truth := some ⟨["zlib"], "fold-A/truth-map.json", none, 0, bias⟩ }

def policy : ComparisonPolicy Nat := ⟨"ghidra-fid-program-seeker", fun _ => "cpu", 1, 100, fun x y => (x - y) + (y - x)⟩

/-- A backend with this score for the one candidate. -/
def execution (score : Nat) : Execution Nat :=
  ⟨"cpu-portable-fid-v1", [⟨⟨"1000", "full", "specific"⟩, [⟨"c", "zlib", "inflate", score⟩]⟩]⟩

theorem native_annotated : annotateTruth truth native = .ok oracle := by
  have hbias : symbolAddressBias truth native.functions = .ok bias := by decide
  rw [annotateTruth, hbias, ok_bind]
  rfl

def oneScore (score : Nat) : Dict String (Scores Nat) := .ofList [("1000", .ofList [("c", score)])]

theorem scoreAt_oneScore (score : Nat) (address candidateId : String) : scoreAt (oneScore score) address candidateId =
    if address = "1000" ∧ candidateId = "c" then some score else none := by
  have hone : oneScore score = Dict.empty.set "1000" (Dict.empty.set "c" score) := rfl
  by_cases haddress : address = "1000"
  · by_cases hcandidate : candidateId = "c"
    · simp [scoreAt, hone, haddress, hcandidate]
    · simp [scoreAt, hone, Dict.get?_set, haddress, hcandidate]
  · simp [scoreAt, hone, Dict.get?_set, haddress]

theorem agree_iff (score : Nat) : Agree policy oracle (execution score) ↔ policy.ulps 20 score ≤ 1 := by
  have hnative : nativeScores oracle = oneScore 20 := rfl
  have hobserved : observedScores (execution score) = oneScore score := rfl
  simp only [Agree, hnative, hobserved, scoreAt_oneScore]
  constructor
  · intro h
    have hrel := h "1000" "c"
    rw [if_pos ⟨rfl, rfl⟩, if_pos ⟨rfl, rfl⟩] at hrel
    cases hrel with
    | some hle => exact hle
  · intro hle address candidateId
    by_cases hc : address = "1000" ∧ candidateId = "c"
    · rw [if_pos hc, if_pos hc]
      exact .some hle
    · rw [if_neg hc, if_neg hc]
      exact .none

theorem oracle_valid : validateInput oracle.input = .ok () := by decide

def retained (source : String) (comparison : Comparison Nat) (outputs : Dict String (Execution Nat)) : Directory Nat :=
  ⟨.document oracle, .document (summaryOf request source oracle oracle [comparison]), outputs⟩

/-- A replay whose one backend gives this score: it loads, annotates, executes, writes the output and finishes. -/
def replay (summary : Summary Nat) (outputs : Dict String (Execution Nat)) (score : Nat) (comparison : Comparison Nat) :
    List (Step (System Nat) (Op Nat)) :=
  let start : Directory Nat := ⟨.document oracle, .document summary, outputs⟩
  let written : Directory Nat :=
    ⟨.document oracle, .document summary, outputs.set "cpu-output.json" (execution score)⟩
  [⟨⟨start, .idle⟩, .load, ⟨start, .loaded oracle⟩⟩,
    ⟨⟨start, .loaded oracle⟩, .annotate, ⟨start, .annotated oracle⟩⟩,
    ⟨⟨start, .annotated oracle⟩, .execute policy [execution score],
      ⟨start, .matched oracle policy [execution score] [execution score]⟩⟩,
    ⟨⟨start, .matched oracle policy [execution score] [execution score]⟩, .output,
      ⟨written, .matched oracle policy [execution score] []⟩⟩,
    ⟨⟨written, .matched oracle policy [execution score] []⟩, .finish,
      ⟨retained "retained-replay" comparison written.outputs, .idle⟩⟩]

theorem replay_runs {summary : Summary Nat} (outputs : Dict String (Execution Nat)) {score : Nat}
    {comparison : Comparison Nat} (hsummary : Matches request summary oracle)
    (hcompared : compareWithOracle policy oracle (execution score) = .ok comparison) :
    Run (Next request) ⟨⟨.document oracle, .document summary, outputs⟩, .idle⟩ (replay summary outputs score comparison)
      ⟨retained "retained-replay" comparison (outputs.set "cpu-output.json" (execution score)), .idle⟩ := by
  have hcompatible : Compatible request oracle := by decide
  have hload : loadRetainedOracleReplay request ⟨.document oracle, .document summary, outputs⟩ = .ok oracle :=
    load_eq_ok.mpr ⟨rfl, hcompatible, summary, rfl, hsummary⟩
  have hannotated : annotateTruth request.truth oracle = .ok oracle := annotateTruth_annotated native_annotated
  have hall : [execution score].mapM (compareWithOracle policy oracle) = .ok [comparison] := by
    rw [List.mapM_cons, hcompared]
    rfl
  refine Run.cons (.load hload) (Run.cons (.annotate hannotated) (Run.cons (.execute rfl (by simp)) ?_))
  exact Run.cons .output (Run.cons (.finish hall rfl) .nil)

theorem finished_agreeing {summary : Summary Nat} {outputs : Dict String (Execution Nat)} {score : Nat}
    {comparison : Comparison Nat} (hscore : policy.ulps 20 score ≤ 1) :
    ∀ st ∈ replay summary outputs score comparison, st.op = .finish → Agreeing st.before.phase := by
  simp only [replay, List.forall_mem_cons, reduceCtorEq, false_imp_iff, true_and]
  refine ⟨fun _ e he => ?_, by simp⟩
  rw [List.mem_singleton.mp he]
  exact (agree_iff score).mpr hscore

theorem compared (score : Nat) : ∃ comparison, compareWithOracle policy oracle (execution score) = .ok comparison :=
  compareWithOracle_isOk oracle_valid

theorem comparison_equivalent_iff {score : Nat} {comparison : Comparison Nat}
    (h : compareWithOracle policy oracle (execution score) = .ok comparison) :
    comparison.equivalent = true ↔ policy.ulps 20 score ≤ 1 :=
  (compareWithOracle_equivalent h).trans (agree_iff score)

theorem native_matches (source : String) {score : Nat} {comparison : Comparison Nat}
    (h : compareWithOracle policy oracle (execution score) = .ok comparison) (hscore : policy.ulps 20 score ≤ 1) :
    Matches request (summaryOf request source oracle oracle [comparison]) oracle := by
  rw [summaryOf_matches, List.forall_mem_singleton]
  exact (comparison_equivalent_iff h).mpr hscore

theorem native_retained {comparison : Comparison Nat}
    (h : compareWithOracle policy oracle (execution 20) = .ok comparison) :
    Retained request native (retained "native-execution" comparison .empty) := by
  have hcompatible : Compatible request oracle := by decide
  exact ⟨oracle, native_annotated, load_eq_ok.mpr ⟨rfl, hcompatible, _, rfl, native_matches _ h (by decide)⟩⟩

/-- Two replays, the second with a score that is one unit in the last place away from the native one. -/
theorem two_replays_accepted : ∃ start trace s, Retained request native start ∧ Run (Next request) ⟨start, .idle⟩ trace s ∧
    trace.length = 10 ∧ ∀ st ∈ trace, Accepts request native st.after.directory := by
  obtain ⟨equal, hequal⟩ := compared 20
  obtain ⟨close, hclose⟩ := compared 21
  have hnative := native_retained hequal
  have hfirst := replay_runs .empty (native_matches "native-execution" hequal (by decide)) hequal
  have hsecond := replay_runs (Dict.empty.set "cpu-output.json" (execution 20))
    (native_matches "retained-replay" hequal (by decide)) hclose
  have hrun := hfirst.append hsecond
  refine ⟨_, _, _, hnative, hrun, rfl, (replays_keep_oracle_iff hnative hrun).mpr fun st hst => ?_⟩
  obtain hst | hst := List.mem_append.mp hst
  · exact finished_agreeing (by decide) st hst
  · exact finished_agreeing (by decide) st hst

/-- A replay with another score says `mismatch`, and the oracle that it was replayed from is not accepted any more. -/
theorem mismatch_refused : ¬ ∀ (request : Request Nat) (native : OracleDocument Nat) (start : Directory Nat)
    (trace : List (Step (System Nat) (Op Nat))) (s : System Nat), Retained request native start →
      Run (Next request) ⟨start, .idle⟩ trace s → ∀ st ∈ trace, Accepts request native st.after.directory := by
  intro hall
  obtain ⟨equal, hequal⟩ := compared 20
  obtain ⟨other, hother⟩ := compared 30
  have hrun := replay_runs .empty (native_matches "native-execution" hequal (by decide)) hother
  have haccepts := hall request native _ _ _ (native_retained hequal) hrun
  have hfinished : (replay (summaryOf request "native-execution" oracle oracle [equal]) .empty 30 other).getLast (by
      simp [replay]) ∈ replay (summaryOf request "native-execution" oracle oracle [equal]) .empty 30 other :=
    List.getLast_mem _
  obtain ⟨accepted, hload, -⟩ := haccepts _ hfinished
  obtain ⟨-, -, previous, hprevious, hstate, -⟩ := load_eq_ok.mp hload
  cases hprevious
  have hequivalent := summaryOf_qualified.mp hstate other List.mem_cons_self
  exact absurd ((comparison_equivalent_iff hother).mp hequivalent) (by decide)

end TwoReplays

end FidbPoc.Replay
