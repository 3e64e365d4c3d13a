import FidbPoc.Retention.Validation

namespace FidbPoc.Retention

open FidbPoc.Lib FidbPoc.Lib.Checked

/-- What a caller asks a plan for. -/
structure Request where
  scope : Scope
  trigger : String
  sessionId : Option String
  batchId : Option String

/-- The state that a plan is compiled from: the policy as written, the coordinator's
database and the file tree. -/
structure World where
  projectRoot : Path
  document : PolicyDocument
  holds : List RetentionHold
  ledger : Ledger
  files : Files

structure Plan where
  basis : PlanBasis
  digest : Sha256

namespace Plan

def actions (plan : Plan) : List Action := plan.basis.collected.actions

def preserved (plan : Plan) : List Note := plan.basis.collected.preserved

def quarantined (plan : Plan) : List Note := plan.basis.collected.quarantined

end Plan

/-- The paths of a policy as its document records them. -/
def RetentionPolicy.recorded (policy : RetentionPolicy) : PolicyPaths Path :=
  { runs := policy.runs.drop policy.root.length
    validationRuns := policy.validationRuns.drop policy.root.length
    failureBundles := policy.failureBundles.drop policy.root.length
    plans := policy.plans.drop policy.root.length
    state := policy.state.drop policy.root.length
    memoryAudits := policy.memoryAudits.drop policy.root.length
    laneImportReceipts := policy.laneImportReceipts.drop policy.root.length
    holds := policy.holds.drop policy.root.length }

def checkRequest (request : Request) : Result Unit := do
  require (request.trigger ∈ ["manual", "queue-drained", "machine-validation-complete"])
    (.value "retention trigger is unsupported")
  match request.batchId with
  | none => pure ()
  | some batchId =>
    let _ ← text batchId "retention batch id"
    require (request.scope = .production) (.value "batch-scoped retention requires production scope")

/-- The jobs that a plan looks at, in the order of their ids. -/
def selectedJobs (ledger : Ledger) (request : Request) : List Job :=
  if request.scope.production? then jobRows ledger request.batchId else []

/-- The part of a plan that is about staging directories of failed attempts. -/
def collectFailures (w : World) (hashing : Hashing) (policy : RetentionPolicy) (request : Request) : Result Collected := do
  let failed ← (selectedJobs w.ledger request).mapM (failedJob w.files hashing policy w.ledger w.holds)
  let known := failed.flatMap (·.known)
  let unknown ←
    if request.scope.production? ∧ request.batchId = none ∧ w.files.isDirectory (stagingRoot policy) then
      (w.files.listing (stagingRoot policy)).mapM (unknownStaging w.files policy known)
    else pure []
  pure ((Collected.concat (failed.map (·.collected))).append (.concat unknown))

def collectSuccesses (w : World) (policy : RetentionPolicy) (request : Request) : Result Collected := do
  require (request.batchId = none ∨ selectedJobs w.ledger request ≠ [])
    (.retention "retention batch is absent from the ledger")
  let completed ← (selectedJobs w.ledger request).mapM (completedJob w.files policy w.holds)
  pure (.concat completed)

def collectValidation (w : World) (hashing : Hashing) (policy : RetentionPolicy) (request : Request) : Result Collected :=
  if request.scope.validation? then validationRetentionRecords w.files hashing policy else pure {}

def compileRetentionPlan (w : World) (hashing : Hashing) (request : Request) : Result Plan := do
  checkRequest request
  let policy ← loadRetentionPolicy w.files w.projectRoot w.document
  let successes ← collectSuccesses w policy request
  let failures ← collectFailures w hashing policy request
  let validation ← collectValidation w hashing policy request
  let collected := successes.append (failures.append validation)
  require ((collected.actions.length : Int) ≤ policy.maximumActions)
    (.retention s!"retention plan exceeds maximum_actions={policy.maximumActions}")
  let basis : PlanBasis :=
    { settings := policy.toPolicySettings
      paths := policy.recorded
      ledger := ledgerFingerprint w.ledger
      scope := request.scope
      trigger := request.trigger
      sessionId := if request.sessionId.getD "" = "" then latestSession w.ledger else request.sessionId.getD ""
      batchId := request.batchId
      collected }
  pure ⟨basis, hashing.plan basis⟩

/-- What compiling a plan has gone through. -/
structure Compiled (w : World) (hashing : Hashing) (request : Request) (plan : Plan) (policy : RetentionPolicy)
    (successes failures validation : Collected) : Prop where
  loaded : loadRetentionPolicy w.files w.projectRoot w.document = .ok policy
  completed : collectSuccesses w policy request = .ok successes
  failed : collectFailures w hashing policy request = .ok failures
  validated : collectValidation w hashing policy request = .ok validation
  collected : plan.basis.collected = successes.append (failures.append validation)

theorem compileRetentionPlan_eq_ok {w : World} {hashing : Hashing} {request : Request} {plan : Plan}
    (h : compileRetentionPlan w hashing request = .ok plan) :
    ∃ policy successes failures validation, Compiled w hashing request plan policy successes failures validation := by
  unfold compileRetentionPlan at h
  simp only [bind_eq_ok, pure_eq_ok] at h
  obtain ⟨-, -, policy, hpolicy, successes, hsuccesses, failures, hfailures, validation, hvalidation, -, -, rfl⟩ := h
  exact ⟨policy, successes, failures, validation, hpolicy, hsuccesses, hfailures, hvalidation, rfl⟩

end FidbPoc.Retention
