import FidbPoc.Coordinator.Records
import FidbPoc.Lib.Checked
import Mathlib.Data.List.Sort

namespace FidbPoc.Coordinator

open FidbPoc.Lib.Checked

/-- `str.isspace` on one character. -/
def isSpace (c : Char) : Bool :=
  let n := c.toNat
  (0x09 ≤ n && n ≤ 0x0d) || (0x1c ≤ n && n ≤ 0x20) || n == 0x85 || n == 0xa0 || n == 0x1680 ||
    (0x2000 ≤ n && n ≤ 0x200a) || n == 0x2028 || n == 0x2029 || n == 0x202f || n == 0x205f || n == 0x3000

/-- Non-empty and equal to its own `strip()`. -/
def Trimmed (chars : List Char) : Bool :=
  chars.head?.any (fun c => !isSpace c) && chars.getLast?.any (fun c => !isSpace c)

def text (value context : String) : Result String := do
  require (Trimmed value.toList = true)
    (.value s!"{context} must be a non-empty string without outer whitespace")
  pure value

def isIdentifierStart (c : Char) : Bool := c.isAlphanum

def isIdentifierRest (c : Char) : Bool := c.isAlphanum || c == '.' || c == '_' || c == '-'

def identifier (value context : String) : Result String := do
  let result ← text value context
  require (result.toList.head?.any isIdentifierStart && result.toList.all isIdentifierRest)
    (.value s!"{context} must contain only letters, digits, '.', '_' or '-'")
  pure result

theorem text_eq_ok {value context result : String} (h : text value context = .ok result) : result = value := by
  simp only [text, bind_eq_ok, require_eq_ok, pure_eq_ok] at h
  obtain ⟨_, _, rfl⟩ := h
  rfl

theorem text_trimmed {value context result : String} (h : text value context = .ok result) :
    Trimmed result.toList = true := by
  obtain rfl := text_eq_ok h
  simp only [text, bind_eq_ok, require_eq_ok] at h
  exact h.choose_spec.1

theorem identifier_eq_ok {value context result : String} (h : identifier value context = .ok result) :
    result = value := by
  simp only [identifier, bind_eq_ok, require_eq_ok, pure_eq_ok] at h
  obtain ⟨text', ht, _, _, rfl⟩ := h
  exact text_eq_ok ht

def positiveInteger (value : Int) (context : String) : Result Nat := do
  require (1 ≤ value) (.value s!"{context} must be a positive integer")
  pure value.toNat

section Raises

variable {p : Error → Prop} (hvalue : ∀ message, p (.value message))

include hvalue

theorem text_raises (value context : String) : RaisesOnly p (text value context) :=
  .bind (.require fun _ => hvalue _) fun _ _ => .ok _

theorem identifier_raises (value context : String) : RaisesOnly p (identifier value context) :=
  .bind (text_raises hvalue _ _) fun _ _ => .bind (.require fun _ => hvalue _) fun _ _ => .ok _

theorem positiveInteger_raises (value : Int) (context : String) : RaisesOnly p (positiveInteger value context) :=
  .bind (.require fun _ => hvalue _) fun _ _ => .ok _

end Raises

structure BatchConfig where
  id : String
  name : String
  planPath : String
  matrices : Option (List String)
  queueDigest : Option String
  executions : Option Nat
  deriving DecidableEq

/-- A configuration `QueueConfig.load` accepted; performance profile and
operations policy are their canonical documents. -/
structure QueueConfig where
  name : String
  armed : Bool
  maxWorkers : Nat
  performanceProfile : Option String
  pollSeconds : Nat
  leaseSeconds : Nat
  maxAttempts : Nat
  retryBackoffSeconds : Nat
  retryBackoffMaxSeconds : Nat
  authorityFailureThreshold : Nat
  operations : String
  batches : List BatchConfig
  sourcePath : String
  maxWorkers_pos : 0 < maxWorkers
  pollSeconds_pos : 0 < pollSeconds
  leaseSeconds_pos : 0 < leaseSeconds
  maxAttempts_pos : 0 < maxAttempts
  backoff_le : retryBackoffSeconds ≤ retryBackoffMaxSeconds
  batches_ne_nil : batches ≠ []
  batches_nodup : (batches.map (·.id)).Nodup

/-- `repr` of a list of identifiers. -/
def pythonList (values : List String) : String :=
  "[" ++ ", ".intercalate (values.map (fun v => "'" ++ v ++ "'")) ++ "]"

def hexDigit (n : Nat) : Char := if n < 10 then Char.ofNat (48 + n) else Char.ofNat (87 + n)

def hex4 (n : Nat) : List Char :=
  [hexDigit (n / 4096 % 16), hexDigit (n / 256 % 16), hexDigit (n / 16 % 16), hexDigit (n % 16)]

/-- One character of a JSON string under `ensure_ascii`. -/
def jsonEscape (c : Char) : List Char :=
  if c = '"' then ['\\', '"'] else if c = '\\' then ['\\', '\\']
  else if c = '\n' then ['\\', 'n'] else if c = '\r' then ['\\', 'r'] else if c = '\t' then ['\\', 't']
  else if c.toNat = 8 then ['\\', 'b'] else if c.toNat = 12 then ['\\', 'f']
  else if 32 ≤ c.toNat ∧ c.toNat ≤ 126 then [c]
  else if c.toNat < 0x10000 then '\\' :: 'u' :: hex4 c.toNat
  else '\\' :: 'u' :: hex4 (0xd800 + (c.toNat - 0x10000) / 1024) ++
    '\\' :: 'u' :: hex4 (0xdc00 + (c.toNat - 0x10000) % 1024)

def jsonString (s : String) : String :=
  String.ofList ('"' :: s.toList.flatMap jsonEscape ++ ['"'])

def jsonArray (items : List String) : String := "[" ++ ",".intercalate items ++ "]"

def jsonObject (members : List (String × String)) : String :=
  "\x7b" ++ ",".intercalate (members.map (fun m => jsonString m.1 ++ ":" ++ m.2)) ++ "\x7d"

def jobSchema : String := "fidb-job/v1"

def resolvedSchema : String := "fidb-resolved-plan/v1"

def RowState.text : RowState → String
  | .planned => "planned"
  | .blocked => "blocked"

section Digests

variable (sha256 : String → String)

/-- The content-derived execution identity, over an arbitrary digest. -/
def stableJobId (batchId planDigest baseCell : String) (factorVariants : List String) : String :=
  "job-" ++ sha256 (jsonObject
    [("base_cell", jsonString baseCell), ("batch_id", jsonString batchId),
      ("factor_variants", jsonArray (factorVariants.map jsonString)),
      ("plan_digest", jsonString planDigest), ("schema_version", jsonString jobSchema)])

def queueIdentityDigest (rows : List QueueRow) : String :=
  sha256 (jsonArray (rows.map (fun row => jsonObject
    [("base_cell", jsonString row.baseCell),
      ("factor_variants", jsonArray (row.factorVariants.map jsonString)),
      ("position", toString row.position), ("state", jsonString row.state.text)])))

/-- The digest an operator transition reports for the jobs it moved. -/
def jobIdsSha256 (jobs : List Job) : String :=
  sha256 (String.join (jobs.map (fun job => job.jobId ++ "\n")))

/-- One batch of a configuration with the plan it resolved to. -/
structure ResolvedBatch where
  batch : BatchConfig
  plan : ResolvedPlan
  cells : List Cell
  rows : List QueueRow

def selectedMatrices (batch : BatchConfig) (plan : ResolvedPlan) : Result (List String) :=
  match batch.matrices with
  | none => pure plan.matrices
  | some matrices => do
    let missing := matrices.filter (fun m => decide (m ∉ plan.matrices))
    let names := pythonList (missing.insertionSort (fun a b => a ≤ b))
    require (missing = []) (.value s!"batch {batch.id} selects unknown matrices: {names}")
    pure matrices

def checkExecutions (batch : BatchConfig) (rows : List QueueRow) : Result Unit :=
  match batch.executions with
  | none => pure ()
  | some n => require (rows.length = n)
      (.value s!"batch {batch.id} resolved {rows.length} queue rows; expected {n}")

def checkQueueDigest (batch : BatchConfig) (rows : List QueueRow) : Result Unit :=
  match batch.queueDigest with
  | none => pure ()
  | some expected =>
    let actual := queueIdentityDigest sha256 rows
    require (actual = expected)
      (.value s!"batch {batch.id} queue_digest mismatch: expected {expected}, got {actual}")

def resolveBatch (batch : BatchConfig) (plan : ResolvedPlan) : Result ResolvedBatch := do
  require (plan.schemaVersion = resolvedSchema)
    (.value s!"batch {batch.id} did not resolve a supported plan")
  let matrices ← selectedMatrices batch plan
  let cells := plan.cells.filter (fun cell => decide (cell.matrix ∈ matrices))
  let rows := plan.queuePreview.filter (fun row => decide (row.baseCell ∈ cells.map (·.id)))
  require (cells.map (·.id)).Nodup (.value s!"batch {batch.id} resolved duplicate cell ids")
  checkExecutions batch rows
  checkQueueDigest sha256 batch rows
  pure ⟨batch, plan, cells, rows⟩

/-- Resolution of a whole queue, before the ledger is touched; `resolvePlan` is
what the plan authorities answer at that moment. -/
def resolveQueue (config : QueueConfig) (resolvePlan : BatchConfig → Result ResolvedPlan) :
    Result (List ResolvedBatch) :=
  config.batches.mapM (fun batch => do resolveBatch sha256 batch (← resolvePlan batch))

end Digests

end FidbPoc.Coordinator
