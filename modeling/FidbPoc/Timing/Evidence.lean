import FidbPoc.Timing.Gate
import Mathlib.Algebra.Order.Ring.Rat
import Mathlib.Data.Nat.Cast.Order.Ring

namespace FidbPoc.Timing

open FidbPoc.Lib FidbPoc.Lib.Checked FidbPoc.Lib.Tally
open FidbPoc.Coordinator (CellStage)

section Calls

variable {τ : Type} (datetime : Datetime τ)

/-- A call as a successful run makes it; the progress callback may still raise. -/
def Regular : Call τ → Prop
  | .span stage message _ _ _ body _ _ =>
    stage.stage? ≠ some .publication ∧ message ≠ "" ∧ ∃ metrics, body = .completed metrics ∧ Json.ProperValues metrics.entries
  | .skip stage message metrics _ _ =>
    stage.stage? ≠ some .publication ∧ message ≠ "" ∧ Json.ProperValues metrics.entries

/-- The span of the seal, which starts. -/
def Seals : Call τ → Prop
  | .span stage _ _ _ _ _ startRaises _ => stage.stage? = some .provenanceSeal ∧ startRaises = false
  | .skip .. => False

/-- What the gate asks of the event of a span. -/
structure Acceptable (event : ProgressEvent) : Prop where
  stage : event.stage ≠ .publication
  status : event.status = .completed ∨ event.status = .skipped ∧ event.durationNs = some 0 ∧
    event.finishedAt = some event.startedAt
  message : event.message ≠ ""
  startedAt : isUtc datetime event.startedAt = true
  finishedAt : ∃ text, event.finishedAt = some text ∧ isUtc datetime text = true
  duration : ∃ n, event.durationNs = some n ∧ n ≤ maxDurationNs
  metrics : Json.ProperValues event.metrics.entries

variable {datetime}

theorem isUtc_utcNow (now : τ) : isUtc datetime (datetime.utcNow now) = true := by
  have htext : (datetime.isoformat now ++ "Z").toList = (datetime.isoformat now).toList ++ ['Z'] := by simp
  rw [isUtc, Datetime.utcNow, htext, List.getLast?_concat, List.dropLast_concat, String.ofList_toList,
    datetime.utcoffset_isoformat]
  rfl

theorem properValues_set {metrics : Metrics} {key : String} {value : Json} (h : Json.ProperValues metrics.entries)
    (hvalue : value.Proper) : Json.ProperValues (metrics.set key value).entries := by
  rw [Json.properValues_iff] at h ⊢
  intro field hfield
  have hget := Dict.get?_eq_some_iff.mpr hfield
  rw [Dict.get?_set] at hget
  split at hget
  · cases hget
    exact hvalue
  · exact h field (Dict.get?_eq_some_iff.mp hget)

theorem properValues_merge {metrics : Metrics} {others : List (String × Json)} (h : Json.ProperValues metrics.entries)
    (hothers : ∀ field ∈ others, field.2.Proper) : Json.ProperValues (merge metrics others).entries := by
  induction others generalizing metrics with
  | nil => exact h
  | cons field rest ih =>
    obtain ⟨hfield, hrest⟩ := List.forall_mem_cons.mp hothers
    exact ih (properValues_set h hfield) hrest

theorem proper_optionalInt (value : Option Int) : (optionalInt value).Proper := by cases value <;> trivial

theorem proper_difference (start finish : Option Int) : (difference start finish).Proper := by
  cases start <;> cases finish <;> trivial

theorem proper_resourceMetrics (before after : Usage) (processCpuBefore processCpuAfter : Int) :
    ∀ field ∈ resourceMetrics before after processCpuBefore processCpuAfter, field.2.Proper := by
  simp only [resourceMetrics, List.forall_mem_cons, proper_optionalInt, proper_difference, true_and]
  exact ⟨trivial, fun _ h => absurd h List.not_mem_nil⟩

theorem event?_acceptable {call : Call τ} {event : ProgressEvent} (hregular : Regular call)
    (h : call.event? datetime = some event) : Acceptable datetime event := by
  cases call with
  | span argument message start finish nested body startRaises finishRaises =>
    obtain ⟨hstage, hmessage, metrics, rfl, hmetrics⟩ := hregular
    obtain ⟨stage, hargument, hevent⟩ := Option.bind_eq_some_iff.mp h
    cases startRaises with
    | true => cases hevent
    | false =>
      cases hevent
      have hduration : (finish.monotonicNs - start.monotonicNs : Nat) ≤ maxDurationNs :=
        (Nat.sub_le ..).trans (Nat.lt_succ_iff.mp finish.monotonicNs.isLt)
      exact ⟨fun hpublication => hstage (hpublication ▸ hargument), .inl rfl, hmessage, isUtc_utcNow _,
        ⟨_, rfl, isUtc_utcNow _⟩, ⟨_, rfl, hduration⟩, properValues_merge hmetrics (proper_resourceMetrics _ _ _ _)⟩
  | skip argument message metrics now raises =>
    obtain ⟨hstage, hmessage, hmetrics⟩ := hregular
    obtain ⟨stage, hargument, hevent⟩ := Option.bind_eq_some_iff.mp h
    cases hevent
    exact ⟨fun hpublication => hstage (hpublication ▸ hargument), .inr ⟨rfl, rfl, rfl⟩, hmessage, isUtc_utcNow _,
      ⟨_, rfl, isUtc_utcNow _⟩, ⟨0, rfl, Nat.zero_le _⟩, hmetrics⟩

end Calls

section Accepted

variable {τ : Type} {datetime : Datetime τ} {event : ProgressEvent} {events : List ProgressEvent}

theorem nonnegativeInteger_natCast {n : Nat} (h : n ≤ maxDurationNs) (label : String) :
    nonnegativeInteger (.int n) label = .ok n := by
  have hbounds : (0 : Int) ≤ n ∧ (n : Int) ≤ maxDurationNs := ⟨Int.natCast_nonneg n, Int.ofNat_le.mpr h⟩
  simp only [nonnegativeInteger, Json.int?, Option.bind_some, if_pos hbounds, Int.toNat_natCast, expect]

theorem utcTimingTimestamp_str {text : String} (h : isUtc datetime text = true) (label : String) :
    utcTimingTimestamp datetime (.str text) label = .ok text := by
  simp only [utcTimingTimestamp, Json.str?, Option.filter_some, h, if_true, expect]

theorem terminalStatus_str {status : ProgressStatus} (h : status ∈ terminalStatuses) (label : String) :
    terminalStatus (.str status.value) label = .ok status := by
  have hstatus : decide (status ∈ terminalStatuses) = true := decide_eq_true h
  simp only [terminalStatus, Json.hashable, require, if_true, Json.str?, Option.bind_some, status?_value,
    Option.filter_some, hstatus, expect, ok_bind]

/-- The loop takes from the span of an event what the recorder adds up for it. -/
theorem validateSpan_eventDocument (h : Acceptable datetime event) (index : Nat) : ∃ n, event.durationNs = some n ∧
    validateSpan datetime index (eventDocument event) = .ok (countItem event, (event.stage.value, (n : Int))) := by
  obtain ⟨n, hn, hmax⟩ := h.duration
  obtain ⟨text, htext, hutc⟩ := h.finishedAt
  have hterminal : event.status ∈ terminalStatuses := by
    obtain hstatus | ⟨hstatus, -⟩ := h.status <;> rw [hstatus] <;> decide
  have hfailed : event.status ≠ .failed := by
    obtain hstatus | ⟨hstatus, -⟩ := h.status <;> rw [hstatus] <;> decide
  have hskipped : event.status = .skipped → n = 0 ∧ event.startedAt = text := by
    intro hskipped
    obtain hstatus | ⟨-, hzero, hsame⟩ := h.status
    · rw [hskipped] at hstatus
      cases hstatus
    · exact ⟨Option.some.inj (hn.symm.trans hzero), (Option.some.inj (htext.symm.trans hsame)).symm⟩
  have hmessage : decide (event.message ≠ "") = true := decide_eq_true h.message
  have hduration : get (eventFields event) "duration_ns" = .int n := by
    change event.durationNs.elim Json.null (fun n : Nat => .int n) = _
    rw [hn]
    rfl
  have hfinished : get (eventFields event) "finished_at" = .str text := by
    change event.finishedAt.elim Json.null .str = _
    rw [htext]
    rfl
  have hstage : get (eventFields event) "stage" = .str event.stage.value := rfl
  have hstatus : get (eventFields event) "status" = .str event.status.value := rfl
  have hmessageField : get (eventFields event) "message" = .str event.message := rfl
  have hstarted : get (eventFields event) "started_at" = .str event.startedAt := rfl
  have hmetrics : get (eventFields event) "metrics" = .obj event.metrics.entries := rfl
  refine ⟨n, hn, ?_⟩
  rw [validateSpan, eventDocument]
  simp only [Json.fields?, expect, ok_bind, hstage, hstatus, hmessageField, hstarted, hfinished, hduration, hmetrics,
    Json.str?, Option.bind_some, stage?_value, terminalStatus_str hterminal, utcTimingTimestamp_str h.startedAt,
    utcTimingTimestamp_str hutc, nonnegativeInteger_natCast hmax, Option.filter_some, hmessage, if_true, require,
    if_pos h.stage, if_pos hfailed, if_pos fun hs => (hskipped hs).1, if_pos fun hs => (hskipped hs).2]
  rfl

theorem validateSpans_from (h : ∀ event ∈ events, Acceptable datetime event) (start : Nat)
    (totals : Dict String Int × Dict String Int) :
    ((events.map eventDocument).zipIdx start).foldlM (fun totals row => do
      let items ← validateSpan datetime row.2 row.1
      pure (add totals.1 items.1, add totals.2 items.2)) totals =
        (.ok (tally totals.1 (events.map countItem), tally totals.2 (events.filterMap durationItem)) : Result _) := by
  induction events generalizing start totals with
  | nil => rfl
  | cons event rest ih =>
    obtain ⟨hevent, hrest⟩ := List.forall_mem_cons.mp h
    obtain ⟨n, hn, hspan⟩ := validateSpan_eventDocument hevent start
    have hitem : durationItem event = some (event.stage.value, (n : Int)) := by rw [durationItem, hn, Option.map_some]
    rw [List.map_cons, List.zipIdx_cons, List.foldlM_cons, hspan, ok_bind, pure_bind, ih hrest, List.map_cons,
      List.filterMap_cons_some hitem, tally_cons, tally_cons]

/-- The totals of the gate are those of the recorder. -/
theorem validateSpans_documents (h : ∀ event ∈ events, Acceptable datetime event) :
    validateSpans datetime (events.map eventDocument) =
      .ok (tally noCounts (events.map countItem), tally Dict.empty (events.filterMap durationItem)) :=
  validateSpans_from h 0 _

theorem same_totals (d : Dict String Int) : Json.same (.obj (totals d)) (.obj (totals d)) = true := by
  refine (same_totals_iff (nodup_totals d)).mpr fun key => ?_
  rw [get?_totals, Option.map_map]
  rfl

theorem endsWithSeal_documents (hstage : event.stage = .provenanceSeal) (hstatus : event.status = .completed) :
    endsWithSeal ((events ++ [event]).map eventDocument) = true := by
  have hfields : (eventDocument event).fields? = some (eventFields event) := rfl
  have hstageField : get (eventFields event) "stage" = .str event.stage.value := rfl
  have hstatusField : get (eventFields event) "status" = .str event.status.value := rfl
  have hfinal : (get (eventFields event) "stage").isText CellStage.provenanceSeal.value = true ∧
      (get (eventFields event) "status").isText ProgressStatus.completed.value = true := by
    rw [hstageField, hstatusField, hstage, hstatus]
    exact ⟨by decide, by decide⟩
  rw [endsWithSeal, List.map_append, List.map_singleton, List.getLast?_concat, Option.bind_some, hfields, Option.any_some,
    Bool.and_eq_true]
  exact hfinal

variable {recorder : TimingRecorder} {finishedNs : Nanoseconds} {last : ProgressEvent}

theorem elapsed_le (finishedNs startedNs : Nanoseconds) : (finishedNs - startedNs : Nat) ≤ maxDurationNs :=
  (Nat.sub_le ..).trans (Nat.lt_succ_iff.mp finishedNs.isLt)

/-- The document of a recorder whose events are acceptable and end with the seal is accepted. -/
theorem validateCellTiming_document (hstarted : isUtc datetime recorder.startedAt = true)
    (h : ∀ event ∈ events ++ [last], Acceptable datetime event) (hevents : recorder.terminal = events ++ [last])
    (hstage : last.stage = .provenanceSeal) (hstatus : last.status = .completed) :
    validateCellTiming datetime (.json (.obj (recorder.document finishedNs))) = .ok () := by
  have hdocument : (Json.obj (recorder.document finishedNs)).fields? = some (recorder.document finishedNs) := rfl
  have hschema : (get (recorder.document finishedNs) "schema_version").isText timingSchema = true := rfl
  have hpolicy : (get (recorder.document finishedNs) "policy").fields?.any
      (fun policy => (get policy "duration_clock").isText "monotonic_ns") = true := rfl
  have hsummary : (get (recorder.document finishedNs) "summary").fields? = some (recorder.summary finishedNs) := rfl
  have hspans : (get (recorder.document finishedNs) "spans").items? = some (recorder.terminal.map eventDocument) := rfl
  have hmeasured : get (recorder.summary finishedNs) "measurement_started_at" = .str recorder.startedAt := rfl
  have helapsed : get (recorder.summary finishedNs) "elapsed_before_snapshot_ns" =
      .int (finishedNs - recorder.startedNs : Nat) := rfl
  have hcounts : get (recorder.summary finishedNs) "terminal_event_counts" =
      .obj (totals (tally noCounts (recorder.terminal.map countItem))) := rfl
  have hdurations : get (recorder.summary finishedNs) "stage_duration_ns" =
      .obj (totals (tally Dict.empty (recorder.terminal.filterMap durationItem))) := rfl
  have hne : (!(recorder.terminal.map eventDocument).isEmpty) = true := by simp [hevents]
  have hends : endsWithSeal (recorder.terminal.map eventDocument) = true :=
    hevents ▸ endsWithSeal_documents hstage hstatus
  have hvalidated : validateSpans datetime (recorder.terminal.map eventDocument) = _ :=
    validateSpans_documents (by rw [hevents]; exact h)
  simp only [validateCellTiming, validateDocument, hdocument, expect, ok_bind, require, hschema, hpolicy, hsummary,
    hspans, hmeasured, helapsed, hcounts, hdurations, hne, hends, hvalidated, same_totals, if_true, Option.filter_some,
    utcTimingTimestamp_str hstarted, nonnegativeInteger_natCast (elapsed_le _ _)]

end Accepted

section Sealed

variable {τ : Type} {datetime : Datetime τ} {events : List ProgressEvent} {fields : Json.Fields}

/-- `json.loads(json.dumps(document, sort_keys=True))` of a dictionary. -/
def readBack (fields : Json.Fields) : Json.Fields := (Json.sortValues fields).insertionSort Json.keyOrder

theorem get_readBack (h : (fields.map Prod.fst).Nodup) (key : String) : get (readBack fields) key = (get fields key).sortKeys := by
  rw [get, readBack, Json.get?_sortKeys h, get]
  cases fields.get? key <;> rfl

theorem proper_eventDocument {event : ProgressEvent} (h : Json.ProperValues event.metrics.entries) :
    (eventDocument event).Proper := by
  have hfinished : (event.finishedAt.elim Json.null .str).Proper := by cases event.finishedAt <;> trivial
  have hduration : (event.durationNs.elim Json.null fun n : Nat => .int n).Proper := by cases event.durationNs <;> trivial
  have hnodup : ((eventFields event).map Prod.fst).Nodup := by
    change (["stage", "status", "message", "started_at", "finished_at", "duration_ns", "metrics"] : List String).Nodup
    decide
  exact ⟨hnodup, trivial, trivial, trivial, trivial, hfinished, hduration, ⟨event.metrics.nodup, h⟩, trivial⟩

theorem proper_events (h : ∀ event ∈ events, Acceptable datetime event) :
    Json.ProperItems (events.map eventDocument) := by
  rw [Json.properItems_iff, List.forall_mem_map]
  exact fun event hevent => proper_eventDocument (h event hevent).metrics

theorem isSome_add {d : Dict String Int} {key : String} (item : String × Int) (h : (d.get? key).isSome = true) :
    ((add d item).get? key).isSome = true := by
  rw [add, Dict.get?_set]
  split
  · rfl
  · exact h

theorem prefixTotals_from (h : ∀ event ∈ events, Acceptable datetime event) (counts durations : Dict String Int)
    (hcounts : ∀ status : ProgressStatus, (counts.get? status.value).isSome = true) :
    (events.map eventDocument).foldlM (fun totals span => do
      let items ← prefixSpan totals.1 span
      pure (add totals.1 items.1, add totals.2 items.2)) (counts, durations) =
        (.ok (tally counts (events.map countItem), tally durations (events.filterMap durationItem)) : Result _) := by
  induction events generalizing counts durations with
  | nil => rfl
  | cons event rest ih =>
    obtain ⟨hevent, hrest⟩ := List.forall_mem_cons.mp h
    obtain ⟨n, hn, -⟩ := hevent.duration
    have hitem : durationItem event = some (event.stage.value, (n : Int)) := by rw [durationItem, hn, Option.map_some]
    have hduration : atKey (eventFields event) "duration_ns" = .ok (.int n) := by
      change (.ok (event.durationNs.elim Json.null fun n : Nat => .int n) : Result Json) = _
      rw [hn]
      rfl
    have hstage : atKey (eventFields event) "stage" = .ok (.str event.stage.value) := rfl
    have hstatus : atKey (eventFields event) "status" = .ok (.str event.status.value) := rfl
    have hspan : prefixSpan counts (eventDocument event) = .ok (countItem event, (event.stage.value, (n : Int))) := by
      rw [eventDocument, prefixSpan]
      simp only [hstage, hstatus, hduration, ok_bind, hcounts, require, if_true]
      rfl
    rw [List.map_cons, List.foldlM_cons, hspan, ok_bind, pure_bind, List.map_cons, List.filterMap_cons_some hitem,
      tally_cons, tally_cons]
    exact ih hrest _ _ fun status => isSome_add _ (hcounts status)

theorem prefixTotals_documents (h : ∀ event ∈ events, Acceptable datetime event) :
    prefixTotals (events.map eventDocument) =
      .ok (tally noCounts (events.map countItem), tally Dict.empty (events.filterMap durationItem)) :=
  prefixTotals_from h _ _ fun status => by cases status <;> decide

variable {recorder : TimingRecorder} {last : ProgressEvent} {snapshotNs finishedNs : Nanoseconds} {cellSeal : Json.Fields}

/-- A snapshot that is taken before the last event and sealed with sorted keys passes against the final document. -/
theorem validateSealTiming_snapshot (h : ∀ event ∈ recorder.terminal, Acceptable datetime event)
    (hclock : snapshotNs ≤ finishedNs) (hseal : (cellSeal.map Prod.fst).Nodup)
    (htiming : cellSeal.get? "timing" = some (.obj (recorder.document snapshotNs))) :
    validateSealTiming (readBack cellSeal) ((recorder.emit last).document finishedNs) = .ok () := by
  have hdocumentNodup : ((recorder.document snapshotNs).map Prod.fst).Nodup := by
    change (["schema_version", "policy", "summary", "spans"] : List String).Nodup
    decide
  have hsummaryNodup : ((recorder.summary snapshotNs).map Prod.fst).Nodup := by
    change (["measurement_started_at", "elapsed_before_snapshot_ns", "terminal_event_counts", "stage_duration_ns"] :
      List String).Nodup
    decide
  have hsealed : (get (readBack cellSeal) "timing").fields? = some (readBack (recorder.document snapshotNs)) := by
    rw [get_readBack hseal, get, htiming]
    rfl
  have hcompleted : ((recorder.emit last).terminal.map eventDocument).dropLast = recorder.terminal.map eventDocument := by
    rw [TimingRecorder.emit, List.map_append, List.map_singleton, List.dropLast_concat]
  have hschema : (get (readBack (recorder.document snapshotNs)) "schema_version").isText timingSchema = true := by
    rw [get_readBack hdocumentNodup]
    rfl
  have hpolicy : (get (readBack (recorder.document snapshotNs)) "policy").same policyDocument = true := by
    rw [get_readBack hdocumentNodup]
    exact Json.same_sortKeys _ ⟨by decide, trivial, trivial, trivial, trivial, trivial, trivial⟩
  have hspans : (get (readBack (recorder.document snapshotNs)) "spans").same
      (.arr (recorder.terminal.map eventDocument)) = true := by
    rw [get_readBack hdocumentNodup]
    exact Json.same_sortKeys (.arr (recorder.terminal.map eventDocument)) (proper_events h)
  have hsummary : (get (readBack (recorder.document snapshotNs)) "summary").fields? =
      some (readBack (recorder.summary snapshotNs)) := by
    rw [get_readBack hdocumentNodup]
    rfl
  have hstarted : (get (readBack (recorder.summary snapshotNs)) "measurement_started_at").same
      (.str recorder.startedAt) = true := by
    rw [get_readBack hsummaryNodup]
    exact Json.same_sortKeys (.str recorder.startedAt) trivial
  have helapsed : get (readBack (recorder.summary snapshotNs)) "elapsed_before_snapshot_ns" =
      .int (snapshotNs - recorder.startedNs : Nat) := by
    rw [get_readBack hsummaryNodup]
    rfl
  have hcounts : (get (readBack (recorder.summary snapshotNs)) "terminal_event_counts").same
      (.obj (totals (tally noCounts (recorder.terminal.map countItem)))) = true := by
    rw [get_readBack hsummaryNodup]
    exact Json.same_sortKeys _ (proper_totals _)
  have hdurations : (get (readBack (recorder.summary snapshotNs)) "stage_duration_ns").same
      (.obj (totals (tally Dict.empty (recorder.terminal.filterMap durationItem)))) = true := by
    rw [get_readBack hsummaryNodup]
    exact Json.same_sortKeys _ (proper_totals _)
  have hfinalSummary : fieldsAt ((recorder.emit last).document finishedNs) "summary" =
      .ok ((recorder.emit last).summary finishedNs) := rfl
  have hfinalSpans : itemsAt ((recorder.emit last).document finishedNs) "spans" =
      .ok ((recorder.emit last).terminal.map eventDocument) := rfl
  have hfinalPolicy : atKey ((recorder.emit last).document finishedNs) "policy" = .ok policyDocument := rfl
  have hfinalStarted : atKey ((recorder.emit last).summary finishedNs) "measurement_started_at" =
      .ok (.str recorder.startedAt) := rfl
  have hfinalElapsed : numberAt ((recorder.emit last).summary finishedNs) "elapsed_before_snapshot_ns" =
      .ok ((finishedNs - recorder.startedNs : Nat) : Int) := rfl
  have hle : ((snapshotNs - recorder.startedNs : Nat) : Rat) ≤ (((finishedNs - recorder.startedNs : Nat) : Int) : Rat) := by
    rw [Int.cast_natCast, Nat.cast_le]
    exact Nat.sub_le_sub_right hclock _
  simp only [validateSealTiming, hsealed, hfinalSummary, hfinalSpans, hfinalPolicy, hfinalStarted, hfinalElapsed,
    hcompleted, hschema, hpolicy, hspans, hsummary, hstarted, helapsed, hcounts, hdurations, expect, ok_bind, require,
    if_true, nonnegativeInteger_natCast (elapsed_le _ _), if_pos hle, prefixTotals_documents h]

end Sealed

section Reconciled

def textAt (span : Json) (key : String) : Option String := span.fields?.bind fun fields => (get fields key).str?

def durationOf (span : Json) : Int := (span.fields?.bind fun fields => (get fields "duration_ns").int?).getD 0

/-- The number of spans with a status. -/
def statusCount (spans : List Json) (status : String) : Nat := spans.countP fun span => textAt span "status" = some status

/-- The nanoseconds of the spans of a stage. -/
def stageSum (spans : List Json) (stage : String) : Int :=
  ((spans.filter fun span => textAt span "stage" = some stage).map durationOf).sum

/-- The summary has the number of the spans of each status and the sum of each stage that has spans, and no other key. -/
structure Reconciled (spans : List Json) (summary : Json.Fields) : Prop where
  counts : ∃ counts : Json.Fields, get summary "terminal_event_counts" = .obj counts ∧
    ∀ key, (counts.get? key).map Json.number? =
      if (status? key).isSome then some (some (statusCount spans key : Rat)) else none
  durations : ∃ durations : Json.Fields, get summary "stage_duration_ns" = .obj durations ∧
    ∀ key, (durations.get? key).map Json.number? =
      if ∃ span ∈ spans, textAt span "stage" = some key then some (some (stageSum spans key : Rat)) else none

variable {τ : Type} {datetime : Datetime τ} {spans : List Json}

theorem expect_eq_ok {α : Type} {value : Option α} {message : String} {a : α} :
    expect value message = .ok a ↔ value = some a := by
  cases value <;> simp [expect]

theorem fields?_eq_some {value : Json} {fields : Json.Fields} : value.fields? = some fields ↔ value = .obj fields := by
  cases value <;> simp [Json.fields?]

theorem items?_eq_some {value : Json} {items : List Json} : value.items? = some items ↔ value = .arr items := by
  cases value <;> simp [Json.items?]

theorem nonnegativeInteger_eq_ok {value : Json} {label : String} {n : Nat} (h : nonnegativeInteger value label = .ok n) :
    value.int? = some (n : Int) := by
  obtain ⟨i, hi, hn⟩ := Option.bind_eq_some_iff.mp (expect_eq_ok.mp h)
  split at hn
  · rename_i hbounds
    rw [hi, ← Option.some.inj hn, Int.toNat_of_nonneg hbounds.1]
  · cases hn

/-- An accepted span counts for its own status and adds its own duration to its own stage. -/
theorem validateSpan_eq_ok {index : Nat} {span : Json} {items : (String × Int) × (String × Int)}
    (h : validateSpan datetime index span = .ok items) : ∃ (status : ProgressStatus) (stage : CellStage),
      textAt span "status" = some status.value ∧ textAt span "stage" = some stage.value ∧
        items = ((status.value, 1), (stage.value, durationOf span)) := by
  simp only [validateSpan, terminalStatus, bind_eq_ok, require_eq_ok, expect_eq_ok, pure_eq_ok] at h
  obtain ⟨fields, hfields, stage, hstage, -, -, status, ⟨-, -, hstatus⟩, -, -, -, -, -, -, -, -, duration, hduration, -, -,
    -, -, -, -, rfl⟩ := h
  obtain ⟨stageText, hstageText, hstage⟩ := Option.bind_eq_some_iff.mp hstage
  obtain ⟨statusText, hstatusText, hstatus⟩ := Option.bind_eq_some_iff.mp (Option.filter_eq_some_iff.mp hstatus).1
  rw [stage?_eq_some.mp hstage] at hstageText
  rw [status?_eq_some.mp hstatus] at hstatusText
  have hint := nonnegativeInteger_eq_ok hduration
  refine ⟨status, stage, ?_, ?_, ?_⟩
  · rw [textAt, hfields, Option.bind_some, hstatusText]
  · rw [textAt, hfields, Option.bind_some, hstageText]
  · rw [durationOf, hfields, Option.bind_some, hint, Option.getD_some]

def statusItem (span : Json) : String × Int := ((textAt span "status").getD "", 1)

def stageItem (span : Json) : String × Int := ((textAt span "stage").getD "", durationOf span)

/-- The loop adds up the items of all spans, each of which has a status and a stage. -/
theorem validateSpans_totals {start : Nat} {totals totals' : Dict String Int × Dict String Int}
    (h : (spans.zipIdx start).foldlM (fun totals row => do
      let items ← validateSpan datetime row.2 row.1
      pure (add totals.1 items.1, add totals.2 items.2)) totals = (.ok totals' : Result _)) :
    (∀ span ∈ spans, ∃ (status : ProgressStatus) (stage : CellStage), textAt span "status" = some status.value ∧
        textAt span "stage" = some stage.value) ∧
      totals' = (tally totals.1 (spans.map statusItem), tally totals.2 (spans.map stageItem)) := by
  induction spans generalizing start totals with
  | nil => exact ⟨fun _ h => absurd h List.not_mem_nil, (Except.ok.inj h).symm⟩
  | cons span rest ih =>
    rw [List.zipIdx_cons, List.foldlM_cons] at h
    simp only [bind_eq_ok, pure_eq_ok] at h
    obtain ⟨_, ⟨items, hspan, rfl⟩, hrest⟩ := h
    obtain ⟨status, stage, hstatus, hstage, rfl⟩ := validateSpan_eq_ok hspan
    obtain ⟨hall, htotals⟩ := ih hrest
    have hstatusItem : statusItem span = (status.value, 1) := by rw [statusItem, hstatus, Option.getD_some]
    have hstageItem : stageItem span = (stage.value, durationOf span) := by rw [stageItem, hstage, Option.getD_some]
    refine ⟨List.forall_mem_cons.mpr ⟨⟨status, stage, hstatus, hstage⟩, hall⟩, ?_⟩
    rw [htotals, List.map_cons, List.map_cons, tally_cons, tally_cons, hstatusItem, hstageItem]

theorem sumOf_statusItem (h : ∀ span ∈ spans, ∃ status : ProgressStatus, textAt span "status" = some status.value)
    (key : String) : sumOf (spans.map statusItem) key = statusCount spans key := by
  induction spans with
  | nil => rfl
  | cons span rest ih =>
    obtain ⟨⟨status, hstatus⟩, hrest⟩ := List.forall_mem_cons.mp h
    have hitem : statusItem span = (status.value, 1) := by rw [statusItem, hstatus, Option.getD_some]
    rw [List.map_cons, sumOf_cons, ih hrest, hitem, statusCount, statusCount, List.countP_cons, hstatus]
    by_cases hkey : status.value = key
    · simp [hkey, add_comm]
    · simp [hkey]

theorem sumOf_stageItem (h : ∀ span ∈ spans, ∃ stage : CellStage, textAt span "stage" = some stage.value)
    (key : String) : sumOf (spans.map stageItem) key = stageSum spans key := by
  induction spans with
  | nil => rfl
  | cons span rest ih =>
    obtain ⟨⟨stage, hstage⟩, hrest⟩ := List.forall_mem_cons.mp h
    have hitem : stageItem span = (stage.value, durationOf span) := by rw [stageItem, hstage, Option.getD_some]
    rw [List.map_cons, sumOf_cons, ih hrest, hitem, stageSum, stageSum, List.filter_cons, hstage]
    by_cases hkey : stage.value = key
    · simp [hkey]
    · simp [hkey]

theorem get?_noCounts (key : String) : noCounts.get? key = (status? key).map fun _ => 0 := by
  have hentries : noCounts.entries = statuses.map fun status => (status.value, 0) := Dict.entries_ofList (by decide)
  rw [Dict.get?, hentries, List.find?_map, status?, Option.map_map]
  rfl

theorem mem_stageItem (h : ∀ span ∈ spans, ∃ stage : CellStage, textAt span "stage" = some stage.value) (key : String) :
    key ∈ (spans.map stageItem).map Prod.fst ↔ ∃ span ∈ spans, textAt span "stage" = some key := by
  simp only [List.map_map, List.mem_map, Function.comp_apply, stageItem]
  refine exists_congr fun span => and_congr_right fun hspan => ?_
  obtain ⟨stage, hstage⟩ := h span hspan
  rw [hstage, Option.getD_some, Option.some.injEq]

theorem proper_get {fields : Json.Fields} (h : Json.ProperValues fields) (key : String) : (get fields key).Proper := by
  rw [get]
  cases hfound : fields.get? key with
  | none => trivial
  | some value => exact Json.properValues_iff.mp h _ (Json.mem_of_get? hfound)

/-- Only an object equals an object. -/
theorem obj_of_same {value : Json} {fields : Json.Fields} (h : value.same (.obj fields) = true) :
    ∃ fields', value = .obj fields' := by
  cases value with
  | obj fields' => exact ⟨fields', rfl⟩
  | null | bool value | int value | float value | str value | arr items =>
    simp [Json.same, Json.isNumber, Json.number?, Json.isText, Json.str?] at h

/-- The summary of an accepted document agrees with its spans. -/
theorem validateDocument_reconciled {timing : Json.Fields} (hproper : (Json.obj timing).Proper)
    (h : validateDocument datetime timing = .ok ()) : ∃ summary spans, get timing "summary" = .obj summary ∧
      get timing "spans" = .arr spans ∧ Reconciled spans summary := by
  simp only [validateDocument, bind_eq_ok, require_eq_ok, expect_eq_ok] at h
  obtain ⟨-, -, summary, hsummary, -, -, -, -, spans, hspans, ⟨counts, durations⟩, htotals, -, -, -, hcounts, hdurations⟩ := h
  obtain ⟨hall, heq⟩ := validateSpans_totals htotals
  obtain ⟨rfl, rfl⟩ := Prod.mk.inj heq
  have hstatuses : ∀ span ∈ spans, ∃ status : ProgressStatus, textAt span "status" = some status.value := by
    intro span hspan
    obtain ⟨status, _, hstatus, _⟩ := hall span hspan
    exact ⟨status, hstatus⟩
  have hstages : ∀ span ∈ spans, ∃ stage : CellStage, textAt span "stage" = some stage.value := by
    intro span hspan
    obtain ⟨_, stage, _, hstage⟩ := hall span hspan
    exact ⟨stage, hstage⟩
  have hobj : get timing "summary" = .obj summary := fields?_eq_some.mp hsummary
  have hsummaryProper : (Json.obj summary).Proper := hobj ▸ proper_get hproper.2 "summary"
  obtain ⟨countFields, hcountFields⟩ := obj_of_same hcounts
  obtain ⟨durationFields, hdurationFields⟩ := obj_of_same hdurations
  have hcountProper : (Json.obj countFields).Proper := hcountFields ▸ proper_get hsummaryProper.2 _
  have hdurationProper : (Json.obj durationFields).Proper := hdurationFields ▸ proper_get hsummaryProper.2 _
  rw [hcountFields, same_totals_iff hcountProper.1] at hcounts
  rw [hdurationFields, same_totals_iff hdurationProper.1] at hdurations
  refine ⟨summary, spans, hobj, items?_eq_some.mp (Option.filter_eq_some_iff.mp hspans).1,
    ⟨countFields, hcountFields, fun key => ?_⟩, ⟨durationFields, hdurationFields, fun key => ?_⟩⟩
  · rw [hcounts key]
    cases hstatus : status? key with
    | some status =>
      have hzero : noCounts.get? key = some 0 := by rw [get?_noCounts, hstatus, Option.map_some]
      rw [get?_tally_of_mem hzero, sumOf_statusItem hstatuses, zero_add]
      simp
    | none =>
      have hnone : key ∉ (spans.map statusItem).map Prod.fst := by
        simp only [List.map_map, List.mem_map, Function.comp_apply, statusItem, not_exists, not_and]
        intro span hspan hkey
        obtain ⟨status, hspanStatus⟩ := hstatuses span hspan
        rw [hspanStatus, Option.getD_some] at hkey
        rw [← hkey, status?_value] at hstatus
        cases hstatus
      rw [get?_tally, if_neg hnone, get?_noCounts, hstatus]
      rfl
  · rw [hdurations key, get?_tally]
    simp only [mem_stageItem hstages]
    by_cases hkey : ∃ span ∈ spans, textAt span "stage" = some key
    · rw [if_pos hkey, if_pos hkey, sumOf_stageItem hstages]
      simp [Dict.get?, Dict.empty]
    · rw [if_neg hkey, if_neg hkey]
      rfl

end Reconciled

section Evidence

variable {τ : Type} {datetime : Datetime τ} {reading : Reading τ} {calls : List (Call τ)} {cellSpan : Call τ}

theorem terminal_acceptable (h : ∀ call ∈ calls, Regular call) :
    ∀ event ∈ ((TimingRecorder.init datetime reading).runAll datetime calls).terminal, Acceptable datetime event := by
  rw [runAll_closed rfl]
  intro event hevent
  obtain ⟨call, hcall, heq⟩ := List.mem_filterMap.mp hevent
  exact event?_acceptable (h call hcall) heq

/-- The span of the seal adds its event, which is completed. -/
theorem run_seals {recorder : TimingRecorder} (h : recorder.openStage = none) (hregular : Regular cellSpan)
    (hseals : Seals cellSpan) : ∃ last, (recorder.run datetime cellSpan).1 = recorder.emit last ∧
      Acceptable datetime last ∧ last.stage = .provenanceSeal ∧ last.status = .completed := by
  cases cellSpan with
  | skip => exact hseals.elim
  | span argument message start finish nested body startRaises finishRaises =>
    obtain ⟨hstage, rfl⟩ := hseals
    have hbody := hregular
    obtain ⟨-, -, metrics, rfl, -⟩ := hbody
    obtain ⟨last, hevent⟩ : ∃ last, last = Body.event .provenanceSeal message (datetime.utcNow start.now)
        (datetime.utcNow finish.now) (finish.monotonicNs - start.monotonicNs : Nat)
        (resourceMetrics start.usage finish.usage start.processTimeNs finish.processTimeNs) (.completed metrics) := ⟨_, rfl⟩
    have hsome : Call.event? datetime (.span argument message start finish nested (.completed metrics) false finishRaises) =
        some last := by
      rw [Call.event?, hstage, hevent]
      rfl
    refine ⟨last, ?_, event?_acceptable hregular hsome, ?_, ?_⟩
    · rw [run_closed h, hsome]
      rfl
    · rw [hevent]
      rfl
    · rw [hevent]
      rfl

/-- What a recorder records of a successful run passes the gate, and its snapshot passes as the timing of the seal; what the
gate accepts has the counts and sums of its spans; no call finds a stage left open. -/
theorem timing_evidence_gated (datetime : Datetime τ) (reading : Reading τ) :
    (∀ (calls : List (Call τ)) (cellSpan : Call τ) (snapshotNs finishedNs : Nanoseconds),
      (∀ call ∈ calls, Regular call) → Regular cellSpan → Seals cellSpan → snapshotNs ≤ finishedNs →
      let recorder := (TimingRecorder.init datetime reading).runAll datetime calls
      let final := (recorder.run datetime cellSpan).1.document finishedNs
      validateCellTiming datetime (.json (.obj final)) = .ok () ∧
        ∀ cellSeal : Json.Fields, (cellSeal.map Prod.fst).Nodup →
          cellSeal.get? "timing" = some (.obj (recorder.document snapshotNs)) →
          validateSealTiming (readBack cellSeal) final = .ok ()) ∧
    (∀ document : Json, document.Proper → validateCellTiming datetime (.json document) = .ok () →
      ∃ timing summary spans, document = .obj timing ∧ get timing "summary" = .obj summary ∧
        get timing "spans" = .arr spans ∧ Reconciled spans summary) ∧
    ∀ (calls : List (Call τ)) (call : Call τ),
      let recorder := (TimingRecorder.init datetime reading).runAll datetime calls
      recorder.openStage = none ∧ ∀ message, (recorder.run datetime call).2 ≠ .error (.runtime message) := by
  refine ⟨fun calls cellSpan snapshotNs finishedNs hcalls hregular hseals hclock => ?_, fun document hproper h => ?_,
    fun calls call => ?_⟩
  · have hopen : ((TimingRecorder.init datetime reading).runAll datetime calls).openStage = none := openStage_runAll rfl calls
    have hterminal := @terminal_acceptable τ datetime reading calls hcalls
    obtain ⟨last, hrun, hlast, hstage, hstatus⟩ := @run_seals τ datetime cellSpan _ hopen hregular hseals
    dsimp only
    rw [hrun]
    refine ⟨?_, fun cellSeal hnodup htiming => validateSealTiming_snapshot hterminal hclock hnodup htiming⟩
    have hstarted : isUtc datetime ((TimingRecorder.init datetime reading).runAll datetime calls).startedAt = true := by
      rw [runAll_closed rfl]
      exact isUtc_utcNow reading.now
    refine validateCellTiming_document hstarted ?_ rfl hstage hstatus
    rw [List.forall_mem_append, List.forall_mem_singleton]
    exact ⟨hterminal, hlast⟩
  · simp only [validateCellTiming, bind_eq_ok, expect_eq_ok, require_eq_ok] at h
    obtain ⟨timing, hfields, -, -, hvalid⟩ := h
    obtain rfl := fields?_eq_some.mp hfields
    obtain ⟨summary, spans, hreconciled⟩ := validateDocument_reconciled hproper hvalid
    exact ⟨timing, summary, spans, rfl, hreconciled⟩
  · have hopen : ((TimingRecorder.init datetime reading).runAll datetime calls).openStage = none := openStage_runAll rfl calls
    exact ⟨hopen, run_not_refused hopen call⟩

end Evidence

namespace ShortRun

def newYear : Datetime Unit where
  isoformat _ := "2026-01-01T00:00:00.000000"
  utcoffset text := if text = "2026-01-01T00:00:00.000000+00:00" then some 0 else none
  utcoffset_isoformat _ := by decide

def noUsage : Usage := ⟨none, none, none, none, none, none⟩

def read (monotonicNs : Nanoseconds) : Reading Unit := ⟨(), monotonicNs, 0, noUsage⟩

def compiled : Call Unit :=
  .span (.stage .compile) "compiling" (read 10) (read 25) [] (.completed (Dict.ofList [("jobs", .int 4)])) false false

def exported : Call Unit := .skip (.text "fidb-export") "exported by the pipeline" Dict.empty (read 30) false

def cellSealed : Call Unit :=
  .span (.stage .provenanceSeal) "writing the seal" (read 40) (read 50) [] (.completed Dict.empty) false false

/-- A run that compiles, skips the export and seals is accepted with its seal. -/
theorem short_run_gated :
    let recorder := (TimingRecorder.init newYear (read 0)).runAll newYear [compiled, exported]
    let final := (recorder.run newYear cellSealed).1.document 60
    validateCellTiming newYear (.json (.obj final)) = .ok () ∧
      validateSealTiming (readBack [("timing", .obj (recorder.document 35)), ("schema_version", .str "seal")]) final =
        .ok () := by
  have hregular : ∀ call ∈ [compiled, exported], Regular call := by
    rw [List.forall_mem_cons, List.forall_mem_singleton]
    exact ⟨⟨by decide, by decide, _, rfl, trivial, trivial⟩, by decide, by decide, trivial⟩
  have hseal : Regular cellSealed := ⟨by decide, by decide, _, rfl, trivial⟩
  have hgated := (timing_evidence_gated newYear (read 0)).1 [compiled, exported] cellSealed 35 60 hregular hseal ⟨rfl, rfl⟩
    (by decide)
  exact ⟨hgated.1, hgated.2 _ (by decide) rfl⟩

end ShortRun

end FidbPoc.Timing
