import ProducerConsumer.Accounting
import ProducerConsumer.StatsPartition

/-!
# What a session finds out

A session leaves in its validator, its statistics and its count of logged defects what an offline replay leaves: from a
fresh baseline and zeroed statistics, the records it has handled, in their order, each processed or dropped, with the
resumptions and the reports in between.  So the totals say of the handled records exactly what the verdicts on them say,
under every interleaving with the producer and with whoever pauses the consumer.
-/

namespace ProducerConsumer

open Transition

/-! ### Replays -/

/-- What a session has its validator and its statistics do. -/
inductive SessionEvent
  | process (record : List U8) (nowNs : Int)
  | drop (record : List U8)
  | resume
  | takeInterval

namespace SessionEvent

def processed : SessionEvent → Option (List U8)
  | .process record _ => some record
  | _ => none

def dropped : SessionEvent → Option (List U8)
  | .drop record => some record
  | _ => none

def handled : SessionEvent → Option (List U8)
  | .process record _ | .drop record => some record
  | _ => none

end SessionEvent

/-- The validator, the statistics and the number of logged defects. -/
structure Findings where
  validator : PacketValidator
  stats : ConsumerStats
  defectLogs : Nat

namespace Findings

/-- At the start of `run_session`. -/
def start (validator : PacketValidator) : Findings := ⟨validator.resync, {}, 0⟩

def apply (cfg : SessionSetup) (f : Findings) : SessionEvent → Findings
  | .process record nowNs =>
    let (result, validator) := f.validator.validate record nowNs
    ⟨validator, f.stats.record result (BitVec.ofNat 64 record.length),
      if !result.clean && f.defectLogs < cfg.maxDefectLogs then f.defectLogs + 1 else f.defectLogs⟩
  | .drop record => { f with stats := f.stats.recordDropped (BitVec.ofNat 64 record.length) }
  | .resume => { f with validator := cfg.policy.onResume f.validator }
  | .takeInterval => { f with stats := f.stats.takeInterval.2 }

def applyAll (cfg : SessionSetup) (f : Findings) (events : List SessionEvent) : Findings :=
  events.foldl (apply cfg) f

end Findings

namespace SessionState

variable {cfg : SessionSetup} {s t : SessionState}

def findings (s : SessionState) : Findings := ⟨s.validator, s.stats, s.defectLogs⟩

/-- The event of a step of a session that has started. -/
def event (s : SessionState) : SessionAction → Option SessionEvent
  | .advance =>
    match s.phase with
    | .readPause => if s.paused ≠ s.wasPaused ∧ s.paused = false then some .resume else none
    | .drop => s.ring.view.map fun sp => .drop (s.ring.readSpan sp)
    | _ => none
  | .process nowNs => s.ring.view.map fun sp => .process (s.ring.readSpan sp) nowNs
  | .report (some _) => some .takeInterval
  | _ => none

/-- What the session has found out is what the replay of these events finds out from the validator `v`, and the events
handle what the session has handled. -/
structure Logged (cfg : SessionSetup) (v : PacketValidator) (events : List SessionEvent) (s : SessionState) : Prop where
  findings : s.findings = (Findings.start v).applyAll cfg events
  handled : s.handled = events.filterMap SessionEvent.handled
  processed : s.processed = events.filterMap SessionEvent.processed
  dropped : s.dropped = events.filterMap SessionEvent.dropped

/-- The record in hand is the last one that was returned. -/
def HoldsLast (s : SessionState) : Prop :=
  s.phase.inHand = true → ∀ sp, s.ring.view = some sp → s.returned = s.handled ++ [s.ring.readSpan sp]

variable {v : PacketValidator} {events : List SessionEvent}

/-- A step without an event. -/
theorem Logged.quiet (h : s.Logged cfg v events) (hfindings : t.findings = s.findings) (hhandled : t.handled = s.handled)
    (hprocessed : t.processed = s.processed) (hdropped : t.dropped = s.dropped) : t.Logged cfg v events :=
  ⟨hfindings.trans h.findings, hhandled.trans h.handled, hprocessed.trans h.processed, hdropped.trans h.dropped⟩

/-- A step with an event. -/
theorem Logged.note (h : s.Logged cfg v events) (e : SessionEvent) (hfindings : t.findings = s.findings.apply cfg e)
    (hhandled : t.handled = s.handled ++ e.handled.toList)
    (hprocessed : t.processed = s.processed ++ e.processed.toList)
    (hdropped : t.dropped = s.dropped ++ e.dropped.toList) : t.Logged cfg v (events ++ [e]) := by
  have hone {f : SessionEvent → Option (List U8)} :
      (events ++ [e]).filterMap f = events.filterMap f ++ (f e).toList := by
    rw [List.filterMap_append]
    cases h : f e <;> simp [h]
  refine ⟨?_, ?_, ?_, ?_⟩
  · rw [hfindings, h.findings, Findings.applyAll, Findings.applyAll, List.foldl_append]
    rfl
  · rw [hhandled, h.handled, hone]
  · rw [hprocessed, h.processed, hone]
  · rw [hdropped, h.dropped, hone]

/-- The start of a session that has been returned nothing. -/
theorem Logged.start {ring : SharedRing} (hreturned : s.returned = []) (hprocessed : s.processed = [])
    (hdropped : s.dropped = []) : (doStart { s with ring := ring }).Logged cfg s.validator [] :=
  ⟨rfl, hreturned, hprocessed, hdropped⟩

theorem handled_eq (hreturned : t.returned = s.returned) (hin : t.phase.inHand = s.phase.inHand) :
    t.handled = s.handled := by
  rw [SessionState.handled, SessionState.handled, hreturned, hin]

theorem inHand_noRecord (call : ReceiveCall) : (noRecord call).inHand = false := by
  cases call <;> rfl

/-- A record that is returned is in hand; without one the session goes on with nothing in hand. -/
theorem handled_afterPeek {call : ReceiveCall} {retry : Bool} (hphase : s.phase = .peek call retry) (ring : SharedRing) :
    (afterPeek cfg call retry { s with ring := ring }).handled = s.handled := by
  have hin : s.phase.inHand = false := by rw [hphase]; rfl
  unfold afterPeek
  dsimp only
  split
  · refine handled_receive rfl hin ?_
    cases call <;> rfl
  · refine handled_eq rfl ?_
    rw [hin]
    simp only [goto]
    split
    · rfl
    · split
      · exact inHand_noRecord call
      · rfl

/-- A step of a session that has started adds its event to the log. -/
theorem Logged.step (h : s.Logged cfg v events) (hlast : s.HoldsLast) (hne : s.phase ≠ .connecting) {a : SessionAction}
    (hs : s.step cfg a = some t) : t.Logged cfg v (events ++ (s.event a).toList) := by
  -- most steps have no event, and handle nothing
  have hquiet (hevent : s.event a = none) (hfindings : t.findings = s.findings) (hhandled : t.handled = s.handled)
      (hprocessed : t.processed = s.processed) (hdropped : t.dropped = s.dropped) :
      t.Logged cfg v (events ++ (s.event a).toList) := by
    rw [hevent, Option.toList_none, List.append_nil]
    exact h.quiet hfindings hhandled hprocessed hdropped
  cases StepSpec.of_step hs with
  | producer | finish | exit | setPaused | requestStop => exact hquiet rfl rfl rfl rfl rfl
  | claim hphase _ | loadTail hphase _ | start hphase _ => exact absurd hphase hne
  | loop hphase =>
    refine hquiet (by simp [event, hphase]) rfl (handled_eq rfl ?_) rfl rfl
    rw [hphase]
    simp only [goto]
    split <;> rfl
  | readPause hphase =>
    have hhandled : (s.doReadPause cfg).handled = s.handled := handled_readPause hphase
    by_cases hresume : s.paused ≠ s.wasPaused ∧ s.paused = false
    · have hevent : s.event .advance = some .resume := by
        simp only [event, hphase]
        rw [if_pos hresume]
      rw [hevent]
      refine h.note .resume ?_ (hhandled.trans (List.append_nil _).symm) (List.append_nil _).symm
        (List.append_nil _).symm
      simp only [SessionState.findings, doReadPause, Findings.apply]
      rw [if_pos hresume]
    · refine hquiet ?_ ?_ hhandled rfl rfl
      · simp only [event, hphase]
        rw [if_neg hresume]
      · simp only [SessionState.findings, doReadPause]
        rw [if_neg hresume]
  | waitPaused hphase _ _ | discardPaused hphase _ | release hphase _ | loadPid hphase | ending hphase _ =>
    exact hquiet (by simp [event, hphase]) rfl (handled_eq rfl (by rw [hphase]; rfl)) rfl rfl
  | wait hphase =>
    refine hquiet (by simp [event, hphase]) rfl (handled_eq rfl ?_) rfl rfl
    rw [hphase]
    simp only [goto]
    split
    · exact inHand_noRecord _
    · rfl
  | drop hphase hsp =>
    rename_i sp
    have hevent : s.event .advance = some (.drop (s.ring.readSpan sp)) := by simp [event, hphase, hsp]
    rw [hevent]
    exact h.note _ rfl (hlast (by rw [hphase]; rfl) sp hsp) (List.append_nil _).symm rfl
  | tryPeek hphase hring =>
    rename_i load call retry ring
    have hkeep : (afterPeek cfg call retry { s with ring := ring }).findings = s.findings ∧
        (afterPeek cfg call retry { s with ring := ring }).processed = s.processed ∧
        (afterPeek cfg call retry { s with ring := ring }).dropped = s.dropped := by
      unfold afterPeek
      split <;> exact ⟨rfl, rfl, rfl⟩
    exact hquiet rfl hkeep.1 (handled_afterPeek hphase ring) hkeep.2.1 hkeep.2.2
  | checkDeadline hphase =>
    refine hquiet rfl rfl (handled_eq rfl ?_) rfl rfl
    rw [hphase]
    simp only [goto]
    split
    · exact inHand_noRecord _
    · rfl
  | process hphase hsp =>
    rename_i nowNs call sp
    have hevent : s.event (.process nowNs) = some (.process (s.ring.readSpan sp) nowNs) := by simp [event, hsp]
    rw [hevent]
    refine h.note _ rfl ?_ rfl (List.append_nil _).symm
    rw [handled_process]
    exact hlast (by rw [hphase]; rfl) sp hsp
  | sawFinished hphase _ _ | sawReady hphase | peerGone hphase _ _ | noReport hphase =>
    exact hquiet rfl rfl (handled_eq rfl (by rw [hphase]; rfl)) rfl rfl
  | peerAlive hphase _ =>
    refine hquiet rfl rfl (handled_eq rfl ?_) rfl rfl
    rw [hphase]
    simp only [goto]
    split <;> rfl
  | report hphase _ =>
    refine h.note .takeInterval rfl ?_ (List.append_nil _).symm (List.append_nil _).symm
    rw [show SessionEvent.takeInterval.handled.toList = [] from rfl, List.append_nil]
    exact handled_eq rfl (by rw [hphase]; rfl)

end SessionState

/-! ### What the totals say -/

namespace Findings

variable {cfg : SessionSetup}

/-- The packets that a replay records, with their verdicts. -/
def recorded (cfg : SessionSetup) (f : Findings) : List SessionEvent → List Recorded
  | [] => []
  | .process record nowNs :: events =>
    (.of f.validator record nowNs, BitVec.ofNat 64 record.length) ::
      (f.apply cfg (.process record nowNs)).recorded cfg events
  | e :: events => (f.apply cfg e).recorded cfg events

/-- The findings after these packets and drops. -/
structure Account (cfg : SessionSetup) (f : Findings) (packets : List Recorded) (drops : List (List U8)) : Prop where
  totals : TotalsOf f.stats.totals packets
  dropped : f.stats.totals.dropped = BitVec.ofNat 64 drops.length
  droppedBytes : f.stats.totals.droppedBytes = BitVec.ofNat 64 (drops.map List.length).sum
  defectLogs : f.defectLogs = min cfg.maxDefectLogs (packets.countP fun p => !p.1.result.clean)

theorem Account.start (cfg : SessionSetup) (v : PacketValidator) : (Findings.start v).Account cfg [] [] :=
  ⟨⟨rfl, rfl, rfl, rfl, rfl, rfl, rfl⟩, rfl, rfl, (Nat.min_zero _).symm⟩

variable {f : Findings} {packets : List Recorded} {drops : List (List U8)}

/-- A defect is logged as long as the limit is not reached. -/
theorem defectLogs_next {logs limit n : Nat} (h : logs = min limit n) (clean : Bool) :
    (if !clean && logs < limit then logs + 1 else logs) = min limit (n + if !clean then 1 else 0) := by
  cases clean with
  | true => simpa using h
  | false =>
    simp only [Bool.not_false, Bool.true_and, decide_eq_true_eq, if_true]
    split <;> omega

theorem Account.process (h : f.Account cfg packets drops) (record : List U8) (nowNs : Int) :
    (f.apply cfg (.process record nowNs)).Account cfg
      (packets ++ [(.of f.validator record nowNs, BitVec.ofNat 64 record.length)]) drops := by
  obtain ⟨-, -, hdropped, hdroppedBytes⟩ :=
    f.stats.record_totals (f.validator.validate record nowNs).1 (BitVec.ofNat 64 record.length)
  refine ⟨h.totals.record (.of f.validator record nowNs) _, hdropped.trans h.dropped,
    hdroppedBytes.trans h.droppedBytes, ?_⟩
  rw [List.countP_append, List.countP_singleton]
  exact defectLogs_next h.defectLogs _

theorem Account.drop (h : f.Account cfg packets drops) (record : List U8) :
    (f.apply cfg (.drop record)).Account cfg packets (drops ++ [record]) := by
  have htotals := h.totals
  refine ⟨⟨htotals.received, htotals.bytes, htotals.valid, htotals.corrupted, htotals.sequenceGaps,
    htotals.sequenceRewinds, htotals.timestampAnomalies⟩, ?_, ?_, h.defectLogs⟩
  · rw [ofNat_length_append, ← h.dropped]
    rfl
  · rw [ofNat_bytes_append, ← h.droppedBytes]
    rfl

/-- A replay accounts for the packets that it records and for its drops. -/
theorem Account.applyAll (h : f.Account cfg packets drops) (events : List SessionEvent) :
    (f.applyAll cfg events).Account cfg (packets ++ f.recorded cfg events)
      (drops ++ events.filterMap SessionEvent.dropped) := by
  induction events generalizing f packets drops with
  | nil => simpa [Findings.applyAll, recorded] using h
  | cons e events ih =>
    cases e with
    | process record nowNs =>
      have hrest := ih (h.process record nowNs)
      rw [List.append_assoc] at hrest
      exact hrest
    | drop record =>
      have hrest := ih (h.drop record)
      rw [List.append_assoc] at hrest
      exact hrest
    | resume => exact ih ⟨h.totals, h.dropped, h.droppedBytes, h.defectLogs⟩
    | takeInterval => exact ih ⟨h.totals, h.dropped, h.droppedBytes, h.defectLogs⟩

/-- The recorded packets are the processed records, and as corrupted as these are. -/
theorem recorded_processed (f : Findings) (events : List SessionEvent) :
    (f.recorded cfg events).map (fun p => (p.1.result.corrupted, p.2)) =
      (events.filterMap SessionEvent.processed).map fun r => (!uncorrupted r, BitVec.ofNat 64 r.length) := by
  induction events generalizing f with
  | nil => rfl
  | cons e events ih =>
    cases e with
    | process record nowNs =>
      have hcorrupted := PacketValidator.corrupted_eq f.validator record nowNs
      simp only [recorded, SessionEvent.processed, List.filterMap_cons, List.map_cons, Verdict.of, hcorrupted, ih]
    | drop record => exact ih _
    | resume => exact ih _
    | takeInterval => exact ih _

/-- Every handled record was processed or dropped. -/
theorem handled_perm (events : List SessionEvent) :
    (events.filterMap SessionEvent.processed ++ events.filterMap SessionEvent.dropped).Perm
      (events.filterMap SessionEvent.handled) := by
  induction events with
  | nil => exact List.Perm.refl _
  | cons e events ih =>
    cases e with
    | process record nowNs => exact ih.cons record
    | drop record => exact List.perm_middle.trans (ih.cons record)
    | resume => exact ih
    | takeInterval => exact ih

theorem ofNat_sum_toNat (ns : List Nat) :
    BitVec.ofNat 64 (ns.map fun n => (BitVec.ofNat 64 n).toNat).sum = BitVec.ofNat 64 ns.sum := by
  induction ns with
  | nil => rfl
  | cons n ns ih => rw [List.map_cons, List.sum_cons, List.sum_cons, BitVec.ofNat_add, BitVec.ofNat_add, ih,
      BitVec.ofNat_toNat, BitVec.setWidth_eq]

/-- What an account says in terms of the records. -/
theorem Account.counts {g : Findings} {events : List SessionEvent}
    (h : g.Account cfg (f.recorded cfg events) (events.filterMap SessionEvent.dropped)) :
    Counts g.stats.totals (events.filterMap SessionEvent.processed) (events.filterMap SessionEvent.dropped) ∧
      g.stats.totals.corrupted =
        BitVec.ofNat 64 ((events.filterMap SessionEvent.processed).countP fun r => !uncorrupted r) := by
  have hrecorded := @recorded_processed cfg f events
  generalize events.filterMap SessionEvent.processed = records at hrecorded ⊢
  generalize f.recorded cfg events = packets at h hrecorded
  have hlength : packets.length = records.length := by simpa using congrArg List.length hrecorded
  have hbytes : packets.map (fun p => p.2.toNat) = (records.map List.length).map fun n => (BitVec.ofNat 64 n).toNat := by
    simpa [List.map_map, Function.comp_def] using congrArg (List.map fun q : Bool × U64 => q.2.toNat) hrecorded
  have hcorrupted : packets.countP (fun p => p.1.result.corrupted) = records.countP fun r => !uncorrupted r := by
    simpa [List.countP_map, Function.comp_def] using congrArg (List.countP fun q : Bool × U64 => q.1) hrecorded
  refine ⟨⟨?_, ?_, h.dropped, h.droppedBytes⟩, ?_⟩
  · rw [h.totals.received, hlength]
  · rw [h.totals.bytes, totalBytes, hbytes, ofNat_sum_toNat]
  · rw [h.totals.corrupted, hcorrupted]

end Findings

end ProducerConsumer
