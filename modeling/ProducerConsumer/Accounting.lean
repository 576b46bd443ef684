import ProducerConsumer.Session

/-!
# What a session has handled

Every record returned to the session is processed or dropped before the next one is received, and counted once
(`Counts`).  A session that ends without a stop request has handled exactly what the producer committed
(`end_of_stream`).  When the committed records are sealed packets with the sequence numbers `0, 1, ...`, no pause makes
the validator report one of them as corrupted, missing or rewound (`Regular`).
-/

namespace ProducerConsumer

open Transition

/-! ### The steps of a session -/

/-- A record was returned and is neither processed nor dropped yet. -/
def SessionPhase.inHand : SessionPhase → Bool
  | .drop | .process _ => true
  | _ => false

/-- The value of `was_paused` in a call of `receive`; only the discarding policy receives while paused. -/
def ReceiveCall.Mode (cfg : SessionSetup) (wasPaused : Bool) : ReceiveCall → Prop
  | .paused => wasPaused = true ∧ cfg.policy = .Discarding
  | _ => wasPaused = false

def SessionPhase.Mode (cfg : SessionSetup) (wasPaused : Bool) : SessionPhase → Prop
  | .whilePaused => wasPaused = true
  | .release call | .peek call _ | .wait call | .expire call => call.Mode cfg wasPaused
  | .drop => ReceiveCall.paused.Mode cfg wasPaused
  | .process _ | .loadPid | .loadState _ | .checkAlive _ _ => wasPaused = false
  | _ => True

/-- A change of the phase in which nothing is returned or handled. -/
structure SessionPhase.Follows (cfg : SessionSetup) (p q : SessionPhase) : Prop where
  started : q ≠ .connecting → p ≠ .connecting
  inHand : q.inHand = p.inHand
  mode : ∀ wasPaused, p.Mode cfg wasPaused → q.Mode cfg wasPaused

namespace SessionState

variable {cfg : SessionSetup} {s t : SessionState}

/-- The records that were processed or dropped. -/
def handled (s : SessionState) : List (List U8) := if s.phase.inHand then s.returned.dropLast else s.returned

/-- What most steps leave as it is. -/
structure Keeps (s t : SessionState) : Prop where
  committed : s.ring.committed <+: t.ring.committed
  totals : t.stats.totals = s.stats.totals
  validator : t.validator = s.validator
  wasPaused : t.wasPaused = s.wasPaused
  processed : t.processed = s.processed
  dropped : t.dropped = s.dropped

/-- What a step does with the records: the start of the session, a change of `was_paused`, the return of a record, its
processing or dropping, or nothing of these. -/
inductive StepEffect (cfg : SessionSetup) (s : SessionState) : SessionState → Prop
  | quiet {t : SessionState} :
      s.Keeps t → t.returned = s.returned → s.phase.Follows cfg t.phase → StepEffect cfg s t
  | start (ring : SharedRing) :
      s.ring.committed <+: ring.committed → s.phase = .connecting → StepEffect cfg s (doStart { s with ring := ring })
  | readPause : s.phase = .readPause → StepEffect cfg s (s.doReadPause cfg)
  | receive {t : SessionState} (record : List U8) :
      s.Keeps t → t.returned = s.returned ++ [record] → s.phase ≠ .connecting → s.phase.inHand = false →
        t.phase.inHand = true → (∀ wasPaused, s.phase.Mode cfg wasPaused → t.phase.Mode cfg wasPaused) →
        StepEffect cfg s t
  | drop (sp : Span) : s.phase = .drop → s.ring.view = some sp → StepEffect cfg s (s.doDrop sp)
  | process (call : ReceiveCall) (sp : Span) (nowNs : Int) :
      s.phase = .process call → s.ring.view = some sp → StepEffect cfg s (s.doProcess cfg call sp nowNs)

theorem Keeps.phase (s : SessionState) (phase : SessionPhase) : s.Keeps (s.goto phase) :=
  ⟨List.prefix_refl _, rfl, rfl, rfl, rfl, rfl⟩

theorem Keeps.onRing {a : RingAction} {ring : SharedRing} (h : s.ring.step cfg.cap a = some ring) {returned : List (List U8)}
    {phase : SessionPhase} : s.Keeps { s with ring := ring, returned := returned, phase := phase } :=
  ⟨SharedRing.committed_grows h, rfl, rfl, rfl, rfl, rfl⟩

/-- `receive` returns nothing. -/
theorem follows_noRecord {p : SessionPhase} (call : ReceiveCall) (hstarted : p ≠ .connecting) (hin : p.inHand = false)
    (hmode : ∀ wasPaused, p.Mode cfg wasPaused → call.Mode cfg wasPaused) : p.Follows cfg (noRecord call) := by
  cases call with
  | paused => exact ⟨fun _ => hstarted, hin.symm, fun _ _ => trivial⟩
  | next => exact ⟨fun _ => hstarted, hin.symm, hmode⟩
  | last => exact ⟨fun _ => hstarted, hin.symm, fun _ _ => trivial⟩

/-- A step that does not change the phase. -/
theorem StepEffect.other (h : s.Keeps t) (hreturned : t.returned = s.returned) (hphase : t.phase = s.phase) :
    StepEffect cfg s t :=
  .quiet h hreturned (by rw [hphase]; exact ⟨id, rfl, fun _ => id⟩)

theorem StepEffect.goto {p q : SessionPhase} (hphase : s.phase = p) (h : p.Follows cfg q) :
    StepEffect cfg s (s.goto q) := by
  subst hphase
  exact .quiet (.phase s q) rfl h

theorem StepEffect.onRing {p q : SessionPhase} (hphase : s.phase = p) {a : RingAction} {ring : SharedRing}
    (hring : s.ring.step cfg.cap a = some ring) (h : p.Follows cfg q) :
    StepEffect cfg s ({ s with ring := ring }.goto q) := by
  subst hphase
  exact .quiet (.onRing hring) rfl h

theorem StepEffect.afterPeek {call : ReceiveCall} {retry : Bool} (hphase : s.phase = .peek call retry) {load : Nat}
    {ring : SharedRing} (hring : s.ring.step cfg.cap (.tryPeek load) = some ring) :
    StepEffect cfg s (afterPeek cfg call retry { s with ring := ring }) := by
  have hstarted : s.phase ≠ .connecting := by simp [hphase]
  have hin : s.phase.inHand = false := by rw [hphase]; rfl
  have hmode (wasPaused : Bool) (h : s.phase.Mode cfg wasPaused) : call.Mode cfg wasPaused := by rwa [hphase] at h
  unfold SessionState.afterPeek
  cases hsp : ring.view with
  | some sp =>
    refine .receive (ring.readSpan sp) (.onRing hring) rfl hstarted hin ?_ ?_
    · cases call <;> rfl
    · cases call <;> exact hmode
  | none =>
    refine .quiet (.onRing hring) rfl ?_
    simp only [SessionState.goto]
    split
    · exact ⟨fun _ => hstarted, hin.symm, hmode⟩
    · split
      · exact follows_noRecord call hstarted hin hmode
      · exact ⟨fun _ => hstarted, hin.symm, hmode⟩

/-- Every step has one of these effects. -/
theorem StepEffect.of_step {a : SessionAction} (hs : s.step cfg a = some t) : StepEffect cfg s t := by
  cases StepSpec.of_step hs with
  | producer _ _ hring => exact .other (.onRing hring) rfl rfl
  | finish _ => exact .other ⟨List.prefix_refl _, rfl, rfl, rfl, rfl, rfl⟩ rfl rfl
  | exit => exact .other ⟨List.prefix_refl _, rfl, rfl, rfl, rfl, rfl⟩ rfl rfl
  | setPaused => exact .other ⟨List.prefix_refl _, rfl, rfl, rfl, rfl, rfl⟩ rfl rfl
  | requestStop => exact .other ⟨List.prefix_refl _, rfl, rfl, rfl, rfl, rfl⟩ rfl rfl
  | claim _ hring => exact .other (.onRing hring) rfl rfl
  | loadTail _ hring => exact .other (.onRing hring) rfl rfl
  | start hphase hring => exact .start _ (SharedRing.committed_grows hring) hphase
  | loop hphase =>
    refine .goto hphase ?_
    split <;> exact ⟨fun _ => by simp, rfl, fun _ _ => trivial⟩
  | readPause hphase => exact .readPause hphase
  | waitPaused hphase _ hring => exact .onRing hphase hring ⟨fun _ => by simp, rfl, fun _ _ => trivial⟩
  | discardPaused hphase hpolicy => exact .goto hphase ⟨fun _ => by simp, rfl, fun _ hmode => ⟨hmode, hpolicy⟩⟩
  | release hphase hring => exact .onRing hphase hring ⟨fun _ => by simp, rfl, fun _ hmode => hmode⟩
  | wait hphase =>
    refine .goto hphase ?_
    split
    · exact follows_noRecord _ (by simp) rfl fun _ hmode => hmode
    · exact ⟨fun _ => by simp, rfl, fun _ hmode => hmode⟩
  | drop hphase hsp => exact .drop _ hphase hsp
  | loadPid hphase => exact .goto hphase ⟨fun _ => by simp, rfl, fun _ hmode => hmode⟩
  | ending hphase hring => exact .onRing hphase hring ⟨fun _ => by simp, rfl, fun _ _ => trivial⟩
  | tryPeek hphase hring => exact .afterPeek hphase hring
  | checkDeadline hphase =>
    refine .goto hphase ?_
    split
    · exact follows_noRecord _ (by simp) rfl fun _ hmode => hmode
    · exact ⟨fun _ => by simp, rfl, fun _ hmode => hmode⟩
  | process hphase hsp => exact .process _ _ _ hphase hsp
  | sawFinished hphase _ hring => exact .onRing hphase hring ⟨fun _ => by simp, rfl, fun _ hmode => hmode⟩
  | sawReady hphase => exact .goto hphase ⟨fun _ => by simp, rfl, fun _ hmode => hmode⟩
  | peerAlive hphase _ =>
    refine .goto hphase ?_
    split
    · exact ⟨fun _ => by simp, rfl, fun _ hmode => hmode⟩
    · exact ⟨fun _ => by simp, rfl, fun _ _ => trivial⟩
  | peerGone hphase _ hring => exact .onRing hphase hring ⟨fun _ => by simp, rfl, fun _ hmode => hmode⟩
  | noReport hphase => exact .goto hphase ⟨fun _ => by simp, rfl, fun _ _ => trivial⟩
  | report hphase hring =>
    refine .quiet ⟨SharedRing.committed_grows hring, rfl, rfl, rfl, rfl, rfl⟩ rfl ?_
    rw [hphase]
    exact ⟨fun _ => by simp, rfl, fun _ _ => trivial⟩

end SessionState

/-! ### Counting -/

/-- The totals count each of these records once. -/
structure Counts (totals : ConsumerTotals) (processed discarded : List (List U8)) : Prop where
  received : totals.received = BitVec.ofNat 64 processed.length
  bytes : totals.bytes = BitVec.ofNat 64 (processed.map List.length).sum
  dropped : totals.dropped = BitVec.ofNat 64 discarded.length
  droppedBytes : totals.droppedBytes = BitVec.ofNat 64 (discarded.map List.length).sum

theorem ofNat_length_append (recs : List (List U8)) (r : List U8) :
    BitVec.ofNat 64 (recs ++ [r]).length = BitVec.ofNat 64 recs.length + 1 := by
  rw [List.length_append, BitVec.ofNat_add]
  rfl

theorem ofNat_bytes_append (recs : List (List U8)) (r : List U8) :
    BitVec.ofNat 64 ((recs ++ [r]).map List.length).sum =
      BitVec.ofNat 64 (recs.map List.length).sum + BitVec.ofNat 64 r.length := by
  rw [List.map_append, List.sum_append, BitVec.ofNat_add]
  simp

namespace Counts

variable {stats : ConsumerStats} {processed discarded : List (List U8)}

theorem nil : Counts {} [] [] := ⟨rfl, rfl, rfl, rfl⟩

theorem record (h : Counts stats.totals processed discarded) (result : ValidationResult) (r : List U8) :
    Counts (stats.record result (BitVec.ofNat 64 r.length)).totals (processed ++ [r]) discarded := by
  obtain ⟨hreceived, hbytes, hdropped, hdroppedBytes⟩ := stats.record_totals result (BitVec.ofNat 64 r.length)
  refine ⟨?_, ?_, hdropped.trans h.dropped, hdroppedBytes.trans h.droppedBytes⟩
  · rw [hreceived, ofNat_length_append, h.received]
  · rw [hbytes, ofNat_bytes_append, h.bytes]

theorem recordDropped (h : Counts stats.totals processed discarded) (r : List U8) :
    Counts (stats.recordDropped (BitVec.ofNat 64 r.length)).totals processed (discarded ++ [r]) := by
  refine ⟨h.received, h.bytes, ?_, ?_⟩
  · rw [ofNat_length_append, ← h.dropped]
    rfl
  · rw [ofNat_bytes_append, ← h.droppedBytes]
    rfl

end Counts

namespace SessionState

variable {cfg : SessionSetup} {s t : SessionState}

/-- What is known of the handled records: each was processed or dropped, and counted once the session has started. -/
structure Tally (cfg : SessionSetup) (s : SessionState) : Prop where
  mode : s.phase.Mode cfg s.wasPaused
  split : (s.processed ++ s.dropped).Perm s.handled
  blocking : cfg.policy = .Blocking → s.dropped = []
  counts : s.phase ≠ .connecting → Counts s.stats.totals s.processed s.dropped

/-- The record in hand is the last one returned. -/
theorem Inv.hand (h : s.Inv cfg) (hin : s.phase.inHand = true) {sp : Span} (hsp : s.ring.view = some sp) :
    s.returned = s.handled ++ [s.ring.readSpan sp] ∧ s.handled = s.ring.released := by
  have hreturned := h.returned
  rw [hsp, Option.map_some, Option.toList_some] at hreturned
  have hhandled : s.handled = s.ring.released := by
    rw [handled, if_pos hin, hreturned, List.dropLast_concat]
  rw [hhandled]
  exact ⟨hreturned, rfl⟩

theorem handled_readPause (hphase : s.phase = .readPause) : (s.doReadPause cfg).handled = s.handled := by
  have hin : (s.doReadPause cfg).phase.inHand = s.phase.inHand := by
    rw [hphase]
    unfold doReadPause
    dsimp only
    split <;> rfl
  rw [handled, hin]
  rfl

theorem handled_process (call : ReceiveCall) (sp : Span) (nowNs : Int) :
    (s.doProcess cfg call sp nowNs).handled = s.returned := by
  have hin : (s.doProcess cfg call sp nowNs).phase.inHand = false := by
    unfold doProcess
    dsimp only
    split <;> rfl
  rw [handled, hin]
  rfl

/-- A returned record is not handled yet. -/
theorem handled_receive {record : List U8} (hreturned : t.returned = s.returned ++ [record])
    (hin : s.phase.inHand = false) (hin' : t.phase.inHand = true) : t.handled = s.handled := by
  rw [handled, if_pos hin', hreturned, List.dropLast_concat, handled, hin]
  rfl

theorem handled_quiet (hreturned : t.returned = s.returned) (hf : s.phase.Follows cfg t.phase) :
    t.handled = s.handled := by
  rw [handled, hf.inHand, hreturned, handled]

theorem Tally.init (h : s.Initial cfg) : s.Tally cfg := by
  obtain ⟨-, -, -, hphase, hreturned, hprocessed, hdropped⟩ := h
  refine ⟨?_, ?_, fun _ => hdropped, fun hne => absurd hphase hne⟩
  · rw [hphase]
    trivial
  · rw [hprocessed, hdropped, handled, hphase, hreturned]
    exact List.Perm.refl _

theorem Tally.keeps (h : s.Tally cfg) (hk : s.Keeps t) (hmode : t.phase.Mode cfg s.wasPaused)
    (hhandled : t.handled = s.handled) (hstarted : t.phase ≠ .connecting → s.phase ≠ .connecting) : t.Tally cfg := by
  refine ⟨?_, ?_, ?_, ?_⟩
  · rw [hk.wasPaused]
    exact hmode
  · rw [hk.processed, hk.dropped, hhandled]
    exact h.split
  · rw [hk.dropped]
    exact h.blocking
  · rw [hk.totals, hk.processed, hk.dropped]
    exact fun hne => h.counts (hstarted hne)

theorem Tally.step (h : s.Tally cfg) (hi : s.Inv cfg) (he : StepEffect cfg s t) : t.Tally cfg := by
  cases he with
  | quiet hk hreturned hf => exact h.keeps hk (hf.mode _ h.mode) (handled_quiet hreturned hf) hf.started
  | start ring hcommitted hphase =>
    have hreturned := hi.returned
    have hok := hi.phase
    rw [hphase] at hok
    rw [hok.1, hok.2] at hreturned
    have hsplit := h.split
    rw [handled, hphase, hreturned] at hsplit
    obtain ⟨hprocessed, hdropped⟩ := List.append_eq_nil_iff.1 hsplit.eq_nil
    have hcounts : Counts {} s.processed s.dropped := by
      rw [hprocessed, hdropped]
      exact Counts.nil
    refine ⟨trivial, ?_, h.blocking, fun _ => hcounts⟩
    rw [show (doStart { s with ring := ring }).handled = s.returned from rfl, hreturned]
    exact hsplit
  | readPause hphase =>
    refine ⟨?_, ?_, h.blocking, fun _ => h.counts (by simp [hphase])⟩
    · cases hp : s.paused <;> simp only [doReadPause, hp] <;> rfl
    · rw [handled_readPause hphase]
      exact h.split
  | receive record hk hreturned hstarted hin hin' hmode =>
    exact h.keeps hk (hmode _ h.mode) (handled_receive hreturned hin hin') fun _ => hstarted
  | drop sp hphase hsp =>
    obtain ⟨hreturned, -⟩ := hi.hand (by rw [hphase]; rfl) hsp
    have hmode := h.mode
    rw [hphase] at hmode
    refine ⟨trivial, ?_, fun hb => ?_, fun _ => (h.counts (by simp [hphase])).recordDropped _⟩
    · rw [show (s.doDrop sp).handled = s.returned from rfl, hreturned]
      rw [show (s.doDrop sp).processed ++ (s.doDrop sp).dropped = (s.processed ++ s.dropped) ++ [s.ring.readSpan sp] from
        (List.append_assoc _ _ _).symm]
      exact h.split.append_right _
    · rw [hmode.2] at hb
      cases hb
  | process call sp nowNs hphase hsp =>
    obtain ⟨hreturned, -⟩ := hi.hand (by rw [hphase]; rfl) hsp
    refine ⟨?_, ?_, h.blocking, fun _ => (h.counts (by simp [hphase])).record _ _⟩
    · unfold doProcess
      dsimp only
      split <;> trivial
    · rw [handled_process, hreturned]
      -- the processed record stands before the dropped ones, but last among the returned ones
      have hperm : (s.processed ++ [s.ring.readSpan sp] ++ s.dropped).Perm
          (s.processed ++ s.dropped ++ [s.ring.readSpan sp]) := by
        rw [List.append_assoc, List.append_assoc]
        exact List.perm_append_comm.append_left _
      exact hperm.trans (h.split.append_right _)

theorem Tally.of_reachable (h : (sessionMachine cfg).Reachable s) : s.Tally cfg := by
  have hboth : s.Inv cfg ∧ s.Tally cfg := by
    refine Machine.Reachable.invariant (I := fun s => SessionState.Inv cfg s ∧ s.Tally cfg)
      (fun _ hs => ⟨Inv.init hs, Tally.init hs⟩) ?_ h
    rintro s a t ⟨hi, ht⟩ hs
    exact ⟨hi.step hs, ht.step hi (.of_step hs)⟩
  exact hboth.2

end SessionState

/-! ### A stream without defects -/

/-- Packets that every validator trusts, with the sequence numbers `0, 1, ...`. -/
def Numbered (recs : List (List U8)) : Prop :=
  ∀ i r, recs[i]? = some r → (∀ v : PacketValidator, v.Trusted r) ∧ (readHeader r).sequence = BitVec.ofNat 64 i

theorem Numbered.of_prefix {recs recs' : List (List U8)} (h : Numbered recs') (hp : recs <+: recs') : Numbered recs := by
  obtain ⟨rest, rfl⟩ := hp
  intro i r hr
  obtain ⟨hlt, -⟩ := List.getElem?_eq_some_iff.1 hr
  exact h i r (by rw [List.getElem?_append_left hlt, hr])

namespace SessionState

variable {cfg : SessionSetup} {s t : SessionState}

/-- Nothing was found wrong with the sequence, and the baseline, where it may be used, is that of the next record.
While the discarding policy drops records the baseline is behind; `on_resume` takes it back. -/
structure Regular (cfg : SessionSetup) (s : SessionState) : Prop where
  corrupted : s.stats.totals.corrupted = 0
  sequenceGaps : s.stats.totals.sequenceGaps = 0
  missing : s.stats.totals.missing = 0
  sequenceRewinds : s.stats.totals.sequenceRewinds = 0
  baseline : cfg.policy = .Blocking ∨ s.wasPaused = false → s.validator.hasBaseline = true →
    s.validator.expectedSequence = BitVec.ofNat 64 s.handled.length

theorem Regular.keeps (h : s.Regular cfg) (hk : s.Keeps t) (hhandled : t.handled = s.handled) : t.Regular cfg := by
  refine ⟨?_, ?_, ?_, ?_, ?_⟩
  · rw [hk.totals, h.corrupted]
  · rw [hk.totals, h.sequenceGaps]
  · rw [hk.totals, h.missing]
  · rw [hk.totals, h.sequenceRewinds]
  · rw [hk.wasPaused, hk.validator, hhandled]
    exact h.baseline

theorem Regular.readPause (h : s.Regular cfg) (hphase : s.phase = .readPause) : (s.doReadPause cfg).Regular cfg := by
  refine ⟨h.corrupted, h.sequenceGaps, h.missing, h.sequenceRewinds, ?_⟩
  rw [handled_readPause hphase]
  have hbase := h.baseline
  simp only [doReadPause]
  intro hpolicy
  cases hpol : cfg.policy with
  | Blocking =>
    simp only [PausePolicy.onResume, ite_self]
    exact hbase (.inl hpol)
  | Discarding =>
    have hp : s.paused = false := hpolicy.resolve_left (by simp [hpol])
    split
    · intro hb
      cases hb
    -- not paused before either, so the baseline was in use
    · rename_i hsame
      have hw : s.wasPaused = false := by
        by_contra hne
        exact hsame ⟨by rw [hp]; exact fun h => hne h.symm, hp⟩
      exact hbase (.inr hw)

/-- A packet with the expected number that is processed counts as regular. -/
theorem Regular.process (h : s.Regular cfg) (hi : s.Inv cfg) (hnum : Numbered s.ring.committed)
    {call : ReceiveCall} (hphase : s.phase = .process call) (hpaused : s.wasPaused = false) {sp : Span}
    (hsp : s.ring.view = some sp) (nowNs : Int) : (s.doProcess cfg call sp nowNs).Regular cfg := by
  obtain ⟨hreturned, hhandled⟩ := hi.hand (by rw [hphase]; rfl) hsp
  obtain ⟨htrusted, hseq⟩ := hnum _ _ (hi.ringInv.view_read hsp).1
  rw [← hhandled] at hseq
  obtain ⟨hcorrupted, hgap, hrewind, hexpected⟩ := PacketValidator.validate_of_regular nowNs
    (htrusted s.validator) fun hb => by rw [hseq]; exact h.baseline (.inr hpaused) hb
  obtain ⟨h1, h2, h3, h4⟩ := s.stats.record_totals_of_regular (s.recordBytes sp) hcorrupted hgap hrewind
  refine ⟨h1.trans h.corrupted, h2.trans h.sequenceGaps, h3.trans h.missing, h4.trans h.sequenceRewinds, fun _ _ => ?_⟩
  rw [handled_process, hreturned, ofNat_length_append, ← hseq]
  exact hexpected

theorem Regular.step (h : s.phase ≠ .connecting → Numbered s.ring.committed → s.Regular cfg) (hi : s.Inv cfg)
    (hmode : s.phase.Mode cfg s.wasPaused) (he : StepEffect cfg s t) (hne : t.phase ≠ .connecting)
    (hnum : Numbered t.ring.committed) : t.Regular cfg := by
  cases he with
  | quiet hk hreturned hf =>
    exact (h (hf.started hne) (hnum.of_prefix hk.committed)).keeps hk (handled_quiet hreturned hf)
  | start ring hcommitted hphase => exact ⟨rfl, rfl, rfl, rfl, fun _ hb => by cases hb⟩
  | readPause hphase => exact (h (by simp [hphase]) hnum).readPause hphase
  | receive record hk hreturned hstarted hin hin' _ =>
    exact (h hstarted (hnum.of_prefix hk.committed)).keeps hk (handled_receive hreturned hin hin')
  | drop sp hphase hsp =>
    have hs := h (by simp [hphase]) hnum
    rw [hphase] at hmode
    refine ⟨hs.corrupted, hs.sequenceGaps, hs.missing, hs.sequenceRewinds, ?_⟩
    rintro (hpolicy | hpaused)
    · rw [hmode.2] at hpolicy
      cases hpolicy
    · rw [show (s.doDrop sp).wasPaused = s.wasPaused from rfl, hmode.1] at hpaused
      cases hpaused
  | process call sp nowNs hphase hsp =>
    rw [hphase] at hmode
    exact (h (by simp [hphase]) hnum).process hi hnum hphase hmode hsp nowNs

theorem Regular.of_reachable (h : (sessionMachine cfg).Reachable s) (hne : s.phase ≠ .connecting)
    (hnum : Numbered s.ring.committed) : s.Regular cfg := by
  have hall : s.Inv cfg ∧ s.Tally cfg ∧ (s.phase ≠ .connecting → Numbered s.ring.committed → s.Regular cfg) := by
    refine Machine.Reachable.invariant
      (I := fun s => SessionState.Inv cfg s ∧ s.Tally cfg ∧
        (s.phase ≠ .connecting → Numbered s.ring.committed → s.Regular cfg)) ?_ ?_ h
    · exact fun s hs => ⟨Inv.init hs, Tally.init hs, fun hne => absurd hs.2.2.2.1 hne⟩
    · rintro s a t ⟨hi, ht, hr⟩ hs
      exact ⟨hi.step hs, ht.step hi (.of_step hs), Regular.step hr hi ht.mode (.of_step hs)⟩
  exact hall.2.2 hne hnum

end SessionState

/-! ### The end of the stream -/

/-- A session that ends by itself has been returned all committed records, and has handled them. -/
theorem SessionState.all_handled {cfg : SessionSetup} {s : SessionState} (h : (sessionMachine cfg).Reachable s)
    (hphase : s.phase = .done true) :
    s.returned = s.ring.committed ∧ (s.processed ++ s.dropped).Perm s.ring.committed := by
  have hi := SessionState.Inv.of_reachable h
  have hsplit := (SessionState.Tally.of_reachable h).split
  have hreturned := hi.returned
  have hok := hi.phase
  rw [hphase] at hok
  obtain ⟨-, hview, hlen⟩ := hok
  rw [hview, Option.map_none, Option.toList_none, List.append_nil,
    (SharedRing.released_prefix hi.ring).eq_of_length hlen] at hreturned
  rw [SessionState.handled, hphase, hreturned] at hsplit
  exact ⟨hreturned, hsplit⟩

/-- A session loses nothing at the end of the stream: the returned records are always an initial part of the committed
ones, and a session that ends by itself, or without a stop request, has been returned all of them and has processed or
dropped each once. -/
theorem end_of_stream (cfg : SessionSetup) {s : SessionState} (h : (sessionMachine cfg).Reachable s) :
    s.returned <+: s.ring.committed ∧
    ∀ drained, s.phase = .done drained → drained = true ∨ s.stop = false →
      s.returned = s.ring.committed ∧ (s.processed ++ s.dropped).Perm s.ring.committed := by
  have hi := SessionState.Inv.of_reachable h
  refine ⟨by rw [hi.returned]; exact SharedRing.peeked_prefix hi.ring, ?_⟩
  intro drained hphase hended
  cases drained with
  | true => exact SessionState.all_handled h hphase
  | false =>
    -- the loop was left because of a stop request
    have hok := hi.phase
    rw [hphase] at hok
    have hstopped : s.stop = true := hok
    simp [hstopped] at hended

/-- A blocking session that does not wait for records. -/
def SessionSetup.polling : SessionSetup := ⟨capacity16, .Blocking, 0, 10, 7, by decide⟩

/-- The producer finishes after its last commit; the last record is still received. -/
theorem end_of_stream_last_record : ∃ s,
    (sessionMachine .polling).run (.fresh .polling (.new ⟨false⟩ 0)) [.connect .claim, .connect .loadTail,
        .connect (.loadHead 0), .advance, .advance, .advance, .tryPeek 0, .producer (.tryReserve 2 0), .producer .commit,
        .finish, .advance, .loadState true, .checkAlive true, .advance, .tryPeek 1, .process 5, .advance, .advance,
        .advance, .tryPeek 1, .advance, .loadState true, .checkAlive true, .advance, .tryPeek 1, .advance] = some s ∧
      s.returned = [[0, 0]] ∧ s.returned = s.ring.committed := by
  have h (s : SessionState) (hr : (sessionMachine .polling).run (.fresh .polling (.new ⟨false⟩ 0)) [.connect .claim,
      .connect .loadTail, .connect (.loadHead 0), .advance, .advance, .advance, .tryPeek 0, .producer (.tryReserve 2 0),
      .producer .commit, .finish, .advance, .loadState true, .checkAlive true, .advance, .tryPeek 1, .process 5, .advance,
      .advance, .advance, .tryPeek 1, .advance, .loadState true, .checkAlive true, .advance, .tryPeek 1, .advance] =
      some s) :=
    end_of_stream .polling ((Machine.Reachable.init (SessionState.fresh_initial _ _)).run hr)
  exact ⟨_, rfl, rfl, ((h _ rfl).2 true rfl (.inl rfl)).1⟩

end ProducerConsumer
