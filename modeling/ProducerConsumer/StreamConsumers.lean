import ProducerConsumer.SessionLog

/-!
# The consumers of a stream, one after the other

Every consumer process attaches with a validator, a policy and statistics of its own, runs its session, and disconnects;
or it crashes somewhere on the way, and the next one attaches to what it has left.  The producer runs all the time.  What
the sessions have released is, one after the other, what was committed; each has processed or dropped all that it has
released, and its report accounts for its own records and no others.  Only the record that a consumer held when it
crashed is received again.
-/

namespace ProducerConsumer

open Transition

/-! ### The model -/

/-- What the consumers of an object share. -/
structure ObjectSetup where
  cap : Capacity
  producerPid : Pid
  producerPid_pos : 0 < producerPid

/-- What a consumer process is started with. -/
structure ConsumerSetup where
  policy : PausePolicy
  receiveTimeout : Nat
  maxDefectLogs : Nat
  validator : PacketValidator

def ObjectSetup.session (g : ObjectSetup) (p : ConsumerSetup) : SessionSetup :=
  ⟨g.cap, p.policy, p.receiveTimeout, p.maxDefectLogs, g.producerPid, g.producerPid_pos⟩

/-- Whether a consumer holds the slot: from the exchange of `try_attach` to that of `disconnect`. -/
inductive ConsumerMode
  | away
  | engaged
  | leaving
deriving DecidableEq, Repr

/-- A session: how many records were released when it attached, what it has done since, and the record in its view. -/
structure SessionReport where
  setup : ConsumerSetup
  first : Nat
  returned : List (List U8)
  held : Option (List U8)
  handled : List (List U8)
  processed : List (List U8)
  dropped : List (List U8)
  findings : Findings

/-- The records that the session has released. -/
def SessionReport.kept (r : SessionReport) : List (List U8) := if r.held.isSome then r.returned.dropLast else r.returned

/-- The present session, or what is left of the last one, and those that are over. -/
structure StreamConsumers where
  session : SessionState
  setup : ConsumerSetup
  mode : ConsumerMode
  first : Nat
  past : List SessionReport

/-- The exchange with which a new consumer attaches, a step of its session or of its surroundings, the two steps of
`disconnect`, and the end of the process at any point. -/
inductive ConsumersAction
  | attach (setup : ConsumerSetup)
  | session (a : SessionAction)
  | disconnect
  | clearSlot
  | crash

/-- The steps of the producer and of whoever controls the consumer. -/
def SessionAction.ofSurroundings : SessionAction → Bool
  | .producer _ | .finish | .exit | .setPaused _ | .requestStop => true
  | _ => false

namespace SessionState

/-- A new process has won the slot; of the old state the ring and the status of the producer remain. -/
def doAttach (s : SessionState) (setup : ConsumerSetup) (ring : SharedRing) : SessionState where
  ring := ring
  finished := s.finished
  alive := s.alive
  stop := false
  paused := false
  phase := .connecting
  wasPaused := false
  validator := setup.validator
  stats := {}
  defectLogs := 0
  returned := []
  processed := []
  dropped := []

def toReport (s : SessionState) (setup : ConsumerSetup) (first : Nat) : SessionReport where
  setup := setup
  first := first
  returned := s.returned
  held := s.ring.view.map s.ring.readSpan
  handled := s.handled
  processed := s.processed
  dropped := s.dropped
  findings := s.findings

end SessionState

namespace StreamConsumers

/-- The report of the present session, once it has started. -/
def current (c : StreamConsumers) : Option SessionReport :=
  if c.session.phase ≠ .connecting then some (c.session.toReport c.setup c.first) else none

/-- A step on the ring with which the consumer leaves. -/
def leave (g : ObjectSetup) (c : StreamConsumers) (a : RingAction) (mode : ConsumerMode) : Option StreamConsumers :=
  (c.session.ring.step g.cap a).map fun ring => { c with session := { c.session with ring := ring }, mode := mode }

def step (g : ObjectSetup) (c : StreamConsumers) : ConsumersAction → Option StreamConsumers
  | .attach setup =>
    if c.mode = .away then
      (c.session.ring.step g.cap .claim).map fun ring =>
        { c with session := c.session.doAttach setup ring, setup := setup, mode := .engaged, first := ring.released.length }
    else none
  | .session a =>
    if c.mode = .engaged ∨ a.ofSurroundings = true then
      (c.session.step (g.session c.setup) a).map fun session => { c with session := session }
    else none
  | .disconnect =>
    match c.mode, c.session.phase with
    | .engaged, .done _ =>
      (c.leave g .disconnect .leaving).map fun d => { d with past := d.past ++ d.current.toList }
    | _, _ => none
  | .clearSlot => if c.mode = .leaving then c.leave g .clearSlot .away else none
  | .crash =>
    match c.mode with
    | .away => none
    | .engaged => (c.leave g .crash .away).map fun d => { d with past := c.past ++ c.current.toList }
    | .leaving => c.leave g .crash .away

/-- The sessions that are over and the one that runs. -/
def reports (c : StreamConsumers) : List SessionReport :=
  c.past ++ if c.mode = .engaged then c.current.toList else []

/-- A ring just initialised by a live producer, and no consumer yet. -/
def Initial (g : ObjectSetup) (c : StreamConsumers) : Prop :=
  c.session.ring.Initial g.cap ∧ c.mode = .away ∧ c.past = []

/-- On a zeroed ring. -/
def fresh (g : ObjectSetup) (setup : ConsumerSetup) : StreamConsumers :=
  ⟨.fresh (g.session setup) setup.validator, setup, .away, 0, []⟩

theorem fresh_initial (g : ObjectSetup) (setup : ConsumerSetup) : (fresh g setup).Initial g :=
  ⟨SharedRing.fresh_initial _, rfl, rfl⟩

end StreamConsumers

def consumersMachine (g : ObjectSetup) : Machine StreamConsumers ConsumersAction where
  init := StreamConsumers.Initial g
  step := StreamConsumers.step g

namespace StreamConsumers

variable {g : ObjectSetup} {c d : StreamConsumers}

/-- What each step needs and what it makes of the state. -/
inductive StepSpec (g : ObjectSetup) (c : StreamConsumers) : ConsumersAction → StreamConsumers → Prop
  | attach {setup : ConsumerSetup} {ring : SharedRing} :
      c.mode = .away → c.session.ring.step g.cap .claim = some ring →
        StepSpec g c (.attach setup) { c with
          session := c.session.doAttach setup ring, setup := setup, mode := .engaged, first := ring.released.length }
  | session {a : SessionAction} {session : SessionState} :
      c.mode = .engaged ∨ a.ofSurroundings = true → c.session.step (g.session c.setup) a = some session →
        StepSpec g c (.session a) { c with session := session }
  | disconnect {drained : Bool} {ring : SharedRing} :
      c.mode = .engaged → c.session.phase = .done drained → c.session.ring.step g.cap .disconnect = some ring →
        StepSpec g c .disconnect { c with
          session := { c.session with ring := ring }, mode := .leaving
          past := c.past ++ [{ c.session with ring := ring }.toReport c.setup c.first] }
  | clearSlot {ring : SharedRing} :
      c.mode = .leaving → c.session.ring.step g.cap .clearSlot = some ring →
        StepSpec g c .clearSlot { c with session := { c.session with ring := ring }, mode := .away }
  | crash {ring : SharedRing} :
      c.mode = .engaged → c.session.ring.step g.cap .crash = some ring →
        StepSpec g c .crash { c with
          session := { c.session with ring := ring }, mode := .away, past := c.past ++ c.current.toList }
  | crashLeaving {ring : SharedRing} :
      c.mode = .leaving → c.session.ring.step g.cap .crash = some ring →
        StepSpec g c .crash { c with session := { c.session with ring := ring }, mode := .away }

theorem StepSpec.of_step {a : ConsumersAction} (hs : c.step g a = some d) : StepSpec g c a d := by
  cases a with
  | attach setup =>
    obtain ⟨hmode, hs⟩ := Option.ite_none_right_eq_some.1 hs
    obtain ⟨ring, hring, rfl⟩ := Option.map_eq_some_iff.1 hs
    exact .attach hmode hring
  | session a =>
    obtain ⟨hmode, hs⟩ := Option.ite_none_right_eq_some.1 hs
    obtain ⟨session, hsession, rfl⟩ := Option.map_eq_some_iff.1 hs
    exact .session hmode hsession
  | disconnect =>
    simp only [StreamConsumers.step] at hs
    split at hs
    · rename_i drained hmode hphase
      obtain ⟨d, hd, rfl⟩ := Option.map_eq_some_iff.1 hs
      obtain ⟨ring, hring, rfl⟩ := Option.map_eq_some_iff.1 hd
      have hcurrent : current { c with session := { c.session with ring := ring }, mode := .leaving } =
          some ({ c.session with ring := ring }.toReport c.setup c.first) := if_pos (by simp [hphase])
      rw [hcurrent]
      exact .disconnect hmode hphase hring
    · cases hs
  | clearSlot =>
    obtain ⟨hmode, hs⟩ := Option.ite_none_right_eq_some.1 hs
    obtain ⟨ring, hring, rfl⟩ := Option.map_eq_some_iff.1 hs
    exact .clearSlot hmode hring
  | crash =>
    simp only [StreamConsumers.step] at hs
    split at hs
    · cases hs
    · obtain ⟨d, hd, rfl⟩ := Option.map_eq_some_iff.1 hs
      obtain ⟨ring, hring, rfl⟩ := Option.map_eq_some_iff.1 hd
      exact .crash ‹_› hring
    · obtain ⟨ring, hring, rfl⟩ := Option.map_eq_some_iff.1 hs
      exact .crashLeaving ‹_› hring

end StreamConsumers

theorem SharedRing.released_grows {cap : Capacity} {s t : SharedRing} {a : RingAction} (hs : s.step cap a = some t) :
    s.released <+: t.released := by
  cases StepSpec.of_step hs with
  | release _ | disconnect _ => exact List.prefix_append _ _
  | _ => exact List.prefix_refl _

/-! ### A session on a ring that was used before -/

namespace SessionState

variable {cfg : SessionSetup} {s t : SessionState} {base : List (List U8)}

/-- The same state, with what was released before the session taken as returned to it.  No step reads `returned`, so
what holds of a session on a new ring carries over. -/
def after (base : List (List U8)) (s : SessionState) : SessionState := { s with returned := base ++ s.returned }

theorem onRing_after {a : RingAction} {next : SessionState → SessionState}
    (hnext : ∀ u, next (after base u) = after base (next u)) :
    onRing cfg (s.after base) a next = (onRing cfg s a next).map (after base) := by
  simp only [onRing, Option.map_map]
  refine congrArg (fun f => Option.map f _) (funext fun ring => ?_)
  exact hnext { s with ring := ring }

theorem afterPeek_after (call : ReceiveCall) (retry : Bool) (u : SessionState) :
    afterPeek cfg call retry (u.after base) = (afterPeek cfg call retry u).after base := by
  unfold afterPeek
  have hview : (u.after base).ring.view = u.ring.view := rfl
  rw [hview]
  split
  · simp only [after, List.append_assoc]
  · rfl

theorem advance_after : advance cfg (s.after base) = (advance cfg s).map (after base) := by
  unfold advance
  have hphase : (s.after base).phase = s.phase := rfl
  rw [hphase]
  split
  case h_3 =>
    split
    · exact onRing_after fun _ => rfl
    · rfl
  case h_4 | h_8 => exact onRing_after fun _ => rfl
  case h_6 =>
    rw [Option.map_map]
    rfl
  all_goals rfl

/-- The steps commute with this. -/
theorem step_after (a : SessionAction) : step cfg (s.after base) a = (step cfg s a).map (after base) := by
  have hphase : (s.after base).phase = s.phase := rfl
  unfold step
  cases a with
  | producer a =>
    dsimp only
    rw [apply_ite (Option.map (after base))]
    exact if_congr Iff.rfl (onRing_after fun _ => rfl) rfl
  | finish =>
    dsimp only
    rw [apply_ite (Option.map (after base))]
    rfl
  | exit | setPaused | requestStop => rfl
  | connect a =>
    dsimp only
    rw [hphase]
    split
    · exact onRing_after fun _ => rfl
    · exact onRing_after fun _ => rfl
    · exact onRing_after fun _ => rfl
    · rfl
  | advance => exact advance_after
  | tryPeek load =>
    dsimp only
    rw [hphase]
    split
    · exact onRing_after (afterPeek_after _ _)
    · rfl
  | checkDeadline expired =>
    dsimp only
    rw [hphase]
    split <;> rfl
  | process nowNs =>
    dsimp only
    rw [hphase]
    split
    · rw [Option.map_map]
      rfl
    · rfl
  | loadState sawFinished =>
    dsimp only
    rw [hphase]
    split
    · rw [apply_ite (Option.map (after base)), apply_ite (Option.map (after base))]
      exact if_congr Iff.rfl (if_congr Iff.rfl (onRing_after fun _ => rfl) rfl) rfl
    · rfl
  | checkAlive alive =>
    dsimp only
    rw [hphase]
    split
    · rw [apply_ite (Option.map (after base)), apply_ite (Option.map (after base)),
        apply_ite (Option.map (after base))]
      exact if_congr Iff.rfl (if_congr Iff.rfl rfl rfl) (if_congr Iff.rfl (onRing_after fun _ => rfl) rfl)
    · rfl
  | report due =>
    dsimp only
    rw [hphase]
    split
    · rfl
    · exact onRing_after fun _ => rfl
    · rfl

/-! ### The invariant of a session -/

/-- Between the exchange on the slot and the start of the session: what was released before is `base`. -/
structure Waits (cfg : SessionSetup) (base : List (List U8)) (s : SessionState) : Prop where
  phase : s.phase = .connecting
  ring : (ringMachine cfg.cap).Reachable s.ring
  view : s.ring.view = none
  released : s.ring.released = base
  returned : s.returned = []
  processed : s.processed = []
  dropped : s.dropped = []

/-- A session that has started when `base` was released. -/
structure Runs (cfg : SessionSetup) (base : List (List U8)) (s : SessionState) : Prop where
  inv : (s.after base).Inv cfg
  grows : base <+: s.ring.released
  view : s.phase.inHand = true → s.ring.view.isSome = true
  mode : s.phase.Mode cfg s.wasPaused
  started : s.phase ≠ .connecting
  blocking : cfg.policy = .Blocking → s.dropped = []
  regular : Numbered s.ring.committed → (s.after base).Regular cfg

/-- A session that was given the validator `v`, and once it has started has found out what a replay finds out from it. -/
structure LogsFrom (cfg : SessionSetup) (v : PacketValidator) (s : SessionState) : Prop where
  waiting : s.phase = .connecting → s.validator = v
  started : s.phase ≠ .connecting → ∃ events, s.Logged cfg v events

theorem Waits.onRing (h : s.Waits cfg base) {a : RingAction} {ring : SharedRing}
    (hring : s.ring.step cfg.cap a = some ring) (hview : ring.view = s.ring.view)
    (hreleased : ring.released = s.ring.released) : Waits cfg base { s with ring := ring } := by
  have hreach : (ringMachine cfg.cap).Reachable ring := h.ring.step hring
  exact ⟨h.phase, hreach, hview.trans h.view, hreleased.trans h.released, h.returned, h.processed, h.dropped⟩

/-- The session starts on the ring as it was left. -/
theorem Waits.start (h : s.Waits cfg base) : (doStart s).Runs cfg base := by
  refine ⟨⟨h.ring, ?_, trivial⟩, by rw [← h.released]; exact List.prefix_refl _, nofun, trivial, nofun,
    fun _ => h.dropped, fun _ => ⟨rfl, rfl, rfl, rfl, nofun⟩⟩
  simp only [after, doStart, h.returned, h.released, h.view]
  rfl

theorem Waits.step (h : s.Waits cfg base) {a : SessionAction} (hs : s.step cfg a = some t) :
    t.Waits cfg base ∨ t.Runs cfg base := by
  have hphase := h.phase
  cases StepSpec.of_step hs with
  | producer _ ha hring =>
    obtain ⟨-, hview, hreleased, -⟩ := SharedRing.producer_step ha hring
    exact .inl (h.onRing hring hview hreleased)
  | finish | exit | setPaused | requestStop =>
    exact .inl ⟨h.phase, h.ring, h.view, h.released, h.returned, h.processed, h.dropped⟩
  | claim _ hring =>
    obtain ⟨-, hreleased, hview⟩ := SharedRing.attach_effect (.inl rfl) hring
    exact .inl (h.onRing hring hview hreleased)
  | loadTail _ hring =>
    obtain ⟨-, hreleased, hview⟩ := SharedRing.attach_effect (.inr (.inl rfl)) hring
    exact .inl (h.onRing hring hview hreleased)
  | start _ hring =>
    obtain ⟨-, hreleased, hview⟩ := SharedRing.attach_effect (.inr (.inr ⟨_, rfl⟩)) hring
    exact .inr (h.onRing hring hview hreleased).start
  | loop hp | readPause hp | waitPaused hp _ _ | discardPaused hp _ | release hp _ | wait hp | drop hp _ | loadPid hp
  | ending hp _ | tryPeek hp _ | checkDeadline hp | process hp _ | sawFinished hp _ _ | sawReady hp | peerAlive hp _
  | peerGone hp _ _ | noReport hp | report hp _ =>
    rw [hphase] at hp
    cases hp

/-- The value of `was_paused` in each phase. -/
theorem StepEffect.mode (he : StepEffect cfg s t) (h : s.phase.Mode cfg s.wasPaused) : t.phase.Mode cfg t.wasPaused := by
  cases he with
  | quiet hk _ hf =>
    rw [hk.wasPaused]
    exact hf.mode _ h
  | start ring _ _ => trivial
  | readPause _ => cases hp : s.paused <;> simp only [doReadPause, hp] <;> rfl
  | receive record hk _ _ _ _ hmode =>
    rw [hk.wasPaused]
    exact hmode _ h
  | drop sp _ _ => trivial
  | process call sp nowNs _ _ =>
    unfold doProcess
    dsimp only
    split <;> trivial

theorem Runs.returned (h : s.Runs cfg base) :
    base ++ s.returned = s.ring.released ++ (s.ring.view.map s.ring.readSpan).toList := h.inv.returned

/-- What is in the view was returned last. -/
theorem Runs.returned_ne_nil (h : s.Runs cfg base) (hview : s.ring.view.isSome = true) : s.returned ≠ [] := by
  intro hnil
  have hlen := congrArg List.length h.returned
  have hle := h.grows.length_le
  obtain ⟨sp, hsp⟩ := Option.isSome_iff_exists.1 hview
  rw [hnil, hsp] at hlen
  simp at hlen
  omega

theorem Runs.holdsLast (h : s.Runs cfg base) : s.HoldsLast := by
  intro hin sp hsp
  have hreturned := (h.inv.hand hin hsp).1
  have hhandled : (s.after base).handled = base ++ s.handled := by
    rw [handled, handled, if_pos hin, if_pos (show (s.after base).phase.inHand = true from hin)]
    exact List.dropLast_append_of_ne_nil (h.returned_ne_nil (h.view hin))
  rw [hhandled, List.append_assoc] at hreturned
  exact List.append_cancel_left hreturned

/-- A record that is dropped was received while paused. -/
theorem StepEffect.dropped_eq (he : StepEffect cfg s t) (hmode : s.phase.Mode cfg s.wasPaused)
    (hpolicy : cfg.policy = .Blocking) : t.dropped = s.dropped := by
  cases he with
  | quiet hk _ _ => exact hk.dropped
  | start ring _ _ => rfl
  | readPause _ => rfl
  | receive record hk _ _ _ _ _ => exact hk.dropped
  | drop sp hphase _ =>
    rw [hphase] at hmode
    rw [hmode.2] at hpolicy
    cases hpolicy
  | process call sp nowNs _ _ => rfl

/-- A record in hand stays in the view. -/
theorem view_step (h : s.phase.inHand = true → s.ring.view.isSome = true) {a : SessionAction}
    (hs : s.step cfg a = some t) (hin : t.phase.inHand = true) : t.ring.view.isSome = true := by
  cases StepSpec.of_step hs with
  | producer _ ha hring =>
    rw [(SharedRing.producer_step ha hring).2.1]
    exact h hin
  | finish | exit | setPaused | requestStop => exact h hin
  | claim hp _ | loadTail hp _ =>
    simp only [hp] at hin
    cases hin
  | tryPeek _ _ =>
    unfold afterPeek at hin ⊢
    split at hin
    · rename_i hsp
      exact Option.isSome_iff_exists.2 ⟨_, hsp⟩
    · simp only [goto] at hin
      split at hin
      · cases hin
      · split at hin
        · rw [inHand_noRecord] at hin
          cases hin
        · cases hin
  | loop _ | peerAlive _ _ =>
    simp only [goto] at hin
    split at hin <;> cases hin
  | readPause _ =>
    simp only [doReadPause] at hin
    split at hin <;> cases hin
  | wait _ | checkDeadline _ =>
    simp only [goto] at hin
    split at hin
    · rw [inHand_noRecord] at hin
      cases hin
    · cases hin
  | process _ _ =>
    simp only [doProcess] at hin
    split at hin <;> cases hin
  | _ => cases hin

theorem noRecord_ne_connecting (call : ReceiveCall) : noRecord call ≠ .connecting := by
  cases call <;> exact nofun

/-- A session does not start twice. -/
theorem started_step (h : s.phase ≠ .connecting) {a : SessionAction} (hs : s.step cfg a = some t) :
    t.phase ≠ .connecting := by
  cases StepSpec.of_step hs with
  | producer | finish | exit | setPaused | requestStop => exact h
  | claim hp _ | loadTail hp _ => exact absurd hp h
  | loop _ | peerAlive _ _ =>
    simp only [goto]
    split <;> rintro ⟨⟩
  | readPause _ =>
    simp only [doReadPause]
    split <;> rintro ⟨⟩
  | wait _ | checkDeadline _ =>
    simp only [goto]
    split
    · exact noRecord_ne_connecting _
    · rintro ⟨⟩
  | tryPeek _ _ =>
    unfold afterPeek
    split
    · simp only
      split <;> rintro ⟨⟩
    · simp only [goto]
      split
      · rintro ⟨⟩
      · split
        · exact noRecord_ne_connecting _
        · rintro ⟨⟩
  | process _ _ =>
    simp only [doProcess]
    split <;> rintro ⟨⟩
  | _ => rintro ⟨⟩

/-- A step of the session changes the ring by a step of the ring with which no consumer leaves, if at all. -/
theorem ring_step {a : SessionAction} (hs : s.step cfg a = some t) :
    t.ring = s.ring ∨ ∃ b, (b ≠ .disconnect ∧ b ≠ .crash) ∧ s.ring.step cfg.cap b = some t.ring := by
  have hsome {b : RingAction} (hring : s.ring.step cfg.cap b = some t.ring) (hleave : b ≠ .disconnect ∧ b ≠ .crash) :
      t.ring = s.ring ∨ ∃ b, (b ≠ .disconnect ∧ b ≠ .crash) ∧ s.ring.step cfg.cap b = some t.ring :=
    .inr ⟨b, hleave, hring⟩
  cases StepSpec.of_step hs with
  | producer _ hb hring =>
    refine hsome hring ⟨?_, ?_⟩
    · rintro rfl
      cases hb
    · rintro rfl
      cases hb
  | claim _ hring | loadTail _ hring | start _ hring | release _ hring | ending _ hring | waitPaused _ _ hring
  | sawFinished _ _ hring | peerGone _ _ hring | report _ hring => exact hsome hring ⟨nofun, nofun⟩
  | tryPeek _ hring =>
    rw [ring_afterPeek] at hsome ⊢
    exact hsome hring ⟨nofun, nofun⟩
  | _ => exact .inl rfl

/-- The producer and the controls change it by a step of the producer. -/
theorem surroundings_step {a : SessionAction} (ha : a.ofSurroundings = true) (hs : s.step cfg a = some t) :
    t.ring = s.ring ∨ ∃ b, b.ofProducer = true ∧ s.ring.step cfg.cap b = some t.ring := by
  cases StepSpec.of_step hs with
  | producer _ hb hring => exact .inr ⟨_, hb, hring⟩
  | finish | exit | setPaused | requestStop => exact .inl rfl
  | _ => cases ha

/-- No record that was released or committed is taken back. -/
theorem ring_grows {a : SessionAction} (hs : s.step cfg a = some t) :
    s.ring.released <+: t.ring.released ∧ s.ring.committed <+: t.ring.committed := by
  rcases ring_step hs with hring | ⟨b, -, hring⟩
  · rw [hring]
    exact ⟨List.prefix_refl _, List.prefix_refl _⟩
  · exact ⟨SharedRing.released_grows hring, SharedRing.committed_grows hring⟩

theorem Runs.step (h : s.Runs cfg base) {a : SessionAction} (hs : s.step cfg a = some t) : t.Runs cfg base := by
  have he := StepEffect.of_step hs
  have hafter : (s.after base).step cfg a = some (t.after base) := by
    rw [step_after, hs]
    rfl
  have hstarted := started_step h.started hs
  refine ⟨h.inv.step hafter, h.grows.trans (ring_grows hs).1, view_step h.view hs, he.mode h.mode, hstarted,
    fun hb => (he.dropped_eq h.mode hb).trans (h.blocking hb), ?_⟩
  exact Regular.step (fun _ => h.regular) h.inv h.mode (.of_step hafter) hstarted

theorem Waits.logsFrom (h : s.Waits cfg base) {v : PacketValidator} (hv : s.validator = v) {a : SessionAction}
    (hs : s.step cfg a = some t) : t.LogsFrom cfg v := by
  have hphase := h.phase
  have hwaits (hsame : t.phase = .connecting) (hvalidator : t.validator = s.validator) : t.LogsFrom cfg v :=
    ⟨fun _ => hvalidator.trans hv, fun hne => absurd hsame hne⟩
  cases StepSpec.of_step hs with
  | producer | finish | exit | setPaused | requestStop | claim | loadTail => exact hwaits hphase rfl
  | start _ hring =>
    subst hv
    exact ⟨nofun, fun _ => ⟨[], Logged.start h.returned h.processed h.dropped⟩⟩
  | loop hp | readPause hp | waitPaused hp _ _ | discardPaused hp _ | release hp _ | wait hp | drop hp _ | loadPid hp
  | ending hp _ | tryPeek hp _ | checkDeadline hp | process hp _ | sawFinished hp _ _ | sawReady hp | peerAlive hp _
  | peerGone hp _ _ | noReport hp | report hp _ =>
    rw [hphase] at hp
    cases hp

theorem Runs.logsFrom (h : s.Runs cfg base) {v : PacketValidator} (hv : s.LogsFrom cfg v) {a : SessionAction}
    (hs : s.step cfg a = some t) : t.LogsFrom cfg v := by
  obtain ⟨events, hlog⟩ := hv.started h.started
  exact ⟨fun hne => absurd hne (started_step h.started hs), fun _ => ⟨_, hlog.step h.holdsLast h.started hs⟩⟩

theorem LogsFrom.setRing {v : PacketValidator} (h : s.LogsFrom cfg v) (ring : SharedRing) :
    LogsFrom cfg v { s with ring := ring } := by
  refine ⟨h.waiting, fun hne => ?_⟩
  obtain ⟨events, hlog⟩ := h.started hne
  exact ⟨events, hlog.findings, hlog.handled, hlog.processed, hlog.dropped⟩

/-- A session that ends by itself leaves nothing behind. -/
theorem Runs.released_all (h : s.Runs cfg base) (hphase : s.phase = .done true) :
    s.ring.view = none ∧ s.ring.released = s.ring.committed := by
  have hok := h.inv.phase
  rw [show (s.after base).phase = .done true from hphase] at hok
  obtain ⟨-, hview, hlen⟩ := hok
  exact ⟨hview, (SharedRing.released_prefix h.inv.ring).eq_of_length hlen⟩

theorem disconnect_effect {ring ring' : SharedRing} (hs : ring.step cfg.cap .disconnect = some ring') :
    ring'.committed = ring.committed ∧ ring'.headSeen = ring.headSeen ∧ ring'.view = none ∧
      ring'.released = ring.released ++ (ring.view.map ring.readSpan).toList := by
  cases SharedRing.StepSpec.of_step hs with
  | disconnect _ => exact ⟨rfl, rfl, rfl, rfl⟩

/-- The release in `disconnect`. -/
theorem Runs.disconnect (h : s.Runs cfg base) {drained : Bool} (hphase : s.phase = .done drained) {ring : SharedRing}
    (hring : s.ring.step cfg.cap .disconnect = some ring) : Runs cfg base { s with ring := ring } := by
  obtain ⟨hcommitted, hseen, hview, hreleased⟩ := disconnect_effect hring
  refine ⟨⟨h.inv.ringStep hring, ?_, ?_⟩, h.grows.trans (SharedRing.released_grows hring), ?_, h.mode, h.started, h.blocking,
    ?_⟩
  · show base ++ s.returned = ring.released ++ (ring.view.map ring.readSpan).toList
    rw [hreleased, hview, ← h.returned]
    exact (List.append_nil _).symm
  · have hok := h.inv.phase
    rw [show (s.after base).phase = .done drained from hphase] at hok
    rw [show (after base { s with ring := ring }).phase = .done drained from hphase]
    cases drained with
    | false => exact hok
    | true =>
      obtain ⟨⟨hover, hall⟩, hnone, hlen⟩ := hok
      have hnone' : s.ring.view = none := hnone
      rw [hnone', Option.map_none, Option.toList_none, List.append_nil] at hreleased
      exact ⟨⟨hover, hseen.trans (hall.trans (congrArg List.length hcommitted.symm))⟩, hview,
        (congrArg List.length hreleased).trans (hlen.trans (congrArg List.length hcommitted.symm))⟩
  · rw [show ({ s with ring := ring } : SessionState).phase = .done drained from hphase]
    exact nofun
  · intro hnum
    obtain ⟨hcorrupted, hgaps, hmissing, hrewinds, hbaseline⟩ := h.regular (hcommitted ▸ hnum)
    exact ⟨hcorrupted, hgaps, hmissing, hrewinds, hbaseline⟩

end SessionState

/-! ### Reports -/

/-- What is known of a report: the session was returned a block of the records; it has handled what it has released, and
no more than it was returned; its findings are those of a replay, and none in a stream without defects. -/
structure SessionReport.Sound (g : ObjectSetup) (committed : List (List U8)) (r : SessionReport) : Prop where
  block : r.returned <+: committed.drop r.first
  held : r.returned = r.kept ++ r.held.toList
  keeps : r.kept <+: r.handled
  handles : r.handled <+: r.returned
  blocking : r.setup.policy = .Blocking → r.dropped = []
  regular : Numbered committed → r.findings.stats.totals.corrupted = 0 ∧ r.findings.stats.totals.sequenceGaps = 0 ∧
    r.findings.stats.totals.missing = 0 ∧ r.findings.stats.totals.sequenceRewinds = 0
  replay : ∃ events, r.findings = (Findings.start r.setup.validator).applyAll (g.session r.setup) events ∧
    r.handled = events.filterMap SessionEvent.handled ∧ r.processed = events.filterMap SessionEvent.processed ∧
    r.dropped = events.filterMap SessionEvent.dropped

theorem SessionReport.Sound.mono {g : ObjectSetup} {committed committed' : List (List U8)} {r : SessionReport}
    (h : r.Sound g committed) (hc : committed <+: committed') : r.Sound g committed' :=
  ⟨h.block.trans (hc.drop _), h.held, h.keeps, h.handles, h.blocking, fun hnum => h.regular (hnum.of_prefix hc), h.replay⟩

namespace SessionState

variable {g : ObjectSetup} {setup : ConsumerSetup} {s : SessionState} {base : List (List U8)}

theorem Runs.kept (h : s.Runs (g.session setup) base) (first : Nat) :
    base ++ (s.toReport setup first).kept = s.ring.released := by
  have hreturned := h.returned
  cases hview : s.ring.view with
  | none =>
    rw [hview, Option.map_none, Option.toList_none, List.append_nil] at hreturned
    rw [← hreturned]
    simp [SessionReport.kept, toReport, hview]
  | some sp =>
    have hne := h.returned_ne_nil (by rw [hview]; rfl)
    rw [hview, Option.map_some, Option.toList_some] at hreturned
    have hkept : (s.toReport setup first).kept = s.returned.dropLast := by
      simp [SessionReport.kept, toReport, hview]
    rw [hkept, ← List.dropLast_append_of_ne_nil hne, hreturned, List.dropLast_concat]

theorem Runs.sound (h : s.Runs (g.session setup) base) (hlogs : s.LogsFrom (g.session setup) setup.validator) :
    (s.toReport setup base.length).Sound g s.ring.committed := by
  obtain ⟨events, hlog⟩ := hlogs.started h.started
  have hkept := h.kept base.length
  have hheld : s.returned = (s.toReport setup base.length).kept ++ (s.ring.view.map s.ring.readSpan).toList := by
    have hreturned := h.returned
    rw [← hkept, List.append_assoc] at hreturned
    exact List.append_cancel_left hreturned
  refine ⟨?_, hheld, ?_, ?_, h.blocking, fun hnum => ?_, events, hlog.findings, hlog.handled, hlog.processed,
    hlog.dropped⟩
  · have hdrop : s.returned = (base ++ s.returned).drop base.length := by rw [List.drop_left]
    simp only [toReport]
    rw [hdrop, h.returned]
    exact (SharedRing.peeked_prefix h.inv.ring).drop _
  · -- a record in hand is in the view
    simp only [toReport, SessionState.handled]
    split
    · rename_i hin
      have hview := h.view hin
      simp [SessionReport.kept, hview]
    · conv => rhs; rw [hheld]
      exact List.prefix_append _ _
  · simp only [toReport, SessionState.handled]
    split
    · exact List.dropLast_prefix _
    · exact List.prefix_refl _
  · obtain ⟨hcorrupted, hgaps, hmissing, hrewinds, -⟩ := h.regular hnum
    exact ⟨hcorrupted, hgaps, hmissing, hrewinds⟩

end SessionState

/-! ### The invariant of the run -/

namespace StreamConsumers

variable {g : ObjectSetup} {c d : StreamConsumers}

/-- The records released by the sessions that are over. -/
def kept (c : StreamConsumers) : List (List U8) := c.past.flatMap SessionReport.kept

/-- Each session begins where those before it have stopped to release. -/
def Placed (reports : List SessionReport) : Prop :=
  ∀ i r, reports[i]? = some r → r.first = ((reports.take i).flatMap SessionReport.kept).length

structure Inv (g : ObjectSetup) (c : StreamConsumers) : Prop where
  ring : (ringMachine g.cap).Reachable c.session.ring
  sound : ∀ r ∈ c.past, r.Sound g c.session.ring.committed
  placed : Placed c.past
  idle : c.mode ≠ .engaged → c.session.ring.view = none ∧ c.session.ring.released = c.kept
  engaged : c.mode = .engaged → c.first = c.kept.length ∧
    (c.session.Waits (g.session c.setup) c.kept ∨ c.session.Runs (g.session c.setup) c.kept) ∧
    c.session.LogsFrom (g.session c.setup) c.setup.validator

theorem Placed.append {reports : List SessionReport} (h : Placed reports) {r : SessionReport}
    (hr : r.first = (reports.flatMap SessionReport.kept).length) : Placed (reports ++ [r]) := by
  intro i r' hr'
  by_cases hi : i < reports.length
  · rw [List.getElem?_append_left hi] at hr'
    rw [List.take_append_of_le_length hi.le]
    exact h i r' hr'
  · rw [List.getElem?_append_right (by omega)] at hr'
    obtain ⟨hlt, rfl⟩ := List.getElem?_eq_some_iff.1 hr'
    have hzero : i - reports.length = 0 := by simpa using hlt
    have heq : i = reports.length := by omega
    subst heq
    simpa using hr

theorem Inv.init (h : c.Initial g) : c.Inv g := by
  obtain ⟨hring, hmode, hpast⟩ := h
  refine ⟨Machine.Reachable.init hring, by simp [hpast], ?_, fun _ => ?_, fun he => ?_⟩
  · intro i r hr
    simp [hpast] at hr
  · rw [hring.2, kept, hpast]
    exact ⟨rfl, rfl⟩
  · rw [hmode] at he
    cases he

theorem Inv.ringStep (h : c.Inv g) {a : RingAction} {ring : SharedRing}
    (hring : c.session.ring.step g.cap a = some ring) : (ringMachine g.cap).Reachable ring := h.ring.step hring

theorem Inv.attach (h : c.Inv g) (hmode : c.mode = .away) (setup : ConsumerSetup) {ring : SharedRing}
    (hring : c.session.ring.step g.cap .claim = some ring) :
    Inv g { c with
      session := c.session.doAttach setup ring, setup := setup, mode := .engaged, first := ring.released.length } := by
  obtain ⟨-, hreleased, hview⟩ := SharedRing.attach_effect (.inl rfl) hring
  obtain ⟨hnone, hkept⟩ := h.idle (by simp [hmode])
  refine ⟨h.ringStep hring, fun r hr => (h.sound r hr).mono (SharedRing.committed_grows hring), h.placed,
    fun hne => absurd rfl hne, fun _ => ⟨?_, .inl ?_, ?_⟩⟩
  · rw [hreleased, hkept]
    rfl
  · exact ⟨rfl, h.ringStep hring, hview.trans hnone, hreleased.trans hkept, rfl, rfl, rfl⟩
  · exact ⟨fun _ => rfl, fun hne => absurd rfl hne⟩

theorem Inv.session (h : c.Inv g) {a : SessionAction} (hmode : c.mode = .engaged ∨ a.ofSurroundings = true)
    {session : SessionState} (hs : c.session.step (g.session c.setup) a = some session) :
    Inv g { c with session := session } := by
  have hcommitted := (SessionState.ring_grows hs).2
  by_cases he : c.mode = .engaged
  · obtain ⟨hfirst, hsession, hlogs⟩ := h.engaged he
    have hstep : session.Waits (g.session c.setup) c.kept ∨ session.Runs (g.session c.setup) c.kept := by
      rcases hsession with hw | hr
      · exact hw.step hs
      · exact .inr (hr.step hs)
    have hlogs' : session.LogsFrom (g.session c.setup) c.setup.validator := by
      rcases hsession with hw | hr
      · exact hw.logsFrom (hlogs.waiting hw.phase) hs
      · exact hr.logsFrom hlogs hs
    have hreach : (ringMachine g.cap).Reachable session.ring := by
      rcases hstep with hw | hr
      · exact hw.ring
      · exact hr.inv.ring
    exact ⟨hreach, fun r hr => (h.sound r hr).mono hcommitted, h.placed, fun hne => absurd he hne,
      fun _ => ⟨hfirst, hstep, hlogs'⟩⟩
  · obtain ⟨hnone, hkept⟩ := h.idle he
    refine ⟨?_, fun r hr => (h.sound r hr).mono hcommitted, h.placed, fun _ => ?_, fun he' => absurd he' he⟩
    · rcases SessionState.surroundings_step (hmode.resolve_left he) hs with hring | ⟨b, -, hring⟩
      · simp only [hring]
        exact h.ring
      · exact h.ringStep hring
    · rcases SessionState.surroundings_step (hmode.resolve_left he) hs with hring | ⟨b, hb, hring⟩
      · simp only [hring]
        exact ⟨hnone, hkept⟩
      · obtain ⟨-, hview, hreleased, -⟩ := SharedRing.producer_step hb hring
        exact ⟨hview.trans hnone, hreleased.trans hkept⟩

/-- A session is over, and what it has released is what the ring has released since. -/
theorem Inv.archive (h : c.Inv g) {ring : SharedRing} (hreach : (ringMachine g.cap).Reachable ring)
    (hcommitted : c.session.ring.committed <+: ring.committed) (hview : ring.view = none) {r : SessionReport}
    (hr : r.Sound g ring.committed) (hfirst : r.first = c.kept.length) (hkept : c.kept ++ r.kept = ring.released)
    {mode : ConsumerMode} (hmode : mode ≠ .engaged) :
    Inv g { c with session := { c.session with ring := ring }, mode := mode, past := c.past ++ [r] } := by
  refine ⟨hreach, ?_, h.placed.append hfirst, fun _ => ⟨hview, ?_⟩, fun he => absurd he hmode⟩
  · simp only [List.forall_mem_append, List.forall_mem_singleton]
    exact ⟨fun r hr => (h.sound r hr).mono hcommitted, hr⟩
  · simp only [kept, List.flatMap_append, List.flatMap_singleton]
    exact hkept.symm

/-- A step of the slot outside a session. -/
theorem Inv.outside (h : c.Inv g) {ring : SharedRing} (hreach : (ringMachine g.cap).Reachable ring)
    (hcommitted : c.session.ring.committed <+: ring.committed) (hview : ring.view = none)
    (hreleased : ring.released = c.kept) {mode : ConsumerMode} (hmode : mode ≠ .engaged) :
    Inv g { c with session := { c.session with ring := ring }, mode := mode } :=
  ⟨hreach, fun r hr => (h.sound r hr).mono hcommitted, h.placed, fun _ => ⟨hview, hreleased⟩, fun he => absurd he hmode⟩

theorem Inv.disconnect (h : c.Inv g) (hmode : c.mode = .engaged) {drained : Bool}
    (hphase : c.session.phase = .done drained) {ring : SharedRing}
    (hring : c.session.ring.step g.cap .disconnect = some ring) :
    Inv g { c with
      session := { c.session with ring := ring }, mode := .leaving
      past := c.past ++ [{ c.session with ring := ring }.toReport c.setup c.first] } := by
  obtain ⟨hfirst, hw | hr, hlogs⟩ := h.engaged hmode
  · rw [hw.phase] at hphase
    cases hphase
  · have hruns := hr.disconnect hphase hring
    have hsound := hruns.sound (hlogs.setRing ring)
    rw [← hfirst] at hsound
    obtain ⟨-, -, hview, -⟩ := @SessionState.disconnect_effect (g.session c.setup) _ _ hring
    exact h.archive (h.ringStep hring) (SharedRing.committed_grows hring) hview hsound hfirst (hruns.kept _) (by simp)

theorem crash_effect {ring ring' : SharedRing} (hs : ring.step g.cap .crash = some ring') :
    ring'.committed = ring.committed ∧ ring'.view = none ∧ ring'.released = ring.released := by
  cases SharedRing.StepSpec.of_step hs with
  | crash _ => exact ⟨rfl, rfl, rfl⟩

/-- The process ends, and what it held is not released. -/
theorem Inv.crash (h : c.Inv g) (hmode : c.mode = .engaged) {ring : SharedRing}
    (hring : c.session.ring.step g.cap .crash = some ring) :
    Inv g { c with
      session := { c.session with ring := ring }, mode := .away, past := c.past ++ c.current.toList } := by
  obtain ⟨hcommitted, hview, hreleased⟩ := crash_effect hring
  obtain ⟨hfirst, hw | hr, hlogs⟩ := h.engaged hmode
  · have hnone : c.current = none := if_neg fun hne => hne hw.phase
    rw [hnone, Option.toList_none, List.append_nil]
    exact h.outside (h.ringStep hring) (SharedRing.committed_grows hring) hview (hreleased.trans hw.released) (by simp)
  · have hsome : c.current = some (c.session.toReport c.setup c.first) := if_pos hr.started
    have hsound := hr.sound hlogs
    rw [← hfirst, ← hcommitted] at hsound
    rw [hsome, Option.toList_some]
    exact h.archive (h.ringStep hring) (SharedRing.committed_grows hring) hview hsound hfirst
      ((hr.kept _).trans hreleased.symm) (by simp)

/-- Every step keeps the invariant. -/
theorem Inv.step (h : c.Inv g) {a : ConsumersAction} (hs : c.step g a = some d) : d.Inv g := by
  cases StepSpec.of_step hs with
  | attach hmode hring => exact h.attach hmode _ hring
  | session hmode hsession => exact h.session hmode hsession
  | disconnect hmode hphase hring => exact h.disconnect hmode hphase hring
  | clearSlot hmode hring =>
    obtain ⟨hnone, hkept⟩ := h.idle (by simp [hmode])
    refine h.outside (h.ringStep hring) (SharedRing.committed_grows hring) ?_ ?_ (by simp)
    all_goals
      cases SharedRing.StepSpec.of_step hring with
      | clearSlot _ => assumption
  | crash hmode hring => exact h.crash hmode hring
  | crashLeaving hmode hring =>
    obtain ⟨-, hview, hreleased⟩ := crash_effect hring
    exact h.outside (h.ringStep hring) (SharedRing.committed_grows hring) hview
      (hreleased.trans (h.idle (by simp [hmode])).2) (by simp)

theorem Inv.of_reachable (h : (consumersMachine g).Reachable c) : c.Inv g := by
  refine Machine.Reachable.invariant (I := StreamConsumers.Inv g) (fun _ hc => Inv.init hc) ?_ h
  intro c a d hi hs
  exact hi.step hs

/-- The invariant in terms of all reports. -/
theorem Inv.reports (h : c.Inv g) : (∀ r ∈ c.reports, r.Sound g c.session.ring.committed) ∧ Placed c.reports ∧
    c.reports.flatMap SessionReport.kept = c.session.ring.released := by
  have hpast (hreports : c.reports = c.past) (hreleased : c.session.ring.released = c.kept) :
      (∀ r ∈ c.reports, r.Sound g c.session.ring.committed) ∧ Placed c.reports ∧
        c.reports.flatMap SessionReport.kept = c.session.ring.released := by
    rw [hreports]
    exact ⟨h.sound, h.placed, hreleased.symm⟩
  by_cases he : c.mode = .engaged
  · obtain ⟨hfirst, hw | hr, hlogs⟩ := h.engaged he
    · have hnone : c.current = none := if_neg fun hne => hne hw.phase
      refine hpast ?_ hw.released
      rw [StreamConsumers.reports, if_pos he, hnone]
      exact List.append_nil _
    · have hsome : c.current = some (c.session.toReport c.setup c.first) := if_pos hr.started
      have hsound := hr.sound hlogs
      rw [← hfirst] at hsound
      rw [StreamConsumers.reports, if_pos he, hsome, Option.toList_some]
      refine ⟨?_, h.placed.append hfirst, ?_⟩
      · rw [List.forall_mem_append, List.forall_mem_singleton]
        exact ⟨h.sound, hsound⟩
      · rw [List.flatMap_append, List.flatMap_singleton]
        exact hr.kept _
  · refine hpast ?_ (h.idle he).2
    rw [StreamConsumers.reports, if_neg he]
    exact List.append_nil _

end StreamConsumers

/-! ### What the sessions account for -/

/-- What a report says about the records that the session has handled: each was processed or dropped; the findings are
those of a replay of these records with its own validator, from a fresh baseline; they count each record once, as corrupted exactly if it is; and
one defect is logged for each record that is not clean, up to the limit. -/
structure SessionReport.Accounted (g : ObjectSetup) (r : SessionReport) : Prop where
  split : (r.processed ++ r.dropped).Perm r.handled
  replay : ∃ events, r.findings = (Findings.start r.setup.validator).applyAll (g.session r.setup) events ∧
    r.handled = events.filterMap SessionEvent.handled ∧ r.processed = events.filterMap SessionEvent.processed ∧
    r.dropped = events.filterMap SessionEvent.dropped ∧
    r.findings.Account (g.session r.setup)
      ((Findings.start r.setup.validator).recorded (g.session r.setup) events) r.dropped
  counts : Counts r.findings.stats.totals r.processed r.dropped
  corrupted : r.findings.stats.totals.corrupted = BitVec.ofNat 64 (r.processed.countP fun record => !uncorrupted record)

theorem SessionReport.Sound.accounted {g : ObjectSetup} {committed : List (List U8)} {r : SessionReport}
    (h : r.Sound g committed) : r.Accounted g := by
  obtain ⟨events, hfindings, hhandled, hprocessed, hdropped⟩ := h.replay
  have haccount := (Findings.Account.start (g.session r.setup) r.setup.validator).applyAll events
  rw [List.nil_append, List.nil_append, ← hfindings] at haccount
  obtain ⟨hcounts, hcorrupted⟩ := haccount.counts
  rw [← hdropped] at haccount
  refine ⟨?_, ⟨events, hfindings, hhandled, hprocessed, hdropped, haccount⟩, ?_, ?_⟩
  · rw [hprocessed, hdropped, hhandled]
    exact Findings.handled_perm events
  · rw [hprocessed, hdropped]
    exact hcounts
  · rw [hprocessed]
    exact hcorrupted

/-- Successive consumers share a stream without loss.  Whatever the producer commits, however its steps, those of the
sessions, pauses and crashes interleave: what the sessions have released is, one after the other, an initial part of what
was committed, and all of it once a session ends by itself; each session begins where those before have stopped, has
handled all that it has released, and has been returned at most one record more, the one that the next consumer receives
again if this one crashes with it; and each report accounts for the records that its session has handled. -/
theorem consumers_share_stream (g : ObjectSetup) {c : StreamConsumers} (h : (consumersMachine g).Reachable c) :
    c.reports.flatMap SessionReport.kept <+: c.session.ring.committed ∧
    (c.mode = .engaged → c.session.phase = .done true →
      c.reports.flatMap SessionReport.kept = c.session.ring.committed) ∧
    (∀ i r, c.reports[i]? = some r → r.first = ((c.reports.take i).flatMap SessionReport.kept).length) ∧
    ∀ r ∈ c.reports, r.returned <+: c.session.ring.committed.drop r.first ∧ r.returned = r.kept ++ r.held.toList ∧
      r.kept <+: r.handled ∧ r.handled <+: r.returned ∧ r.Accounted g := by
  have hi := StreamConsumers.Inv.of_reachable h
  obtain ⟨hsound, hplaced, hkept⟩ := hi.reports
  refine ⟨?_, fun hmode hphase => ?_, hplaced, fun r hr => ?_⟩
  · rw [hkept]
    exact SharedRing.released_prefix hi.ring
  · obtain ⟨-, hw | hr, -⟩ := hi.engaged hmode
    · rw [hw.phase] at hphase
      cases hphase
    · rw [hkept, (hr.released_all hphase).2]
  · have hs := hsound r hr
    exact ⟨hs.block, hs.held, hs.keeps, hs.handles, hs.accounted⟩

/-- A blocking consumer that does not wait for records. -/
def ConsumerSetup.polling : ConsumerSetup := ⟨.Blocking, 0, 10, .new ⟨false⟩ 0⟩

def ObjectSetup.polling : ObjectSetup := ⟨capacity16, 7, SessionSetup.polling.producerPid_pos⟩

/-- The first consumer crashes after processing a record, before its release; the next one receives it again, and the
end of the stream. -/
def crashWithRecord : List ConsumersAction :=
  [.attach .polling] ++ ([.connect .loadTail, .connect (.loadHead 0), .producer (.tryReserve 2 0), .producer .commit,
    .advance, .advance, .advance, .tryPeek 1, .process 5].map ConsumersAction.session) ++ [.crash, .attach .polling] ++
    ([.connect .loadTail, .connect (.loadHead 1), .finish, .advance, .advance, .advance, .tryPeek 1, .process 6,
      .report none, .advance, .advance, .advance, .tryPeek 1, .advance, .loadState true, .checkAlive true, .advance,
      .tryPeek 1, .advance].map ConsumersAction.session)

theorem consumers_share_stream_crash : ∃ c,
    (consumersMachine .polling).run (.fresh .polling .polling) crashWithRecord = some c ∧
      c.reports.map SessionReport.handled = [[[0, 0]], [[0, 0]]] ∧
      c.reports.flatMap SessionReport.kept = c.session.ring.committed := by
  have h (c : StreamConsumers)
      (hr : (consumersMachine .polling).run (.fresh .polling .polling) crashWithRecord = some c) :=
    consumers_share_stream .polling ((Machine.Reachable.init (StreamConsumers.fresh_initial _ _)).run hr)
  refine ⟨_, rfl, ?_, ?_⟩
  · rfl
  · exact (h _ rfl).2.1 rfl rfl

/-- No false alarm across consumers.  If the committed records are sealed packets with the numbers `0, 1, ...`, no session
reports one as corrupted, missing or rewound, wherever in the stream it begins and whatever has become of those before. -/
theorem consumers_report_no_defect (g : ObjectSetup) {c : StreamConsumers} (h : (consumersMachine g).Reachable c)
    (hnum : Numbered c.session.ring.committed) (r : SessionReport) (hr : r ∈ c.reports) :
    r.findings.stats.totals.corrupted = 0 ∧ r.findings.stats.totals.sequenceGaps = 0 ∧
      r.findings.stats.totals.missing = 0 ∧ r.findings.stats.totals.sequenceRewinds = 0 :=
  ((StreamConsumers.Inv.of_reachable h).reports.1 r hr).regular hnum

/-- Three empty packets fit into the ring. -/
def ObjectSetup.packets : ObjectSetup := { ObjectSetup.polling with cap := capacity128 }

def ConsumerSetup.discarding : ConsumerSetup := { ConsumerSetup.polling with policy := .Discarding }

/-- The producer sends a record. -/
def sendActions (record : List U8) : List ConsumersAction :=
  ([RingAction.tryReserve (BitVec.ofNat 64 record.length) 0] ++
    record.zipIdx.map (fun (byte, i) => RingAction.writeSlot i byte) ++ [RingAction.commit]).map fun a =>
      .session (.producer a)

theorem numbered_emptyPackets (n : Nat) : Numbered ((List.range n).map fun i => emptyPacket (BitVec.ofNat 64 i)) := by
  intro i r hr
  rw [List.getElem?_map, Option.map_eq_some_iff] at hr
  obtain ⟨j, hj, rfl⟩ := hr
  obtain ⟨-, rfl⟩ := List.getElem?_eq_some_iff.1 hj
  rw [List.getElem_range]
  exact ⟨fun v => v.trusted_sealPacket (by decide) (by decide) .., by rw [emptyPacket, readHeader_sealPacket]; rfl⟩

/-- The first consumer crashes after processing the packet 0.  The next one, which discards, receives it again, drops the
packet 1 while it is paused, and goes on with the packet 2. -/
def crashWithPackets : List ConsumersAction :=
  [.attach .polling, .session (.connect .loadTail), .session (.connect (.loadHead 0))] ++ sendActions (emptyPacket 0) ++
    ([.advance, .advance, .advance, .tryPeek 1, .process 5].map ConsumersAction.session) ++ [.crash] ++
    sendActions (emptyPacket 1) ++ sendActions (emptyPacket 2) ++ [.attach .discarding] ++
    ([.connect .loadTail, .connect (.loadHead 3), .advance, .advance, .advance, .tryPeek 3, .process 6, .report none,
      .setPaused true, .advance, .advance, .advance, .advance, .tryPeek 3, .advance, .report (some 3),
      .setPaused false, .advance, .advance, .advance, .tryPeek 3, .process 7].map ConsumersAction.session)

theorem consumers_report_no_defect_paused : ∃ c,
    (consumersMachine .packets).run (.fresh .packets .polling) crashWithPackets = some c ∧
      c.reports.map (fun r => (r.processed, r.dropped)) =
        [([emptyPacket 0], []), ([emptyPacket 0, emptyPacket 2], [emptyPacket 1])] ∧
      ∀ r ∈ c.reports, r.findings.stats.totals.sequenceGaps = 0 ∧ r.findings.stats.totals.missing = 0 := by
  have hrun : ((consumersMachine .packets).run (.fresh .packets .polling) crashWithPackets).map
      (fun c => (c.session.ring.committed, c.reports.map fun r => (r.processed, r.dropped))) =
      some ((List.range 3).map fun i => emptyPacket (BitVec.ofNat 64 i),
        [([emptyPacket 0], []), ([emptyPacket 0, emptyPacket 2], [emptyPacket 1])]) := by
    decide +kernel
  obtain ⟨c, hc, hview⟩ := Option.map_eq_some_iff.1 hrun
  obtain ⟨hcommitted, hreports⟩ := Prod.mk.inj hview
  refine ⟨c, hc, hreports, fun r hr => ?_⟩
  obtain ⟨-, hgaps, hmissing, -⟩ :=
    consumers_report_no_defect .packets ((Machine.Reachable.init (StreamConsumers.fresh_initial _ _)).run hc)
      (hcommitted ▸ numbered_emptyPackets 3) r hr
  exact ⟨hgaps, hmissing⟩

end ProducerConsumer
