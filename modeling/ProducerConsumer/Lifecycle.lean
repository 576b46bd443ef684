import ProducerConsumer.Attach
import ProducerConsumer.RingCapacity

/-!
# The life of the producers of one name

Any number of processes that each construct and destroy one `ShmPacketSink` on the same name, with the system calls of
POSIX shared memory as steps: the look-up and the checks of a ring that exists, the `shm_unlink` and the exclusive
`shm_open` of `create`, its error paths, the initialisation of the control block, and the two steps of the destructor.
The check and the replacement are not one step, and neither are the end of the stream and the removal of the name; the
theorems say in which schedules the check of the constructor is enough.
-/

namespace ProducerConsumer

open Transition

/-! ### The model -/

/-- A shared memory object; the name refers to at most one, and an object outlives its name. -/
structure ShmObject where
  size : Nat
  control : RingControl

/-- How far the sink of a process is.  `opened` and `sawPid` are the checks of the constructor on the object it has
mapped; `mayCreate` goes on to `create` after the name referred to `seen` at the look-up, and `unlinked` to `storing` is
`create` and the initialisation; `mapFailed` and `cleanup` are the error path of `create` on which first the region and
then `create` itself unlinks the name; `finished` is the destructor between its two steps. -/
inductive SinkPhase
  | idle
  | opened (object : Nat)
  | sawPid (object : Nat) (pid : Pid)
  | mayCreate (seen : Option Nat)
  | unlinked
  | created (object : Nat)
  | sized (object : Nat)
  | mapped (object : Nat)
  | storing (object n : Nat)
  | constructed (object : Nat)
  | finished (object : Nat)
  | mapFailed (object : Nat)
  | cleanup (object : Nat)
  | refused
  | gone
deriving DecidableEq

/-- The object of a sink from its `shm_open` to the start of its destructor. -/
@[simp] def SinkPhase.serves : SinkPhase → Option Nat
  | created o | sized o | mapped o | storing o _ | constructed o => some o
  | _ => none

/-- The object whose region would unlink the name (`owner_`). -/
@[simp] def SinkPhase.owns : SinkPhase → Option Nat
  | finished o | mapFailed o => some o
  | phase => phase.serves

/-- The object a sink made, as long as it still has an unlink to issue for it. -/
@[simp] def SinkPhase.made : SinkPhase → Option Nat
  | cleanup o => some o
  | phase => phase.owns

/-- The object that a constructor found under the name. -/
@[simp] def SinkPhase.looked : SinkPhase → Option Nat
  | opened o | sawPid o _ => some o
  | mayCreate seen => seen
  | _ => none

/-- The object that the next `shm_unlink` of a sink is meant for: the leftover it judged, or the object it made. -/
@[simp] def SinkPhase.target : SinkPhase → Option Nat
  | mayCreate seen => seen
  | finished o | mapFailed o | cleanup o => some o
  | _ => none

inductive SinkAction
  | tryOpen (success : Bool)
  | checkReady
  | checkAlive
  | unlinkStale
  | openExclusive (success : Bool)
  | truncate (success : Bool)
  | map (success : Bool)
  | construct
  | store
  | finish
  | regionUnlink
  | cleanupUnlink
deriving DecidableEq

/-- The calls of `shm_unlink` in `create`. -/
def SinkAction.createUnlinks : SinkAction → Bool
  | unlinkStale | cleanupUnlink => true
  | _ => false

def SinkAction.unlinks : SinkAction → Bool
  | regionUnlink => true
  | a => a.createUnlinks

inductive LifecycleAction
  | sink (p : Pid) (a : SinkAction)
  | crash (p : Pid)
deriving DecidableEq

/-- The page size of the host and the ring capacities of the sinks, multiples of it by `normalize_capacity`. -/
structure LifecycleSetup where
  page : Nat
  capacity : Pid → Capacity
  page_pos : 0 < page
  page_dvd : ∀ p, page ∣ (capacity p).bytes

/-- The size of the object that the sink of `p` makes. -/
def LifecycleSetup.total (r : LifecycleSetup) (p : Pid) : Nat := r.page + (r.capacity p).bytes

/-- `name` is the object the name refers to; `next` numbers the objects. -/
structure LifecycleState where
  name : Option Nat
  objects : Nat → ShmObject
  next : Nat
  alive : Pid → Bool
  sink : Pid → SinkPhase

namespace LifecycleState

def processAlive (s : LifecycleState) (p : Pid) : Bool := 0 < p && s.alive p

def goto (s : LifecycleState) (p : Pid) (phase : SinkPhase) : LifecycleState :=
  { s with sink := Function.update s.sink p phase }

def setObject (s : LifecycleState) (o : Nat) (object : ShmObject) : LifecycleState :=
  { s with objects := Function.update s.objects o object }

def shmUnlink (s : LifecycleState) : LifecycleState := { s with name := none }

/-- `shm_open` with `O_CREAT | O_EXCL` on a free name. -/
def shmCreate (s : LifecycleState) : LifecycleState :=
  { s.setObject s.next ⟨0, .zero⟩ with name := some s.next, next := s.next + 1 }

/-- What `try_open` finds: `success` says whether the system calls do what they are asked. -/
def tryOpen (page : Nat) (s : LifecycleState) (success : Bool) : Option Nat :=
  s.name.filter fun o =>
    success && (s.objects o).size ≠ 0 && 2 * page ≤ (s.objects o).size && ((s.objects o).size - page) % page = 0

/-- One step of the constructor or the destructor of the sink of `p`. -/
def sinkStep (r : LifecycleSetup) (s : LifecycleState) (p : Pid) (a : SinkAction) : Option LifecycleState :=
  match s.sink p, a with
  | .idle, .tryOpen success =>
    -- a malformed or unreadable leftover is replaced like a missing one
    some (s.goto p (match s.tryOpen r.page success with | some o => .opened o | none => .mayCreate s.name))
  | .opened o, .checkReady =>
    some (s.goto p (if ringControlReady (s.objects o).control then .sawPid o (s.objects o).control.producerPid
      else .mayCreate (some o)))
  | .sawPid o pid, .checkAlive =>
    some (s.goto p (if s.processAlive pid ∧ pid ≠ p then .refused else .mayCreate (some o)))
  | .mayCreate _, .unlinkStale => some (s.shmUnlink.goto p .unlinked)
  | .unlinked, .openExclusive success =>
    -- the call fails on a name that is taken, and for want of a descriptor or of memory
    if s.name = none ∧ success then some (s.shmCreate.goto p (.created s.next)) else some (s.goto p .refused)
  | .created o, .truncate success =>
    if success then some ((s.setObject o { s.objects o with size := r.total p }).goto p (.sized o))
    else some (s.goto p (.cleanup o))
  | .sized o, .map success => some (s.goto p (if success then .mapped o else .mapFailed o))
  | .mapped o, .construct => some ((s.setObject o { s.objects o with control := .zero }).goto p (.storing o 0))
  | .storing o n, .store =>
    (controlStores (r.capacity p).word p)[n]?.map fun store =>
      (s.setObject o { s.objects o with control := store (s.objects o).control }).goto p
        (if n + 1 = (controlStores (r.capacity p).word p).length then .constructed o else .storing o (n + 1))
  | .constructed o, .finish =>
    some ((s.setObject o
      { s.objects o with control := { (s.objects o).control with state := .ProducerFinished } }).goto p (.finished o))
  | .finished _, .regionUnlink => some (s.shmUnlink.goto p .gone)
  | .mapFailed o, .regionUnlink => some (s.shmUnlink.goto p (.cleanup o))
  | .cleanup _, .cleanupUnlink => some (s.shmUnlink.goto p .refused)
  | _, _ => none

def step (r : LifecycleSetup) (s : LifecycleState) : LifecycleAction → Option LifecycleState
  | .sink p a => if s.processAlive p then s.sinkStep r p a else none
  | .crash p => some { s with alive := Function.update s.alive p false }

/-- No sink is under construction; the name may refer to whatever an earlier producer left. -/
def Initial (s : LifecycleState) : Prop := (∀ p, s.sink p = .idle) ∧ ∀ o, s.name = some o → o < s.next

end LifecycleState

def lifecycleMachine (r : LifecycleSetup) : Machine LifecycleState LifecycleAction where
  init := LifecycleState.Initial
  step := LifecycleState.step r

/-! ### What a step does -/

namespace LifecycleState

variable {r : LifecycleSetup} {s t : LifecycleState} {p q : Pid}

theorem goto_self (s : LifecycleState) (p : Pid) (phase : SinkPhase) : (s.goto p phase).sink p = phase :=
  Function.update_self ..

theorem goto_ne (s : LifecycleState) (phase : SinkPhase) (h : q ≠ p) : (s.goto p phase).sink q = s.sink q :=
  Function.update_of_ne h ..

/-- A sink gets no object by a step from one phase to another one. -/
structure Keeps (phase next : SinkPhase) : Prop where
  made : ∀ o, next.made = some o → phase.made = some o
  owns : ∀ o, next.owns = some o → phase.owns = some o
  serves : ∀ o, next.serves = some o → phase.serves = some o

/-- The effect of a step of `p` on the name: it binds the name to a fresh object, or it removes the name and `p` owns
nothing any more, or it leaves the name as it is. -/
inductive NameEffect (s t : LifecycleState) (p : Pid) (a : SinkAction) : Prop
  | bind : a = .openExclusive true → s.name = none → t.name = some s.next → t.next = s.next + 1 →
      t.sink p = .created s.next → NameEffect s t p a
  | unlink : a.unlinks = true → t.name = none → t.next = s.next → Keeps (s.sink p) (t.sink p) →
      (t.sink p).owns = none → NameEffect s t p a
  | keep : t.name = s.name → t.next = s.next → Keeps (s.sink p) (t.sink p) → NameEffect s t p a

/-- What a step of `p` may change. -/
structure StepEffect (s t : LifecycleState) (p : Pid) (a : SinkAction) : Prop where
  alive : t.alive = s.alive
  others : ∀ q, q ≠ p → t.sink q = s.sink q
  objects : ∀ o, o ≠ s.next → (s.sink p).serves ≠ some o → t.objects o = s.objects o
  looked : ∀ o, (t.sink p).looked = some o → (s.sink p).looked = some o ∨ s.name = some o
  name : NameEffect s t p a

theorem StepEffect.goto {a : SinkAction} {phase : SinkPhase} (hkeeps : Keeps (s.sink p) phase)
    (hlooked : ∀ o, phase.looked = some o → (s.sink p).looked = some o ∨ s.name = some o) :
    StepEffect s (s.goto p phase) p a := by
  refine ⟨rfl, fun q hq => goto_ne s phase hq, fun _ _ _ => rfl, ?_, .keep rfl rfl ?_⟩
  · rw [goto_self]
    exact hlooked
  · rw [goto_self]
    exact hkeeps

theorem StepEffect.write {a : SinkAction} {phase : SinkPhase} {o : Nat} {object : ShmObject}
    (hserves : (s.sink p).serves = some o) (hkeeps : Keeps (s.sink p) phase) (hlooked : phase.looked = none) :
    StepEffect s ((s.setObject o object).goto p phase) p a := by
  refine ⟨rfl, fun q hq => goto_ne _ phase hq, ?_, ?_, .keep rfl rfl ?_⟩
  · intro o' _ ho'
    have hne : o' ≠ o := by
      rintro rfl
      exact ho' hserves
    exact Function.update_of_ne hne ..
  · rw [goto_self, hlooked]
    rintro _ ⟨⟩
  · rw [goto_self]
    exact hkeeps

theorem StepEffect.unlink {a : SinkAction} {phase : SinkPhase} (ha : a.unlinks = true) (hkeeps : Keeps (s.sink p) phase)
    (howns : phase.owns = none) (hlooked : phase.looked = none) : StepEffect s (s.shmUnlink.goto p phase) p a := by
  refine ⟨rfl, fun q hq => goto_ne _ phase hq, fun _ _ _ => rfl, ?_, .unlink ha rfl rfl ?_ ?_⟩ <;> rw [goto_self]
  · rw [hlooked]
    rintro _ ⟨⟩
  · exact hkeeps
  · exact howns

theorem tryOpen_name {page : Nat} {success : Bool} {o : Nat} (h : s.tryOpen page success = some o) : s.name = some o :=
  (Option.filter_eq_some_iff.1 h).1

theorem sinkStep_effect {a : SinkAction} (hs : s.sinkStep r p a = some t) : StepEffect s t p a := by
  unfold sinkStep at hs
  cases hphase : s.sink p <;> cases a <;>
    simp only [hphase, reduceCtorEq, Option.some.injEq, Option.map_eq_some_iff] at hs
  case idle.tryOpen success =>
    subst hs
    cases hopen : s.tryOpen r.page success with
    | none =>
      refine .goto ⟨by simp, by simp, by simp⟩ ?_
      intro o ho
      exact .inr ho
    | some o =>
      refine .goto ⟨by simp, by simp, by simp⟩ ?_
      rintro _ ⟨⟩
      exact .inr (tryOpen_name hopen)
  case opened.checkReady o =>
    subst hs
    split <;> exact .goto ⟨by simp, by simp, by simp⟩ (by simp [hphase])
  case sawPid.checkAlive o pid =>
    subst hs
    split <;> exact .goto ⟨by simp, by simp, by simp⟩ (by simp [hphase])
  case mayCreate.unlinkStale seen =>
    subst hs
    exact .unlink rfl ⟨by simp, by simp, by simp⟩ rfl rfl
  case unlinked.openExclusive success =>
    split at hs
    case isTrue h =>
      cases hs
      obtain ⟨hfree, rfl⟩ := h
      refine ⟨rfl, fun q hq => goto_ne _ _ hq, ?_, ?_, .bind rfl hfree rfl rfl (goto_self ..)⟩
      · intro o ho _
        exact Function.update_of_ne ho ..
      · rw [goto_self]
        rintro _ ⟨⟩
    case isFalse =>
      cases hs
      exact .goto ⟨by simp, by simp, by simp⟩ (by simp)
  case created.truncate o success =>
    split at hs <;> cases hs
    · exact .write (by rw [hphase]; rfl) ⟨by simp [hphase], by simp [hphase], by simp [hphase]⟩ rfl
    · exact .goto ⟨by simp [hphase], by simp, by simp⟩ (by simp)
  case sized.map o success =>
    subst hs
    cases success
    · exact .goto ⟨by simp [hphase], by simp [hphase], by simp⟩ (by simp)
    · exact .goto ⟨by simp [hphase], by simp [hphase], by simp [hphase]⟩ (by simp)
  case mapped.construct o =>
    subst hs
    exact .write (by rw [hphase]; rfl) ⟨by simp [hphase], by simp [hphase], by simp [hphase]⟩ rfl
  case storing.store o n =>
    obtain ⟨store, -, rfl⟩ := hs
    split <;> exact .write (by rw [hphase]; rfl) ⟨by simp [hphase], by simp [hphase], by simp [hphase]⟩ rfl
  case constructed.finish o =>
    subst hs
    exact .write (by rw [hphase]; rfl) ⟨by simp [hphase], by simp [hphase], by simp⟩ rfl
  case finished.regionUnlink o =>
    subst hs
    exact .unlink rfl ⟨by simp, by simp, by simp⟩ rfl rfl
  case mapFailed.regionUnlink o =>
    subst hs
    exact .unlink rfl ⟨by simp [hphase], by simp, by simp⟩ rfl rfl
  case cleanup.cleanupUnlink o =>
    subst hs
    exact .unlink rfl ⟨by simp, by simp, by simp⟩ rfl rfl

theorem StepEffect.next_le {a : SinkAction} (h : StepEffect s t p a) : s.next ≤ t.next := by
  cases h.name with
  | bind _ _ _ hnext _ => omega
  | unlink _ _ hnext _ _ => omega
  | keep _ hnext _ => omega

/-- An object of the sink of `q` after a step was its object before, or is the one that `p = q` has just made. -/
theorem StepEffect.made {a : SinkAction} (h : StepEffect s t p a) {o : Nat} (ho : (t.sink q).made = some o) :
    (s.sink q).made = some o ∨ q = p ∧ o = s.next ∧ s.name = none ∧ t.next = s.next + 1 := by
  rcases eq_or_ne q p with rfl | hq
  · cases h.name with
    | bind _ hfree _ hnext hnew =>
      rw [hnew] at ho
      cases ho
      exact .inr ⟨rfl, rfl, hfree, hnext⟩
    | unlink _ _ _ hkeeps _ => exact .inl (hkeeps.made o ho)
    | keep _ _ hkeeps => exact .inl (hkeeps.made o ho)
  · rw [h.others q hq] at ho
    exact .inl ho

theorem made_of_owns {phase : SinkPhase} {o : Nat} (h : phase.owns = some o) : phase.made = some o := by
  cases phase <;> first | exact h | cases h

theorem owns_of_serves {phase : SinkPhase} {o : Nat} (h : phase.serves = some o) : phase.owns = some o := by
  cases phase <;> first | exact h | cases h

theorem made_of_serves {phase : SinkPhase} {o : Nat} (h : phase.serves = some o) : phase.made = some o :=
  made_of_owns (owns_of_serves h)

theorem step_cases {a : LifecycleAction} (hs : s.step r a = some t) :
    (∃ p b, a = .sink p b ∧ 0 < p ∧ s.alive p = true ∧ s.sinkStep r p b = some t) ∨
      ∃ p, a = .crash p ∧ t = { s with alive := Function.update s.alive p false } := by
  cases a with
  | sink p b =>
    simp only [step, processAlive, Bool.and_eq_true, decide_eq_true_eq, Option.ite_none_right_eq_some] at hs
    exact .inl ⟨p, b, rfl, hs.1.1, hs.1.2, hs.2⟩
  | crash p =>
    cases hs
    exact .inr ⟨p, rfl, rfl⟩

/-! ### The schedules -/

/-- What the check of a constructor takes for granted, on the state before each step.  When the name refers to the
object of another live process, the look-up finds it: the calls on it succeed and it has its size.  A ring that is
looked at for readiness is not under construction by another live process.  And an unlink of `create` meets the name
free, or bound to the object it is meant for. -/
structure Undisturbed (s : LifecycleState) (a : LifecycleAction) : Prop where
  tryOpen : ∀ p success, a = .sink p (.tryOpen success) → ∀ q o, q ≠ p → s.alive q = true → s.name = some o →
    (s.sink q).serves = some o → success = true ∧ s.sink q ≠ .created o
  checkReady : ∀ p o, a = .sink p .checkReady → s.sink p = .opened o → ∀ q, q ≠ p → s.alive q = true →
    (s.sink q).serves = some o → s.sink q = .constructed o
  createUnlinks : ∀ p b, a = .sink p b → b.createUnlinks = true → s.name = none ∨ s.name = (s.sink p).target

/-- The unlink of a region meets the name free, or bound to the object of that region. -/
def UnlinksOwn (s : LifecycleState) (a : LifecycleAction) : Prop :=
  ∀ p, a = .sink p .regionUnlink → s.name = none ∨ s.name = (s.sink p).target

/-- No exclusive `shm_open` succeeds while the region of another live process has stopped to serve, by the store of
`ProducerFinished` or a failed map, and has not issued its unlink. -/
def WaitsForUnlink (s : LifecycleState) (a : LifecycleAction) : Prop :=
  ∀ p, a = .sink p (.openExclusive true) → s.name = none →
    ∀ q o, q ≠ p → s.alive q = true → (s.sink q).owns = some o → (s.sink q).serves = some o

/-! ### The invariant -/

/-- What a sink has written into its object. -/
def Built (r : LifecycleSetup) (p : Pid) (objects : Nat → ShmObject) : SinkPhase → Prop
  | .sized o | .mapped o => (objects o).size = r.total p
  | .storing o n => (objects o).size = r.total p ∧ n < (controlStores (r.capacity p).word p).length ∧
      (objects o).control = controlAfter (r.capacity p).word p n
  | .constructed o => (objects o).size = r.total p ∧ (objects o).control = initializeRingControl (r.capacity p).word p
  | _ => True

/-- What the checks of a constructor have found out about another live process `q` that serves `o`. -/
def Judges (o : Nat) (q : Pid) : SinkPhase → Prop
  | .sawPid o' pid => o' = o → pid = q
  | .mayCreate seen => seen ≠ some o
  | _ => True

/-- The name refers to the object of each live process that serves one. -/
def Bound (s : LifecycleState) : Prop := ∀ p o, s.alive p = true → (s.sink p).serves = some o → s.name = some o

structure Inv (r : LifecycleSetup) (s : LifecycleState) : Prop where
  name : ∀ o, s.name = some o → o < s.next
  made : ∀ p o, (s.sink p).made = some o → o < s.next
  looked : ∀ p o, (s.sink p).looked = some o → o < s.next
  unique : ∀ p q o, (s.sink p).made = some o → (s.sink q).made = some o → p = q
  positive : ∀ p o, (s.sink p).serves = some o → 0 < p
  built : ∀ p, Built r p s.objects (s.sink p)
  judged : ∀ p q o, q ≠ p → s.alive q = true → (s.sink q).serves = some o → Judges o q (s.sink p)
  bound : s.Bound

theorem Inv.init (h : s.Initial) : s.Inv r where
  name := h.2
  made p o ho := by simp [h.1 p] at ho
  looked p o ho := by simp [h.1 p] at ho
  unique p q o ho := by simp [h.1 p] at ho
  positive p o ho := by simp [h.1 p] at ho
  built p := by
    rw [h.1 p]
    trivial
  judged p q o _ _ ho := by simp [h.1 q] at ho
  bound p o _ ho := by simp [h.1 p] at ho

theorem alive_of_crash {p : Pid} (h : Function.update s.alive p false q = true) : s.alive q = true := by
  rcases eq_or_ne q p with rfl | hq
  · simp at h
  · simpa [hq] using h

theorem Inv.crash (h : s.Inv r) (p : Pid) : { s with alive := Function.update s.alive p false }.Inv r where
  name := h.name
  made := h.made
  looked := h.looked
  unique := h.unique
  positive := h.positive
  built := h.built
  judged p q o hq hlive ho := h.judged p q o hq (alive_of_crash hlive) ho
  bound q o hlive ho := h.bound q o (alive_of_crash hlive) ho

theorem Built.congr {objects objects' : Nat → ShmObject} {phase : SinkPhase} (h : Built r p objects phase)
    (hsame : ∀ o, phase.serves = some o → objects' o = objects o) : Built r p objects' phase := by
  cases phase <;> simp only [Built] at h ⊢ <;> rw [hsame _ rfl] <;> exact h

theorem total_opens (r : LifecycleSetup) (p : Pid) :
    r.total p ≠ 0 ∧ 2 * r.page ≤ r.total p ∧ (r.total p - r.page) % r.page = 0 := by
  have hpos := r.page_pos
  have hle : r.page ≤ (r.capacity p).bytes := Nat.le_of_dvd (r.capacity p).bytes_pos (r.page_dvd p)
  unfold LifecycleSetup.total
  refine ⟨by omega, by omega, ?_⟩
  rw [Nat.add_sub_cancel_left]
  exact Nat.mod_eq_zero_of_dvd (r.page_dvd p)

/-- An object that is served and sized passes the look-up. -/
theorem Inv.tryOpen (h : s.Inv r) {o : Nat} (hserves : (s.sink q).serves = some o) (hname : s.name = some o)
    (hsized : s.sink q ≠ .created o) : s.tryOpen r.page true = some o := by
  have hsize : (s.objects o).size = r.total q := by
    have hbuilt := h.built q
    cases hphase : s.sink q <;> simp only [hphase, Built, SinkPhase.serves, reduceCtorEq, Option.some.injEq] at hbuilt hserves
    case created =>
      rw [hphase, hserves] at hsized
      exact absurd rfl hsized
    all_goals
      subst hserves
      first | exact hbuilt | exact hbuilt.1
  obtain ⟨h0, h2, hmod⟩ := total_opens r q
  simp [LifecycleState.tryOpen, hname, hsize, h0, h2, hmod]

/-- What a constructor finds out by its own step, on a schedule that does not disturb it. -/
theorem Inv.judged_self (h : s.Inv r) {a : SinkAction} (hcare : s.Undisturbed (.sink p a))
    (hs : s.sinkStep r p a = some t) {o : Nat} (hq : q ≠ p) (hlive : s.alive q = true)
    (hserves : (s.sink q).serves = some o) : Judges o q (t.sink p) := by
  have hname := h.bound q o hlive hserves
  unfold sinkStep at hs
  cases hphase : s.sink p <;> cases a <;>
    simp only [hphase, reduceCtorEq, Option.some.injEq, Option.map_eq_some_iff] at hs
  case idle.tryOpen success =>
    -- the look-up finds the object, so that the name is not taken for free
    obtain ⟨rfl, hsized⟩ := hcare.tryOpen p success rfl q o hq hlive hname hserves
    subst hs
    rw [goto_self, h.tryOpen hserves hname hsized]
    trivial
  case opened.checkReady o' =>
    subst hs
    rw [goto_self]
    by_cases ho : o' = o
    · subst ho
      have hbuilt := h.built q
      rw [hcare.checkReady p o' rfl hphase q hq hlive hserves] at hbuilt
      rw [hbuilt.2, if_pos (ringControlReady_initialized ..)]
      exact fun _ => rfl
    · split
      · exact fun h => absurd h ho
      · rintro ⟨⟩
        exact ho rfl
  case sawPid.checkAlive o' pid =>
    subst hs
    rw [goto_self]
    have hpid := h.judged p q o hq hlive hserves
    rw [hphase] at hpid
    split
    case isTrue => trivial
    case isFalse hcheck =>
      rintro ⟨⟩
      refine hcheck ?_
      rw [hpid rfl]
      exact ⟨by simp [processAlive, hlive, h.positive q o hserves], hq⟩
  case storing.store =>
    obtain ⟨store, -, rfl⟩ := hs
    rw [goto_self]
    split <;> trivial
  case unlinked.openExclusive =>
    split at hs <;> cases hs <;> rw [goto_self] <;> trivial
  case created.truncate =>
    split at hs <;> cases hs <;> rw [goto_self] <;> trivial
  case sized.map success =>
    subst hs
    rw [goto_self]
    cases success <;> trivial
  all_goals
    subst hs
    rw [goto_self]
    trivial

theorem Built.sinkStep {a : SinkAction} (h : Built r p s.objects (s.sink p)) (hs : s.sinkStep r p a = some t) :
    Built r p t.objects (t.sink p) := by
  unfold LifecycleState.sinkStep at hs
  cases hphase : s.sink p <;> cases a <;>
    simp only [hphase, reduceCtorEq, Option.some.injEq, Option.map_eq_some_iff] at hs <;> rw [hphase] at h
  case idle.tryOpen =>
    subst hs
    rw [goto_self]
    split <;> trivial
  case opened.checkReady =>
    subst hs
    rw [goto_self]
    split <;> trivial
  case sawPid.checkAlive =>
    subst hs
    rw [goto_self]
    split <;> trivial
  case unlinked.openExclusive =>
    split at hs <;> cases hs <;> rw [goto_self] <;> trivial
  case created.truncate o success =>
    split at hs <;> cases hs <;> rw [goto_self]
    · simp [Built, goto, setObject]
    · trivial
  case sized.map o success =>
    subst hs
    rw [goto_self]
    cases success
    · trivial
    · exact h
  case mapped.construct o =>
    subst hs
    rw [goto_self]
    refine ⟨?_, Nat.succ_pos _, ?_⟩ <;> simp only [goto, setObject, Function.update_self]
    · exact h
    · rfl
  case storing.store o n =>
    obtain ⟨store, hstore, rfl⟩ := hs
    obtain ⟨hsize, hn, hcontrol⟩ := h
    have hnext := controlAfter_succ hstore
    rw [goto_self]
    split
    case isTrue hlast =>
      rw [hlast, controlAfter_length] at hnext
      refine ⟨?_, ?_⟩ <;> simp only [goto, setObject, Function.update_self]
      · exact hsize
      · rw [hcontrol, hnext]
    case isFalse hmore =>
      refine ⟨?_, by omega, ?_⟩ <;> simp only [goto, setObject, Function.update_self]
      · exact hsize
      · rw [hcontrol, hnext]
  all_goals
    subst hs
    rw [goto_self]
    trivial

/-- No unlink on a schedule with the condition is meant for the object of another live process that serves it. -/
theorem Inv.ne_target (h : s.Inv r) {o : Nat} (hq : q ≠ p) (hlive : s.alive q = true)
    (hserves : (s.sink q).serves = some o) : (s.sink p).target ≠ some o := by
  intro htarget
  have hjudged := h.judged p q o hq hlive hserves
  have hunique := h.unique p q o
  cases hphase : s.sink p <;> rw [hphase] at htarget hjudged hunique
  case mayCreate seen => exact hjudged htarget
  case finished => exact hq (hunique htarget (made_of_serves hserves)).symm
  case mapFailed => exact hq (hunique htarget (made_of_serves hserves)).symm
  case cleanup => exact hq (hunique htarget (made_of_serves hserves)).symm
  all_goals cases htarget

theorem Inv.sinkStep (h : s.Inv r) {a : SinkAction} (hp : 0 < p) (hcare : s.Undisturbed (.sink p a))
    (hown : s.UnlinksOwn (.sink p a)) (hs : s.sinkStep r p a = some t) : t.Inv r := by
  have heffect := sinkStep_effect hs
  have hnext := heffect.next_le
  -- a live process that serves after the step served before it, or has just made its object
  have hserves {q : Pid} {o : Nat} (ho : (t.sink q).serves = some o) :
      (s.sink q).serves = some o ∨ q = p ∧ o = s.next ∧ t.name = some o ∧ t.sink q = .created o := by
    rcases eq_or_ne q p with rfl | hq
    · cases heffect.name with
      | bind _ _ hname _ hnew =>
        rw [hnew] at ho
        cases ho
        exact .inr ⟨rfl, rfl, hname, hnew⟩
      | unlink _ _ _ hkeeps _ => exact .inl (hkeeps.serves o ho)
      | keep _ _ hkeeps => exact .inl (hkeeps.serves o ho)
    · rw [heffect.others q hq] at ho
      exact .inl ho
  have hmade {q : Pid} {o : Nat} (ho : (t.sink q).made = some o) :=
    heffect.made (q := q) ho
  constructor
  case name =>
    intro o ho
    cases heffect.name with
    | bind _ _ hname hnext' _ =>
      rw [hname] at ho
      cases ho
      omega
    | unlink _ hname _ _ _ =>
      rw [hname] at ho
      cases ho
    | keep hname _ _ =>
      rw [hname] at ho
      exact Nat.lt_of_lt_of_le (h.name o ho) hnext
  case made =>
    intro q o ho
    rcases hmade ho with ho | ⟨-, rfl, -, hnext'⟩
    · exact Nat.lt_of_lt_of_le (h.made q o ho) hnext
    · omega
  case looked =>
    intro q o ho
    refine Nat.lt_of_lt_of_le ?_ hnext
    rcases eq_or_ne q p with rfl | hq
    · rcases heffect.looked o ho with ho | ho
      · exact h.looked q o ho
      · exact h.name o ho
    · rw [heffect.others q hq] at ho
      exact h.looked q o ho
  case unique =>
    intro q q' o ho ho'
    rcases hmade ho with hq | ⟨rfl, rfl, -⟩ <;> rcases hmade ho' with hq' | ⟨rfl, ho', -⟩
    · exact h.unique q q' o hq hq'
    · have := h.made q o hq
      omega
    · have := h.made q' _ hq'
      omega
    · rfl
  case positive =>
    intro q o ho
    rcases hserves ho with ho | ⟨rfl, -⟩
    · exact h.positive q o ho
    · exact hp
  case built =>
    intro q
    rcases eq_or_ne q p with rfl | hq
    · exact (h.built q).sinkStep hs
    · rw [heffect.others q hq]
      refine (h.built q).congr fun o ho => heffect.objects o ?_ ?_
      · exact Nat.ne_of_lt (h.made q o (made_of_serves ho))
      · intro hp'
        exact hq (h.unique q p o (made_of_serves ho) (made_of_serves hp'))
  case judged =>
    intro p' q o hq hlive ho
    rw [heffect.alive] at hlive
    rcases hserves ho with ho | ⟨rfl, rfl, -⟩
    · rcases eq_or_ne p' p with rfl | hp'
      · exact h.judged_self hcare hs hq hlive ho
      · rw [heffect.others p' hp']
        exact h.judged p' q o hq hlive ho
    · -- nobody has looked at an object that did not exist
      have hold := h.looked p' s.next
      rw [heffect.others p' hq.symm]
      cases hphase : s.sink p' <;> rw [hphase] at hold <;> simp only [Judges]
      case sawPid o' pid =>
        intro ho'
        exact absurd (hold (by rw [ho']; rfl)) (Nat.lt_irrefl _)
      case mayCreate seen =>
        intro hseen
        exact Nat.lt_irrefl _ (hold hseen)
  case bound =>
    intro q o hlive ho
    rw [heffect.alive] at hlive
    rcases hserves ho with hold | ⟨rfl, rfl, hname, -⟩
    · have hname := h.bound q o hlive hold
      cases heffect.name with
      | bind _ hfree _ _ _ =>
        rw [hfree] at hname
        cases hname
      | unlink hunlinks _ _ _ hnone =>
        -- an unlink meets the name free or bound to its own target, which is the object of no other live process
        rcases eq_or_ne q p with rfl | hq
        · rw [owns_of_serves ho] at hnone
          cases hnone
        · have htarget : s.name = none ∨ s.name = (s.sink p).target := by
            by_cases hregion : a = .regionUnlink
            · exact hown p (by rw [hregion])
            · refine hcare.createUnlinks p a rfl ?_
              cases a <;> first | rfl | exact hunlinks | exact absurd rfl hregion
          rcases htarget with hfree | htarget
          · rw [hfree] at hname
            cases hname
          · exact absurd (htarget.symm.trans hname) (h.ne_target hq hlive hold)
      | keep hsame _ _ => rw [hsame, hname]
    · exact hname

theorem Inv.of_reachable
    (h : (lifecycleMachine r).ReachableUnder (fun s a => s.Undisturbed a ∧ s.UnlinksOwn a) s) : s.Inv r := by
  refine Machine.ReachableUnder.invariant (fun _ => Inv.init) ?_ h
  rintro s a t hi ⟨hcare, hown⟩ hs
  rcases step_cases hs with ⟨p, b, rfl, hp, -, hs⟩ | ⟨p, -, rfl⟩
  · exact hi.sinkStep hp hcare hown hs
  · exact hi.crash p

/-! ### Regions that leave -/

/-- The name is free, or refers to the object of each live region that owns it. -/
def Left (s : LifecycleState) : Prop :=
  ∀ p o, s.alive p = true → (s.sink p).owns = some o → s.name = none ∨ s.name = some o

theorem owns_of_regionUnlink (hs : s.sinkStep r p .regionUnlink = some t) :
    (s.sink p).owns = (s.sink p).target ∧ ∃ o, (s.sink p).owns = some o := by
  unfold LifecycleState.sinkStep at hs
  cases hphase : s.sink p <;> simp only [hphase, reduceCtorEq] at hs <;> exact ⟨rfl, _, rfl⟩

/-- While the name is no other one than that of a region that owns it, its unlink removes no other one. -/
theorem Left.unlinksOwn (h : s.Left) {a : SinkAction} (hlive : s.alive p = true) (hs : s.sinkStep r p a = some t) :
    s.UnlinksOwn (.sink p a) := by
  rintro _ ⟨⟩
  obtain ⟨htarget, o, ho⟩ := owns_of_regionUnlink hs
  rw [← htarget, ho]
  exact h p o hlive ho

theorem Left.sinkStep (h : s.Left) (hi : s.Inv r) {a : SinkAction} (hwaits : s.WaitsForUnlink (.sink p a))
    (hs : s.sinkStep r p a = some t) : t.Left := by
  have heffect := sinkStep_effect hs
  intro q o hlive ho
  rw [heffect.alive] at hlive
  cases heffect.name with
  | bind ha hfree hname _ hnew =>
    rcases eq_or_ne q p with rfl | hq
    · rw [hnew] at ho
      cases ho
      exact .inr hname
    · -- the region of `q` has not stopped to serve, so the name cannot have been free
      rw [heffect.others q hq] at ho
      have hserves := hwaits p (by rw [ha]) hfree q o hq hlive ho
      rw [hi.bound q o hlive hserves] at hfree
      cases hfree
  | unlink _ hname _ _ _ => exact .inl hname
  | keep hname _ hkeeps =>
    rw [hname]
    refine h q o hlive ?_
    rcases eq_or_ne q p with rfl | hq
    · exact hkeeps.owns o ho
    · rwa [heffect.others q hq] at ho

theorem Left.of_reachable
    (h : (lifecycleMachine r).ReachableUnder (fun s a => s.Undisturbed a ∧ s.WaitsForUnlink a) s) : s.Inv r ∧ s.Left := by
  refine Machine.ReachableUnder.invariant (I := fun s => s.Inv r ∧ s.Left) ?_ ?_ h
  · intro s hinit
    refine ⟨Inv.init hinit, fun p o _ ho => ?_⟩
    simp [hinit.1 p] at ho
  · rintro s a t ⟨hi, hleft⟩ ⟨hcare, hwaits⟩ hs
    rcases step_cases hs with ⟨p, b, rfl, hp, hlive, hs⟩ | ⟨p, -, rfl⟩
    · exact ⟨hi.sinkStep hp hcare (hleft.unlinksOwn hlive hs) hs, hleft.sinkStep hi hwaits hs⟩
    · exact ⟨hi.crash p, fun q o hlive ho => hleft q o (alive_of_crash hlive) ho⟩

/-! ### Exclusivity -/

/-- A live producer that is constructed has the name, and no other one is constructed. -/
def Exclusive (s : LifecycleState) : Prop :=
  ∀ p o, s.alive p = true → s.sink p = .constructed o →
    s.name = some o ∧ ∀ q o', s.alive q = true → s.sink q = .constructed o' → q = p

/-- A live producer that is constructed has the name, and a region unlinks the name of its own object only. -/
def NameKept (r : LifecycleSetup) (s : LifecycleState) : Prop :=
  (∀ p o, s.alive p = true → s.sink p = .constructed o → s.name = some o) ∧
    ∀ p t o, s.step r (.sink p .regionUnlink) = some t → s.name = some o → (s.sink p).owns = some o

/-- A host on which the name is free. -/
def fresh : LifecycleState := ⟨none, fun _ => ⟨0, .zero⟩, 0, fun _ => true, fun _ => .idle⟩

theorem fresh_initial : fresh.Initial := ⟨fun _ => rfl, fun _ h => by cases h⟩

/-- Whether a step goes well beside the sink of another process in the given phase. -/
def goesWell : SinkAction → SinkPhase → Bool
  | .tryOpen _, .created _ => false
  | .tryOpen success, _ => success
  | .checkReady, .constructed _ => true
  | .checkReady, phase => phase.serves.isNone
  | .openExclusive _, .finished _ => false
  | .openExclusive _, .mapFailed _ => false
  | _, _ => true

/-- The conditions on a step, read off the sinks of the processes in `ps`. -/
def careful (ps : List Pid) (s : LifecycleState) : LifecycleAction → Bool
  | .sink p b => ps.contains p && (!b.unlinks || s.name = none || s.name = (s.sink p).target) &&
      ps.all fun q => q = p || goesWell b (s.sink q)
  | .crash _ => true

theorem constructed_of_goesWell {phase : SinkPhase} {o : Nat} (hserves : phase.serves = some o)
    (h : goesWell .checkReady phase = true) : phase = .constructed o := by
  cases phase <;> simp_all [goesWell]

theorem careful_spec {ps : List Pid} {a : LifecycleAction} (hidle : ∀ q, q ∉ ps → s.sink q = .idle)
    (h : s.careful ps a = true) : s.Undisturbed a ∧ s.UnlinksOwn a ∧ s.WaitsForUnlink a := by
  cases a with
  | crash p => exact ⟨⟨by rintro _ _ ⟨⟩, by rintro _ _ ⟨⟩, by rintro _ _ ⟨⟩⟩, by rintro _ ⟨⟩, by rintro _ ⟨⟩⟩
  | sink p b =>
    simp only [careful, Bool.and_eq_true, List.all_eq_true, Bool.or_eq_true, decide_eq_true_eq, Bool.not_eq_true',
      or_assoc] at h
    obtain ⟨⟨-, hunlinks⟩, hall⟩ := h
    have hother {q : Pid} (hq : q ≠ p) {o : Nat} (ho : (s.sink q).owns = some o) := by
      have hmem : q ∈ ps := by
        by_contra hnot
        simp [hidle q hnot] at ho
      exact (hall q hmem).resolve_left hq
    refine ⟨⟨?_, ?_, ?_⟩, ?_, ?_⟩
    · rintro _ success ⟨⟩ q o hq _ _ ho
      have hcheck := hother hq (owns_of_serves ho)
      cases hphase : s.sink q <;> rw [hphase] at hcheck ho <;>
        first | exact ⟨hcheck, by rintro ⟨⟩⟩ | exact absurd hcheck Bool.false_ne_true
    · rintro _ o ⟨⟩ _ q hq _ ho
      exact constructed_of_goesWell ho (hother hq (owns_of_serves ho))
    · rintro _ _ ⟨⟩ hcreate
      refine hunlinks.resolve_left ?_
      cases b <;> first | exact Bool.noConfusion | cases hcreate
    · rintro _ ⟨⟩
      exact hunlinks.resolve_left Bool.noConfusion
    · rintro _ ⟨⟩ _ q o hq _ ho
      have hcheck := hother hq ho
      cases hphase : s.sink q <;> rw [hphase] at hcheck ho <;> first | exact ho | exact absurd hcheck Bool.false_ne_true

/-- A run of the processes in `ps` on which each step is careful meets all the conditions. -/
theorem reachable_careful {ps : List Pid} (hinit : s.Initial) {as : List LifecycleAction}
    (hr : (lifecycleMachine r).runUnder (careful ps) s as = some t) :
    (lifecycleMachine r).ReachableUnder (fun s a => s.Undisturbed a ∧ s.UnlinksOwn a ∧ s.WaitsForUnlink a) t := by
  refine Machine.ReachableUnder.checked (I := fun s => ∀ q, q ∉ ps → s.sink q = .idle) ?_ ?_
    (.init hinit) (fun q _ => hinit.1 q) hr
  · intro s a hidle h
    exact careful_spec hidle h
  · intro s a t hidle h hs q hq
    have hs : s.step r a = some t := hs
    rcases step_cases hs with ⟨p, b, rfl, -, -, hs⟩ | ⟨p, -, rfl⟩
    · have hmem : p ∈ ps := by
        simp only [careful, Bool.and_eq_true, List.contains_iff_mem] at h
        exact h.1.1
      rw [(sinkStep_effect hs).others q (by rintro rfl; exact hq hmem)]
      exact hidle q hq
    · exact hidle q hq

end LifecycleState

theorem page16_pos : 0 < 16 := by decide

theorem page16_dvd : 16 ∣ capacity16.bytes := by decide

/-- The smallest rings. -/
def lifecycleSetup16 : LifecycleSetup := ⟨16, fun _ => capacity16, page16_pos, fun _ => page16_dvd⟩

/-- `create` from its exclusive `shm_open` on, and the initialisation. -/
def makeActions (p : Pid) : List LifecycleAction :=
  [.sink p (.openExclusive true), .sink p (.truncate true), .sink p (.map true), .sink p .construct, .sink p .store,
    .sink p .store, .sink p .store, .sink p .store, .sink p .store, .sink p .store, .sink p .store, .sink p .store]

/-- `create` and the initialisation. -/
def createActions (p : Pid) : List LifecycleAction := .sink p .unlinkStale :: makeActions p

/-- The process 1 constructs its sink and 2 is refused; 1 begins its destructor, 3 judges its ring and removes the name,
then 1 issues its unlink and 3 makes its own ring. -/
def contestedActions : List LifecycleAction :=
  [.sink 1 (.tryOpen true)] ++ createActions 1 ++
    [.sink 2 (.tryOpen true), .sink 2 .checkReady, .sink 2 .checkAlive, .sink 1 .finish, .sink 3 (.tryOpen true),
      .sink 3 .checkReady, .sink 3 .unlinkStale, .sink 1 .regionUnlink] ++ makeActions 3

/-- Both look before either creates: the second one removes the name of the first, and both complete. -/
theorem both_producers_construct : ¬∀ s, (lifecycleMachine lifecycleSetup16).Reachable s → s.Exclusive := by
  intro h
  have hrun (s : LifecycleState) (hr : (lifecycleMachine lifecycleSetup16).run .fresh
      ([.sink 1 (.tryOpen true), .sink 2 (.tryOpen true)] ++ createActions 1 ++ createActions 2) = some s) :=
    h s ((Machine.Reachable.init LifecycleState.fresh_initial).run hr)
  have htwo := ((hrun _ rfl) 1 0 rfl rfl).2 2 1 rfl rfl
  exact absurd htwo (by decide)

/-- In every run on which no look-up misses or misjudges a ring that a live process is making, and each unlink meets the
name free or bound to the object it is meant for, a live producer that is constructed has the name and is the only one:
the check of the stored pid refuses the others. -/
theorem producer_exclusive (r : LifecycleSetup) {s : LifecycleState}
    (h : (lifecycleMachine r).ReachableUnder (fun s a => s.Undisturbed a ∧ s.UnlinksOwn a) s) : s.Exclusive := by
  have hi := LifecycleState.Inv.of_reachable h
  intro p o hlive hphase
  have hname := hi.bound p o hlive (by rw [hphase]; rfl)
  refine ⟨hname, fun q o' hqlive hqphase => ?_⟩
  have hqname := hi.bound q o' hqlive (by rw [hqphase]; rfl)
  rw [hname] at hqname
  cases hqname
  exact hi.unique q p o (by rw [hqphase]; rfl) (by rw [hphase]; rfl)

theorem producer_exclusive_contested : ∃ s,
    (lifecycleMachine lifecycleSetup16).runUnder (LifecycleState.careful [1, 2, 3]) .fresh contestedActions = some s ∧
      s.sink 2 = .refused ∧ s.sink 3 = .constructed 1 ∧ s.name = some 1 := by
  have h (s : LifecycleState) (hr : (lifecycleMachine lifecycleSetup16).runUnder (LifecycleState.careful [1, 2, 3])
      .fresh contestedActions = some s) :=
    producer_exclusive lifecycleSetup16 ((LifecycleState.reachable_careful LifecycleState.fresh_initial hr).mono
      fun _ _ hg => ⟨hg.1, hg.2.1⟩)
  exact ⟨_, rfl, rfl, rfl, (h _ rfl 3 1 rfl rfl).1⟩

/-- A successor that is constructed between the two steps of the destructor loses its name to the second one. -/
theorem successor_unlinked :
    ¬∀ s, (lifecycleMachine lifecycleSetup16).Reachable s → s.NameKept lifecycleSetup16 := by
  intro h
  have hrun (s : LifecycleState) (hr : (lifecycleMachine lifecycleSetup16).run .fresh
      ([.sink 1 (.tryOpen true)] ++ createActions 1 ++ [.sink 1 .finish, .sink 2 (.tryOpen true), .sink 2 .checkReady] ++
        createActions 2 ++ [.sink 1 .regionUnlink]) = some s) :=
    h s ((Machine.Reachable.init LifecycleState.fresh_initial).run hr)
  have hname := (hrun _ rfl).1 2 1 rfl rfl
  cases hname

/-- In every run on which no look-up misses or misjudges a ring that a live process is making, the unlinks of `create`
meet the name free or bound to the object they are meant for, and no exclusive `shm_open` succeeds between the end of
the service of another live region and its unlink, a region unlinks its own object only and a producer that is
constructed keeps its name. -/
theorem successor_keeps_name (r : LifecycleSetup) {s : LifecycleState}
    (h : (lifecycleMachine r).ReachableUnder (fun s a => s.Undisturbed a ∧ s.WaitsForUnlink a) s) : s.NameKept r := by
  obtain ⟨hi, hleft⟩ := LifecycleState.Left.of_reachable h
  refine ⟨fun p o hlive hphase => hi.bound p o hlive (by rw [hphase]; rfl), ?_⟩
  intro p t o hs hname
  rcases LifecycleState.step_cases hs with ⟨_, _, ⟨⟩, -, hlive, hs⟩ | ⟨q, ha, -⟩
  · obtain ⟨-, o', ho'⟩ := LifecycleState.owns_of_regionUnlink hs
    rcases hleft p o' hlive ho' with hnone | hsome
    · rw [hname] at hnone
      cases hnone
    · rw [hname] at hsome
      cases hsome
      exact ho'
  · cases ha

theorem successor_keeps_name_contested : ∃ s,
    (lifecycleMachine lifecycleSetup16).runUnder (LifecycleState.careful [1, 2, 3]) .fresh contestedActions = some s ∧
      s.sink 1 = .gone ∧ s.sink 3 = .constructed 1 ∧ s.name = some 1 := by
  have h (s : LifecycleState) (hr : (lifecycleMachine lifecycleSetup16).runUnder (LifecycleState.careful [1, 2, 3])
      .fresh contestedActions = some s) :=
    successor_keeps_name lifecycleSetup16 ((LifecycleState.reachable_careful LifecycleState.fresh_initial hr).mono
      fun _ _ hg => ⟨hg.1, hg.2.2⟩)
  exact ⟨_, rfl, rfl, rfl, (h _ rfl).1 3 1 rfl rfl⟩

end ProducerConsumer
