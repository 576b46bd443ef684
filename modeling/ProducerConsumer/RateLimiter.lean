import Mathlib.Algebra.Order.Ring.Int
import ProducerConsumer.Lib.Cadence
import ProducerConsumer.Lib.Machine

/-!
# The rate limiter

`wait_for_slot` reads the clock until the scheduled time has come and then schedules the next slot.  How long it sleeps
between two readings, and what happens between two calls, only moves the clock; times are integers, so nothing is out of
range.
-/

namespace ProducerConsumer

open Transition

/-- `RateLimiter`, its duration and time point as counts of clock ticks. -/
structure RateLimiter where
  interval : Int
  next : Int

namespace RateLimiter

/-- The constructor.  For a positive rate the period is the ticks between two packets, rounded down. -/
def new (period : Option Int) (now : Int) : RateLimiter :=
  match period with
  | none => ⟨0, now⟩
  | some period => ⟨if period = 0 then 1 else period, now⟩

def enabled (limiter : RateLimiter) : Bool := 0 < limiter.interval

/-- The last line of `wait_for_slot`. -/
def schedule (limiter : RateLimiter) (now : Int) : RateLimiter :=
  { limiter with
    next := if now - limiter.next < limiter.interval then limiter.next + limiter.interval else now + limiter.interval }

end RateLimiter

/-- A reading of the clock in `wait_for_slot`, and what the stop token says then. -/
structure ClockReading where
  now : Int
  stopRequested : Bool

/-- A limiter, the last reading of the clock, and for every call that has returned the time it was scheduled for and the
reading with which it returned. -/
structure PacedState where
  limiter : RateLimiter
  clock : Int
  calls : List (Int × Int)

namespace PacedState

def initial (limiter : RateLimiter) (now : Int) : PacedState := ⟨limiter, now, []⟩

/-- One round of the loop of `wait_for_slot`: the call returns, or the loop goes on with the next reading. -/
def step (s : PacedState) (reading : ClockReading) : Option PacedState :=
  if reading.now < s.clock || !s.limiter.enabled then none
  else if reading.now < s.limiter.next && !reading.stopRequested then some { s with clock := reading.now }
  else some ⟨s.limiter.schedule reading.now, reading.now, s.calls ++ [(s.limiter.next, reading.now)]⟩

end PacedState

/-- Calls of a limiter with a given period, from its construction on. -/
def pacedMachine (period : Int) : Machine PacedState ClockReading where
  init s := ∃ now, s = .initial (.new (some period) now) now
  step := PacedState.step

namespace PacedState

/-- The time for which the call `k` is scheduled, the call to come included. -/
def scheduledAt (s : PacedState) (k : Nat) : Int := ((s.calls.map Prod.fst ++ [s.limiter.next])[k]?).getD 0

/-- The reading with which the call `k` returned. -/
def returnedAt (s : PacedState) (k : Nat) : Int := ((s.calls.map Prod.snd)[k]?).getD 0

/-- The calls that have returned keep the cadence. -/
structure Paced (interval : Int) (s : PacedState) : Prop where
  interval_eq : s.limiter.interval = interval
  keeps : Cadence.Keeps interval s.scheduledAt s.returnedAt s.calls.length

section

variable (s : PacedState) (now : Int)

/-- The state after a call has returned with the reading `now`. -/
def returned : PacedState := ⟨s.limiter.schedule now, now, s.calls ++ [(s.limiter.next, now)]⟩

theorem scheduledAt_length : s.scheduledAt s.calls.length = s.limiter.next := by simp [scheduledAt]

theorem returned_scheduledAt {k : Nat} (hk : k ≤ s.calls.length) :
    (s.returned now).scheduledAt k = s.scheduledAt k := by
  unfold scheduledAt returned
  rw [List.map_append, List.getElem?_append_left (by simpa using Nat.lt_succ_of_le hk)]
  rfl

theorem returned_scheduledAt_next :
    (s.returned now).scheduledAt (s.calls.length + 1)
      = Cadence.nextSlot s.limiter.interval (s.scheduledAt s.calls.length) now := by
  rw [scheduledAt_length]
  simp [scheduledAt, returned, RateLimiter.schedule, Cadence.nextSlot]

theorem returned_returnedAt {k : Nat} (hk : k < s.calls.length) : (s.returned now).returnedAt k = s.returnedAt k := by
  unfold returnedAt returned
  rw [List.map_append, List.getElem?_append_left (by simpa using hk)]

theorem returned_returnedAt_last : (s.returned now).returnedAt s.calls.length = now := by
  simp [returnedAt, returned]

end

/-- What a reading can do while no stop is requested. -/
theorem step_cases {s t : PacedState} {reading : ClockReading} (hstop : reading.stopRequested = false)
    (h : s.step reading = some t) : (t = { s with clock := reading.now } ∨
      s.limiter.next ≤ reading.now ∧ t = s.returned reading.now) := by
  unfold step at h
  split at h
  · cases h
  split at h
  · cases h
    exact .inl rfl
  · rename_i hwait
    cases h
    exact .inr ⟨by simpa [hstop] using hwait, rfl⟩

theorem step_split {s t : PacedState} {reading : ClockReading} (h : s.step reading = some t) :
    t = { s with clock := reading.now } ∨ t = s.returned reading.now := by
  unfold step at h
  split at h
  · cases h
  split at h <;> cases h
  · exact .inl rfl
  · exact .inr rfl

/-- A call that returns early does not change what the calls before it keep. -/
theorem Paced.early {interval : Int} {s : PacedState} (h : s.Paced interval) (now : Int) :
    Cadence.Keeps interval (s.returned now).scheduledAt (s.returned now).returnedAt s.calls.length := by
  refine ⟨fun k hk => ?_, fun k hk => ?_⟩
  · rw [s.returned_scheduledAt _ (Nat.le_of_lt hk), s.returned_returnedAt _ hk]
    exact h.keeps.taken k hk
  · rw [s.returned_scheduledAt _ (Nat.succ_le_of_lt hk), s.returned_scheduledAt _ (Nat.le_of_lt hk),
      s.returned_returnedAt _ hk]
    exact h.keeps.next k hk

theorem Paced.initial {interval : Int} (now : Int) : Paced interval (.initial ⟨interval, now⟩ now) where
  interval_eq := rfl
  keeps := ⟨fun k hk => absurd hk (Nat.not_lt_zero k), fun k hk => absurd hk (Nat.not_lt_zero k)⟩

theorem Paced.step {interval : Int} {s t : PacedState} {reading : ClockReading} (h : s.Paced interval)
    (hstop : reading.stopRequested = false) (hs : s.step reading = some t) : t.Paced interval := by
  obtain rfl | ⟨hdue, rfl⟩ := step_cases hstop hs
  · exact ⟨h.interval_eq, h.keeps.taken, h.keeps.next⟩
  · have hlength : (s.returned reading.now).calls.length = s.calls.length + 1 := by simp [returned]
    refine ⟨h.interval_eq, ⟨fun k hk => ?_, fun k hk => ?_⟩⟩
    · rw [hlength] at hk
      obtain hk | rfl := Nat.lt_succ_iff_lt_or_eq.1 hk
      · rw [s.returned_scheduledAt _ (Nat.le_of_lt hk), s.returned_returnedAt _ hk]
        exact h.keeps.taken k hk
      · rw [s.returned_scheduledAt _ le_rfl, s.returned_returnedAt_last, scheduledAt_length]
        exact hdue
    · rw [hlength] at hk
      obtain hk | rfl := Nat.lt_succ_iff_lt_or_eq.1 hk
      · rw [s.returned_scheduledAt _ (Nat.succ_le_of_lt hk), s.returned_scheduledAt _ (Nat.le_of_lt hk),
          s.returned_returnedAt _ hk]
        exact h.keeps.next k hk
      · rw [s.returned_scheduledAt_next, s.returned_scheduledAt _ le_rfl, s.returned_returnedAt_last, h.interval_eq]

end PacedState

/-- In every run without a stop request the calls are spaced, and while they are on time the schedule keeps its
cadence. -/
theorem limiter_paced {interval : Int} (hpos : 0 < interval) {s : PacedState}
    (h : (pacedMachine interval).ReachableUnder (fun _ reading => reading.stopRequested = false) s) :
    (∀ i j, i < j → j < s.calls.length → ((j : Int) - i - 1) * interval < s.returnedAt j - s.returnedAt i) ∧
    ((∀ k < s.calls.length, s.returnedAt k - s.scheduledAt k < interval) →
      ∀ i ≤ s.calls.length, s.scheduledAt i = s.scheduledAt 0 + i * interval) := by
  have hpaced : s.Paced interval := by
    refine h.invariant ?_ fun s a t hs hstop hstep => hs.step hstop hstep
    rintro _ ⟨now, rfl⟩
    have hnew : RateLimiter.new (some interval) now = ⟨interval, now⟩ := by simp [RateLimiter.new, hpos.ne']
    rw [hnew]
    exact .initial now
  constructor
  · intro i j hij hj
    obtain ⟨d, rfl⟩ : ∃ d, j = i + d + 1 := ⟨j - i - 1, by omega⟩
    have hspaced := hpaced.keeps.spaced hpos hj
    rw [nsmul_eq_mul] at hspaced
    have hd : ((i + d + 1 : Nat) : Int) - i - 1 = d := by omega
    rw [hd]
    exact hspaced
  · intro hlate i hi
    rw [hpaced.keeps.on_time hlate hi, nsmul_eq_mul]

/-- One packet every 10 ticks: after the call that returns at 45, scheduled for 20, the next is scheduled for 55. -/
theorem limiter_paced_stall : ∃ s : PacedState, s.calls = [(0, 0), (10, 12), (20, 45)] ∧ s.limiter.next = 55 ∧
    ((2 : Int) - 0 - 1) * 10 < s.returnedAt 2 - s.returnedAt 0 := by
  have h : (pacedMachine 10).ReachableUnder (fun _ reading => reading.stopRequested = false)
      ⟨⟨10, 55⟩, 45, [(0, 0), (10, 12), (20, 45)]⟩ :=
    .step (a := ⟨45, false⟩) (.step (a := ⟨12, false⟩) (.step (a := ⟨9, false⟩) (.step (a := ⟨0, false⟩)
      (.init ⟨0, rfl⟩) rfl rfl) rfl rfl) rfl rfl) rfl rfl
  exact ⟨_, rfl, rfl, (limiter_paced (by decide) h).1 0 2 (by decide) (by decide)⟩

end ProducerConsumer
