import ProducerConsumer.Continuity
import ProducerConsumer.Lib.Succession

/-!
# Missing packets

A run of `validate` after a resync: the numbers reported as missing less the distances of the rewinds telescope over the
uncorrupted records, whatever stands between them, and the statistics add up what was reported.
-/

namespace ProducerConsumer

open Succession

/-- The calls of `validate` on the records, each with its receive time. -/
def validations (records : List (List U8 × Int)) : List ValidatorCall := records.map fun r => .validate r.1 r.2

/-- The sequence numbers of the uncorrupted records. -/
def arrivals (records : List (List U8 × Int)) : List Nat :=
  (records.filter fun r => uncorrupted r.1).map fun r => (Stamp.of r.1).sequence.toNat

/-- For a packet reported as `SequenceRewind`, the previous uncorrupted sequence number plus one less the own one. -/
def rewound (last : Option U64) (r : ValidationResult) : Int :=
  match last with
  | some s => if r.has .SequenceRewind then (s.toNat : Int) + 1 - r.sequence.toNat else 0
  | none => 0

/-- The sum of these distances; `last` is the previous sequence number before the first result. -/
def rewindDistance (last : Option U64) : List ValidationResult → Int
  | [] => 0
  | r :: results =>
    if r.corrupted then rewindDistance last results
    else rewound last r + rewindDistance (some r.sequence) results

/-- The statistics after these results and record sizes. -/
def ConsumerStats.recordAll (s : ConsumerStats) (recorded : List (ValidationResult × U64)) : ConsumerStats :=
  recorded.foldl (fun s r => s.record r.1 r.2) s

theorem arrivals_cons (r : List U8 × Int) (records : List (List U8 × Int)) :
    arrivals (r :: records) =
      if uncorrupted r.1 then (Stamp.of r.1).sequence.toNat :: arrivals records else arrivals records := by
  unfold arrivals
  rw [List.filter_cons]
  split <;> rfl

namespace PacketValidator

/-- A gap is reported exactly with a number of missing packets. -/
theorem gap_iff_missing (v : PacketValidator) (record : List U8) (nowNs : Int) :
    (v.validate record nowNs).1.has .SequenceGap = true ↔ (v.validate record nowNs).1.missing.toNat ≠ 0 := by
  by_cases hu : uncorrupted record = true
  · have htrusted := (uncorrupted_iff v).1 hu
    rw [(has_of_trusted htrusted nowNs).2.1, validate_of_trusted htrusted]
    simp only [PacketValidator.missing, gt_iff_lt]
    by_cases hahead : v.hasBaseline = true ∧ v.expectedSequence < (readHeader record).sequence
    · have hlt := BitVec.lt_def.1 hahead.2
      rw [if_pos hahead, BitVec.toNat_sub_of_le (BitVec.le_of_lt hahead.2)]
      exact iff_of_true hahead (by omega)
    · rw [if_neg hahead]
      exact iff_of_false hahead fun hne => hne rfl
  · obtain ⟨hmissing, hnot⟩ := v.validate_of_corrupted hu nowNs
    rw [hmissing, hnot .SequenceGap (by decide)]
    exact iff_of_false Bool.false_ne_true fun hne => hne rfl

/-- A corrupted record is not reported as a gap. -/
theorem no_gap_of_corrupted (v : PacketValidator) {record : List U8} {nowNs : Int}
    (h : (v.validate record nowNs).1.corrupted = true) : (v.validate record nowNs).1.has .SequenceGap = false := by
  rw [corrupted_eq, Bool.not_eq_true', ← Bool.not_eq_true] at h
  exact (v.validate_of_corrupted h nowNs).2 .SequenceGap (by decide)

/-- The verdict on an uncorrupted record with the sequence number `n` after one with the number `s`. -/
theorem Remembers.succeeds {v : PacketValidator} {s : Stamp} (h : v.Remembers (some s))
    (hlt : s.sequence.toNat < 2 ^ 64 - 1) {record : List U8} (hu : uncorrupted record = true) (nowNs : Int) :
    (v.validate record nowNs).1.missing.toNat = skipped s.sequence.toNat (Stamp.of record).sequence.toNat ∧
      ((v.validate record nowNs).1.has .SequenceRewind = true ↔
        (Stamp.of record).sequence.toNat ≤ s.sequence.toNat) := by
  have hreports := h.reports record nowNs
  refine ⟨?_, (hreports.rewind s rfl hlt).trans (and_iff_right hu)⟩
  have hgap := (hreports.gap s rfl hlt).trans (and_iff_right hu)
  rw [hreports.missing s rfl hlt, skipped]
  split
  · exact Nat.sub_sub _ _ _
  · rename_i hnot
    rw [hgap] at hnot
    omega

theorem sequence_of_uncorrupted (v : PacketValidator) {record : List U8} (hu : uncorrupted record = true)
    (nowNs : Int) : (v.validate record nowNs).1.sequence = (Stamp.of record).sequence := by
  rw [validate_of_trusted ((uncorrupted_iff v).1 hu)]
  rfl

/-- The verdicts on a run of records, by the sequence numbers of the uncorrupted ones and the one before them. -/
theorem Remembers.succession {v : PacketValidator} {last : Option Stamp} (h : v.Remembers last)
    (hlt : ∀ s, last = some s → s.sequence.toNat < 2 ^ 64 - 1) {records : List (List U8 × Int)}
    (hrecords : ∀ n ∈ arrivals records, n < 2 ^ 64 - 1) :
    ((v.verdicts (validations records)).map fun r => r.missing.toNat).sum =
        sumPairs skipped ((last.map fun s => s.sequence.toNat).toList ++ arrivals records) ∧
      rewindDistance (last.map Stamp.sequence) (v.verdicts (validations records)) =
        sumPairs fallen ((last.map fun s => s.sequence.toNat).toList ++ arrivals records) ∧
      ((∀ r ∈ v.verdicts (validations records), r.has .SequenceRewind = false) ↔
        sumPairs fallen ((last.map fun s => s.sequence.toNat).toList ++ arrivals records) = 0) := by
  induction records generalizing v last with
  | nil =>
    cases last <;> exact ⟨rfl, rfl, iff_of_true (by simp [validations, verdicts]) rfl⟩
  | cons r records ih =>
    obtain ⟨hrest, -⟩ := h.validate r.1 r.2
    have hcorrupted := corrupted_eq v r.1 r.2
    have hresults : v.verdicts (validations (r :: records)) =
        (v.validate r.1 r.2).1 :: (v.validate r.1 r.2).2.verdicts (validations records) := rfl
    rw [arrivals_cons] at hrecords ⊢
    by_cases hu : uncorrupted r.1 = true
    · rw [if_pos hu] at hrest hrecords ⊢
      have hsequence := sequence_of_uncorrupted v hu r.2
      obtain ⟨hmissing, hdistance, hrewinds⟩ := ih hrest
        (by rintro _ ⟨⟩; exact hrecords _ (List.mem_cons_self ..)) fun n hn => hrecords n (List.mem_cons_of_mem _ hn)
      simp only [Option.map_some, Option.toList_some, List.singleton_append] at hmissing hdistance hrewinds
      rw [hresults, List.map_cons, List.sum_cons, rewindDistance, hcorrupted, hu, Bool.not_true,
        if_neg Bool.false_ne_true, hsequence, hmissing, hdistance, List.forall_mem_cons, hrewinds]
      cases last with
      | none =>
        obtain ⟨-, hrewind, hzero⟩ := (h.reports r.1 r.2).none rfl
        rw [hzero, hrewind]
        refine ⟨?_, ?_, ?_⟩ <;> simp [rewound]
      | some s =>
        obtain ⟨hskipped, hrewind⟩ := h.succeeds (hlt s rfl) hu r.2
        simp only [Option.map_some, Option.toList_some, List.singleton_append]
        rw [hskipped, sumPairs_cons, sumPairs_cons, Bool.eq_false_iff, Ne, hrewind]
        refine ⟨rfl, ?_, ?_⟩
        · simp only [rewound, fallen, hsequence, hrewind]
          split <;> omega
        · simp only [fallen]
          omega
    · rw [if_neg hu] at hrest hrecords ⊢
      obtain ⟨hmissing, hdistance, hrewinds⟩ := ih hrest hlt hrecords
      obtain ⟨hzero, hnot⟩ := v.validate_of_corrupted hu r.2
      rw [hresults, List.map_cons, List.sum_cons, rewindDistance, hcorrupted, Bool.eq_false_iff.2 hu, Bool.not_false,
        if_pos rfl, hzero, hmissing, hdistance, List.forall_mem_cons, hrewinds]
      refine ⟨by simp, rfl, and_iff_right (hnot .SequenceRewind (by decide))⟩

end PacketValidator

/-! ### The statistics -/

namespace ConsumerStats

/-- What a record adds to the counts of gaps. -/
theorem record_gaps (s : ConsumerStats) {r : ValidationResult} (bytes : U64)
    (hgap : r.has .SequenceGap = true ↔ r.missing.toNat ≠ 0)
    (hcorrupted : r.corrupted = true → r.has .SequenceGap = false) :
    (s.record r bytes).totals.missing = s.totals.missing + BitVec.ofNat 64 r.missing.toNat ∧
      (s.record r bytes).totals.sequenceGaps =
        s.totals.sequenceGaps + BitVec.ofNat 64 (if r.has .SequenceGap then 1 else 0) := by
  simp only [record, recordTotals]
  by_cases hhas : r.has .SequenceGap = true
  · have hnot : ¬r.corrupted = true := fun h => Bool.false_ne_true ((hcorrupted h).symm.trans hhas)
    rw [if_neg hnot, if_pos hhas, if_pos hhas, if_pos hhas, BitVec.ofNat_toNat, BitVec.setWidth_eq]
    exact ⟨rfl, rfl⟩
  · have hzero : r.missing.toNat = 0 := by
      by_contra hne
      exact hhas (hgap.2 hne)
    rw [if_neg hhas, if_neg hhas, if_neg hhas, hzero]
    split <;> exact ⟨(BitVec.add_zero _).symm, (BitVec.add_zero _).symm⟩

/-- The totals of gaps after all results: the sum of the missing numbers and the count of the gaps. -/
theorem recordAll_gaps (s : ConsumerStats) {recorded : List (ValidationResult × U64)}
    (h : ∀ r ∈ recorded.map Prod.fst, (r.has .SequenceGap = true ↔ r.missing.toNat ≠ 0) ∧
      (r.corrupted = true → r.has .SequenceGap = false)) :
    (s.recordAll recorded).totals.missing =
        s.totals.missing + BitVec.ofNat 64 ((recorded.map Prod.fst).map fun r => r.missing.toNat).sum ∧
      (s.recordAll recorded).totals.sequenceGaps =
        s.totals.sequenceGaps + BitVec.ofNat 64 ((recorded.map Prod.fst).countP fun r => r.has .SequenceGap) := by
  induction recorded generalizing s with
  | nil => exact ⟨(BitVec.add_zero _).symm, (BitVec.add_zero _).symm⟩
  | cons r recorded ih =>
    rw [List.map_cons, List.forall_mem_cons] at h
    obtain ⟨hmissing, hgaps⟩ := s.record_gaps r.2 h.1.1 h.1.2
    obtain ⟨hmissing', hgaps'⟩ := ih (s.record r.1 r.2) h.2
    have hcons : s.recordAll (r :: recorded) = (s.record r.1 r.2).recordAll recorded := rfl
    rw [hcons, hmissing', hgaps', hmissing, hgaps, List.map_cons, List.map_cons, List.sum_cons, List.countP_cons,
      BitVec.add_assoc, BitVec.add_assoc, ← BitVec.ofNat_add, ← BitVec.ofNat_add]
    exact ⟨rfl, by rw [Nat.add_comm]⟩

end ConsumerStats

/-- No more gaps are reported than packets are missing, and none only if none is. -/
theorem countP_gaps {results : List ValidationResult}
    (h : ∀ r ∈ results, r.has .SequenceGap = true ↔ r.missing.toNat ≠ 0) :
    (results.countP fun r => r.has .SequenceGap) ≤ (results.map fun r => r.missing.toNat).sum ∧
      ((results.countP fun r => r.has .SequenceGap) = 0 ↔ (results.map fun r => r.missing.toNat).sum = 0) := by
  induction results with
  | nil => exact ⟨Nat.le_refl _, Iff.rfl⟩
  | cons r results ih =>
    rw [List.forall_mem_cons] at h
    obtain ⟨hle, hzero⟩ := ih h.2
    rw [List.countP_cons, List.map_cons, List.sum_cons]
    have hgap := h.1
    split
    · have := hgap.1 (by assumption)
      omega
    · have : ¬r.missing.toNat ≠ 0 := fun hne => absurd (hgap.2 hne) (by assumption)
      omega

/-- Every result of a run is one of a single call. -/
theorem PacketValidator.mem_verdicts {v : PacketValidator} {history : List ValidatorCall} {r : ValidationResult}
    (h : r ∈ v.verdicts history) : ∃ (w : PacketValidator) (record : List U8) (nowNs : Int),
      r = (w.validate record nowNs).1 := by
  induction history generalizing v with
  | nil => cases h
  | cons c history ih =>
    cases c with
    | resync => exact ih h
    | validate record nowNs =>
      rcases List.mem_cons.1 h with rfl | h
      · exact ⟨v, record, nowNs, rfl⟩
      · exact ih h

/-- The missing packets are accounted for exactly.  For the records validated since a resync, with the sequence numbers
`first :: rest` of the uncorrupted ones, all below `2 ^ 64 - 1`: the sum of the reported missing packets less the
distances of the rewinds is the distance of the ends.  If no rewind is reported, the statistics of the run count as
missing the numbers between the ends that did not arrive, and they report none, neither as missing nor as gaps, exactly
if the numbers are consecutive. -/
theorem missing_is_exact (v : PacketValidator) {records : List (List U8 × Int)} {first : Nat} {rest : List Nat}
    (harrivals : arrivals records = first :: rest) (hlt : ∀ n ∈ first :: rest, n < 2 ^ 64 - 1) :
    ((((v.resync.verdicts (validations records)).map fun r => r.missing.toNat).sum : Nat) : Int) -
        rewindDistance none (v.resync.verdicts (validations records)) =
      rest.getLastD first + 1 - first - (first :: rest).length ∧
    ((∀ r ∈ v.resync.verdicts (validations records), r.has .SequenceRewind = false) →
      ∀ recorded : List (ValidationResult × U64), recorded.map Prod.fst = v.resync.verdicts (validations records) →
        ((({} : ConsumerStats).recordAll recorded).totals.missing.toNat =
            (Finset.Icc first (rest.getLastD first) \ (first :: rest).toFinset).card) ∧
          ((({} : ConsumerStats).recordAll recorded).totals.missing = 0 ↔
            (({} : ConsumerStats).recordAll recorded).totals.sequenceGaps = 0) ∧
          ((({} : ConsumerStats).recordAll recorded).totals.sequenceGaps = 0 ↔
            (first :: rest).IsChain fun a b => b = a + 1)) := by
  have hresync : v.resync.Remembers none := ⟨rfl, by simp, by simp⟩
  have hrecords : ∀ n ∈ arrivals records, n < 2 ^ 64 - 1 := by
    rw [harrivals]
    exact hlt
  obtain ⟨hmissing, hdistance, hrewinds⟩ := hresync.succession (by simp) hrecords
  simp only [Option.map_none, Option.toList_none, List.nil_append, harrivals] at hmissing hdistance hrewinds
  refine ⟨?_, fun hno recorded hrecorded => ?_⟩
  · rw [hmissing, hdistance]
    exact telescope first rest
  · have hchain := sumPairs_fallen_eq_zero.1 (hrewinds.1 hno)
    have hcard := card_absent hchain
    -- at most as many numbers are absent as there are between the ends
    have hbound : sumPairs skipped (first :: rest) < 2 ^ 64 := by
      have hlast := hlt _ (List.getLastD_mem_cons (l := rest) (a := first))
      have hle : (Finset.Icc first (rest.getLastD first) \ (first :: rest).toFinset).card ≤
          (Finset.Icc first (rest.getLastD first)).card := Finset.card_le_card Finset.sdiff_subset
      rw [Nat.card_Icc] at hle
      omega
    have hverdicts : ∀ r ∈ recorded.map Prod.fst, (r.has .SequenceGap = true ↔ r.missing.toNat ≠ 0) ∧
        (r.corrupted = true → r.has .SequenceGap = false) := by
      intro r hr
      rw [hrecorded] at hr
      obtain ⟨w, record, nowNs, rfl⟩ := PacketValidator.mem_verdicts hr
      exact ⟨w.gap_iff_missing record nowNs, w.no_gap_of_corrupted⟩
    obtain ⟨hmissing', hgaps'⟩ := ConsumerStats.recordAll_gaps {} hverdicts
    obtain ⟨hcount, hcount0⟩ := countP_gaps fun r hr => (hverdicts r hr).1
    rw [hrecorded, hmissing] at hmissing' hcount hcount0
    rw [hrecorded] at hgaps'
    have hword (n : Nat) (hn : n < 2 ^ 64) : ((0 : U64) + BitVec.ofNat 64 n).toNat = n :=
      (congrArg BitVec.toNat (BitVec.zero_add _)).trans (by rw [BitVec.toNat_ofNat, Nat.mod_eq_of_lt hn])
    have hzero (n : Nat) (hn : n < 2 ^ 64) : (0 : U64) + BitVec.ofNat 64 n = 0 ↔ n = 0 := by
      rw [← BitVec.toNat_inj, hword n hn]
      exact Iff.rfl
    have hmissing0 := hzero _ hbound
    have hgaps0 := hzero _ (Nat.lt_of_le_of_lt hcount hbound)
    refine ⟨?_, ?_, ?_⟩
    · rw [hmissing', hcard]
      exact hword _ hbound
    · rw [hmissing', hgaps']
      exact hmissing0.trans (hcount0.symm.trans hgaps0.symm)
    · rw [hgaps']
      exact hgaps0.trans (hcount0.trans (sumPairs_skipped_eq_zero hchain))

/-- A packet without a payload. -/
def emptyPacket (sequence : U64) : List U8 := sealPacket (List.replicate kHeaderSize 0) sequence 0 .Crc32

/-- The numbers 5 and 8 with a corrupted record in between. -/
theorem missing_is_exact_gap_of_two :
    (((((PacketValidator.new ⟨false⟩ 0).resync.verdicts
          (validations [(emptyPacket 5, 0), ([], 0), (emptyPacket 8, 0)])).map fun r => r.missing.toNat).sum : Nat) : Int) -
        rewindDistance none ((PacketValidator.new ⟨false⟩ 0).resync.verdicts
          (validations [(emptyPacket 5, 0), ([], 0), (emptyPacket 8, 0)])) = 2 := by
  have harrivals : arrivals [(emptyPacket 5, 0), ([], 0), (emptyPacket 8, 0)] = [5, 8] := by decide +kernel
  exact (missing_is_exact (.new ⟨false⟩ 0) harrivals (by decide)).1

end ProducerConsumer
