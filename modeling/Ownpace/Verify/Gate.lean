/-
Ownpace/Verify/Gate.lean

What an open gate says of the data that was measured.

`DomainOutcome` lists what one data type's verification can come to; everything
below is read off its four cases.  The loop over the samples keeps the one
invariant `total_compareSample`: each sample is counted once, as a match, a
mismatch or unavailable.
-/
import Mathlib.Algebra.BigOperators.Group.List.Basic
import Ownpace.Verify.Report

namespace Ownpace.Verify

/-! ### Reads that answer -/

theorem bind_eq_ok {ε α β : Type} {x : Except ε α} {f : α → Except ε β} {b : β} :
    (x >>= f) = .ok b ↔ ∃ a, x = .ok a ∧ f a = .ok b := by
  cases x with
  | error e => simp [bind, Except.bind]
  | ok a => simp [bind, Except.bind]

/-- How many samples the counts are of. -/
def ChecksumCounts.total (counts : ChecksumCounts) : Nat :=
  counts.checksumMatches + counts.checksumMismatches + counts.checksumUnavailable

theorem total_compareSample (targetSamples : List Sample) (counts : ChecksumCounts)
    (sourceSample : Sample) :
    (compareSample targetSamples counts sourceSample).total = counts.total + 1 := by
  unfold compareSample ChecksumCounts.total
  split
  · exact (Nat.add_assoc ..).symm
  · split
    · dsimp only
      split
      · exact (Nat.add_assoc ..).symm
      · split
        · show counts.checksumMatches + 1 + counts.checksumMismatches + counts.checksumUnavailable = _
          omega
        · show counts.checksumMatches + (counts.checksumMismatches + 1) + counts.checksumUnavailable = _
          omega
    · exact (Nat.add_assoc ..).symm

theorem total_compareSamples (sourceSamples targetSamples : List Sample) :
    (compareSamples sourceSamples targetSamples).total = sourceSamples.length := by
  suffices hfold : ∀ counts : ChecksumCounts,
      (sourceSamples.foldl (compareSample targetSamples) counts).total =
        counts.total + sourceSamples.length by
    have h := hfold {}
    rw [show ({} : ChecksumCounts).total = 0 from rfl, Nat.zero_add] at h
    exact h
  induction sourceSamples with
  | nil => exact fun _ => rfl
  | cons s rest ih =>
      intro counts
      rw [List.foldl_cons, ih, total_compareSample, List.length_cons]
      omega

theorem total_of_measure {config : VerificationConfig} {reads : DomainReads} {m : Measured}
    (h : measure config reads = .ok m) : m.counts.total = m.sampleSize := by
  simp only [measure, bind_eq_ok] at h
  obtain ⟨_, _, _, _, _, _, _, _, sourceSamples, _, targetSamples, _, _, _, _, _, heq⟩ := h
  cases heq
  exact total_compareSamples sourceSamples targetSamples

/-- What the verification of one data type can answer. -/
inductive DomainOutcome (config : VerificationConfig) (reads : DomainReads)
    (d : VerificationDomain) : DataTypeVerification × Bool → Prop
  | skipped {message} :
      isDataTypeEnabled config d = false ∨ d ∈ config.stoppedByOwner ∨ reads.recorded = .ok 0 →
      DomainOutcome config reads d (notMeasured d .SKIPPED message 0 "SKIPPED", false)
  | unread {message recorded issue} :
      DomainOutcome config reads d (notMeasured d .NOT_VERIFIABLE message recorded issue, false)
  | folderGone {recorded folder} :
      DomainOutcome config reads d (targetFolderMissing d recorded folder, false)
  | measured {m} : reads.canVerifyTarget ≠ some false → measure config reads = .ok m →
      DomainOutcome config reads d (m.verification config reads.targetCanHash d)

theorem DomainOutcome.counts {config : VerificationConfig} {reads : DomainReads}
    {d : VerificationDomain} {p : DataTypeVerification × Bool} (h : DomainOutcome config reads d p) :
    p.1.checksumMatches + p.1.checksumMismatches + p.1.checksumUnavailable =
      p.1.checksumSampleSize := by
  cases h with
  | skipped | unread | folderGone => rfl
  | measured _ hm => exact total_of_measure hm

end Ownpace.Verify
