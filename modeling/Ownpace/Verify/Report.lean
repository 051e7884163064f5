/-
Ownpace/Verify/Report.lean

The verification of a migration before its cutover: what is measured of one
data type, the verdict over it, and the verdict over all of them.

A run of `runVerification` asks its dependencies once for each number and each
sample, so its inputs are the answers they give: `DomainReads` holds them, one
field for each question, and a question that is asked twice (the ledger's
count, before the target is consulted and again with it) has two.  A read that
throws is an `Except.error`.

Ratios are rationals.
-/
import Mathlib.Algebra.Order.Ring.Rat
import Mathlib.Algebra.Order.Floor.Ring
import Mathlib.Data.Rat.Floor

namespace Ownpace.Verify

inductive VerificationDomain where
  | mail
  | calendar
  | contacts
  | files
  | tasks
  deriving DecidableEq

open VerificationDomain

def VerificationDomain.name : VerificationDomain → String
  | mail => "mail"
  | calendar => "calendar"
  | contacts => "contacts"
  | files => "files"
  | tasks => "tasks"

structure VerificationConfig where
  checksumSamplePercentage : ℚ
  minSampleSize : Nat
  maxSampleSize : Nat
  requiredMatchPercentage : ℚ
  maxDiscrepancyPercentage : ℚ
  verifyMail : Bool
  verifyCalendar : Bool
  verifyContacts : Bool
  verifyFiles : Bool
  verifyTasks : Bool
  stoppedByOwner : List VerificationDomain := []

def isDataTypeEnabled (config : VerificationConfig) : VerificationDomain → Bool
  | mail => config.verifyMail
  | calendar => config.verifyCalendar
  | contacts => config.verifyContacts
  | files => config.verifyFiles
  | tasks => config.verifyTasks

inductive DataTypeVerificationStatus where
  | PASS
  | WARN
  | FAIL
  | SKIPPED
  | NOT_VERIFIABLE
  deriving DecidableEq

inductive Severity where
  | ERROR
  | WARNING
  deriving DecidableEq

structure Issue where
  id : String
  severity : Severity
  message : String
  deriving DecidableEq

structure DataTypeVerification where
  dataType : VerificationDomain
  status : DataTypeVerificationStatus
  sourceCount : Nat
  targetCount : Nat
  matchedCount : Int
  missingOnTarget : Nat
  extraOnTarget : Nat
  checksumSampleSize : Nat
  checksumMatches : Nat
  checksumMismatches : Nat
  checksumUnavailable : Nat
  totalBytesSource : Nat
  totalBytesTarget : Option Nat
  issues : List Issue
  deriving DecidableEq

/-! ### The answers of one run -/

/-- What a read can throw: the close of the organisation, a listing that found
its own folder missing, and anything else. -/
inductive VerificationError where
  | accountClosed
  | targetFolderMissing (folder : String)
  | other (message : String)
  deriving DecidableEq

/-- Bytes, or a string that is a hash of them. -/
inductive Content where
  | text (s : List Char)
  | bytes (b : List UInt8)
  deriving DecidableEq

structure Sample where
  id : String
  naturalKeyHash : String
  content : Content
  deriving DecidableEq

/-- An item on one side only: its id and where it is. -/
structure Discrepancy where
  id : String
  ref : String

/-- The answers the dependencies give about one data type. -/
structure DomainReads where
  /-- The ledger's count, asked before the target is consulted. -/
  recorded : Except VerificationError Nat
  canVerifyTarget : Option Bool := none
  sourceCount : Except VerificationError Nat
  targetCount : Except VerificationError Nat
  findMissingOnTarget : Except VerificationError (List Discrepancy)
  findExtraOnTarget : Except VerificationError (List Discrepancy)
  getSourceSamples : Nat → Except VerificationError (List Sample)
  getTargetSamples : Nat → List String → Except VerificationError (List Sample)
  getTotalBytesSource : Except VerificationError Nat
  getTotalBytesTarget : Option (Except VerificationError (Option Nat)) := none
  targetCanHash : Bool

/-! ### The samples -/

def calculateSampleSize (totalCount : Nat) (config : VerificationConfig) : Nat :=
  if totalCount = 0 then 0
  else
    let calculated := ⌊(totalCount : ℚ) * (config.checksumSamplePercentage / 100)⌋
    let wanted := max (config.minSampleSize : Int) (min calculated config.maxSampleSize)
    -- Never more than there are: `minSampleSize` promises no items.
    (min wanted totalCount).toNat

def isComparableContent : Content → Bool
  | .text s => s.length > 0
  | .bytes b => b.length > 0

/-- `[a-z0-9]` under the `i` flag. -/
def isVersionChar (c : Char) : Bool := c.isAlphanum

/-- The version tag of a fingerprint: one or more letters or digits and a colon. -/
def versionOf (fingerprint : List Char) : Option (List Char) :=
  let tag := fingerprint.takeWhile isVersionChar
  if tag ≠ [] ∧ (fingerprint.drop tag.length).head? = some ':' then some tag else none

def sameFingerprintVersion (a b : List Char) : Bool := versionOf a = versionOf b

def sameHashAlgorithm : Content → Content → Bool
  | .text a, .text b => sameFingerprintVersion a b
  | _, _ => true

def compareContent (a b : Content) : Bool := a = b

/-- What the comparison of the samples counted so far. -/
structure ChecksumCounts where
  checksumMatches : Nat := 0
  checksumMismatches : Nat := 0
  checksumUnavailable : Nat := 0
  hashedByTarget : Nat := 0
  deriving DecidableEq

/-- The target's sample under a key: a later one with the same key replaces the
earlier in the map. -/
def targetSampleOf (targetSamples : List Sample) (naturalKeyHash : String) : Option Sample :=
  targetSamples.reverse.find? (·.naturalKeyHash = naturalKeyHash)

/-- One turn of the loop over the source's samples. -/
def compareSample (targetSamples : List Sample) (counts : ChecksumCounts) (sourceSample : Sample) :
    ChecksumCounts :=
  match targetSampleOf targetSamples sourceSample.naturalKeyHash with
  | none => { counts with checksumUnavailable := counts.checksumUnavailable + 1 }
  | some targetSample =>
    if isComparableContent targetSample.content then
      let counts := { counts with hashedByTarget := counts.hashedByTarget + 1 }
      if !sameHashAlgorithm sourceSample.content targetSample.content then
        { counts with checksumUnavailable := counts.checksumUnavailable + 1 }
      else if compareContent sourceSample.content targetSample.content then
        { counts with checksumMatches := counts.checksumMatches + 1 }
      else { counts with checksumMismatches := counts.checksumMismatches + 1 }
    else { counts with checksumUnavailable := counts.checksumUnavailable + 1 }

def compareSamples (sourceSamples targetSamples : List Sample) : ChecksumCounts :=
  sourceSamples.foldl (compareSample targetSamples) {}

/-! ### One data type -/

/-- What one data type was found to hold: every read of it answered. -/
structure Measured where
  sourceCount : Nat
  targetCount : Nat
  missingOnTarget : Nat
  extraOnTarget : Nat
  sampleSize : Nat
  counts : ChecksumCounts
  totalBytesSource : Nat
  totalBytesTarget : Option Nat

/-- The reads of `verifyDataType`, in its order. -/
def measure (config : VerificationConfig) (reads : DomainReads) :
    Except VerificationError Measured := do
  let sourceCount ← reads.sourceCount
  let targetCount ← reads.targetCount
  let missingOnTarget ← reads.findMissingOnTarget
  let extraOnTarget ← reads.findExtraOnTarget
  let sampleSize := calculateSampleSize sourceCount config
  let sourceSamples ← reads.getSourceSamples sampleSize
  -- The items the source sampled, not the target's own first few.
  let targetSamples ← reads.getTargetSamples sampleSize (sourceSamples.map (·.naturalKeyHash))
  let totalBytesSource ← reads.getTotalBytesSource
  let totalBytesTarget ← reads.getTotalBytesTarget.getD (pure none)
  return {
    sourceCount, targetCount
    missingOnTarget := missingOnTarget.length
    extraOnTarget := extraOnTarget.length
    sampleSize := sourceSamples.length
    counts := compareSamples sourceSamples targetSamples
    totalBytesSource, totalBytesTarget }

namespace Measured

variable (m : Measured)

def matchedCount : Int := m.sourceCount - m.missingOnTarget

/-- The share of the recorded items that are on the target. -/
def matchPercentage : ℚ := if m.sourceCount > 0 then (m.matchedCount : ℚ) / m.sourceCount else 1

/-- The share of the compared samples that match; 1 when none was compared. -/
def checksumMatchPercentage : ℚ :=
  let checksumComparable := m.counts.checksumMatches + m.counts.checksumMismatches
  if checksumComparable > 0 then (m.counts.checksumMatches : ℚ) / checksumComparable else 1

/-- The share of the recorded items that are missing on the target. -/
def discrepancyPercentage : ℚ :=
  if m.sourceCount > 0 then (m.missingOnTarget : ℚ) / m.sourceCount else 0

/-- Nothing was compared, on a target that could have answered. -/
def contentHeld (targetCanHash : Bool) : Bool :=
  targetCanHash && m.sourceCount > 0 && m.counts.hashedByTarget = 0

def determineVerificationStatus (config : VerificationConfig) : DataTypeVerificationStatus :=
  let totalDiscrepancies := m.missingOnTarget + m.extraOnTarget
  if m.matchPercentage < config.requiredMatchPercentage ∨
      m.checksumMatchPercentage < config.requiredMatchPercentage ∨
      m.discrepancyPercentage > config.maxDiscrepancyPercentage then .FAIL
  else if totalDiscrepancies > 0 then .WARN
  else .PASS

/-- The issue of a content leg that compared nothing it should have. -/
def contentIssues (dataType : VerificationDomain) (held : Bool) : List Issue :=
  if m.sourceCount > 0 && m.sampleSize = 0 then
    [{ id := s!"CHECKSUM_NOT_SAMPLED_{dataType.name}"
       severity := if held then .ERROR else .WARNING
       message :=
        s!"No {dataType.name} item could be sampled for content verification, though " ++
        s!"{m.sourceCount} item(s) are recorded. The checksum half of the gate did not run at " ++
        "all — this is an ABSENCE of content evidence, not evidence of a match. " ++
        (if held then
          "The new system can be asked for content, so the cutover is held. Verify again."
        else "Count parity still applies.") }]
  else if held then
    [{ id := s!"CHECKSUM_NOT_COMPARED_{dataType.name}"
       severity := .ERROR
       message :=
        s!"The new system can be asked for {dataType.name} content, and it answered nothing for " ++
        s!"any of the {m.sampleSize} sampled item(s), so no content was compared. The cutover " ++
        "is held. Check the connection to the new system and verify again." }]
  else []

def issues (config : VerificationConfig) (dataType : VerificationDomain) (held : Bool) :
    List Issue :=
  m.contentIssues dataType held ++
  (if m.counts.checksumUnavailable > 0 && !held then
    [{ id := s!"CHECKSUM_UNAVAILABLE_{dataType.name}"
       severity := .WARNING
       message :=
        s!"{m.counts.checksumUnavailable} of {m.sampleSize} sampled {dataType.name} item(s) " ++
        "could not be content-verified: the target does not expose a content hash. Count " ++
        "parity still applies." }]
  else []) ++
  (if m.missingOnTarget > 0 then
    [{ id := s!"MISSING_{dataType.name}"
       severity :=
        if (m.missingOnTarget : ℚ) > m.sourceCount * config.maxDiscrepancyPercentage then .ERROR
        else .WARNING
       message := s!"{m.missingOnTarget} {dataType.name} item(s) missing on target" }]
  else []) ++
  (if m.extraOnTarget > 0 then
    [{ id := s!"EXTRA_{dataType.name}"
       severity := .WARNING
       message := s!"{m.extraOnTarget} {dataType.name} item(s) exist on target but not source" }]
  else []) ++
  (if m.counts.checksumMismatches > 0 then
    [{ id := s!"CHECKSUM_{dataType.name}"
       severity := .ERROR
       message := s!"{m.counts.checksumMismatches} {dataType.name} item(s) have content mismatches" }]
  else [])

end Measured

/-- The result of a data type that was measured, and whether it is held because
nothing was compared. -/
def Measured.verification (m : Measured) (config : VerificationConfig) (targetCanHash : Bool)
    (dataType : VerificationDomain) : DataTypeVerification × Bool :=
  let held := m.contentHeld targetCanHash
  let status := if held then .FAIL else m.determineVerificationStatus config
  ({ dataType, status
     sourceCount := m.sourceCount
     targetCount := m.targetCount
     matchedCount := m.matchedCount
     missingOnTarget := m.missingOnTarget
     extraOnTarget := m.extraOnTarget
     -- What was compared, not what was asked for.
     checksumSampleSize := m.sampleSize
     checksumMatches := m.counts.checksumMatches
     checksumMismatches := m.counts.checksumMismatches
     checksumUnavailable := m.counts.checksumUnavailable
     totalBytesSource := m.totalBytesSource
     totalBytesTarget := m.totalBytesTarget
     issues := m.issues config dataType held },
    held)

/-- A result for a data type that was not measured, with the reason attached. -/
def notMeasured (dataType : VerificationDomain) (status : DataTypeVerificationStatus)
    (message : String) (sourceCount : Nat) (issue : String) : DataTypeVerification where
  dataType := dataType
  status := status
  sourceCount := sourceCount
  targetCount := 0
  matchedCount := 0
  missingOnTarget := 0
  extraOnTarget := 0
  checksumSampleSize := 0
  checksumMatches := 0
  checksumMismatches := 0
  checksumUnavailable := 0
  totalBytesSource := 0
  totalBytesTarget := none
  issues :=
    [{ id := s!"{issue}_{dataType.name}"
       severity := if status = .NOT_VERIFIABLE then .ERROR else .WARNING
       message }]

/-- A data type whose target folder is gone: nothing is in a folder that is not
there, so everything recorded is missing. -/
def targetFolderMissing (dataType : VerificationDomain) (recorded : Nat) (folder : String) :
    DataTypeVerification :=
  { notMeasured dataType .NOT_VERIFIABLE "" recorded "NOT_VERIFIABLE" with
    status := .FAIL
    missingOnTarget := recorded
    issues :=
      [{ id := s!"TARGET_FOLDER_MISSING_{dataType.name}"
         severity := .ERROR
         message :=
          s!"The folder {folder} does not exist on the new system any more, so none of the " ++
          s!"{recorded} {dataType.name} item(s) copied into it are there. It was deleted or " ++
          "renamed after the copy." }] }

end Ownpace.Verify
