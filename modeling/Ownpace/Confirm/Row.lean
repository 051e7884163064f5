/-
Ownpace/Confirm/Row.lean

The rows of the confirmed list (`confirmed-list.ts`, `fingerprint-scheme.ts`), and
what they add up to (`tally` in `confirmation-pass.ts`).

A row says of an item what the ledger and the target's answer allow, and no more.
-/
import Mathlib.Algebra.GroupWithZero.Nat
import Ownpace.Ledger.Row

namespace Ownpace.Confirm

abbrev Text := List Char

/-! ### Fingerprints -/

def isTagChar (c : Char) : Bool :=
  ('a' ≤ c && c ≤ 'z') || ('A' ≤ c && c ≤ 'Z') || ('0' ≤ c && c ≤ '9')

/-- The tag before a colon, if the value begins with one. -/
def versionOf (fingerprint : Text) : Option Text :=
  if fingerprint.takeWhile isTagChar ≠ [] ∧ (fingerprint.dropWhile isTagChar).head? = some ':' then
    some (fingerprint.takeWhile isTagChar)
  else none

def sameFingerprintVersion (a b : Text) : Bool := versionOf a = versionOf b

def CONTAINER_FINGERPRINT_VERSION : Text := ['z', 'i', 'p', '1']

/-! ### Answers and rows -/

/-- `'match' | 'differ' | 'unavailable'` -/
inductive Comparison : Type
  | same | differ | unavailable
  deriving DecidableEq

inductive TargetAnswer : Type
  | notOnTarget
  | onTarget (comparison : Comparison)
  | unreachable
  deriving DecidableEq

inductive ClaimKind : Type
  | byteHash | fingerprint | containerParts | none
  deriving DecidableEq

inductive RowState : Type
  | verified | differs | present | yours | missing | neverPlaced | removed | unchecked
  deriving DecidableEq

def ROW_STATES : List RowState :=
  [.verified, .differs, .present, .yours, .missing, .neverPlaced, .removed, .unchecked]

structure ConfirmedRow where
  state : RowState
  claim : ClaimKind
  deriving DecidableEq

def claimCeilingFor : DiscoveryDomain → ClaimKind
  | .email | .file => .byteHash
  | .calendar | .contact | .task => .fingerprint

def claimFor (domain : DiscoveryDomain) (contentHash : Option Text) : ClaimKind :=
  if claimCeilingFor domain ≠ .byteHash then claimCeilingFor domain
  else if contentHash.any fun hash => (CONTAINER_FINGERPRINT_VERSION ++ [':']).isPrefixOf hash then
    .containerParts
  else claimCeilingFor domain

/-- Must the target be asked about a row of this status? -/
def needsTargetRead : Option ItemStatus → Bool
  | some .copied | some .updated | some .deletedSource => true
  | _ => false

def rowFor (domain : DiscoveryDomain) (status : Option ItemStatus) (answer : TargetAnswer)
    (contentHash : Option Text) : ConfirmedRow :=
  match answer with
  | .unreachable => ⟨.unchecked, .none⟩
  | .notOnTarget =>
    match status with
    | some .adopted => ⟨.yours, .none⟩
    | some .tombstoned => ⟨.removed, .none⟩
    | some .copied | some .updated | some .deletedSource => ⟨.missing, .none⟩
    | _ => ⟨.neverPlaced, .none⟩
  | .onTarget comparison =>
    match status with
    | some .adopted => ⟨.yours, .none⟩
    | some .tombstoned => ⟨.removed, .none⟩
    | some .copied | some .updated | some .deletedSource =>
      match comparison with
      | .same => ⟨.verified, claimFor domain contentHash⟩
      | .differ => ⟨.differs, claimFor domain contentHash⟩
      | .unavailable => ⟨.present, .none⟩
    | _ => ⟨.neverPlaced, .none⟩

/-- May it be counted as verified? -/
def countsAsVerified (row : ConfirmedRow) : Bool := row.state = .verified

/-! ### The tally -/

structure ConfirmationTally where
  byState : RowState → Nat := fun _ => 0
  verified : Nat := 0
  total : Nat := 0

/-- A turn of the loop of `tally`. -/
def ConfirmationTally.count (t : ConfirmationTally) (row : ConfirmedRow) : ConfirmationTally where
  byState := fun state => if state = row.state then t.byState state + 1 else t.byState state
  verified := if countsAsVerified row then t.verified + 1 else t.verified
  total := t.total + 1

def tally (rows : List ConfirmedRow) : ConfirmationTally := rows.foldl ConfirmationTally.count {}

/-- Its states add up, and what counts as verified is one of them. -/
structure ConfirmationTally.AddsUp (t : ConfirmationTally) : Prop where
  states : (ROW_STATES.map t.byState).sum = t.total
  verified : t.verified = t.byState .verified

theorem ConfirmationTally.AddsUp.count {t : ConfirmationTally} (h : t.AddsUp) (row : ConfirmedRow) :
    (t.count row).AddsUp := by
  obtain ⟨hstates, hverified⟩ := h
  simp only [ROW_STATES, List.map_cons, List.map_nil, List.sum_cons, List.sum_nil] at hstates
  constructor
  · simp only [ROW_STATES, List.map_cons, List.map_nil, List.sum_cons, List.sum_nil,
      ConfirmationTally.count]
    cases row.state <;> simp <;> omega
  · by_cases hrow : row.state = .verified
    · simp [ConfirmationTally.count, countsAsVerified, hrow, hverified]
    · have hother : RowState.verified ≠ row.state := fun h => hrow h.symm
      simp [ConfirmationTally.count, countsAsVerified, hrow, hother, hverified]

theorem ConfirmationTally.AddsUp.verified_le {t : ConfirmationTally} (h : t.AddsUp) :
    t.verified ≤ t.total := by
  rw [h.verified, ← h.states]
  exact Nat.le_add_right _ _

theorem tally_spec (rows : List ConfirmedRow) : (tally rows).AddsUp ∧ (tally rows).total = rows.length := by
  have hfold (t : ConfirmationTally) (h : t.AddsUp) :
      (rows.foldl ConfirmationTally.count t).AddsUp ∧
        (rows.foldl ConfirmationTally.count t).total = t.total + rows.length := by
    induction rows generalizing t with
    | nil => exact ⟨h, rfl⟩
    | cons row rows ih =>
        obtain ⟨hadds, htotal⟩ := ih (t.count row) (h.count row)
        refine ⟨hadds, ?_⟩
        rw [List.foldl_cons, htotal, List.length_cons]
        show t.total + 1 + rows.length = _
        omega
  obtain ⟨hadds, htotal⟩ := hfold {} ⟨rfl, rfl⟩
  exact ⟨hadds, htotal.trans (Nat.zero_add _)⟩

end Ownpace.Confirm
