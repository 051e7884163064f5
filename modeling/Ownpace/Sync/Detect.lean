/-
Ownpace/Sync/Detect.lean

What `detectPathKeyedMoves` makes of each placed row.

The loop decides and acts in one breath, row by row, and takes an arrival out
of the pool for every pair it makes by bytes.  The decisions depend on no
answer but the placed rows: `outcomes` takes them all beforehand, and the loop
is then those decisions carried out one after another
(`detectRows_eq_carryOutAll`).

Which rows win an arrival depends on the order; how many do, of each content
hash, does not: of the vanished rows with these bytes, as many as there are
arrivals with them (`countP_byContent`).
-/
import Ownpace.Sync.Pass
import Mathlib.Data.List.Perm.Subperm

namespace Ownpace.Sync

open Await Ownpace

variable {Item Raw Folder τ : Type}

/-! ### The outcome of a row -/

/-- What becomes of a placed row. -/
inductive RowOutcome : Type
  /-- Its copy was removed: it takes no part. -/
  | removed
  | seen
  | inUnfinished
  | movedByTheLoop
  | earlierExport
  | remembered (destination : String)
  | byIdentity (name : ListedName)
  | byContent (arrival : CreatedItem)
  | drifted
  deriving DecidableEq

def RowOutcome.isByContent : RowOutcome → Bool
  | byContent _ => true
  | _ => false

@[simp] theorem RowOutcome.isByContent_byContent (arrival : CreatedItem) :
    (byContent arrival).isByContent = true := rfl

@[simp] theorem RowOutcome.isByContent_drifted : drifted.isByContent = false := rfl

def RowOutcome.isByIdentity : RowOutcome → Bool
  | byIdentity _ => true
  | _ => false

/-- The outcome of one row, with these arrivals left. -/
def outcomeOf (seen : Vars Item) (placed : List Ledger.PlacedItem) (arrivals : List CreatedItem)
    (row : Ledger.PlacedItem) : RowOutcome :=
  if row.deletionAppliedAt.isSome then .removed
  else if seen.seen row.collection row.naturalKeyHash then .seen
  else if row.collection ∈ seen.unfinishedCollections then .inUnfinished
  else if row.naturalKeyHash ∈ seen.movedByTheLoop then .movedByTheLoop
  else if row.supersededByNaturalKeyHash.isSome then .earlierExport
  else match row.movedToCollection with
    | some destination => .remembered destination
    | none => match sameDocument seen placed row with
      | some name => .byIdentity name
      | none => match arrivals.find? (isArrival row) with
        | some arrival => .byContent arrival
        | none => .drifted

/-- The arrivals left after this row. -/
def leftAfter (arrivals : List CreatedItem) (row : Ledger.PlacedItem) (o : RowOutcome) :
    List CreatedItem :=
  if o.isByContent then arrivals.eraseP (isArrival row) else arrivals

/-- The outcomes of the rows, in their order. -/
def outcomesFrom (seen : Vars Item) (placed : List Ledger.PlacedItem) :
    List CreatedItem → List Ledger.PlacedItem → List (Ledger.PlacedItem × RowOutcome)
  | _, [] => []
  | arrivals, row :: rest =>
    let o := outcomeOf seen placed arrivals row
    (row, o) :: outcomesFrom seen placed (leftAfter arrivals row o) rest

/-- The arrivals that bytes may pair: documents go by their own ids. -/
def arrivalsOf (seen : Vars Item) : List CreatedItem :=
  seen.createdThisPass.filter fun c => c.identity.isNone && c.contentHash ≠ ""

def outcomes (seen : Vars Item) (placed : List Ledger.PlacedItem) :
    List (Ledger.PlacedItem × RowOutcome) :=
  outcomesFrom seen placed (arrivalsOf seen) placed

/-! ### Carried out -/

section CarryOut

variable (deps : DomainSyncDeps Item Raw Folder) (placed : List Ledger.PlacedItem)

/-- The calls one outcome makes, and what it reports. -/
def carryOut (row : Ledger.PlacedItem) : RowOutcome → Pass Item Raw Folder τ Found
  | .seen => do
    clearMarks deps row
    return {}
  | .remembered destination =>
    return if row.moveAcknowledgedAt.isNone
      then reportMove deps row destination row.movedToNaturalKeyHash else {}
  | .byIdentity name => do
    let sameBytes := row.contentHash ≠ "" &&
      (placed.find? fun p => p.naturalKeyHash = name.naturalKeyHash).any
        fun p => p.contentHash = row.contentHash
    askLedger (.recordMove deps.domain row.naturalKeyHash name.collection
      (some name.naturalKeyHash) (if sameBytes then .content else .identity))
    askLedger (.clearAbsent deps.domain row.naturalKeyHash)
    return reportMove deps row name.collection (some name.naturalKeyHash)
  | .byContent arrival => do
    askLedger (.recordMove deps.domain row.naturalKeyHash arrival.collection
      (some arrival.naturalKeyHash) .content)
    return reportMove deps row arrival.collection (some arrival.naturalKeyHash)
  | .drifted => do
    let absent ← askLedger (.recordAbsent deps.domain row.naturalKeyHash)
    let deletions := if DELETION_CONFIRMATIONS ≤ absent && row.deletionAcknowledgedAt.isNone
      then [⟨deps.domain, row.naturalKeyHash, row.collection, absent, .inferred⟩] else []
    return { drift := 1, deletions := deletions }
  | .removed | .inUnfinished | .movedByTheLoop | .earlierExport => return {}

def carryOutAll : List (Ledger.PlacedItem × RowOutcome) → Pass Item Raw Folder τ Found
  | [] => return {}
  | (row, o) :: rest => do
    let found ← carryOut deps placed row o
    return found.and (← carryOutAll rest)

variable {deps placed} {seen : Vars Item}

theorem detectRow_eq_carryOut {arrivals : List CreatedItem} {row : Ledger.PlacedItem} :
    (detectRow deps seen placed arrivals row : Pass Item Raw Folder τ _) =
      carryOut deps placed row (outcomeOf seen placed arrivals row) >>= fun found =>
        return (found, leftAfter arrivals row (outcomeOf seen placed arrivals row)) := by
  unfold detectRow outcomeOf
  split
  · rfl
  · split
    · rw [carryOut, Prog.bind_assoc]
      rfl
    · by_cases hunfinished : row.collection ∈ seen.unfinishedCollections
      · rw [if_pos (.inl hunfinished), if_pos hunfinished]
        rfl
      · by_cases hmoved : row.naturalKeyHash ∈ seen.movedByTheLoop
        · rw [if_pos (.inr (.inl hmoved)), if_neg hunfinished, if_pos hmoved]
          rfl
        · by_cases hexport : row.supersededByNaturalKeyHash.isSome
          · rw [if_pos (.inr (.inr hexport)), if_neg hunfinished, if_neg hmoved, if_pos hexport]
            rfl
          · rw [if_neg (by simp [hunfinished, hmoved, hexport]), if_neg hunfinished,
              if_neg hmoved, if_neg hexport]
            cases row.movedToCollection with
            | some destination => rfl
            | none =>
                dsimp only
                unfold missingRow
                cases hsame : sameDocument seen placed row with
                | some name =>
                    rw [carryOut, Prog.bind_assoc]
                    refine congrArg _ (funext fun _ => ?_)
                    rw [Prog.bind_assoc]
                    rfl
                | none =>
                    cases hfind : arrivals.find? (isArrival row) with
                    | some arrival =>
                        rw [carryOut, Prog.bind_assoc]
                        rfl
                    | none =>
                        rw [carryOut, Prog.bind_assoc]
                        rfl

/-- The loop is its decisions, carried out. -/
theorem detectRows_eq_carryOutAll {arrivals : List CreatedItem} {rows : List Ledger.PlacedItem} :
    (detectRows deps seen placed arrivals rows : Pass Item Raw Folder τ Found) =
      carryOutAll deps placed (outcomesFrom seen placed arrivals rows) := by
  induction rows generalizing arrivals with
  | nil => rfl
  | cons row rows ih =>
      show detectRow deps seen placed arrivals row >>= _ = _
      rw [detectRow_eq_carryOut, Prog.bind_assoc]
      refine congrArg _ (funext fun found => ?_)
      show detectRows deps seen placed _ rows >>= _ = _
      rw [ih]

end CarryOut

/-! ### What is reported -/

/-- The moves a row's outcome reports. -/
def movesOf (deps : DomainSyncDeps Item Raw Folder) (row : Ledger.PlacedItem) :
    RowOutcome → List ReportedMove
  | .remembered destination =>
    if row.moveAcknowledgedAt.isNone
      then (reportMove deps row destination row.movedToNaturalKeyHash).moves else []
  | .byIdentity name => (reportMove deps row name.collection (some name.naturalKeyHash)).moves
  | .byContent arrival =>
    (reportMove deps row arrival.collection (some arrival.naturalKeyHash)).moves
  | _ => []

/-- The report of these outcomes: every move is one of theirs, every drifted row
is counted, and only a drifted row may be called deleted. -/
structure Reported (deps : DomainSyncDeps Item Raw Folder)
    (os : List (Ledger.PlacedItem × RowOutcome)) (found : Found) : Prop where
  moves : found.moves = os.flatMap fun p => movesOf deps p.1 p.2
  drift : found.drift = os.countP fun p => p.2 = .drifted
  deletions : ∀ d ∈ found.deletions, ∃ row, (row, RowOutcome.drifted) ∈ os ∧
    d.naturalKeyHash = row.naturalKeyHash

/-- Whatever the calls answer, a value this program returns is as `P` says. -/
def Returns {α : Type} (p : Pass Item Raw Folder τ α) (P : α → Prop) : Prop :=
  ∀ h, p.Always (fun _ _ => True) (fun _ r => ∀ a, r = .ok a → P a) h

section Returns

variable {deps : DomainSyncDeps Item Raw Folder} {placed : List Ledger.PlacedItem} {α β : Type}

theorem returns_ret {a : α} {P : α → Prop} (ha : P a) :
    Returns (Prog.ret a : Pass Item Raw Folder τ α) P := by
  rintro h _ ⟨⟩
  exact ha

theorem Returns.bind {p : Pass Item Raw Folder τ α} {f : α → Pass Item Raw Folder τ β}
    {P : α → Prop} {Q : β → Prop} (hp : Returns p P) (hf : ∀ a, P a → Returns (f a) Q) :
    Returns (p >>= f) Q := by
  intro h
  refine Prog.always_bind.mpr ((hp h).mono fun h' r _ hr => ?_)
  cases r with
  | ok a => exact hf a (hr a rfl) h'
  | error e =>
      rintro _ ⟨⟩

theorem returns_any (p : Pass Item Raw Folder τ α) : Returns p fun _ => True := by
  intro h
  induction p generalizing h with
  | ret a => exact fun _ _ => trivial
  | throw e => exact fun _ _ => trivial
  | sync upd k ih => exact fun s => ⟨trivial, ih s _⟩
  | call o k ih => exact fun a => ⟨trivial, ih a _⟩

theorem returns_carryOut {row : Ledger.PlacedItem} {o : RowOutcome} :
    Returns (carryOut deps placed row o : Pass Item Raw Folder τ Found) fun found =>
      Reported deps [(row, o)] found := by
  have hnone {o : RowOutcome} (hm : movesOf deps row o = []) (hd : o ≠ .drifted) :
      Reported deps [(row, o)] {} :=
    ⟨by simp [hm], by simp [hd], by simp⟩
  have hmove {o : RowOutcome} {destination : String} {key : Option String}
      (hm : movesOf deps row o = (reportMove deps row destination key).moves)
      (hd : o ≠ .drifted) : Reported deps [(row, o)] (reportMove deps row destination key) :=
    ⟨by simp [hm], by simp [hd, reportMove], by simp [reportMove]⟩
  cases o with
  | removed | inUnfinished | movedByTheLoop | earlierExport =>
      exact returns_ret (hnone rfl (by decide))
  | seen =>
      exact (returns_any _).bind fun _ _ => returns_ret (hnone rfl (by decide))
  | remembered destination =>
      refine returns_ret ?_
      by_cases hack : row.moveAcknowledgedAt.isNone
      · rw [if_pos hack]
        exact hmove (by rw [movesOf, if_pos hack]) (by intro h; cases h)
      · rw [if_neg hack]
        exact hnone (by rw [movesOf, if_neg hack]) (by intro h; cases h)
  | byIdentity name =>
      exact (returns_any _).bind fun _ _ => (returns_any _).bind fun _ _ =>
        returns_ret (hmove rfl (by intro h; cases h))
  | byContent arrival =>
      exact (returns_any _).bind fun _ _ => returns_ret (hmove rfl (by intro h; cases h))
  | drifted =>
      refine (returns_any _).bind fun absent _ => returns_ret ⟨rfl, rfl, fun d hd => ?_⟩
      refine ⟨row, List.mem_singleton_self _, ?_⟩
      dsimp only at hd
      split at hd
      · rw [List.mem_singleton.mp hd]
      · cases hd

theorem Reported.and {os os' : List (Ledger.PlacedItem × RowOutcome)} {found found' : Found}
    (h : Reported deps os found) (h' : Reported deps os' found') :
    Reported deps (os ++ os') (found.and found') where
  moves := by
    rw [List.flatMap_append, ← h.moves, ← h'.moves]
    rfl
  drift := by
    rw [List.countP_append, ← h.drift, ← h'.drift]
    rfl
  deletions d hd := by
    rcases List.mem_append.mp hd with hd | hd
    · obtain ⟨row, hrow, hkey⟩ := h.deletions d hd
      exact ⟨row, List.mem_append_left _ hrow, hkey⟩
    · obtain ⟨row, hrow, hkey⟩ := h'.deletions d hd
      exact ⟨row, List.mem_append_right _ hrow, hkey⟩

theorem returns_carryOutAll {os : List (Ledger.PlacedItem × RowOutcome)} :
    Returns (carryOutAll deps placed os : Pass Item Raw Folder τ Found)
      fun found => Reported deps os found := by
  induction os with
  | nil => exact returns_ret ⟨rfl, rfl, by simp⟩
  | cons p os ih =>
      refine returns_carryOut.bind fun found hfound => ?_
      exact ih.bind fun found' hfound' => returns_ret (hfound.and hfound')

end Returns

/-! ### Who explains whom -/

section Explained

variable {seen : Vars Item} {placed : List Ledger.PlacedItem}

theorem outcomesFrom_rows {arrivals : List CreatedItem} {rows : List Ledger.PlacedItem} :
    (outcomesFrom seen placed arrivals rows).map Prod.fst = rows := by
  induction rows generalizing arrivals with
  | nil => rfl
  | cons row rows ih => exact congrArg (row :: ·) ih

/-- A row that is on the target, that nobody saw or explained before, in a
collection that was read to its end. -/
def isVanished (seen : Vars Item) (row : Ledger.PlacedItem) : Bool :=
  row.deletionAppliedAt.isNone && !seen.seen row.collection row.naturalKeyHash &&
    row.collection ∉ seen.unfinishedCollections && row.naturalKeyHash ∉ seen.movedByTheLoop &&
    row.supersededByNaturalKeyHash.isNone && row.movedToCollection.isNone

/-- Only a vanished row is paired, or drifts. -/
theorem outcomeOf_of_vanished {arrivals : List CreatedItem} {row : Ledger.PlacedItem}
    (h : isVanished seen row = true) : outcomeOf seen placed arrivals row =
      (sameDocument seen placed row).elim
        ((arrivals.find? (isArrival row)).elim .drifted .byContent) .byIdentity := by
  simp only [isVanished, Bool.and_eq_true, Bool.not_eq_true', decide_eq_true_eq,
    Option.isNone_iff_eq_none] at h
  obtain ⟨⟨⟨⟨⟨happlied, hseen⟩, hunfinished⟩, hmoved⟩, hexport⟩, hremembered⟩ := h
  rw [outcomeOf, if_neg (by simp [happlied]), if_neg (by simp [hseen]), if_neg hunfinished,
    if_neg hmoved, if_neg (by simp [hexport]), hremembered]
  dsimp only
  cases sameDocument seen placed row with
  | some name => rfl
  | none => cases arrivals.find? (isArrival row) <;> rfl

theorem outcomeOf_of_not_vanished {arrivals : List CreatedItem} {row : Ledger.PlacedItem}
    (h : isVanished seen row = false) :
    (outcomeOf seen placed arrivals row).isByContent = false ∧
      (outcomeOf seen placed arrivals row).isByIdentity = false ∧
      outcomeOf seen placed arrivals row ≠ .drifted := by
  unfold outcomeOf
  split
  · decide
  · next happlied =>
      split
      · decide
      · next hseen =>
          split
          · decide
          · next hunfinished =>
              split
              · decide
              · next hmoved =>
                  split
                  · decide
                  · next hexport =>
                      cases hremembered : row.movedToCollection with
                      | some destination => exact ⟨rfl, rfl, by intro h; cases h⟩
                      | none => simp_all [isVanished]

/-- Does another name of the same document explain this row? -/
def pairsById (seen : Vars Item) (placed : List Ledger.PlacedItem) (row : Ledger.PlacedItem) :
    Bool :=
  isVanished seen row && (sameDocument seen placed row).isSome

/-- Is this row left to its bytes? -/
def goesByBytes (seen : Vars Item) (placed : List Ledger.PlacedItem) (row : Ledger.PlacedItem) :
    Bool :=
  isVanished seen row && (sameDocument seen placed row).isNone

theorem outcomeOf_of_bytes {arrivals : List CreatedItem} {row : Ledger.PlacedItem}
    (h : goesByBytes seen placed row = true) : outcomeOf seen placed arrivals row =
      (arrivals.find? (isArrival row)).elim .drifted .byContent := by
  rw [goesByBytes, Bool.and_eq_true, Option.isNone_iff_eq_none] at h
  rw [outcomeOf_of_vanished h.1, h.2]
  rfl

theorem outcomeOf_of_not_bytes (arrivals : List CreatedItem) {row : Ledger.PlacedItem}
    (h : goesByBytes seen placed row = false) :
    (outcomeOf seen placed arrivals row).isByContent = false ∧
      outcomeOf seen placed arrivals row ≠ .drifted := by
  cases hv : isVanished seen row with
  | false => exact ⟨(outcomeOf_of_not_vanished hv).1, (outcomeOf_of_not_vanished hv).2.2⟩
  | true =>
      rw [goesByBytes, hv, Bool.true_and] at h
      obtain ⟨name, hname⟩ := Option.isSome_iff_exists.mp (Option.isNone_eq_false_iff.mp h)
      rw [outcomeOf_of_vanished hv, hname]
      exact ⟨rfl, by intro h; cases h⟩

theorem isByIdentity_outcomeOf {arrivals : List CreatedItem} {row : Ledger.PlacedItem} :
    (outcomeOf seen placed arrivals row).isByIdentity = pairsById seen placed row := by
  cases hv : isVanished seen row with
  | false => rw [(outcomeOf_of_not_vanished hv).2.1, pairsById, hv, Bool.false_and]
  | true =>
      rw [outcomeOf_of_vanished hv, pairsById, hv, Bool.true_and]
      cases sameDocument seen placed row with
      | some name => rfl
      | none => cases arrivals.find? (isArrival row) <;> rfl

/-- What is taken out of the pool was in it, and what is left is the rest. -/
theorem perm_cons_eraseP {α : Type} {p : α → Bool} {xs : List α} {a : α}
    (h : xs.find? p = some a) : xs.Perm (a :: xs.eraseP p) := by
  obtain ⟨hp, l₁, l₂, rfl, hl₁⟩ := List.find?_eq_some_iff_append.mp h
  rw [List.eraseP_append_right _ (fun b hb => by simpa using hl₁ b hb), List.eraseP_cons_of_pos hp]
  exact List.perm_middle

/-- The arrival that explains a row by its bytes. -/
def RowOutcome.arrival : RowOutcome → Option CreatedItem
  | byContent arrival => some arrival
  | _ => none

/-- The arrivals the pairs by bytes took, one for each pair. -/
def taken (os : List (Ledger.PlacedItem × RowOutcome)) : List CreatedItem :=
  os.filterMap fun p => p.2.arrival

theorem arrival_eq_none {o : RowOutcome} (h : o.isByContent = false) : o.arrival = none := by
  cases o <;> first | rfl | cases h

/-- No arrival is taken twice. -/
theorem taken_subperm {arrivals : List CreatedItem} {rows : List Ledger.PlacedItem} :
    (taken (outcomesFrom seen placed arrivals rows)).Subperm arrivals := by
  induction rows generalizing arrivals with
  | nil => exact List.nil_subperm
  | cons row rows ih =>
      have hkeep (h : (outcomeOf seen placed arrivals row).isByContent = false) :
          (taken (outcomesFrom seen placed arrivals (row :: rows))).Subperm arrivals := by
        have hrest : taken (outcomesFrom seen placed arrivals (row :: rows)) =
            taken (outcomesFrom seen placed arrivals rows) := by
          rw [outcomesFrom, leftAfter, h]
          exact List.filterMap_cons_none (arrival_eq_none h)
        rw [hrest]
        exact ih
      cases hbytes : goesByBytes seen placed row with
      | false => exact hkeep (outcomeOf_of_not_bytes _ hbytes).1
      | true =>
          cases hfind : arrivals.find? (isArrival row) with
          | none => exact hkeep (by rw [outcomeOf_of_bytes hbytes, hfind]; rfl)
          | some arrival =>
              have ho : outcomeOf seen placed arrivals row = .byContent arrival := by
                rw [outcomeOf_of_bytes hbytes, hfind]
                rfl
              rw [outcomesFrom, ho]
              show (arrival :: taken (outcomesFrom seen placed
                (arrivals.eraseP (isArrival row)) rows)).Subperm arrivals
              exact ((List.subperm_cons arrival).mpr ih).trans (perm_cons_eraseP hfind).symm.subperm

/-! ### How many of each hash -/

/-- Does this arrival hold these bytes? -/
def holds (c : String) (a : CreatedItem) : Bool :=
  c ≠ "" && a.contentHash = c

theorem holds_of_isArrival {row : Ledger.PlacedItem} {a : CreatedItem} {c : String}
    (h : isArrival row a = true) : holds c a = decide (row.contentHash = c) := by
  simp only [isArrival, Bool.and_eq_true, decide_eq_true_eq] at h
  obtain ⟨hne, heq⟩ := h
  by_cases hc : row.contentHash = c
  · subst hc
    simp [holds, hne, heq]
  · simp [holds, heq, hc]

/-- Of the rows left to their bytes as many are paired as there are arrivals,
and the others drift, hash by hash. -/
theorem countP_outcomesFrom {arrivals : List CreatedItem} {rows : List Ledger.PlacedItem}
    (c : String) :
    ((outcomesFrom seen placed arrivals rows).countP fun p =>
        p.2.isByContent && p.1.contentHash = c) =
      min (rows.countP fun row => goesByBytes seen placed row && row.contentHash = c)
        (arrivals.countP (holds c)) ∧
    ((outcomesFrom seen placed arrivals rows).countP fun p =>
        p.2 = .drifted && p.1.contentHash = c) =
      (rows.countP fun row => goesByBytes seen placed row && row.contentHash = c) -
        arrivals.countP (holds c) := by
  induction rows generalizing arrivals with
  | nil => simp [outcomesFrom]
  | cons row rows ih =>
      rw [outcomesFrom, List.countP_cons, List.countP_cons, List.countP_cons]
      cases hbytes : goesByBytes seen placed row with
      | false =>
          obtain ⟨hcontent, hdrift⟩ := outcomeOf_of_not_bytes arrivals hbytes
          rw [leftAfter, hcontent]
          simpa [hcontent, hdrift] using @ih arrivals
      | true =>
          cases hfind : arrivals.find? (isArrival row) with
          | none =>
              have ho : outcomeOf seen placed arrivals row = .drifted := by
                rw [outcomeOf_of_bytes hbytes, hfind]
                rfl
              -- no arrival of these bytes is left
              have hzero : row.contentHash = c → arrivals.countP (holds c) = 0 := by
                rintro rfl
                refine List.countP_eq_zero.mpr fun a ha => ?_
                exact List.find?_eq_none.mp hfind a ha
              have ih := @ih arrivals
              rw [ho, show leftAfter arrivals row .drifted = arrivals from rfl]
              by_cases hc : row.contentHash = c
              · have hnone := hzero hc
                simp [hc]
                omega
              · simpa [hc] using ih
          | some arrival =>
              have ho : outcomeOf seen placed arrivals row = .byContent arrival := by
                rw [outcomeOf_of_bytes hbytes, hfind]
                rfl
              have hpool := (perm_cons_eraseP hfind).countP_eq (holds c)
              rw [List.countP_cons, holds_of_isArrival (List.find?_some hfind)] at hpool
              have ih := @ih (arrivals.eraseP (isArrival row))
              rw [ho, show leftAfter arrivals row (.byContent arrival) =
                arrivals.eraseP (isArrival row) from rfl]
              by_cases hc : row.contentHash = c
              · simp [hc] at hpool ⊢
                omega
              · simp [hc] at hpool ⊢
                omega

theorem countP_byIdentity {arrivals : List CreatedItem} {rows : List Ledger.PlacedItem}
    (c : String) :
    ((outcomesFrom seen placed arrivals rows).countP fun p =>
        p.2.isByIdentity && p.1.contentHash = c) =
      rows.countP fun row => pairsById seen placed row && row.contentHash = c := by
  induction rows generalizing arrivals with
  | nil => rfl
  | cons row rows ih =>
      rw [outcomesFrom, List.countP_cons, List.countP_cons, ih, isByIdentity_outcomeOf]

end Explained

/-! ### In any order -/

/-- The same pass, its arrivals and its listed documents in another order. -/
structure Reordered (v v' : Vars Item) : Prop where
  created : v.createdThisPass.Perm v'.createdThisPass
  listed : v.listedByIdentity.Perm v'.listedByIdentity
  seen : v.seenByCollection = v'.seenByCollection
  unfinished : v.unfinishedCollections = v'.unfinishedCollections
  moved : v.movedByTheLoop = v'.movedByTheLoop

section Reordered

variable {seen seen' : Vars Item} {placed placed' : List Ledger.PlacedItem}

theorem Reordered.arrivals (h : Reordered seen seen') :
    (arrivalsOf seen).Perm (arrivalsOf seen') :=
  h.created.filter _

theorem Reordered.isVanished (h : Reordered seen seen') (row : Ledger.PlacedItem) :
    isVanished seen row = isVanished seen' row := by
  unfold Sync.isVanished Vars.seen
  rw [h.seen, h.unfinished, h.moved]

/-- Which name explains a row may change with the order; whether one does, not. -/
theorem Reordered.sameDocument (h : Reordered seen seen') (hp : placed.Perm placed')
    (row : Ledger.PlacedItem) :
    (sameDocument seen placed row).isSome = (sameDocument seen' placed' row).isSome := by
  unfold Sync.sameDocument
  cases row.sourceRef with
  | none => rfl
  | some ref =>
      rw [Option.bind_some, Option.bind_some, Bool.eq_iff_iff, List.find?_isSome,
        List.find?_isSome]
      refine exists_congr fun name => ?_
      rw [h.listed.mem_iff, hp.any_eq]

theorem Reordered.pairsById (h : Reordered seen seen') (hp : placed.Perm placed')
    (row : Ledger.PlacedItem) : pairsById seen placed row = pairsById seen' placed' row := by
  rw [Sync.pairsById, Sync.pairsById, h.isVanished, h.sameDocument hp]

theorem Reordered.goesByBytes (h : Reordered seen seen') (hp : placed.Perm placed')
    (row : Ledger.PlacedItem) : goesByBytes seen placed row = goesByBytes seen' placed' row := by
  rw [Sync.goesByBytes, Sync.goesByBytes, h.isVanished, ← Option.not_isSome, ← Option.not_isSome,
    h.sameDocument hp]

/-- How many rows of each content hash pair, and how many drift. -/
structure Tally where
  byIdentity : Nat
  byContent : Nat
  drifted : Nat
  deriving DecidableEq

def tallyOf (os : List (Ledger.PlacedItem × RowOutcome)) (c : String) : Tally where
  byIdentity := os.countP fun p => p.2.isByIdentity && p.1.contentHash = c
  byContent := os.countP fun p => p.2.isByContent && p.1.contentHash = c
  drifted := os.countP fun p => p.2 = .drifted && p.1.contentHash = c

theorem Reordered.tally (h : Reordered seen seen') (hp : placed.Perm placed') (c : String) :
    tallyOf (outcomes seen placed) c = tallyOf (outcomes seen' placed') c := by
  have hbytes : (placed.countP fun row => Sync.goesByBytes seen placed row &&
      row.contentHash = c) = placed'.countP fun row => Sync.goesByBytes seen' placed' row &&
      row.contentHash = c := by
    rw [hp.countP_eq]
    exact List.countP_congr fun row _ => by rw [h.goesByBytes hp]
  have hid : (placed.countP fun row => Sync.pairsById seen placed row &&
      row.contentHash = c) = placed'.countP fun row => Sync.pairsById seen' placed' row &&
      row.contentHash = c := by
    rw [hp.countP_eq]
    exact List.countP_congr fun row _ => by rw [h.pairsById hp]
  have hpool : (arrivalsOf seen).countP (holds c) = (arrivalsOf seen').countP (holds c) :=
    h.arrivals.countP_eq _
  rw [tallyOf, tallyOf, outcomes, outcomes, countP_byIdentity, countP_byIdentity,
    (countP_outcomesFrom c).1, (countP_outcomesFrom c).1, (countP_outcomesFrom c).2,
    (countP_outcomesFrom c).2, hbytes, hid, hpool]

end Reordered

/-! ### The whole account -/

section Account

variable {deps : DomainSyncDeps Item Raw Folder} {seen seen' : Vars Item}

theorem nodup_placedItems (l : Ledger) (d : DiscoveryDomain) :
    ((l.placedItems d).map Ledger.PlacedItem.naturalKeyHash).Nodup := by
  rw [Ledger.placedItems, List.map_map]
  exact (List.filter_sublist.map _).nodup l.unique

/-- Of rows with keys of their own, none has two outcomes. -/
theorem outcome_unique {os : List (Ledger.PlacedItem × RowOutcome)} {row row' : Ledger.PlacedItem}
    {o o' : RowOutcome} (hnodup : ((os.map Prod.fst).map Ledger.PlacedItem.naturalKeyHash).Nodup)
    (h : (row, o) ∈ os) (h' : (row', o') ∈ os)
    (hkey : row.naturalKeyHash = row'.naturalKeyHash) : o = o' := by
  rw [List.map_map] at hnodup
  exact congrArg Prod.snd (List.inj_on_of_nodup_map hnodup h h' hkey)

/-- What the loop does with these rows is accounted for: it carries out one
outcome for each row, and nothing else; no arrival is taken by two rows; and
what it reports, whatever the calls answer, is what the outcomes say, no row
being both moved and deleted. -/
structure Accounting (τ : Type) (deps : DomainSyncDeps Item Raw Folder) (seen : Vars Item)
    (placed : List Ledger.PlacedItem) : Prop where
  carried : (detectRows deps seen placed (arrivalsOf seen) placed : Pass Item Raw Folder τ Found) =
    carryOutAll deps placed (outcomes seen placed)
  once : (outcomes seen placed).map Prod.fst = placed
  taken : (taken (outcomes seen placed)).Subperm (arrivalsOf seen)
  reported : Returns (detectRows deps seen placed (arrivalsOf seen) placed :
    Pass Item Raw Folder τ Found) fun found => Reported deps (outcomes seen placed) found
  apart : Returns (detectRows deps seen placed (arrivalsOf seen) placed :
    Pass Item Raw Folder τ Found) fun found =>
      ∀ m ∈ found.moves, ∀ d ∈ found.deletions, m.naturalKeyHash ≠ d.naturalKeyHash

theorem mem_movesOf {row : Ledger.PlacedItem} {o : RowOutcome} {m : ReportedMove}
    (h : m ∈ movesOf deps row o) : m.naturalKeyHash = row.naturalKeyHash ∧ o ≠ .drifted := by
  unfold movesOf at h
  split at h
  · split at h
    · rw [List.mem_singleton.mp h]
      exact ⟨rfl, by intro h; cases h⟩
    · cases h
  · rw [List.mem_singleton.mp h]
    exact ⟨rfl, by intro h; cases h⟩
  · rw [List.mem_singleton.mp h]
    exact ⟨rfl, by intro h; cases h⟩
  · cases h

theorem accounting (τ : Type) (l : Ledger) : Accounting τ deps seen (l.placedItems deps.domain) := by
  have hcarried : (detectRows deps seen (l.placedItems deps.domain) (arrivalsOf seen)
      (l.placedItems deps.domain) : Pass Item Raw Folder τ Found) = _ := detectRows_eq_carryOutAll
  refine ⟨hcarried, outcomesFrom_rows, taken_subperm, ?_, ?_⟩
  · rw [hcarried]
    exact returns_carryOutAll
  · rw [hcarried]
    intro h
    refine (returns_carryOutAll h).mono fun h' r _ hr found hfound m hm d hd hkey => ?_
    have hrep := hr found hfound
    obtain ⟨row, hrow, hdkey⟩ := hrep.deletions d hd
    rw [hrep.moves] at hm
    obtain ⟨p, hp, hmp⟩ := List.mem_flatMap.mp hm
    obtain ⟨hmkey, hnot⟩ := mem_movesOf hmp
    refine hnot (outcome_unique ?_ hp hrow (hmkey.symm.trans (hkey.trans hdkey)))
    rw [outcomesFrom_rows]
    exact nodup_placedItems l deps.domain

/-- **The account of `detectPathKeyedMoves`**: the loop over what the ledger
placed is accounted for, and in another order of the rows and of the arrivals
as many rows of each content hash pair, and drift. -/
theorem detectPathKeyedMoves_accounts (τ : Type) {l l' : Ledger} (hseen : Reordered seen seen')
    (hrows : (l.placedItems deps.domain).Perm (l'.placedItems deps.domain)) :
    (detectPathKeyedMoves deps seen : Pass Item Raw Folder τ Found) =
      (askLedger (.placedItems deps.domain) >>= fun placed =>
        detectRows deps seen placed (arrivalsOf seen) placed) ∧
    Accounting τ deps seen (l.placedItems deps.domain) ∧
    ∀ c, tallyOf (outcomes seen (l.placedItems deps.domain)) c =
      tallyOf (outcomes seen' (l'.placedItems deps.domain)) c :=
  ⟨rfl, accounting τ l, hseen.tally hrows⟩

end Account

/-! ### A document with two old names -/

def documentDeps : DomainSyncDeps Unit Unit Unit where
  domain := .file
  cursors := false
  folderPath _ := some "docs"
  naturalKey _ := none
  contentHash _ := .ok ""
  sourceIsAuthorityOnExistence := true

/-- A name the document had, its copy still on the target. -/
def oldName (key : String) : ItemRow where
  domain := .file
  naturalKeyHash := key
  collection := "docs"
  contentHash := some "export"
  status := .copied
  sourceRefHref := some "document"

def twoNames : Ledger := ⟨[oldName "first", oldName "second", oldName "now"], by decide⟩

/-- The same rows, the table in another order. -/
def twoNamesTurned : Ledger := ⟨[oldName "second", oldName "first", oldName "now"], by decide⟩

/-- The pass copied the document under the name it has now. -/
def renamedAgain : Vars Unit where
  seenByCollection := [("docs", "now")]
  createdThisPass := [⟨"now", "export", "docs", some "document"⟩]
  listedByIdentity := [⟨"document", "now", "docs"⟩]

theorem detectPathKeyedMoves_accounts_turned :
    (detectPathKeyedMoves documentDeps renamedAgain : Pass Unit Unit Unit Unit Found) =
      (askLedger (.placedItems .file) >>= fun placed =>
        detectRows documentDeps renamedAgain placed (arrivalsOf renamedAgain) placed) ∧
    Accounting Unit documentDeps renamedAgain (twoNames.placedItems .file) ∧
    ∀ c, tallyOf (outcomes renamedAgain (twoNames.placedItems .file)) c =
      tallyOf (outcomes renamedAgain (twoNamesTurned.placedItems .file)) c :=
  detectPathKeyedMoves_accounts Unit
    ⟨.refl _, .refl _, rfl, rfl, rfl⟩ (by decide)

/-- Does this item, copied in the pass, explain a row of this outcome? -/
def explains (arrival : CreatedItem) : RowOutcome → Bool
  | .byContent c => c = arrival
  | .byIdentity name => name.naturalKeyHash = arrival.naturalKeyHash
  | _ => false

/-- A document explains every old name it left: two rows, one arrival. -/
theorem one_arrival_explains_two :
    ¬ ∀ (seen : Vars Unit) (l : Ledger) (d : DiscoveryDomain) (arrival : CreatedItem),
      arrival ∈ seen.createdThisPass →
      ((outcomes seen (l.placedItems d)).countP fun p => explains arrival p.2) ≤ 1 := by
  intro hall
  have htwo := hall renamedAgain twoNames .file ⟨"now", "export", "docs", some "document"⟩
    (by decide)
  revert htwo
  decide

end Ownpace.Sync
