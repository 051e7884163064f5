/-
Ownpace/Apply/Unattended.lean

What `autoApplyRelocations` may remove, when nobody else writes.

The loop goes by two readings, the open moves and the placed items, taken
before its first removal; and every removal it makes rewrites a row.  What it
rewrites changes neither reading of any other row (`Since`): a removed copy
keeps its place in the list and its bytes.  So at each removal the row is
still what the readings said (`Eligible`), whatever the loop did before.
-/
import Ownpace.Apply.Ambiguity
import Ownpace.Apply.Press
import Mathlib.Data.List.Perm.Subperm

namespace Ownpace

open Await Store

variable {τ : Type}

/-! ### What makes a move eligible -/

/-- No placed row but these two holds the bytes of the first. -/
def HeldByPair (l : Ledger) (d : DiscoveryDomain) (r a : ItemRow) : Prop :=
  ∀ x ∈ l.rows, x.domain = d → Ledger.isPlaced x = true → bytesOf x = bytesOf r → x = r ∨ x = a

/-- The old copy of `r` may be removed unattended, `a` being its arrival: the
move was recorded before the pass started and by bytes, nobody has answered
it, both copies are ours, the arrival's is on the target, and two placed rows
hold the bytes, which are theirs where both say where they lie. -/
structure Eligible (T : Target τ) (deps : ApplyDeletionDeps) (passStartedAt : Nat) (w : World τ)
    (r a : ItemRow) : Prop where
  here : w.ledger.get r.naturalKeyHash = some r
  there : w.ledger.get a.naturalKeyHash = some a
  domains : r.domain = deps.domain ∧ a.domain = deps.domain
  moved : r.movedToNaturalKeyHash = some a.naturalKeyHash
  apart : a.naturalKeyHash ≠ r.naturalKeyHash
  unanswered : r.moveAcknowledgedAt = none
  survived : ∃ at_, r.movedRecordedAt = some at_ ∧ at_ < passStartedAt
  byBytes : r.movedByIdentity = false
  ours : r.status.ours = true ∧ a.status.ours = true
  bytes : bytesOf r ≠ "" ∧ bytesOf a = bytesOf r
  present : T.has w.target (a.targetRef.getD "")
    ((nonEmpty a.collection).map (applyTargetFolderPrefix deps.targetFolderPrefix)) (.ok true)
  two : sharersOf (w.ledger.placedItems deps.domain) (bytesOf r) = 2
  pair : r.collection ≠ "" → a.collection ≠ "" → HeldByPair w.ledger deps.domain r a

theorem isPlaced_of_ours {r : ItemRow} (hours : r.status.ours = true) (hc : r.collection ≠ "") :
    Ledger.isPlaced r = true := by
  rw [isPlaced_iff hc, isOnTarget_of_ours hours, Bool.true_or]

theorem heldByPair_of_two {l : Ledger} {d : DiscoveryDomain} {r a : ItemRow} (hr : r ∈ l.rows)
    (ha : a ∈ l.rows) (hd : r.domain = d ∧ a.domain = d) (hne : a.naturalKeyHash ≠ r.naturalKeyHash)
    (hplaced : Ledger.isPlaced r = true ∧ Ledger.isPlaced a = true)
    (hbytes : bytesOf a = bytesOf r) (htwo : sharersOf (l.placedItems d) (bytesOf r) = 2) : HeldByPair l d r a := by
  intro x hx hxd hxp hxb
  by_contra hcon
  push Not at hcon
  -- the three of them are picked by a condition that two rows meet
  have hcount : (l.rows.filter (isSharer d (bytesOf r))).length = 2 := by
    rw [← List.countP_eq_length_filter, ← sharersOf_eq_countP, htwo]
  have hsub : [x, r, a] ⊆ l.rows.filter (isSharer d (bytesOf r)) := by
    intro y hy
    simp only [List.mem_cons, List.not_mem_nil, or_false] at hy
    rcases hy with rfl | rfl | rfl
    · exact List.mem_filter.mpr ⟨hx, by simp [isSharer, hxd, hxp, hxb]⟩
    · exact List.mem_filter.mpr ⟨hr, by simp [isSharer, hd.1, hplaced.1]⟩
    · exact List.mem_filter.mpr ⟨ha, by simp [isSharer, hd.2, hplaced.2, hbytes]⟩
  have hra : r ≠ a := fun heq => hne (by rw [heq])
  have hnodup : [x, r, a].Nodup := by simp [hcon.1, hcon.2, hra]
  have hle := (List.subperm_of_subset hnodup hsub).length_le
  rw [hcount] at hle
  exact Nat.not_succ_le_self 2 hle

/-! ### What the loop's own removals leave -/

/-- Since `w₀` only relocations were recorded: a row is what it was, or its
copy is gone, and as many placed rows hold any bytes as did. -/
structure Since (d : DiscoveryDomain) (w₀ w : World τ) : Prop where
  authority : w.authority = w₀.authority
  sharers : ∀ c, sharersOf (w.ledger.placedItems d) c = sharersOf (w₀.ledger.placedItems d) c
  rows : ∀ k r, w.ledger.get k = some r → w₀.ledger.get k = some r ∨ r.status = .tombstoned

theorem isSharer_relocatedRow {l : Ledger} {d d' : DiscoveryDomain} {r : ItemRow}
    (hr : l.mayApplyRelocation d r = true) (now : Nat) (c : String) :
    isSharer d' c (Ledger.relocatedRow now r) = isSharer d' c r := by
  have hours : r.status.ours = true := by
    simp only [Ledger.mayApplyRelocation, Bool.and_eq_true] at hr
    exact hr.1.2
  have hplaced : Ledger.isPlaced (Ledger.relocatedRow now r) = Ledger.isPlaced r := by
    rcases ItemStatus.ours_iff.mp hours with hs | hs <;>
      simp [Ledger.isPlaced, Ledger.relocatedRow, hs]
  rw [isSharer, hplaced]
  rfl

/-- A recorded relocation takes no row off the list and no bytes off a row. -/
theorem sharersOf_applyRelocation (l : Ledger) (d d' : DiscoveryDomain) (k : String) (now : Nat)
    (c : String) : sharersOf ((l.applyRelocation now d k).2.placedItems d') c =
      sharersOf (l.placedItems d') c := by
  rw [sharersOf_eq_countP, sharersOf_eq_countP]
  show (l.rows.map fun r => bif decide (r.naturalKeyHash = k) && l.mayApplyRelocation d r
    then Ledger.relocatedRow now r else r).countP _ = _
  rw [List.countP_map]
  refine List.countP_congr fun r _ => ?_
  show isSharer d' c (bif decide (r.naturalKeyHash = k) && l.mayApplyRelocation d r
    then Ledger.relocatedRow now r else r) = true ↔ _
  cases hsel : decide (r.naturalKeyHash = k) && l.mayApplyRelocation d r with
  | false => rfl
  | true =>
      rw [Bool.and_eq_true] at hsel
      rw [cond_true, isSharer_relocatedRow hsel.2]

theorem Since.relocated {d : DiscoveryDomain} {w₀ w w' : World τ} {k : String} {now : Nat}
    (hs : Since d w₀ w) (hauth : w'.authority = w.authority)
    (hl : w'.ledger = (w.ledger.applyRelocation now d k).2) : Since d w₀ w' where
  authority := hauth.trans hs.authority
  sharers c := by rw [hl, sharersOf_applyRelocation, hs.sharers]
  rows k' r hg := by
    rw [hl, Ledger.applyRelocation_get] at hg
    split at hg
    · next heq =>
        subst heq
        obtain ⟨r₀, hg₀, rfl⟩ := Option.map_eq_some_iff.mp hg
        cases hmay : w.ledger.mayApplyRelocation d r₀ with
        | false => exact hs.rows _ _ hg₀
        | true => exact .inr rfl
    · exact hs.rows _ _ hg

theorem Since.same {d : DiscoveryDomain} {w₀ w w' : World τ} (hs : Since d w₀ w)
    (hauth : w'.authority = w.authority) (hl : w'.ledger = w.ledger) : Since d w₀ w' where
  authority := hauth.trans hs.authority
  sharers c := by rw [hl, hs.sharers]
  rows k r hg := hs.rows k r (hl ▸ hg)

/-! ### The loop -/

section Loop

variable {T : Target τ} {deps : ApplyDeletionDeps} {passStartedAt cap : Nat} {w₀ : World τ}
variable {s : World τ × Nat}

/-- Where a removal may be asked for: under the cap, while the source decides,
with the breaker closed, for the old copy of an eligible move. -/
def MayRemove (T : Target τ) (deps : ApplyDeletionDeps) (passStartedAt cap : Nat)
    (s : World τ × Nat) (targetId : String) : Prop :=
  s.2 < cap ∧ s.1.authority = true ∧ BreakerClosed s.1.ledger deps.domain ∧
    ∃ r a, Eligible T deps passStartedAt s.1 r a ∧ targetId = r.targetRef.getD ""

theorem mem_listMoves {l : Ledger} {d : DiscoveryDomain} {m : Ledger.ItemMove}
    (hm : m ∈ l.listMoves (some d)) : ∃ r ∈ l.rows, m = Ledger.itemMove r := by
  rw [Ledger.listMoves, List.mem_mergeSort, List.mem_map] at hm
  obtain ⟨r, hr, rfl⟩ := hm
  exact ⟨r, List.mem_of_mem_filter hr, rfl⟩

/-- A move the loop's readings let through and every gate of the press cleared
is eligible, in the world it is cleared in. -/
theorem Cleared.eligible {row arrival : LedgerRecord} {move : Ledger.ItemMove}
    (hcl : Cleared T deps move.naturalKeyHash s.1 row arrival)
    (hsince : Since deps.domain w₀ s.1)
    (hmove : move ∈ w₀.ledger.listMoves (some deps.domain))
    (hsurvived : ¬ (move.recordedAt.all fun at_ => decide (passStartedAt ≤ at_)) = true)
    (hbytes : row.movedByIdentity = false) (hne : row.contentHash ≠ "")
    (htwo : sharersOf (w₀.ledger.placedItems deps.domain) row.contentHash = 2) :
    ∃ r a, Eligible T deps passStartedAt s.1 r a ∧ row.targetId = r.targetRef.getD "" := by
  obtain ⟨r, hg, hd, rfl⟩ := find_eq_some.mp hcl.found
  obtain ⟨a, hga, hda, rfl⟩ := find_eq_some.mp hcl.there
  obtain ⟨arrivalKey, arrival, hmoved, hapart, hfind, hcheck⟩ := hcl.gates.arrival
  obtain rfl : mapRowToRecord a = arrival := by
    have hthere := hcl.there
    rw [hmoved, Option.getD_some, hfind] at hthere
    exact (Option.some.inj hthere).symm
  have hkey : r.naturalKeyHash = move.naturalKeyHash := Table.get_key hg
  have hakey : a.naturalKeyHash = arrivalKey := by
    have := Table.get_key hga
    rw [hmoved] at this
    exact this
  -- the row is the one the queue was read from: a removed one is not cleared
  have hrow₀ : w₀.ledger.get move.naturalKeyHash = some r := by
    rcases hsince.rows _ _ hg with h | h
    · exact h
    · exact absurd h (isApplied_eq_false.mp hcl.live).2
  obtain ⟨r₀, hr₀, hm⟩ := mem_listMoves hmove
  obtain rfl : r₀ = r := by
    have hk : r₀.naturalKeyHash = move.naturalKeyHash := by rw [hm]; rfl
    have := Table.get_of_mem hr₀
    rw [hk, hrow₀] at this
    exact (Option.some.inj this).symm
  have hat : ∃ at_, r₀.movedRecordedAt = some at_ ∧ at_ < passStartedAt := by
    rw [hm] at hsurvived
    cases hrec : r₀.movedRecordedAt with
    | none => exact absurd (by simp [Ledger.itemMove, hrec]) hsurvived
    | some at_ =>
        refine ⟨at_, rfl, Nat.not_le.mp fun hle => hsurvived ?_⟩
        simpa [Ledger.itemMove, hrec] using hle
  have hid : r₀.movedByIdentity = false := hbytes
  have harr := bytes_of_arrivalCheck hid hcheck
  have hmoved₀ : r₀.movedToNaturalKeyHash = some a.naturalKeyHash := by
    obtain ⟨m, hm', hmk⟩ := Option.bind_eq_some_iff.mp hmoved
    rw [hm', (nonEmpty_eq_some.mp hmk).1, hakey]
  have hapart' : a.naturalKeyHash ≠ r₀.naturalKeyHash := by
    rw [hakey]
    exact hapart
  have htwo' := (hsince.sharers _).trans htwo
  have hours := ours_of_ownershipCheck hcl.ours
  exact ⟨r₀, a,
    { here := by rw [hkey]; exact hg
      there := Table.get_of_mem (Table.mem_of_get hga)
      domains := ⟨hd, hda⟩
      moved := hmoved₀
      apart := hapart'
      unanswered := hcl.gates.unanswered
      survived := hat
      byBytes := hid
      ours := ⟨hours, harr.1⟩
      bytes := ⟨harr.2.1, harr.2.2⟩
      present := hcl.present
      two := htwo'
      pair := fun hc hca => heldByPair_of_two (Table.mem_of_get hg) (Table.mem_of_get hga)
        ⟨hd, hda⟩ hapart' ⟨isPlaced_of_ours hours hc, isPlaced_of_ours harr.1 hca⟩ harr.2.2
        htwo' }, rfl⟩

/-- How one move of the loop ends: removed and tallied, or left alone. -/
def Turned (d : DiscoveryDomain) (w₀ : World τ) (n : Nat) (r : Except LeftForReview RemovalKind)
    (s' : World τ × Nat) : Prop :=
  Since d w₀ s'.1 ∧ s'.2 = n + r.isOk.toNat

theorem triple_autoApplyOne {move : Ledger.ItemMove} (hsince : Since deps.domain w₀ s.1)
    (hcap : s.2 < cap) (hmove : move ∈ w₀.ledger.listMoves (some deps.domain)) :
    Prog.Triple (Tallies mayRemove T) (RemovesOnly (MayRemove T deps passStartedAt cap)) (fun x => x = s)
      (autoApplyOne deps (w₀.ledger.placedItems deps.domain) passStartedAt move)
      (Turned deps.domain w₀ s.2) := by
  have hleft {left : LeftForReview} : Prog.Triple (Tallies mayRemove T)
      (RemovesOnly (MayRemove T deps passStartedAt cap)) (fun x => x = s)
      (Prog.ret (.error left) : Apply (World τ × Nat) _) (Turned deps.domain w₀ s.2) :=
    Prog.triple_ret fun x hx => by
      subst hx
      exact ⟨hsince, rfl⟩
  unfold autoApplyOne
  split
  · exact hleft
  · next hsurvived =>
      refine (readsAt_ledger rfl fun _ => rfl).andThen ?_
      rintro found rfl
      split
      · exact hleft
      · next hbytes =>
          dsimp only
          split
          · exact hleft
          · next htwo =>
              refine Prog.Triple.bind (triple_applyRelocation fun row arrival hcl => ?_)
                fun outcome => ?_
              · have hfind := hcl.found
                rw [hfind] at hbytes htwo
                refine ⟨hcap, hcl.authority, hcl.breaker, ?_⟩
                rw [ne_eq, not_not, Option.map_some, Option.bind_some] at htwo
                cases hne : nonEmpty row.contentHash with
                | none =>
                    rw [hne] at htwo
                    cases htwo
                | some c =>
                    obtain ⟨rfl, hne'⟩ := nonEmpty_eq_some.mp hne
                    rw [hne] at htwo
                    exact hcl.eligible hsince hmove hsurvived (by simpa using hbytes) hne' htwo
              · cases outcome with
                | refused refusal =>
                    refine Prog.triple_ret fun x hx => ?_
                    cases hx with
                    | nothing hn hauth hl => exact ⟨hsince.same hauth hl, hn⟩
                | ok kind =>
                    refine Prog.Triple.seq
                      (fun _ => Turned deps.domain w₀ s.2 (.ok kind))
                      (Prog.triple_attempt (fun _ _ => trivial) ?_ ?_) fun _ =>
                        Prog.triple_ret fun x hx => hx
                    · rintro x a x' hx hw
                      obtain rfl := tallies_of_reads rfl hw
                      cases hx with
                      | removed hn hauth hl => exact ⟨hsince.relocated hauth hl, hn⟩
                    · rintro x a x' hx hw
                      obtain rfl := tallies_of_reads rfl hw
                      cases hx with
                      | removed hn hauth hl => exact ⟨hsince.relocated hauth hl, hn⟩

/-- What the loop made of these moves: each was applied, and tallied, or left. -/
structure Looped (d : DiscoveryDomain) (w₀ : World τ) (moves : Nat)
    (before after : AutoApplyRelocationsReport) (s : World τ × Nat) : Prop where
  since : Since d w₀ s.1
  tally : s.2 = after.applied.length
  all : after.applied.length + after.leftForReview.length =
    before.applied.length + before.leftForReview.length + moves
  considered : after.considered = before.considered
  stopped : after.stoppedCode = before.stoppedCode

theorem triple_autoApplyLoop {moves : List Ledger.ItemMove}
    (hmoves : ∀ m ∈ moves, m ∈ w₀.ledger.listMoves (some deps.domain))
    {report : AutoApplyRelocationsReport} :
    Prog.Triple (Tallies mayRemove T) (RemovesOnly (MayRemove T deps passStartedAt cap))
      (fun x => Since deps.domain w₀ x.1 ∧ x.2 = report.applied.length)
      (autoApplyLoop deps (w₀.ledger.placedItems deps.domain) passStartedAt cap moves report)
      (Looped deps.domain w₀ moves.length report) := by
  induction moves generalizing report with
  | nil => exact Prog.triple_ret fun x hx => ⟨hx.1, hx.2, rfl, rfl, rfl⟩
  | cons move moves ih =>
      have hrest := fun m hm => hmoves m (List.mem_cons_of_mem _ hm)
      rw [autoApplyLoop]
      split
      · refine (ih hrest).mono (fun x hx => hx) fun after x hx => ?_
        refine { hx with all := hx.all.trans ?_ }
        simp only [List.length_append, List.length_cons, List.length_nil]
        omega
      · next hcap =>
          refine Prog.Triple.seq (fun r x => Turned deps.domain w₀ report.applied.length r x)
            (fun x hx => ?_) fun r => ?_
          · exact hx.2 ▸ triple_autoApplyOne hx.1 (hx.2 ▸ Nat.not_le.mp hcap)
              (hmoves move List.mem_cons_self) x rfl
          · cases r with
            | ok kind =>
                refine (ih hrest).mono (fun x hx => ⟨hx.1, hx.2.trans ?_⟩) fun after x hx => ?_
                · simp only [List.length_append, List.length_cons, List.length_nil]
                  rfl
                · refine { hx with all := hx.all.trans ?_ }
                  simp only [List.length_append, List.length_cons, List.length_nil]
                  omega
            | error left =>
                refine (ih hrest).mono (fun x hx => hx) fun after x hx => ?_
                refine { hx with all := hx.all.trans ?_ }
                simp only [List.length_append, List.length_cons, List.length_nil]
                omega

/-! ### The whole pass -/

/-- What a finished pass reports: every open relocation of the start was applied
or left, unless the cutover or the breaker stopped the pass. -/
structure Accounted (deps : ApplyDeletionDeps) (enabled : Bool) (w₀ : World τ)
    (report : AutoApplyRelocationsReport) (n : Nat) : Prop where
  tally : n = report.applied.length
  considered : enabled = true → w₀.authority = true →
    report.considered = (openRelocations w₀.ledger deps.domain).length
  all : report.stoppedCode = none →
    report.applied.length + report.leftForReview.length = report.considered
  stopped : report.stoppedCode ≠ none → report.applied = [] ∧ enabled = true ∧
    (w₀.authority = false ∨ ¬ BreakerClosed w₀.ledger deps.domain)

theorem triple_autoApplyRelocations {enabled : Bool} :
    Prog.Triple (Tallies mayRemove T)
      (RemovesOnly fun s targetId => enabled = true ∧ BreakerClosed w₀.ledger deps.domain ∧
        MayRemove T deps passStartedAt cap s targetId)
      (fun x => x = (w₀, 0)) (autoApplyRelocations deps enabled passStartedAt cap)
      fun report x => Accounted deps enabled w₀ report x.2 := by
  unfold autoApplyRelocations
  split
  · next hoff =>
      refine Prog.triple_ret fun x hx => ?_
      subst hx
      exact ⟨rfl, fun h => absurd (h.symm.trans hoff) (by decide), fun _ => rfl,
        fun h => absurd rfl h⟩
  · next hon =>
      have hon : enabled = true := by simpa using hon
      refine readsAt_stillTheAuthority.andThen ?_
      rintro still rfl
      split
      · next hpast =>
          refine Prog.triple_ret fun x hx => ?_
          subst hx
          exact ⟨rfl, fun _ h => absurd (h.symm.trans hpast) (by decide), (by intro h; cases h),
            fun _ => ⟨rfl, hon, .inl hpast⟩⟩
      · refine (readsAt_ledger rfl fun _ => rfl).andThen ?_
        rintro _ rfl
        dsimp only
        split
        · next hnone =>
            refine Prog.triple_ret fun x hx => ?_
            subst hx
            refine ⟨rfl, fun _ _ => ?_, fun _ => rfl, fun h => absurd rfl h⟩
            rw [openRelocations, hnone]
            rfl
        · refine readsAt_massChecks.andThen fun breaker hbreaker => ?_
          cases breaker with
          | some refusal =>
              refine Prog.triple_ret fun x hx => ?_
              subst hx
              refine ⟨rfl, fun _ _ => rfl, (by intro h; cases h), fun _ => ⟨rfl, hon, .inr ?_⟩⟩
              intro hclosed
              cases hbreaker.mpr hclosed
          | none =>
              have hclosed := hbreaker.mp rfl
              refine (readsAt_ledger rfl fun _ => rfl).andThen ?_
              rintro placed rfl
              have hmoves : ∀ m ∈ openRelocations w₀.ledger deps.domain,
                  m ∈ w₀.ledger.listMoves (some deps.domain) :=
                fun m hm => List.mem_of_mem_filter hm
              refine ((triple_autoApplyLoop hmoves).calls_mono ?_).mono ?_ ?_
              · rintro s o hmay
                cases o <;> first | exact trivial | exact ⟨hon, hclosed, hmay⟩
              · rintro x rfl
                exact ⟨⟨rfl, fun _ => rfl, fun _ _ h => .inl h⟩, rfl⟩
              · intro report x hx
                refine ⟨hx.tally, fun _ _ => hx.considered, fun _ => ?_, fun h => ?_⟩
                · rw [hx.all, hx.considered]
                  simp [openRelocations]
                · exact absurd hx.stopped h

/-- The tally never passes the cap: only a removal makes it grow. -/
theorem tally_le {enabled : Bool} {p : Apply (World τ × Nat) AutoApplyRelocationsReport}
    {h : List (ApplyEvent (World τ × Nat))} {x : World τ × Nat}
    (hr : Prog.Run (fun _ _ => False) (Tallies mayRemove T)
      (autoApplyRelocations deps enabled passStartedAt cap) (w₀, 0) p h x) : x.2 ≤ cap := by
  refine Prog.Wp.keeps (I := fun x => x.2 ≤ cap) hr quiet_autoApplyRelocations
    (triple_autoApplyRelocations _ rfl) (Nat.zero_le _) ?_
  rintro x o a x' hle hmay hw
  rw [hw.2]
  cases o with
  | removeItem targetId opts =>
      have hlt : x.2 < cap := hmay.2.2.1
      have hone := Bool.toNat_le (mayRemove (.removeItem targetId opts) a)
      omega
  | _ => exact hle

/-- **Unattended, alone**: at any point of a pass no more than the cap were
removed; a removal that is about to be asked for is one the setting, the
source, the breaker and the move itself allow, there and then; and the report
of a finished pass accounts for every open relocation. -/
theorem autoApplyRelocations_safe {enabled : Bool}
    {p : Apply (World τ × Nat) AutoApplyRelocationsReport}
    {h : List (ApplyEvent (World τ × Nat))} {w : World τ} {n : Nat}
    (hr : Prog.Run (fun _ _ => False) (Tallies mayRemove T)
      (autoApplyRelocations deps enabled passStartedAt cap) (w₀, 0) p h (w, n)) :
    n ≤ cap ∧
    (∀ targetId opts k, p = .call (.removeItem targetId opts) k →
      enabled = true ∧ BreakerClosed w₀.ledger deps.domain ∧
        MayRemove T deps passStartedAt cap (w, n) targetId) ∧
    (∀ report, p = .ret report → Accounted deps enabled w₀ report n) := by
  have hwp := (triple_autoApplyRelocations (T := T) (w₀, 0) rfl).run hr
  refine ⟨tally_le hr, ?_, ?_⟩
  · rintro targetId opts k rfl
    exact hwp.1
  · rintro report rfl
    exact hwp report rfl

end Loop

/-! ### Two renamed files, and a mass move -/

/-- A target that holds whatever it is asked about and answers every removal
the same. -/
def steadyTarget (answer : RemovalResult) : Target Unit where
  removes _ _ _ a _ := a = .ok answer
  has _ _ _ a := a = .ok true
  refused_same _ _ _ _ _ _ _ := rfl

/-- A world that changes by the calls alone, with a tally. -/
def steadyWorld (counts : (o : ApplyOp) → o.Ans → Bool) (answer : RemovalResult)
    (s : World Unit × Nat) : (o : ApplyOp) → o.Ans × World Unit × Nat
  | .ledger o =>
      ((o.run renamedHost s.1.ledger).1,
        { s.1 with ledger := (o.run renamedHost s.1.ledger).2 },
        s.2 + (counts (.ledger o) (o.run renamedHost s.1.ledger).1).toNat)
  | .stillTheAuthority =>
      (.ok s.1.authority, s.1, s.2 + (counts .stillTheAuthority (.ok s.1.authority)).toNat)
  | .removeItem id opts =>
      (.ok answer, s.1, s.2 + (counts (.removeItem id opts) (.ok answer)).toNat)
  | .hasItem id c => (.ok true, s.1, s.2 + (counts (.hasItem id c) (.ok true)).toNat)
  | .recordAuditEvent k kind =>
      (.ok (), s.1, s.2 + (counts (.recordAuditEvent k kind) (.ok ())).toNat)

theorem steadyWorld_tallies (counts : (o : ApplyOp) → o.Ans → Bool) (answer : RemovalResult)
    (s : World Unit × Nat) (o : ApplyOp) :
    Tallies counts (steadyTarget answer) s o (steadyWorld counts answer s o).1
      (steadyWorld counts answer s o).2 := by
  cases o with
  | ledger o => exact ⟨⟨renamedHost, rfl, .inl rfl⟩, rfl⟩
  | stillTheAuthority => exact ⟨⟨rfl, .inl rfl⟩, rfl⟩
  | removeItem id opts => exact ⟨⟨rfl, rfl⟩, rfl⟩
  | hasItem id c => exact ⟨⟨rfl, rfl⟩, rfl⟩
  | recordAuditEvent k kind => exact ⟨rfl, rfl⟩

/-- A second renamed file beside the first. -/
def otherOld : ItemRow :=
  { renamedOld with
    naturalKeyHash := "other"
    contentHash := some "d"
    targetRef := some "t-other"
    movedToNaturalKeyHash := some "another" }

def otherNew : ItemRow :=
  { renamedNew with
    naturalKeyHash := "another"
    contentHash := some "d"
    targetRef := some "t-another" }

def twoRenamed : World Unit where
  ledger := ⟨[renamedOld, renamedNew, otherOld, otherNew], by decide⟩
  target := ()
  authority := true

theorem listMoves_twoRenamed :
    twoRenamed.ledger.listMoves (some .file) =
      [Ledger.itemMove renamedOld, Ledger.itemMove otherOld] :=
  List.mergeSort_of_pairwise (by decide)

/-- What the pass makes of the two renamed files, one removal being the cap. -/
def oneRemoved : AutoApplyRelocationsReport where
  enabled := true
  considered := 2
  applied := [("old", .deleted)]
  leftForReview := [("other", .capReached)]

section Eval

variable {counts : (o : ApplyOp) → o.Ans → Bool} {answer : RemovalResult}
variable {s : World Unit × Nat} {deps : ApplyDeletionDeps} {t cap : Nat}

/-- Reads are answered by what is there, and counted by nobody. -/
theorem eval_reads (hcounts : ∀ o a, o.reads = true → counts o a = false) {o : LedgerOp}
    {v : o.Reply} (ho : o.reads = true) (hv : (o.run renamedHost s.1.ledger).1 = .ok v) :
    (askLedger o).eval (steadyWorld counts answer) s = (.ok v, s) := by
  have hstep : steadyWorld counts answer s (.ledger o) = (.ok v, s) := by
    show ((o.run renamedHost s.1.ledger).1, _, s.2 + (counts (.ledger o) _).toNat) = _
    rw [hcounts (.ledger o) _ ho, LedgerOp.run_of_reads ho, hv]
    rfl
  show Prog.eval _ _ (steadyWorld counts answer s (.ledger o)).2 = _
  rw [hstep]
  rfl

theorem eval_stillTheAuthority (hcounts : ∀ o a, o.reads = true → counts o a = false)
    (hauth : s.1.authority = true) :
    (ask .stillTheAuthority).eval (steadyWorld counts answer) s = (.ok true, s) := by
  show ((.ok s.1.authority : Except String Bool),
    (s.1, s.2 + (counts .stillTheAuthority (.ok s.1.authority)).toNat)) = _
  rw [hcounts _ _ rfl, hauth]
  rfl

/-- Past its first two questions the pass is its breaker and its loop. -/
theorem eval_autoApplyRelocations (answer : RemovalResult) (deps : ApplyDeletionDeps) (t cap : Nat)
    (hcounts : ∀ o a, o.reads = true → counts o a = false)
    (hauth : s.1.authority = true) {moves : List Ledger.ItemMove}
    (hmoves : s.1.ledger.listMoves (some deps.domain) = moves)
    (hopen : moves.filter isOpenRelocation ≠ []) (hall : moves.filter isOpenRelocation = moves) :
    (autoApplyRelocations deps true t cap).eval (steadyWorld counts answer) s =
      (massChecks deps >>= fun breaker => breaker.elim
        (askLedger (.placedItems deps.domain) >>= fun placed =>
          autoApplyLoop deps placed t cap moves { enabled := true, considered := moves.length })
        fun refusal => pure { enabled := true, considered := moves.length,
                              stoppedCode := some refusal.code }).eval
        (steadyWorld counts answer) s := by
  unfold autoApplyRelocations
  rw [if_neg (by decide), Prog.eval_bind_ok (eval_stillTheAuthority hcounts hauth)]
  dsimp only
  rw [if_neg (by decide), Prog.eval_bind_ok (eval_reads hcounts rfl (congrArg _ hmoves)),
    if_neg hopen, hall]
  refine congrArg (fun f => Prog.eval _ (massChecks deps >>= f) s) (funext fun breaker => ?_)
  cases breaker <;> rfl

/-- A pass that is run to its report, as a run. -/
theorem exists_run_report {report : AutoApplyRelocationsReport} {n : Nat}
    {p : Apply (World Unit × Nat) AutoApplyRelocationsReport}
    (hreport : (p.eval (steadyWorld counts answer) s).1 = .ok report)
    (hn : (p.eval (steadyWorld counts answer) s).2.2 = n) :
    ∃ h w, Prog.Run (fun _ _ => False) (Tallies counts (steadyTarget answer)) p s (.ret report) h
      (w, n) := by
  obtain ⟨h, hr⟩ := Prog.exists_run_eval (R := fun _ _ => False)
    (steadyWorld_tallies counts answer) p s
  rw [hreport] at hr
  refine ⟨h, (p.eval (steadyWorld counts answer) s).2.1, ?_⟩
  rw [← hn]
  exact hr

end Eval

theorem mayRemove_reads (o : ApplyOp) (a : o.Ans) (ho : o.reads = true) : mayRemove o a = false := by
  cases o <;> first | rfl | cases ho

theorem asksRemoval_reads (o : ApplyOp) (a : o.Ans) (ho : o.reads = true) :
    asksRemoval o a = false := by
  cases o <;> first | rfl | cases ho

theorem autoApplyRelocations_safe_renamed : ∃ h w,
    Prog.Run (fun _ _ => False) (Tallies mayRemove (steadyTarget { kind := some .deleted }))
      (autoApplyRelocations (renamedDeps true) true 2 1) (twoRenamed, 0)
      (.ret oneRemoved) h (w, 1) ∧
    1 ≤ 1 ∧ Accounted (renamedDeps true) true twoRenamed oneRemoved 1 := by
  have heval := eval_autoApplyRelocations { kind := some .deleted }
    (renamedDeps true) 2 1 mayRemove_reads (s := (twoRenamed, 0)) rfl listMoves_twoRenamed (by decide) (by decide)
  obtain ⟨h, w, hr⟩ := exists_run_report (n := 1)
    (show _ = Except.ok oneRemoved by rw [heval]; decide +kernel) (by rw [heval]; decide +kernel)
  have hsafe := autoApplyRelocations_safe hr
  exact ⟨h, w, hr, hsafe.1, hsafe.2.2 oneRemoved rfl⟩

/-- Two moves whose copies somebody edited: both removals are asked for, and
both refused. -/
def bothEdited : AutoApplyRelocationsReport where
  enabled := true
  considered := 2
  leftForReview := [("old", .refused editedOnTarget), ("other", .refused editedOnTarget)]

/-- A row pending deletion, one of a crowd. -/
def pendingRow (i : Nat) : ItemRow where
  domain := .file
  naturalKeyHash := String.ofList (List.replicate i 'x')
  collection := "docs"
  contentHash := some "c"
  status := .copied
  deletionReportedAt := some 1

/-- Nineteen rows pending deletion beside one renamed file. -/
def crowd : World Unit where
  ledger := ⟨renamedOld :: (List.range 19).map pendingRow, by decide +kernel⟩
  target := ()
  authority := true

theorem listMoves_crowd :
    crowd.ledger.listMoves (some .file) = [Ledger.itemMove renamedOld] := by
  have hfilter : (crowd.ledger.rows.filter fun r => r.movedToCollection.isSome &&
      (some DiscoveryDomain.file).all fun d => r.domain = d) = [renamedOld] := by
    decide +kernel
  rw [Ledger.listMoves, hfilter]
  exact List.mergeSort_singleton _

/-- What the pass makes of the crowd. -/
def stoppedByBreaker : AutoApplyRelocationsReport where
  enabled := true
  considered := 1
  stoppedCode := some .massDeletionSuspected

/-- More removals than the cap may be asked for, where the target refuses them;
and a pass the breaker stops neither applies nor leaves what it considered. -/
theorem asked_beyond_cap_and_unaccounted :
    (¬ ∀ (T : Target Unit) (deps : ApplyDeletionDeps) (w₀ w : World Unit) (t cap n : Nat)
        (p : Apply (World Unit × Nat) AutoApplyRelocationsReport)
        (h : List (ApplyEvent (World Unit × Nat))),
      Prog.Run (fun _ _ => False) (Tallies asksRemoval T) (autoApplyRelocations deps true t cap)
        (w₀, 0) p h (w, n) → n ≤ cap) ∧
    (¬ ∀ (T : Target Unit) (deps : ApplyDeletionDeps) (w₀ w : World Unit) (t cap n : Nat)
        (report : AutoApplyRelocationsReport) (h : List (ApplyEvent (World Unit × Nat))),
      Prog.Run (fun _ _ => False) (Tallies asksRemoval T) (autoApplyRelocations deps true t cap)
        (w₀, 0) (.ret report) h (w, n) →
      report.applied.length + report.leftForReview.length = report.considered) := by
  refine ⟨fun hall => ?_, fun hall => ?_⟩
  · have heval := eval_autoApplyRelocations { conflicted := true }
      (renamedDeps true) 2 1 asksRemoval_reads (s := (twoRenamed, 0)) rfl listMoves_twoRenamed (by decide) (by decide)
    obtain ⟨h, w, hr⟩ := exists_run_report (n := 2)
      (show _ = Except.ok bothEdited by rw [heval]; decide +kernel) (by rw [heval]; decide +kernel)
    exact absurd (hall _ _ _ _ _ _ _ _ _ hr) (by decide)
  · have heval := eval_autoApplyRelocations {}
      (renamedDeps true) 2 1 asksRemoval_reads (s := (crowd, 0)) rfl listMoves_crowd (by decide) (by decide)
    obtain ⟨h, w, hr⟩ := exists_run_report (n := 0)
      (show _ = Except.ok stoppedByBreaker by rw [heval]; decide +kernel)
      (by rw [heval]; decide +kernel)
    exact absurd (hall _ _ _ _ _ _ _ _ _ hr) (by decide)

end Ownpace
