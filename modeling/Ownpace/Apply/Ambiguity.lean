/-
Ownpace/Apply/Ambiguity.lean

The ambiguity gates of a relocation, by hand and unattended.

Both gates count the rows of one list, `placedItems`, that hold the moved bytes.
The list keeps a row whose copy was removed, so its count is of the copies on
the target and of the removed ones alike (`sharersOf_placedItems`).  The gates
therefore refuse only what is ambiguous on the target exactly where no removed
row holds the same bytes, or a third copy does (`ambiguous_only_shared_iff`): a
file that was renamed twice is refused for its own first name.
-/
import Ownpace.Apply.Agreement
import Ownpace.Ledger.Runs

namespace Ownpace

open Await Store

/-! ### Who holds the bytes -/

/-- The bytes this row holds, `''` where none were recorded. -/
def bytesOf (r : ItemRow) : String := r.contentHash.getD ""

/-- A row of the domain with a copy on the target that holds these bytes. -/
def isCopyOf (d : DiscoveryDomain) (c : String) (r : ItemRow) : Bool :=
  r.domain = d && isOnTarget (some r.status) && bytesOf r = c

/-- A row of the domain that held these bytes, its copy removed. -/
def isRemovedOf (d : DiscoveryDomain) (c : String) (r : ItemRow) : Bool :=
  r.domain = d && r.status = .tombstoned && bytesOf r = c

def copiesOf (l : Ledger) (d : DiscoveryDomain) (c : String) : Nat :=
  l.rows.countP (isCopyOf d c)

def removedOf (l : Ledger) (d : DiscoveryDomain) (c : String) : Nat :=
  l.rows.countP (isRemovedOf d c)

/-! ### Rows that say where their item lies -/

/-- Does this call name the collection of the row it writes? -/
def namesCollection : LedgerOp → Prop
  | .recordIfAbsent record | .recordFailure record _ _ =>
    ∃ c, record.collection = some c ∧ c ≠ ""
  | .recordUpdate record => record.collection ≠ some ""
  | _ => True

theorem collection_of_reached {l : Ledger} (hl : Ledger.Reached (fun _ o => namesCollection o) l) :
    ∀ r ∈ l.rows, r.collection ≠ "" := by
  refine hl.rows (I := fun r => r.collection ≠ "") ?_ ?_
  · intro h l o r r' hmay hI hmem hc
    have hr := hI r hmem
    cases hc with
    | @update record =>
        show record.collection.getD r.collection ≠ ""
        have hmay : record.collection ≠ some "" := hmay
        cases hrc : record.collection with
        | none => exact hr
        | some c => exact fun heq => hmay (hrc.trans (congrArg some heq))
    | @bump record =>
        obtain ⟨c, hrc, hne⟩ := hmay
        show record.collection.getD r.collection ≠ ""
        rw [hrc]
        exact hne
    | @resolve _ action | @resolveGroup action => cases action <;> exact hr
    | _ => exact hr
  · intro h l o r hmay hi
    cases hi with
    | @recorded record =>
        obtain ⟨c, hrc, hne⟩ := hmay
        show record.collection.getD "" ≠ ""
        rw [hrc]
        exact hne
    | @failed record =>
        obtain ⟨c, hrc, hne⟩ := hmay
        show record.collection.getD "" ≠ ""
        rw [hrc]
        exact hne

/-! ### What the gates count -/

theorem isPlaced_iff {r : ItemRow} (hc : r.collection ≠ "") :
    Ledger.isPlaced r = (isOnTarget (some r.status) || r.status = .tombstoned) := by
  cases hs : r.status <;> simp [Ledger.isPlaced, isOnTarget, hs, hc]

/-- What is picked by one of two conditions that never both hold. -/
theorem countP_split {α : Type} {p q s : α → Bool} {xs : List α}
    (h : ∀ x ∈ xs, p x = (q x || s x) ∧ (q x && s x) = false) :
    xs.countP p = xs.countP q + xs.countP s := by
  induction xs with
  | nil => rfl
  | cons x xs ih =>
      obtain ⟨hor, hand⟩ := h x List.mem_cons_self
      have ih := ih fun y hy => h y (List.mem_cons_of_mem _ hy)
      rw [List.countP_cons, List.countP_cons, List.countP_cons, ih, hor]
      cases hq : q x <;> cases hs : s x <;> simp_all <;> omega

/-- A placed row with these bytes is a copy on the target, or a removed one. -/
theorem placed_split {r : ItemRow} (hc : r.collection ≠ "") (d : DiscoveryDomain) (c : String) :
    (r.domain = d && Ledger.isPlaced r && bytesOf r = c : Bool) =
        (isCopyOf d c r || isRemovedOf d c r) ∧ (isCopyOf d c r && isRemovedOf d c r) = false := by
  have hplaced := isPlaced_iff hc
  have hapart : (isOnTarget (some r.status) && r.status = .tombstoned) = false := by
    cases r.status <;> rfl
  rw [hplaced, isCopyOf, isRemovedOf]
  refine ⟨?_, ?_⟩
  · cases decide (r.domain = d) <;> cases decide (bytesOf r = c) <;> simp
  · cases decide (r.domain = d) <;> cases decide (bytesOf r = c) <;> simp [hapart]

/-- A placed row of the domain that holds, or held, these bytes. -/
def isSharer (d : DiscoveryDomain) (c : String) (r : ItemRow) : Bool :=
  r.domain = d && Ledger.isPlaced r && bytesOf r = c

theorem sharersOf_eq_countP (l : Ledger) (d : DiscoveryDomain) (c : String) :
    sharersOf (l.placedItems d) c = l.rows.countP (isSharer d c) := by
  rw [sharersOf, Ledger.placedItems, List.filter_map, List.length_map, List.filter_filter,
    ← List.countP_eq_length_filter]
  refine List.countP_congr fun r _ => ?_
  show (decide (bytesOf r = c) && (decide (r.domain = d) && Ledger.isPlaced r)) = true ↔ _
  rw [Bool.and_comm]
  rfl

/-- **What both gates count**: the copies on the target, and the removed ones. -/
theorem sharersOf_placedItems {l : Ledger} (hcol : ∀ r ∈ l.rows, r.collection ≠ "")
    (d : DiscoveryDomain) (c : String) :
    sharersOf (l.placedItems d) c = copiesOf l d c + removedOf l d c := by
  rw [sharersOf_eq_countP, copiesOf, removedOf]
  exact countP_split fun r hr => placed_split (hcol r hr) d c

/-! ### A pair -/

/-- `r` was relocated to `a`, and every question before the ambiguity gate is
answered: nobody has decided, and `a` holds the same bytes, written by us. -/
structure Relocation (l : Ledger) (d : DiscoveryDomain) (r a : ItemRow) : Prop where
  here : r ∈ l.rows
  there : a ∈ l.rows
  domains : r.domain = d ∧ a.domain = d
  moved : r.movedToNaturalKeyHash = some a.naturalKeyHash
  named : a.naturalKeyHash ≠ ""
  apart : a.naturalKeyHash ≠ r.naturalKeyHash
  unanswered : r.moveAcknowledgedAt = none
  byBytes : r.movedByIdentity = false
  ours : r.status.ours = true
  vouched : arrivalCheck (mapRowToRecord r) (mapRowToRecord a) = none

/-- What is let through of an arrival, for a pair made by bytes. -/
theorem bytes_of_arrivalCheck {r a : ItemRow} (hbytes : r.movedByIdentity = false)
    (hcheck : arrivalCheck (mapRowToRecord r) (mapRowToRecord a) = none) :
    a.status.ours = true ∧ bytesOf r ≠ "" ∧ bytesOf a = bytesOf r := by
  unfold arrivalCheck at hcheck
  split at hcheck
  · cases hcheck
  · next hst =>
      split at hcheck
      · cases hcheck
      · rw [if_neg (by simp [mapRowToRecord, hbytes])] at hcheck
        split at hcheck
        · cases hcheck
        · next hempty =>
            split at hcheck
            · cases hcheck
            · split at hcheck
              · cases hcheck
              · next hsame =>
                  push Not at hempty hsame
                  refine ⟨?_, hempty.1, hsame⟩
                  rw [ItemStatus.ours_iff]
                  by_contra hcon
                  push Not at hcon
                  exact hst ⟨by simpa [mapRowToRecord] using hcon.1,
                    by simpa [mapRowToRecord] using hcon.2⟩

theorem isOnTarget_of_ours {s : ItemStatus} (h : s.ours = true) : isOnTarget (some s) = true := by
  rcases ItemStatus.ours_iff.mp h with rfl | rfl <;> rfl

/-- Two members of a list that a condition picks are two of its count. -/
theorem two_le_countP {α : Type} {p : α → Bool} {xs : List α} {x y : α} (hx : x ∈ xs) (hy : y ∈ xs)
    (hpx : p x = true) (hpy : p y = true) (hne : x ≠ y) : 2 ≤ xs.countP p := by
  rw [List.countP_eq_length_filter]
  have hx' : x ∈ xs.filter p := List.mem_filter.mpr ⟨hx, hpx⟩
  have hy' : y ∈ xs.filter p := List.mem_filter.mpr ⟨hy, hpy⟩
  rcases hf : xs.filter p with _ | ⟨z, _ | ⟨w, rest⟩⟩
  · rw [hf] at hx'
    cases hx'
  · rw [hf] at hx' hy'
    exact absurd ((List.mem_singleton.mp hx').trans (List.mem_singleton.mp hy').symm) hne
  · simp

/-- The pair itself is two copies on the target. -/
theorem Relocation.two_le {l : Ledger} {d : DiscoveryDomain} {r a : ItemRow}
    (hp : Relocation l d r a) : 2 ≤ copiesOf l d (bytesOf r) := by
  obtain ⟨hours, -, hsame⟩ := bytes_of_arrivalCheck hp.byBytes hp.vouched
  refine two_le_countP hp.here hp.there ?_ ?_ fun heq => hp.apart (by rw [heq])
  · simp [isCopyOf, hp.domains.1, isOnTarget_of_ours hp.ours]
  · simp [isCopyOf, hp.domains.2, isOnTarget_of_ours hours, hsame]

/-! ### The two gates -/

section Gates

variable (b : Obliging) (deps : ApplyDeletionDeps) (l : Ledger) (r : ItemRow)

/-- The gate of the press, asked about this row, refuses. -/
def RefusesByHand : Prop :=
  ∃ refusal, (relocationCheck deps (mapRowToRecord r)).eval b.world l = (.ok (some refusal), l)

/-- The unattended apply leaves an open move of this row for its bytes. -/
def LeavesUnattended : Prop :=
  ∃ move passStartedAt sharers, move.naturalKeyHash = r.naturalKeyHash ∧
    ((autoApplyOne deps (l.placedItems deps.domain) passStartedAt move).eval b.world l).1 =
      .ok (.error (.hashNotUnique sharers))

variable {b deps l r} {a : ItemRow}

theorem find_of_mem {d : DiscoveryDomain} {r : ItemRow} (hr : r ∈ l.rows) (hd : r.domain = d) :
    l.find d r.naturalKeyHash = some (mapRowToRecord r) :=
  Ledger.find_eq_some.mpr ⟨r, Table.get_of_mem hr, hd, rfl⟩

theorem Relocation.moved_record (hp : Relocation l deps.domain r a) :
    (mapRowToRecord r).movedToNaturalKeyHash = some a.naturalKeyHash := by
  show r.movedToNaturalKeyHash.bind nonEmpty = some a.naturalKeyHash
  rw [hp.moved, Option.bind_some]
  exact nonEmpty_eq_some.mpr ⟨rfl, hp.named⟩

/-- For a pair, the ambiguity gate is all that is left of the relocation gate. -/
theorem Relocation.eval_check (hp : Relocation l deps.domain r a) :
    (relocationCheck deps (mapRowToRecord r)).eval b.world l =
      (.ok (sharersCheck (mapRowToRecord r) (l.placedItems deps.domain)), l) := by
  have hopen : ¬ (mapRowToRecord r).moveAcknowledgedAt.isSome = true := by
    show ¬ r.moveAcknowledgedAt.isSome = true
    rw [hp.unanswered]
    exact Bool.false_ne_true
  have hbytes : ¬ (mapRowToRecord r).movedByIdentity = true := by
    show ¬ r.movedByIdentity = true
    rw [hp.byBytes]
    exact Bool.false_ne_true
  have hown : ¬ a.naturalKeyHash = (mapRowToRecord r).naturalKeyHash := hp.apart
  unfold relocationCheck
  rw [if_neg hopen, hp.moved_record]
  dsimp only
  rw [if_neg hown, if_neg hp.named, Prog.eval_bind_ok (eval_find b l _ _),
    find_of_mem hp.there hp.domains.2]
  dsimp only
  rw [hp.vouched]
  dsimp only
  rw [if_neg hbytes, Prog.eval_bind_ok (eval_placedItems b l _)]
  rfl

theorem sharersCheck_ne_none {row : LedgerRecord} {placed : List Ledger.PlacedItem} :
    (∃ refusal, sharersCheck row placed = some refusal) ↔ 2 < sharersOf placed row.contentHash := by
  unfold sharersCheck
  dsimp only
  split
  · next h => exact iff_of_true ⟨_, rfl⟩ h
  · next h => exact iff_of_false (by rintro ⟨_, heq⟩; cases heq) h

theorem refusesByHand_iff (hp : Relocation l deps.domain r a) :
    RefusesByHand b deps l r ↔ 2 < sharersOf (l.placedItems deps.domain) (bytesOf r) := by
  rw [← show (mapRowToRecord r).contentHash = bytesOf r from rfl, ← sharersCheck_ne_none]
  constructor
  · rintro ⟨refusal, heval⟩
    rw [hp.eval_check, Prod.mk.injEq, Except.ok.injEq] at heval
    exact ⟨refusal, heval.1⟩
  · rintro ⟨refusal, heq⟩
    exact ⟨refusal, by rw [hp.eval_check, heq]⟩

/-- Once the pair's bytes are unique, what the unattended apply answers is the
outcome of the press, and never that they are not. -/
theorem eval_unique {placed : List Ledger.PlacedItem} {passStartedAt sharers : Nat}
    {move : Ledger.ItemMove} (row : LedgerRecord)
    (hfind : l.find deps.domain move.naturalKeyHash = some row) (hne : row.contentHash ≠ "")
    (htwo : sharersOf placed row.contentHash = 2) :
    ((autoApplyOne deps placed passStartedAt move).eval b.world l).1 ≠
      .ok (.error (.hashNotUnique sharers)) := by
  unfold autoApplyOne
  split
  · intro heq
    cases heq
  · rw [Prog.eval_bind_ok (eval_find b l _ _), hfind]
    dsimp only
    split
    · intro heq
      cases heq
    · rw [Option.map_some, Option.bind_some, nonEmpty_eq_some.mpr ⟨rfl, hne⟩, Option.elim_some,
        if_neg (by simp [htwo]), Prog.bind_eq, Prog.eval_bind]
      rcases (applyRelocation deps move.naturalKeyHash).eval b.world l with ⟨e | kind | refusal, l'⟩
      · intro heq
        cases heq
      · dsimp only
        rw [Prog.bind_eq, Prog.eval_bind, Prog.eval_attempt]
        intro heq
        cases heq
      · intro heq
        cases heq

theorem leavesUnattended_iff (hp : Relocation l deps.domain r a) :
    LeavesUnattended b deps l r ↔ sharersOf (l.placedItems deps.domain) (bytesOf r) ≠ 2 := by
  have hne := (bytes_of_arrivalCheck hp.byBytes hp.vouched).2.1
  constructor
  · rintro ⟨move, passStartedAt, sharers, hkey, heval⟩ htwo
    refine eval_unique (mapRowToRecord r) ?_ hne htwo heval
    rw [hkey]
    exact find_of_mem hp.here hp.domains.1
  · intro hsharers
    -- a move that was recorded before the pass started
    refine ⟨{ Ledger.itemMove r with recordedAt := some 0 }, 1,
      sharersOf (l.placedItems deps.domain) (bytesOf r), rfl, ?_⟩
    have hfind := find_of_mem hp.here hp.domains.1
    have hbytes : ¬ (mapRowToRecord r).movedByIdentity = true := by
      show ¬ r.movedByIdentity = true
      rw [hp.byBytes]
      exact Bool.false_ne_true
    have hsome : nonEmpty (mapRowToRecord r).contentHash = some (bytesOf r) :=
      nonEmpty_eq_some.mpr ⟨rfl, hne⟩
    unfold autoApplyOne
    rw [if_neg (by simp)]
    show (Prog.eval b.world (askLedger (.find deps.domain r.naturalKeyHash) >>= _) l).1 = _
    rw [Prog.eval_bind_ok (eval_find b l _ _), hfind, Option.any_some, if_neg hbytes]
    dsimp only
    rw [Option.map_some, Option.bind_some, hsome, Option.elim_some, if_pos hsharers]
    rfl

/-- **The gates refuse as ambiguous only what is**, after any run: exactly
where no removed row holds the pair's bytes, or a third copy on the target
does. -/
theorem ambiguous_only_shared_iff (hl : Ledger.Reached (fun _ o => namesCollection o) l)
    (hp : Relocation l deps.domain r a) :
    (RefusesByHand b deps l r ∨ LeavesUnattended b deps l r →
        2 < copiesOf l deps.domain (bytesOf r)) ↔
      removedOf l deps.domain (bytesOf r) = 0 ∨ 2 < copiesOf l deps.domain (bytesOf r) := by
  have htwo := hp.two_le
  have hcount := sharersOf_placedItems (collection_of_reached hl) deps.domain (bytesOf r)
  rw [refusesByHand_iff hp, leavesUnattended_iff hp, hcount]
  constructor
  · intro himp
    by_cases hremoved : removedOf l deps.domain (bytesOf r) = 0
    · exact .inl hremoved
    · exact .inr (himp (.inl (by omega)))
  · rintro (hremoved | hthird) hrefused
    · omega
    · exact hthird

end Gates

/-! ### A file that was renamed twice -/

/-- The first rename is applied; then the file is renamed again, and copied
under its third name. -/
def renamedTwice : List LedgerOp :=
  Ledger.relocating ++ [.recordIfAbsent (Ledger.fileRecord "newer" "t-newer"),
    .recordMove .file "new" "docs" (some "newer") .content]

def renamedTwiceLedger : Ledger := Ledger.runCalls Ledger.removalHost renamedTwice Table.empty

/-- The file's second name, and its third. -/
def secondName : ItemRow where
  domain := .file
  naturalKeyHash := "new"
  collection := "docs"
  contentHash := some "c"
  targetRef := some "t-new"
  sourceVersion := some "1"
  status := .copied
  movedToCollection := some "docs"
  movedToNaturalKeyHash := some "newer"
  movedRecordedAt := some 7

def thirdName : ItemRow where
  domain := .file
  naturalKeyHash := "newer"
  collection := "docs"
  contentHash := some "c"
  targetRef := some "t-newer"
  sourceVersion := some "1"
  status := .copied

theorem reached_renamedTwice :
    Ledger.Reached (fun _ o => namesCollection o) renamedTwiceLedger := by
  refine Ledger.reached_runCalls (p := namesCollection) (fun o ho => ?_) .refl
  simp only [renamedTwice, Ledger.relocating, List.cons_append, List.nil_append, List.mem_cons,
    List.not_mem_nil, or_false] at ho
  rcases ho with rfl | rfl | rfl | rfl | rfl | rfl <;>
    first | exact trivial | exact ⟨"docs", rfl, by decide⟩

theorem relocation_renamedTwice :
    Relocation renamedTwiceLedger (renamedDeps true).domain secondName thirdName where
  here := by decide
  there := by decide
  domains := ⟨rfl, rfl⟩
  moved := rfl
  named := by decide
  apart := by decide
  unanswered := rfl
  byBytes := rfl
  ours := rfl
  vouched := by decide

theorem ambiguous_only_shared_iff_renamed :
    (RefusesByHand renamedPress (renamedDeps true) renamedTwiceLedger secondName ∨
        LeavesUnattended renamedPress (renamedDeps true) renamedTwiceLedger secondName →
      2 < copiesOf renamedTwiceLedger .file "c") ↔
    removedOf renamedTwiceLedger .file "c" = 0 ∨ 2 < copiesOf renamedTwiceLedger .file "c" :=
  ambiguous_only_shared_iff reached_renamedTwice relocation_renamedTwice

/-- The first name's copy is gone, and its row still counts: by hand and
unattended, the second rename is refused. -/
theorem renamed_twice_refused :
    ¬ ∀ (b : Obliging) (deps : ApplyDeletionDeps) (l : Ledger) (r a : ItemRow),
      Ledger.Reached (fun _ o => namesCollection o) l → Relocation l deps.domain r a →
      RefusesByHand b deps l r ∨ LeavesUnattended b deps l r →
        2 < copiesOf l deps.domain (bytesOf r) := by
  intro hall
  have hrefused : RefusesByHand renamedPress (renamedDeps true) renamedTwiceLedger secondName := by
    rw [refusesByHand_iff relocation_renamedTwice]
    decide
  have hthree := hall renamedPress (renamedDeps true) renamedTwiceLedger secondName thirdName
    reached_renamedTwice relocation_renamedTwice (.inl hrefused)
  revert hthree
  decide

end Ownpace
