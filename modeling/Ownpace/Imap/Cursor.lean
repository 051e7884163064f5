/-
Ownpace/Imap/Cursor.lean

Listing an IMAP folder since a cursor (`listSinceInternal` in `imapflow-source.ts`,
with the helpers of `imap-conventions.ts`).

A cursor is the text `UIDVALIDITY:UIDNEXT`.  One turn of the loop skips a message
below the cursor, or pushes it and moves the mark `maxUidNext`; what the whole loop
does splits into the two: `scan_items` says which messages it pushed, `scan_mark`
that the mark is folded from their UIDs alone.

The mark is moved by `uid > maxUidNext` to `uid + 1`, so a UID met exactly at the
mark leaves it where it is.  `nextMark_above_iff` says when that happens to the
highest of them.
-/
import Mathlib.Algebra.Ring.Parity
import Mathlib.Data.List.Nodup
import Ownpace.Keys.Text

namespace Ownpace.Imap

abbrev Text := List Char

/-! ### Numbers as text -/

/-- An integer in a template literal. -/
def decimal (n : Int) : Text :=
  if n < 0 then '-' :: Nat.toDigits 10 n.natAbs else Nat.toDigits 10 n.natAbs

/-- The number that the digits in front of a text make; `none` where there is none. -/
def leadingNat (s : Text) : Option Nat :=
  if s.takeWhile Char.isDigit = [] then none
  else some (Nat.ofDigitChars 10 (s.takeWhile Char.isDigit) 0)

/-- `parseInt(s, 10)`; `none` is `NaN`. -/
def parseInt (s : Text) : Option Int :=
  match s.dropWhile Keys.isWhiteSpace with
  | '-' :: digits => (leadingNat digits).map fun (n : Nat) => -(n : Int)
  | '+' :: digits => (leadingNat digits).map fun (n : Nat) => (n : Int)
  | digits => (leadingNat digits).map fun (n : Nat) => (n : Int)

theorem isDigit_of_mem_toDigits {n : Nat} {c : Char} (h : c ∈ Nat.toDigits 10 n) :
    c.isDigit = true := Nat.isDigit_of_mem_toDigits (by decide) (by decide) h

theorem leadingNat_toDigits (n : Nat) : leadingNat (Nat.toDigits 10 n) = some n := by
  have hall : (Nat.toDigits 10 n).takeWhile Char.isDigit = Nat.toDigits 10 n := by
    rw [List.takeWhile_eq_self_iff]
    intro c hc
    exact isDigit_of_mem_toDigits hc
  rw [leadingNat, hall, if_neg Nat.toDigits_ne_nil, Nat.ofDigitChars_ten_toDigits]

theorem parseInt_decimal (n : Int) : parseInt (decimal n) = some n := by
  rw [decimal]
  by_cases hn : n < 0
  · rw [if_pos hn]
    show (leadingNat (Nat.toDigits 10 n.natAbs)).map (fun (k : Nat) => -(k : Int)) = some n
    rw [leadingNat_toDigits, Option.map_some]
    congr 1
    omega
  · rw [if_neg hn]
    have hn' : ((n.natAbs : Nat) : Int) = n := by omega
    rcases hd : Nat.toDigits 10 n.natAbs with - | ⟨c, ds⟩
    · exact absurd hd Nat.toDigits_ne_nil
    · have hc : c.isDigit = true := isDigit_of_mem_toDigits (by rw [hd]; exact List.mem_cons_self)
      have hstart : (c :: ds).dropWhile Keys.isWhiteSpace = c :: ds := by
        rw [List.dropWhile_cons_of_neg]
        rw [Keys.isWhiteSpace_of_isDigit hc]
        decide
      have hminus : c ≠ '-' := by rintro rfl; revert hc; decide
      have hplus : c ≠ '+' := by rintro rfl; revert hc; decide
      have hread : leadingNat (c :: ds) = some n.natAbs := by rw [← hd]; exact leadingNat_toDigits _
      rw [parseInt, hstart]
      split
      · rename_i heq
        exact absurd (List.cons.inj heq).1 hminus
      · rename_i heq
        exact absurd (List.cons.inj heq).1 hplus
      · rw [hread, Option.map_some, hn']

theorem colon_not_mem_decimal (n : Int) : ':' ∉ decimal n := by
  have hdigits : ':' ∉ Nat.toDigits 10 n.natAbs := by
    intro h
    have := isDigit_of_mem_toDigits h
    revert this
    decide
  rw [decimal]
  by_cases hn : n < 0
  · rw [if_pos hn, List.mem_cons, not_or]
    exact ⟨by decide, hdigits⟩
  · rw [if_neg hn]
    exact hdigits

/-! ### The cursor -/

def encodeImapCursor (uidValidity : Nat) (uidNext : Int) : Text :=
  decimal uidValidity ++ ':' :: decimal uidNext

structure ImapCursor where
  uidValidity : Int
  uidNext : Int
  deriving DecidableEq

/-- `none` is the error of a text that is no cursor. -/
def decodeImapCursor (cursor : Text) : Option ImapCursor :=
  match cursor.splitOn ':' with
  | [validity, next] =>
    match parseInt validity, parseInt next with
    | some uidValidity, some uidNext => some ⟨uidValidity, uidNext⟩
    | _, _ => none
  | _ => none

theorem decode_encode (uidValidity : Nat) (uidNext : Int) :
    decodeImapCursor (encodeImapCursor uidValidity uidNext) = some ⟨uidValidity, uidNext⟩ := by
  have hsplit : (encodeImapCursor uidValidity uidNext).splitOn ':' =
      [decimal uidValidity, decimal uidNext] := by
    rw [encodeImapCursor, List.splitOn_append_cons_self_of_not_mem (colon_not_mem_decimal _),
      List.splitOn_eq_singleton (colon_not_mem_decimal _)]
  simp only [decodeImapCursor, hsplit, parseInt_decimal]

/-! ### A message of the listing -/

inductive MailKeyword : Type
  | seen | flagged | draft | answered
  deriving DecidableEq

/-- The keyword of one flag, in any case; the other flags have none. -/
def keywordOfFlag (flag : Text) : Option MailKeyword :=
  let lower := flag.map Char.toLower
  if lower = "\\seen".toList then some .seen
  else if lower = "\\flagged".toList then some .flagged
  else if lower = "\\draft".toList then some .draft
  else if lower = "\\answered".toList then some .answered
  else none

def mapImapFlagsToKeywords (flags : List Text) : List MailKeyword := flags.filterMap keywordOfFlag

/-- An ENVELOPE's message-id with its angle brackets; `none` where it carries nothing. -/
def messageIdFromEnvelopeValue (raw : Option Text) : Option Text :=
  match raw with
  | none => none
  | some raw =>
    if raw = [] then none
    else if raw.head? = some '<' ∧ raw.getLast? = some '>' then some raw
    else some ('<' :: raw ++ ['>'])

/-- What the server returns of one message. -/
structure Message where
  uid : Nat
  messageId : Option Text
  flags : List Text
  internalDate : Text
  size : Nat
  deriving DecidableEq

structure MailItem where
  messageId : Text
  folder : Text
  keywords : List MailKeyword
  receivedAt : Text
  size : Nat
  sourceRef : Text
  deriving DecidableEq

def Message.toItem (folder : Text) (msg : Message) : MailItem where
  messageId := (messageIdFromEnvelopeValue msg.messageId).getD []
  folder := folder
  keywords := mapImapFlagsToKeywords msg.flags
  receivedAt := msg.internalDate
  size := msg.size
  sourceRef := folder ++ ':' :: decimal msg.uid

/-- The UID is behind the last colon: a folder's path may hold colons of its own. -/
def uidFromSourceRef (sourceRef : Text) : Int :=
  let last := (sourceRef.splitOn ':').getLast?.getD []
  (parseInt (if last = [] then ['0'] else last)).getD 0

theorem decimal_ne_nil (n : Int) : decimal n ≠ [] := by
  rw [decimal]
  by_cases hn : n < 0
  · rw [if_pos hn]
    exact List.cons_ne_nil _ _
  · rw [if_neg hn]
    exact Nat.toDigits_ne_nil

/-- `fetch` asks for the very message that the listing was about. -/
theorem uidFromSourceRef_toItem (folder : Text) (msg : Message) :
    uidFromSourceRef (msg.toItem folder).sourceRef = msg.uid := by
  have hlast : ((folder ++ ':' :: decimal msg.uid).splitOn ':').getLast?.getD [] =
      decimal msg.uid := by
    rw [List.splitOn_append_cons_self, List.splitOn_eq_singleton (colon_not_mem_decimal _),
      List.getLast?_concat]
    rfl
  show (parseInt (if ((folder ++ ':' :: decimal msg.uid).splitOn ':').getLast?.getD [] = []
    then ['0'] else ((folder ++ ':' :: decimal msg.uid).splitOn ':').getLast?.getD [])).getD 0 = _
  rw [hlast, if_neg (decimal_ne_nil _), parseInt_decimal]
  rfl

/-! ### The listing -/

/-- What is known of the open mailbox; a `uidNext` that is absent or 0 is not known. -/
structure Box where
  uidValidity : Nat
  uidNext : Option Nat
  existing : Nat
  deriving DecidableEq

/-- `cursorUidNext`: where a cursor says to resume, if it is one of this UIDVALIDITY. -/
def resumesAt (uidValidity : Nat) (cursor : Option Text) : Option Int :=
  match cursor.bind decodeImapCursor with
  | some decoded => if decoded.uidValidity = uidValidity then some decoded.uidNext else none
  | none => none

theorem resumesAt_encode (uidValidity : Nat) (uidNext : Int) :
    resumesAt uidValidity (some (encodeImapCursor uidValidity uidNext)) = some uidNext := by
  show (match decodeImapCursor (encodeImapCursor uidValidity uidNext) with
    | some decoded => if decoded.uidValidity = uidValidity then some decoded.uidNext else none
    | none => none) = some uidNext
  rw [decode_encode]
  exact if_pos rfl

/-- `uidNext`, the first value of the mark. -/
def Box.start (box : Box) (cursor : Option Text) : Int :=
  match resumesAt box.uidValidity cursor with
  | some uidNext => uidNext
  | none => if box.uidNext.getD 0 = 0 then 1 else box.uidNext.getD 0

theorem Box.start_of_cursor {box : Box} {cursor : Option Text} {uidNext : Int}
    (h : resumesAt box.uidValidity cursor = some uidNext) : box.start cursor = uidNext := by
  rw [Box.start, h]

/-- A full scan starts at 1, or at the UIDNEXT it was told. -/
theorem Box.start_of_none {box : Box} {cursor : Option Text}
    (h : resumesAt box.uidValidity cursor = none) :
    box.start cursor = 1 ∨ ∃ n ∈ box.uidNext, box.start cursor = n := by
  have hstart : box.start cursor =
      if box.uidNext.getD 0 = 0 then (1 : Int) else (box.uidNext.getD 0 : Nat) := by
    rw [Box.start, h]
  rw [hstart]
  cases box.uidNext with
  | none => exact Or.inl rfl
  | some n =>
      by_cases hn : n = 0
      · exact Or.inl (if_pos hn)
      · exact Or.inr ⟨n, rfl, if_neg hn⟩

/-- Not below the cursor. -/
def fromCursor (cursorUidNext : Option Int) (msg : Message) : Bool :=
  match cursorUidNext with
  | some uidNext => decide (uidNext ≤ msg.uid)
  | none => true

/-- The variables of the loop. -/
structure Scan where
  items : List MailItem
  maxUidNext : Int
  unkeyable : Nat

/-- The mark after a UID. -/
def nextMark (maxUidNext uid : Int) : Int :=
  if maxUidNext < uid then uid + 1 else maxUidNext

def Scan.push (folder : Text) (s : Scan) (msg : Message) : Scan where
  items := s.items ++ [msg.toItem folder]
  maxUidNext := nextMark s.maxUidNext msg.uid
  unkeyable := if messageIdFromEnvelopeValue msg.messageId = none then s.unkeyable + 1 else s.unkeyable

/-- One turn of the loop. -/
def Scan.turn (folder : Text) (cursorUidNext : Option Int) (s : Scan) (msg : Message) : Scan :=
  if fromCursor cursorUidNext msg then s.push folder msg else s

structure Listing where
  items : List MailItem
  nextCursor : Text
  unkeyable : Option Nat
  deriving DecidableEq

/-- `fetched` is what `fetchListing` returns, in the order of the server. -/
def listSinceInternal (folder : Text) (cursor : Option Text) (box : Box) (fetched : List Message) :
    Listing :=
  let messages := if box.existing = 0 then [] else fetched
  let s := messages.foldl (Scan.turn folder (resumesAt box.uidValidity cursor)) ⟨[], box.start cursor, 0⟩
  { items := s.items
    nextCursor := encodeImapCursor box.uidValidity s.maxUidNext
    unkeyable := if 0 < s.unkeyable then some s.unkeyable else none }

/-- The messages a listing is about. -/
def Box.listed (box : Box) (cursor : Option Text) (fetched : List Message) : List Message :=
  (if box.existing = 0 then [] else fetched).filter (fromCursor (resumesAt box.uidValidity cursor))

def uidsOf (messages : List Message) : List Int := messages.map fun msg => (msg.uid : Int)

theorem scan_items (folder : Text) (cursorUidNext : Option Int) (messages : List Message) (s : Scan) :
    (messages.foldl (Scan.turn folder cursorUidNext) s).items =
      s.items ++ (messages.filter (fromCursor cursorUidNext)).map (Message.toItem folder) := by
  induction messages generalizing s with
  | nil => simp
  | cons msg messages ih =>
      rw [List.foldl_cons, ih]
      by_cases h : fromCursor cursorUidNext msg = true
      · simp [Scan.turn, h, Scan.push]
      · simp [Scan.turn, h]

theorem scan_mark (folder : Text) (cursorUidNext : Option Int) (messages : List Message) (s : Scan) :
    (messages.foldl (Scan.turn folder cursorUidNext) s).maxUidNext =
      (uidsOf (messages.filter (fromCursor cursorUidNext))).foldl nextMark s.maxUidNext := by
  induction messages generalizing s with
  | nil => rfl
  | cons msg messages ih =>
      rw [List.foldl_cons, ih]
      by_cases h : fromCursor cursorUidNext msg = true
      · simp [Scan.turn, h, Scan.push, uidsOf]
      · simp [Scan.turn, h]

theorem listSinceInternal_items (folder : Text) (cursor : Option Text) (box : Box)
    (fetched : List Message) :
    (listSinceInternal folder cursor box fetched).items =
      (box.listed cursor fetched).map (Message.toItem folder) := by
  rw [listSinceInternal, scan_items]
  rfl

theorem listSinceInternal_nextCursor (folder : Text) (cursor : Option Text) (box : Box)
    (fetched : List Message) :
    (listSinceInternal folder cursor box fetched).nextCursor =
      encodeImapCursor box.uidValidity
        ((uidsOf (box.listed cursor fetched)).foldl nextMark (box.start cursor)) := by
  rw [listSinceInternal, scan_mark]
  rfl

/-! ### The mark -/

section Mark

variable {start : Int} {uids : List Int}

theorem le_nextMark (mark uid : Int) : mark ≤ nextMark mark uid := by
  unfold nextMark
  split <;> omega

theorem uid_le_nextMark (mark uid : Int) : uid ≤ nextMark mark uid := by
  unfold nextMark
  split <;> omega

theorem start_le_mark (start : Int) (uids : List Int) : start ≤ uids.foldl nextMark start := by
  induction uids generalizing start with
  | nil => exact Int.le_refl start
  | cons uid uids ih => exact Int.le_trans (le_nextMark start uid) (ih _)

/-- No UID is above the mark. -/
theorem le_mark {uid : Int} (h : uid ∈ uids) : uid ≤ uids.foldl nextMark start := by
  induction uids generalizing start with
  | nil => cases h
  | cons u uids ih =>
      rw [List.foldl_cons]
      rcases List.mem_cons.mp h with rfl | h
      · exact Int.le_trans (uid_le_nextMark start uid) (start_le_mark _ _)
      · exact ih h

/-- What bounds the start and is above every UID bounds the mark. -/
theorem mark_le {bound : Int} (hstart : start ≤ bound) (h : ∀ uid ∈ uids, uid < bound) :
    uids.foldl nextMark start ≤ bound := by
  induction uids generalizing start with
  | nil => exact hstart
  | cons u uids ih =>
      apply ih
      · have hu := h u List.mem_cons_self
        unfold nextMark
        split <;> omega
      · intro uid huid
        exact h uid (List.mem_cons_of_mem _ huid)

/-- How many UIDs above `start` came one after the other up to `top`, each after the one below
it; `latest` has the last one first. -/
def inRow (start : Int) (latest : List Int) (top : Int) : Nat :=
  match latest with
  | [] => 0
  | uid :: before =>
    if uid = top then (if start < top then inRow start before (top - 1) + 1 else 0)
    else inRow start before top

theorem mem_of_inRow {latest : List Int} {top : Int} (h : inRow start latest top ≠ 0) :
    top ∈ latest := by
  induction latest with
  | nil => exact absurd rfl h
  | cons uid before ih =>
      by_cases huid : uid = top
      · rw [huid]
        exact List.mem_cons_self
      · rw [inRow, if_neg huid] at h
        exact List.mem_cons_of_mem _ (ih h)

theorem inRow_cons_of_ne {uid top : Int} (before : List Int) (h : uid ≠ top) :
    inRow start (uid :: before) top = inRow start before top := by
  rw [inRow, if_neg h]

theorem inRow_cons_self {uid : Int} (before : List Int) (h : start < uid) :
    inRow start (uid :: before) uid = inRow start before (uid - 1) + 1 := by
  rw [inRow, if_pos rfl, if_pos h]

/-- The mark is where it started, or was moved by a UID that closes an odd row; and each such
UID is below it. -/
theorem mark_of_rows {latest : List Int} (hnodup : latest.Nodup) :
    (∀ u ∈ latest, Odd (inRow start latest u) → u < latest.reverse.foldl nextMark start) ∧
      (latest.reverse.foldl nextMark start = start ∨
        ∃ u ∈ latest, latest.reverse.foldl nextMark start = u + 1 ∧
          Odd (inRow start latest u)) := by
  induction latest with
  | nil => exact ⟨fun u hu => absurd hu List.not_mem_nil, Or.inl rfl⟩
  | cons uid before ih =>
      obtain ⟨hfresh, hbefore⟩ := List.nodup_cons.mp hnodup
      obtain ⟨hrows, hmark⟩ := ih hbefore
      have hstart : start ≤ before.reverse.foldl nextMark start := start_le_mark _ _
      have hle : ∀ u ∈ before, u ≤ before.reverse.foldl nextMark start := fun u hu =>
        le_mark (List.mem_reverse.mpr hu)
      have hstep : (uid :: before).reverse.foldl nextMark start =
          nextMark (before.reverse.foldl nextMark start) uid := by
        rw [List.reverse_cons, List.foldl_append]
        rfl
      have hother : ∀ u ∈ before, inRow start (uid :: before) u = inRow start before u := by
        intro u hu
        apply inRow_cons_of_ne
        rintro rfl
        exact hfresh hu
      rw [hstep]
      generalize before.reverse.foldl nextMark start = mark at *
      by_cases hup : mark < uid
      · rw [show nextMark mark uid = uid + 1 from if_pos hup]
        refine ⟨?_, Or.inr ⟨uid, List.mem_cons_self, rfl, ?_⟩⟩
        · intro u hu _
          rcases List.mem_cons.mp hu with rfl | hu
          · omega
          · have := hle u hu
            omega
        · -- The UID one below, if it closed an odd row, would have moved the mark here already.
          rw [inRow_cons_self before (by omega)]
          apply Even.add_one
          rw [← Nat.not_odd_iff_even]
          intro hodd
          have hmem : uid - 1 ∈ before := mem_of_inRow (by rintro h; rw [h] at hodd; exact absurd hodd (by decide))
          have hbelow := hrows (uid - 1) hmem hodd
          omega
      · rw [show nextMark mark uid = mark from if_neg hup]
        refine ⟨?_, ?_⟩
        · intro u hu hodd
          rcases List.mem_cons.mp hu with rfl | hu
          · by_contra hat
            have hat : mark = u := by omega
            by_cases hlow : start < u
            · rw [inRow_cons_self before hlow] at hodd
              rcases hmark with hmark | ⟨v, hv, hmark, hoddv⟩
              · omega
              · have hv' : u - 1 = v := by omega
                rw [hv'] at hodd
                exact (Nat.not_odd_iff_even.mpr hoddv.add_one) hodd
            · rw [inRow, if_pos rfl, if_neg hlow] at hodd
              exact absurd hodd (by decide)
          · rw [hother u hu] at hodd
            exact hrows u hu hodd
        · rcases hmark with hmark | ⟨v, hv, hmark, hoddv⟩
          · exact Or.inl hmark
          · exact Or.inr ⟨v, List.mem_cons_of_mem _ hv, hmark, by rw [hother v hv]; exact hoddv⟩

/-- The mark is above every UID exactly when the highest of them was below the start, or closes
an odd row. -/
theorem mark_above_iff (hnodup : uids.Nodup) :
    (∀ u ∈ uids, u < uids.foldl nextMark start) ↔
      ∀ top ∈ uids, (∀ u ∈ uids, u ≤ top) → top < start ∨
        Odd (inRow start uids.reverse top) := by
  have hnodup := List.nodup_reverse.mpr hnodup
  obtain ⟨hrows, hmark⟩ : (∀ u ∈ uids.reverse, Odd (inRow start uids.reverse u) →
      u < uids.reverse.reverse.foldl nextMark start) ∧
      (uids.reverse.reverse.foldl nextMark start = start ∨ ∃ u ∈ uids.reverse,
        uids.reverse.reverse.foldl nextMark start = u + 1 ∧ Odd (inRow start uids.reverse u)) :=
    mark_of_rows hnodup
  rw [List.reverse_reverse] at hrows hmark
  constructor
  · intro habove top htop hhigh
    rcases hmark with hmark | ⟨v, hv, hmark, hodd⟩
    · have := habove top htop
      exact Or.inl (by omega)
    · -- The mark is one above a UID, and above the highest one.
      have htop' := habove top htop
      have hv' := hhigh v (List.mem_reverse.mp hv)
      have : v = top := by omega
      exact Or.inr (this ▸ hodd)
  · intro h u hu
    obtain ⟨top, htop, hhigh⟩ : ∃ top ∈ uids, ∀ u ∈ uids, u ≤ top := by
      have hne : uids ≠ [] := List.ne_nil_of_mem hu
      exact ⟨uids.max hne, List.max_mem hne, fun u hu => List.le_max_of_mem hu⟩
    have htop' : top < uids.foldl nextMark start := by
      rcases h top htop hhigh with hlow | hodd
      · exact Int.lt_of_lt_of_le hlow (start_le_mark _ _)
      · exact hrows top (List.mem_reverse.mpr htop) hodd
    have := hhigh u hu
    omega

end Mark

end Ownpace.Imap
