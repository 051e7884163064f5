/-
Ownpace/Keys/NaturalKey.lean

The natural keys of the five domains: what each hash is taken of, and the text
that is stored beside it.

A hash is told apart by what it is of, so two keys are equal exactly where the
texts under them are.  The prefix of a domain keeps its keys from those of the
others; within a domain a key is to be shared by the items with one identity,
and by no others.  It is not where a UID goes on into what another event has as
its recurrence id (`Overlap`).  The text reproduces the key unless a Message-ID
stands in two pairs of brackets (`DoublyBracketed`).
-/
import Ownpace.Keys.Text

namespace Ownpace.Keys

/-! ### Message-IDs -/

/-- Trim, take off one pair of angle brackets, and trim again. -/
def normalizeMessageId (messageId : List Char) : List Char :=
  trim (stripBrackets (trim messageId))

/-- A Message-ID in brackets in brackets, on one line, with blanks in between. -/
def DoublyBracketed (messageId : List Char) : Prop :=
  ∃ w₁ w₂ inner w₃ w₄, Blank w₁ ∧ Blank w₂ ∧ Blank w₃ ∧ Blank w₄ ∧
    OneLine (w₂ ++ inBrackets inner ++ w₃) ∧
    messageId = w₁ ++ inBrackets (w₂ ++ inBrackets inner ++ w₃) ++ w₄

theorem trimmed_normalizeMessageId (messageId : List Char) :
    Trimmed (normalizeMessageId messageId) := trimmed_trim _

/-- Normalising changes a normalised Message-ID only where it is still bracketed. -/
theorem normalizeMessageId_eq_self_iff {s : List Char} (hs : Trimmed s) :
    normalizeMessageId s = s ↔ capturedBetweenBrackets s = none := by
  rw [normalizeMessageId, trim_of_trimmed hs, stripBrackets]
  cases hc : capturedBetweenBrackets s with
  | none => exact iff_of_true (trim_of_trimmed hs) rfl
  | some inner =>
      refine iff_of_false (fun heq => ?_) (Option.some_ne_none _)
      -- What is between the brackets is shorter than what is around it.
      have hshort := length_trim_le inner
      rw [Option.getD_some] at heq
      rw [heq, (captured_eq_some.mp hc).1, inBrackets, List.length_cons, List.length_append] at hshort
      omega

theorem captured_normalizeMessageId_iff (messageId : List Char) :
    (capturedBetweenBrackets (normalizeMessageId messageId)).isSome = true ↔
      DoublyBracketed messageId := by
  constructor
  · intro h
    obtain ⟨inner, hinner⟩ := Option.isSome_iff_exists.mp h
    obtain ⟨w₁, w₄, h₁, h₄, hs⟩ := exists_padding messageId
    cases hc : capturedBetweenBrackets (trim messageId) with
    | none =>
        rw [normalizeMessageId, stripBrackets, hc, Option.getD_none,
          trim_of_trimmed (trimmed_trim _), hc] at hinner
        cases hinner
    | some outer =>
        rw [normalizeMessageId, stripBrackets, hc, Option.getD_some] at hinner
        obtain ⟨w₂, w₃, h₂, h₃, houter⟩ := exists_padding outer
        obtain ⟨heq, hline⟩ := captured_eq_some.mp hc
        rw [(captured_eq_some.mp hinner).1] at houter
        refine ⟨w₁, w₂, inner, w₃, w₄, h₁, h₂, h₃, h₄, houter ▸ hline, ?_⟩
        rw [← houter, ← heq]
        exact hs
  · rintro ⟨w₁, w₂, inner, w₃, w₄, h₁, h₂, h₃, h₄, hline, rfl⟩
    have hinner : OneLine inner := by
      intro c hc
      apply hline c
      simp [inBrackets, hc]
    rw [normalizeMessageId, trim_padded h₁ h₄ (trimmed_inBrackets _), stripBrackets,
      captured_eq_some.mpr ⟨rfl, hline⟩, Option.getD_some,
      trim_padded h₂ h₃ (trimmed_inBrackets _), captured_eq_some.mpr ⟨rfl, hinner⟩]
    rfl

theorem normalizeMessageId_twice_iff (messageId : List Char) :
    normalizeMessageId (normalizeMessageId messageId) = normalizeMessageId messageId ↔
      ¬ DoublyBracketed messageId := by
  rw [normalizeMessageId_eq_self_iff (trimmed_normalizeMessageId _),
    ← captured_normalizeMessageId_iff, Option.not_isSome_iff_eq_none]

/-! ### The hashes -/

/-- A hash, told apart by the text it is of. -/
structure Sha256Hex where
  input : List Char
  deriving DecidableEq

def naturalKeyHash (messageId : List Char) : Sha256Hex :=
  ⟨['m', 'i', 'd', ':'] ++ normalizeMessageId messageId⟩

def calendarNaturalKeyHash (t : CaseTable) (uid : List Char) : Sha256Hex :=
  ⟨['c', 'a', 'l', ':'] ++ t.toLowerCase uid⟩

def taskNaturalKeyHash (t : CaseTable) (uid : List Char) : Sha256Hex :=
  ⟨['t', 'o', 'd', 'o', ':'] ++ t.toLowerCase uid⟩

def contactNaturalKeyHash (uid : List Char) : Sha256Hex := ⟨['c', 'a', 'r', 'd', ':'] ++ uid⟩

def fileNaturalKeyHash (path : List Char) : Sha256Hex := ⟨['f', 'i', 'l', 'e', ':'] ++ path⟩

structure MailItem where
  messageId : List Char

structure CalendarEvent where
  uid : List Char
  recurrenceId : Option (List Char) := none

structure Contact where
  uid : List Char

structure FileItem where
  path : List Char

def naturalKeyForItem (item : MailItem) : Sha256Hex := naturalKeyHash item.messageId

/-- The recurrence id, where there is one: an empty one is none. -/
def CalendarEvent.recurrence (event : CalendarEvent) : Option (List Char) :=
  event.recurrenceId.filter (· ≠ [])

def naturalKeyTextForCalendar (event : CalendarEvent) : List Char :=
  match event.recurrence with
  | some recurrenceId => event.uid ++ '|' :: recurrenceId
  | none => event.uid

def naturalKeyForCalendar (t : CaseTable) (event : CalendarEvent) : Sha256Hex :=
  calendarNaturalKeyHash t (naturalKeyTextForCalendar event)

def naturalKeyTextForTask (task : CalendarEvent) : List Char :=
  match task.recurrence with
  | some recurrenceId => task.uid ++ '|' :: recurrenceId
  | none => task.uid

def naturalKeyForTask (t : CaseTable) (task : CalendarEvent) : Sha256Hex :=
  taskNaturalKeyHash t (naturalKeyTextForTask task)

def naturalKeyForContact (contact : Contact) : Sha256Hex := contactNaturalKeyHash contact.uid

def naturalKeyForFile (file : FileItem) : Sha256Hex := fileNaturalKeyHash file.path

def naturalKeyTextForItem (item : MailItem) : List Char := normalizeMessageId item.messageId

def naturalKeyTextForContact (contact : Contact) : List Char := contact.uid

def naturalKeyTextForFile (file : FileItem) : List Char := file.path

/-! ### The items of a mapping -/

/-- An item of a mapping.  A message keyed by the id it was given before is a
message with that id, and a task carried with the calendar is a calendar item. -/
inductive Item where
  | mail (item : MailItem)
  | calendar (event : CalendarEvent)
  | task (todo : CalendarEvent)
  | contact (card : Contact)
  | file (entry : FileItem)

def Item.naturalKey (t : CaseTable) : Item → Sha256Hex
  | mail item => naturalKeyForItem item
  | calendar event => naturalKeyForCalendar t event
  | task todo => naturalKeyForTask t todo
  | contact card => naturalKeyForContact card
  | file entry => naturalKeyForFile entry

/-- The key of the text that is stored beside the key, by the domain's own hash. -/
def Item.keyOfText (t : CaseTable) : Item → Sha256Hex
  | mail item => naturalKeyHash (naturalKeyTextForItem item)
  | calendar event => calendarNaturalKeyHash t (naturalKeyTextForCalendar event)
  | task todo => taskNaturalKeyHash t (naturalKeyTextForTask todo)
  | contact card => contactNaturalKeyHash (naturalKeyTextForContact card)
  | file entry => fileNaturalKeyHash (naturalKeyTextForFile entry)

/-- What a domain tells its items apart by. -/
inductive Identity where
  | mail (messageId : List Char)
  | calendar (uid : List Char) (recurrenceId : Option (List Char))
  | task (uid : List Char) (recurrenceId : Option (List Char))
  | contact (uid : List Char)
  | file (path : List Char)
  deriving DecidableEq

def Item.identity (t : CaseTable) : Item → Identity
  | mail item => .mail (normalizeMessageId item.messageId)
  | calendar event => .calendar (t.toLowerCase event.uid) (event.recurrence.map t.toLowerCase)
  | task todo => .task (t.toLowerCase todo.uid) (todo.recurrence.map t.toLowerCase)
  | contact card => .contact card.uid
  | file entry => .file entry.path

/-! ### A UID and a recurrence id in one text -/

/-- What follows the UID in a key. -/
def afterUid : Option (List Char) → List Char
  | none => []
  | some recurrenceId => '|' :: recurrenceId

theorem afterUid_injective {r r' : Option (List Char)} (h : afterUid r = afterUid r') : r = r' := by
  cases r <;> cases r' <;> simp_all [afterUid]

/-- The UID of the first is the UID of the second, a `|`, and a piece with which
the second's recurrence id begins; what follows it there follows the UID of the
first. -/
def OverlapIn (uid : List Char) (r : Option (List Char)) (uid' : List Char)
    (r' : Option (List Char)) : Prop :=
  ∃ piece, uid = uid' ++ '|' :: piece ∧ r' = some (piece ++ afterUid r)

theorem OverlapIn.uid_ne {uid uid' : List Char} {r r' : Option (List Char)}
    (h : OverlapIn uid r uid' r') : uid ≠ uid' := by
  obtain ⟨piece, huid, _⟩ := h
  intro heq
  have hlen := congrArg List.length (heq ▸ huid)
  rw [List.length_append, List.length_cons] at hlen
  omega

theorem overlapIn_of_longer {uid' piece : List Char} {r r' : Option (List Char)}
    (hne : piece ≠ []) (h : afterUid r' = piece ++ afterUid r) :
    OverlapIn (uid' ++ piece) r uid' r' := by
  cases r' with
  | none =>
      have hnil := (List.append_eq_nil_iff.mp h.symm).1
      exact absurd hnil hne
  | some recurrenceId =>
      cases piece with
      | nil => exact absurd rfl hne
      | cons c piece =>
          rw [afterUid, List.cons_append] at h
          obtain ⟨hbar, hrest⟩ := List.cons.inj h
          exact ⟨piece, by rw [← hbar], by rw [hrest]⟩

/-- Two pairs make one text where they are equal, and where they overlap. -/
theorem append_afterUid_eq_iff {uid uid' : List Char} {r r' : Option (List Char)} :
    uid ++ afterUid r = uid' ++ afterUid r' ↔
      (uid = uid' ∧ r = r') ∨ OverlapIn uid r uid' r' ∨ OverlapIn uid' r' uid r := by
  constructor
  · intro h
    rcases List.append_eq_append_iff.mp h with ⟨piece, rfl, hrest⟩ | ⟨piece, rfl, hrest⟩
    · by_cases hnil : piece = []
      · subst hnil
        exact .inl ⟨(List.append_nil _).symm, afterUid_injective hrest⟩
      · exact .inr (.inr (overlapIn_of_longer hnil hrest))
    · by_cases hnil : piece = []
      · subst hnil
        exact .inl ⟨List.append_nil _, afterUid_injective hrest.symm⟩
      · exact .inr (.inl (overlapIn_of_longer hnil hrest))
  · rintro (⟨rfl, rfl⟩ | ⟨piece, rfl, rfl⟩ | ⟨piece, rfl, rfl⟩)
    · rfl
    · simp [afterUid]
    · simp [afterUid]

theorem toLowerCase_calendarText (t : CaseTable) (event : CalendarEvent) :
    t.toLowerCase (naturalKeyTextForCalendar event) =
      t.toLowerCase event.uid ++ afterUid (event.recurrence.map t.toLowerCase) := by
  unfold naturalKeyTextForCalendar
  cases event.recurrence with
  | none => exact (List.append_nil _).symm
  | some recurrenceId => exact t.toLowerCase_append_bar _ _

theorem naturalKeyTextForTask_eq (task : CalendarEvent) :
    naturalKeyTextForTask task = naturalKeyTextForCalendar task := rfl

/-! ### When the key is the identity -/

/-- Two events that share the text under their keys though they are two. -/
def CalendarEvent.Overlap (t : CaseTable) (a b : CalendarEvent) : Prop :=
  OverlapIn (t.toLowerCase a.uid) (a.recurrence.map t.toLowerCase)
    (t.toLowerCase b.uid) (b.recurrence.map t.toLowerCase)

/-- Overlapping items: events of one of the two domains that name their items
with two strings. -/
def Overlap (t : CaseTable) : Item → Item → Prop
  | .calendar a, .calendar b => a.Overlap t b
  | .task a, .task b => a.Overlap t b
  | _, _ => False

theorem overlap_identity_ne {t : CaseTable} {a b : Item} (h : Overlap t a b) :
    a.identity t ≠ b.identity t := by
  intro heq
  cases a <;> cases b <;> first | exact h.elim | skip
  case calendar.calendar a b => exact OverlapIn.uid_ne h (Identity.calendar.inj heq).1
  case task.task a b => exact OverlapIn.uid_ne h (Identity.task.inj heq).1

theorem calendarText_eq_iff (t : CaseTable) (a b : CalendarEvent) :
    t.toLowerCase (naturalKeyTextForCalendar a) = t.toLowerCase (naturalKeyTextForCalendar b) ↔
      (t.toLowerCase a.uid = t.toLowerCase b.uid ∧
        a.recurrence.map t.toLowerCase = b.recurrence.map t.toLowerCase) ∨
      a.Overlap t b ∨ b.Overlap t a := by
  rw [toLowerCase_calendarText, toLowerCase_calendarText]
  exact append_afterUid_eq_iff

/-- Two items share a key where they have one identity, and where they overlap. -/
theorem naturalKey_eq_iff (t : CaseTable) (a b : Item) :
    a.naturalKey t = b.naturalKey t ↔
      a.identity t = b.identity t ∨ Overlap t a b ∨ Overlap t b a := by
  cases a <;> cases b
  case mail.mail a b =>
    simp [Item.naturalKey, Item.identity, Overlap, naturalKeyForItem, naturalKeyHash]
  case calendar.calendar a b =>
    simp [Item.naturalKey, Item.identity, Overlap, naturalKeyForCalendar, calendarNaturalKeyHash,
      calendarText_eq_iff]
  case task.task a b =>
    simp [Item.naturalKey, Item.identity, Overlap, naturalKeyForTask, taskNaturalKeyHash,
      naturalKeyTextForTask_eq, calendarText_eq_iff]
  case contact.contact a b =>
    cases a; cases b
    simp [Item.naturalKey, Item.identity, Overlap, naturalKeyForContact, contactNaturalKeyHash]
  case file.file a b =>
    cases a; cases b
    simp [Item.naturalKey, Item.identity, Overlap, naturalKeyForFile, fileNaturalKeyHash]
  -- Two domains: their hashes are of texts with two prefixes.
  all_goals
    simp [Item.naturalKey, Item.identity, Overlap, naturalKeyForItem, naturalKeyHash,
      naturalKeyForCalendar, calendarNaturalKeyHash, naturalKeyForTask, taskNaturalKeyHash,
      naturalKeyForContact, contactNaturalKeyHash, naturalKeyForFile, fileNaturalKeyHash]

/-- A message with a Message-ID in two pairs of brackets. -/
def Item.DoublyBracketed : Item → Prop
  | mail item => Keys.DoublyBracketed item.messageId
  | _ => False

/-- The text beside a key reproduces it, but for a doubly bracketed Message-ID. -/
theorem keyOfText_eq_iff (t : CaseTable) (a : Item) :
    a.keyOfText t = a.naturalKey t ↔ ¬ a.DoublyBracketed := by
  cases a with
  | mail item =>
      show naturalKeyHash (normalizeMessageId item.messageId) = naturalKeyHash item.messageId ↔ _
      rw [naturalKeyHash, naturalKeyHash, Sha256Hex.mk.injEq, List.append_cancel_left_eq]
      exact normalizeMessageId_twice_iff item.messageId
  | calendar event => exact iff_of_true rfl not_false
  | task todo => exact iff_of_true rfl not_false
  | contact card => exact iff_of_true rfl not_false
  | file entry => exact iff_of_true rfl not_false

/-- **The key is the identity**, and the text reproduces the key, exactly where
no UID runs on into a recurrence id and no Message-ID is bracketed twice. -/
theorem naturalKey_identifies_iff (t : CaseTable) (a b : Item) :
    ((a.naturalKey t = b.naturalKey t ↔ a.identity t = b.identity t) ∧
      a.keyOfText t = a.naturalKey t ∧ b.keyOfText t = b.naturalKey t) ↔
    (¬ Overlap t a b ∧ ¬ Overlap t b a) ∧ ¬ a.DoublyBracketed ∧ ¬ b.DoublyBracketed := by
  rw [keyOfText_eq_iff, keyOfText_eq_iff, naturalKey_eq_iff]
  refine and_congr_left' ?_
  constructor
  · intro h
    exact ⟨fun hab => overlap_identity_ne hab (h.mp (.inr (.inl hab))),
      fun hba => overlap_identity_ne hba (h.mp (.inr (.inr hba))).symm⟩
  · rintro ⟨hab, hba⟩
    exact ⟨fun h => h.resolve_right (not_or.mpr ⟨hab, hba⟩), Or.inl⟩

/-- The event `a|b`, and the occurrence `b` of the event `a`; and a Message-ID
in two pairs of brackets. -/
theorem naturalKey_shared_and_not_reproduced :
    (∃ a b : Item, ∀ t : CaseTable,
      a.naturalKey t = b.naturalKey t ∧ a.identity t ≠ b.identity t) ∧
    ∃ item : Item, ∀ t : CaseTable, item.keyOfText t ≠ item.naturalKey t := by
  refine ⟨⟨.calendar ⟨['a', '|', 'b'], none⟩, .calendar ⟨['a'], some ['b']⟩, fun t => ?_⟩,
    .mail ⟨['<', '<', 'a', '>', '>']⟩, fun t => ?_⟩
  · refine ⟨rfl, fun heq => ?_⟩
    cases (Identity.calendar.inj heq).2
  · show naturalKeyHash _ ≠ naturalKeyHash _
    decide

end Ownpace.Keys
