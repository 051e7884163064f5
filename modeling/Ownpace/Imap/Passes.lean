/-
Ownpace/Imap/Passes.lean

A run of listings of one IMAP folder while its UIDVALIDITY stays.

A pass opens the mailbox, which tells it `exists` and perhaps UIDNEXT, then fetches
it in whatever order the server likes; mail may arrive and go at any time, between
the two as well.  Its cursor may be stored before the next pass opens the mailbox,
or never.  `Inv` holds in every state reached: the stored cursor is at most the
server's own UIDNEXT, and every message of the mailbox that is below it was in a
listing whose cursor was stored.

A cursor can equal the highest UID its own listing returned; then the next pass
lists that message again, and only that one (`relisted`).
-/
import Ownpace.Imap.Cursor

namespace Ownpace.Imap

/-! ### The server -/

/-- A mailbox of one UIDVALIDITY: a UID below `uidNext` is never given to a new message. -/
structure Mailbox where
  messages : List Message
  uidNext : Nat
  pos : 0 < uidNext
  below : ∀ msg ∈ messages, msg.uid < uidNext
  distinct : (uidsOf messages).Nodup

def Mailbox.arrive (b : Mailbox) (msg : Message) (h : b.uidNext ≤ msg.uid) : Mailbox where
  messages := b.messages ++ [msg]
  uidNext := msg.uid + 1
  pos := Nat.succ_pos _
  below := by
    intro m hm
    rcases List.mem_append.mp hm with hm | hm
    · have := b.below m hm
      omega
    · rw [List.mem_singleton.mp hm]
      exact Nat.lt_succ_self _
  distinct := by
    show (List.map _ (b.messages ++ [msg])).Nodup
    rw [List.map_append, List.nodup_append]
    refine ⟨b.distinct, by simp, ?_⟩
    intro uid huid uid' huid' heq
    obtain ⟨m, hm, rfl⟩ := List.mem_map.mp huid
    rw [List.map_singleton, List.mem_singleton] at huid'
    have := b.below m hm
    omega

def Mailbox.expunge (b : Mailbox) (uid : Nat) : Mailbox where
  messages := b.messages.filter fun msg => msg.uid ≠ uid
  uidNext := b.uidNext
  pos := b.pos
  below := by
    intro m hm
    exact b.below m (List.mem_of_mem_filter hm)
  distinct := b.distinct.sublist (List.filter_sublist.map _)

/-! ### Passes -/

/-- A pass that has opened the mailbox; `uidNext` is the server's own at that moment, whatever
it said of it. -/
structure Opening where
  cursor : Option Text
  box : Box
  uidNext : Nat

/-- A pass that has listed the mailbox, with the mailbox as the fetch met it; `kept` when its
cursor was stored. -/
structure Pass where
  opening : Opening
  mailbox : Mailbox
  fetched : List Message
  kept : Bool

def Pass.listing (folder : Text) (p : Pass) : Listing :=
  listSinceInternal folder p.opening.cursor p.opening.box p.fetched

/-- The UIDs of its items, as `fetch` reads them, in the order of the listing. -/
def Pass.uids (folder : Text) (p : Pass) : List Int :=
  (p.listing folder).items.map fun item => uidFromSourceRef item.sourceRef

structure State where
  mailbox : Mailbox
  stored : Option Text
  opened : Option Opening
  passes : List Pass

/-- What the server, and the passes over the folder, can do. -/
inductive Step (uidValidity : Nat) (folder : Text) : State → State → Prop
  | arrive {s : State} (msg : Message) (h : s.mailbox.uidNext ≤ msg.uid) :
      Step uidValidity folder s { s with mailbox := s.mailbox.arrive msg h }
  | expunge {s : State} (uid : Nat) :
      Step uidValidity folder s { s with mailbox := s.mailbox.expunge uid }
  /-- The server need not say UIDNEXT, and `box` may hold an older one. -/
  | opens {s : State} (said : Option Nat) (hsaid : ∀ n ∈ said, n ≤ s.mailbox.uidNext)
      (h : s.opened = none) :
      Step uidValidity folder s { s with
        opened := some ⟨s.stored, ⟨uidValidity, said, s.mailbox.messages.length⟩,
          s.mailbox.uidNext⟩ }
  | lists {s : State} (o : Opening) (fetched : List Message) (h : s.opened = some o)
      (hfetched : fetched.Perm s.mailbox.messages) :
      Step uidValidity folder s { s with
        opened := none, passes := ⟨o, s.mailbox, fetched, false⟩ :: s.passes }
  | fails {s : State} (o : Opening) (h : s.opened = some o) :
      Step uidValidity folder s { s with opened := none }
  | keeps {s : State} (p : Pass) (older : List Pass) (h : s.passes = p :: older)
      (hopened : s.opened = none) :
      Step uidValidity folder s { s with
        stored := some (p.listing folder).nextCursor, passes := { p with kept := true } :: older }

/-- The states of a run.  At its start nothing is stored that is a cursor of this UIDVALIDITY. -/
inductive Reached (uidValidity : Nat) (folder : Text) : State → Prop
  | start (b : Mailbox) (stored : Option Text) (h : resumesAt uidValidity stored = none) :
      Reached uidValidity folder ⟨b, stored, none, []⟩
  | step {s s' : State} : Reached uidValidity folder s → Step uidValidity folder s s' →
      Reached uidValidity folder s'

/-! ### One listing -/

/-- The messages it listed. -/
def Pass.listed (p : Pass) : List Message := p.opening.box.listed p.opening.cursor p.fetched

/-- The UIDNEXT of its cursor. -/
def Pass.mark (p : Pass) : Int :=
  (uidsOf p.listed).foldl nextMark (p.opening.box.start p.opening.cursor)

theorem Pass.uids_eq (folder : Text) (p : Pass) : p.uids folder = uidsOf p.listed := by
  rw [Pass.uids, Pass.listing, listSinceInternal_items, List.map_map]
  apply List.map_congr_left
  intro msg _
  exact uidFromSourceRef_toItem folder msg

theorem Pass.nextCursor_eq (folder : Text) (p : Pass) :
    (p.listing folder).nextCursor = encodeImapCursor p.opening.box.uidValidity p.mark :=
  listSinceInternal_nextCursor _ _ _ _

/-- What is known of a pass from the moment it lists. -/
structure Pass.Met (uidValidity : Nat) (p : Pass) : Prop where
  validity : p.opening.box.uidValidity = uidValidity
  fetched : p.fetched.Perm p.mailbox.messages
  start_le : p.opening.box.start p.opening.cursor ≤ p.opening.uidNext
  opened_le : p.opening.uidNext ≤ p.mailbox.uidNext
  /-- What a pass over an empty mailbox does not fetch came after it had opened it. -/
  empty : p.opening.box.existing = 0 → ∀ msg ∈ p.mailbox.messages, p.opening.uidNext ≤ msg.uid

namespace Pass.Met

variable {uidValidity : Nat} {p : Pass}

theorem mem_of_listed (h : p.Met uidValidity) {msg : Message} (hmsg : msg ∈ p.listed) :
    msg ∈ p.mailbox.messages := by
  have hmem := List.mem_of_mem_filter hmsg
  by_cases hempty : p.opening.box.existing = 0
  · rw [if_pos hempty] at hmem
    cases hmem
  · rw [if_neg hempty] at hmem
    exact h.fetched.mem_iff.mp hmem

theorem nodup (h : p.Met uidValidity) : (uidsOf p.listed).Nodup := by
  apply List.Nodup.sublist (List.filter_sublist.map _)
  by_cases hempty : p.opening.box.existing = 0
  · rw [if_pos hempty]
    exact List.nodup_nil
  · rw [if_neg hempty]
    exact (h.fetched.map _).nodup_iff.mpr p.mailbox.distinct

theorem mark_le (h : p.Met uidValidity) : p.mark ≤ p.mailbox.uidNext := by
  have hstart := h.start_le
  have hopened := h.opened_le
  apply Imap.mark_le
  · omega
  · intro uid huid
    obtain ⟨msg, hmsg, rfl⟩ := List.mem_map.mp huid
    have := p.mailbox.below msg (h.mem_of_listed hmsg)
    omega

/-- A message the fetch met is listed, unless it is below the cursor or came after the opening. -/
theorem listed_or (h : p.Met uidValidity) {msg : Message} (hmsg : msg ∈ p.mailbox.messages) :
    msg ∈ p.listed ∨
      (∃ c, resumesAt uidValidity p.opening.cursor = some c ∧ (msg.uid : Int) < c) ∨
      (p.opening.uidNext ≤ msg.uid ∧ p.mark ≤ msg.uid) := by
  by_cases hempty : p.opening.box.existing = 0
  · -- Nothing is fetched, and the mark stays where it started.
    have hafter := h.empty hempty msg hmsg
    have hmark : p.mark = p.opening.box.start p.opening.cursor := by
      rw [Pass.mark, Pass.listed, Box.listed, if_pos hempty]
      rfl
    have hstart := h.start_le
    exact Or.inr (Or.inr ⟨hafter, by omega⟩)
  · by_cases hfrom : fromCursor (resumesAt p.opening.box.uidValidity p.opening.cursor) msg = true
    · left
      rw [Pass.listed, Box.listed, if_neg hempty]
      exact List.mem_filter.mpr ⟨h.fetched.mem_iff.mpr hmsg, hfrom⟩
    · right; left
      rw [h.validity] at hfrom
      cases hc : resumesAt uidValidity p.opening.cursor with
      | none =>
          rw [hc] at hfrom
          exact absurd rfl hfrom
      | some c =>
          rw [hc, fromCursor, decide_eq_true_eq] at hfrom
          exact ⟨c, rfl, by omega⟩

/-- A listing that resumes at a cursor lists nothing below it. -/
theorem from_cursor (h : p.Met uidValidity) {c : Int}
    (hc : resumesAt uidValidity p.opening.cursor = some c) :
    c ≤ p.mark ∧ ∀ uid ∈ uidsOf p.listed, c ≤ uid := by
  constructor
  · have hstart : p.opening.box.start p.opening.cursor = c := by
      rw [Box.start, h.validity, hc]
    rw [← hstart]
    exact start_le_mark _ _
  · intro uid huid
    obtain ⟨msg, hmsg, rfl⟩ := List.mem_map.mp huid
    have hfrom := (List.mem_filter.mp hmsg).2
    rw [h.validity, hc, fromCursor, decide_eq_true_eq] at hfrom
    exact hfrom

end Pass.Met

/-! ### The run -/

/-- A listing whose cursor was stored has had the UID. -/
def Had (passes : List Pass) (uid : Int) : Prop :=
  ∃ q ∈ passes, q.kept = true ∧ uid ∈ uidsOf q.listed

/-- The earlier pass's cursor was stored: the later one resumes at or above it. -/
def Resumed (uidValidity : Nat) (later earlier : Pass) : Prop :=
  earlier.kept = true → ∃ c, resumesAt uidValidity later.opening.cursor = some c ∧ earlier.mark ≤ c

/-- What a pass met below its own cursor, or before it opened the mailbox, it has listed, or an
earlier one whose cursor was stored. -/
def Covers (p : Pass) (older : List Pass) : Prop :=
  ∀ msg ∈ p.mailbox.messages, (msg.uid : Int) < p.mark ∨ msg.uid < p.opening.uidNext →
    msg ∈ p.listed ∨ Had older msg.uid

def Covered : List Pass → Prop
  | [] => True
  | p :: older => Covers p older ∧ Covered older

/-- The pass in the open mailbox. -/
structure Opening.Fits (uidValidity : Nat) (o : Opening) (s : State) : Prop where
  cursor : o.cursor = s.stored
  validity : o.box.uidValidity = uidValidity
  opened_le : o.uidNext ≤ s.mailbox.uidNext
  start_le : o.box.start o.cursor ≤ o.uidNext
  empty : o.box.existing = 0 → ∀ msg ∈ s.mailbox.messages, o.uidNext ≤ msg.uid

structure Inv (uidValidity : Nat) (s : State) : Prop where
  stored_le : ∀ c, resumesAt uidValidity s.stored = some c → c ≤ s.mailbox.uidNext
  had : ∀ c, resumesAt uidValidity s.stored = some c → ∀ msg ∈ s.mailbox.messages,
    (msg.uid : Int) < c → Had s.passes msg.uid
  kept_le : ∀ q ∈ s.passes, q.kept = true →
    ∃ c, resumesAt uidValidity s.stored = some c ∧ q.mark ≤ c
  opened : ∀ o, s.opened = some o → o.Fits uidValidity s
  met : ∀ p ∈ s.passes, p.Met uidValidity
  /-- The mailbox has grown since, and gives no message a UID it had before. -/
  grown : ∀ p ∈ s.passes, p.mailbox.uidNext ≤ s.mailbox.uidNext ∧
    ∀ msg ∈ s.mailbox.messages, msg.uid < p.mailbox.uidNext → msg ∈ p.mailbox.messages
  resumed : s.passes.Pairwise (Resumed uidValidity)
  covered : Covered s.passes

theorem Had.cons {passes : List Pass} {uid : Int} (h : Had passes uid) (p : Pass) :
    Had (p :: passes) uid := by
  obtain ⟨q, hq, hkept, huid⟩ := h
  exact ⟨q, List.mem_cons_of_mem _ hq, hkept, huid⟩

theorem mem_uidsOf {msg : Message} {messages : List Message} (h : msg ∈ messages) :
    (msg.uid : Int) ∈ uidsOf messages := List.mem_map.mpr ⟨msg, h, rfl⟩

section Steps

variable {uidValidity : Nat} {s : State}

theorem inv_arrive (hi : Inv uidValidity s) (msg : Message) (h : s.mailbox.uidNext ≤ msg.uid) :
    Inv uidValidity { s with mailbox := s.mailbox.arrive msg h } := by
  have hnew : ∀ m ∈ (s.mailbox.arrive msg h).messages, m ∈ s.mailbox.messages ∨ m = msg := by
    intro m hm
    rcases List.mem_append.mp hm with hm | hm
    · exact Or.inl hm
    · exact Or.inr (List.mem_singleton.mp hm)
  have hgrow : s.mailbox.uidNext ≤ (s.mailbox.arrive msg h).uidNext := by
    show s.mailbox.uidNext ≤ msg.uid + 1
    omega
  refine { hi with stored_le := ?_, had := ?_, opened := ?_, grown := ?_ }
  · intro c hc
    have := hi.stored_le c hc
    show c ≤ ((s.mailbox.arrive msg h).uidNext : Int)
    omega
  · intro c hc m hm hbelow
    rcases hnew m hm with hm | rfl
    · exact hi.had c hc m hm hbelow
    · have := hi.stored_le c hc
      omega
  · intro o ho
    have hfits := hi.opened o ho
    refine { hfits with opened_le := Nat.le_trans hfits.opened_le hgrow, empty := ?_ }
    intro hempty m hm
    rcases hnew m hm with hm | rfl
    · exact hfits.empty hempty m hm
    · exact Nat.le_trans hfits.opened_le h
  · intro p hp
    obtain ⟨hle, hold⟩ := hi.grown p hp
    refine ⟨Nat.le_trans hle hgrow, ?_⟩
    intro m hm hbelow
    rcases hnew m hm with hm | rfl
    · exact hold m hm hbelow
    · omega

theorem inv_expunge (hi : Inv uidValidity s) (uid : Nat) :
    Inv uidValidity { s with mailbox := s.mailbox.expunge uid } := by
  have hold : ∀ m ∈ (s.mailbox.expunge uid).messages, m ∈ s.mailbox.messages := by
    intro m hm
    exact List.mem_of_mem_filter hm
  refine { hi with had := ?_, opened := ?_, grown := ?_ }
  · intro c hc m hm hbelow
    exact hi.had c hc m (hold m hm) hbelow
  · intro o ho
    have hfits := hi.opened o ho
    exact { hfits with empty := fun hempty m hm => hfits.empty hempty m (hold m hm) }
  · intro p hp
    obtain ⟨hle, hsame⟩ := hi.grown p hp
    exact ⟨hle, fun m hm hbelow => hsame m (hold m hm) hbelow⟩

theorem inv_opens (hi : Inv uidValidity s) (said : Option Nat)
    (hsaid : ∀ n ∈ said, n ≤ s.mailbox.uidNext) :
    Inv uidValidity { s with
      opened := some ⟨s.stored, ⟨uidValidity, said, s.mailbox.messages.length⟩,
        s.mailbox.uidNext⟩ } := by
  refine { hi with opened := ?_ }
  intro o ho
  obtain rfl := Option.some.inj ho
  refine ⟨rfl, rfl, Nat.le_refl _, ?_, ?_⟩
  · let box : Box := ⟨uidValidity, said, s.mailbox.messages.length⟩
    show box.start s.stored ≤ s.mailbox.uidNext
    cases hc : resumesAt box.uidValidity s.stored with
    | some c =>
        rw [Box.start_of_cursor hc]
        exact hi.stored_le c hc
    | none =>
        rcases Box.start_of_none hc with hstart | ⟨n, hn, hstart⟩
        · rw [hstart]
          exact Int.ofNat_le.mpr s.mailbox.pos
        · rw [hstart]
          exact Int.ofNat_le.mpr (hsaid n hn)
  · intro hempty m hm
    have hnil := List.length_eq_zero_iff.mp hempty
    rw [hnil] at hm
    cases hm

theorem inv_lists (hi : Inv uidValidity s) (o : Opening) (fetched : List Message)
    (h : s.opened = some o) (hfetched : fetched.Perm s.mailbox.messages) :
    Inv uidValidity { s with
      opened := none, passes := ⟨o, s.mailbox, fetched, false⟩ :: s.passes } := by
  have hfits := hi.opened o h
  have hmet : Pass.Met uidValidity ⟨o, s.mailbox, fetched, false⟩ :=
    ⟨hfits.validity, hfetched, hfits.start_le, hfits.opened_le, hfits.empty⟩
  have hkept : ∀ q ∈ s.passes, q.kept = true →
      ∃ c, resumesAt uidValidity o.cursor = some c ∧ q.mark ≤ c := by
    rw [hfits.cursor]
    exact hi.kept_le
  refine ⟨hi.stored_le, ?_, ?_, (by intro o' ho'; cases ho'), ?_, ?_, ?_, ?_, hi.covered⟩
  · intro c hc m hm hbelow
    exact (hi.had c hc m hm hbelow).cons _
  · intro q hq hqkept
    rcases List.mem_cons.mp hq with rfl | hq
    · cases hqkept
    · exact hi.kept_le q hq hqkept
  · intro p hp
    rcases List.mem_cons.mp hp with rfl | hp
    · exact hmet
    · exact hi.met p hp
  · intro p hp
    rcases List.mem_cons.mp hp with rfl | hp
    · exact ⟨Nat.le_refl _, fun m hm _ => hm⟩
    · exact hi.grown p hp
  · exact List.pairwise_cons.mpr ⟨hkept, hi.resumed⟩
  · intro m hm hbelow
    rcases hmet.listed_or hm with hlisted | ⟨c, hc, hmc⟩ | ⟨hafter, hmark⟩
    · exact Or.inl hlisted
    · rw [hfits.cursor] at hc
      exact Or.inr (hi.had c hc m hm hmc)
    · exfalso
      rcases hbelow with hbelow | hbelow
      · omega
      · exact absurd hafter (Nat.not_le_of_lt hbelow)

theorem inv_fails (hi : Inv uidValidity s) : Inv uidValidity { s with opened := none } := by
  refine { hi with opened := ?_ }
  intro o ho
  cases ho

/-- The cursor of the newest listing takes the place of the one stored before. -/
theorem inv_keeps (folder : Text) (hi : Inv uidValidity s) (p : Pass) (older : List Pass)
    (h : s.passes = p :: older) (hopened : s.opened = none) :
    Inv uidValidity { s with
      stored := some (p.listing folder).nextCursor,
      passes := { p with kept := true } :: older } := by
  have hp : p ∈ s.passes := by rw [h]; exact List.mem_cons_self
  have hold : ∀ q ∈ older, q ∈ s.passes := by
    intro q hq
    rw [h]
    exact List.mem_cons_of_mem _ hq
  have hmet := hi.met p hp
  have hcursor : resumesAt uidValidity (some (p.listing folder).nextCursor) = some p.mark := by
    rw [p.nextCursor_eq, hmet.validity, resumesAt_encode]
  obtain ⟨hgrown, hsame⟩ := hi.grown p hp
  obtain ⟨hresumed, hresumed'⟩ := List.pairwise_cons.mp (h ▸ hi.resumed)
  obtain ⟨hcovers, hcovered⟩ : Covered (p :: older) := h ▸ hi.covered
  have hmark := hmet.mark_le
  refine ⟨?_, ?_, ?_, ?_, ?_, ?_, ?_, hcovers, hcovered⟩
  · intro c hc
    rw [hcursor] at hc
    obtain rfl := Option.some.inj hc
    show p.mark ≤ s.mailbox.uidNext
    omega
  · intro c hc m hm hbelow
    rw [hcursor] at hc
    obtain rfl := Option.some.inj hc
    have hm' : m ∈ p.mailbox.messages := by
      apply hsame m hm
      omega
    rcases hcovers m hm' (Or.inl hbelow) with hlisted | hhad
    · exact ⟨_, List.mem_cons_self, rfl, mem_uidsOf hlisted⟩
    · exact hhad.cons _
  · intro q hq hkept
    refine ⟨p.mark, hcursor, ?_⟩
    rcases List.mem_cons.mp hq with rfl | hq
    · exact Int.le_refl _
    · obtain ⟨c, hc, hle⟩ := hresumed q hq hkept
      exact Int.le_trans hle (hmet.from_cursor hc).1
  · intro o ho
    have : s.opened = some o := ho
    rw [hopened] at this
    cases this
  · intro q hq
    rcases List.mem_cons.mp hq with rfl | hq
    · exact ⟨hmet.validity, hmet.fetched, hmet.start_le, hmet.opened_le, hmet.empty⟩
    · exact hi.met q (hold q hq)
  · intro q hq
    rcases List.mem_cons.mp hq with rfl | hq
    · exact ⟨hgrown, hsame⟩
    · exact hi.grown q (hold q hq)
  · exact List.pairwise_cons.mpr ⟨hresumed, hresumed'⟩

theorem inv_step {folder : Text} {s' : State} (hi : Inv uidValidity s)
    (h : Step uidValidity folder s s') : Inv uidValidity s' := by
  cases h with
  | arrive msg h => exact inv_arrive hi msg h
  | expunge uid => exact inv_expunge hi uid
  | opens said hsaid h => exact inv_opens hi said hsaid
  | lists o fetched h hfetched => exact inv_lists hi o fetched h hfetched
  | fails o h => exact inv_fails hi
  | keeps p older h hopened => exact inv_keeps folder hi p older h hopened

theorem inv_reached {folder : Text} (h : Reached uidValidity folder s) : Inv uidValidity s := by
  induction h with
  | start b stored hstored =>
      have hnone : ∀ c, resumesAt uidValidity stored ≠ some c := by
        intro c hc
        rw [hstored] at hc
        cases hc
      refine ⟨?_, ?_, ?_, ?_, ?_, ?_, List.Pairwise.nil, trivial⟩
      · intro c hc
        exact absurd hc (hnone c)
      · intro c hc
        exact absurd hc (hnone c)
      · intro q hq
        cases hq
      · intro o ho
        cases ho
      · intro p hp
        cases hp
      · intro p hp
        cases hp
  | step _ hstep ih => exact inv_step ih hstep

end Steps

theorem covered_split {newer older : List Pass} {p : Pass} (h : Covered (newer ++ p :: older)) :
    Covers p older := by
  induction newer with
  | nil => exact h.1
  | cons q newer ih => exact ih h.2

/-- Without a cursor of this UIDVALIDITY the whole mailbox is listed. -/
theorem whole_mailbox (folder : Text) {cursor : Option Text} {box : Box} {fetched : List Message}
    (hempty : box.existing = 0 → fetched = [])
    (hcursor : ∀ decoded, cursor.bind decodeImapCursor = some decoded →
      decoded.uidValidity ≠ box.uidValidity) :
    (listSinceInternal folder cursor box fetched).items = fetched.map (Message.toItem folder) := by
  have hnone : resumesAt box.uidValidity cursor = none := by
    unfold resumesAt
    cases h : cursor.bind decodeImapCursor with
    | none => rfl
    | some decoded => exact if_neg (hcursor decoded h)
  have hall : (if box.existing = 0 then [] else fetched) = fetched := by
    by_cases h : box.existing = 0
    · rw [if_pos h, hempty h]
    · rw [if_neg h]
  have hfrom : fetched.filter (fromCursor none) = fetched :=
    List.filter_eq_self.mpr fun _ _ => rfl
  rw [listSinceInternal_items, Box.listed, hall, hnone, hfrom]

/-- No message is missed: a listing's cursor is at most every UID still to come, and what the
mailbox held from the opening of a pass to its listing was listed by it or before.  A message
whose cursor was stored is listed again only by a pass that resumes at that very UID. -/
theorem relisted_only_at_cursor {uidValidity : Nat} {folder : Text} {s : State}
    (h : Reached uidValidity folder s) :
    (∀ p ∈ s.passes, ∃ cursor : Int,
      (p.listing folder).nextCursor = encodeImapCursor uidValidity cursor ∧
      cursor ≤ p.mailbox.uidNext ∧ (∀ uid ∈ p.uids folder, uid ≤ cursor) ∧
      ((∀ uid ∈ p.uids folder, uid < cursor) ↔
        ∀ top ∈ p.uids folder, (∀ uid ∈ p.uids folder, uid ≤ top) →
          top < p.opening.box.start p.opening.cursor ∨
          Odd (inRow (p.opening.box.start p.opening.cursor) (p.uids folder).reverse top))) ∧
    (∀ newer p older, s.passes = newer ++ p :: older →
      (∀ msg ∈ p.mailbox.messages, msg.uid < p.opening.uidNext →
        (msg.uid : Int) ∈ p.uids folder ∨
          ∃ q ∈ older, q.kept = true ∧ (msg.uid : Int) ∈ q.uids folder) ∧
      (p.kept = true → ∀ q ∈ newer, ∀ uid ∈ p.uids folder, uid ∈ q.uids folder →
        resumesAt uidValidity q.opening.cursor = some uid)) ∧
    ∀ (cursor : Option Text) (box : Box) (fetched : List Message),
      (box.existing = 0 → fetched = []) →
      (∀ decoded, cursor.bind decodeImapCursor = some decoded →
        decoded.uidValidity ≠ box.uidValidity) →
      (listSinceInternal folder cursor box fetched).items = fetched.map (Message.toItem folder) := by
  have hi := inv_reached h
  refine ⟨?_, ?_, fun cursor box fetched => whole_mailbox folder⟩
  · intro p hp
    have hmet := hi.met p hp
    refine ⟨p.mark, ?_, hmet.mark_le, ?_, ?_⟩
    · rw [p.nextCursor_eq, hmet.validity]
    · rw [p.uids_eq]
      intro uid huid
      exact le_mark huid
    · rw [p.uids_eq]
      exact mark_above_iff hmet.nodup
  · intro newer p older hsplit
    constructor
    · intro msg hmsg hbefore
      rw [p.uids_eq]
      rcases covered_split (hsplit ▸ hi.covered) msg hmsg (Or.inr hbefore) with hlisted | hhad
      · exact Or.inl (mem_uidsOf hlisted)
      · obtain ⟨q, hq, hkept, huid⟩ := hhad
        exact Or.inr ⟨q, hq, hkept, by rw [q.uids_eq]; exact huid⟩
    · intro hkept q hq uid huid huid'
      rw [Pass.uids_eq] at huid huid'
      have hpair := (List.pairwise_append.mp (hsplit ▸ hi.resumed)).2.2 q hq p List.mem_cons_self
      obtain ⟨c, hc, hle⟩ := hpair hkept
      have hq' : q ∈ s.passes := by
        rw [hsplit]
        exact List.mem_append_left _ hq
      -- At most the mark of the one, and at least the cursor of the other.
      have hhigh : uid ≤ p.mark := le_mark huid
      have hlow := ((hi.met q hq').from_cursor hc).2 uid huid'
      rw [hc, show c = uid by omega]

/-! ### A message exactly at the cursor -/

def inbox : Text := "INBOX".toList

def noMail : Mailbox where
  messages := []
  uidNext := 9
  pos := by decide
  below := by intro msg h; cases h
  distinct := List.nodup_nil

def ninth : Message where
  uid := 9
  messageId := some "<b@dev.local>".toList
  flags := []
  internalDate := "2026-08-06T10:00:00.000Z".toList
  size := 1

def oneMail : Mailbox := noMail.arrive ninth (by decide)

def overNoMail : Pass := ⟨⟨none, ⟨42, some 9, 0⟩, 9⟩, noMail, [], true⟩

def atTheCursor : Pass :=
  ⟨⟨some "42:9".toList, ⟨42, some 10, 1⟩, 10⟩, oneMail, [ninth], true⟩

def again : Pass := { atTheCursor with kept := false }

/-- The mailbox is listed empty, a message arrives, and it is listed twice. -/
def listedTwice : State := ⟨oneMail, some "42:9".toList, none, [again, atTheCursor, overNoMail]⟩

theorem listedTwice_reached : Reached 42 inbox listedTwice := by
  have hkeeps : ∀ {s : State} (p : Pass) (older : List Pass), s.passes = p :: older →
      s.opened = none → (p.listing inbox).nextCursor = "42:9".toList → Step 42 inbox s
        { s with stored := some "42:9".toList, passes := { p with kept := true } :: older } := by
    intro s p older hp hopened hcursor
    rw [← hcursor]
    exact Step.keeps p older hp hopened
  have h₀ : Reached 42 inbox ⟨noMail, none, none, []⟩ := .start noMail none rfl
  have h₁ := h₀.step (.opens (some 9) (by decide) rfl)
  have h₂ := h₁.step (.lists ⟨none, ⟨42, some 9, 0⟩, 9⟩ [] rfl (List.Perm.refl _))
  have h₃ := h₂.step (hkeeps _ [] rfl rfl (by decide +kernel))
  have h₄ := h₃.step (.arrive ninth (by decide))
  have h₅ := h₄.step (.opens (some 10) (by decide) rfl)
  have h₆ := h₅.step (.lists _ [ninth] rfl (List.Perm.refl _))
  have h₇ := h₆.step (hkeeps _ [overNoMail] rfl rfl (by decide +kernel))
  have h₈ := h₇.step (.opens (some 10) (by decide) rfl)
  exact h₈.step (.lists _ [ninth] rfl (List.Perm.refl _))

/-- Its cursor was stored and nothing has changed in the mailbox, and it is listed again. -/
theorem unchanged_mailbox_listed_again :
    ∃ s, Reached 42 inbox s ∧ ∃ p q older, s.passes = q :: p :: older ∧ p.kept = true ∧
      q.opening.cursor = some (p.listing inbox).nextCursor ∧
      q.mailbox.messages = p.mailbox.messages ∧ (p.listing inbox).nextCursor = "42:9".toList ∧
      p.uids inbox = [9] ∧ q.uids inbox = [9] := by
  refine ⟨listedTwice, listedTwice_reached, atTheCursor, again, [overNoMail], rfl, rfl, ?_⟩
  decide +kernel

/-- The message that was listed twice is the one at the cursor. -/
theorem relisted_ninth :
    (9 : Int) ∈ atTheCursor.uids inbox ∧ (9 : Int) ∈ again.uids inbox ∧
      resumesAt 42 again.opening.cursor = some 9 := by
  have hfirst : (9 : Int) ∈ atTheCursor.uids inbox := by decide +kernel
  have hsecond : (9 : Int) ∈ again.uids inbox := by decide +kernel
  obtain ⟨_, hrun, _⟩ := relisted_only_at_cursor listedTwice_reached
  exact ⟨hfirst, hsecond,
    (hrun [again] atTheCursor [overNoMail] rfl).2 rfl again List.mem_cons_self 9 hfirst hsecond⟩

end Ownpace.Imap
