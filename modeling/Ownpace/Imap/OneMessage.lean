/-
Ownpace/Imap/OneMessage.lean

A removal touches one message: over every run of `removeItem`, whatever the server answers
and whatever others do to its mailboxes between two calls.

The walk of the program says what was read before a command is sent (`MayDo`).  `Kept`
carries it to the server: the connection that sends is the one the UIDVALIDITY was read
over, or it is dead, and the mailbox it has open is the one it was read of.

A bare EXPUNGE is left to one place, `messageMove` on a server with neither MOVE nor
UIDPLUS, and there it is sent (`flagged_by_another_lost`).
-/
import Ownpace.Imap.Removal

namespace Ownpace.ImapDav

open Await

/-- The message a removal is for. -/
structure Handle where
  mailbox : String
  uidValidity : String
  uid : Nat

section

variable (lib : ImapFlow) (number : String → Option Int) (targetId : String) (options : RemoveOptions)

/-- The handle that was recorded. -/
structure Handle.Recorded (x : Handle) : Prop where
  mailbox : options.collection = some x.mailbox
  uidValidity : options.expectedTargetVersion = some x.uidValidity
  uid : number targetId = some (x.uid : Int)

/-! ### What was read before -/

/-- The bin that LIST names. -/
def binOf (listed : List ListedBox) : Option String :=
  (((listed.filter fun box => isSelectableFolder box.flags).map fun box =>
    (⟨box.path, mapImapSpecialUse box.flags⟩ : MailFolder)).find? fun f => f.specialUse = .trash).map
      (·.path)

/-- LIST names a bin beside the mailbox. -/
def OtherBin (mailbox : String) (listed : List ListedBox) : Prop :=
  ∃ bin, binOf listed = some bin ∧ bin ≠ mailbox

/-- The first connection, and the UIDVALIDITY read since. -/
structure Checked (x : Handle) (h : List ImapEvent) (client : Nat) : Prop where
  first : h.head? = some (.call .live (.ok client))
  validity : ∃ client' v, .call .live (.ok client') ∈ h ∧
    .call (.getMailboxLock client' x.mailbox) (.ok (some v)) ∈ h ∧ toString v = x.uidValidity

/-- A bare EXPUNGE may come of it. -/
def Unscoped (x : Handle) (h : List ImapEvent) (client : Nat) : Prop :=
  ((lib.capabilities client).move || (lib.capabilities client).uidplus) = false ∧
    ∃ client' listed, .call (.list client') (.ok listed) ∈ h ∧ OtherBin x.mailbox listed

def MayDo (h : List ImapEvent) : ImapEvent → Prop
  | .call (.getMailboxLock client mailbox) _ =>
    options.collection = some mailbox ∧ .call .live (.ok client) ∈ h
  | .call (.send client command) _ => ∃ x : Handle, x.Recorded number targetId options ∧
    Checked x h client ∧ (command.Names x.uid ∨ command = .bareExpunge ∧ Unscoped lib x h client)
  | .call .. => True
  | .sync .. => False

/-- Nothing was sent. -/
def Unsent (h : List ImapEvent) : Prop := ∀ client command a, .call (.send client command) a ∉ h

/-- The last thing done was to look for the UID in the mailbox, and it was not there. -/
def ReadAsGone (x : Handle) (h : List ImapEvent) : Prop :=
  ∃ before client v found, h = before ++ [.call .live (.ok client),
    .call (.getMailboxLock client x.mailbox) (.ok v),
    .call (.search client x.uid) (.ok (some found))] ∧ x.uid ∉ found

/-- What an answer says of the calls before it. -/
def Answers (result : RemovalResult) (h : List ImapEvent) : Prop :=
  if result.kind.isSome then ∃ x : Handle, x.Recorded number targetId options ∧ ReadAsGone x h
  else Unsent h

/-- Where a value is returned, and nothing is asked of an error. -/
def Returns {α : Type} (P : α → List ImapEvent → Prop) (h : List ImapEvent) :
    Except RemovalError α → Prop
  | .ok a => P a h
  | .error _ => True

end

variable {lib : ImapFlow} {number : String → Option Int} {targetId : String} {options : RemoveOptions}
variable {x : Handle} {h h' : List ImapEvent} {client : Nat} {mailbox : String} {uid : Nat}

/-! ### The walk -/

theorem Checked.mono (hc : Checked x h client) (hpre : h <+: h') : Checked x h' client := by
  obtain ⟨t, rfl⟩ := hpre
  obtain ⟨client', v, hlive, hlock, hv⟩ := hc.validity
  refine ⟨?_, client', v, List.mem_append_left _ hlive, List.mem_append_left _ hlock, hv⟩
  rw [List.head?_append, hc.first]
  rfl

theorem Unscoped.mono (hu : Unscoped lib x h client) (hpre : h <+: h') :
    Unscoped lib x h' client := by
  obtain ⟨hcaps, client', listed, hlist, hbin⟩ := hu
  exact ⟨hcaps, client', listed, hpre.subset hlist, hbin⟩

theorem always_ask_bind {α : Type} {o : ImapOp} {k : o.Reply → Removing α}
    {D : List ImapEvent → Except RemovalError α → Prop} :
    (ask o >>= k).Always (MayDo lib number targetId options) D h ↔
      (∀ a, MayDo lib number targetId options h (.call o (.ok a)) ∧
        (k a).Always (MayDo lib number targetId options) D (h ++ [.call o (.ok a)])) ∧
      ∀ e, MayDo lib number targetId options h (.call o (.error e)) ∧
        D (h ++ [.call o (.error e)]) (.error (.rejected e)) :=
  Prog.always_awaitWith_bind

theorem always_live_bind {α : Type} {k : Nat → Removing α} {P : α → List ImapEvent → Prop}
    (hk : ∀ client, (k client).Always (MayDo lib number targetId options) (Returns P)
      (h ++ [.call .live (.ok client)])) :
    (ask .live >>= k).Always (MayDo lib number targetId options) (Returns P) h :=
  always_ask_bind.mpr ⟨fun client => ⟨trivial, hk client⟩, fun _ => ⟨trivial, trivial⟩⟩

/-- A lock on the mailbox, by a connection that `live` gave. -/
theorem always_lock_bind {α : Type} {k : Option Nat → Removing α} {P : α → List ImapEvent → Prop}
    (hmailbox : options.collection = some mailbox) (hlive : .call .live (.ok client) ∈ h)
    (hk : ∀ v, (k v).Always (MayDo lib number targetId options) (Returns P)
      (h ++ [.call (.getMailboxLock client mailbox) (.ok v)])) :
    (ask (.getMailboxLock client mailbox) >>= k).Always (MayDo lib number targetId options)
      (Returns P) h :=
  always_ask_bind.mpr ⟨fun v => ⟨⟨hmailbox, hlive⟩, hk v⟩, fun _ => ⟨⟨hmailbox, hlive⟩, trivial⟩⟩

/-- The UIDVALIDITY, read over a connection. -/
theorem always_uidValidityOf (hmailbox : options.collection = some mailbox) :
    (uidValidityOf mailbox).Always (MayDo lib number targetId options) (Returns fun text h' =>
      ∃ client v, h' = h ++ [.call .live (.ok client),
        .call (.getMailboxLock client mailbox) (.ok (some v))] ∧ text = toString v) h := by
  refine always_live_bind fun client => ?_
  refine always_lock_bind hmailbox (List.mem_concat_self) fun v => ?_
  cases v with
  | none => exact trivial
  | some v =>
      show ∃ _, _
      exact ⟨client, v, by simp, rfl⟩

/-- A UID looked for in the mailbox. -/
theorem always_uidExists (hmailbox : options.collection = some mailbox) :
    (uidExists mailbox uid).Always (MayDo lib number targetId options) (Returns fun present h' =>
      ∃ client v found, h' = h ++ [.call .live (.ok client),
        .call (.getMailboxLock client mailbox) (.ok v), .call (.search client uid) (.ok (some found))] ∧
          present = found.contains uid) h := by
  refine always_live_bind fun client => ?_
  refine always_lock_bind hmailbox (List.mem_concat_self) fun v => ?_
  refine always_ask_bind.mpr ⟨fun found => ⟨trivial, ?_⟩, fun e => ⟨trivial, trivial⟩⟩
  cases found with
  | none => exact trivial
  | some found =>
      show ∃ _, _
      exact ⟨client, v, found, by simp, rfl⟩

theorem always_listMailboxes :
    listMailboxes.Always (MayDo lib number targetId options) (Returns fun folders h' =>
      ∃ client listed, h' = h ++ [.call .live (.ok client), .call (.list client) (.ok listed)] ∧
        folders = (listed.filter fun box => isSelectableFolder box.flags).map fun box =>
          ⟨box.path, mapImapSpecialUse box.flags⟩) h := by
  refine always_live_bind fun client => ?_
  refine always_ask_bind.mpr ⟨fun listed => ⟨trivial, ?_⟩, fun e => ⟨trivial, trivial⟩⟩
  show ∃ _, _
  exact ⟨client, listed, by simp, rfl⟩

theorem always_findBin :
    findBin.Always (MayDo lib number targetId options) (Returns fun bin h' =>
      ∃ client listed, h' = h ++ [.call .live (.ok client), .call (.list client) (.ok listed)] ∧
        bin = binOf listed) h := by
  refine always_listMailboxes.andThen (fun h' folders _ hlisted => ?_) fun _ _ _ _ => trivial
  obtain ⟨client, listed, rfl, rfl⟩ := hlisted
  exact ⟨client, listed, rfl, rfl⟩

theorem answers_of_unsent {result : RemovalResult} (hkind : result.kind = none) (hh : Unsent h) :
    Answers number targetId options result h := by
  rw [Answers, hkind]
  exact hh

/-- What the library sends, after the checks. -/
theorem always_act {act : Removing Bool} {able : Bool}
    (hact : act.Always (fun _ => MaySend client x.uid able) (fun _ _ => True) [])
    (hx : x.Recorded number targetId options) (hc : Checked x h client)
    (hable : able = false → Unscoped lib x h client) :
    act.Always (MayDo lib number targetId options) (fun _ _ => True) h := by
  have hsends (t : List ImapEvent) (e : ImapEvent) (he : MaySend client x.uid able e) :
      MayDo lib number targetId options (h ++ t) e := by
    cases e with
    | sync => exact he
    | call o a =>
        cases o with
        | send client' command =>
            obtain ⟨rfl, hnames⟩ := he
            have hpre : h <+: h ++ t := List.prefix_append _ _
            refine ⟨x, hx, hc.mono hpre, hnames.imp_right fun hbare => ?_⟩
            exact ⟨hbare.1, (hable hbare.2).mono hpre⟩
        | live | list | getMailboxLock | search => exact he.elim
  rw [← List.append_nil h]
  exact hact.after hsends fun _ _ _ => trivial

theorem always_verifyGone (hmailbox : options.collection = some x.mailbox) :
    (verifyGone x.mailbox x.uid).Always (MayDo lib number targetId options)
      (Returns fun _ h' => ReadAsGone x h') h := by
  refine (always_uidExists hmailbox).andThen (fun h' present _ hread => ?_) fun _ _ _ _ => trivial
  obtain ⟨client, v, found, rfl, rfl⟩ := hread
  cases hfound : found.contains x.uid with
  | true => exact trivial
  | false =>
      refine ⟨h, client, v, found, rfl, fun hmem => ?_⟩
      rw [List.contains_iff_mem.mpr hmem] at hfound
      cases hfound

theorem always_removeVia {act : Removing Bool} {able : Bool} {refusal : RemovalError}
    {kind : RemovalKind} (hact : act.Always (fun _ => MaySend client x.uid able) (fun _ _ => True) [])
    (hx : x.Recorded number targetId options) (hc : Checked x h client)
    (hable : able = false → Unscoped lib x h client) :
    (removeVia client x.mailbox x.uid act refusal kind).Always (MayDo lib number targetId options)
      (Returns (Answers number targetId options)) h := by
  have hlive : .call .live (.ok client) ∈ h := List.mem_of_mem_head? (Option.mem_def.mpr hc.first)
  refine always_lock_bind hx.mailbox hlive fun v => ?_
  have hpre := List.prefix_append h [.call (.getMailboxLock client x.mailbox) (.ok v)]
  refine (always_act hact hx (hc.mono hpre) fun ha => (hable ha).mono hpre).andThen ?_
    fun _ _ _ _ => trivial
  rintro h' done - -
  cases done with
  | false => exact trivial
  | true =>
      refine (always_verifyGone hx.mailbox).andThen (fun h'' _ _ hread => ?_) fun _ _ _ _ => trivial
      exact ⟨x, hx, hread⟩

/-- **The walk of a removal.** -/
theorem always_removeItem : (removeItem lib number targetId options).Always
    (MayDo lib number targetId options) (Returns (Answers number targetId options)) [] := by
  refine always_live_bind fun client => ?_
  cases hmailbox : options.collection with
  | none => exact trivial
  | some mailbox =>
      dsimp only
      by_cases hempty : mailbox = ""
      · rw [if_pos hempty]
        exact trivial
      rw [if_neg hempty]
      cases huid : number targetId with
      | none => exact trivial
      | some uid =>
          dsimp only
          by_cases hzero : uid ≤ 0
          · rw [if_pos hzero]
            exact trivial
          rw [if_neg hzero]
          cases hexpected : options.expectedTargetVersion with
          | none =>
              show Answers number targetId options { unversioned := true } _
              exact answers_of_unsent rfl (by simp [Unsent])
          | some expected =>
              have hx : Handle.Recorded number targetId options ⟨mailbox, expected, uid.toNat⟩ :=
                ⟨hmailbox, hexpected, by rw [huid, Int.toNat_of_nonneg (by omega)]⟩
              refine (always_uidValidityOf hmailbox).andThen ?_ fun _ _ _ _ => trivial
              rintro h₁ _ - ⟨client₁, v₁, rfl, rfl⟩
              by_cases hchanged : expected ≠ toString v₁
              · rw [if_pos hchanged]
                exact trivial
              rw [if_neg hchanged]
              have hc : Checked ⟨mailbox, expected, uid.toNat⟩ ([] ++ [.call .live (.ok client)] ++
                  [.call .live (.ok client₁),
                    .call (.getMailboxLock client₁ mailbox) (.ok (some v₁))]) client :=
                ⟨rfl, client₁, v₁, by simp, by simp, (not_not.mp hchanged).symm⟩
              refine (always_uidExists hmailbox).andThen ?_ fun _ _ _ _ => trivial
              rintro h₂ _ - ⟨client₂, v₂, found, rfl, rfl⟩
              by_cases hpresent : (!found.contains uid.toNat) = true
              · rw [if_pos hpresent]
                show Answers number targetId options {} _
                exact answers_of_unsent rfl (by simp [Unsent])
              rw [if_neg hpresent]
              refine always_findBin.andThen ?_ fun _ _ _ _ => trivial
              rintro h₃ _ - ⟨client₃, listed, rfl, rfl⟩
              replace hc := (hc.mono (List.prefix_append _ [.call .live (.ok client₂),
                .call (.getMailboxLock client₂ mailbox) (.ok v₂),
                .call (.search client₂ uid.toNat) (.ok (some found))])).mono
                  (List.prefix_append _ [.call .live (.ok client₃), .call (.list client₃) (.ok listed)])
              cases hbin : (binOf listed).filter fun b => b ≠ "" ∧ b ≠ mailbox with
              | some bin =>
                  dsimp only
                  obtain ⟨hnamed, hother⟩ := Option.filter_eq_some_iff.mp hbin
                  refine always_removeVia (lib.move_sends client uid.toNat bin) hx hc fun hcaps => ?_
                  exact ⟨hcaps, client₃, listed, by simp, bin, hnamed, (of_decide_eq_true hother).2⟩
              | none =>
                  dsimp only
                  by_cases hcaps : (lib.capabilities client).uidplus = true
                  · rw [if_pos hcaps]
                    refine always_removeVia (lib.delete_sends client uid.toNat) hx hc fun hnot => ?_
                    rw [hcaps] at hnot
                    cases hnot
                  · rw [if_neg hcaps]
                    exact trivial

/-! ### What a run keeps -/

/-- The connections are numbered upwards, the one a UIDVALIDITY was read over has that mailbox
open as long as it lives, and what left is what was asked for. -/
structure Kept (number : String → Option Int) (targetId : String) (options : RemoveOptions)
    (h : List ImapEvent) (s : Server) : Prop where
  below : ∀ c, s.connection = some c → c.number < s.made
  known : ∀ client, .call .live (.ok client) ∈ h →
    client < s.made ∧ ∀ c, s.connection = some c → client ≤ c.number
  first : ∀ client, h.head? = some (.call .live (.ok client)) →
    ∀ client', .call .live (.ok client') ∈ h → client ≤ client'
  opened : ∀ client mailbox v, .call (.getMailboxLock client mailbox) (.ok (some v)) ∈ h →
    options.collection = some mailbox ∧ client < s.made ∧
      ∀ c, s.connection = some c → c.number = client → c.opened = some (mailbox, v)
  left : ∀ d ∈ s.left, (∃ x : Handle, x.Recorded number targetId options ∧ d.mailbox = x.mailbox ∧
      toString d.uidValidity = x.uidValidity ∧ (d.uid = x.uid ∨ d.command = .bareExpunge)) ∧
    ∃ client a, .call (.send client d.command) a ∈ h ∧ a ≠ .ok false

theorem mem_of_concat {α : Type} {l : List α} {a b : α} (h : a ∈ l ++ [b]) (hne : b ≠ a) : a ∈ l := by
  obtain h | h := List.mem_append.mp h
  · exact h
  · exact absurd (List.mem_singleton.mp h).symm hne

variable {s s' : Server} {e : ImapEvent}

/-- Nothing is learnt of a connection, and at most it dropped. -/
theorem Kept.idle (hk : Kept number targetId options h s)
    (hconn : s'.connection = s.connection ∨ s'.connection = none) (hmade : s'.made = s.made)
    (hleft : s'.left = s.left) (hlive : ∀ client, e ≠ .call .live (.ok client))
    (hlock : ∀ client mailbox v, e ≠ .call (.getMailboxLock client mailbox) (.ok (some v))) :
    Kept number targetId options (h ++ [e]) s' := by
  have hold {c : Connection} (hc : s'.connection = some c) : s.connection = some c := by
    obtain hsame | hnone := hconn
    · rw [← hsame, hc]
    · rw [hnone] at hc
      cases hc
  refine ⟨fun c hc => hmade ▸ hk.below c (hold hc), fun client hmem => ?_, fun client hhead client' hmem => ?_,
    fun client mailbox v hmem => ?_, fun d hd => ?_⟩
  · obtain ⟨hlt, hle⟩ := hk.known client (mem_of_concat hmem (hlive client))
    exact ⟨hmade ▸ hlt, fun c hc => hle c (hold hc)⟩
  · refine hk.first client ?_ client' (mem_of_concat hmem (hlive client'))
    cases h with
    | nil => exact absurd (Option.some.inj hhead) (hlive client)
    | cons => exact hhead
  · obtain ⟨hmailbox, hlt, hopen⟩ := hk.opened client mailbox v (mem_of_concat hmem (hlock client mailbox v))
    exact ⟨hmailbox, hmade ▸ hlt, fun c hc => hopen c (hold hc)⟩
  · rw [hleft] at hd
    obtain ⟨hx, client, a, hmem, ha⟩ := hk.left d hd
    exact ⟨hx, client, a, List.mem_append_left _ hmem, ha⟩

/-- A connection is handed out: the one there is, or a new one. -/
theorem Kept.live (hk : Kept number targetId options h s) {c : Connection}
    (hc : s'.connection = some c)
    (hnew : s' = s ∨ c.number = s.made ∧ s'.made = s.made + 1 ∧ s'.left = s.left) :
    Kept number targetId options (h ++ [.call .live (.ok c.number)]) s' := by
  have hlater : ∀ client, .call .live (.ok client) ∈ h → client ≤ c.number := by
    intro client hmem
    obtain rfl | ⟨hnumber, -, -⟩ := hnew
    · exact (hk.known client hmem).2 c hc
    · exact hnumber ▸ Nat.le_of_lt (hk.known client hmem).1
  have hmade : s.made ≤ s'.made ∧ c.number < s'.made := by
    obtain rfl | ⟨hnumber, hmade, -⟩ := hnew
    · exact ⟨Nat.le_refl _, hk.below c hc⟩
    · omega
  have hmem {client : Nat} (h' : .call .live (.ok client) ∈ h ++ [(.call .live (.ok c.number) : ImapEvent)]) :
      .call .live (.ok client) ∈ h ∨ client = c.number := by
    obtain h' | h' := List.mem_append.mp h'
    · exact .inl h'
    · cases List.mem_singleton.mp h'
      exact .inr rfl
  refine ⟨fun c' hc' => ?_, fun client hclient => ?_, fun client hhead client' hclient => ?_,
    fun client mailbox v hlock => ?_, fun d hd => ?_⟩
  · cases hc.symm.trans hc'
    exact hmade.2
  · have hle : client ≤ c.number := (hmem hclient).elim (hlater client) Nat.le_of_eq
    refine ⟨by omega, fun c' hc' => ?_⟩
    cases hc.symm.trans hc'
    exact hle
  · cases h with
    | nil =>
        cases hhead
        exact Nat.le_of_eq ((hmem hclient).resolve_left List.not_mem_nil).symm
    | cons first rest =>
        have hhere : client ≤ c.number := hlater client (List.mem_of_mem_head? (Option.mem_def.mpr hhead))
        exact (hmem hclient).elim (hk.first client hhead client') fun heq => heq ▸ hhere
  · obtain ⟨hmailbox, hlt, hopen⟩ := hk.opened client mailbox v (mem_of_concat hlock (by intro heq; cases heq))
    refine ⟨hmailbox, by omega, fun c' hc' hnumber => ?_⟩
    cases hc.symm.trans hc'
    obtain rfl | ⟨hmade', -, -⟩ := hnew
    · exact hopen c hc hnumber
    · omega
  · have hd' : d ∈ s.left := by
      obtain rfl | ⟨-, -, hleft⟩ := hnew
      · exact hd
      · rwa [hleft] at hd
    obtain ⟨hx, client, a, hsent, ha⟩ := hk.left d hd'
    exact ⟨hx, client, a, List.mem_append_left _ hsent, ha⟩

/-- The mailbox is open now: it was already, or there was another one. -/
theorem Kept.lock (hk : Kept number targetId options h s) {c : Connection} {v : Nat}
    (hc : s.connection = some c) (hmailbox : options.collection = some mailbox)
    (hlive : .call .live (.ok c.number) ∈ h)
    (hopen : s' = s ∧ c.opened = some (mailbox, v) ∨ (∀ v, c.opened ≠ some (mailbox, v)) ∧
      s' = { s with connection := some { c with opened := some (mailbox, v) } }) :
    Kept number targetId options
      (h ++ [.call (.getMailboxLock c.number mailbox) (.ok (some v))]) s' := by
  have hmade : s'.made = s.made ∧ s'.left = s.left := by
    obtain ⟨rfl, -⟩ | ⟨-, rfl⟩ := hopen
    · exact ⟨rfl, rfl⟩
    · exact ⟨rfl, rfl⟩
  have hnow : ∃ c', s'.connection = some c' ∧ c'.number = c.number ∧ c'.opened = some (mailbox, v) := by
    obtain ⟨rfl, ho⟩ | ⟨-, rfl⟩ := hopen
    · exact ⟨c, hc, rfl, ho⟩
    · exact ⟨_, rfl, rfl, rfl⟩
  obtain ⟨c', hc', hnumber, ho⟩ := hnow
  have hcalled (client : Nat) : (.call (.getMailboxLock c.number mailbox) (.ok (some v)) : ImapEvent) ≠
      .call .live (.ok client) := by
    intro heq
    cases heq
  refine ⟨fun c₁ hc₁ => ?_, fun client hmem => ?_, fun client hhead client' hmem => ?_,
    fun client mailbox' v' hmem => ?_, fun d hd => ?_⟩
  · cases hc'.symm.trans hc₁
    rw [hnumber, hmade.1]
    exact hk.below c hc
  · obtain ⟨hlt, hle⟩ := hk.known client (mem_of_concat hmem (hcalled client))
    refine ⟨hmade.1 ▸ hlt, fun c₁ hc₁ => ?_⟩
    cases hc'.symm.trans hc₁
    rw [hnumber]
    exact hle c hc
  · refine hk.first client ?_ client' (mem_of_concat hmem (hcalled client'))
    cases h with
    | nil => exact absurd hlive List.not_mem_nil
    | cons => exact hhead
  · obtain hmem | hmem := List.mem_append.mp hmem
    · obtain ⟨hmailbox', hlt, hopened⟩ := hk.opened client mailbox' v' hmem
      refine ⟨hmailbox', hmade.1 ▸ hlt, fun c₁ hc₁ hclient => ?_⟩
      cases hc'.symm.trans hc₁
      have hwas := hopened c hc (hnumber.symm.trans hclient)
      obtain rfl : mailbox' = mailbox := Option.some.inj (hmailbox'.symm.trans hmailbox)
      obtain ⟨rfl, hsame⟩ | ⟨hnot, -⟩ := hopen
      · rw [ho, ← hsame, hwas]
      · exact absurd hwas (hnot v')
    · cases List.mem_singleton.mp hmem
      refine ⟨hmailbox, hmade.1 ▸ (hk.known _ hlive).1, fun c₁ hc₁ _ => ?_⟩
      cases hc'.symm.trans hc₁
      exact ho
  · rw [hmade.2] at hd
    obtain ⟨hx, client, a, hsent, ha⟩ := hk.left d hd
    exact ⟨hx, client, a, List.mem_append_left _ hsent, ha⟩

/-- A failing lock: an earlier one over this connection would have left the mailbox open. -/
theorem Kept.cannotOpen (hk : Kept number targetId options h s) {c : Connection}
    {a : Except String (Option Nat)} (hc : s.connection = some c)
    (hmailbox : options.collection = some mailbox) (ho : ∀ v, c.opened ≠ some (mailbox, v))
    (ha : ∀ v, a ≠ .ok (some v)) :
    Kept number targetId options (h ++ [.call (.getMailboxLock c.number mailbox) a])
      { s with connection := some { c with opened := none } } := by
  have hidle : Kept number targetId options (h ++ [.call (.getMailboxLock c.number mailbox) a]) s := by
    refine hk.idle (.inl rfl) rfl rfl (fun client heq => ?_) fun client mailbox' v heq => ?_
    · cases heq
    · cases heq
      exact ha v rfl
  refine ⟨fun c₁ hc₁ => ?_, fun client hmem => ?_, hidle.first, fun client mailbox' v hmem => ?_,
    hidle.left⟩
  · cases hc₁
    exact hidle.below c hc
  · refine ⟨(hidle.known client hmem).1, fun c₁ hc₁ => ?_⟩
    cases hc₁
    exact (hidle.known client hmem).2 c hc
  · obtain ⟨hmailbox', hlt, hopened⟩ := hidle.opened client mailbox' v hmem
    refine ⟨hmailbox', hlt, fun c₁ hc₁ hclient => ?_⟩
    cases hc₁
    obtain rfl : mailbox' = mailbox := Option.some.inj (hmailbox'.symm.trans hmailbox)
    exact absurd (hopened c hc hclient) (ho v)

/-- A command carried out, in the mailbox the UIDVALIDITY was read of. -/
theorem Kept.carried (hk : Kept number targetId options h s) {c : Connection} {command : Command}
    {box : Mailbox} {a : Except String Bool} {arrived : List Stored} (hc : s.connection = some c)
    (ho : c.opened = some (mailbox, box.uidValidity)) (ha : a ≠ .ok false)
    (hdo : MayDo lib number targetId options h (.call (.send c.number command) a)) :
    Kept number targetId options (h ++ [.call (.send c.number command) a])
      (s.carry mailbox box command arrived) := by
  obtain ⟨x, hx, hchecked, hnames⟩ := hdo
  obtain ⟨client', v, hlive', hlock, hv⟩ := hchecked.validity
  -- The UIDVALIDITY was read over this connection: one that came later would be the only one alive.
  have hsame : c.number = client' :=
    Nat.le_antisymm (hk.first _ hchecked.first _ hlive') ((hk.known client' hlive').2 c hc)
  obtain ⟨-, -, hopened⟩ := hk.opened client' x.mailbox v hlock
  obtain ⟨rfl, rfl⟩ := Prod.mk.inj (Option.some.inj (ho.symm.trans (hopened c hc hsame)))
  have hidle : Kept number targetId options (h ++ [.call (.send c.number command) a]) s := by
    refine hk.idle (.inl rfl) rfl rfl (fun client heq => ?_) fun client mailbox' v heq => ?_
    · cases heq
    · cases heq
  refine ⟨hidle.below, hidle.known, hidle.first, hidle.opened, fun d hd => ?_⟩
  obtain hd | hd := List.mem_append.mp hd
  · exact hidle.left d hd
  · obtain ⟨m, hm, rfl⟩ := List.mem_map.mp hd
    refine ⟨⟨x, hx, rfl, hv, ?_⟩, c.number, a, List.mem_concat_self, ha⟩
    exact hnames.imp (fun hn => Command.eq_of_takes hn (List.mem_filter.mp hm).2) And.left

theorem Kept.step (hk : Kept number targetId options h s) (hdo : MayDo lib number targetId options h e)
    (hfires : Fires Effects s e s') : Kept number targetId options (h ++ [e]) s' := by
  cases e with
  | sync => exact hdo.elim
  | call o a =>
      have heffects : Effects s o a s' := hfires
      cases heffects with
      | alive hc => exact hk.live hc (.inl rfl)
      | connects hc => exact hk.live (c := ⟨s.made, none⟩) rfl (.inr ⟨rfl, rfl, rfl⟩)
      | lists hc listed =>
          refine hk.idle (.inl rfl) rfl rfl (fun _ heq => ?_) fun _ _ _ heq => ?_
          all_goals cases heq
      | isOpen hc ho => exact hk.lock hc hdo.1 hdo.2 (.inl ⟨rfl, ho⟩)
      | opens hc ho hbox => exact hk.lock hc hdo.1 hdo.2 (.inr ⟨ho, rfl⟩)
      | cannotOpen hc ho ha => exact hk.cannotOpen hc hdo.1 ho ha
      | finds hc found =>
          refine hk.idle (.inl rfl) rfl rfl (fun _ heq => ?_) fun _ _ _ heq => ?_
          all_goals cases heq
      | ignored hc accepted =>
          refine hk.idle (.inl rfl) rfl rfl (fun _ heq => ?_) fun _ _ _ heq => ?_
          all_goals cases heq
      | carried hc ho hbox ha arrived => exact hk.carried hc ho ha hdo
      | rejects =>
          refine hk.idle (.inl rfl) rfl rfl (fun _ heq => ?_) fun _ _ _ heq => ?_
          all_goals cases heq
      | drops =>
          refine hk.idle (.inr rfl) rfl rfl (fun _ heq => ?_) fun _ _ _ heq => ?_
          all_goals cases heq

/-- What others do is not the writer's. -/
theorem Kept.others (hk : Kept number targetId options h s) (ho : Others s s') :
    Kept number targetId options h s' := by
  obtain ⟨hleft, hmade, hconn⟩ := ho
  have hold {c : Connection} (hc : s'.connection = some c) : s.connection = some c := by
    obtain hsame | hnone := hconn
    · rw [← hsame, hc]
    · rw [hnone] at hc
      cases hc
  refine ⟨fun c hc => hmade ▸ hk.below c (hold hc), fun client hmem => ?_, hk.first,
    fun client mailbox v hmem => ?_, hleft ▸ hk.left⟩
  · exact ⟨hmade ▸ (hk.known client hmem).1, fun c hc => (hk.known client hmem).2 c (hold hc)⟩
  · obtain ⟨hmailbox, hlt, hopen⟩ := hk.opened client mailbox v hmem
    exact ⟨hmailbox, hmade ▸ hlt, fun c hc => hopen c (hold hc)⟩

/-! ### One message -/

/-- What holds at any moment of a removal. -/
structure TouchesOne (number : String → Option Int) (targetId : String) (options : RemoveOptions)
    (p : Removing RemovalResult) (h : List ImapEvent) (s : Server) : Prop where
  /-- What left is the UID, from the mailbox, under the recorded UIDVALIDITY. -/
  one : ∀ d ∈ s.left, options.collection = some d.mailbox ∧
    options.expectedTargetVersion = some (toString d.uidValidity) ∧ number targetId = some (d.uid : Int)
  no_bare : ∀ client a, .call (.send client .bareExpunge) a ∉ h
  /-- By a command that the server did not refuse. -/
  accepted : ∀ d ∈ s.left, ∃ client a, .call (.send client d.command) a ∈ h ∧ a ≠ .ok false
  gone : ∀ result, p = .ret result → result.kind.isSome = true →
    ∃ x : Handle, x.Recorded number targetId options ∧ ReadAsGone x h
  none_left : ∀ result, p = .ret result → result.kind = none → Unsent h ∧ s.left = []

/-- The server has what keeps a removal to its UID, or names no bin beside the mailbox. -/
def KeepsToUids (lib : ImapFlow) (options : RemoveOptions) (h : List ImapEvent) : Prop :=
  (∀ client, ((lib.capabilities client).move || (lib.capabilities client).uidplus) = true) ∨
    ∀ client listed mailbox, .call (.list client) (.ok listed) ∈ h →
      options.collection = some mailbox → ¬ OtherBin mailbox listed

/-- A writer that has removed nothing yet. -/
structure Server.Begins (s : Server) : Prop where
  left : s.left = []
  below : ∀ c, s.connection = some c → c.number < s.made

theorem Server.Begins.kept (hb : s.Begins) : Kept number targetId options [] s :=
  ⟨hb.below, fun _ hmem => absurd hmem List.not_mem_nil, fun _ _ _ hmem => absurd hmem List.not_mem_nil,
    fun _ _ _ hmem => absurd hmem List.not_mem_nil, fun d hd => by rw [hb.left] at hd; cases hd⟩

variable {p : Removing RemovalResult}

theorem removeItem_touches_one (hbegins : s.Begins)
    (hrun : Prog.Run Others Effects (removeItem lib number targetId options) s p h s')
    (hscoped : KeepsToUids lib options h) : TouchesOne number targetId options p h s' := by
  have hkept : Kept number targetId options h s' := Prog.Run.rule always_removeItem hbegins.kept
    (fun _ _ _ hk ho => hk.others ho) (fun _ _ _ _ hk hdo hf => hk.step hdo hf) hrun
  have hwalk := hrun.always always_removeItem
  have hjustified : Prog.Justified (MayDo lib number targetId options) h :=
    Prog.Run.rule (I := fun h _ => Prog.Justified (MayDo lib number targetId options) h)
      always_removeItem Prog.justified_nil (fun _ _ _ hj _ => hj)
      (fun _ _ _ _ hj hdo _ => hj.concat hdo) hrun
  have hbare : ∀ client a, .call (.send client .bareExpunge) a ∉ h := by
    intro client a hmem
    obtain ⟨before, after, rfl⟩ := List.append_of_mem hmem
    obtain ⟨x, hx, -, hnames | ⟨-, hcaps, client', listed, hlist, hbin⟩⟩ := hjustified _ _ _ rfl
    · exact hnames
    · obtain hall | hnone := hscoped
      · rw [hall client] at hcaps
        cases hcaps
      · exact hnone client' listed x.mailbox (List.mem_append_left _ hlist) hx.mailbox hbin
  have hends : ∀ result, p = .ret result → Answers number targetId options result h := by
    rintro result rfl
    exact hwalk
  have haccepted : ∀ d ∈ s'.left, ∃ client a, .call (.send client d.command) a ∈ h ∧ a ≠ .ok false :=
    fun d hd => (hkept.left d hd).2
  refine ⟨fun d hd => ?_, hbare, haccepted, fun result hp hkind => ?_, fun result hp hkind => ?_⟩
  · obtain ⟨⟨x, hx, hmailbox, hvalidity, huid⟩, client, a, hmem, -⟩ := hkept.left d hd
    rw [hmailbox, hvalidity, huid.resolve_right fun hcommand => hbare client a (hcommand ▸ hmem)]
    exact ⟨hx.mailbox, hx.uidValidity, hx.uid⟩
  · have hanswer := hends result hp
    rwa [Answers, if_pos hkind] at hanswer
  · have hanswer := hends result hp
    rw [Answers, hkind] at hanswer
    refine ⟨hanswer, List.eq_nil_iff_forall_not_mem.mpr fun d hd => ?_⟩
    obtain ⟨client, a, hmem, -⟩ := haccepted d hd
    exact hanswer client d.command a hmem

/-! ### On a server -/

/-- `imapflow`'s `messageDelete`: without UIDPLUS it expunges all that is flagged. -/
def messageDelete (offers : Capabilities) (client uid : Nat) : Removing Bool := do
  let _ ← ask (.send client (.flagDeleted uid))
  ask (.send client (if offers.uidplus then .expunge uid else .bareExpunge))

/-- Its `messageMove`: without MOVE it copies and deletes. -/
def messageMove (offers : Capabilities) (client uid : Nat) (bin : String) : Removing Bool :=
  if offers.move then ask (.send client (.move uid bin))
  else do
    let copied ← ask (.send client (.copy uid bin))
    let _ ← messageDelete offers client uid
    pure copied

section

variable {offers : Capabilities} {able : Bool}

theorem always_send {command : Command}
    (hc : command.Names uid ∨ command = .bareExpunge ∧ able = false) :
    (ask (.send client command)).Always (fun _ => MaySend client uid able) (fun _ _ => True) h :=
  Prog.always_awaitWith.mpr ⟨fun _ => ⟨⟨rfl, hc⟩, trivial⟩, fun _ => ⟨⟨rfl, hc⟩, trivial⟩⟩

theorem always_messageDelete (hable : able = true → offers.uidplus = true) :
    (messageDelete offers client uid).Always (fun _ => MaySend client uid able) (fun _ _ => True) h := by
  have hflag : (Command.flagDeleted uid).Names uid := rfl
  refine (always_send (.inl hflag)).andThen (fun h' _ _ _ => always_send ?_) fun _ _ _ _ => trivial
  by_cases hplus : offers.uidplus = true
  · rw [if_pos hplus]
    exact .inl rfl
  · rw [if_neg hplus]
    exact .inr ⟨rfl, Bool.eq_false_iff.mpr fun ha => hplus (hable ha)⟩

theorem always_messageMove {bin : String} :
    (messageMove offers client uid bin).Always
      (fun _ => MaySend client uid (offers.move || offers.uidplus)) (fun _ _ => True) h := by
  unfold messageMove
  by_cases hmove : offers.move = true
  · rw [if_pos hmove]
    exact always_send (.inl rfl)
  · rw [if_neg hmove]
    have hcopy : (Command.copy uid bin).Names uid := rfl
    refine (always_send (.inl hcopy)).andThen (fun _ _ _ _ => ?_) fun _ _ _ _ => trivial
    refine (always_messageDelete fun ha => ?_).andThen (fun _ _ _ _ => trivial) fun _ _ _ _ => trivial
    exact (Bool.or_eq_true_iff.mp ha).resolve_left hmove

end

/-- On a server that offers the same over every connection. -/
def imapflow (offers : Capabilities) : ImapFlow where
  capabilities := fun _ => offers
  messageMove := messageMove offers
  messageDelete := messageDelete offers
  move_sends := fun _ _ _ => always_messageMove
  delete_sends := fun _ _ => always_messageDelete id

/-- A server that carries out what it is sent. -/
def carriesOut (s : Server) : (o : ImapOp) → Option (o.Ans × Server)
  | .live => some (s.connection.elim
      (.ok s.made, { s with connection := some ⟨s.made, none⟩, made := s.made + 1 })
      fun c => (.ok c.number, s))
  | .list client => s.connection.bind fun c =>
      if c.number = client then some (.ok [⟨"INBOX", []⟩, ⟨"Trash", ["\\Trash"]⟩], s) else none
  | .getMailboxLock client mailbox => s.connection.bind fun c =>
      if c.number = client ∧ c.opened = none then (s.boxes mailbox).map fun box =>
        (.ok (some box.uidValidity),
          { s with connection := some { c with opened := some (mailbox, box.uidValidity) } })
      else if c.number = client ∧ c.opened.map Prod.fst = some mailbox then
        some (.ok (c.opened.map Prod.snd), s)
      else none
  | .search client uid => s.connection.bind fun c => c.opened.bind fun o => (s.boxes o.1).bind fun box =>
      if c.number = client then
        some (.ok (some ((box.messages.filter fun m => m.uid = uid).map (·.uid))), s)
      else none
  | .send client command => s.connection.bind fun c => c.opened.bind fun o => (s.boxes o.1).bind fun box =>
      if c.number = client ∧ box.uidValidity = o.2 then some (.ok true, s.carry o.1 box command [])
      else none

theorem effects_of_carriesOut (s : Server) (o : ImapOp) (a : o.Ans) (s' : Server)
    (h : carriesOut s o = some (a, s')) : Effects s o a s' := by
  cases o with
  | live =>
      obtain ⟨boxes, connection, made, left⟩ := s
      cases connection with
      | none =>
          cases h
          exact .connects rfl
      | some c =>
          cases h
          exact .alive rfl
  | list client =>
      obtain ⟨c, hc, h⟩ := Option.bind_eq_some_iff.mp h
      split_ifs at h with hnumber
      subst hnumber
      cases h
      exact .lists hc _
  | getMailboxLock client mailbox =>
      obtain ⟨c, hc, h⟩ := Option.bind_eq_some_iff.mp h
      split_ifs at h with hclosed hopen
      · obtain ⟨rfl, hnone⟩ := hclosed
        obtain ⟨box, hbox, h⟩ := Option.map_eq_some_iff.mp h
        cases h
        exact .opens hc (fun v ho => by rw [hnone] at ho; cases ho) hbox
      · obtain ⟨rfl, hhere⟩ := hopen
        obtain ⟨⟨name, v⟩, ho, rfl⟩ := Option.map_eq_some_iff.mp hhere
        rw [ho] at h
        cases h
        exact .isOpen hc ho
  | search client uid =>
      obtain ⟨c, hc, h⟩ := Option.bind_eq_some_iff.mp h
      obtain ⟨o, -, h⟩ := Option.bind_eq_some_iff.mp h
      obtain ⟨box, -, h⟩ := Option.bind_eq_some_iff.mp h
      split_ifs at h with hnumber
      subst hnumber
      cases h
      exact .finds hc _
  | send client command =>
      obtain ⟨c, hc, h⟩ := Option.bind_eq_some_iff.mp h
      obtain ⟨⟨name, v⟩, ho, h⟩ := Option.bind_eq_some_iff.mp h
      obtain ⟨box, hbox, h⟩ := Option.bind_eq_some_iff.mp h
      split_ifs at h with hsame
      obtain ⟨rfl, rfl⟩ := hsame
      cases h
      exact .carried hc ho hbox (by simp) []

/-- Two messages, of which another client flagged one, and a bin. -/
def twoMessages : Server :=
  { boxes := fun name =>
      if name = "INBOX" then some ⟨42, [⟨7, false⟩, ⟨9, true⟩]⟩
      else if name = "Trash" then some ⟨1, []⟩ else none }

def inboxSeven : RemoveOptions := { expectedTargetVersion := some "42", collection := some "INBOX" }

theorem twoMessages_begins : twoMessages.Begins := ⟨rfl, fun _ hc => by cases hc⟩

/-- What a removal of message 7 from it comes to. -/
theorem run_twoMessages (offers : Capabilities) (left : List Departure)
    (h : ((removeItem (imapflow offers) (fun _ => some 7) "7" inboxSeven).exec carriesOut
      (fun _ => false) twoMessages).map (fun r => r.2.left) = some left) :
    ∃ p events s, Prog.Run Others Effects (removeItem (imapflow offers) (fun _ => some 7) "7" inboxSeven)
      twoMessages p events s ∧ s.left = left := by
  obtain ⟨⟨p, s⟩, hexec, hleft⟩ := Option.map_eq_some_iff.mp h
  obtain ⟨events, hrun⟩ := Prog.run_exec effects_of_carriesOut .refl hexec
  exact ⟨p, events, s, hrun, hleft⟩

/-- Where MOVE is offered, message 7 leaves. -/
theorem seven_moved : ∃ p events s,
    TouchesOne (fun _ => some 7) "7" inboxSeven p events s ∧
      s.left = [⟨"INBOX", 42, 7, .move 7 "Trash"⟩] := by
  obtain ⟨p, events, s, hrun, hleft⟩ :=
    run_twoMessages ⟨true, false⟩ [⟨"INBOX", 42, 7, .move 7 "Trash"⟩] (by decide +kernel)
  exact ⟨p, events, s, removeItem_touches_one twoMessages_begins hrun (.inl fun _ => rfl), hleft⟩

/-- With neither MOVE nor UIDPLUS, what another client flagged is lost with it. -/
theorem flagged_by_another_lost : ¬ ∀ (lib : ImapFlow) (number : String → Option Int)
    (targetId : String) (options : RemoveOptions) (s s' : Server) (p : Removing RemovalResult)
    (h : List ImapEvent), s.Begins →
      Prog.Run Others Effects (removeItem lib number targetId options) s p h s' →
        TouchesOne number targetId options p h s' := by
  intro hall
  obtain ⟨p, events, s, hrun, hleft⟩ := run_twoMessages ⟨false, false⟩
    [⟨"INBOX", 42, 7, .bareExpunge⟩, ⟨"INBOX", 42, 9, .bareExpunge⟩] (by decide +kernel)
  have hone := (hall _ _ _ _ _ _ _ _ twoMessages_begins hrun).one ⟨"INBOX", 42, 9, .bareExpunge⟩
    (by rw [hleft]; simp)
  have hnine : (some 7 : Option Int) = some 9 := hone.2.2
  cases hnine

end Ownpace.ImapDav
