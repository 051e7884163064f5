/-
Ownpace/Imap/Removal.lean

`removeItem` of the IMAP mail writer (`imapflow-dav-target.ts`), over the mailboxes of the
server and the one connection the writer holds.

The writer's `client` is the connection it got first; every check asks `live()` anew.  A
connection that has a mailbox open stays with that one: a lock on it opens nothing, and
when somebody else deletes and recreates the mailbox, what is sent over the connection
reaches none of the new one's messages.

`imapflow` itself is a parameter: what `messageMove` and `messageDelete` do is any program
of commands that keeps to the UID it was given, and to a UID EXPUNGE where the server has it.
-/
import Ownpace.Apply.Gates
import Ownpace.Await.Exec

namespace Ownpace.ImapDav

open Await

/-! ### The server -/

structure Stored where
  uid : Nat
  /-- Flagged `\Deleted`. -/
  deleted : Bool := false

/-- A mailbox of that name; recreated, it has another UIDVALIDITY. -/
structure Mailbox where
  uidValidity : Nat
  messages : List Stored

inductive Command where
  | move (uid : Nat) (bin : String)
  | copy (uid : Nat) (bin : String)
  | flagDeleted (uid : Nat)
  /-- UID EXPUNGE -/
  | expunge (uid : Nat)
  /-- EXPUNGE, of everything that is flagged. -/
  | bareExpunge
  deriving DecidableEq

namespace Command

/-- Does this message leave the mailbox? -/
def takes : Command → Stored → Bool
  | move uid _, m => m.uid = uid
  | copy .., _ => false
  | flagDeleted _, _ => false
  | expunge uid, m => m.uid = uid && m.deleted
  | bareExpunge, m => m.deleted

/-- Where the message arrives. -/
def bin : Command → Option String
  | move _ bin => some bin
  | copy _ bin => some bin
  | _ => none

def mark : Command → Stored → Stored
  | flagDeleted uid, m => if m.uid = uid then { m with deleted := true } else m
  | _, m => m

def run (command : Command) (box : Mailbox) : Mailbox :=
  { box with messages := (box.messages.filter fun m => !command.takes m).map command.mark }

/-- Does the command name this UID, and no other message? -/
def Names (uid : Nat) : Command → Prop
  | move uid' _ => uid' = uid
  | copy uid' _ => uid' = uid
  | flagDeleted uid' => uid' = uid
  | expunge uid' => uid' = uid
  | bareExpunge => False

theorem eq_of_takes {uid : Nat} {command : Command} {m : Stored} (h : command.Names uid)
    (ht : command.takes m = true) : m.uid = uid := by
  cases command with
  | move uid' bin => exact (of_decide_eq_true ht).trans h
  | copy | flagDeleted => cases ht
  | expunge uid' => exact (of_decide_eq_true (Bool.and_eq_true_iff.mp ht).1).trans h
  | bareExpunge => exact h.elim

end Command

/-- A message that left its mailbox by a command of the writer's. -/
structure Departure where
  mailbox : String
  uidValidity : Nat
  uid : Nat
  command : Command
  deriving DecidableEq

/-- A connection, and the mailbox it has open, under the UIDVALIDITY it was opened with. -/
structure Connection where
  number : Nat
  opened : Option (String × Nat) := none

structure Server where
  boxes : String → Option Mailbox
  /-- The writer's `this.client`. -/
  connection : Option Connection := none
  /-- The connections made so far; each is numbered by those before it. -/
  made : Nat := 0
  left : List Departure := []

/-- The command carried out; what it moves or copies arrives as the server numbers it. -/
def Server.carry (s : Server) (mailbox : String) (box : Mailbox) (command : Command)
    (arrived : List Stored) : Server :=
  { s with
    boxes := fun name =>
      if name = mailbox then some (command.run box)
      else if command.bin = some name then
        (s.boxes name).map fun b => { b with messages := b.messages ++ arrived }
      else s.boxes name
    left := s.left ++ (box.messages.filter command.takes).map fun m =>
      ⟨mailbox, box.uidValidity, m.uid, command⟩ }

/-! ### What the writer awaits -/

/-- One line of LIST. -/
structure ListedBox where
  path : String
  flags : List String
  deriving DecidableEq

inductive ImapOp : Type
  | live
  | list (client : Nat)
  | getMailboxLock (client : Nat) (mailbox : String)
  | search (client : Nat) (uid : Nat)
  | send (client : Nat) (command : Command)

abbrev ImapOp.Reply : ImapOp → Type
  | live => Nat
  | list _ => List ListedBox
  -- The UIDVALIDITY of `client.mailbox`, where one was opened.
  | getMailboxLock .. => Option Nat
  -- Only an array of UIDs is an answer.
  | search .. => Option (List Nat)
  -- OK, or NO.
  | send .. => Bool

/-- A call may always reject instead, with a message. -/
abbrev ImapOp.Ans (o : ImapOp) : Type := Except String o.Reply

/-- What a call may answer, and the server it leaves. -/
inductive Effects : Server → (o : ImapOp) → o.Ans → Server → Prop
  | alive {s : Server} {c : Connection} (hc : s.connection = some c) : Effects s .live (.ok c.number) s
  | connects {s : Server} (hc : s.connection = none) :
      Effects s .live (.ok s.made) { s with connection := some ⟨s.made, none⟩, made := s.made + 1 }
  | lists {s : Server} {c : Connection} (hc : s.connection = some c) (listed : List ListedBox) :
      Effects s (.list c.number) (.ok listed) s
  | isOpen {s : Server} {c : Connection} {mailbox : String} {v : Nat} (hc : s.connection = some c)
      (ho : c.opened = some (mailbox, v)) :
      Effects s (.getMailboxLock c.number mailbox) (.ok (some v)) s
  | opens {s : Server} {c : Connection} {mailbox : String} {box : Mailbox} (hc : s.connection = some c)
      (ho : ∀ v, c.opened ≠ some (mailbox, v)) (hbox : s.boxes mailbox = some box) :
      Effects s (.getMailboxLock c.number mailbox) (.ok (some box.uidValidity))
        { s with connection := some { c with opened := some (mailbox, box.uidValidity) } }
  | cannotOpen {s : Server} {c : Connection} {mailbox : String} (hc : s.connection = some c)
      (ho : ∀ v, c.opened ≠ some (mailbox, v)) {a : Except String (Option Nat)}
      (ha : ∀ v, a ≠ .ok (some v)) :
      Effects s (.getMailboxLock c.number mailbox) a
        { s with connection := some { c with opened := none } }
  | finds {s : Server} {c : Connection} {uid : Nat} (hc : s.connection = some c)
      (found : Option (List Nat)) : Effects s (.search c.number uid) (.ok found) s
  /-- Accepted or not, and not carried out. -/
  | ignored {s : Server} {c : Connection} {command : Command} (hc : s.connection = some c)
      (accepted : Bool) : Effects s (.send c.number command) (.ok accepted) s
  /-- Carried out in the mailbox that is open, where it is still there.  The answer may be lost. -/
  | carried {s : Server} {c : Connection} {command : Command} {mailbox : String} {box : Mailbox}
      (hc : s.connection = some c) (ho : c.opened = some (mailbox, box.uidValidity))
      (hbox : s.boxes mailbox = some box) {a : Except String Bool} (ha : a ≠ .ok false)
      (arrived : List Stored) :
      Effects s (.send c.number command) a (s.carry mailbox box command arrived)
  | rejects {s : Server} {o : ImapOp} (e : String) : Effects s o (.error e) s
  | drops {s : Server} {o : ImapOp} (e : String) : Effects s o (.error e) { s with connection := none }

/-- What others may do at any moment: anything to the mailboxes, and the connection may drop. -/
def Others (s s' : Server) : Prop :=
  s'.left = s.left ∧ s'.made = s.made ∧ (s'.connection = s.connection ∨ s'.connection = none)

/-! ### The library -/

inductive RemovalError where
  | noMailbox
  | notAUid
  | noMailboxOpened
  /-- The mailbox reports another UIDVALIDITY. -/
  | recreated
  | searchRefused
  | moveRefused
  | noUidplus
  | expungeRefused
  | stillThere
  | rejected (e : String)
  deriving DecidableEq

abbrev Removing (α : Type) : Type := Prog Server ImapOp ImapOp.Ans RemovalError α

abbrev ImapEvent : Type := Event Server ImapOp ImapOp.Ans

def ask (o : ImapOp) : Removing o.Reply := Prog.awaitWith .rejected o

structure Capabilities where
  move : Bool
  uidplus : Bool

/-- A command that a removal of this UID may send, where `able` says that the server has
what keeps it to the UID. -/
def MaySend (client uid : Nat) (able : Bool) : ImapEvent → Prop
  | .call (.send client' command) _ =>
    client' = client ∧ (command.Names uid ∨ command = .bareExpunge ∧ able = false)
  | _ => False

/-- `imapflow`, and what the server of each connection offers.  Without MOVE, `messageMove`
copies and deletes; without UIDPLUS, `messageDelete` falls back to a bare EXPUNGE. -/
structure ImapFlow where
  capabilities : Nat → Capabilities
  messageMove : (client uid : Nat) → (bin : String) → Removing Bool
  messageDelete : (client uid : Nat) → Removing Bool
  move_sends : ∀ client uid bin, (messageMove client uid bin).Always
    (fun _ => MaySend client uid ((capabilities client).move || (capabilities client).uidplus))
    (fun _ _ => True) []
  delete_sends : ∀ client uid, (messageDelete client uid).Always
    (fun _ => MaySend client uid (capabilities client).uidplus) (fun _ _ => True) []

/-! ### The writer -/

def lower (flag : String) : List Char := flag.toList.map Char.toLower

def UNSELECTABLE_ATTRIBUTES : List String := ["\\noselect", "\\nonexistent"]

def isSelectableFolder (flags : List String) : Bool :=
  flags.all fun flag => UNSELECTABLE_ATTRIBUTES.all fun u => lower flag ≠ u.toList

inductive SpecialUse where
  | inbox
  | sent
  | drafts
  | archive
  | junk
  | trash
  | normal
  deriving DecidableEq

def mapImapSpecialUse : List String → SpecialUse
  | [] => .normal
  | attr :: rest =>
    if lower attr = "\\inbox".toList then .inbox
    else if lower attr = "\\sent".toList then .sent
    else if lower attr = "\\drafts".toList then .drafts
    else if lower attr = "\\archive".toList then .archive
    else if lower attr = "\\junk".toList ∨ lower attr = "\\spam".toList then .junk
    else if lower attr = "\\trash".toList ∨ lower attr = "\\deleted".toList then .trash
    else mapImapSpecialUse rest

structure MailFolder where
  path : String
  specialUse : SpecialUse

def listMailboxes : Removing (List MailFolder) := do
  let client ← ask .live
  let listed ← ask (.list client)
  pure ((listed.filter fun box => isSelectableFolder box.flags).map fun box =>
    ⟨box.path, mapImapSpecialUse box.flags⟩)

def uidValidityOf (mailbox : String) : Removing String := do
  let client ← ask .live
  match ← ask (.getMailboxLock client mailbox) with
  | none => .throw .noMailboxOpened
  | some uidValidity => pure (toString uidValidity)

def findBin : Removing (Option String) := do
  let folders ← listMailboxes
  pure ((folders.find? fun f => f.specialUse = .trash).map (·.path))

def uidExists (mailbox : String) (uid : Nat) : Removing Bool := do
  let client ← ask .live
  let _ ← ask (.getMailboxLock client mailbox)
  match ← ask (.search client uid) with
  | none => .throw .searchRefused
  | some found => pure (found.contains uid)

def verifyGone (mailbox : String) (uid : Nat) : Removing Unit := do
  if ← uidExists mailbox uid then .throw .stillThere else pure ()

/-- A removal under its lock, and the look afterwards. -/
def removeVia (client : Nat) (mailbox : String) (uid : Nat) (act : Removing Bool)
    (refusal : RemovalError) (kind : RemovalKind) : Removing RemovalResult := do
  let _ ← ask (.getMailboxLock client mailbox)
  let done ← act
  if done then
    verifyGone mailbox uid
    pure { kind := some kind }
  else .throw refusal

/-- `number` is `Number(targetId)` where that is an integer. -/
def removeItem (lib : ImapFlow) (number : String → Option Int) (targetId : String)
    (options : RemoveOptions) : Removing RemovalResult := do
  let client ← ask .live
  match options.collection with
  | none => .throw .noMailbox
  | some mailbox =>
    if mailbox = "" then .throw .noMailbox
    else match number targetId with
    | none => .throw .notAUid
    | some uid =>
      if uid ≤ 0 then .throw .notAUid
      else match options.expectedTargetVersion with
      | none => pure { unversioned := true }
      | some expected =>
        let uidValidity ← uidValidityOf mailbox
        if expected ≠ uidValidity then .throw .recreated
        else
          let present ← uidExists mailbox uid.toNat
          if !present then pure {}
          else
            let bin ← findBin
            match bin.filter fun b => b ≠ "" ∧ b ≠ mailbox with
            | some bin =>
              removeVia client mailbox uid.toNat (lib.messageMove client uid.toNat bin) .moveRefused
                .binned
            | none =>
              if (lib.capabilities client).uidplus then
                removeVia client mailbox uid.toNat (lib.messageDelete client uid.toNat)
                  .expungeRefused .deleted
              else .throw .noUidplus

end Ownpace.ImapDav
