/-
Ownpace/JmapContact/Writer.lean

The JMAP contact writer (`jmap-contact-target.ts`): what it awaits of the server, and its
`upsertContact` and `removeItem`, one call after the other on one writer.

A card is what each of its properties says; only the string a `uid` is and the fingerprint
are looked into.  An update is a patch: it sets the properties that are sent and leaves the
others.  `keySnapshot` is taken once and kept up by hand.
-/
import Mathlib.Logic.Function.Basic
import Ownpace.Apply.Gates
import Ownpace.Await.Exec
import Ownpace.Uid.Readers

namespace Ownpace.JmapContact

open Await

abbrev Text := List Char

/-- A card: what each property says. -/
abbrev Card (V : Type) := String → Option V

/-- Values of properties: the string that one is, `{ [folderId]: true }`, and the SHA-256 of a
card's canonical JSON. -/
structure Values (V : Type) where
  text : V → Option Text
  inBook : String → V
  digest : Card V → String

variable {V : Type}

def uidOf (v : Values V) (card : Card V) : Option Text := (card "uid").bind v.text

/-- `{ ...card, addressBookIds: { [folderId]: true } }` -/
def filedIn (v : Values V) (folderId : String) (card : Card V) : Card V :=
  Function.update card "addressBookIds" (some (v.inBook folderId))

/-- RFC 8620's PatchObject: a property that is not sent stays. -/
def patch (old sent : Card V) : Card V := fun property => (sent property).or (old property)

/-- Beside the id. -/
def CARD_PROPERTIES : List String := ["uid", "addressBookIds", "vCard"]

/-- What a `ContactCard/get` shows of a card. -/
def shown (card : Card V) : Card V :=
  fun property => if property ∈ CARD_PROPERTIES then card property else none

/-! ### The account and the writer -/

abbrev Keys := Text → Option String

/-- A rewrite that was carried out. -/
structure Replaced (V : Type) where
  targetId : String
  old : Card V
  sent : Card V

structure World (V : Type) where
  cards : String → Option (Card V)
  /-- Not taken yet, or what was taken: none where the account could not be enumerated. -/
  keySnapshot : Option (Option Keys) := none
  replaced : List (Replaced V) := []

/-! ### What is awaited -/

inductive ContactOp (V : Type) : Type
  | connect
  -- `ContactCard/get` of every card, and of one.
  | list
  | get (targetId : String)
  | upload (vcard : Text)
  | parse (blobId : String)
  -- `ContactCard/set`
  | create (card : Card V)
  | update (targetId : String) (card : Card V)
  | destroy (targetId : String)

inductive ParseResponse (V : Type) : Type
  | parsed (card : Card V)
  | notParsable
  | notFound
  | neither

structure CreateResponse where
  created : Option String := none
  notCreated : Option String := none
  deriving DecidableEq

/-- Does the response name the card as done, and why not? -/
structure SetResponse where
  done : Bool
  refused : Option String := none
  deriving DecidableEq

abbrev ContactOp.Reply : ContactOp V → Type
  | connect => Unit
  | list => List (String × Card V)
  | get _ => Option (Card V)
  | upload _ => String
  | parse _ => ParseResponse V
  | create _ => CreateResponse
  | update .. => SetResponse
  | destroy _ => SetResponse

abbrev ContactOp.Ans (o : ContactOp V) : Type := Except String o.Reply

abbrev ContactEvent (V : Type) : Type := Event (World V) (ContactOp V) ContactOp.Ans

def World.replace (s : World V) (targetId : String) (old sent : Card V) : World V :=
  { s with
    cards := Function.update s.cards targetId (some (patch old sent))
    replaced := s.replaced ++ [⟨targetId, old, sent⟩] }

/-- What a call may answer, and the world it leaves. -/
inductive Effects : World V → (o : ContactOp V) → o.Ans → World V → Prop
  | connect {s : World V} : Effects s .connect (.ok ()) s
  | list {s : World V} (shownCards : List (String × Card V)) : Effects s .list (.ok shownCards) s
  | get {s : World V} {targetId : String} (shownCard : Option (Card V)) :
      Effects s (.get targetId) (.ok shownCard) s
  | upload {s : World V} {vcard : Text} (blobId : String) : Effects s (.upload vcard) (.ok blobId) s
  | parse {s : World V} {blobId : String} (response : ParseResponse V) :
      Effects s (.parse blobId) (.ok response) s
  | created {s : World V} {card : Card V} {targetId : String} {a : Except String CreateResponse}
      (hnew : s.cards targetId = none)
      (ha : ∀ response, a = .ok response → response.created = some targetId) :
      Effects s (.create card) a { s with cards := Function.update s.cards targetId (some card) }
  | notCreated {s : World V} {card : Card V} {response : CreateResponse}
      (hnone : response.created = none) : Effects s (.create card) (.ok response) s
  | updated {s : World V} {targetId : String} {old sent : Card V} {a : Except String SetResponse}
      (hold : s.cards targetId = some old)
      (ha : ∀ response, a = .ok response → response = ⟨true, none⟩) :
      Effects s (.update targetId sent) a (s.replace targetId old sent)
  | notUpdated {s : World V} {targetId : String} {sent : Card V} {response : SetResponse}
      (hnot : response.done = false) : Effects s (.update targetId sent) (.ok response) s
  | destroyed {s : World V} {targetId : String} {a : Except String SetResponse}
      (hold : s.cards targetId ≠ none) (ha : ∀ response, a = .ok response → response = ⟨true, none⟩) :
      Effects s (.destroy targetId) a { s with cards := Function.update s.cards targetId none }
  | notDestroyed {s : World V} {targetId : String} {response : SetResponse}
      (hnot : response.done = false) : Effects s (.destroy targetId) (.ok response) s
  | rejects {s : World V} {o : ContactOp V} (e : String) : Effects s o (.error e) s

/-- What the owner may do at any moment: anything to the cards. -/
def Owner (s s' : World V) : Prop := s'.keySnapshot = s.keySnapshot ∧ s'.replaced = s.replaced

/-! ### The writer -/

inductive ContactError where
  | noUid
  | cardWithoutUid
  | noCardParsed (why : String)
  | refused (type : String)
  | notOnTarget
  /-- The card could not be read to compare it with the version recorded. -/
  | unread (cause : String)
  | notConfirmed
  | rejected (e : String)
  deriving DecidableEq

abbrev Writing (V α : Type) : Type := Prog (World V) (ContactOp V) ContactOp.Ans ContactError α

def ask (o : ContactOp V) : Writing V o.Reply := Prog.awaitWith .rejected o

structure UpsertOptions where
  overwrite : Bool := false
  expectedTargetVersion : Option String := none

structure UpsertResult where
  targetId : String
  created : Bool
  adopted : Bool := false
  updated : Bool := false
  conflicted : Bool := false
  targetVersion : Option String := none
  deriving DecidableEq

section

variable (v : Values V)

def ensureConnected : Writing V Unit := ask .connect

/-- `naturalKey` and `targetId` of an entry; none for a card without a UID. -/
def entryOf (listed : String × Card V) : Option (Text × String) :=
  ((uidOf v listed.2).filter fun uid => uid ≠ []).map fun uid => (uid, listed.1)

def listEntries : Writing V (List (Text × String)) := do
  ensureConnected
  let listed ← ask .list
  match listed.mapM (entryOf v) with
  | some entries => pure entries
  | none => .throw .cardWithoutUid

/-- `keys.set(uid, id)` -/
def setKey (keys : Keys) (uid : Text) (targetId : String) : Keys :=
  Function.update keys uid (some targetId)

def buildKeySnapshot : Writing V (Option Keys) := do
  match ← (listEntries v).attempt with
  | .ok entries => pure (some (entries.foldl (fun keys e => setKey keys e.1 e.2) fun _ => none))
  | .error (_ : ContactError) => pure none

def targetKeys : Writing V (Option Keys) := do
  let s ← Prog.read
  match s.keySnapshot with
  | some snapshot => pure snapshot
  | none =>
    let built ← buildKeySnapshot v
    Prog.modify fun s => { s with keySnapshot := some built }
    pure built

/-- `snapshot?.set(uid, id)` -/
def noteKey (uid : Text) (targetId : String) : Writing V Unit :=
  Prog.modify fun s =>
    { s with keySnapshot := s.keySnapshot.map fun keys => keys.map fun keys => setKey keys uid targetId }

def findContactByNaturalKey (naturalKey : Text) : Writing V (Option String) := do
  ensureConnected
  let listed ← ask .list
  pure ((listed.find? fun c => uidOf v c.2 = some naturalKey).map Prod.fst)

def uploadVcard (vcard : Text) : Writing V String := do
  let blobId ← ask (.upload vcard)
  if blobId = "" then .throw (.rejected "vCard blob upload returned no blobId") else pure blobId

def parseVcard (vcard : Text) : Writing V (Card V) := do
  let blobId ← uploadVcard vcard
  match ← ask (.parse blobId) with
  | .parsed card => pure card
  | .notParsable => .throw (.noCardParsed "the server could not parse it as a vCard")
  | .notFound => .throw (.noCardParsed "the server no longer has the uploaded blob")
  | .neither => .throw (.noCardParsed "the server returned neither a parsed card nor a reason")

def fingerprintOf (targetId : String) : Writing V (Option String) := do
  let card ← ask (.get targetId)
  pure (card.map v.digest)

/-- After a write: a card that cannot be read has no version. -/
def storedCardVersion (targetId : String) : Writing V (Option String) := do
  match ← (fingerprintOf v targetId).attempt with
  | .ok version => pure version
  | .error (_ : ContactError) => pure none

/-- Before a write: a read that fails refuses. -/
def cardVersionBefore (targetId : String) : Writing V (Option String) := do
  match ← (fingerprintOf v targetId).attempt with
  | .ok version => pure version
  | .error (.rejected e) => .throw (.unread e)
  | .error e => .throw e

/-- `snapshot?.get(uid) ?? (await this.findContactByNaturalKey(folderId, uid))` -/
def cardToRewrite (snapshot : Option Keys) (uid : Text) : Writing V (Option String) :=
  match snapshot.bind fun keys => keys uid with
  | some targetId => pure (some targetId)
  | none => findContactByNaturalKey v uid

/-- Read only where a version was recorded. -/
def versionToCompare (targetId : String) (expected : Option String) : Writing V (Option String) :=
  if expected.isSome then cardVersionBefore v targetId else pure none

def rewriteContact (folderId : String) (vcard uid : Text) (expected : Option String) :
    Writing V UpsertResult := do
  let snapshot ← targetKeys v
  match ← cardToRewrite v snapshot uid with
  | none => .throw .notOnTarget
  | some targetId =>
    let current ← versionToCompare v targetId expected
    if current.isSome ∧ current ≠ expected then pure { targetId, created := false, conflicted := true }
    else
      let card ← parseVcard vcard
      let response ← ask (.update targetId (filedIn v folderId card))
      match response.refused with
      | some type => .throw (.refused type)
      | none =>
        let targetVersion ← storedCardVersion v targetId
        pure { targetId, created := false, updated := true, targetVersion }

def createContact (folderId : String) (vcard uid : Text) : Writing V UpsertResult := do
  let card ← parseVcard vcard
  let response ← ask (.create (filedIn v folderId card))
  match response.created with
  | some createdId =>
    noteKey uid createdId
    let targetVersion ← storedCardVersion v createdId
    pure { targetId := createdId, created := true, targetVersion }
  | none =>
    if response.notCreated = some "alreadyExists" then
      match ← findContactByNaturalKey v uid with
      | some found =>
        noteKey uid found
        pure { targetId := found, created := false, adopted := true }
      | none => .throw (.refused "alreadyExists")
    else .throw (.refused (response.notCreated.getD "no id returned"))

/-- `snapshot ? snapshot.get(uid) : await this.findContactByNaturalKey(folderId, uid)` -/
def existingCard (snapshot : Option Keys) (uid : Text) : Writing V (Option String) :=
  match snapshot with
  | some keys => pure (keys uid)
  | none => findContactByNaturalKey v uid

def upsertContact (folderId : String) (vcard : Text) (options : UpsertOptions) :
    Writing V UpsertResult := do
  ensureConnected
  match Uid.jmapExtractUidFromVcard vcard with
  | none => .throw .noUid
  | some uid =>
    if options.overwrite then rewriteContact v folderId vcard uid options.expectedTargetVersion
    else
      let snapshot ← targetKeys v
      match ← existingCard v snapshot uid with
      | some existingId => pure { targetId := existingId, created := false, adopted := true }
      | none => createContact v folderId vcard uid

def removeItem (targetId : String) (expected : Option String) : Writing V RemovalResult := do
  match expected with
  | none => pure { unversioned := true }
  | some expected =>
    ensureConnected
    let current ← cardVersionBefore v targetId
    if current.isSome ∧ current ≠ some expected then pure { conflicted := true }
    else
      let response ← ask (.destroy targetId)
      match response.refused with
      | some type => .throw (.refused type)
      | none => if response.done then pure { kind := some .deleted } else .throw .notConfirmed

/-! ### One call after the other -/

inductive Call : Type
  | upsert (folderId : String) (vcard : Text) (options : UpsertOptions)
  | remove (targetId : String) (expected : Option String)

abbrev Call.Result : Call → Type
  | upsert .. => UpsertResult
  | remove .. => RemovalResult

/-- A call and what it came to. -/
abbrev Answered : Type := (call : Call) × Except ContactError call.Result

def perform : (call : Call) → Writing V call.Result
  | .upsert folderId vcard options => upsertContact v folderId vcard options
  | .remove targetId expected => removeItem v targetId expected

def performAll : List Call → Writing V (List Answered)
  | [] => pure []
  | call :: calls => do
    let outcome ← (perform v call).attempt
    let rest ← performAll calls
    pure (⟨call, outcome⟩ :: rest)

end

end Ownpace.JmapContact
