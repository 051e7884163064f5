/-
Ownpace/Sharing/Grant.lean

The rows of the sharing queue: what an inventory of grants makes of them
(`share-queue.ts`, `permission-map.ts`, `upsertShareGrants` in `ledger.ts`).

A grant becomes the row under its hash.  A hash that is there already only has its
placement refreshed, so what somebody decided about the row stays.  The digest is a
parameter; texts are lists of characters, and the database takes none with a NUL.
-/
import Ownpace.Store.Table

namespace Ownpace.Sharing

open Store

abbrev Text := List Char

/-- A text as the source writes it. -/
abbrev text (s : String) : Text := s.toList

/-! ### Grants -/

inductive PermissionSubject : Type
  | mailbox | calendar | driveItem
  deriving DecidableEq

def PermissionSubject.name : PermissionSubject → Text
  | mailbox => ['m', 'a', 'i', 'l', 'b', 'o', 'x']
  | calendar => ['c', 'a', 'l', 'e', 'n', 'd', 'a', 'r']
  | driveItem => ['d', 'r', 'i', 'v', 'e', '_', 'i', 't', 'e', 'm']

structure PermissionGrant where
  subject : PermissionSubject
  on : Text
  grantee : Option Text := none
  role : Text
  raw : Text
  viaLink : Option Bool := none
  itemKey : Option Text := none
  parentKey : Option Text := none
  isContainer : Option Bool := none
  deriving DecidableEq

/-- What a scan answers. -/
inductive PermissionListing : Type
  | listed (grants : List PermissionGrant)
  | notDiscoverable (reason : String) (reasonNl : Option String := none)

/-- A text, where the empty one says nothing. -/
def said (t : Text) : Option Text := if t = [] then none else some t

/-- Who holds it; the empty text is nobody. -/
def PermissionGrant.person (g : PermissionGrant) : Text := g.grantee.getD []

/-- Is it held by a link? -/
def PermissionGrant.isLink (g : PermissionGrant) : Bool := g.viaLink.getD false

/-! ### What a right becomes -/

/-- `/a|b/i.test(role)`, of words in lower case. -/
def mentions (words : List String) (role : Text) : Bool :=
  words.any fun word => (role.map Char.toLower).tails.any fun t => (text word).isPrefixOf t

inductive Verdict : Type
  | clean | manual
  deriving DecidableEq

structure PermissionMapping where
  verdict : Verdict
  target : String
  note : Option String := none

/-- `mapGrant`, in English. -/
def mapGrant (grant : PermissionGrant) : PermissionMapping :=
  match grant.subject with
  | .calendar =>
    { verdict := .clean
      target :=
        if mentions ["write", "owner", "editor"] grant.role then
          "a Nextcloud calendar share with write access"
        else "a Nextcloud calendar share, read-only"
      note := "CalDAV calendar sharing is the same idea on both sides; only the wording differs." }
  | .driveItem =>
    if grant.isLink then
      { verdict := .manual
        target :=
          "decide whether this link should exist at all after the move — a sharing link is a " ++
            "URL that works for whoever has it, so migrating it silently would carry that " ++
            "access across without anybody choosing to"
        note := "Not a right held by a person, so there is nothing to translate." }
    else
      { verdict := .clean
        target :=
          if mentions ["write", "owner", "editor"] grant.role then
            "a Nextcloud share with edit permission"
          else "a Nextcloud share, read-only"
        note := "A per-person file or folder share exists on both sides." }
  | .mailbox =>
    if mentions ["fullaccess"] grant.role then
      { verdict := .manual
        target := "give each person who needs the shared mailbox their own app password for it"
        note := "The target has no per-person mailbox ACL; app passwords are the convention, and " ++
          "they can be withdrawn individually." }
    else if mentions ["sendas", "sendonbehalf"] grant.role then
      { verdict := .manual
        target := "configure Send-As for this address on the target platform"
        note := "Send-As is a platform setting on the target, not a permission this tool can grant." }
    else
      { verdict := .manual
        target := "no equivalent is known for this right — decide what it should become"
        note := "This table has no entry for it, which is itself worth knowing before cutover." }

/-! ### Rows -/

section Identity

variable (digest : Text → Text)

/-- What is hashed: on what, who, at what level, and how. -/
def identityParts (g : PermissionGrant) : List Text :=
  [g.subject.name, g.on, g.person, g.role,
    if g.isLink then ['l', 'i', 'n', 'k'] else ['p', 'e', 'r', 's', 'o', 'n']]

def identityText (g : PermissionGrant) : Text := ['\x00'].intercalate (identityParts g)

def shareGrantHash (g : PermissionGrant) : Text := digest (identityText g)

/-- What the ledger's upsert is given. -/
structure ShareGrantValues where
  grantHash : Text
  subject : PermissionSubject
  onLabel : Text
  grantee : Option Text
  role : Text
  viaLink : Bool
  raw : Text
  verdict : Verdict
  verdictTarget : String
  itemKey : Option Text
  parentKey : Option Text
  isContainer : Option Bool
  deriving DecidableEq

def shareGrantRowFrom (g : PermissionGrant) : ShareGrantValues where
  grantHash := shareGrantHash digest g
  subject := g.subject
  onLabel := g.on
  grantee := g.grantee.bind said
  role := g.role
  viaLink := g.isLink
  raw := g.raw
  verdict := (mapGrant g).verdict
  verdictTarget := (mapGrant g).note.elim (mapGrant g).target fun note =>
    (mapGrant g).target ++ " — " ++ note
  itemKey := g.itemKey
  parentKey := g.parentKey
  isContainer := g.isContainer

end Identity

inductive ShareState : Type
  | isOpen | applied | doneManual | skipped
  deriving DecidableEq

/-- A row of `share_grant`, of one migration. -/
structure ShareRow extends ShareGrantValues where
  state : ShareState := .isOpen
  stateReason : Option String := none
  decidedBy : Option String := none
  decidedAt : Option Nat := none
  scannedAt : Nat
  deriving DecidableEq

abbrev ShareTable := Table Text ShareRow (fun r => r.grantHash)

/-- What was decided about a row. -/
def ShareRow.decision (r : ShareRow) : ShareState × Option String × Option String × Option Nat :=
  (r.state, r.stateReason, r.decidedBy, r.decidedAt)

def ShareRow.waits (r : ShareRow) : Bool := r.state = .isOpen && r.decidedAt.isNone

/-- No text of it has a NUL, which no column takes. -/
def ShareGrantValues.storable (v : ShareGrantValues) : Bool :=
  [v.grantHash, v.onLabel, v.grantee.getD [], v.role, v.raw, v.itemKey.getD [], v.parentKey.getD []].all
    fun t => !t.contains '\x00'

/-- The statement for one grant: `INSERT … ON CONFLICT DO UPDATE`. -/
def ShareTable.touch (t : ShareTable) (now : Nat) (v : ShareGrantValues) : ShareTable :=
  if (t.get v.grantHash).isSome then
    t.updateWhere (fun r => r.grantHash = v.grantHash && true)
      (fun r => { r with
        scannedAt := now, itemKey := v.itemKey, parentKey := v.parentKey, isContainer := v.isContainer })
      fun _ => rfl
  else t.insert { v with scannedAt := now }

inductive RefreshError : Type
  /-- `ShareListWithoutMigration` -/
  | withoutMigration
  /-- A text the database does not take. -/
  | unstorable
  /-- A scan threw. -/
  | scan (message : String)
  deriving DecidableEq

/-- The loop of `upsertShareGrants`, with how many rows wait so far. -/
def upsertRows (now : Nat) : List ShareGrantValues → Nat → ShareTable → Except RefreshError Nat × ShareTable
  | [], created, t => (.ok created, t)
  | v :: vs, created, t =>
    if v.storable then
      upsertRows now vs
        (created + if ((t.touch now v).get v.grantHash).any ShareRow.waits then 1 else 0) (t.touch now v)
    else (.error .unstorable, t)

def upsertShareGrants (migration : Bool) (now : Nat) (grants : List ShareGrantValues) (t : ShareTable) :
    Except RefreshError Nat × ShareTable :=
  if migration then upsertRows now grants 0 t else (.error .withoutMigration, t)

/-! ### A rescan -/

structure RefreshShareGrantsDeps where
  /-- Is there a migration to write a list for? -/
  migration : Bool
  /-- What each scan answers, or throws. -/
  scans : List (Except String PermissionListing)
  delegationReason : String
  delegationReasonNl : Option String := none

structure RefreshShareGrantsResult where
  openRows : Nat
  blindSpots : List String
  blindSpotsNl : List String

def PermissionListing.grants : PermissionListing → List PermissionGrant
  | .listed grants => grants
  | .notDiscoverable .. => []

def PermissionListing.blindSpot : PermissionListing → Option (String × String)
  | .listed _ => none
  | .notDiscoverable reason reasonNl => some (reason, reasonNl.getD reason)

/-- The grants of scans that answered, one scan after the other. -/
def inventory (listings : List PermissionListing) : List PermissionGrant := listings.flatMap (·.grants)

def refreshShareGrants (digest : Text → Text) (deps : RefreshShareGrantsDeps) (now : Nat) (t : ShareTable) :
    Except RefreshError RefreshShareGrantsResult × ShareTable :=
  match deps.scans.mapM id with
  | .error message => (.error (.scan message), t)
  | .ok listings =>
    let spots := (deps.delegationReason, deps.delegationReasonNl.getD deps.delegationReason) ::
      listings.filterMap PermissionListing.blindSpot
    let upserted := upsertShareGrants deps.migration now
      ((inventory listings).map (shareGrantRowFrom digest)) t
    (upserted.1.map fun openRows => ⟨openRows, spots.map (·.1), spots.map (·.2)⟩, upserted.2)

/-! ### The grants of a drive -/

structure DrivePermission where
  type : Option String := none
  role : Option Text := none
  emailAddress : Option Text := none
  domain : Option Text := none
  displayName : Option Text := none
  deriving DecidableEq

structure SharedFile where
  id : Text
  name : Text
  mimeType : Option String := none
  parents : List Text := []
  permissions : List DrivePermission := []

def DRIVE_FOLDER_MIME : String := "application/vnd.google-apps.folder"

/-- The grant of one permission; `stringify` writes the permission and its file as JSON. -/
def SharedFile.grant (stringify : Text → DrivePermission → Text) (file : SharedFile)
    (perm : DrivePermission) : PermissionGrant where
  subject := .driveItem
  on := file.name
  role := perm.role.getD (text "unknown")
  grantee := ((perm.emailAddress <|> perm.domain) <|>
    if perm.type = some "anyone" then none else perm.displayName).bind said
  viaLink := if perm.type = some "anyone" then some true else none
  raw := stringify file.id perm
  itemKey := some file.id
  parentKey := file.parents.head?.bind said
  isContainer := file.mimeType.map fun mime => mime = DRIVE_FOLDER_MIME

def SharedFile.shares (file : SharedFile) : List DrivePermission :=
  file.permissions.filter fun perm => perm.role ≠ some (text "owner")

/-- The loop over the files of a page, with how many are shared so far. -/
def grantsOfFiles (stringify : Text → DrivePermission → Text) (maxItems : Nat) :
    Nat → List SharedFile → Option (List PermissionGrant × Nat)
  | shared, [] => some ([], shared)
  | shared, file :: files =>
    if file.shares = [] then grantsOfFiles stringify maxItems shared files
    else if maxItems < shared + 1 then none
    else (grantsOfFiles stringify maxItems (shared + 1) files).map fun found =>
      (file.shares.map (file.grant stringify) ++ found.1, found.2)

/-- The loop over pages, each of which may throw. -/
def grantsOfPages (stringify : Text → DrivePermission → Text) (maxItems : Nat) :
    Nat → Nat → List (Except String (List SharedFile)) → Except String (List PermissionGrant)
  | _, _, [] => .ok []
  | pages, shared, page :: rest =>
    if 100 < pages + 1 then
      .error ("the Drive listing did not stop paging after 100 pages — refusing to report a " ++
        "partial set as complete")
    else
      page.bind fun files =>
        match grantsOfFiles stringify maxItems shared files with
        | none =>
          .error ("more than " ++ toString maxItems ++ " owned items are shared, which is more than " ++
            "this report can inventory. The list would be partial, and a partial list read as " ++
            "complete is how a share nobody knew about survives a cutover")
        | some (grants, shared) =>
          (grantsOfPages stringify maxItems (pages + 1) shared rest).map (grants ++ ·)

/-- `listOwnedShareGrants`, of the pages the drive answers; `notDiscoverable` is
`permissionsNotDiscoverable`. -/
def listOwnedShareGrants (stringify : Text → DrivePermission → Text) (notDiscoverable : String → String)
    (maxItems : Nat) (pages : List (Except String (List SharedFile))) : PermissionListing :=
  match grantsOfPages stringify maxItems 0 0 pages with
  | .error reason => .notDiscoverable (notDiscoverable reason)
  | .ok grants => .listed grants

end Ownpace.Sharing
