/-
Ownpace/GoogleDrive/Listing.lean

The paths of a Google Drive, as `GoogleDriveSource` derives them: the folder walk
(`listFolders`), a folder's files (`listSince`), its keys with the memo that
`listSince` leaves (`listKeys`), the way back from a path to a folder
(`resolveFolderId`), and the climb from a binned file up to the root
(`listTrashedPaths`).

An `Option` is none where the source throws.
-/
import Mathlib.Data.List.Dedup
import Ownpace.GoogleDrive.Tree

namespace Ownpace.GoogleDrive

/-! ### Paths -/

/-- `folderPath ? folderPath + '/' + name : name` -/
def childPath (folderPath name : Text) : Text :=
  if folderPath = [] then name else folderPath ++ '/' :: name

structure FileFolder where
  path : Text
  name : Option Text
  deriving DecidableEq

/-- `walk` of `listFolders`. -/
def Children.walk : Children → Text → List FileFolder
  | .nil, _ => []
  | .file _ rest, before => rest.walk before
  | .folder g inside rest, before =>
    if g.trashed then rest.walk before
    else
      let path := childPath before g.name
      ⟨path, some g.name⟩ :: (inside.walk path ++ rest.walk before)

def Drive.listFolders (d : Drive) : List FileFolder := ⟨[], none⟩ :: d.children.walk []

/-- `children.find((c) => c.name === segment)`, segment after segment. -/
def Node.follow : Node → List Text → Option Node
  | n, [] => some n
  | n, segment :: rest =>
    (n.children.folders.find? fun c => c.1.name = segment).bind fun c =>
      follow ⟨c.1.id, c.2⟩ rest

def Drive.resolveFolderId (d : Drive) (path : Text) : Option Node :=
  if path = [] then some d.root else d.root.follow (path.splitOn '/')

/-! ### Listing a folder -/

structure RawFileItem where
  path : Text
  name : Text
  formerPaths : List Text
  sourceRef : Id
  deriving DecidableEq

/-- `formerPathsOf`, a set in the source. -/
def Policies.formerPathsOf (p : Policies) (file : DriveFile) (folderPath current : Text) :
    List Text :=
  if isNativeEditorFile file.mimeType then
    let inForce := p.policyFor file.mimeType
    ((EVERY_POLICY.filter (· ≠ inForce)).map fun policy =>
      childPath folderPath (exportedNameUnder file policy)).filter (· ≠ current)
  else []

def Policies.toFileItem (p : Policies) (folderPath : Text) (file : DriveFile) : RawFileItem :=
  let path := childPath folderPath (p.exportedName file)
  ⟨path, p.exportedName file, p.formerPathsOf file folderPath path, file.id⟩

/-- `lastListing`: the folder `listSince` was asked for last, and its keys. -/
structure Source where
  lastListing : Option (Text × List Text)

def Drive.itemsOf (d : Drive) (p : Policies) (path : Text) : Option (List RawFileItem) :=
  (d.resolveFolderId path).map fun n => n.children.files.map (p.toFileItem path)

def Drive.listSince (d : Drive) (p : Policies) (s : Source) (path : Text) :
    Option (List RawFileItem) × Source :=
  match d.itemsOf p path with
  | none => (none, s)
  | some items => (some items, ⟨some (path, items.map (·.path))⟩)

/-- The listing that `listKeys` makes for itself goes by `f.name`. -/
def Drive.keysOf (d : Drive) (path : Text) : Option (List Text) :=
  (d.resolveFolderId path).map fun n => n.children.files.map fun f => childPath path f.name

/-- The memo is consumed whatever it is of. -/
def Drive.listKeys (d : Drive) (s : Source) (path : Text) : Option (List Text) × Source :=
  match s.lastListing with
  | some (memo, keys) =>
    if memo = path then (some keys, ⟨none⟩) else (d.keysOf path, ⟨none⟩)
  | none => (d.keysOf path, ⟨none⟩)

inductive Call where
  | listSince (path : Text)
  | listKeys (path : Text)

def Drive.call (d : Drive) (p : Policies) (s : Source) : Call → Source
  | .listSince path => (d.listSince p s path).2
  | .listKeys path => (d.listKeys s path).2

def Drive.calls (d : Drive) (p : Policies) : List Call → Source → Source
  | [], s => s
  | c :: rest, s => d.calls p rest (d.call p s c)

/-- Every folder of `listFolders` with the items `listSince` gives of it. -/
def Drive.listing (d : Drive) (p : Policies) : List (FileFolder × RawFileItem) :=
  d.listFolders.flatMap fun folder =>
    ((d.itemsOf p folder.path).getD []).map fun item => (folder, item)

/-! ### The bin -/

/-- What `files/{id}?fields=id,name,parents` answers for a folder. -/
structure FolderMeta where
  id : Id
  name : Text
  parent : Option Id

def Children.metas : Children → Id → List FolderMeta
  | .nil, _ => []
  | .file _ rest, parent => rest.metas parent
  | .folder g inside rest, parent =>
    ⟨g.id, g.name, some parent⟩ :: (inside.metas g.id ++ rest.metas parent)

/-- `trashed=true`, of each file with its parent: a file is in the bin by itself
or with a folder above it. -/
def Children.binned : Children → (above : Bool) → Id → List (DriveFile × Option Id)
  | .nil, _, _ => []
  | .file f rest, above, parent =>
    if f.trashed || above then (f, some parent) :: rest.binned above parent
    else rest.binned above parent
  | .folder g inside rest, above, parent =>
    inside.binned (g.trashed || above) g.id ++ rest.binned above parent

inductive OriginalPath where
  | path (path : Text)
  | outOfScope
  | unnameable
  deriving DecidableEq

/-- The loop of `originalPathOf`.  The segments, pushed child-upward and reversed
in the source, read root-downward as they are here. -/
def Drive.climb (d : Drive) (name : Text) : Nat → Option Id → List Text → OriginalPath
  | 0, _, _ => .unnameable
  | _ + 1, none, _ => .outOfScope
  | depth + 1, some current, segments =>
    if current = d.rootId then .path (childPath (['/'].intercalate segments) name)
    else
      match (d.children.metas d.rootId).find? fun got => got.id = current with
      | none => .unnameable
      | some got => d.climb name depth got.parent (got.name :: segments)

def Drive.originalPathOf (d : Drive) (file : DriveFile) (parent : Option Id) : OriginalPath :=
  match parent with
  | none => .unnameable
  | some parent => d.climb file.name 64 (some parent) []

/-- The files of the bin, each with what `originalPathOf` makes of it. -/
def Drive.binnedPaths (d : Drive) : List (Id × OriginalPath) :=
  (d.children.binned false d.rootId).map fun b => (b.1.id, d.originalPathOf b.1 b.2)

structure TrashListing where
  paths : List Text
  unnameable : Nat

def OriginalPath.path? : OriginalPath → Option Text
  | .path p => some p
  | _ => none

def Drive.listTrashedPaths (d : Drive) : TrashListing where
  paths := (d.binnedPaths.filterMap (·.2.path?)).dedup
  unnameable := d.binnedPaths.countP (·.2 = .unnameable)

/-- The items that are chosen go to the bin. -/
def Children.bin (chosen : Id → Bool) : Children → Children
  | .nil => .nil
  | .file f rest => .file { f with trashed := f.trashed || chosen f.id } (rest.bin chosen)
  | .folder g inside rest =>
    .folder { g with trashed := g.trashed || chosen g.id } (inside.bin chosen) (rest.bin chosen)

theorem Children.ids_bin (chosen : Id → Bool) (c : Children) : (c.bin chosen).ids = c.ids := by
  induction c with
  | nil => rfl
  | file f rest ih =>
      show f.id :: (rest.bin chosen).ids = f.id :: rest.ids
      rw [ih]
  | folder g inside rest ihi ih =>
      show g.id :: ((inside.bin chosen).ids ++ (rest.bin chosen).ids) =
        g.id :: (inside.ids ++ rest.ids)
      rw [ihi, ih]

def Drive.bin (chosen : Id → Bool) (d : Drive) : Drive where
  rootId := d.rootId
  children := d.children.bin chosen
  distinct := by
    rw [Children.ids_bin]
    exact d.distinct

end Ownpace.GoogleDrive
