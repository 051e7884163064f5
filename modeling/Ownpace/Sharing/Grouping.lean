/-
Ownpace/Sharing/Grouping.lean

The sharing rows folded into folders (`share-grouping.ts`).

The rows that say where their thing sits become one item for each thing, the items
one bucket for each container and grant set.  A bucket that carries the grants of its
container's reference is a group; of another each item stands alone, and so does what
no row places.  A `Map` filled in a loop is `filed`; how two texts compare in a
person's language (`localeCompare`) is a parameter.
-/
import Ownpace.Calendar.Joined
import Ownpace.Sharing.Grant
import Ownpace.Store.Filed

namespace Ownpace.Sharing

open Calendar Store

structure GroupableGrant where
  id : Text
  itemKey : Option Text := none
  parentKey : Option Text := none
  isContainer : Option Bool := none
  onLabel : Text
  grantee : Option Text := none
  role : Text
  deriving DecidableEq

/-! ### Grant sets -/

def LINK_GRANTEE : Text := ['(', 'l', 'i', 'n', 'k', ')']

/-- `grantee:role`. -/
def GroupableGrant.grant (g : GroupableGrant) : Text :=
  g.grantee.getD LINK_GRANTEE ++ ':' :: g.role

def grantSet (grants : List GroupableGrant) : List Text :=
  sorted (grants.map GroupableGrant.grant).eraseDups

structure Deviation where
  deviates : Bool
  extra : List Text
  missing : List Text

def deviation (reference candidate : List Text) : Deviation :=
  let extra := sorted (candidate.eraseDups.filter fun g => !reference.eraseDups.contains g)
  let missing := sorted (reference.eraseDups.filter fun g => !candidate.eraseDups.contains g)
  { deviates := decide (extra.length > 0) || decide (missing.length > 0), extra, missing }

/-! ### What the page shows -/

structure ShareGroup where
  parentKey : Text
  label : Option Text
  grants : List Text
  sample : Option Text
  items : Nat
  rowIds : List Text
  containerShared : Bool
  deriving DecidableEq

inductive StandaloneReason : Type
  | unplaced | deviates
  deriving DecidableEq

inductive ComparedWith : Type
  | folder | siblings
  deriving DecidableEq

structure ShareStandalone where
  rowIds : List Text
  itemKey : Option Text
  label : Text
  grants : List Text
  reason : StandaloneReason
  comparedWith : Option ComparedWith := none
  extra : Option (List Text) := none
  missing : Option (List Text) := none
  parentKey : Option Text := none
  deriving DecidableEq

structure ShareGrouping where
  groups : List ShareGroup
  standalone : List ShareStandalone
  deriving DecidableEq

/-! ### One entry for each thing -/

/-- Does the row say what it is on and where that sits?  The empty text says nothing. -/
def GroupableGrant.isPlaced (row : GroupableGrant) : Bool :=
  row.itemKey.getD [] ≠ [] && row.parentKey.getD [] ≠ []

/-- Every grant on one item; a placed row names a container. -/
structure Item where
  itemKey : Text
  label : Text
  parentKey : Text
  isContainer : Option Bool
  rowIds : List Text
  grants : List Text
  deriving DecidableEq

/-- The item of its rows, of which `first` came first. -/
def itemOf (itemKey : Text) (first : GroupableGrant) (list : List GroupableGrant) : Item where
  itemKey
  label := first.onLabel
  parentKey := first.parentKey.getD []
  isContainer := first.isContainer
  rowIds := list.map GroupableGrant.id
  grants := grantSet list

def placed (rows : List GroupableGrant) : List GroupableGrant :=
  rows.filter GroupableGrant.isPlaced

def unplaced (rows : List GroupableGrant) : List GroupableGrant :=
  rows.filter fun row => !row.isPlaced

def itemsOf (rows : List GroupableGrant) : List Item :=
  entries itemOf (filed (fun row => row.itemKey.getD []) (placed rows))

/-! ### Buckets -/

/-- The containers something in this set sits inside. -/
def heads (items : List Item) : List Text := items.map Item.parentKey

def bucketKeyFor (items : List Item) (item : Item) : Text :=
  if item.isContainer = some true && (heads items).contains item.itemKey then item.itemKey
  else item.parentKey

/-- The text a bucket is filed under. -/
def bucketText (key : Text × List Text) : Text :=
  key.1 ++ '\x00' :: ['\x01'].intercalate key.2

structure Bucket where
  parentKey : Text
  grants : List Text
  items : List Item
  deriving DecidableEq

def Bucket.key (bucket : Bucket) : Text × List Text := (bucket.parentKey, bucket.grants)

/-- The container and the grants an item is filed by. -/
def pairOf (items : List Item) (item : Item) : Text × List Text :=
  (bucketKeyFor items item, item.grants)

def bucketsOf (items : List Item) : List Bucket :=
  entries (fun _ first list =>
      { parentKey := bucketKeyFor items first, grants := first.grants, items := list })
    (filed (fun item => bucketText (pairOf items item)) items)

/-! ### What a bucket is compared with -/

def containerItem (items : List Item) (key : Text) : Option Item :=
  items.find? fun item => item.isContainer = some true && item.itemKey = key

/-- A strictly larger bucket takes its container's place. -/
def keepLargest (seen : Text → Option Bucket) (bucket : Bucket) : Text → Option Bucket :=
  if (seen bucket.parentKey).all fun s => decide (bucket.items.length > s.items.length) then
    Function.update seen bucket.parentKey (some bucket)
  else seen

def largestPerParent (buckets : List Bucket) : Text → Option Bucket :=
  buckets.foldl keepLargest fun _ => none

/-- The container's own grants when it is itself shared, else those of the largest bucket. -/
def reference (items : List Item) (parentKey : Text) : Option (List Text) :=
  match containerItem items parentKey with
  | some folder => some folder.grants
  | none => (largestPerParent (bucketsOf items) parentKey).map Bucket.grants

def comparedWith (items : List Item) (parentKey : Text) : Option ComparedWith :=
  if (containerItem items parentKey).isSome then some .folder
  else if (reference items parentKey).isSome then some .siblings
  else none

/-- A bucket's grants beside the reference of its container. -/
def diffOf (items : List Item) (key : Text × List Text) : Option Deviation :=
  (reference items key.1).map fun reference => deviation reference key.2

/-- `!diff || !diff.deviates`. -/
def agrees (items : List Item) (key : Text × List Text) : Bool :=
  (diffOf items key).all fun diff => !diff.deviates

/-! ### Groups and rows that stand alone -/

def groupOf (items : List Item) (bucket : Bucket) : ShareGroup where
  parentKey := bucket.parentKey
  label := (containerItem items bucket.parentKey).map Item.label
  sample := (sorted ((bucket.items.filter fun i => i.itemKey ≠ bucket.parentKey).map
    Item.label)).head?
  grants := bucket.grants
  items := bucket.items.length
  rowIds := sorted (bucket.items.flatMap Item.rowIds)
  containerShared := (containerItem items bucket.parentKey).isSome

/-- An item of a bucket that deviates. -/
def deviatingOf (items : List Item) (key : Text × List Text) (item : Item) :
    ShareStandalone where
  rowIds := sorted item.rowIds
  itemKey := some item.itemKey
  label := item.label
  grants := item.grants
  reason := .deviates
  comparedWith := comparedWith items key.1
  extra := (diffOf items key).map Deviation.extra
  missing := (diffOf items key).map Deviation.missing
  parentKey := some key.1

def groupsOf (items : List Item) : List ShareGroup :=
  ((bucketsOf items).filter fun bucket => agrees items bucket.key).map (groupOf items)

def deviatingsOf (items : List Item) : List ShareStandalone :=
  ((bucketsOf items).filter fun bucket => !agrees items bucket.key).flatMap fun bucket =>
    bucket.items.map (deviatingOf items bucket.key)

/-- `row.itemKey ?? row:id`, behind a NUL. -/
def unplacedKey (row : GroupableGrant) : Text :=
  row.itemKey.getD ('\x00' :: 'r' :: 'o' :: 'w' :: ':' :: row.id)

def unplacedOf (first : GroupableGrant) (list : List GroupableGrant) : ShareStandalone where
  rowIds := sorted (list.map GroupableGrant.id)
  itemKey := first.itemKey.bind said
  label := first.onLabel
  grants := grantSet list
  reason := .unplaced

def unplacedsOf (rows : List GroupableGrant) : List ShareStandalone :=
  entries (fun _ => unplacedOf) (filed unplacedKey (unplaced rows))

/-! ### The screen's order -/

section Order

variable (localeCompare : Text → Text → Int)

def groupOrder (a b : ShareGroup) : Int :=
  orElse (b.items - a.items) (localeCompare a.parentKey b.parentKey)

/-- Every entry has a row. -/
def standaloneOrder (a b : ShareStandalone) : Int :=
  orElse (localeCompare a.label b.label) (localeCompare (a.rowIds.headD []) (b.rowIds.headD []))

def groupShareGrants (rows : List GroupableGrant) : ShareGrouping where
  groups := sortBy (groupOrder localeCompare) (groupsOf (itemsOf rows))
  standalone := sortBy (standaloneOrder localeCompare)
    (deviatingsOf (itemsOf rows) ++ unplacedsOf rows)

end Order

end Ownpace.Sharing
