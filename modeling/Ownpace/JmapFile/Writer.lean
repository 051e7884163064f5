/-
Ownpace/JmapFile/Writer.lean

The JMAP file writer (`jmap-file-target.ts`): the tree it reads once for all its items, the
directories it makes, and `upsertFile`.

The promise of a tree is a number: what became of it is in `reads`, where whoever asked for
it remembers what was created since.  A node's fingerprint and a blob are opaque.
-/
import Mathlib.Data.List.DropRight
import Mathlib.Logic.Function.Basic
import Ownpace.Await.Among
import Ownpace.Await.Exec
import Ownpace.JmapFile.Account

namespace Ownpace.JmapFile

open Await

/-! ### Paths -/

/-- `replace(/\\/g, '/').replace(/^\/+|\/+$/g, '')` -/
def normalizeRelativePath (path : Text) : Text :=
  ((path.map fun c => if c = '\\' then '/' else c).dropWhile (· = '/')).rdropWhile (· = '/')

/-- `split('/').filter((s) => s !== '')` -/
def segments (path : Text) : List Text := (path.splitOn '/').filter (· ≠ [])

/-- Up to the last slash; `''` at the root. -/
def parentPathOf (path : Text) : Text := ((path.reverse.dropWhile (· ≠ '/')).drop 1).reverse

def lastSegment (path : Text) : Text := (segments path).getLast?.getD path

/-! ### The account and the writer -/

/-- What became of a promise of a tree. -/
inductive Reading : Type
  | pending
  | unreadable
  | tree (snapshot : TreeSnapshot)

structure UpsertResult where
  targetId : String
  created : Bool
  adopted : Bool := false
  updated : Bool := false
  conflicted : Bool := false
  targetVersion : Option String := none
  deriving DecidableEq

structure World where
  account : Account
  reads : List Reading := []
  treeSnapshot : Option Nat := none
  /-- The nodes that this writer's requests created. -/
  made : List FileNode := []
  /-- What was answered, and for which natural key. -/
  answers : List (Text × UpsertResult) := []

/-! ### What is awaited -/

inductive FileOp : Type
  | connect
  -- `FileNode/get` of all nodes, and of one: its fingerprint.
  | listNodes
  | getNode (targetId : String)
  | upload
  -- `FileNode/set`
  | createNode (name : Text) (parentId : Option String) (blobId : Option String)
  | updateNode (targetId : String) (blobId : String)
  -- a promise of a tree; is there one?
  | settled (read : Nat)
  deriving DecidableEq

structure CreateResponse where
  created : Option String := none
  /-- The type of the refusal. -/
  notCreated : Option String := none
  deriving DecidableEq

abbrev FileOp.Reply : FileOp → Type
  | connect => Unit
  | listNodes => List FileNode
  | getNode _ => Option String
  | upload => String
  | createNode .. => CreateResponse
  | updateNode .. => Option String
  | settled _ => Bool

abbrev FileOp.Ans (o : FileOp) : Type := Except String o.Reply

inductive FileError : Type
  | emptyPath
  | directoryInTheWay (path : Text)
  | fileInTheWay (path : Text)
  | noDirectory (path : Text) (type : Option String)
  | refused (path : Text) (type : Option String)
  | noContent (path : Text)
  | tooLarge (path : Text)
  | notOnTarget (path : Text)
  | notUpdated (targetId : String) (type : String)
  /-- The node could not be read to compare it with the version recorded. -/
  | unread (targetId : String)
  | noTree (e : TreeError)
  | rejected (e : String)
  deriving DecidableEq

abbrev Filing (α : Type) : Type := Prog World FileOp FileOp.Ans FileError α

def ask (o : FileOp) : Filing o.Reply := Prog.awaitWith .rejected o

/-! ### The tree -/

def ensureConnected : Filing Unit := ask .connect

def readNow : Filing TreeSnapshot :=
  ensureConnected >>= fun _ =>
  ask .listNodes >>= fun list =>
  .ofExcept ((readTree list).mapError .noTree)

/-- A tree is read where none is, or is being. -/
def World.begun (s : World) : World :=
  match s.treeSnapshot with
  | some _ => s
  | none => { s with reads := s.reads ++ [.pending], treeSnapshot := some s.reads.length }

def World.settle (read : Nat) (ended : Except FileError TreeSnapshot) (s : World) : World :=
  { s with reads := s.reads.set read (ended.toOption.elim .unreadable .tree) }

/-- The promise, once it is settled: none where the account could not be enumerated. -/
def awaitRead (read : Nat) : Filing (Option Nat) :=
  ask (.settled read) >>= fun isTree => .ret (if isTree then some read else none)

/-- The promise there is, or the one begun now. -/
def joinTree (s : World) : Filing (Option Nat) :=
  match s.treeSnapshot with
  | some read => awaitRead read
  | none =>
    readNow.attempt >>= fun (ended : Except FileError TreeSnapshot) =>
    Prog.modify (World.settle s.reads.length ended) >>= fun _ =>
    awaitRead s.reads.length

/-- `this.treeSnapshot ??= this.readTree().catch(...)` -/
def tree : Filing (Option Nat) := .sync World.begun joinTree

def invalidateTree : Filing Unit := Prog.modify fun s => { s with treeSnapshot := none }

/-- `snapshot` and what is remembered in it by now. -/
def World.snapshotOf (s : World) (snapshot : Option Nat) : Option TreeSnapshot :=
  (snapshot.bind fun read => s.reads[read]?).bind fun
    | .tree t => some t
    | .pending => none
    | .unreadable => none

def idAt (entries : List (Text × KeyedNode)) (path : Text) : Option String :=
  (entries.find? fun e => e.1 = path).map (·.2.id)

/-- `snapshot?.files.get(path)?.id` -/
def World.fileAt (s : World) (snapshot : Option Nat) (path : Text) : Option String :=
  (s.snapshotOf snapshot).bind fun t => idAt t.files path

def World.directoryAt (s : World) (snapshot : Option Nat) (path : Text) : Option String :=
  (s.snapshotOf snapshot).bind fun t => idAt t.directories path

def TreeSnapshot.remember (path : Text) (node : KeyedNode) (kind : NodeKind) (t : TreeSnapshot) :
    TreeSnapshot where
  nodes := Function.update t.nodes node.id (some node.toFileNodeRef)
  files := if kind = .directory then t.files else (path, node) :: t.files
  directories := if kind = .directory then (path, node) :: t.directories else t.directories

def Reading.remember (path : Text) (node : KeyedNode) (kind : NodeKind) : Reading → Reading
  | .tree t => .tree (t.remember path node kind)
  | .pending => .pending
  | .unreadable => .unreadable

def NodeKind.nodeType : NodeKind → String
  | .file => "file"
  | .directory => "directory"

def KeyedNode.of (id : String) (name : Text) (parentId : Option String) (kind : NodeKind) :
    KeyedNode where
  id := id
  name := name
  parentId := parentId
  nodeType := some kind.nodeType

/-- Into the snapshot that was asked, whether or not it is still the writer's. -/
def remember (path : Text) (id : String) (name : Text) (parentId : Option String) (kind : NodeKind)
    (snapshot : Option Nat) : Filing Unit :=
  match snapshot with
  | none => .ret ()
  | some read => Prog.modify fun s =>
      { s with reads := s.reads.modify read (.remember path (.of id name parentId kind) kind) }

/-! ### Directories -/

def createDirectory (name : Text) (parentId : Option String) (fullPath : Text)
    (snapshot : Option Nat) : Filing String :=
  ask (.createNode name parentId none) >>= fun response =>
  match response.created with
  | some id => remember fullPath id name parentId .directory snapshot >>= fun _ => .ret id
  | none =>
    if response.notCreated = some "alreadyExists" then
      invalidateTree >>= fun _ =>
      tree >>= fun again =>
      Prog.read >>= fun s =>
      match s.directoryAt again fullPath with
      | some id => .ret id
      | none => .throw (.noDirectory fullPath response.notCreated)
    else .throw (.noDirectory fullPath response.notCreated)

/-- The directory the snapshot has, or one made now. -/
def directoryOf (existing : Option String) (segment : Text) (parentId : Option String) (walked : Text)
    (snapshot : Option Nat) : Filing String :=
  match existing with
  | some id => .ret id
  | none => createDirectory segment parentId walked snapshot

/-- The loop of `ensureDirectoryPath`; no parent is the account's root. -/
def ensureSegments : List Text → Option String → Text → Filing (Option String)
  | [], parentId, _ => .ret parentId
  | segment :: rest, parentId, walked =>
    let walked := if walked = [] then segment else walked ++ '/' :: segment
    tree >>= fun snapshot =>
    Prog.read >>= fun s =>
    if (s.fileAt snapshot walked).isSome then .throw (.fileInTheWay walked)
    else
      directoryOf (s.directoryAt snapshot walked) segment parentId walked snapshot >>= fun id =>
      ensureSegments rest (some id) walked

def ensureDirectoryPath (path : Text) : Filing (Option String) :=
  ensureSegments (segments path) none []

/-! ### Files -/

structure RawFileItem where
  path : Text
  /-- Of the bytes, or of the stream handed over; none where there is neither. -/
  sizeBytes : Option Nat

structure UpsertOptions where
  overwrite : Bool := false
  expectedTargetVersion : Option String := none

/-- A fresh read. -/
def findFileByNaturalKey (naturalKey : Text) : Filing (Option String) :=
  ensureConnected >>= fun _ =>
  readNow >>= fun t => .ret (idAt t.files (normalizeRelativePath naturalKey))

/-- A failed read is no version. -/
def storedNodeVersion (targetId : String) : Filing (Option String) :=
  (ask (.getNode targetId)).attempt >>= fun (version : Except FileError (Option String)) =>
  .ret (version.toOption.bind id)

/-- A read that fails refuses. -/
def nodeVersionBefore (targetId : String) : Filing (Option String) :=
  (ask (.getNode targetId)).attempt >>= fun (version : Except FileError (Option String)) =>
  .ofExcept (version.mapError fun _ => .unread targetId)

/-- `maxSizeUpload`, where the session says it. -/
def refuseAboveServerLimit (maxSizeUpload : Option Nat) (naturalKey : Text) (raw : RawFileItem) :
    Filing Unit :=
  match raw.sizeBytes, maxSizeUpload with
  | some sizeBytes, some limit => if sizeBytes > limit then .throw (.tooLarge naturalKey) else .ret ()
  | _, _ => .ret ()

variable (maxSizeUpload : Option Nat)

def sendBytes (targetId : String) (naturalKey : Text) (raw : RawFileItem) : Filing UpsertResult :=
  if raw.sizeBytes.isNone then .throw (.noContent naturalKey)
  else
    refuseAboveServerLimit maxSizeUpload naturalKey raw >>= fun _ =>
    ask .upload >>= fun blobId =>
    ask (.updateNode targetId blobId) >>= fun failure =>
    match failure with
    | some type => .throw (.notUpdated targetId type)
    | none =>
      storedNodeVersion targetId >>= fun targetVersion =>
      .ret { targetId, created := false, updated := true, targetVersion }

/-- `snapshot?.files.get(naturalKey)?.id ?? (await this.findFileByNaturalKey('', naturalKey))` -/
def targetOf (known : Option String) (naturalKey : Text) : Filing (Option String) :=
  match known with
  | some id => .ret (some id)
  | none => findFileByNaturalKey naturalKey

def rewriteFile (raw : RawFileItem) (naturalKey : Text) (expectedTargetVersion : Option String) :
    Filing UpsertResult :=
  tree >>= fun snapshot =>
  Prog.read >>= fun s =>
  targetOf (s.fileAt snapshot naturalKey) naturalKey >>= fun targetId =>
  match targetId with
  | none => .throw (.notOnTarget naturalKey)
  | some targetId =>
    match expectedTargetVersion with
    | none => sendBytes maxSizeUpload targetId naturalKey raw
    | some expected =>
      nodeVersionBefore targetId >>= fun current =>
      if current.isSome && current ≠ some expected then
        .ret { targetId, created := false, conflicted := true }
      else sendBytes maxSizeUpload targetId naturalKey raw

def adopt (targetId : String) : UpsertResult := { targetId, created := false, adopted := true }

/-- The `FileNode/set` of the file, and what follows. -/
def createFile (naturalKey : Text) (parentId : Option String) (snapshot : Option Nat) :
    Filing UpsertResult :=
  ask .upload >>= fun blobId =>
  ask (.createNode (lastSegment naturalKey) parentId (some blobId)) >>= fun response =>
  match response.created with
  | some createdId =>
    remember naturalKey createdId (lastSegment naturalKey) parentId .file snapshot >>= fun _ =>
    storedNodeVersion createdId >>= fun targetVersion =>
    .ret { targetId := createdId, created := true, targetVersion }
  | none =>
    if response.notCreated = some "alreadyExists" then
      invalidateTree >>= fun _ =>
      findFileByNaturalKey naturalKey >>= fun found =>
      match found with
      | some found => .ret (adopt found)
      | none => .throw (.refused naturalKey response.notCreated)
    else .throw (.refused naturalKey response.notCreated)

def writeFile (naturalKey : Text) (raw : RawFileItem) (snapshot : Option Nat) : Filing UpsertResult :=
  refuseAboveServerLimit maxSizeUpload naturalKey raw >>= fun _ =>
  ensureDirectoryPath (parentPathOf naturalKey) >>= fun parentId =>
  if raw.sizeBytes.isNone then .throw (.noContent naturalKey)
  else createFile naturalKey parentId snapshot

def upsertFile (raw : RawFileItem) (options : UpsertOptions) : Filing UpsertResult :=
  ensureConnected >>= fun _ =>
  let naturalKey := normalizeRelativePath raw.path
  if naturalKey = [] then .throw .emptyPath
  else if options.overwrite then
    rewriteFile maxSizeUpload raw naturalKey options.expectedTargetVersion
  else
    tree >>= fun snapshot =>
    Prog.read >>= fun s =>
    if (s.directoryAt snapshot naturalKey).isSome then .throw (.directoryInTheWay naturalKey)
    else
      (if snapshot.isSome then .ret (s.fileAt snapshot naturalKey)
        else findFileByNaturalKey naturalKey) >>= fun existing =>
      match existing with
      | some existing => .ret (adopt existing)
      | none => writeFile maxSizeUpload naturalKey raw snapshot

/-! ### Any calls at once -/

structure Call where
  raw : RawFileItem
  options : UpsertOptions := {}

def Call.naturalKey (call : Call) : Text := normalizeRelativePath call.raw.path

/-- A call, and the note of what it answered. -/
def Call.prog (call : Call) : Filing Unit :=
  (upsertFile maxSizeUpload call.raw call.options).attempt >>=
    fun (ended : Except FileError UpsertResult) =>
  match ended with
  | .ok r => Prog.modify fun s => { s with answers := s.answers ++ [(call.naturalKey, r)] }
  | .error _ => .ret ()

end Ownpace.JmapFile
