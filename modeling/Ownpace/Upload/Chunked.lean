/-
Ownpace/Upload/Chunked.lean

A file sent as several pieces: `uploadChunked` of `webdav-target-writer.ts`, with
the retries of `dav-retry.ts`.

What a request meets is drawn from a `World`: its answer (or that it broke off),
how much of its body was read where the piece was refused, whether it took effect
all the same, and what a refused piece left.  A piece that is accepted was read to
its end and is what the server holds; the MOVE takes effect only where the pieces
add up to `OC-Total-Length`, and is answered 201 or 204 only where it did.
-/
import Ownpace.Upload.Slicer

namespace Ownpace.Upload

/-! ### The sizes -/

def NEXTCLOUD_CHUNK_BYTES : Nat := 64 * 1024 * 1024

def NEXTCLOUD_MAX_CHUNKS : Nat := 10000

/-- `Math.ceil(total / chunkBytes)` -/
def chunkCount (total chunkBytes : Nat) : Nat := (total + (chunkBytes - 1)) / chunkBytes

/-- What `uploadChunked` goes by: the piece size, the size the file declares, and
how it is to be written. -/
structure LargeFile where
  chunkBytes : Nat
  sizeBytes : Nat
  overwrite : Bool
  ifMatch : Bool

namespace LargeFile

variable (u : LargeFile)

def pieceBytes : Nat := max u.chunkBytes (chunkCount u.sizeBytes NEXTCLOUD_MAX_CHUNKS)

def pieces : Nat := chunkCount u.sizeBytes u.pieceBytes

/-- `Math.min(pieceBytes, body.sizeBytes - (n - 1) * pieceBytes)` -/
def lengthOf (n : Nat) : Nat := min u.pieceBytes (u.sizeBytes - (n - 1) * u.pieceBytes)

/-- The numbers of the pieces. -/
def numbers : List Nat := List.range' 1 u.pieces

end LargeFile

/-! ### The server -/

structure Server where
  /-- The pieces in the upload folder, by number. -/
  pieces : Nat → Option Bytes
  destination : Option Bytes

def Server.put (server : Server) (n : Nat) (bytes : Bytes) : Server :=
  { server with pieces := fun k => if k = n then some bytes else server.pieces k }

/-- The pieces in numerical order. -/
def Server.assembled (server : Server) : Bytes :=
  (List.range' 1 NEXTCLOUD_MAX_CHUNKS).flatMap fun n => (server.pieces n).getD []

/-- What becomes of a request. -/
structure Fate where
  /-- Its answer; none where it broke off. -/
  status : Option Nat
  /-- It took effect although it was not accepted. -/
  landed : Bool
  /-- How often its body was pulled, where the piece is not accepted. -/
  pulls : Nat
  /-- What such a piece left. -/
  kept : Bytes

/-- One send of the pieces. -/
structure Sent where
  read : Read
  /-- What was handed out as each piece's body. -/
  bodies : List Bytes
  /-- Every piece was accepted. -/
  accepted : Bool
  /-- The source ended with the last piece. -/
  ended : Bool

inductive Event where
  | mkcol
  | sent (sent : Sent)
  | move (landed : Bool)
  | delete

structure World where
  /-- What the next requests meet. -/
  fates : Nat → Fate
  /-- What the next opens of the source give; none where one throws. -/
  reads : Nat → Option Read
  server : Server
  log : List Event

/-- Before the upload: nothing is in its folder, whose name is new. -/
def World.start (fates : Nat → Fate) (reads : Nat → Option Read) (destination : Option Bytes) :
    World :=
  ⟨fates, reads, ⟨fun _ => none, destination⟩, []⟩

def World.spend (w : World) : World := { w with fates := fun k => w.fates (k + 1) }

def World.note (w : World) (e : Event) : World := { w with log := w.log ++ [e] }

/-! ### Retries -/

def isTransientDavStatus (status : Nat) : Bool := 500 ≤ status || status = 423 || status = 429

/-- A 2xx. -/
def isAccepted (status : Nat) : Bool := 200 ≤ status && status < 300

variable {α : Type}

/-- `requestWithDavRetry`, with so many attempts after this one; none where `send`
throws. -/
def withDavRetry (send : World → Option (Nat × α) × World) : Nat → World → Option (Nat × α) × World
  | 0, w => send w
  | attempts + 1, w =>
    match send w with
    | (some (status, answer), w') =>
      if isTransientDavStatus status then withDavRetry send attempts w'
      else (some (status, answer), w')
    | (none, w') => (none, w')

/-- `DEFAULT_ATTEMPTS` after the first. -/
def MORE_ATTEMPTS : Nat := 4

/-! ### A send -/

/-- What a piece leaves that was not accepted. -/
def World.left (w : World) (n : Nat) : World :=
  if (w.fates 0).landed then { w.spend with server := w.server.put n (w.fates 0).kept } else w.spend

/-- A piece's PUT: its answer, what was handed out of its body, the slicer and the
world after it.  None where the request throws. -/
def putPiece (n length : Nat) (s : Slicer) (w : World) : Option Nat × Bytes × Slicer × World :=
  let fate := w.fates 0
  if fate.status.any isAccepted then
    let (bytes, ended, s') := s.drain length length
    if ended = .closed then
      (fate.status, bytes, s', { w.spend with server := w.server.put n bytes })
    else (none, bytes, s', w.left n)
  else
    let (bytes, ended, s') := s.drain fate.pulls length
    (if ended = .errored then none else fate.status, bytes, s', w.left n)

inductive PiecesEnd where
  | accepted
  | refused (status n bytes : Nat)
  | threw

/-- The loop over the pieces, with the bodies it handed out. -/
def sendPieces (u : LargeFile) : List Nat → Slicer → World → PiecesEnd × List Bytes × Slicer × World
  | [], s, w => (.accepted, [], s, w)
  | n :: rest, s, w =>
    match putPiece n (u.lengthOf n) s w with
    | (none, body, s', w') => (.threw, [body], s', w')
    | (some status, body, s', w') =>
      if isAccepted status then
        let (ended, bodies, s'', w'') := sendPieces u rest s' w'
        (ended, body :: bodies, s'', w'')
      else (.refused status n (u.lengthOf n), [body], s', w')

/-- `PieceAnswer`: a refusal, or the reader of a send that went through. -/
inductive PieceAnswer where
  | refusal (n bytes : Nat)
  | through (reader : Reader)

/-- One send: the source opened, every piece put, and the source read to its end. -/
def send (u : LargeFile) (w : World) : Option (Nat × PieceAnswer) × World :=
  let opened := { w with reads := fun k => w.reads (k + 1) }
  match w.reads 0 with
  | none => (none, opened)
  | some read =>
    let (ended, bodies, s, w') := sendPieces u u.numbers ⟨read.getReader, none, none⟩ opened
    match ended with
    | .threw => (none, w'.note (.sent ⟨read, bodies, false, false⟩))
    | .refused status n bytes =>
      (some (status, .refusal n bytes), w'.note (.sent ⟨read, bodies, false, false⟩))
    | .accepted =>
      let (atEnd, s') := s.assertEnded u.sizeBytes
      (if atEnd then some (201, .through s'.reader) else none,
        w'.note (.sent ⟨read, bodies, true, atEnd⟩))

/-! ### The upload -/

/-- A request without a body that changes no piece and no file. -/
def request (e : Event) (w : World) : Option (Nat × Unit) × World :=
  ((w.fates 0).status.map fun status => (status, ()), w.spend.note e)

def isAssembled (status : Nat) : Bool := status = 201 || status = 204

/-- The MOVE that assembles the pieces. -/
def move (u : LargeFile) (w : World) : Option (Nat × Unit) × World :=
  let fate := w.fates 0
  if fate.landed && w.server.assembled.length = u.sizeBytes then
    (fate.status.map fun status => (status, ()),
      { w.spend with server := ⟨fun _ => none, some w.server.assembled⟩ }.note (.move true))
  else
    (fate.status.map fun status => (if isAssembled status then 400 else status, ()),
      w.spend.note (.move false))

inductive Chunking where
  | unknown | supported | unsupported
  deriving DecidableEq

/-- `UPLOADS_UNAVAILABLE` -/
def UPLOADS_UNAVAILABLE : List Nat := [403, 404, 405, 409, 501]

inductive Outcome (Digest : Type) where
  /-- The file was assembled; the digest of its bytes, none where `digest` throws. -/
  | assembled (contentHash : Option Digest)
  | conflicted
  | alreadyHeld
  | threw

variable {Digest : Type}

/-- `hasher.digest()` -/
def Reader.digest (sha256 : Bytes → Digest) (r : Reader) : Option Digest :=
  if r.done then some (sha256 r.seen) else none

/-- What the target says of the path when it is asked: that a file is there
(`heldAtPath`), that nothing is (`isGone`). -/
structure Target where
  holdsFile : Bool
  isGone : Bool

/-- What the answer to the MOVE comes to. -/
def outcomeOf (u : LargeFile) (sha256 : Bytes → Digest) (t : Target) (reader : Reader) :
    Option (Nat × Unit) → Outcome Digest
  | none => .threw
  | some (status, ()) =>
    if isAssembled status then .assembled (reader.digest sha256)
    else if status = 412 then
      if u.overwrite then .conflicted else if t.holdsFile then .alreadyHeld else .threw
    else if status = 404 && u.overwrite && u.ifMatch && t.isGone then .conflicted
    else .threw

/-- `discardUpload`, unless the file was assembled. -/
def discardUpload (outcome : Outcome Digest) (w : World) : World :=
  match outcome with
  | .assembled _ => w
  | _ => (withDavRetry (request .delete) MORE_ATTEMPTS w).2

/-- The send with its retries, and the MOVE where it went through. -/
def sendAndMove (u : LargeFile) (sha256 : Bytes → Digest) (t : Target) (w : World) :
    Outcome Digest × World :=
  match withDavRetry (send u) MORE_ATTEMPTS w with
  | (some (_, .through reader), w') =>
    let (moved, w'') := withDavRetry (move u) MORE_ATTEMPTS w'
    (outcomeOf u sha256 t reader moved, w'')
  | (_, w') => (.threw, w')

/-- None where the caller is to send the file as one request. -/
def uploadChunked (u : LargeFile) (sha256 : Bytes → Digest) (t : Target) (uploads : Bool)
    (chunking : Chunking) (w : World) : Option (Outcome Digest) × Chunking × World :=
  if !uploads || chunking = .unsupported then (none, chunking, w)
  else
    match withDavRetry (request .mkcol) MORE_ATTEMPTS w with
    | (none, w') => (some .threw, chunking, w')
    | (some (status, ()), w') =>
      let ownEarlierAttempt := status = 405 && chunking = .supported
      if !ownEarlierAttempt && !isAccepted status then
        if chunking = .unknown && UPLOADS_UNAVAILABLE.contains status then
          (none, .unsupported, w')
        else (some .threw, chunking, w')
      else
        let (outcome, w'') := sendAndMove u sha256 t w'
        (some outcome, .supported, discardUpload outcome w'')

end Ownpace.Upload
