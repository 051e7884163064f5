/-
Ownpace/Container/Zip.lean

A zip archive as it is written, and the reader of its central directory.

`Archive` is what the format leaves open, with the bytes it lays down
(`Archive.bytes`): the local records anywhere before the central directory, in
any order, with anything between them; one central header an entry; the end
record, and the comment behind it.  The reader (`readMembers`) is the source's,
offset by offset; a read out of bounds and a failing inflate are thrown.

`readMembers_bytes`: an archive whose end record is the last thing that reads as
one is read back, member by member, in the order of its directory.
-/
import Mathlib.Data.List.Basic

namespace Ownpace.Container

/-- `Uint8Array` -/
abbrev Bytes : Type := List UInt8

/-! ### The reader -/

def EOCD_SIGNATURE : Nat := 0x06054b50
def CENTRAL_SIGNATURE : Nat := 0x02014b50
def LOCAL_SIGNATURE : Nat := 0x04034b50
def CENTRAL_HEADER_BYTES : Nat := 46
def LOCAL_HEADER_BYTES : Nat := 30
def EOCD_BYTES : Nat := 22

def METHOD_STORED : Nat := 0
def METHOD_DEFLATE : Nat := 8

def ZIP64_SENTINEL : Nat := 0xffffffff

/-- What is thrown: a `RangeError` of a `DataView`, or inflate's own. -/
inductive Thrown : Type
  | outOfBounds | doesNotInflate
  deriving DecidableEq

/-- `view.getUint16(offset, true)` -/
def getUint16 (bytes : Bytes) (offset : Nat) : Except Thrown Nat :=
  match bytes.drop offset with
  | b₀ :: b₁ :: _ => .ok (b₀.toNat + 256 * b₁.toNat)
  | _ => .error .outOfBounds

/-- `view.getUint32(offset, true)` -/
def getUint32 (bytes : Bytes) (offset : Nat) : Except Thrown Nat :=
  match bytes.drop offset with
  | b₀ :: b₁ :: b₂ :: b₃ :: _ =>
    .ok (b₀.toNat + 256 * (b₁.toNat + 256 * (b₂.toNat + 256 * b₃.toNat)))
  | _ => .error .outOfBounds

/-- The bytes from `offset` on, so many of them: `bytes.subarray`. -/
def subarray (bytes : Bytes) (offset length : Nat) : Bytes :=
  (bytes.drop offset).take length

structure Member where
  nameBytes : Bytes
  content : Bytes
  deriving DecidableEq

/-- The loop of `findEndOfCentralDirectory`, over `n` offsets from `earliest`
on, the last one first. -/
def scanBack (bytes : Bytes) (earliest : Nat) : Nat → Except Thrown (Option Nat)
  | 0 => .ok none
  | n + 1 => do
    let read ← getUint32 bytes (earliest + n)
    if read = EOCD_SIGNATURE then return some (earliest + n) else scanBack bytes earliest n

def findEndOfCentralDirectory (bytes : Bytes) : Except Thrown (Option Nat) :=
  if bytes.length < EOCD_BYTES then .ok none
  else
    let last := bytes.length - EOCD_BYTES
    let earliest := last - 0xffff
    scanBack bytes earliest (last + 1 - earliest)

section Reader

-- `inflateRawSync`, which throws where this is `none`
variable (inflate : Bytes → Option Bytes)

/-- The member's uncompressed bytes, read at its local header. -/
def readLocalContent (bytes : Bytes) (localAt method compressedSize : Nat) :
    Except Thrown (Option Bytes) :=
  if bytes.length < localAt + LOCAL_HEADER_BYTES then .ok none
  else do
    let signature ← getUint32 bytes localAt
    if signature ≠ LOCAL_SIGNATURE then return none
    else do
      let nameLength ← getUint16 bytes (localAt + 26)
      let extraLength ← getUint16 bytes (localAt + 28)
      let dataAt := localAt + LOCAL_HEADER_BYTES + nameLength + extraLength
      if bytes.length < dataAt + compressedSize then return none
      else
        let raw := subarray bytes dataAt compressedSize
        if method = METHOD_STORED then return some raw
        else match inflate raw with
          | some content => return some content
          | none => throw .doesNotInflate

/-- The loop of `readMembers`, with so many entries to go. -/
def readEntries (bytes : Bytes) : Nat → Nat → Except Thrown (Option (List Member))
  | 0, _ => .ok (some [])
  | count + 1, offset =>
    if bytes.length < offset + CENTRAL_HEADER_BYTES then .ok none
    else do
      let signature ← getUint32 bytes offset
      if signature ≠ CENTRAL_SIGNATURE then return none
      else do
        let method ← getUint16 bytes (offset + 10)
        let compressedSize ← getUint32 bytes (offset + 20)
        let uncompressedSize ← getUint32 bytes (offset + 24)
        let nameLength ← getUint16 bytes (offset + 28)
        let extraLength ← getUint16 bytes (offset + 30)
        let commentLength ← getUint16 bytes (offset + 32)
        let localAt ← getUint32 bytes (offset + 42)
        if compressedSize = ZIP64_SENTINEL ∨ uncompressedSize = ZIP64_SENTINEL then return none
        else if localAt = ZIP64_SENTINEL then return none
        else if method ≠ METHOD_STORED ∧ method ≠ METHOD_DEFLATE then return none
        else
          let nameAt := offset + CENTRAL_HEADER_BYTES
          if bytes.length < nameAt + nameLength then return none
          else do
            let nameBytes := subarray bytes nameAt nameLength
            match ← readLocalContent inflate bytes localAt method compressedSize with
            | none => return none
            | some content =>
              let rest ← readEntries bytes count (nameAt + nameLength + extraLength + commentLength)
              return rest.map (⟨nameBytes, content⟩ :: ·)

/-- Every member's name and inflated content, if that can be had. -/
def readMembers (bytes : Bytes) : Except Thrown (Option (List Member)) := do
  match ← findEndOfCentralDirectory bytes with
  | none => return none
  | some eocd =>
    let count ← getUint16 bytes (eocd + 10)
    let offset ← getUint32 bytes (eocd + 16)
    if count = 0xffff ∨ offset = ZIP64_SENTINEL then return none
    else readEntries inflate bytes count offset

end Reader

/-! ### Numbers as they are written -/

def le16 (n : Nat) : Bytes := [UInt8.ofNat n, UInt8.ofNat (n / 256)]

def le32 (n : Nat) : Bytes :=
  [UInt8.ofNat n, UInt8.ofNat (n / 256), UInt8.ofNat (n / 256 / 256),
    UInt8.ofNat (n / 256 / 256 / 256)]

@[simp] theorem length_le16 (n : Nat) : (le16 n).length = 2 := rfl

@[simp] theorem length_le32 (n : Nat) : (le32 n).length = 4 := rfl

/-- These bytes stand at this offset. -/
def At (bytes : Bytes) (offset : Nat) (x : Bytes) : Prop := x <+: bytes.drop offset

section At

variable {bytes x y : Bytes} {offset n : Nat}

theorem At.left (h : At bytes offset (x ++ y)) : At bytes offset x :=
  (List.prefix_append x y).trans h

theorem At.right (h : At bytes offset (x ++ y)) : At bytes (offset + x.length) y := by
  obtain ⟨rest, hrest⟩ := h
  refine ⟨rest, ?_⟩
  rw [← List.drop_drop, ← hrest, List.append_assoc, List.drop_left]

/-- The `i`-th of the fields that stand there, so many bytes on. -/
theorem At.field {fields : List Bytes} (h : At bytes offset fields.flatten) (i : Nat) {field : Bytes}
    (hi : fields[i]? = some field) {distance : Nat}
    (hdistance : (fields.take i).flatten.length = distance) :
    At bytes (offset + distance) field := by
  subst hdistance
  have hsplit : fields = fields.take i ++ field :: fields.drop (i + 1) := by
    obtain ⟨hlt, rfl⟩ := List.getElem?_eq_some_iff.mp hi
    rw [List.getElem_cons_drop, List.take_append_drop]
  rw [hsplit, List.flatten_append, List.flatten_cons] at h
  exact h.right.left

theorem At.length_le (h : At bytes offset x) (hx : x ≠ []) : offset + x.length ≤ bytes.length := by
  have hle := List.IsPrefix.length_le h
  have hpos := List.length_pos_of_ne_nil hx
  rw [List.length_drop] at hle
  omega

theorem At.subarray (h : At bytes offset x) : subarray bytes offset x.length = x := by
  obtain ⟨rest, hrest⟩ := h
  rw [Container.subarray, ← hrest, List.take_left]

theorem At.getUint16 (h : At bytes offset (le16 n)) (hn : n < 65536) :
    getUint16 bytes offset = .ok n := by
  obtain ⟨rest, hrest⟩ := h
  rw [Container.getUint16, ← hrest]
  show Except.ok ((UInt8.ofNat n).toNat + 256 * (UInt8.ofNat (n / 256)).toNat) = _
  rw [UInt8.toNat_ofNat', UInt8.toNat_ofNat']
  congr 1
  omega

theorem At.getUint32 (h : At bytes offset (le32 n)) (hn : n < 4294967296) :
    getUint32 bytes offset = .ok n := by
  obtain ⟨rest, hrest⟩ := h
  rw [Container.getUint32, ← hrest]
  show Except.ok ((UInt8.ofNat n).toNat + 256 * ((UInt8.ofNat (n / 256)).toNat +
    256 * ((UInt8.ofNat (n / 256 / 256)).toNat +
      256 * (UInt8.ofNat (n / 256 / 256 / 256)).toNat))) = _
  rw [UInt8.toNat_ofNat', UInt8.toNat_ofNat', UInt8.toNat_ofNat', UInt8.toNat_ofNat']
  congr 1
  omega

theorem getUint32_ok (h : offset + 4 ≤ bytes.length) : ∃ n, getUint32 bytes offset = .ok n := by
  have hlength : 4 ≤ (bytes.drop offset).length := by
    rw [List.length_drop]
    omega
  rw [Container.getUint32]
  split
  · exact ⟨_, rfl⟩
  · next hno =>
      exfalso
      rcases hd : bytes.drop offset with - | ⟨b₀, - | ⟨b₁, - | ⟨b₂, - | ⟨b₃, rest⟩⟩⟩⟩
      · simp [hd] at hlength
      · simp [hd] at hlength
      · simp [hd] at hlength
      · simp [hd] at hlength
      · exact hno b₀ b₁ b₂ b₃ rest hd

theorem At.append (h : At bytes offset x) (z : Bytes) : At (bytes ++ z) offset x := by
  obtain ⟨rest, hrest⟩ := h
  rw [At, List.drop_append, ← hrest, List.append_assoc]
  exact List.prefix_append _ _

theorem at_append (x y z : Bytes) : At (x ++ y ++ z) x.length y := by
  rw [At, List.append_assoc, List.drop_left]
  exact List.prefix_append _ _

end At

/-! ### An archive -/

inductive Method : Type
  | stored | deflated
  deriving DecidableEq

def Method.number : Method → Nat
  | stored => METHOD_STORED
  | deflated => METHOD_DEFLATE

/-- These bytes are this content, kept by the method. -/
def Method.Keeps (inflate : Bytes → Option Bytes) : Method → Bytes → Bytes → Prop
  | stored, raw, content => raw = content
  | deflated, raw, content => inflate raw = some content

/-- One member of an archive: what it is, where it lies and how, and what the
format records of it beside. -/
structure Entry where
  name : Bytes
  content : Bytes
  method : Method
  /-- The bytes it is kept as. -/
  raw : Bytes
  localAt : Nat
  extra : Bytes := []
  comment : Bytes := []
  localName : Bytes
  localExtra : Bytes := []
  /-- The versions and the flags. -/
  versions : Bytes
  /-- The time, the date and the checksum. -/
  stamp : Bytes
  /-- The disk and the attributes. -/
  attributes : Bytes
  /-- The versions, flags, method, time, date, checksum and sizes of the local
  header: zeroes in part, where a data descriptor follows the data. -/
  localFields : Bytes
  versions_length : versions.length = 6
  stamp_length : stamp.length = 8
  attributes_length : attributes.length = 8
  localFields_length : localFields.length = 22

def Entry.member (e : Entry) : Member := ⟨e.name, e.content⟩

/-- The local header, up to the data. -/
def Entry.localFieldsOf (e : Entry) : List Bytes :=
  [le32 LOCAL_SIGNATURE, e.localFields, le16 e.localName.length, le16 e.localExtra.length,
    e.localName, e.localExtra, e.raw]

/-- The central header. -/
def Entry.centralFields (e : Entry) : List Bytes :=
  [le32 CENTRAL_SIGNATURE, e.versions, le16 e.method.number, e.stamp, le32 e.raw.length,
    le32 e.content.length, le16 e.name.length, le16 e.extra.length, le16 e.comment.length,
    e.attributes, le32 e.localAt, e.name, e.extra, e.comment]

def Entry.central (e : Entry) : Bytes := e.centralFields.flatten

/-- The entry fits the fields of the format, none of them a zip64 sentinel, and
its bytes are its content, as they are or deflated. -/
structure Entry.WellFormed (inflate : Bytes → Option Bytes) (e : Entry) : Prop where
  name : e.name.length < 65536
  extra : e.extra.length < 65536
  comment : e.comment.length < 65536
  localName : e.localName.length < 65536
  localExtra : e.localExtra.length < 65536
  raw : e.raw.length < ZIP64_SENTINEL
  content : e.content.length < ZIP64_SENTINEL
  localAt : e.localAt < ZIP64_SENTINEL
  kept : e.method.Keeps inflate e.raw e.content

/-- A zip archive: what comes before its central directory, the entries in the
order of the directory, and the end. -/
structure Archive where
  body : Bytes
  entries : List Entry
  comment : Bytes := []
  /-- The numbers of the disks, and of the entries on this one. -/
  disks : Bytes
  disks_length : disks.length = 6

namespace Archive

variable (a : Archive)

def directory : Bytes := a.entries.flatMap Entry.central

/-- Where the end record stands. -/
def recordAt : Nat := a.body.length + a.directory.length

def recordFields : List Bytes :=
  [le32 EOCD_SIGNATURE, a.disks, le16 a.entries.length, le32 a.directory.length,
    le32 a.body.length, le16 a.comment.length, a.comment]

/-- The bytes of the archive. -/
def bytes : Bytes := a.body ++ a.directory ++ a.recordFields.flatten

/-- Its members, in the order of the directory. -/
def members : List Member := a.entries.map Entry.member

/-- A zip archive that is no zip64 one, all of whose members are stored or
deflated: each has its local record somewhere before the directory. -/
structure WellFormed (inflate : Bytes → Option Bytes) : Prop where
  count : a.entries.length < 0xffff
  body : a.body.length < ZIP64_SENTINEL
  comment : a.comment.length < 65536
  entries : ∀ e ∈ a.entries, e.WellFormed inflate
  located : ∀ e ∈ a.entries, At a.body e.localAt e.localFieldsOf.flatten

/-- Nothing behind the start of the end record reads as another one. -/
def LastRecord : Prop :=
  ∀ offset, a.recordAt < offset → offset + EOCD_BYTES ≤ a.bytes.length →
    getUint32 a.bytes offset ≠ .ok EOCD_SIGNATURE

end Archive

/-! ### Reading it back -/

section Read

variable {inflate : Bytes → Option Bytes} {bytes : Bytes} {offset : Nat}

theorem lt_of_sentinel {n : Nat} (h : n < ZIP64_SENTINEL) : n < 4294967296 :=
  Nat.lt_trans h (by decide)

theorem number_lt (m : Method) : m.number < 65536 := by
  cases m <;> decide

/-- A local record, read. -/
theorem readLocalContent_eq {e : Entry} (he : e.WellFormed inflate)
    (h : At bytes e.localAt e.localFieldsOf.flatten) :
    readLocalContent inflate bytes e.localAt e.method.number e.raw.length = .ok (some e.content) := by
  have hlength : e.localFieldsOf.flatten.length =
      30 + e.localName.length + e.localExtra.length + e.raw.length := by
    simp only [Entry.localFieldsOf, List.length_flatten, List.map_cons, List.map_nil,
      List.sum_cons, List.sum_nil, length_le32, length_le16, e.localFields_length]
    omega
  have hle : e.localAt + e.localFieldsOf.flatten.length ≤ bytes.length :=
    h.length_le (by simp [Entry.localFieldsOf, le32])
  have h₀ : At bytes e.localAt (le32 LOCAL_SIGNATURE) := h.field 0 rfl rfl
  have h₂₆ : At bytes (e.localAt + 26) (le16 e.localName.length) :=
    h.field 2 rfl (by simp [Entry.localFieldsOf, e.localFields_length])
  have h₂₈ : At bytes (e.localAt + 28) (le16 e.localExtra.length) :=
    h.field 3 rfl (by simp [Entry.localFieldsOf, e.localFields_length])
  have hdata : At bytes (e.localAt + LOCAL_HEADER_BYTES + e.localName.length +
      e.localExtra.length) e.raw := by
    rw [Nat.add_assoc, Nat.add_assoc]
    refine h.field 6 rfl ?_
    simp [Entry.localFieldsOf, e.localFields_length, LOCAL_HEADER_BYTES]
    omega
  have hin : ¬ bytes.length < e.localAt + LOCAL_HEADER_BYTES := by
    unfold LOCAL_HEADER_BYTES
    omega
  have hin' : ¬ bytes.length < e.localAt + LOCAL_HEADER_BYTES + e.localName.length +
      e.localExtra.length + e.raw.length := by
    unfold LOCAL_HEADER_BYTES
    omega
  have hkept := he.kept
  rw [readLocalContent, if_neg hin, h₀.getUint32 (by decide), h₂₆.getUint16 he.localName,
    h₂₈.getUint16 he.localExtra]
  simp only [bind, Except.bind, pure, Except.pure, ne_eq, not_true_eq_false, if_false, if_neg hin',
    hdata.subarray]
  cases hm : e.method with
  | stored =>
      rw [hm] at hkept
      rw [if_pos (show Method.stored.number = METHOD_STORED from rfl), show e.raw = e.content from hkept]
  | deflated =>
      rw [hm] at hkept
      rw [if_neg (show Method.deflated.number ≠ METHOD_STORED by decide),
        show inflate e.raw = some e.content from hkept]

/-- A central header, read: the entry, and what follows it. -/
theorem readEntries_cons {e : Entry} {count : Nat} (he : e.WellFormed inflate)
    (hlocal : At bytes e.localAt e.localFieldsOf.flatten) (h : At bytes offset e.central) :
    readEntries inflate bytes (count + 1) offset =
      (readEntries inflate bytes count (offset + e.central.length)).map
        fun rest => rest.map (e.member :: ·) := by
  have hlength : e.central.length =
      46 + e.name.length + e.extra.length + e.comment.length := by
    simp only [Entry.central, Entry.centralFields, List.length_flatten, List.map_cons, List.map_nil,
      List.sum_cons, List.sum_nil, length_le32, length_le16, e.versions_length, e.stamp_length,
      e.attributes_length]
    omega
  have hle : offset + e.central.length ≤ bytes.length :=
    h.length_le (by simp [Entry.central, Entry.centralFields, le32])
  have hv := e.versions_length
  have hs := e.stamp_length
  have ha := e.attributes_length
  have h₀ : At bytes offset (le32 CENTRAL_SIGNATURE) := At.field h 0 rfl rfl
  have h₁₀ : At bytes (offset + 10) (le16 e.method.number) :=
    At.field h 2 rfl (by simp [Entry.centralFields, hv])
  have h₂₀ : At bytes (offset + 20) (le32 e.raw.length) :=
    At.field h 4 rfl (by simp [Entry.centralFields, hv, hs])
  have h₂₄ : At bytes (offset + 24) (le32 e.content.length) :=
    At.field h 5 rfl (by simp [Entry.centralFields, hv, hs])
  have h₂₈ : At bytes (offset + 28) (le16 e.name.length) :=
    At.field h 6 rfl (by simp [Entry.centralFields, hv, hs])
  have h₃₀ : At bytes (offset + 30) (le16 e.extra.length) :=
    At.field h 7 rfl (by simp [Entry.centralFields, hv, hs])
  have h₃₂ : At bytes (offset + 32) (le16 e.comment.length) :=
    At.field h 8 rfl (by simp [Entry.centralFields, hv, hs])
  have h₄₂ : At bytes (offset + 42) (le32 e.localAt) :=
    At.field h 10 rfl (by simp [Entry.centralFields, hv, hs, ha])
  have hname : At bytes (offset + CENTRAL_HEADER_BYTES) e.name :=
    At.field h 11 rfl (by simp [Entry.centralFields, hv, hs, ha, CENTRAL_HEADER_BYTES])
  have hin : ¬ bytes.length < offset + CENTRAL_HEADER_BYTES := by
    unfold CENTRAL_HEADER_BYTES
    omega
  have hin' : ¬ bytes.length < offset + CENTRAL_HEADER_BYTES + e.name.length := by
    unfold CENTRAL_HEADER_BYTES
    omega
  have hnext : offset + CENTRAL_HEADER_BYTES + e.name.length + e.extra.length + e.comment.length =
      offset + e.central.length := by
    unfold CENTRAL_HEADER_BYTES
    omega
  have hsizes : ¬ (e.raw.length = ZIP64_SENTINEL ∨ e.content.length = ZIP64_SENTINEL) :=
    not_or.mpr ⟨Nat.ne_of_lt he.raw, Nat.ne_of_lt he.content⟩
  have hmethod : ¬ (e.method.number ≠ METHOD_STORED ∧ e.method.number ≠ METHOD_DEFLATE) := by
    cases e.method <;> decide
  rw [readEntries, if_neg hin, h₀.getUint32 (by decide), h₁₀.getUint16 (number_lt _),
    h₂₀.getUint32 (lt_of_sentinel he.raw), h₂₄.getUint32 (lt_of_sentinel he.content),
    h₂₈.getUint16 he.name, h₃₀.getUint16 he.extra, h₃₂.getUint16 he.comment,
    h₄₂.getUint32 (lt_of_sentinel he.localAt)]
  simp only [bind, Except.bind, pure, Except.pure, ne_eq, not_true_eq_false, if_false,
    if_neg hsizes, if_neg (Nat.ne_of_lt he.localAt), if_neg hmethod, if_neg hin',
    readLocalContent_eq he hlocal, hname.subarray, hnext]
  cases readEntries inflate bytes count (offset + e.central.length) <;> rfl

/-- The whole directory. -/
theorem readEntries_directory {entries : List Entry}
    (hentries : ∀ e ∈ entries, e.WellFormed inflate)
    (hlocated : ∀ e ∈ entries, At bytes e.localAt e.localFieldsOf.flatten)
    (h : At bytes offset (entries.flatMap Entry.central)) :
    readEntries inflate bytes entries.length offset = .ok (some (entries.map Entry.member)) := by
  induction entries generalizing offset with
  | nil => rfl
  | cons e rest ih =>
      rw [List.flatMap_cons] at h
      rw [List.length_cons, readEntries_cons (hentries e List.mem_cons_self)
        (hlocated e List.mem_cons_self) h.left,
        ih (fun e he => hentries e (List.mem_cons_of_mem _ he))
          (fun e he => hlocated e (List.mem_cons_of_mem _ he)) h.right]
      rfl

/-- The scan finds the last offset that reads as the signature. -/
theorem scanBack_eq {earliest n k : Nat} (hk : k < n)
    (hfound : getUint32 bytes (earliest + k) = .ok EOCD_SIGNATURE)
    (hin : earliest + n + 3 ≤ bytes.length)
    (hlast : ∀ m, k < m → m < n → getUint32 bytes (earliest + m) ≠ .ok EOCD_SIGNATURE) :
    scanBack bytes earliest n = .ok (some (earliest + k)) := by
  induction n with
  | zero => exact absurd hk (Nat.not_lt_zero k)
  | succ n ih =>
      rw [scanBack]
      rcases Nat.lt_or_eq_of_le (Nat.lt_succ_iff.mp hk) with hlt | rfl
      · obtain ⟨read, hread⟩ : ∃ read, getUint32 bytes (earliest + n) = .ok read :=
          getUint32_ok (by omega)
        have hne : read ≠ EOCD_SIGNATURE := by
          rintro rfl
          exact hlast n hlt (Nat.lt_succ_self n) hread
        rw [hread]
        show (if read = EOCD_SIGNATURE then _ else _) = _
        rw [if_neg hne]
        exact ih hlt (by omega) fun m hm hmn => hlast m hm (Nat.lt_succ_of_lt hmn)
      · rw [hfound]
        show (if EOCD_SIGNATURE = EOCD_SIGNATURE then pure (some (earliest + k))
          else scanBack bytes earliest k : Except Thrown (Option Nat)) = _
        rw [if_pos rfl]
        rfl

end Read

namespace Archive

variable {inflate : Bytes → Option Bytes} {a : Archive}

theorem length_bytes : a.bytes.length = a.recordAt + EOCD_BYTES + a.comment.length := by
  simp only [bytes, recordAt, recordFields, List.length_append, List.length_flatten, List.map_cons,
    List.map_nil, List.sum_cons, List.sum_nil, length_le32, length_le16, a.disks_length, EOCD_BYTES]
  omega

theorem at_record : At a.bytes a.recordAt a.recordFields.flatten := by
  have h := at_append (a.body ++ a.directory) a.recordFields.flatten []
  rw [List.append_nil, List.length_append] at h
  exact h

theorem at_directory : At a.bytes a.body.length a.directory :=
  at_append a.body a.directory _

/-- The end record is the one that is found. -/
theorem findEndOfCentralDirectory_bytes (ha : a.WellFormed inflate) (hlast : a.LastRecord) :
    findEndOfCentralDirectory a.bytes = .ok (some a.recordAt) := by
  have hlength := a.length_bytes
  have hcomment := ha.comment
  have hfound : getUint32 a.bytes a.recordAt = .ok EOCD_SIGNATURE :=
    (a.at_record.field 0 rfl rfl).getUint32 (by decide)
  rw [findEndOfCentralDirectory, if_neg (by omega)]
  dsimp only
  have hE : EOCD_BYTES = 22 := rfl
  have hk : a.recordAt =
      (a.bytes.length - EOCD_BYTES - 0xffff) +
        (a.recordAt - (a.bytes.length - EOCD_BYTES - 0xffff)) := by omega
  rw [hk] at hfound
  rw [scanBack_eq (by omega) hfound (by omega), ← hk]
  intro m hm hmn
  exact hlast _ (by omega) (by omega)

/-- **An archive is read back**, where its end record is the last thing that
reads as one. -/
theorem readMembers_bytes (ha : a.WellFormed inflate) (hlast : a.LastRecord) :
    readMembers inflate a.bytes = .ok (some a.members) := by
  have hcount : getUint16 a.bytes (a.recordAt + 10) = .ok a.entries.length :=
    (a.at_record.field 2 rfl (by simp [recordFields, a.disks_length])).getUint16
      (Nat.lt_trans ha.count (by decide))
  have hoffset : getUint32 a.bytes (a.recordAt + 16) = .ok a.body.length :=
    (a.at_record.field 4 rfl (by simp [recordFields, a.disks_length])).getUint32
      (lt_of_sentinel ha.body)
  have hno : ¬ (a.entries.length = 0xffff ∨ a.body.length = ZIP64_SENTINEL) :=
    not_or.mpr ⟨Nat.ne_of_lt ha.count, Nat.ne_of_lt ha.body⟩
  rw [readMembers, findEndOfCentralDirectory_bytes ha hlast]
  simp only [bind, Except.bind, hcount, hoffset, if_neg hno]
  refine readEntries_directory ha.entries (fun e he => ?_) a.at_directory
  have h := (ha.located e he).append (a.directory ++ a.recordFields.flatten)
  rwa [← List.append_assoc] at h

end Archive

/-! ### Any bytes -/

section Any

variable {inflate : Bytes → Option Bytes} {bytes : Bytes}

/-- If something was thrown, it was inflate. -/
def InBounds {α : Type} (read : Except Thrown α) : Prop := read ≠ .error .outOfBounds

theorem inBounds_ok {α : Type} {a : α} : InBounds (.ok a : Except Thrown α) := by
  intro h
  cases h

theorem InBounds.bind {α β : Type} {read : Except Thrown α} {next : α → Except Thrown β}
    (h : InBounds read) (hnext : ∀ a, read = .ok a → InBounds (next a)) :
    InBounds (read >>= next) := by
  cases hr : read with
  | error thrown =>
      intro heq
      cases heq
      exact h hr
  | ok a => exact hnext a hr

theorem inBounds_getUint16 {offset : Nat} (h : offset + 2 ≤ bytes.length) :
    InBounds (getUint16 bytes offset) := by
  have hlength : 2 ≤ (bytes.drop offset).length := by
    rw [List.length_drop]
    omega
  rw [getUint16]
  split
  · exact inBounds_ok
  · next hno =>
      exfalso
      rcases hd : bytes.drop offset with - | ⟨b₀, - | ⟨b₁, rest⟩⟩
      · simp [hd] at hlength
      · simp [hd] at hlength
      · exact hno b₀ b₁ rest hd

theorem inBounds_getUint32 {offset : Nat} (h : offset + 4 ≤ bytes.length) :
    InBounds (getUint32 bytes offset) := by
  obtain ⟨n, hn⟩ := getUint32_ok h
  rw [hn]
  exact inBounds_ok

theorem inBounds_scanBack {earliest n : Nat} (h : earliest + n + 3 ≤ bytes.length) :
    InBounds (scanBack bytes earliest n) := by
  induction n with
  | zero => exact inBounds_ok
  | succ n ih =>
      refine (inBounds_getUint32 (by omega)).bind fun read _ => ?_
      split
      · exact inBounds_ok
      · exact ih (by omega)

/-- What the scan finds is within the offsets it went over. -/
theorem scanBack_lt {earliest n eocd : Nat} (h : scanBack bytes earliest n = .ok (some eocd)) :
    eocd < earliest + n := by
  induction n with
  | zero => cases h
  | succ n ih =>
      rw [scanBack] at h
      cases hr : getUint32 bytes (earliest + n) with
      | error thrown => rw [hr] at h; cases h
      | ok read =>
          rw [hr] at h
          change (if read = EOCD_SIGNATURE then pure (some (earliest + n))
            else scanBack bytes earliest n : Except Thrown (Option Nat)) = _ at h
          split at h
          · cases h
            omega
          · have hlt := ih h
            omega

theorem found_le {eocd : Nat} (h : findEndOfCentralDirectory bytes = .ok (some eocd)) :
    eocd + 22 ≤ bytes.length := by
  rw [findEndOfCentralDirectory] at h
  split at h
  · cases h
  · next hin =>
      have hlt := scanBack_lt h
      have hE : EOCD_BYTES = 22 := rfl
      omega

theorem inBounds_readLocalContent (localAt method compressedSize : Nat) :
    InBounds (readLocalContent inflate bytes localAt method compressedSize) := by
  rw [readLocalContent]
  split
  · exact inBounds_ok
  · next hin =>
      rw [Nat.not_lt, LOCAL_HEADER_BYTES] at hin
      refine (inBounds_getUint32 (by omega)).bind fun signature _ => ?_
      split
      · exact inBounds_ok
      · refine (inBounds_getUint16 (by omega)).bind fun nameLength _ => ?_
        refine (inBounds_getUint16 (by omega)).bind fun extraLength _ => ?_
        dsimp only
        split
        · exact inBounds_ok
        · split
          · exact inBounds_ok
          · split
            · exact inBounds_ok
            · intro h
              cases h

theorem inBounds_readEntries (count offset : Nat) :
    InBounds (readEntries inflate bytes count offset) := by
  induction count generalizing offset with
  | zero => exact inBounds_ok
  | succ count ih =>
      rw [readEntries]
      split
      · exact inBounds_ok
      · next hin =>
          rw [Nat.not_lt, CENTRAL_HEADER_BYTES] at hin
          refine (inBounds_getUint32 (by omega)).bind fun signature _ => ?_
          split
          · exact inBounds_ok
          · refine (inBounds_getUint16 (by omega)).bind fun method _ => ?_
            refine (inBounds_getUint32 (by omega)).bind fun compressedSize _ => ?_
            refine (inBounds_getUint32 (by omega)).bind fun uncompressedSize _ => ?_
            refine (inBounds_getUint16 (by omega)).bind fun nameLength _ => ?_
            refine (inBounds_getUint16 (by omega)).bind fun extraLength _ => ?_
            refine (inBounds_getUint16 (by omega)).bind fun commentLength _ => ?_
            refine (inBounds_getUint32 (by omega)).bind fun localAt _ => ?_
            split
            · exact inBounds_ok
            · split
              · exact inBounds_ok
              · split
                · exact inBounds_ok
                · dsimp only
                  split
                  · exact inBounds_ok
                  · refine (inBounds_readLocalContent localAt method compressedSize).bind
                      fun content _ => ?_
                    cases content with
                    | none => exact inBounds_ok
                    | some content => exact (ih _).bind fun rest _ => inBounds_ok

/-- **Every read is guarded**: of any bytes, nothing but inflate is thrown. -/
theorem inBounds_readMembers (bytes : Bytes) : InBounds (readMembers inflate bytes) := by
  have hfind : InBounds (findEndOfCentralDirectory bytes) := by
    rw [findEndOfCentralDirectory]
    split
    · exact inBounds_ok
    · next hin =>
        rw [Nat.not_lt] at hin
        have hE : EOCD_BYTES = 22 := rfl
        exact inBounds_scanBack (by omega)
  refine hfind.bind fun found hfound => ?_
  cases found with
  | none => exact inBounds_ok
  | some eocd =>
      have hin := found_le hfound
      refine (inBounds_getUint16 (by omega)).bind fun count _ => ?_
      refine (inBounds_getUint32 (by omega)).bind fun offset _ => ?_
      split
      · exact inBounds_ok
      · exact inBounds_readEntries count offset

end Any

end Ownpace.Container
