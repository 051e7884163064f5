/-
Ownpace/Container/Hash.lean

The content hash of a container: its members' names and contents, sorted by
name.

SHA-256 is a parameter, with its fixed width; where two hashes are compared,
nothing that was hashed for the one collides with anything hashed for the other
(`Sha256.NoCollision`).  The sort is stable, and by the name alone.  So two
archives that are read back have one hash exactly if, name by name, they hold
the same contents in the same order (`fingerprint_inj`); with no name twice in
one archive that is to have the same members.
-/
import Mathlib.Algebra.Group.Nat.Defs
import Mathlib.Data.List.Nodup
import Ownpace.Container.Stable
import Ownpace.Container.Zip

namespace Ownpace.Container

open StableSort

/-! ### The order of names -/

/-- Byte-wise ordering. -/
def compareBytes : Bytes → Bytes → Int
  | x :: a, y :: b => if x = y then compareBytes a b else (x.toNat : Int) - y.toNat
  | a, b => (a.length : Int) - b.length

/-- `compareBytes(a, b) <= 0` -/
def sortsBefore (a b : Bytes) : Bool := compareBytes a b ≤ 0

theorem compareBytes_swap (a b : Bytes) : compareBytes a b = -compareBytes b a := by
  induction a generalizing b with
  | nil => cases b <;> simp [compareBytes]
  | cons x a ih =>
      cases b with
      | nil => simp [compareBytes]
      | cons y b =>
          simp only [compareBytes]
          by_cases hxy : x = y
          · rw [if_pos hxy, if_pos hxy.symm, ih]
          · rw [if_neg hxy, if_neg (Ne.symm hxy)]
            omega

theorem eq_of_compareBytes {a b : Bytes} (h : compareBytes a b = 0) : a = b := by
  induction a generalizing b with
  | nil =>
      cases b with
      | nil => rfl
      | cons y b =>
          simp only [compareBytes, List.length_nil, List.length_cons] at h
          omega
  | cons x a ih =>
      cases b with
      | nil =>
          simp only [compareBytes, List.length_nil, List.length_cons] at h
          omega
      | cons y b =>
          simp only [compareBytes] at h
          split at h
          · next hxy => rw [hxy, ih h]
          · next hxy => exact absurd (UInt8.toNat_inj.mp (by omega)) hxy

theorem compareBytes_trans {a b c : Bytes} (hab : compareBytes a b ≤ 0)
    (hbc : compareBytes b c ≤ 0) : compareBytes a c ≤ 0 := by
  induction a generalizing b c with
  | nil =>
      have hlength (d : Bytes) : compareBytes [] d = -(d.length : Int) := by
        cases d <;> simp [compareBytes]
      rw [hlength]
      omega
  | cons x a ih =>
      cases b with
      | nil =>
          simp only [compareBytes, List.length_nil, List.length_cons] at hab
          omega
      | cons y b =>
          cases c with
          | nil =>
              simp only [compareBytes, List.length_nil, List.length_cons] at hbc
              omega
          | cons z c =>
              simp only [compareBytes] at hab hbc ⊢
              by_cases hxy : x = y
              · subst hxy
                rw [if_pos rfl] at hab
                by_cases hxz : x = z
                · rw [if_pos hxz] at hbc ⊢
                  exact ih hab hbc
                · rwa [if_neg hxz] at hbc ⊢
              · rw [if_neg hxy] at hab
                have hlt : x.toNat < y.toNat := by
                  have hne : x.toNat ≠ y.toNat := fun heq => hxy (UInt8.toNat_inj.mp heq)
                  omega
                by_cases hyz : y = z
                · subst hyz
                  rw [if_neg hxy]
                  omega
                · rw [if_neg hyz] at hbc
                  have hxz : x ≠ z := by
                    rintro rfl
                    omega
                  rw [if_neg hxz]
                  omega

theorem orders_sortsBefore : Orders sortsBefore where
  trans a b c hab hbc := by
    rw [sortsBefore, decide_eq_true_eq] at hab hbc ⊢
    exact compareBytes_trans hab hbc
  total a b := by
    rw [sortsBefore, sortsBefore, Bool.or_eq_true, decide_eq_true_eq, decide_eq_true_eq,
      compareBytes_swap b a]
    omega
  antisymm a b hab hba := by
    rw [sortsBefore, decide_eq_true_eq] at hab hba
    rw [compareBytes_swap b a] at hba
    exact eq_of_compareBytes (by omega)

/-! ### The hash -/

/-- `createHash('sha256')`: the digest of the bytes it was fed, in hex. -/
structure Sha256 where
  hex : Bytes → Bytes
  length_hex : ∀ bytes, (hex bytes).length = 64

/-- `zip1` -/
def CONTAINER_FINGERPRINT_VERSION : Bytes := [0x7a, 0x69, 0x70, 0x31]

section Hash

variable (sha : Sha256)

/-- What is fed to the digest: the version, and both hashes of each member. -/
def hashedText (members : List Member) : Bytes :=
  CONTAINER_FINGERPRINT_VERSION ++
    (sortBy Member.nameBytes sortsBefore members).flatMap fun member =>
      sha.hex member.nameBytes ++ sha.hex member.content

def fingerprint (members : List Member) : Bytes :=
  CONTAINER_FINGERPRINT_VERSION ++ (0x3a :: sha.hex (hashedText sha members))

/-- The canonical fingerprint of a zip container, if it can be computed:
whatever is thrown, there is none. -/
def containerContentHash (inflate : Bytes → Option Bytes) (bytes : Bytes) : Option Bytes :=
  match readMembers inflate bytes with
  | .ok (some members) => some (fingerprint sha members)
  | .ok none => none
  | .error _ => none

/-- Everything that is hashed on the way to a fingerprint. -/
def hashed (members : List Member) : List Bytes :=
  hashedText sha members :: members.flatMap fun member => [member.nameBytes, member.content]

/-- Of what is hashed for these two, no two different things have one hash. -/
structure Sha256.NoCollision (members₁ members₂ : List Member) : Prop where
  inj : ∀ x ∈ hashed sha members₁, ∀ y ∈ hashed sha members₂, sha.hex x = sha.hex y → x = y

variable {sha} {members₁ members₂ : List Member}

theorem hashed_member {members : List Member} {member : Member} (h : member ∈ members) :
    member.nameBytes ∈ hashed sha members ∧ member.content ∈ hashed sha members := by
  constructor
  · exact List.mem_cons_of_mem _ (List.mem_flatMap.mpr ⟨member, h, by simp⟩)
  · exact List.mem_cons_of_mem _ (List.mem_flatMap.mpr ⟨member, h, by simp⟩)

/-- Both halves are of fixed width: nothing can straddle a boundary. -/
theorem eq_of_texts (hsha : sha.NoCollision members₁ members₂) {l₁ l₂ : List Member}
    (h₁ : l₁ ⊆ members₁) (h₂ : l₂ ⊆ members₂)
    (h : (l₁.flatMap fun member => sha.hex member.nameBytes ++ sha.hex member.content) =
      l₂.flatMap fun member => sha.hex member.nameBytes ++ sha.hex member.content) : l₁ = l₂ := by
  have hwidth (member : Member) :
      (sha.hex member.nameBytes ++ sha.hex member.content).length = 128 := by
    rw [List.length_append, sha.length_hex, sha.length_hex]
  induction l₁ generalizing l₂ with
  | nil =>
      cases l₂ with
      | nil => rfl
      | cons b t₂ =>
          have hlength := congrArg List.length h
          rw [List.flatMap_cons, List.length_append, hwidth, List.flatMap_nil,
            List.length_nil] at hlength
          omega
  | cons a t₁ ih =>
      cases l₂ with
      | nil =>
          have hlength := congrArg List.length h
          rw [List.flatMap_cons, List.length_append, hwidth, List.flatMap_nil,
            List.length_nil] at hlength
          omega
      | cons b t₂ =>
          obtain ⟨ha, ht₁⟩ := List.cons_subset.mp h₁
          obtain ⟨hb, ht₂⟩ := List.cons_subset.mp h₂
          rw [List.flatMap_cons, List.flatMap_cons] at h
          obtain ⟨hhead, htail⟩ := List.append_inj h (by rw [hwidth, hwidth])
          obtain ⟨hname, hcontent⟩ := List.append_inj hhead (by rw [sha.length_hex, sha.length_hex])
          have hab : a = b := by
            obtain ⟨an, ac⟩ := a
            obtain ⟨bn, bc⟩ := b
            rw [Member.mk.injEq]
            exact ⟨hsha.inj _ (hashed_member ha).1 _ (hashed_member hb).1 hname,
              hsha.inj _ (hashed_member ha).2 _ (hashed_member hb).2 hcontent⟩
          rw [hab, ih ht₁ ht₂ htail]

/-- **What a fingerprint tells apart**: the contents under each name, in
order. -/
theorem fingerprint_inj (hsha : sha.NoCollision members₁ members₂) :
    fingerprint sha members₁ = fingerprint sha members₂ ↔
      ∀ name, under Member.nameBytes name members₁ = under Member.nameBytes name members₂ := by
  rw [← sortBy_eq_iff orders_sortsBefore]
  constructor
  · intro h
    have hhex := (List.cons.inj (List.append_cancel_left h)).2
    have htext : hashedText sha members₁ = hashedText sha members₂ :=
      hsha.inj _ List.mem_cons_self _ List.mem_cons_self hhex
    refine eq_of_texts hsha ?_ ?_ (List.append_cancel_left htext)
    · exact (perm_sortBy members₁).subset
    · exact (perm_sortBy members₂).subset
  · intro h
    rw [fingerprint, fingerprint, hashedText, hashedText, h]

/-- An archive that is read back has the fingerprint of its members. -/
theorem containerContentHash_bytes {inflate : Bytes → Option Bytes} {a : Archive}
    (ha : a.WellFormed inflate) (hlast : a.LastRecord) :
    containerContentHash sha inflate a.bytes = some (fingerprint sha a.members) := by
  rw [containerContentHash, Archive.readMembers_bytes ha hlast]

end Hash

/-- **The content hash, of archives that are read back**: both have one; their
hashes are equal exactly if they hold the same members, whatever else differs,
if and only if those of them that share a name come in one order; and of any
bytes at all no read is out of bounds, so that what is caught is inflate's. -/
theorem containerContentHash_tells (sha : Sha256) {inflate : Bytes → Option Bytes}
    {a₁ a₂ : Archive} (h₁ : a₁.WellFormed inflate) (h₂ : a₂.WellFormed inflate)
    (hlast₁ : a₁.LastRecord) (hlast₂ : a₂.LastRecord)
    (hsha : sha.NoCollision a₁.members a₂.members) :
    (containerContentHash sha inflate a₁.bytes).isSome ∧
      (containerContentHash sha inflate a₂.bytes).isSome ∧
      ((containerContentHash sha inflate a₁.bytes = containerContentHash sha inflate a₂.bytes ↔
          a₁.members.Perm a₂.members) ↔
        (a₁.members.Perm a₂.members → ∀ name, under Member.nameBytes name a₁.members =
          under Member.nameBytes name a₂.members)) ∧
      ∀ bytes, readMembers inflate bytes ≠ .error .outOfBounds := by
  rw [containerContentHash_bytes h₁ hlast₁, containerContentHash_bytes h₂ hlast₂]
  refine ⟨rfl, rfl, ?_, inBounds_readMembers⟩
  rw [Option.some.injEq, fingerprint_inj hsha]
  have hperm (h : ∀ name, under Member.nameBytes name a₁.members =
      under Member.nameBytes name a₂.members) : a₁.members.Perm a₂.members := by
    have hsorted := (sortBy_eq_iff orders_sortsBefore).mpr h
    exact (perm_sortBy a₁.members).symm.trans (hsorted ▸ perm_sortBy a₂.members)
  constructor
  · exact fun h => h.mpr
  · exact fun h => ⟨hperm, h⟩

/-! ### Small archives -/

/-- Text, as bytes. -/
def ascii (text : String) : Bytes := text.toList.map fun c => UInt8.ofNat c.toNat

/-- A digest, as the text of its 64 hex digits. -/
def hexText (digest : Nat) : Bytes :=
  (List.range 64).map fun i =>
    let digit := digest / 16 ^ (63 - i) % 16
    UInt8.ofNat (if digit < 10 then 0x30 + digit else 0x57 + digit)

/-- An entry of one byte, its checksum, where it lies and how it is kept. -/
def smallEntry (name content : Bytes) (crc localAt : Nat) (method : Method) (raw : Bytes) :
    Entry where
  name := name
  content := content
  method := method
  raw := raw
  localAt := localAt
  localName := name
  versions := [20, 0, 20, 0, 0, 0]
  stamp := [0, 0, 0x21, 0x58] ++ le32 crc
  attributes := [0, 0, 0, 0, 0, 0, 0, 0]
  localFields := [20, 0, 0, 0] ++ le16 method.number ++ [0, 0, 0x21, 0x58] ++ le32 crc ++
    le32 raw.length ++ le32 content.length
  versions_length := rfl
  stamp_length := rfl
  attributes_length := rfl
  localFields_length := rfl

def entryA (localAt : Nat) : Entry :=
  smallEntry (ascii "a") (ascii "x") 0x8cdc1683 localAt .stored (ascii "x")

def entryAY (localAt : Nat) : Entry :=
  smallEntry (ascii "a") (ascii "y") 0xfbdb2615 localAt .stored (ascii "y")

def entryB (localAt : Nat) : Entry :=
  smallEntry (ascii "b") (ascii "y") 0xfbdb2615 localAt .stored (ascii "y")

/-- `x` again, deflated. -/
def entryADeflated (localAt : Nat) : Entry :=
  smallEntry (ascii "a") (ascii "x") 0x8cdc1683 localAt .deflated [0xab, 0, 0]

def inflateX (raw : Bytes) : Option Bytes :=
  if raw = [0xab, 0, 0] then some (ascii "x") else none

/-- The entries one after another, and then the directory. -/
def archiveOf (entries : List Entry) (comment : Bytes) : Archive where
  body := entries.flatMap fun e => e.localFieldsOf.flatten
  entries := entries
  comment := comment
  disks := [0, 0, 0, 0] ++ le16 entries.length
  disks_length := rfl

/-- The digests of what is hashed here. -/
def digests : List (Bytes × Bytes) :=
  let a := hexText 0xca978112ca1bbdcafac231b39a23dc4da786eff8147c4e72b9807785afee48bb
  let x := hexText 0x2d711642b726b04401627ca9fbac32f5c8530fb1903cc4db02258717921a4881
  let y := hexText 0xa1fce4363854ff888cff4b8e7875d600c2682390412a8cf79b37d0b11148b0fa
  let b := hexText 0x3e23e8160039594a33894f6564e1b1348bbd7a0088d42c4acb73eeaed59c009d
  [(ascii "a", a), (ascii "x", x), (ascii "y", y), (ascii "b", b),
    (ascii "zip1", hexText 0x68896bcd7eee00277f0de21dc0ac11f6babc9c68e89b4d30ce477a36f109b2f5),
    (ascii "zip1" ++ (a ++ x),
      hexText 0xbb089be2aede1a9a5c0b989b6838a1fadc351b6804b6eb7bc34f122ec9af1098),
    (ascii "zip1" ++ (a ++ y),
      hexText 0x15f8257b20dbe3904c391f75f1be728971df5be1ac35040463605b6bed1b749f),
    (ascii "zip1" ++ (a ++ x ++ (a ++ y)),
      hexText 0x9a7f555bc6ebe82b5b3b3d97227f2ff43008572dc62d2ffd19f96049fad5ee1d),
    (ascii "zip1" ++ (a ++ y ++ (a ++ x)),
      hexText 0xcb15658b079f9dda7b14729765082ed35816a4cfa8771fabfd95cb07a8fd6a6a),
    (ascii "zip1" ++ (a ++ x ++ (b ++ y)),
      hexText 0xf8bfb04b7cf5e72310e93783ee1a083bc18141de7ff94c461bddcedd92dfda6f)]

def someSha : Sha256 where
  hex bytes :=
    let digest := (digests.lookup bytes).getD []
    if digest.length = 64 then digest else List.replicate 64 0x30
  length_hex bytes := by
    dsimp only
    split
    · next h => exact h
    · rfl

theorem smallEntry_wellFormed {name content raw : Bytes} {crc localAt : Nat} {method : Method}
    (hname : name.length < 256) (hcontent : content.length < 256) (hraw : raw.length < 256)
    (hat : localAt < 256) (hkept : method.Keeps inflateX raw content) :
    (smallEntry name content crc localAt method raw).WellFormed inflateX where
  name := Nat.lt_trans hname (by decide)
  extra := Nat.zero_lt_of_lt (by decide : 0 < 65536)
  comment := Nat.zero_lt_of_lt (by decide : 0 < 65536)
  localName := Nat.lt_trans hname (by decide)
  localExtra := Nat.zero_lt_of_lt (by decide : 0 < 65536)
  raw := Nat.lt_trans hraw (by decide)
  content := Nat.lt_trans hcontent (by decide)
  localAt := Nat.lt_trans hat (by decide)
  kept := hkept

/-- An archive of such entries. -/
theorem archiveOf_wellFormed {entries : List Entry} {comment : Bytes}
    (hcount : entries.length < 0xffff) (hcomment : comment.length < 65536)
    (hlength : (archiveOf entries comment).body.length < ZIP64_SENTINEL)
    (hentries : ∀ e ∈ entries, e.WellFormed inflateX ∧
      At (archiveOf entries comment).body e.localAt e.localFieldsOf.flatten) :
    (archiveOf entries comment).WellFormed inflateX where
  count := hcount
  body := hlength
  comment := hcomment
  entries := fun e he => (hentries e he).1
  located := fun e he => (hentries e he).2

/-- Of one entry, at the start. -/
theorem archiveOf_one {e : Entry} {comment : Bytes} (he : e.WellFormed inflateX)
    (hat : e.localAt = 0) (hcomment : comment.length < 65536)
    (hlength : (archiveOf [e] comment).body.length < ZIP64_SENTINEL) :
    (archiveOf [e] comment).WellFormed inflateX := by
  refine archiveOf_wellFormed (Nat.lt_of_sub_eq_succ rfl) hcomment hlength fun e' he' => ?_
  obtain rfl := List.mem_singleton.mp he'
  refine ⟨he, ?_⟩
  rw [hat]
  exact ⟨[], by simp [archiveOf]⟩

/-- Of two, the second right behind the first. -/
theorem archiveOf_two {e f : Entry} {comment : Bytes} (he : e.WellFormed inflateX)
    (hf : f.WellFormed inflateX) (hat : e.localAt = 0)
    (hbehind : f.localAt = e.localFieldsOf.flatten.length) (hcomment : comment.length < 65536)
    (hlength : (archiveOf [e, f] comment).body.length < ZIP64_SENTINEL) :
    (archiveOf [e, f] comment).WellFormed inflateX := by
  refine archiveOf_wellFormed (Nat.lt_of_sub_eq_succ rfl) hcomment hlength fun e' he' => ?_
  rcases List.mem_pair.mp he' with rfl | rfl
  · refine ⟨he, ?_⟩
    rw [hat]
    exact ⟨f.localFieldsOf.flatten, by simp [archiveOf]⟩
  · refine ⟨hf, ?_⟩
    rw [hbehind]
    exact ⟨[], by simp [archiveOf]⟩

theorem entryA_wellFormed {localAt : Nat} (h : localAt < 256) :
    (entryA localAt).WellFormed inflateX :=
  smallEntry_wellFormed (by decide) (by decide) (by decide) h rfl

theorem entryAY_wellFormed {localAt : Nat} (h : localAt < 256) :
    (entryAY localAt).WellFormed inflateX :=
  smallEntry_wellFormed (by decide) (by decide) (by decide) h rfl

/-- `a`, then `b`. -/
def packed : Archive := archiveOf [entryA 0, entryB 32] []

/-- The same, `b` first, `a` deflated, and a comment. -/
def repacked : Archive := archiveOf [entryB 0, entryADeflated 32] (ascii "hi")

theorem entryB_wellFormed {localAt : Nat} (h : localAt < 256) :
    (entryB localAt).WellFormed inflateX :=
  smallEntry_wellFormed (by decide) (by decide) (by decide) h rfl

theorem packed_wellFormed : packed.WellFormed inflateX :=
  archiveOf_two (entryA_wellFormed (by decide)) (entryB_wellFormed (by decide)) rfl (by decide)
    (by decide) (by decide)

theorem repacked_wellFormed : repacked.WellFormed inflateX :=
  archiveOf_two (entryB_wellFormed (by decide))
    (smallEntry_wellFormed (by decide) (by decide) (by decide) (by decide) rfl) rfl (by decide)
    (by decide) (by decide)

/-- Looked for offset by offset within the record. -/
theorem lastRecord_of_all {a : Archive}
    (h : ∀ k < a.recordFields.flatten.length, 0 < k →
      getUint32 a.recordFields.flatten k ≠ .ok EOCD_SIGNATURE) : a.LastRecord := by
  intro offset hlt hle
  have hlength : a.bytes.length = a.recordAt + a.recordFields.flatten.length := by
    rw [Archive.bytes, List.length_append, List.length_append, Archive.recordAt]
  have hbefore : (a.body ++ a.directory).length ≤ offset := by
    rw [List.length_append]
    exact Nat.le_of_lt hlt
  have hdrop : a.bytes.drop offset = a.recordFields.flatten.drop (offset - a.recordAt) := by
    rw [Archive.bytes, List.drop_append, List.drop_eq_nil_of_le hbefore, List.nil_append,
      List.length_append, Archive.recordAt]
  have hrecord := h (offset - a.recordAt) (by unfold EOCD_BYTES at hle; omega) (by omega)
  unfold getUint32 at hrecord ⊢
  rwa [hdrop]

def memberA : Member := ⟨ascii "a", ascii "x"⟩

def memberAY : Member := ⟨ascii "a", ascii "y"⟩

def memberB : Member := ⟨ascii "b", ascii "y"⟩

/-- One name twice, with two contents. -/
def twice : Archive := archiveOf [entryA 0, entryAY 32] []

def twiceTurned : Archive := archiveOf [entryAY 0, entryA 32] []

/-- A comment that reads as the end record of an empty archive. -/
def endInComment : Bytes := le32 EOCD_SIGNATURE ++ List.replicate 18 0

def hiddenX : Archive := archiveOf [entryA 0] endInComment

def hiddenY : Archive := archiveOf [entryAY 0] endInComment

/-- Which of the digests are known. -/
def known : List Bytes := digests.map Prod.fst

/-- The text hashed of these members in order is known, and so is what is hashed of each. -/
def AllKnown (sorted : List Member) : Prop :=
  (CONTAINER_FINGERPRINT_VERSION ++ sorted.flatMap fun member =>
    someSha.hex member.nameBytes ++ someSha.hex member.content) ∈ known ∧
  ∀ member ∈ sorted, member.nameBytes ∈ known ∧ member.content ∈ known

instance (sorted : List Member) : Decidable (AllKnown sorted) := inferInstanceAs (Decidable (_ ∧ _))

/-- What the archives and their members come to. -/
theorem archives_computed : (∀ a ∈ [packed, repacked, twice, twiceTurned],
      ∀ k < a.recordFields.flatten.length, 0 < k →
        getUint32 a.recordFields.flatten k ≠ .ok EOCD_SIGNATURE) ∧
    (∀ members ∈ [[memberA, memberB], [memberA, memberAY], [memberAY, memberA], [memberA], [memberAY]],
      AllKnown members) ∧
    (known.map someSha.hex).Nodup ∧
    -- The record in the comment is found first, and is of no members.
    ∀ a ∈ [hiddenX, hiddenY], readMembers inflateX a.bytes = .ok (some []) := by
  refine ⟨?_, ?_, ?_, ?_⟩ <;> decide +kernel

theorem lastRecord_of_mem {a : Archive} (h : a ∈ [packed, repacked, twice, twiceTurned]) :
    a.LastRecord :=
  lastRecord_of_all (archives_computed.1 a h)

theorem allKnown_of_mem {members : List Member}
    (h : members ∈ [[memberA, memberB], [memberA, memberAY], [memberAY, memberA], [memberA], [memberAY]]) :
    AllKnown members :=
  archives_computed.2.1 members h

/-- The text that is hashed of members in order. -/
theorem hashedText_sorted {members sorted : List Member}
    (hsorted : sorted.Pairwise fun a b => sortsBefore a.nameBytes b.nameBytes = true)
    (h : ∀ name, under Member.nameBytes name members = under Member.nameBytes name sorted) :
    hashedText someSha members = CONTAINER_FINGERPRINT_VERSION ++ sorted.flatMap fun member =>
      someSha.hex member.nameBytes ++ someSha.hex member.content := by
  have hsort : sortBy Member.nameBytes sortsBefore sorted = sorted :=
    List.mergeSort_of_pairwise hsorted
  rw [hashedText, (sortBy_eq_iff orders_sortsBefore).mpr h, hsort]

theorem noCollision_of_known {members₁ members₂ : List Member}
    (h₁ : hashed someSha members₁ ⊆ known) (h₂ : hashed someSha members₂ ⊆ known) :
    someSha.NoCollision members₁ members₂ := by
  exact ⟨fun x hx y hy heq =>
    List.inj_on_of_nodup_map archives_computed.2.2.1 (h₁ hx) (h₂ hy) heq⟩

/-- Everything that is hashed of these members is known. -/
theorem hashed_known {members sorted : List Member}
    (hsorted : sorted.Pairwise fun a b => sortsBefore a.nameBytes b.nameBytes = true)
    (h : ∀ name, under Member.nameBytes name members = under Member.nameBytes name sorted)
    (hknown : AllKnown sorted) : hashed someSha members ⊆ known := by
  intro x hx
  rcases List.mem_cons.mp hx with rfl | hx
  · rw [hashedText_sorted hsorted h]
    exact hknown.1
  · obtain ⟨member, hmem, hx⟩ := List.mem_flatMap.mp hx
    have hmem : member ∈ sorted := by
      have hunder : member ∈ under Member.nameBytes member.nameBytes members := by
        simp [under, hmem]
      rw [h] at hunder
      exact List.mem_of_mem_filter hunder
    rcases List.mem_pair.mp hx with rfl | rfl
    · exact (hknown.2 member hmem).1
    · exact (hknown.2 member hmem).2

theorem packed_known : hashed someSha [memberA, memberB] ⊆ known :=
  hashed_known (by decide) (fun _ => rfl) (allKnown_of_mem (by simp))

theorem under_turned (name : Bytes) : under Member.nameBytes name [memberB, memberA] =
    under Member.nameBytes name [memberA, memberB] := by
  by_cases ha : memberA.nameBytes = name
  · have hb : memberB.nameBytes ≠ name := ha ▸ (by decide)
    simp [under, ha, hb]
  · by_cases hb : memberB.nameBytes = name <;> simp [under, ha, hb]

theorem repacked_known : hashed someSha [memberB, memberA] ⊆ known :=
  hashed_known (by decide) under_turned (allKnown_of_mem (by simp))

/-- Packed again in another order, another way and with a comment. -/
theorem containerContentHash_tells_repacked :
    containerContentHash someSha inflateX packed.bytes =
      containerContentHash someSha inflateX repacked.bytes := by
  have htells := containerContentHash_tells someSha packed_wellFormed repacked_wellFormed
    (lastRecord_of_mem (by simp)) (lastRecord_of_mem (by simp)) (noCollision_of_known packed_known repacked_known)
  exact (htells.2.2.1.mpr fun _ name => (under_turned name).symm).mpr (List.Perm.swap _ _ _)

/-! ### Two that the hash gets wrong -/

theorem twice_wellFormed : twice.WellFormed inflateX :=
  archiveOf_two (entryA_wellFormed (by decide)) (entryAY_wellFormed (by decide)) rfl (by decide)
    (by decide) (by decide)

theorem twiceTurned_wellFormed : twiceTurned.WellFormed inflateX :=
  archiveOf_two (entryAY_wellFormed (by decide)) (entryA_wellFormed (by decide)) rfl (by decide)
    (by decide) (by decide)

theorem hiddenX_wellFormed : hiddenX.WellFormed inflateX :=
  archiveOf_one (entryA_wellFormed (by decide)) rfl (by decide) (by decide)

theorem hiddenY_wellFormed : hiddenY.WellFormed inflateX :=
  archiveOf_one (entryAY_wellFormed (by decide)) rfl (by decide) (by decide)

theorem twice_known : hashed someSha [memberA, memberAY] ⊆ known ∧
    hashed someSha [memberAY, memberA] ⊆ known :=
  ⟨hashed_known (by decide) (fun _ => rfl) (allKnown_of_mem (by simp)),
    hashed_known (by decide) (fun _ => rfl) (allKnown_of_mem (by simp))⟩

theorem hidden_known : hashed someSha [memberA] ⊆ known ∧ hashed someSha [memberAY] ⊆ known :=
  ⟨hashed_known (by decide) (fun _ => rfl) (allKnown_of_mem (by simp)),
    hashed_known (by decide) (fun _ => rfl) (allKnown_of_mem (by simp))⟩

/-- The same members, and two hashes; other members, and one hash. -/
theorem containerContentHash_misses :
    (twice.WellFormed inflateX ∧ twiceTurned.WellFormed inflateX ∧
      someSha.NoCollision twice.members twiceTurned.members ∧
      twice.members.Perm twiceTurned.members ∧
      containerContentHash someSha inflateX twice.bytes ≠
        containerContentHash someSha inflateX twiceTurned.bytes) ∧
    (hiddenX.WellFormed inflateX ∧ hiddenY.WellFormed inflateX ∧
      someSha.NoCollision hiddenX.members hiddenY.members ∧
      ¬ hiddenX.members.Perm hiddenY.members ∧
      containerContentHash someSha inflateX hiddenX.bytes =
        containerContentHash someSha inflateX hiddenY.bytes) := by
  have hno := noCollision_of_known twice_known.1 twice_known.2
  refine ⟨⟨twice_wellFormed, twiceTurned_wellFormed, hno, List.Perm.swap _ _ _, ?_⟩,
    hiddenX_wellFormed, hiddenY_wellFormed, noCollision_of_known hidden_known.1 hidden_known.2,
    (by decide), ?_⟩
  · rw [containerContentHash_bytes twice_wellFormed (lastRecord_of_mem (by simp)),
      containerContentHash_bytes twiceTurned_wellFormed
        (lastRecord_of_mem (by simp)),
      ne_eq, Option.some.injEq]
    intro heq
    have hunder := (fingerprint_inj hno).mp heq (ascii "a")
    revert hunder
    decide
  · rw [containerContentHash, containerContentHash, archives_computed.2.2.2 hiddenX (by simp),
      archives_computed.2.2.2 hiddenY (by simp)]

end Ownpace.Container
