/-
Ownpace/Ip/Spelling.lean

Addresses as they are written: four decimal numbers with dots, or eight groups of
hexadecimal digits with colons, where `::` stands for groups of zeros and the last two
groups may be an IPv4 address.

`read` takes each spelling to its address; a zone (`%eth0`) it does not take.
-/
import Ownpace.Ip.Network

namespace Ip

/-- A decimal number up to 255, without a leading zero. -/
def octet (s : List Char) : Option Nat :=
  if s ≠ [] ∧ s.length ≤ 3 ∧ s.all Char.isDigit ∧ (s.head? ≠ some '0' ∨ s.length = 1) ∧
      Nat.ofDigitChars 10 s 0 ≤ 255 then
    some (Nat.ofDigitChars 10 s 0)
  else none

def readV4 (s : List Char) : Option (BitVec 32) :=
  match (s.splitOnP (· = '.')).mapM octet with
  | some [a, b, c, d] => some (BitVec.ofNat 32 (((a * 256 + b) * 256 + c) * 256 + d))
  | _ => none

def hexDigit (c : Char) : Option Nat :=
  if c.isDigit then some (c.toNat - 48)
  else if 'a' ≤ c ∧ c ≤ 'f' then some (c.toNat - 87)
  else if 'A' ≤ c ∧ c ≤ 'F' then some (c.toNat - 55)
  else none

/-- One to four hexadecimal digits. -/
def group (s : List Char) : Option Nat :=
  if s = [] ∨ 4 < s.length then none
  else (s.mapM hexDigit).map fun ds => ds.foldl (fun n d => n * 16 + d) 0

/-- Groups with colons between them; none of them for the empty text. -/
def groups (s : List Char) : Option (List Nat) :=
  if s = [] then some []
  else
    let pieces := s.splitOnP (· = ':')
    match pieces.getLast?.bind readV4 with
    | some a => (pieces.dropLast.mapM group).map fun gs => gs ++ [a.toNat / 65536, a.toNat % 65536]
    | none => pieces.mapM group

/-- What stands on the two sides of the first `::`. -/
def splitAtGap : List Char → Option (List Char × List Char)
  | ':' :: ':' :: rest => some ([], rest)
  | c :: rest => (splitAtGap rest).map fun sides => (c :: sides.1, sides.2)
  | [] => none

def readV6 (s : List Char) : Option (BitVec 128) :=
  let all : Option (List Nat) :=
    match splitAtGap s with
    | none => groups s
    | some (left, right) =>
      match groups left, groups right with
      | some ls, some rs =>
        if ls.length + rs.length ≤ 7 then
          some (ls ++ List.replicate (8 - (ls.length + rs.length)) 0 ++ rs)
        else none
      | _, _ => none
  match all with
  | some gs => if gs.length = 8 then some (BitVec.ofNat 128 (gs.foldl (fun n g => n * 65536 + g) 0)) else none
  | none => none

def read (s : List Char) : Option Address :=
  ((readV4 s).map .v4).or ((readV6 s).map .v6)

example : read "::ffff:127.0.0.1".toList = some (.v6 (mapped 0x7f000001#32)) := by decide

/-! ### Forms -/

/-- `::a.b.c.d` -/
def compatible : Form := fun x => if x >>> 32 = 0#128 then some (x.setWidth 32) else none

/-- `64:ff9b::a.b.c.d`, which a translator takes to the IPv4 address. -/
def translated : Form := fun x =>
  if x >>> 32 = 0x0064ff9b0000000000000000#128 then some (x.setWidth 32) else none

/-- `2002:` and then the IPv4 address. -/
def sixToFour : Form := fun x =>
  if x >>> 112 = 0x2002#128 then some ((x >>> 80).setWidth 32) else none

/-- The forms an IPv4 address is carried in. -/
def carriers : List Form := [mappedIn, compatible, translated, sixToFour]

end Ip
