/-
Ownpace/Ip/Network.lean

Addresses of the two families, and networks of them: `n/p` holds what shares its first `p`
bits with `n`.

`Network.has` is how a list of networks matches an address: the IPv4-mapped form
(`::ffff:a.b.c.d`) and the IPv4 address inside it are one address to it.  `Holds` says what
an address leads to without a choice of spelling, over any set of forms (`Form`) in which
an IPv6 address carries an IPv4 one.
-/
import Mathlib.Data.Set.Defs

namespace Ip

inductive Family : Type
  | ipv4
  | ipv6
  deriving DecidableEq

inductive Address : Type
  | v4 (bits : BitVec 32)
  | v6 (bits : BitVec 128)
  deriving DecidableEq

namespace Address

def family : Address → Family
  | v4 _ => .ipv4
  | v6 _ => .ipv6

def width : Address → Nat
  | v4 _ => 32
  | v6 _ => 128

end Address

/-! ### The first bits -/

/-- Two words with the same first `p` bits. -/
def sameFirst {w : Nat} (p : Nat) (n x : BitVec w) : Bool := n >>> (w - p) == x >>> (w - p)

section SameFirst

variable {w p q : Nat} {n x : BitVec w}

theorem sameFirst_iff : sameFirst p n x = true ↔ n >>> (w - p) = x >>> (w - p) := by
  show (n >>> (w - p) == x >>> (w - p)) = true ↔ _
  exact beq_iff_eq

theorem sameFirst_trans {y : BitVec w} (h : sameFirst p n x = true) (h' : sameFirst p x y = true) :
    sameFirst p n y = true :=
  sameFirst_iff.mpr ((sameFirst_iff.mp h).trans (sameFirst_iff.mp h'))

/-- What shares the first `p` bits shares the first `q`. -/
theorem sameFirst_of_le (hpw : p ≤ w) (hqp : q ≤ p) (h : sameFirst p n x = true) :
    sameFirst q n x = true := by
  have hcut : w - q = (w - p) + (p - q) := by omega
  rw [sameFirst_iff] at h ⊢
  rw [hcut, BitVec.shiftRight_add, BitVec.shiftRight_add, h]

end SameFirst

/-! ### An IPv4 address inside an IPv6 one -/

/-- A form in which an IPv6 address carries an IPv4 address. -/
abbrev Form := BitVec 128 → Option (BitVec 32)

/-- `::ffff:a.b.c.d` -/
def mapped (a : BitVec 32) : BitVec 128 := 0xffff#96 ++ a

def mappedIn : Form := fun x =>
  if x >>> 32 = 0xffff#128 then some (x.setWidth 32) else none

/-- The addresses this one leads to. -/
inductive Reaches (forms : List Form) : Address → Address → Prop
  /-- Written as itself. -/
  | itself {x : Address} : Reaches forms x x
  | carried {x : BitVec 128} {a : BitVec 32} {form : Form} (hform : form ∈ forms)
      (ha : form x = some a) : Reaches forms (.v6 x) (.v4 a)

/-! ### Networks -/

structure Network where
  network : Address
  /-- How many of its bits count. -/
  len : Nat
  deriving DecidableEq

namespace Network

/-- Does the network match the address? -/
def has : Network → Address → Bool
  | ⟨.v4 n, p⟩, .v4 a => sameFirst p n a
  | ⟨.v4 n, p⟩, .v6 x => (mappedIn x).any (sameFirst p n)
  | ⟨.v6 n, p⟩, .v4 a => sameFirst p n (mapped a)
  | ⟨.v6 n, p⟩, .v6 x => sameFirst p n x

/-- The addresses `n/p` is of, in its own family. -/
def addresses : Network → Set Address
  | ⟨.v4 n, p⟩ => {x | ∃ a, x = .v4 a ∧ sameFirst p n a = true}
  | ⟨.v6 n, p⟩ => {x | ∃ y, x = .v6 y ∧ sameFirst p n y = true}

theorem has_of_mem {r : Network} {x : Address} (h : x ∈ r.addresses) : r.has x = true := by
  obtain ⟨n | n, p⟩ := r
  · obtain ⟨a, rfl, ha⟩ := h
    exact ha
  · obtain ⟨y, rfl, hy⟩ := h
    exact hy

/-- **A network that matches no address matches none of what it leads to**, by its own
spelling and the mapped one. -/
theorem not_mem_of_not_has {r : Network} {x y : Address} (hr : r.has x = false)
    (h : Reaches [mappedIn] x y) : y ∉ r.addresses := by
  intro hy
  cases h with
  | itself => exact Bool.false_ne_true (hr.symm.trans (has_of_mem hy))
  | @carried z a form hform ha =>
      obtain rfl := List.mem_singleton.mp hform
      obtain ⟨n | n, p⟩ := r
      · obtain ⟨b, hb, hsame⟩ := hy
        obtain rfl : a = b := Address.v4.inj hb
        have hhas : (mappedIn z).any (sameFirst p n) = true := by
          rw [ha]
          exact hsame
        exact Bool.false_ne_true (hr.symm.trans hhas)
      · obtain ⟨b, hb, -⟩ := hy
        cases hb

/-- **A network inside another**: it starts there, and counts as many bits. -/
theorem mem_of_inside {r s : Network} {x : Address} (hlen : r.len ≤ s.len)
    (hw : s.len ≤ s.network.width)
    (hfamily : r.network.family = s.network.family) (hstart : r.has s.network = true)
    (hx : x ∈ s.addresses) : x ∈ r.addresses := by
  obtain ⟨m | m, q⟩ := r <;> obtain ⟨n | n, p⟩ := s
  · obtain ⟨a, rfl, ha⟩ := hx
    exact ⟨a, rfl, sameFirst_trans hstart (sameFirst_of_le hw hlen ha)⟩
  · cases hfamily
  · cases hfamily
  · obtain ⟨y, rfl, hy⟩ := hx
    exact ⟨y, rfl, sameFirst_trans hstart (sameFirst_of_le hw hlen hy)⟩

end Network

end Ip
