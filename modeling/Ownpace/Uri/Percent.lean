/-
Ownpace/Uri/Percent.lean

Percent-encoding: `encodeURIComponent`, `decodeURIComponent`, and every way a
text can be spelled with escapes.

A text is its characters.  An escape is `%` and two hexadecimal digits, of
either case, and the escapes of a character are those of its UTF-8 bytes.
`Spells t s` says that `t` is one way of writing `s`; whatever way was taken,
decoding reads `s` back.
-/
import Mathlib.Data.List.Basic

namespace Ownpace.Uri

abbrev Text := List Char

/-! ### Escapes -/

def hexValue (c : Char) : Option Nat :=
  if '0' ≤ c ∧ c ≤ '9' then some (c.toNat - '0'.toNat)
  else if 'a' ≤ c ∧ c ≤ 'f' then some (c.toNat - 'a'.toNat + 10)
  else if 'A' ≤ c ∧ c ≤ 'F' then some (c.toNat - 'A'.toNat + 10)
  else none

def hexDigit (n : Nat) : Char :=
  if n < 10 then Char.ofNat ('0'.toNat + n) else Char.ofNat ('A'.toNat + (n - 10))

def hexByte (a b : Char) : Option UInt8 :=
  match hexValue a, hexValue b with
  | some hi, some lo => some (UInt8.ofNat (16 * hi + lo))
  | _, _ => none

/-- The escape of a byte. -/
def escapeByte (x : UInt8) : Text := ['%', hexDigit (x.toNat / 16), hexDigit (x.toNat % 16)]

/-- The escapes of a character. -/
def percentEncode (c : Char) : Text := (String.utf8EncodeChar c).flatMap escapeByte

/-- The bytes of the escapes a text begins with. -/
def escapedBytes : Text → List UInt8
  | '%' :: a :: b :: rest =>
    match hexByte a b with
    | some x => x :: escapedBytes rest
    | none => []
  | _ => []

/-! ### Decoding -/

/-- The character whose escapes a text begins with. -/
def escapedChar (s : Text) : Option Char := (escapedBytes s).toByteArray.utf8DecodeChar? 0

/-- `skip` characters of an escape are still to be passed. -/
def decodeFrom : Nat → Text → Option Text
  | _, [] => some []
  | skip + 1, _ :: rest => decodeFrom skip rest
  | 0, c :: rest =>
    if c = '%' then
      match escapedChar (c :: rest) with
      | some d => (decodeFrom (3 * d.utf8Size - 1) rest).map (d :: ·)
      | none => none
    else (decodeFrom 0 rest).map (c :: ·)

/-- `none` where a `%` begins no escape, or escapes no character: it throws. -/
def decodeURIComponent (s : Text) : Option Text := decodeFrom 0 s

/-! ### Encoding -/

def isUnescaped (c : Char) : Bool :=
  ('A' ≤ c && c ≤ 'Z') || ('a' ≤ c && c ≤ 'z') || ('0' ≤ c && c ≤ '9') ||
    c ∈ ['-', '_', '.', '!', '~', '*', '\'', '(', ')']

def encodeURIComponent (s : Text) : Text :=
  s.flatMap fun c => if isUnescaped c then [c] else percentEncode c

/-! ### Ways of writing a text -/

/-- Escapes of bytes, their digits in either case. -/
inductive Escapes : List UInt8 → Text → Prop
  | nil : Escapes [] []
  | cons {a b x bs t} : hexByte a b = some x → Escapes bs t → Escapes (x :: bs) ('%' :: a :: b :: t)

/-- `t` is a way of writing `s`: each character as it is, if it may be, or by
its escapes. -/
inductive Spells (may : Char → Prop) : Text → Text → Prop
  | nil : Spells may [] []
  | plain {c t s} : may c → c ≠ '%' → Spells may t s → Spells may (c :: t) (c :: s)
  | escaped {c e t s} : Escapes (String.utf8EncodeChar c) e → Spells may t s →
      Spells may (e ++ t) (c :: s)

/-! ### Reading back -/

variable {s t r : Text} {c d : Char} {may : Char → Prop}

theorem decodeFrom_drop {k : Nat} : decodeFrom k s = decodeFrom 0 (s.drop k) := by
  induction s generalizing k with
  | nil => cases k <;> rfl
  | cons c s ih =>
      cases k with
      | zero => rfl
      | succ k => exact ih

@[simp] theorem decode_nil : decodeURIComponent [] = some [] := rfl

theorem decode_cons (hc : c ≠ '%') :
    decodeURIComponent (c :: s) = (decodeURIComponent s).map (c :: ·) := if_neg hc

theorem decode_escaped (h : escapedChar ('%' :: s) = some d) :
    decodeURIComponent ('%' :: s) =
      (decodeURIComponent (('%' :: s).drop (3 * d.utf8Size))).map (d :: ·) := by
  have hsize := d.utf8Size_pos
  obtain ⟨k, hk⟩ : ∃ k, 3 * d.utf8Size = k + 1 := ⟨3 * d.utf8Size - 1, by omega⟩
  unfold decodeURIComponent
  simp only [decodeFrom, if_true, h, hk, Nat.add_sub_cancel, List.drop_succ_cons]
  rw [decodeFrom_drop]

theorem decode_malformed (h : escapedChar ('%' :: s) = none) :
    decodeURIComponent ('%' :: s) = none := by
  unfold decodeURIComponent
  simp only [decodeFrom, if_true, h]

namespace Escapes

variable {bs : List UInt8} {e : Text}

theorem escapedBytes_append (h : Escapes bs e) (r : Text) :
    escapedBytes (e ++ r) = bs ++ escapedBytes r := by
  induction h with
  | nil => rfl
  | cons hx _ ih =>
      simp only [List.cons_append, escapedBytes, hx]
      rw [ih]

theorem length_eq (h : Escapes bs e) : e.length = 3 * bs.length := by
  induction h with
  | nil => rfl
  | cons _ _ ih =>
      simp only [List.length_cons, ih]
      omega

theorem exists_eq_cons (h : Escapes bs e) (hbs : bs ≠ []) : ∃ t, e = '%' :: t := by
  cases h with
  | nil => exact absurd rfl hbs
  | cons _ _ => exact ⟨_, rfl⟩

end Escapes

/-- The escapes of a character are read as it. -/
theorem escapedChar_append {e : Text} (h : Escapes (String.utf8EncodeChar c) e) (r : Text) :
    escapedChar (e ++ r) = some c := by
  rw [escapedChar, h.escapedBytes_append, List.toByteArray_append]
  exact ByteArray.utf8DecodeChar?_utf8EncodeChar_append

theorem decode_escapes {e : Text} (h : Escapes (String.utf8EncodeChar c) e) (r : Text) :
    decodeURIComponent (e ++ r) = (decodeURIComponent r).map (c :: ·) := by
  have hchar := escapedChar_append h r
  have hlength : e.length = 3 * c.utf8Size := by
    rw [h.length_eq, String.length_utf8EncodeChar]
  obtain ⟨e', rfl⟩ := h.exists_eq_cons String.utf8EncodeChar_ne_nil
  rw [List.cons_append] at hchar ⊢
  rw [decode_escaped hchar, ← hlength, ← List.cons_append, List.drop_left]

theorem decode_append_of_spells (h : Spells may t s) (r : Text) :
    decodeURIComponent (t ++ r) = (decodeURIComponent r).map (s ++ ·) := by
  induction h with
  | nil => simp
  | plain _ hc _ ih =>
      rw [List.cons_append, decode_cons hc, ih, Option.map_map]
      rfl
  | escaped he _ ih =>
      rw [List.append_assoc, decode_escapes he, ih, Option.map_map]
      rfl

/-- Whatever way a text is written, it is read back. -/
theorem decode_of_spells (h : Spells may t s) : decodeURIComponent t = some s := by
  have happend := decode_append_of_spells h []
  rwa [List.append_nil, decode_nil, Option.map_some, List.append_nil] at happend

theorem decode_append_plain {p : Text} (hp : '%' ∉ p) (r : Text) :
    decodeURIComponent (p ++ r) = (decodeURIComponent r).map (p ++ ·) := by
  induction p with
  | nil => simp
  | cons c p ih =>
      rw [List.mem_cons, not_or] at hp
      rw [List.cons_append, decode_cons (Ne.symm hp.1), ih hp.2, Option.map_map]
      rfl

/-- A text without a `%` is left as it is. -/
theorem decode_plain (h : '%' ∉ s) : decodeURIComponent s = some s := by
  have happend := decode_append_plain h []
  rwa [List.append_nil, decode_nil, Option.map_some, List.append_nil] at happend

/-! ### Encoding is a way of writing -/

theorem hexValue_hexDigit {n : Nat} (h : n < 16) : hexValue (hexDigit n) = some n := by
  have hall : ∀ k ∈ List.range 16, hexValue (hexDigit k) = some k := by decide
  exact hall n (List.mem_range.mpr h)

theorem hexByte_escapeByte (x : UInt8) :
    hexByte (hexDigit (x.toNat / 16)) (hexDigit (x.toNat % 16)) = some x := by
  have hlt : x.toNat < 256 := x.toNat_lt
  rw [hexByte, hexValue_hexDigit (by omega), hexValue_hexDigit (by omega)]
  dsimp only
  rw [Nat.div_add_mod, UInt8.ofNat_toNat]

theorem escapes_flatMap (bs : List UInt8) : Escapes bs (bs.flatMap escapeByte) := by
  induction bs with
  | nil => exact .nil
  | cons x bs ih => exact .cons (hexByte_escapeByte x) ih

theorem spells_encode (s : Text) : Spells (isUnescaped · = true) (encodeURIComponent s) s := by
  induction s with
  | nil => exact .nil
  | cons c s ih =>
      unfold encodeURIComponent
      rw [List.flatMap_cons]
      split
      · next hc =>
          refine .plain hc ?_ ih
          rintro rfl
          revert hc
          decide
      · exact .escaped (escapes_flatMap _) ih

theorem decode_encode (s : Text) : decodeURIComponent (encodeURIComponent s) = some s :=
  decode_of_spells (spells_encode s)

/-! ### What is read is written -/

theorem exists_escapes {bs more : List UInt8} (h : escapedBytes s = bs ++ more) :
    ∃ e r, s = e ++ r ∧ Escapes bs e := by
  induction bs generalizing s with
  | nil => exact ⟨[], s, rfl, .nil⟩
  | cons x bs ih =>
      unfold escapedBytes at h
      split at h
      · next a b rest =>
          split at h
          · next y hy =>
              rw [List.cons_append, List.cons.injEq] at h
              obtain ⟨rfl, hrest⟩ := h
              obtain ⟨e, r, rfl, he⟩ := ih hrest
              exact ⟨'%' :: a :: b :: e, r, rfl, .cons hy he⟩
          · cases h
      · cases h

theorem exists_of_escapedChar (h : escapedChar s = some d) :
    ∃ e r, s = e ++ r ∧ Escapes (String.utf8EncodeChar d) e := by
  obtain ⟨more, hmore⟩ := ByteArray.exists_of_utf8DecodeChar?_eq_some h
  have hbytes := congrArg (fun b => b.data.toList) hmore
  simp only [List.toList_data_toByteArray, ByteArray.data_append, Array.toList_append] at hbytes
  exact exists_escapes hbytes

/-- What is read as a text is a way of writing it. -/
theorem spells_of_decode (h : decodeURIComponent s = some t) : Spells (fun _ => True) s t := by
  induction hn : s.length using Nat.strongRecOn generalizing s t with
  | _ n ih =>
      subst hn
      cases s with
      | nil =>
          cases h
          exact .nil
      | cons c s =>
          by_cases hc : c = '%'
          · subst hc
            cases hd : escapedChar ('%' :: s) with
            | none =>
                rw [decode_malformed hd] at h
                cases h
            | some d =>
                obtain ⟨e, r, hs, he⟩ := exists_of_escapedChar hd
                rw [hs, decode_escapes he] at h
                obtain ⟨t', ht', rfl⟩ := Option.map_eq_some_iff.mp h
                have hshort : r.length < ('%' :: s).length := by
                  obtain ⟨e', rfl⟩ := he.exists_eq_cons String.utf8EncodeChar_ne_nil
                  rw [hs, List.length_append, List.length_cons]
                  omega
                rw [hs]
                exact .escaped he (ih _ hshort ht' rfl)
          · rw [decode_cons hc] at h
            obtain ⟨t', ht', rfl⟩ := Option.map_eq_some_iff.mp h
            exact .plain trivial hc (ih _ (Nat.lt_succ_self _) ht' rfl)

/-! ### What decoding keeps -/

/-- What is read is what its parts are read as, where the first is read. -/
theorem decode_append {p q : Text} (h : decodeURIComponent p = some q) (r : Text) :
    decodeURIComponent (p ++ r) = (decodeURIComponent r).map (q ++ ·) :=
  decode_append_of_spells (spells_of_decode h) r

namespace Spells

theorem append {t' s' : Text} (h : Spells may t s) (h' : Spells may t' s') :
    Spells may (t ++ t') (s ++ s') := by
  induction h with
  | nil => exact h'
  | plain hmay hc _ ih => exact .plain hmay hc ih
  | escaped he _ ih =>
      rw [List.append_assoc]
      exact .escaped he ih

/-- Writing only lengthens, and lengthens where it escapes. -/
theorem length_le (h : Spells may t s) :
    s.length ≤ t.length ∧ ('%' ∈ t → s.length < t.length) := by
  induction h with
  | nil => exact ⟨Nat.le_refl _, nofun⟩
  | plain _ hc _ ih =>
      refine ⟨Nat.succ_le_succ ih.1, fun hmem => Nat.succ_lt_succ (ih.2 ?_)⟩
      exact (List.mem_cons.mp hmem).resolve_left (Ne.symm hc)
  | @escaped c e t s he _ ih =>
      have hlength := he.length_eq
      have hsize := c.utf8Size_pos
      rw [String.length_utf8EncodeChar] at hlength
      have hle := ih.1
      simp only [List.length_append, List.length_cons]
      exact ⟨by omega, fun _ => by omega⟩

/-- A character that is no digit of an escape is written as often at most. -/
theorem count_le (h : Spells may t s) (hc : c ≠ '%') (hx : hexValue c = none) :
    t.count c ≤ s.count c := by
  induction h with
  | nil => exact Nat.le_refl _
  | plain _ _ _ ih =>
      simp only [List.count_cons]
      omega
  | @escaped d e t s he _ ih =>
      have hnone : e.count c = 0 := by
        refine List.count_eq_zero.mpr ?_
        clear ih
        generalize String.utf8EncodeChar d = bs at he
        induction he with
        | nil => exact List.not_mem_nil
        | @cons a b x bs t hb _ ih =>
            simp only [List.mem_cons, not_or]
            refine ⟨hc, ?_, ?_, ih⟩
            · rintro rfl
              simp [hexByte, hx] at hb
            · rintro rfl
              rw [hexByte, hx] at hb
              split at hb
              · next h => cases h
              · cases hb
      rw [List.count_append, hnone, Nat.zero_add]
      exact Nat.le_trans ih List.count_le_count_cons

end Spells

/-- Decoding only shortens, and shortens what it changes. -/
theorem decode_length (h : decodeURIComponent s = some t) :
    t.length ≤ s.length ∧ ('%' ∈ s → t.length < s.length) := (spells_of_decode h).length_le

theorem decode_count (hc : c ≠ '%') (hx : hexValue c = none) (h : decodeURIComponent s = some t) :
    s.count c ≤ t.count c := (spells_of_decode h).count_le hc hx

end Ownpace.Uri
