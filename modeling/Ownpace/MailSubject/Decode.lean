/-
Ownpace/MailSubject/Decode.lean

The Subject of a message as a person reads it (`mail-subject.ts`): the encoded-words of a
header value, and the cut at `SUBJECT_SCAN_LIMIT`.

A header is decoded as latin1, one character a byte.  The character sets that `TextDecoder`
knows, and base64, are a parameter (`Codec`).
-/
import Ownpace.Keys.Text

namespace Ownpace.MailSubject

open Keys (isWhiteSpace)

abbrev Text := List Char

structure Codec where
  /-- A decoder for this label, or undefined. -/
  decoderFor : Text → Option (List UInt8 → Text)
  base64Bytes : Text → List UInt8

/-! ### One encoded-word -/

/-- What `ENCODED_WORD` captures. -/
structure EncodedWord where
  charset : Text
  encoding : Char
  text : Text
  deriving DecidableEq

/-- `m[0]` -/
def EncodedWord.source (w : EncodedWord) : Text :=
  '=' :: '?' :: (w.charset ++ '?' :: w.encoding :: '?' :: (w.text ++ ['?', '=']))

/-- `[^?\s]` -/
def isWordChar (c : Char) : Bool := c ≠ '?' && !isWhiteSpace c

def isEncoding (c : Char) : Bool := c = 'b' || c = 'B' || c = 'q' || c = 'Q'

/-- The word at the start of a text, and what is behind it. -/
def matchAt : Text → Option (EncodedWord × Text)
  | '=' :: '?' :: s =>
    if s.takeWhile isWordChar = [] then none
    else
      match s.dropWhile isWordChar with
      | '?' :: encoding :: '?' :: t =>
        if isEncoding encoding then
          match t.dropWhile isWordChar with
          | '?' :: '=' :: rest => some (⟨s.takeWhile isWordChar, encoding, t.takeWhile isWordChar⟩, rest)
          | _ => none
        else none
      | _ => none
  | _ => none

/-- The first word of a text: what is before it, the word, and what is behind it. -/
def exec : Text → Option (Text × EncodedWord × Text)
  | [] => none
  | c :: s =>
    match matchAt (c :: s) with
    | some (w, rest) => some ([], w, rest)
    | none => (exec s).map fun found => (c :: found.1, found.2)

/-! ### What one says -/

def hexValue (c : Char) : Option Nat :=
  if c.isDigit then some (c.toNat - 48)
  else if 'a' ≤ c ∧ c ≤ 'f' then some (c.toNat - 87)
  else if 'A' ≤ c ∧ c ≤ 'F' then some (c.toNat - 55)
  else none

/-- The byte of `=XX`, where it is one. -/
def escaped : Text → Option (UInt8 × Text)
  | '=' :: x :: y :: rest =>
    match hexValue x, hexValue y with
    | some h, some l => some (UInt8.ofNat (16 * h + l), rest)
    | _, _ => none
  | _ => none

def quotedPrintableBytes : Text → List UInt8
  | [] => []
  | '_' :: rest => 0x20 :: quotedPrintableBytes rest
  | c :: x :: y :: rest =>
    match escaped (c :: x :: y :: rest) with
    | some (byte, _) => byte :: quotedPrintableBytes rest
    | none => UInt8.ofNat c.toNat :: quotedPrintableBytes (x :: y :: rest)
  | c :: rest => UInt8.ofNat c.toNat :: quotedPrintableBytes rest

def decodeWord (c : Codec) (w : EncodedWord) : Option Text :=
  (c.decoderFor (w.charset.takeWhile (· ≠ '*'))).map fun decode =>
    decode (if w.encoding.toLower = 'b' then c.base64Bytes w.text else quotedPrintableBytes w.text)

/-! ### The cut -/

def SUBJECT_SCAN_LIMIT : Nat := 4096

/-- `lastIndexOf` of two characters; none is -1. -/
def lastIndexOf (a b : Char) : Text → Option Nat
  | c :: d :: s =>
    match lastIndexOf a b (d :: s) with
    | some i => some (i + 1)
    | none => if c = a ∧ d = b then some 0 else none
  | _ => none

/-- The last `=?`, where it stands behind the last `?=`. -/
def danglingOpener (cut : Text) : Option Nat :=
  match lastIndexOf '=' '?' cut with
  | none => none
  | some opener =>
    match lastIndexOf '?' '=' cut with
    | none => some opener
    | some closer => if opener > closer then some opener else none

def bounded (value : Text) : Text :=
  if value.length ≤ SUBJECT_SCAN_LIMIT then value
  else
    let cut := value.take SUBJECT_SCAN_LIMIT
    match danglingOpener cut with
    | some opener => cut.take opener
    | none => cut

/-! ### A header value -/

theorem matchAt_rest {s rest : Text} {w : EncodedWord} (h : matchAt s = some (w, rest)) :
    s = w.source ++ rest := by
  unfold matchAt at h
  split at h
  · next s =>
      split at h
      · cases h
      · split at h
        · next encoding t hs =>
            split at h
            · split at h
              · next rest' ht =>
                  cases h
                  have hcharset := List.takeWhile_append_dropWhile (p := isWordChar) (l := s)
                  have htext := List.takeWhile_append_dropWhile (p := isWordChar) (l := t)
                  rw [hs] at hcharset
                  rw [ht] at htext
                  simp only [EncodedWord.source, List.cons_append, List.append_assoc, List.nil_append]
                  rw [htext, hcharset]
              · cases h
            · cases h
        · cases h
  · cases h

theorem exec_eq {s gap rest : Text} {w : EncodedWord} (h : exec s = some (gap, w, rest)) :
    s = gap ++ w.source ++ rest := by
  induction s generalizing gap with
  | nil => cases h
  | cons c s ih =>
      rw [exec] at h
      split at h
      · next hmatch =>
          cases h
          exact matchAt_rest hmatch
      · obtain ⟨⟨gap', found⟩, hfound, heq⟩ := Option.map_eq_some_iff.mp h
        cases heq
        rw [ih hfound]
        rfl

theorem length_rest_lt {s gap rest : Text} {w : EncodedWord} (h : exec s = some (gap, w, rest)) :
    rest.length < s.length := by
  rw [exec_eq h]
  simp only [List.length_append, EncodedWord.source, List.length_cons]
  omega

/-- The loop, from behind the last word on. -/
def decodeFrom (c : Codec) (previousWasEncoded : Bool) (source : Text) : Text :=
  match h : exec source with
  | none => source
  | some (gap, w, rest) =>
    have := length_rest_lt h
    match decodeWord c w with
    -- An unknown charset: the word stays as the message wrote it.
    | none => gap ++ w.source ++ decodeFrom c false rest
    | some decoded =>
      (if previousWasEncoded && gap.all isWhiteSpace then decoded else gap ++ decoded) ++
        decodeFrom c true rest
  termination_by source.length

def decodeEncodedWords (c : Codec) (value : Option Text) : Option Text :=
  value.map fun value => decodeFrom c false (bounded value)

/-! ### One step of the loop -/

theorem decodeFrom_none {c : Codec} {behind : Bool} {s : Text} (h : exec s = none) :
    decodeFrom c behind s = s := by
  rw [decodeFrom.eq_def]
  split
  · rfl
  · next hsome =>
      rw [h] at hsome
      cases hsome

theorem decodeFrom_some {c : Codec} {behind : Bool} {s gap rest : Text} {w : EncodedWord}
    (h : exec s = some (gap, w, rest)) :
    decodeFrom c behind s = match decodeWord c w with
      | none => gap ++ w.source ++ decodeFrom c false rest
      | some decoded => (if behind && gap.all isWhiteSpace then decoded else gap ++ decoded) ++
          decodeFrom c true rest := by
  rw [decodeFrom.eq_def]
  split
  · next hnone =>
      rw [h] at hnone
      cases hnone
  · next hsome =>
      rw [h] at hsome
      cases hsome
      rfl

end Ownpace.MailSubject
