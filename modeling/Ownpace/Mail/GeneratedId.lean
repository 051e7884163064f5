/-
Ownpace/Mail/GeneratedId.lean

A Message-ID for mail that arrives without one: `generated-message-id.ts`.

The id is made of a hash of the message and written into it as its first header
line, so that it is read back from the copy (`readMessageId`).  A copy made by an
earlier pass carries the id of another hash (`asWrittenBefore`).

The header line is taken for the line it is unless the message goes on with
white space: then its first line is read as the continuation of the id
(`BeginsFolded`), and the id that is read back is not the id that was returned.
-/
import Mathlib.Data.List.Infix
import Ownpace.Mail.Header

namespace Ownpace.Mail

open Keys

/-! ### The hash -/

def isHexDigit (c : Char) : Bool := ('0' ≤ c && c ≤ '9') || ('a' ≤ c && c ≤ 'f')

/-- `createHash('sha256').update(b).digest('hex')`: sixty-four lower-case digits. -/
structure Sha256 where
  hex : Bytes → List Char
  length_hex : ∀ b, (hex b).length = 64
  hex_digits : ∀ b, ∀ c ∈ hex b, isHexDigit c = true

/-! ### What is hashed -/

/-- `replace(/\r\n?/g, '\n')` -/
def unifyLineEndings : List Char → List Char
  | [] => []
  | '\r' :: '\n' :: rest => '\n' :: unifyLineEndings rest
  | '\r' :: rest => '\n' :: unifyLineEndings rest
  | c :: rest => c :: unifyLineEndings rest

/-- The text before the first `\n\n`, and after it. -/
def splitAtBlankLine : List Char → Option (List Char × List Char)
  | [] => none
  | '\n' :: '\n' :: rest => some ([], rest)
  | c :: rest => (splitAtBlankLine rest).map fun (before, after) => (c :: before, after)

/-- `replace(/\s+/g, ' ')`; `inRun` while a run of white space is passed. -/
def collapsedFrom (inRun : Bool) : List Char → List Char
  | [] => []
  | c :: rest =>
    if isWhiteSpace c then
      if inRun then collapsedFrom true rest else ' ' :: collapsedFrom true rest
    else c :: collapsedFrom false rest

/-- `KEYED_HEADERS` -/
def KEYED_HEADERS : List (List Char) :=
  ["date", "from", "sender", "reply-to", "to", "cc", "subject", "in-reply-to", "references"].map
    String.toList

/-- The name and the value of a keyed header's line. -/
def keyedField (line : List Char) : Option (List Char × List Char) :=
  let before := line.takeWhile (· ≠ ':')
  let name := (trim before).map Char.toLower
  match line.dropWhile (· ≠ ':') with
  | _ :: value =>
    if before ≠ [] ∧ KEYED_HEADERS.contains name then some (name, trim (collapsedFrom false value))
    else none
  | [] => none

/-- `[^";\s\n]` -/
def isBoundaryChar (c : Char) : Bool := c ≠ '"' && c ≠ ';' && !isWhiteSpace c

/-- `/boundary\s*=\s*"?([^";\s\n]+)"?/i` at the front of a text: what it captures,
and what it leaves. -/
def boundaryHere (s : List Char) : Option (List Char × List Char) :=
  match (afterName "boundary".toList s).map (List.dropWhile isWhiteSpace) with
  | some ('=' :: rest) =>
    let rest := rest.dropWhile isWhiteSpace
    let rest := if rest.head? = some '"' then rest.tail else rest
    let captured := rest.takeWhile isBoundaryChar
    let rest := rest.dropWhile isBoundaryChar
    if captured = [] then none
    else some (captured, if rest.head? = some '"' then rest.tail else rest)
  | _ => none

/-- `matchAll`, `skip` characters of the last match still to be passed. -/
def boundariesFrom (skip : Nat) : List Char → List (List Char)
  | [] => []
  | c :: rest =>
    match skip, boundaryHere (c :: rest) with
    | skip + 1, _ => boundariesFrom skip rest
    | 0, some (captured, left) => captured :: boundariesFrom (rest.length - left.length) rest
    | 0, none => boundariesFrom 0 rest

/-- `body.split(old).join(new)`, for an `old` that is not empty. -/
def replacedFrom (old new : List Char) (skip : Nat) : List Char → List Char
  | [] => []
  | c :: rest =>
    match skip with
    | skip + 1 => replacedFrom old new skip rest
    | 0 =>
      if old.isPrefixOf (c :: rest) then new ++ replacedFrom old new (old.length - 1) rest
      else c :: replacedFrom old new 0 rest

/-- Each boundary by its order of appearance, the longest replaced first. -/
def replaceBoundaries (boundaries : List (List Char)) (body : List Char) : List Char :=
  (boundaries.mergeSort fun x y => y.length ≤ x.length).foldl (fun body b =>
    replacedFrom b ("=_b".toList ++ (toString (boundaries.idxOf b)).toList ++ "_=".toList) 0 body)
    body

/-- `replace(/[ \t]+$/gm, '').replace(/\n+$/, '')` -/
def withoutTrailing (body : List Char) : List Char :=
  (['\n'].intercalate ((body.splitOnP (· = '\n')).map (List.rdropWhile isSpaceOrTab))).rdropWhile
    (· = '\n')

def keyMaterial (rfc822 : Bytes) : Bytes :=
  let text := unifyLineEndings (latin1 rfc822)
  let (headerBlock, body) := (splitAtBlankLine text).getD ([], text)
  let fields := ((unfolded headerBlock).splitOnP (· = '\n')).filterMap keyedField
  let body := withoutTrailing (replaceBoundaries (boundariesFrom 0 text).eraseDups body)
  let header := ['\n'].intercalate (KEYED_HEADERS.flatMap fun name =>
    (fields.filter fun field => field.1 = name).map fun field => name ++ ':' :: field.2)
  ofLatin1 (header ++ ['\n', '\n'] ++ body)

/-! ### The id -/

def GENERATED_MESSAGE_ID_DOMAIN : List Char := "generated.openmigrate.invalid".toList

def readMessageId (rfc822 : Bytes) : Option (List Char) :=
  headerValue rfc822 "Message-ID".toList

variable (sha256 : Sha256)

def idOf (digest : List Char) : List Char :=
  '<' :: (digest ++ '@' :: GENERATED_MESSAGE_ID_DOMAIN ++ ['>'])

def generateMessageId (rfc822 : Bytes) : List Char := idOf (sha256.hex (keyMaterial rfc822))

def legacyGeneratedMessageId (rfc822 : Bytes) : List Char := idOf (sha256.hex rfc822)

/-! ### The header line -/

/-- Does the first line end with CRLF?  `afterCr` where the byte before was a CR. -/
def usesCrLfFrom (afterCr : Bool) : Bytes → Bool
  -- no line break at all: the RFC-correct CRLF
  | [] => true
  | b :: rest => if b = 0x0a then afterCr else usesCrLfFrom (b = 0x0d) rest

def usesCrLf (rfc822 : Bytes) : Bool := usesCrLfFrom false rfc822

def prependHeader (rfc822 : Bytes) (headerLine : List Char) : Bytes :=
  let eol := if usesCrLf rfc822 then ['\r', '\n'] else ['\n']
  textEncode (headerLine ++ eol) ++ rfc822

def messageIdLine (messageId : List Char) : List Char := "Message-ID: ".toList ++ messageId

structure EnsuredMessageId where
  rfc822 : Bytes
  messageId : List Char
  generated : Bool
  deriving DecidableEq

def ensureMessageId (rfc822 : Bytes) : EnsuredMessageId :=
  match readMessageId rfc822 with
  | some existing => ⟨rfc822, existing, false⟩
  | none =>
    let messageId := generateMessageId sha256 rfc822
    ⟨prependHeader rfc822 (messageIdLine messageId), messageId, true⟩

/-- How long the line is that this text begins with: `front`, sixty-four hex
digits, `back`, and its end. -/
def digestLine (front back head : List Char) : Option Nat :=
  let digest := (head.drop front.length).take 64
  let rest := head.drop (front.length + 64)
  if front.isPrefixOf head ∧ digest.length = 64 ∧ digest.all isHexDigit ∧ back.isPrefixOf rest then
    match rest.drop back.length with
    | '\n' :: _ => some (front.length + 64 + back.length + 1)
    | '\r' :: '\n' :: _ => some (front.length + 64 + back.length + 2)
    | _ => none
  else none

/-- `/^Message-ID: <[0-9a-f]{64}@generated\.openmigrate\.invalid>(\r?\n)/` -/
def generatedLine (head : List Char) : Option Nat :=
  digestLine "Message-ID: <".toList ('@' :: GENERATED_MESSAGE_ID_DOMAIN ++ ['>']) head

def withoutGeneratedMessageId (rfc822 : Bytes) : Bytes :=
  match generatedLine (latin1 (rfc822.take 160)) with
  | some length => rfc822.drop length
  | none => rfc822

structure WrittenBefore where
  messageId : List Char
  rfc822 : Bytes
  deriving DecidableEq

def asWrittenBefore (written : Bytes) : Option WrittenBefore :=
  let served := withoutGeneratedMessageId written
  if served.length = written.length then none
  else if readMessageId written ≠ some (generateMessageId sha256 served) then none
  else
    let messageId := legacyGeneratedMessageId sha256 served
    some ⟨messageId, prependHeader served (messageIdLine messageId)⟩

/-! ### A message that goes on with white space -/

/-- What the first line of a message adds to a header line put in front of it. -/
def foldedTail (rfc822 : Bytes) : List Char :=
  if foldsAfter (headerSection rfc822) then
    ' ' :: firstLine (unfoldedFrom false ((headerSection rfc822).dropWhile isSpaceOrTab))
  else []

/-- The message begins with a space or a tab, and its first line, unfolded, says
something. -/
def BeginsFolded (rfc822 : Bytes) : Prop :=
  foldsAfter (headerSection rfc822) = true ∧ ¬ Blank (firstLine (unfolded (headerSection rfc822)))

theorem blank_append {a b : List Char} : Blank (a ++ b) ↔ Blank a ∧ Blank b := by
  simp [Blank, or_imp, forall_and]

theorem blank_of_spaceOrTab {s : List Char} (hs : ∀ c ∈ s, isSpaceOrTab c = true) : Blank s := by
  intro c hc
  have h := hs c hc
  simp only [isSpaceOrTab, Bool.or_eq_true, decide_eq_true_eq] at h
  rcases h with rfl | rfl <;> decide

theorem isLineTerminator_of_spaceOrTab {c : Char} (hc : isSpaceOrTab c = true) :
    isLineTerminator c = false := by
  simp only [isSpaceOrTab, Bool.or_eq_true, decide_eq_true_eq] at hc
  rcases hc with rfl | rfl <;> decide

theorem firstLine_append {a : List Char} (ha : OneLine a) (b : List Char) :
    firstLine (a ++ b) = a ++ firstLine b := by
  rw [firstLine, List.takeWhile_append_of_pos]
  · rfl
  · intro c hc
    rw [ha c hc]
    rfl

theorem blank_foldedTail_iff (rfc822 : Bytes) : Blank (foldedTail rfc822) ↔ ¬ BeginsFolded rfc822 := by
  unfold foldedTail BeginsFolded
  split
  · next hfold =>
      have hws : Blank ((headerSection rfc822).takeWhile isSpaceOrTab) :=
        blank_of_spaceOrTab fun c hc => List.mem_takeWhile_imp hc
      have hone : OneLine ((headerSection rfc822).takeWhile isSpaceOrTab) :=
        fun c hc => isLineTerminator_of_spaceOrTab (List.mem_takeWhile_imp hc)
      have hspace : Blank [' '] := blank_of_spaceOrTab (List.forall_mem_singleton.mpr rfl)
      rw [unfoldedFrom_dropWhile, firstLine_append hone, blank_append, not_and_not_right]
      rw [← List.singleton_append, blank_append]
      exact ⟨fun h _ => ⟨hws, h.2⟩, fun h => ⟨hspace, (h hfold).2⟩⟩
  · next hfold => exact iff_of_true (fun c hc => nomatch hc) fun h => hfold h.1

/-! ### A header line put in front of a message -/

theorem findHeaderEnd_append {a : Bytes} (ha : ∀ x ∈ a, x ≠ 0x0d ∧ x ≠ 0x0a) (b : Bytes) :
    findHeaderEnd (a ++ b) = a.length + findHeaderEnd b := by
  induction a with
  | nil => exact (Nat.zero_add _).symm
  | cons x a ih =>
      obtain ⟨hcr, hlf⟩ := ha x List.mem_cons_self
      rw [List.cons_append, findHeaderEnd, if_neg, ih fun y hy => ha y (List.mem_cons_of_mem _ hy),
        List.length_cons]
      · omega
      · simp [List.isPrefixOf, hcr.symm, hlf.symm]

theorem headerSection_append {a : Bytes} (ha : ∀ x ∈ a, x ≠ 0x0d ∧ x ≠ 0x0a) (b : Bytes) :
    headerSection (a ++ b) = latin1 a ++ headerSection b := by
  rw [headerSection, findHeaderEnd_append ha, List.take_length_add_append, latin1_append]
  rfl

/-- The section of a message that begins with this byte, if it has one, does too. -/
theorem foldsAfter_of_first {x : UInt8} (hx : isSpaceOrTab (Char.ofNat x.toNat) = false)
    (rest : Bytes) : foldsAfter (headerSection (x :: rest)) = false := by
  unfold headerSection
  cases findHeaderEnd (x :: rest) with
  | zero => rfl
  | succ n => exact hx

/-- What follows a header line of this message: its end, and the message's own
headers, or nothing where the message begins with a line break. -/
inductive FollowedBy (rfc822 : Bytes) : List Char → Prop
  | nothing : foldsAfter (headerSection rfc822) = false → FollowedBy rfc822 []
  | lf : FollowedBy rfc822 ('\n' :: headerSection rfc822)
  | crlf : FollowedBy rfc822 ('\r' :: '\n' :: headerSection rfc822)

theorem followedBy_eol (rfc822 : Bytes) :
    FollowedBy rfc822
      (headerSection (ofLatin1 (if usesCrLf rfc822 then ['\r', '\n'] else ['\n']) ++ rfc822)) := by
  cases hcrlf : usesCrLf rfc822 with
  | false =>
      show FollowedBy rfc822 (headerSection (0x0a :: rfc822))
      by_cases hlf : rfc822.head? = some 0x0a
      · obtain ⟨rest, rfl⟩ := List.head?_eq_some_iff.mp hlf
        exact .nothing (foldsAfter_of_first (by decide) rest)
      · have hend : findHeaderEnd (0x0a :: rfc822) = findHeaderEnd rfc822 + 1 := by
          rw [findHeaderEnd, if_neg]
          cases rfc822 with
          | nil => decide
          | cons x rest =>
              have hx : ¬ (0x0a : UInt8) = x := fun h => hlf (by rw [← h]; rfl)
              simp [List.isPrefixOf, hx]
        rw [headerSection, hend]
        exact .lf
  | true =>
      show FollowedBy rfc822 (headerSection (0x0d :: 0x0a :: rfc822))
      by_cases hbreak : [0x0d, 0x0a].isPrefixOf rfc822 = true
      · obtain ⟨rest, rfl⟩ := List.isPrefixOf_iff_prefix.mp hbreak
        exact .nothing (foldsAfter_of_first (by decide) _)
      · -- A first byte LF would be a line that no CR ends.
        have hlf : ∀ x ∈ rfc822.head?, ¬ (0x0a : UInt8) = x := by
          rintro x hx rfl
          obtain ⟨rest, rfl⟩ := List.head?_eq_some_iff.mp hx
          cases hcrlf
        have hend : findHeaderEnd (0x0d :: 0x0a :: rfc822) = findHeaderEnd rfc822 + 2 := by
          rw [findHeaderEnd, if_neg, findHeaderEnd, if_neg]
          · cases rfc822 with
            | nil => decide
            | cons x rest => simp [List.isPrefixOf, hlf x rfl]
          · simpa [List.isPrefixOf] using hbreak
        rw [headerSection, hend]
        exact .crlf

/-- The first line of a header section, a line put in front of it. -/
theorem firstLine_followedBy {line rest : List Char} {rfc822 : Bytes} (hline : OneLine line)
    (hne : line ≠ []) (h : FollowedBy rfc822 rest) :
    firstLine (unfolded (line ++ rest)) = line ++ foldedTail rfc822 := by
  have hplain : ∀ c ∈ line, c ≠ '\n' ∧ c ≠ '\r' := by
    intro c hc
    have h := hline c hc
    constructor <;> (rintro rfl; cases h)
  rw [unfolded, unfoldedFrom_append hplain hne, firstLine_append hline, List.append_cancel_left_eq]
  cases h with
  | nothing hno => rw [foldedTail, hno]; rfl
  | lf =>
      unfold foldedTail
      cases hfold : foldsAfter (headerSection rfc822) with
      | true => rw [if_pos rfl, ← unfoldedFrom_true_eq]; simp [unfoldedFrom, hfold, firstLine, isLineTerminator]
      | false => simp [unfoldedFrom, hfold, firstLine, isLineTerminator]
  | crlf =>
      unfold foldedTail
      cases hfold : foldsAfter (headerSection rfc822) with
      | true => rw [if_pos rfl, ← unfoldedFrom_true_eq]; simp [unfoldedFrom, hfold, firstLine, isLineTerminator]
      | false => simp [unfoldedFrom, hfold, firstLine, isLineTerminator]

/-! ### Reading it back -/

/-- A header line of one line, of ASCII characters. -/
structure PlainLine (line : List Char) : Prop where
  ascii : IsAscii line
  oneLine : OneLine line
  ne_nil : line ≠ []

theorem firstLine_prependHeader {line : List Char} (h : PlainLine line) (rfc822 : Bytes) :
    firstLine (unfolded (headerSection (prependHeader rfc822 line))) = line ++ foldedTail rfc822 := by
  have heol : IsAscii (if usesCrLf rfc822 then ['\r', '\n'] else ['\n']) := by
    split <;> simp [IsAscii]
  have hplain : ∀ x ∈ ofLatin1 line, x ≠ 0x0d ∧ x ≠ 0x0a := by
    intro x hx
    obtain ⟨c, hc, rfl⟩ := List.mem_map.mp hx
    have hlt := h.ascii c hc
    have hterm := h.oneLine c hc
    constructor <;> intro heq
    all_goals
      have hnat := congrArg UInt8.toNat heq
      rw [UInt8.toNat_ofNat_of_lt' (Nat.lt_trans hlt (by decide))] at hnat
      rw [← Char.ofNat_toNat c, hnat] at hterm
      cases hterm
  rw [prependHeader, textEncode, List.flatMap_append, List.append_assoc]
  show firstLine (unfolded (headerSection (textEncode line ++ (textEncode _ ++ rfc822)))) = _
  rw [textEncode_of_ascii h.ascii, textEncode_of_ascii heol, headerSection_append hplain,
    latin1_ofLatin1 h.ascii]
  exact firstLine_followedBy h.oneLine h.ne_nil (followedBy_eol rfc822)

/-- A blank in front of an id in brackets, and what is behind it. -/
theorem trim_beside_brackets (inner tail : List Char) :
    trim (' ' :: (inBrackets inner ++ tail)) = inBrackets inner ↔ Blank tail := by
  have hspace : Blank [' '] := blank_of_spaceOrTab (List.forall_mem_singleton.mpr rfl)
  constructor
  · intro htrim
    obtain ⟨w₁, w₂, h₁, h₂, heq⟩ := exists_padding (' ' :: (inBrackets inner ++ tail))
    rw [htrim] at heq
    -- Both sides, without the blanks in front of the bracket.
    have hdrop := congrArg (List.dropWhile isWhiteSpace) heq
    rw [List.append_assoc, dropWhile_blank_append h₁, ← List.singleton_append,
      dropWhile_blank_append hspace] at hdrop
    have hfront (t : List Char) :
        (inBrackets inner ++ t).dropWhile isWhiteSpace = inBrackets inner ++ t := by
      rw [inBrackets, List.cons_append, List.dropWhile_cons_of_neg (by decide)]
    rw [hfront, hfront, List.append_cancel_left_eq] at hdrop
    exact hdrop ▸ h₂
  · intro htail
    exact trim_padded hspace htail (trimmed_inBrackets inner)

/-- **What is read back** of a message whose first header line is this id's. -/
theorem readMessageId_prependHeader {inner : List Char}
    (h : PlainLine (messageIdLine (inBrackets inner))) (rfc822 : Bytes) :
    readMessageId (prependHeader rfc822 (messageIdLine (inBrackets inner))) =
      nonEmptyText (trim (' ' :: (inBrackets inner ++ foldedTail rfc822))) := by
  refine headerValueIn_of_firstLine ?_
  rw [firstLine_prependHeader h]
  rfl

theorem readMessageId_prependHeader_iff {inner : List Char}
    (h : PlainLine (messageIdLine (inBrackets inner))) (rfc822 : Bytes) :
    readMessageId (prependHeader rfc822 (messageIdLine (inBrackets inner))) =
      some (inBrackets inner) ↔ ¬ BeginsFolded rfc822 := by
  rw [readMessageId_prependHeader h, nonEmptyText_eq_some, trim_beside_brackets,
    blank_foldedTail_iff]
  exact and_iff_left (List.cons_ne_nil _ _)

/-! ### Taking it off again -/

section Sha256

variable {sha256 : Sha256} {digest : List Char}

/-- Sixty-four lower-case hex digits. -/
structure IsDigest (digest : List Char) : Prop where
  length_eq : digest.length = 64
  hex : ∀ c ∈ digest, isHexDigit c = true

theorem isDigest_hex (b : Bytes) : IsDigest (sha256.hex b) :=
  ⟨sha256.length_hex b, sha256.hex_digits b⟩

theorem ascii_of_hexDigit {c : Char} (hc : isHexDigit c = true) :
    c.toNat < 128 ∧ isLineTerminator c = false := by
  simp only [isHexDigit, Bool.or_eq_true, Bool.and_eq_true, decide_eq_true_eq] at hc
  have hle : c.toNat ≤ 'f'.toNat := by
    rcases hc with ⟨-, h⟩ | ⟨-, h⟩
    · exact Nat.le_trans h (by decide)
    · exact h
  have hge : '0'.toNat ≤ c.toNat := by
    rcases hc with ⟨h, -⟩ | ⟨h, -⟩
    · exact h
    · exact Nat.le_trans (by decide) h
  refine ⟨Nat.lt_of_le_of_lt hle (by decide), ?_⟩
  simp only [isLineTerminator, decide_eq_false_iff_not, List.mem_cons, List.not_mem_nil, or_false]
  rintro (rfl | rfl | rfl | rfl)
  · exact absurd hge (by decide)
  · exact absurd hge (by decide)
  · exact absurd hle (by decide)
  · exact absurd hle (by decide)

/-- An ASCII character that ends no line. -/
def isPlain (c : Char) : Bool := c.toNat < 128 && !isLineTerminator c

theorem isPlain_of_hexDigit {c : Char} (hc : isHexDigit c = true) : isPlain c = true := by
  obtain ⟨hascii, hterm⟩ := ascii_of_hexDigit hc
  simp [isPlain, hascii, hterm]

theorem plainLine_of_all {line : List Char} (hne : line ≠ []) (h : line.all isPlain = true) :
    PlainLine line := by
  have hall (c : Char) (hc : c ∈ line) : c.toNat < 128 ∧ isLineTerminator c = false := by
    simpa [isPlain] using List.all_eq_true.mp h c hc
  exact ⟨fun c hc => (hall c hc).1, fun c hc => (hall c hc).2, hne⟩

theorem all_isPlain_bracketed {front domain : List Char} (hfront : front.all isPlain = true)
    (hdigest : digest.all isPlain = true) (hdomain : domain.all isPlain = true) :
    (front ++ '<' :: (digest ++ '@' :: domain ++ ['>'])).all isPlain = true := by
  rw [List.all_append, hfront, List.all_cons, List.all_append, List.all_append, hdigest,
    List.all_cons, hdomain]
  decide

theorem plainLine_idOf (h : IsDigest digest) : PlainLine (messageIdLine (idOf digest)) := by
  have hdigest : digest.all isPlain = true :=
    List.all_eq_true.mpr fun c hc => isPlain_of_hexDigit (h.hex c hc)
  refine plainLine_of_all (List.append_ne_nil_of_right_ne_nil _ (List.cons_ne_nil _ _)) ?_
  exact all_isPlain_bracketed (by decide +kernel) hdigest (by decide +kernel)

theorem digestLine_append (h : IsDigest digest) (front back eol rest : List Char)
    (heol : eol = ['\n'] ∨ eol = ['\r', '\n']) :
    digestLine front back (front ++ (digest ++ (back ++ (eol ++ rest)))) =
      some (front.length + 64 + back.length + eol.length) := by
  have hdrop (s : List Char) : (front ++ (digest ++ s)).drop (front.length + 64) = s := by
    rw [← h.length_eq, ← List.length_append, ← List.append_assoc, List.drop_left]
  have htake (s : List Char) : ((front ++ (digest ++ s)).drop front.length).take 64 = digest := by
    rw [List.drop_left, ← h.length_eq, List.take_left]
  have hhex : digest.all isHexDigit = true := List.all_eq_true.mpr h.hex
  have hfront (s : List Char) : front.isPrefixOf (front ++ s) = true :=
    List.isPrefixOf_iff_prefix.mpr (List.prefix_append _ _)
  have hback (s : List Char) : back.isPrefixOf (back ++ s) = true :=
    List.isPrefixOf_iff_prefix.mpr (List.prefix_append _ _)
  unfold digestLine
  dsimp only
  rw [hdrop, htake, if_pos ⟨hfront _, h.length_eq, hhex, hback _⟩, List.drop_left]
  rcases heol with rfl | rfl <;> rfl

/-- The bytes of a header line, its end with it. -/
theorem prependHeader_eq {line : List Char} (h : PlainLine line) (rfc822 : Bytes) :
    ∃ eol, (eol = ['\n'] ∨ eol = ['\r', '\n']) ∧
      prependHeader rfc822 line = ofLatin1 (line ++ eol) ++ rfc822 ∧
      latin1 (ofLatin1 (line ++ eol)) = line ++ eol := by
  have hascii {eol : List Char} (heol : IsAscii eol) : IsAscii (line ++ eol) := by
    intro c hc
    rcases List.mem_append.mp hc with hc | hc
    · exact h.ascii c hc
    · exact heol c hc
  unfold prependHeader
  cases usesCrLf rfc822 with
  | true =>
      have heol : IsAscii ['\r', '\n'] := by simp [IsAscii]
      exact ⟨_, .inr rfl, congrArg (· ++ rfc822) (textEncode_of_ascii (hascii heol)),
        latin1_ofLatin1 (hascii heol)⟩
  | false =>
      have heol : IsAscii ['\n'] := by simp [IsAscii]
      exact ⟨_, .inl rfl, congrArg (· ++ rfc822) (textEncode_of_ascii (hascii heol)),
        latin1_ofLatin1 (hascii heol)⟩

theorem bracketed_append_eq {name front : List Char} (h : name ++ ['<'] = front)
    (digest back rest : List Char) :
    name ++ '<' :: (digest ++ back ++ ['>']) ++ rest = front ++ (digest ++ ((back ++ ['>']) ++ rest)) := by
  subst h
  simp

/-- The header line is taken off again, and nothing else. -/
theorem withoutGeneratedMessageId_prependHeader (h : IsDigest digest) (rfc822 : Bytes) :
    withoutGeneratedMessageId (prependHeader rfc822 (messageIdLine (idOf digest))) = rfc822 := by
  obtain ⟨eol, heol, hbytes, htext⟩ := prependHeader_eq (plainLine_idOf h) rfc822
  have hline (rest : List Char) : messageIdLine (idOf digest) ++ (eol ++ rest) =
      "Message-ID: <".toList ++ (digest ++ (('@' :: GENERATED_MESSAGE_ID_DOMAIN ++ ['>']) ++
        (eol ++ rest))) :=
    bracketed_append_eq (by decide) _ _ _
  have hlen : (messageIdLine (idOf digest) ++ eol).length = 13 + 64 + 31 + eol.length := by
    rw [← List.append_nil eol, hline, List.length_append, List.length_append, h.length_eq,
      List.length_append, List.append_nil]
    show 13 + (64 + (31 + eol.length)) = 13 + 64 + 31 + eol.length
    omega
  have hshort : (messageIdLine (idOf digest) ++ eol).length ≤ 160 := by
    rw [hlen]
    rcases heol with rfl | rfl <;> decide
  have hbyteLen : (ofLatin1 (messageIdLine (idOf digest) ++ eol)).length =
      (messageIdLine (idOf digest) ++ eol).length := List.length_map _
  have hhead : latin1 ((prependHeader rfc822 (messageIdLine (idOf digest))).take 160) =
      messageIdLine (idOf digest) ++ (eol ++
        latin1 (rfc822.take (160 - (messageIdLine (idOf digest) ++ eol).length))) := by
    rw [hbytes, List.take_append, hbyteLen, List.take_of_length_le (hbyteLen ▸ hshort),
      latin1_append, htext, List.append_assoc]
  have hfound : generatedLine (latin1
      ((prependHeader rfc822 (messageIdLine (idOf digest))).take 160)) =
        some (messageIdLine (idOf digest) ++ eol).length := by
    rw [hhead, hline, generatedLine, digestLine_append h _ _ _ _ heol, hlen]
    rfl
  rw [withoutGeneratedMessageId, hfound, hbytes]
  exact List.drop_left' hbyteLen

/-! ### One identity -/

variable (sha256) in
/-- A message keeps one identity: the id it is given is the one that is read
back, giving it again changes nothing, and what was put in front of it can be
taken off, and be exchanged for the id it was given before. -/
structure IdentityKept (rfc822 : Bytes) : Prop where
  readBack : readMessageId (ensureMessageId sha256 rfc822).rfc822 =
    some (ensureMessageId sha256 rfc822).messageId
  again : ensureMessageId sha256 (ensureMessageId sha256 rfc822).rfc822 =
    ⟨(ensureMessageId sha256 rfc822).rfc822, (ensureMessageId sha256 rfc822).messageId, false⟩
  stripped : (ensureMessageId sha256 rfc822).generated = true →
    withoutGeneratedMessageId (ensureMessageId sha256 rfc822).rfc822 = rfc822
  before : (ensureMessageId sha256 rfc822).generated = true →
    ∃ written, asWrittenBefore sha256 (ensureMessageId sha256 rfc822).rfc822 = some written ∧
      written.messageId = legacyGeneratedMessageId sha256 rfc822 ∧
      readMessageId written.rfc822 = some written.messageId ∧
      withoutGeneratedMessageId written.rfc822 = rfc822
  own : (readMessageId rfc822).isSome = true → (ensureMessageId sha256 rfc822).rfc822 = rfc822

theorem readMessageId_prependHeader_idOf (h : IsDigest digest) (rfc822 : Bytes) :
    readMessageId (prependHeader rfc822 (messageIdLine (idOf digest))) = some (idOf digest) ↔
      ¬ BeginsFolded rfc822 :=
  readMessageId_prependHeader_iff (plainLine_idOf h) rfc822

theorem ensureMessageId_of_own {rfc822 : Bytes} {messageId : List Char}
    (h : readMessageId rfc822 = some messageId) :
    ensureMessageId sha256 rfc822 = ⟨rfc822, messageId, false⟩ := by
  rw [ensureMessageId, h]

theorem ensureMessageId_of_none {rfc822 : Bytes} (h : readMessageId rfc822 = none) :
    ensureMessageId sha256 rfc822 =
      ⟨prependHeader rfc822 (messageIdLine (generateMessageId sha256 rfc822)),
        generateMessageId sha256 rfc822, true⟩ := by
  rw [ensureMessageId, h]

theorem length_prependHeader_ne (h : IsDigest digest) (rfc822 : Bytes) :
    rfc822.length ≠ (prependHeader rfc822 (messageIdLine (idOf digest))).length := by
  obtain ⟨eol, -, hbytes, -⟩ := prependHeader_eq (plainLine_idOf h) rfc822
  have hpos : 0 < (messageIdLine (idOf digest)).length :=
    List.length_pos_iff.mpr (plainLine_idOf h).ne_nil
  rw [hbytes, List.length_append, ofLatin1, List.length_map, List.length_append]
  omega

/-- The message under its earlier id, where the id it has now is read back. -/
theorem asWrittenBefore_prependHeader {rfc822 : Bytes} (hplain : ¬ BeginsFolded rfc822) :
    asWrittenBefore sha256
        (prependHeader rfc822 (messageIdLine (generateMessageId sha256 rfc822))) =
      some ⟨legacyGeneratedMessageId sha256 rfc822,
        prependHeader rfc822 (messageIdLine (legacyGeneratedMessageId sha256 rfc822))⟩ := by
  have hread : readMessageId
      (prependHeader rfc822 (messageIdLine (generateMessageId sha256 rfc822))) =
        some (generateMessageId sha256 rfc822) :=
    (readMessageId_prependHeader_idOf (isDigest_hex _) _).mpr hplain
  have hserved : withoutGeneratedMessageId
      (prependHeader rfc822 (messageIdLine (generateMessageId sha256 rfc822))) = rfc822 :=
    withoutGeneratedMessageId_prependHeader (isDigest_hex _) _
  have hlonger : rfc822.length ≠
      (prependHeader rfc822 (messageIdLine (generateMessageId sha256 rfc822))).length :=
    length_prependHeader_ne (isDigest_hex _) _
  rw [asWrittenBefore]
  dsimp only
  rw [hserved, if_neg hlonger, if_neg (not_not.mpr hread)]

/-- Where the message has no id of its own, the id it is given has to be read back. -/
theorem IdentityKept.not_beginsFolded {rfc822 : Bytes} (h : IdentityKept sha256 rfc822)
    (hown : readMessageId rfc822 = none) : ¬ BeginsFolded rfc822 := by
  have hread := h.readBack
  rw [ensureMessageId_of_none hown] at hread
  exact (readMessageId_prependHeader_idOf (isDigest_hex _) _).mp hread

/-- **A message keeps one identity** exactly where it has an id of its own, or
does not begin with a continuation line. -/
theorem identityKept_iff (sha256 : Sha256) (rfc822 : Bytes) :
    IdentityKept sha256 rfc822 ↔
      (readMessageId rfc822).isSome = true ∨ ¬ BeginsFolded rfc822 := by
  cases hown : readMessageId rfc822 with
  | some messageId =>
      refine iff_of_true ?_ (.inl rfl)
      have hens : ensureMessageId sha256 rfc822 = ⟨rfc822, messageId, false⟩ :=
        ensureMessageId_of_own hown
      constructor <;> rw [hens]
      · exact hown
      · exact hens
      · exact nofun
      · exact nofun
      · exact fun _ => rfl
  | none =>
      have hens : ensureMessageId sha256 rfc822 =
          ⟨prependHeader rfc822 (messageIdLine (generateMessageId sha256 rfc822)),
            generateMessageId sha256 rfc822, true⟩ := ensureMessageId_of_none hown
      rw [or_iff_right (by decide)]
      constructor
      · exact fun h => h.not_beginsFolded hown
      · intro hplain
        have hback : readMessageId
            (prependHeader rfc822 (messageIdLine (generateMessageId sha256 rfc822))) =
              some (generateMessageId sha256 rfc822) :=
          (readMessageId_prependHeader_idOf (isDigest_hex _) _).mpr hplain
        constructor <;> rw [hens]
        · exact hback
        · exact ensureMessageId_of_own hback
        · exact fun _ => withoutGeneratedMessageId_prependHeader (isDigest_hex _) _
        · exact fun _ => ⟨_, asWrittenBefore_prependHeader hplain, rfl,
            (readMessageId_prependHeader_idOf (isDigest_hex _) _).mpr hplain,
            withoutGeneratedMessageId_prependHeader (isDigest_hex _) _⟩
        · rw [hown]
          exact nofun

/-- A message of one line that begins with a space: the id it is given is read
back with that line behind it. -/
theorem foldedMessage_identity_lost :
    ¬ ∃ sha256 : Sha256, IdentityKept sha256 (textEncode " x\n\n".toList) := by
  rintro ⟨sha256, h⟩
  refine h.not_beginsFolded (by decide) ⟨by decide, fun hblank => ?_⟩
  have hx := hblank 'x' (by decide)
  revert hx
  decide

end Sha256

end Ownpace.Mail
