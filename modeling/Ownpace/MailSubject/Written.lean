/-
Ownpace/MailSubject/Written.lean

What a subject is written with, and what is read of it.

A value is plain text with encoded-words in it (`Piece`).  Written with plain text that holds
no `=?`, it is read back exactly (`decodeFrom_written`); and whatever a value is, outside the
words that are decoded it stands as it was (`exists_pieces`).

The cut at the limit goes by where the last `=?` and the last `?=` stand, and both occur
inside a word: `cuts_whole_iff` says when no word is left unfinished and nothing else is lost.
-/
import Ownpace.MailSubject.Decode

namespace Ownpace.MailSubject

open Keys (isWhiteSpace)

variable {c : Codec} {w : EncodedWord} {s t gap rest tail : Text}

/-! ### Words -/

structure EncodedWord.Legal (w : EncodedWord) : Prop where
  charset_ne : w.charset ≠ []
  charset : ∀ x ∈ w.charset, isWordChar x = true
  encoding : isEncoding w.encoding = true
  text : ∀ x ∈ w.text, isWordChar x = true

theorem takeWhile_question (h : ∀ x ∈ t, isWordChar x = true) (s : Text) :
    (t ++ '?' :: s).takeWhile isWordChar = t := by
  rw [List.takeWhile_append_of_pos h]
  show t ++ ('?' :: s).takeWhile isWordChar = t
  rw [List.takeWhile_cons_of_neg (by decide), List.append_nil]

theorem dropWhile_question (h : ∀ x ∈ t, isWordChar x = true) (s : Text) :
    (t ++ '?' :: s).dropWhile isWordChar = '?' :: s := by
  rw [List.dropWhile_append_of_pos h, List.dropWhile_cons_of_neg (by decide)]

theorem matchAt_source (hw : w.Legal) (rest : Text) :
    matchAt (w.source ++ rest) = some (w, rest) := by
  have heq : w.source ++ rest =
      '=' :: '?' :: (w.charset ++ '?' :: w.encoding :: '?' :: (w.text ++ '?' :: '=' :: rest)) := by
    simp [EncodedWord.source]
  rw [heq, matchAt.eq_1, takeWhile_question hw.charset, if_neg hw.charset_ne,
    dropWhile_question hw.charset]
  show (if isEncoding w.encoding then _ else _) = _
  rw [if_pos hw.encoding, dropWhile_question hw.text, takeWhile_question hw.text]
  rfl

theorem legal_of_matchAt (h : matchAt s = some (w, rest)) : w.Legal := by
  unfold matchAt at h
  split at h
  · next s =>
      split at h
      · cases h
      · next hne =>
          split at h
          · next encoding t hs =>
              split at h
              · next henc =>
                  split at h
                  · cases h
                    exact ⟨hne, fun x hx => List.mem_takeWhile_imp hx, henc,
                      fun x hx => List.mem_takeWhile_imp hx⟩
                  · cases h
              · cases h
          · cases h
  · cases h

/-- No `=?` in it. -/
def Plain (t : Text) : Prop := ¬ ['=', '?'] <:+: t

theorem Plain.of_cons {x : Char} (h : Plain (x :: t)) : Plain t := fun hin =>
  h (hin.trans (List.suffix_cons x t).isInfix)

/-- A word begins with `=?`. -/
theorem opens_of_matchAt (h : matchAt s = some (w, rest)) : ['=', '?'] <+: s := by
  rw [matchAt_rest h]
  exact ⟨_, rfl⟩

theorem matchAt_plain (h : Plain s) : matchAt s = none := by
  cases hm : matchAt s with
  | none => rfl
  | some found => exact absurd (opens_of_matchAt hm).isInfix h

theorem exec_plain (h : Plain s) : exec s = none := by
  induction s with
  | nil => rfl
  | cons x s ih =>
      rw [exec, matchAt_plain h, ih h.of_cons]
      rfl

/-- The first word stands behind plain text. -/
theorem exec_written (hgap : Plain gap) (hw : w.Legal) (rest : Text) :
    exec (gap ++ (w.source ++ rest)) = some (gap, w, rest) := by
  induction gap with
  | nil =>
      have hm := matchAt_source hw rest
      cases hs : w.source ++ rest with
      | nil => cases hs
      | cons x s =>
          rw [hs] at hm
          rw [List.nil_append, exec, hm]
  | cons x gap ih =>
      have hnone : matchAt (x :: (gap ++ (w.source ++ rest))) = none := by
        cases hm : matchAt (x :: (gap ++ (w.source ++ rest))) with
        | none => rfl
        | some found =>
            exfalso
            obtain ⟨r, hr⟩ := opens_of_matchAt hm
            cases gap with
            | nil => simp [EncodedWord.source] at hr
            | cons y gap =>
                simp only [List.cons_append, List.cons.injEq, List.nil_append] at hr
                obtain ⟨rfl, rfl, -⟩ := hr
                exact hgap ⟨[], gap, rfl⟩
      rw [List.cons_append, exec, hnone, ih hgap.of_cons]
      rfl

/-! ### What a word says -/

/-- Q-encoding: `_` a space, `=XX` a byte, and other ASCII characters as they are. -/
inductive QWrites : Text → List UInt8 → Prop
  | nil : QWrites [] []
  | space {t bytes} : QWrites t bytes → QWrites ('_' :: t) (0x20 :: bytes)
  | byte {x y h l t bytes} (hx : hexValue x = some h) (hy : hexValue y = some l) :
      QWrites t bytes → QWrites ('=' :: x :: y :: t) (UInt8.ofNat (16 * h + l) :: bytes)
  | plain {x t bytes} (hascii : x.toNat < 128) (hx : x ≠ '=' ∧ x ≠ '_') :
      QWrites t bytes → QWrites (x :: t) (UInt8.ofNat x.toNat :: bytes)

theorem quotedPrintableBytes_plain {x : Char} (hx : x ≠ '=' ∧ x ≠ '_') (t : Text) :
    quotedPrintableBytes (x :: t) = UInt8.ofNat x.toNat :: quotedPrintableBytes t := by
  rcases t with - | ⟨y, - | ⟨z, t⟩⟩
  · simp [quotedPrintableBytes, hx.2]
  · simp [quotedPrintableBytes, hx.2]
  · have hnone : escaped (x :: y :: z :: t) = none := by
      rw [escaped.eq_def]
      split
      · next heq =>
          cases heq
          exact absurd rfl hx.1
      · rfl
    rw [quotedPrintableBytes, hnone]
    exact hx.2

theorem quotedPrintableBytes_of_writes {bytes : List UInt8} (h : QWrites t bytes) :
    quotedPrintableBytes t = bytes := by
  induction h with
  | nil => rfl
  | space _ ih => rw [quotedPrintableBytes, ih]
  | @byte x y h l t bytes hx hy _ ih =>
      rw [quotedPrintableBytes, escaped, hx, hy]
      · show UInt8.ofNat (16 * h + l) :: quotedPrintableBytes t = _
        rw [ih]
      · decide
  | plain _ hx _ ih => rw [quotedPrintableBytes_plain hx, ih]

/-- The word writes this text: its charset, perhaps with a language behind it, is one that is
known, and its text the bytes that are the text in it. -/
structure Says (c : Codec) (w : EncodedWord) (text : Text) : Prop where
  legal : w.Legal
  charset : ∃ label language decode bytes, w.charset = label ++ language ∧
    '*' ∉ label ∧ (language = [] ∨ language.head? = some '*') ∧
    c.decoderFor label = some decode ∧ decode bytes = text ∧
    ((w.encoding ∈ ['b', 'B'] ∧ c.base64Bytes w.text = bytes) ∨
      (w.encoding ∈ ['q', 'Q'] ∧ QWrites w.text bytes))

theorem decodeWord_of_known {text : Text} (h : Says c w text) : decodeWord c w = some text := by
  obtain ⟨label, language, decode, bytes, hcharset, hlabel, hlanguage, hdecoder, htext, hbytes⟩ := h.charset
  have htake : w.charset.takeWhile (· ≠ '*') = label := by
    rw [hcharset, List.takeWhile_append_of_pos]
    · rcases hlanguage with rfl | hstar
      · simp
      · obtain ⟨language', rfl⟩ := List.head?_eq_some_iff.mp hstar
        simp
    · intro x hx
      simp
      rintro rfl
      exact hlabel hx
  rw [decodeWord, htake, hdecoder, Option.map_some, ← htext]
  congr 2
  rcases hbytes with ⟨henc, hbytes⟩ | ⟨henc, hbytes⟩
  · rw [if_pos, hbytes]
    rcases List.mem_pair.mp henc with henc | henc <;>
      · rw [henc]
        decide
  · rw [if_neg, quotedPrintableBytes_of_writes hbytes]
    rcases List.mem_pair.mp henc with henc | henc <;>
      · rw [henc]
        decide

/-! ### What a subject is written with -/

/-- A word, the plain text in front of it, and what the word says where its charset is known. -/
structure Piece where
  gap : Text
  word : EncodedWord
  text : Option Text

/-- The value that the pieces, and the plain text behind them, make up. -/
def source : List Piece → Text → Text
  | [], tail => tail
  | p :: ps, tail => p.gap ++ (p.word.source ++ source ps tail)

/-- What they say: white space between two words that say something is not part of it. -/
def shown : Bool → List Piece → Text → Text
  | _, [], tail => tail
  | behindWord, p :: ps, tail =>
    match p.text with
    | none => p.gap ++ (p.word.source ++ shown false ps tail)
    | some text =>
      (if behindWord && p.gap.all isWhiteSpace then [] else p.gap) ++ (text ++ shown true ps tail)

/-- Plain text, and a word that says its text or is of a charset that is not known. -/
structure Piece.Written (c : Codec) (p : Piece) : Prop where
  gap : Plain p.gap
  legal : p.word.Legal
  known : ∀ text, p.text = some text → Says c p.word text
  unknown : p.text = none → c.decoderFor (p.word.charset.takeWhile (· ≠ '*')) = none

/-- What is read of a piece. -/
structure Piece.Read (c : Codec) (p : Piece) : Prop where
  legal : p.word.Legal
  text : p.text = decodeWord c p.word

theorem Piece.Written.read {p : Piece} (h : p.Written c) : p.Read c where
  legal := h.legal
  text := by
    cases htext : p.text with
    | none => rw [decodeWord, h.unknown htext, Option.map_none]
    | some text => exact (decodeWord_of_known (h.known text htext)).symm

/-- One step of the loop is one piece. -/
theorem decodeFrom_piece {p : Piece} (hp : p.Read c) (behindWord : Bool) {ps : List Piece}
    (hexec : exec (p.gap ++ (p.word.source ++ rest)) = some (p.gap, p.word, rest))
    (ih : ∀ b, decodeFrom c b rest = shown b ps tail) :
    decodeFrom c behindWord (p.gap ++ (p.word.source ++ rest)) = shown behindWord (p :: ps) tail := by
  rw [decodeFrom_some hexec, shown, hp.text]
  cases decodeWord c p.word with
  | none =>
      show p.gap ++ p.word.source ++ decodeFrom c false rest = _
      rw [ih, List.append_assoc]
  | some text =>
      show (if behindWord && p.gap.all isWhiteSpace then text else p.gap ++ text) ++
        decodeFrom c true rest = _
      rw [ih]
      split
      · rfl
      · exact List.append_assoc _ _ _

/-- **What was written is read back.** -/
theorem decodeFrom_written {ps : List Piece} (hps : ∀ p ∈ ps, p.Written c) (htail : Plain tail)
    (behindWord : Bool) : decodeFrom c behindWord (source ps tail) = shown behindWord ps tail := by
  induction ps generalizing behindWord with
  | nil => exact decodeFrom_none (exec_plain htail)
  | cons p ps ih =>
      have hp := hps p List.mem_cons_self
      exact decodeFrom_piece hp.read behindWord (exec_written hp.gap hp.legal _)
        fun b => ih (fun q hq => hps q (List.mem_cons_of_mem _ hq)) b

theorem legal_of_exec (h : exec s = some (gap, w, rest)) : w.Legal := by
  induction s generalizing gap with
  | nil => cases h
  | cons x s ih =>
      rw [exec] at h
      split at h
      · next hm =>
          cases h
          exact legal_of_matchAt hm
      · obtain ⟨⟨gap', found⟩, hfound, heq⟩ := Option.map_eq_some_iff.mp h
        cases heq
        exact ih hfound

/-- **Every value is pieces**, each read as what it says, and stands as it was around them. -/
theorem exists_pieces (c : Codec) (s : Text) : ∃ ps tail, source ps tail = s ∧
    (∀ p ∈ ps, p.Read c) ∧ ∀ behindWord, decodeFrom c behindWord s = shown behindWord ps tail := by
  induction hn : s.length using Nat.strong_induction_on generalizing s with
  | _ n ih =>
      cases hexec : exec s with
      | none => exact ⟨[], s, rfl, fun p hp => absurd hp (List.not_mem_nil), fun b => decodeFrom_none hexec⟩
      | some found =>
          obtain ⟨gap, w, rest⟩ := found
          obtain ⟨ps, tail, hsource, hread, hshown⟩ := ih _ (hn ▸ length_rest_lt hexec) rest rfl
          have hs : s = gap ++ (w.source ++ rest) := by
            rw [← List.append_assoc]
            exact exec_eq hexec
          have hp : Piece.Read c ⟨gap, w, decodeWord c w⟩ := ⟨legal_of_exec hexec, rfl⟩
          refine ⟨⟨gap, w, decodeWord c w⟩ :: ps, tail, ?_, ?_, fun b => ?_⟩
          · rw [source, hsource]
            exact hs.symm
          · intro p hmem
            rcases List.mem_cons.mp hmem with rfl | hmem
            · exact hp
            · exact hread p hmem
          · rw [hs] at hexec ⊢
            exact decodeFrom_piece hp b hexec hshown

/-! ### The cut -/

/-- Where a word stands. -/
structure Span where
  start : Nat
  stop : Nat
  deriving DecidableEq

/-- The words of a text, as the loop finds them. -/
def spans (s : Text) : List Span :=
  match h : exec s with
  | none => []
  | some (gap, w, rest) =>
    have := length_rest_lt h
    let stop := gap.length + w.source.length
    ⟨gap.length, stop⟩ :: (spans rest).map fun span => ⟨stop + span.start, stop + span.stop⟩
  termination_by s.length

theorem spans_some (h : exec s = some (gap, w, rest)) :
    spans s = ⟨gap.length, gap.length + w.source.length⟩ :: (spans rest).map fun span =>
      ⟨gap.length + w.source.length + span.start, gap.length + w.source.length + span.stop⟩ := by
  rw [spans.eq_def]
  split
  · next hnone =>
      rw [h] at hnone
      cases hnone
  · next hsome =>
      rw [h] at hsome
      cases hsome
      rfl

/-- The beginning of a word, and not all of it. -/
def PartialWord (t : Text) : Prop :=
  ∃ w : EncodedWord, w.Legal ∧ ∃ rest, rest ≠ [] ∧ w.source = t ++ rest

/-- **The cut leaves no word unfinished** that the value finishes, and leaves out nothing before
the limit but the beginning of a word. -/
structure CutsWhole (value : Text) : Prop where
  kept : ∀ span ∈ spans value, span.start < (bounded value).length →
    span.stop ≤ (bounded value).length
  left : ∃ t, value.take SUBJECT_SCAN_LIMIT = bounded value ++ t ∧ (t = [] ∨ PartialWord t)

/-- The last `=?` of a text, with no `?=` behind it. -/
structure OpensLast (cut : Text) (opener : Nat) : Prop where
  last : lastIndexOf '=' '?' cut = some opener
  behind : ∀ closer, lastIndexOf '?' '=' cut = some closer → closer < opener

/-- What decides it, of a value longer than the limit: where there is an `=?` before the limit
with no `?=` behind it, the last one begins a word up to the limit, and no word that began
before reaches over it; where there is none, no word reaches over the limit. -/
structure DelimitersApart (value : Text) : Prop where
  opened : ∀ opener, OpensLast (value.take SUBJECT_SCAN_LIMIT) opener →
    PartialWord ((value.take SUBJECT_SCAN_LIMIT).drop opener) ∧
      ∀ span ∈ spans value, span.start < opener → span.stop ≤ opener
  closed : (∀ opener, ¬ OpensLast (value.take SUBJECT_SCAN_LIMIT) opener) →
    ∀ span ∈ spans value, span.start < SUBJECT_SCAN_LIMIT → span.stop ≤ SUBJECT_SCAN_LIMIT

theorem danglingOpener_iff {cut : Text} {opener : Nat} :
    danglingOpener cut = some opener ↔ OpensLast cut opener := by
  unfold danglingOpener
  cases hopener : lastIndexOf '=' '?' cut with
  | none =>
      refine iff_of_false (by simp) fun h => ?_
      rw [h.last] at hopener
      cases hopener
  | some o =>
      cases hcloser : lastIndexOf '?' '=' cut with
      | none =>
          constructor
          · intro h
            cases h
            refine ⟨hopener, fun q hq => ?_⟩
            rw [hcloser] at hq
            cases hq
          · intro h
            exact (hopener.symm.trans h.last)
      | some q =>
          dsimp only
          constructor
          · intro h
            split at h
            · next hlt =>
                cases h
                refine ⟨hopener, fun q' hq' => ?_⟩
                rw [hcloser] at hq'
                cases hq'
                exact hlt
            · cases h
          · intro h
            obtain rfl := Option.some.inj (hopener.symm.trans h.last)
            rw [if_pos (h.behind q hcloser)]

theorem lastIndexOf_lt {a b : Char} {i : Nat} (h : lastIndexOf a b s = some i) : i + 1 < s.length := by
  induction s generalizing i with
  | nil => cases h
  | cons x s ih =>
      cases s with
      | nil => cases h
      | cons y s =>
          rw [lastIndexOf] at h
          split at h
          · next j hj =>
              cases h
              have := ih hj
              simp only [List.length_cons] at this ⊢
              omega
          · split at h
            · cases h
              simp
            · cases h

theorem stop_le {span : Span} (h : span ∈ spans s) : span.start < span.stop ∧ span.stop ≤ s.length := by
  induction hn : s.length using Nat.strong_induction_on generalizing s span with
  | _ n ih =>
      cases hexec : exec s with
      | none =>
          rw [spans.eq_def] at h
          split at h
          · cases h
          · next hsome =>
              rw [hexec] at hsome
              cases hsome
      | some found =>
          obtain ⟨gap, w, rest⟩ := found
          have hlen := congrArg List.length (exec_eq hexec)
          have hword : 0 < w.source.length := by simp [EncodedWord.source]
          simp only [List.length_append] at hlen
          rw [spans_some hexec] at h
          rcases List.mem_cons.mp h with rfl | h
          · dsimp only
            omega
          · obtain ⟨span', hspan', rfl⟩ := List.mem_map.mp h
            have := ih _ (hn ▸ length_rest_lt hexec) hspan' rfl
            dsimp only
            omega

/-- **When the cut leaves every word whole.** -/
theorem cutsWhole_iff (value : Text) :
    CutsWhole value ↔ value.length ≤ SUBJECT_SCAN_LIMIT ∨ DelimitersApart value := by
  by_cases hlen : value.length ≤ SUBJECT_SCAN_LIMIT
  · have hbounded : bounded value = value := if_pos hlen
    refine iff_of_true ⟨fun span hspan _ => ?_, [], ?_, .inl rfl⟩ (.inl hlen)
    · rw [hbounded]
      exact (stop_le hspan).2
    · rw [hbounded, List.take_of_length_le hlen, List.append_nil]
  have hcut : (value.take SUBJECT_SCAN_LIMIT).length = SUBJECT_SCAN_LIMIT := by
    rw [List.length_take]
    omega
  rw [or_iff_right hlen]
  cases hdangling : danglingOpener (value.take SUBJECT_SCAN_LIMIT) with
  | none =>
      have hbounded : bounded value = value.take SUBJECT_SCAN_LIMIT := by
        rw [bounded, if_neg hlen]
        dsimp only
        rw [hdangling]
      have hnone : ∀ opener, ¬ OpensLast (value.take SUBJECT_SCAN_LIMIT) opener := by
        intro opener h
        rw [danglingOpener_iff.mpr h] at hdangling
        cases hdangling
      constructor
      · intro h
        have hkept := h.kept
        rw [hbounded, hcut] at hkept
        exact ⟨fun opener hopener => absurd hopener (hnone opener), fun _ => hkept⟩
      · intro h
        refine ⟨?_, [], ?_, .inl rfl⟩
        · rw [hbounded, hcut]
          exact h.closed hnone
        · rw [hbounded, List.append_nil]
  | some opener =>
      have hopens := danglingOpener_iff.mp hdangling
      have hlt := lastIndexOf_lt hopens.last
      have hbounded : bounded value = (value.take SUBJECT_SCAN_LIMIT).take opener := by
        rw [bounded, if_neg hlen]
        dsimp only
        rw [hdangling]
      have hlength : (bounded value).length = opener := by
        rw [hbounded, List.length_take]
        omega
      have hsplit : value.take SUBJECT_SCAN_LIMIT =
          bounded value ++ (value.take SUBJECT_SCAN_LIMIT).drop opener := by
        rw [hbounded, List.take_append_drop]
      constructor
      · intro h
        obtain ⟨t, ht, hhalf⟩ := h.left
        obtain rfl := List.append_cancel_left (hsplit.symm.trans ht)
        have hne : (value.take SUBJECT_SCAN_LIMIT).drop opener ≠ [] := by
          intro hnil
          have := List.drop_eq_nil_iff.mp hnil
          omega
        have hkept := h.kept
        rw [hlength] at hkept
        refine ⟨fun o ho => ?_, fun hnone => absurd hopens (hnone opener)⟩
        obtain rfl := Option.some.inj (hopens.last.symm.trans ho.last)
        exact ⟨hhalf.resolve_left hne, hkept⟩
      · intro h
        obtain ⟨hhalf, hkept⟩ := h.opened opener hopens
        refine ⟨?_, _, hsplit, .inr hhalf⟩
        rw [hlength]
        exact hkept

/-! ### A header value -/

/-- What is asked of `decodeEncodedWords`, of one value. -/
structure ReadWell (c : Codec) (value : Text) : Prop where
  /-- Written with plain text and words, and short enough, it is read back. -/
  written : ∀ ps tail, (∀ p ∈ ps, p.Written c) → Plain tail → source ps tail = value →
    value.length ≤ SUBJECT_SCAN_LIMIT →
    decodeEncodedWords c (some value) = some (shown false ps tail)
  /-- Around the words that say something, what was read stands as it was. -/
  around : ∃ ps tail, source ps tail = bounded value ∧ (∀ p ∈ ps, p.Read c) ∧
    decodeEncodedWords c (some value) = some (shown false ps tail)
  cut : CutsWhole value

theorem decodeEncodedWords_written {ps : List Piece} (hps : ∀ p ∈ ps, p.Written c)
    (htail : Plain tail) (hfits : (source ps tail).length ≤ SUBJECT_SCAN_LIMIT) :
    decodeEncodedWords c (some (source ps tail)) = some (shown false ps tail) := by
  rw [decodeEncodedWords, Option.map_some, bounded, if_pos hfits, decodeFrom_written hps htail]

/-- **A value is read well** exactly when it fits the limit or the delimiters before the limit
stand apart. -/
theorem readWell_iff (c : Codec) (value : Text) :
    ReadWell c value ↔ value.length ≤ SUBJECT_SCAN_LIMIT ∨ DelimitersApart value := by
  rw [← cutsWhole_iff]
  constructor
  · exact fun h => h.cut
  · intro hcut
    refine ⟨?_, ?_, hcut⟩
    · rintro ps tail hps htail rfl hfits
      exact decodeEncodedWords_written hps htail hfits
    · obtain ⟨ps, tail, hsource, hread, hshown⟩ := exists_pieces c (bounded value)
      exact ⟨ps, tail, hsource, hread, congrArg some (hshown false)⟩

theorem lastIndexOf_cons {a b x : Char} (hx : x ≠ a) (s : Text) :
    lastIndexOf a b (x :: s) = (lastIndexOf a b s).map (· + 1) := by
  cases s with
  | nil => rfl
  | cons y s =>
      rw [lastIndexOf]
      cases lastIndexOf a b (y :: s) with
      | none => exact if_neg fun h => hx h.1
      | some i => rfl

theorem lastIndexOf_replicate {a b x : Char} (hx : x ≠ a) (n : Nat) (s : Text) :
    lastIndexOf a b (List.replicate n x ++ s) = (lastIndexOf a b s).map (· + n) := by
  induction n with
  | zero => simp
  | succ n ih =>
      rw [List.replicate_succ, List.cons_append, lastIndexOf_cons hx, ih, Option.map_map]
      rfl

/-- `=?utf-8?Q?=C3=A9=C3=A9?=` -/
def twoAccents : EncodedWord := ⟨"utf-8".toList, 'Q', "=C3=A9=C3=A9".toList⟩

/-- Sixteen characters of the word are before the limit. -/
def longSubject : Text := List.replicate 4080 'a' ++ twoAccents.source

/-- **A word whose text begins with `=` is cut in two**: `?=` stands behind its `=?`. -/
theorem cut_inside_a_word : ¬ ∀ (c : Codec) (value : Text), ReadWell c value := by
  intro h
  have hcutWhole := (h ⟨fun _ => none, fun _ => []⟩ longSubject).cut
  have hplain : Plain (List.replicate 4080 'a') := by
    intro hin
    have hmem := hin.subset List.mem_cons_self
    exact absurd (List.eq_of_mem_replicate hmem) (by decide)
  have hlegal : twoAccents.Legal :=
    ⟨by decide, List.all_eq_true.mp (by decide), by decide, List.all_eq_true.mp (by decide)⟩
  have hspan : (⟨4080, 4104⟩ : Span) ∈ spans longSubject := by
    have hexec := exec_written hplain hlegal []
    rw [List.append_nil] at hexec
    rw [longSubject, spans_some hexec, List.length_replicate]
    exact List.mem_cons_self
  have hcut : longSubject.take SUBJECT_SCAN_LIMIT =
      List.replicate 4080 'a' ++ "=?utf-8?Q?=C3=A9".toList := by
    have hsource : twoAccents.source = "=?utf-8?Q?=C3=A9".toList ++ "=C3=A9?=".toList := by decide
    rw [longSubject, hsource, ← List.append_assoc]
    apply List.take_left'
    rw [List.length_append, List.length_replicate]
    decide
  have hdangling : danglingOpener (longSubject.take SUBJECT_SCAN_LIMIT) = none := by
    rw [hcut, danglingOpener, lastIndexOf_replicate (by decide), lastIndexOf_replicate (by decide)]
    decide
  have hlong : ¬ longSubject.length ≤ SUBJECT_SCAN_LIMIT := by
    rw [longSubject, List.length_append, List.length_replicate]
    decide
  have hbounded : (bounded longSubject).length = 4096 := by
    rw [bounded, if_neg hlong]
    dsimp only
    rw [hdangling]
    dsimp only
    rw [hcut, List.length_append, List.length_replicate]
    decide
  have hstop := hcutWhole.kept _ hspan (by rw [hbounded]; decide)
  rw [hbounded] at hstop
  exact absurd hstop (by decide)

end Ownpace.MailSubject
