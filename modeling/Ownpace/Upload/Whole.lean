/-
Ownpace/Upload/Whole.lean

A file that goes up in pieces arrives whole, or not at all.

One send hands out a prefix of its read, and all of it where every piece is
accepted and the source ends (`send_keeps`); the pieces in the folder are then
those of that send (`Ready`), whatever earlier sends left there.  The MOVE assembles
them, once.  `uploadChunked_whole` puts this together over any answers and any
reads.
-/
import Mathlib.Algebra.BigOperators.Group.List.Basic
import Mathlib.Algebra.GroupWithZero.Nat
import Ownpace.Upload.Chunked

namespace Ownpace.Upload

variable {Digest : Type} {α : Type}

/-! ### The sizes of the pieces -/

/-- So many pieces are enough, and one fewer is not. -/
theorem le_chunkCount_mul {total chunkBytes : Nat} (h : 0 < chunkBytes) :
    total ≤ chunkCount total chunkBytes * chunkBytes := by
  have hdiv := Nat.div_add_mod (total + (chunkBytes - 1)) chunkBytes
  have hmod := Nat.mod_lt (total + (chunkBytes - 1)) h
  unfold chunkCount
  rw [Nat.mul_comm]
  omega

theorem chunkCount_le_iff {total chunkBytes k : Nat} (h : 0 < chunkBytes) :
    chunkCount total chunkBytes ≤ k ↔ total ≤ k * chunkBytes := by
  unfold chunkCount
  rw [← Nat.lt_succ_iff, Nat.div_lt_iff_lt_mul h, Nat.succ_mul]
  omega

namespace LargeFile

variable {u : LargeFile}

theorem pieceBytes_pos (h : 0 < u.chunkBytes) : 0 < u.pieceBytes :=
  Nat.lt_of_lt_of_le h (Nat.le_max_left _ _)

theorem pieces_le (h : 0 < u.chunkBytes) : u.pieces ≤ NEXTCLOUD_MAX_CHUNKS := by
  refine (chunkCount_le_iff (pieceBytes_pos h)).mpr ?_
  have henough : u.sizeBytes ≤ chunkCount u.sizeBytes NEXTCLOUD_MAX_CHUNKS * NEXTCLOUD_MAX_CHUNKS :=
    le_chunkCount_mul (by decide)
  have hmax : chunkCount u.sizeBytes NEXTCLOUD_MAX_CHUNKS ≤ u.pieceBytes := Nat.le_max_right _ _
  calc u.sizeBytes
    _ ≤ chunkCount u.sizeBytes NEXTCLOUD_MAX_CHUNKS * NEXTCLOUD_MAX_CHUNKS := henough
    _ ≤ u.pieceBytes * NEXTCLOUD_MAX_CHUNKS := Nat.mul_le_mul_right _ hmax
    _ = NEXTCLOUD_MAX_CHUNKS * u.pieceBytes := Nat.mul_comm _ _

/-- Pieces are larger than set only where their number would pass the limit. -/
theorem pieceBytes_eq (h : u.sizeBytes ≤ NEXTCLOUD_MAX_CHUNKS * u.chunkBytes) :
    u.pieceBytes = u.chunkBytes := by
  refine Nat.max_eq_left ?_
  rw [chunkCount_le_iff (by decide), Nat.mul_comm]
  exact h

theorem lengthOf_le (n : Nat) : u.lengthOf n ≤ u.pieceBytes := Nat.min_le_left _ _

theorem lengthOf_pos (h : 0 < u.chunkBytes) {n : Nat} (hn : n ∈ u.numbers) : 0 < u.lengthOf n := by
  obtain ⟨hlow, hhigh⟩ := List.mem_range'_1.mp hn
  have hbefore : (n - 1) * u.pieceBytes < u.sizeBytes := by
    rw [← Nat.not_le, ← chunkCount_le_iff (pieceBytes_pos h)]
    show ¬ u.pieces ≤ n - 1
    omega
  exact Nat.lt_min.mpr ⟨pieceBytes_pos h, Nat.sub_pos_of_lt hbefore⟩

/-- The first pieces cover the file up to where they end. -/
theorem sum_lengthOf (k : Nat) :
    ((List.range' 1 k).map u.lengthOf).sum = min (k * u.pieceBytes) u.sizeBytes := by
  induction k with
  | zero => simp
  | succ k ih =>
      rw [List.range'_concat, List.map_append, List.sum_append, ih]
      have hlast : u.lengthOf (1 + 1 * k) =
          min u.pieceBytes (u.sizeBytes - k * u.pieceBytes) := by
        unfold LargeFile.lengthOf
        congr 2
        congr 1
        omega
      rw [List.map_singleton, List.sum_singleton, hlast, Nat.succ_mul]
      omega

theorem sum_numbers (h : 0 < u.chunkBytes) : (u.numbers.map u.lengthOf).sum = u.sizeBytes := by
  show ((List.range' 1 u.pieces).map u.lengthOf).sum = u.sizeBytes
  rw [sum_lengthOf]
  exact Nat.min_eq_right (le_chunkCount_mul (pieceBytes_pos h))

end LargeFile

/-! ### A send -/

/-- What each attempt keeps, all of them keep; what is true of any attempt's answer is
true of the last one's. -/
theorem withDavRetry_rule {send : World → Option (Nat × α) × World} (P : World → Prop)
    (Q : Option (Nat × α) → World → Prop)
    (hsend : ∀ w, P w → P (send w).2 ∧ Q (send w).1 (send w).2) (attempts : Nat) {w : World}
    (hw : P w) : P (withDavRetry send attempts w).2 ∧
      Q (withDavRetry send attempts w).1 (withDavRetry send attempts w).2 := by
  induction attempts generalizing w with
  | zero => exact hsend w hw
  | succ attempts ih =>
      have hstep := hsend w hw
      rcases hsent : send w with ⟨- | ⟨status, answer⟩, w'⟩
      · simp only [withDavRetry, hsent]
        rwa [hsent] at hstep
      · rw [hsent] at hstep
        simp only [withDavRetry, hsent]
        split
        · exact ih hstep.1
        · exact hstep

variable {u : LargeFile} {read : Read} {given : Bytes} {s : Slicer} {w : World}

/-- A piece's PUT goes on with the read, and touches no other piece and no file. -/
structure PutKeeps (read : Read) (given : Bytes) (n length : Nat) (w : World)
    (r : Option Nat × Bytes × Slicer × World) : Prop where
  follows : r.2.2.1.Follows read (given ++ r.2.1)
  accepted : ∀ status, r.1 = some status → isAccepted status = true →
    r.2.1.length = length ∧ r.2.2.2.server.pieces n = some r.2.1
  others : ∀ k, k ≠ n → r.2.2.2.server.pieces k = w.server.pieces k
  destination : r.2.2.2.server.destination = w.server.destination
  log : r.2.2.2.log = w.log

theorem Server.put_other (server : Server) (n : Nat) (bytes : Bytes) {k : Nat} (hk : k ≠ n) :
    (server.put n bytes).pieces k = server.pieces k := if_neg hk

theorem Server.put_own (server : Server) (n : Nat) (bytes : Bytes) :
    (server.put n bytes).pieces n = some bytes := if_pos rfl

/-- A piece that was not accepted. -/
theorem World.left_keeps (w : World) (n : Nat) {length : Nat} {answer : Option Nat} {bytes : Bytes}
    (hfollows : s.Follows read (given ++ bytes))
    (hanswer : ∀ status, answer = some status → isAccepted status = false) :
    PutKeeps read given n length w (answer, bytes, s, w.left n) := by
  have hrefused (status : Nat) (hstatus : answer = some status) (haccepted : isAccepted status = true) :
      bytes.length = length ∧ (w.left n).server.pieces n = some bytes := by
    rw [hanswer status hstatus] at haccepted
    cases haccepted
  unfold World.left at hrefused ⊢
  split at hrefused
  · next hlanded =>
      rw [if_pos hlanded]
      exact ⟨hfollows, hrefused, fun k hk => w.server.put_other n _ hk, rfl, rfl⟩
  · next hlanded =>
      rw [if_neg hlanded]
      exact ⟨hfollows, hrefused, fun k _ => rfl, rfl, rfl⟩

theorem putPiece_keeps (h : s.Follows read given) (n length : Nat) (w : World) :
    PutKeeps read given n length w (putPiece n length s w) := by
  unfold putPiece
  dsimp only
  split
  · have hdrained := h.drain length length
    split
    · next hclosed =>
        exact ⟨hdrained.follows, fun _ _ _ => ⟨hdrained.closed hclosed, w.server.put_own n _⟩,
          fun k hk => w.server.put_other n _ hk, rfl, rfl⟩
    · exact w.left_keeps n hdrained.follows fun status hnone => by cases hnone
  · next hrefused =>
      refine w.left_keeps n (h.drain (w.fates 0).pulls length).follows fun status hstatus => ?_
      split at hstatus
      · cases hstatus
      · rw [hstatus] at hrefused
        simpa using hrefused

/-- The loop over the pieces. -/
structure PiecesKeep (u : LargeFile) (read : Read) (given : Bytes) (numbers : List Nat) (w : World)
    (r : PiecesEnd × List Bytes × Slicer × World) : Prop where
  follows : r.2.2.1.Follows read (given ++ r.2.1.flatten)
  accepted : r.1 = .accepted → r.2.1.map List.length = numbers.map u.lengthOf ∧
    numbers.map r.2.2.2.server.pieces = r.2.1.map some
  others : ∀ k, k ∉ numbers → r.2.2.2.server.pieces k = w.server.pieces k
  destination : r.2.2.2.server.destination = w.server.destination
  log : r.2.2.2.log = w.log

theorem sendPieces_keep (h : s.Follows read given) {numbers : List Nat} (hnumbers : numbers.Nodup)
    (w : World) : PiecesKeep u read given numbers w (sendPieces u numbers s w) := by
  induction numbers generalizing given s w with
  | nil =>
      refine ⟨?_, fun _ => ⟨rfl, rfl⟩, fun _ _ => rfl, rfl, rfl⟩
      show s.Follows read (given ++ [])
      rw [List.append_nil]
      exact h
  | cons n rest ih =>
      obtain ⟨hn, hrest⟩ := List.nodup_cons.mp hnumbers
      have hput := putPiece_keeps h n (u.lengthOf n) w
      have hlast {e : PiecesEnd} (he : e ≠ .accepted) {body : Bytes} {s' : Slicer} {w' : World}
          {answer : Option Nat} (hp : PutKeeps read given n (u.lengthOf n) w (answer, body, s', w')) :
          PiecesKeep u read given (n :: rest) w (e, [body], s', w') := by
        refine ⟨?_, fun hacc => absurd hacc he, ?_, hp.destination, hp.log⟩
        · rw [List.flatten_singleton]
          exact hp.follows
        · exact fun k hk => hp.others k (List.ne_of_not_mem_cons hk)
      rcases hanswer : putPiece n (u.lengthOf n) s w with ⟨- | status, body, s', w'⟩
      · rw [hanswer] at hput
        simp only [sendPieces, hanswer]
        exact hlast (by simp) hput
      · rw [hanswer] at hput
        simp only [sendPieces, hanswer]
        split
        · next haccepted =>
            have hgo := ih hput.follows hrest w'
            obtain ⟨hlength, hpiece⟩ := hput.accepted status rfl haccepted
            refine ⟨?_, ?_, ?_, hgo.destination.trans hput.destination, hgo.log.trans hput.log⟩
            · have hfollows := hgo.follows
              rw [List.append_assoc] at hfollows
              exact hfollows
            · intro hacc
              obtain ⟨hlengths, hpieces⟩ := hgo.accepted hacc
              refine ⟨?_, ?_⟩
              · rw [List.map_cons, List.map_cons, hlengths, hlength]
              · rw [List.map_cons, List.map_cons, hpieces, hgo.others n hn, hpiece]
            · intro k hk
              rw [hgo.others k (List.not_mem_of_not_mem_cons hk),
                hput.others k (List.ne_of_not_mem_cons hk)]
        · exact hlast (by simp) hput

/-! ### The log -/

def Event.sent? : Event → Option Sent
  | .sent s => some s
  | _ => none

/-- The last send of a log. -/
def lastSent (log : List Event) : Option Sent := (log.filterMap Event.sent?).getLast?

theorem lastSent_other (log : List Event) {e : Event} (he : e.sent? = none) :
    lastSent (log ++ [e]) = lastSent log := by
  simp [lastSent, he]

theorem lastSent_sent (log : List Event) (sent : Sent) : lastSent (log ++ [.sent sent]) = some sent := by
  simp [lastSent, Event.sent?]

/-- Every piece was accepted, and the source ended as it had declared. -/
structure Sent.Whole (u : LargeFile) (sent : Sent) : Prop where
  accepted : sent.accepted = true
  ended : sent.ended = true
  length : sent.read.bytes.length = u.sizeBytes
  unbroken : sent.read.breaks = false

/-- What a send hands out is a prefix of its read, piece by piece of the declared
lengths where every piece is accepted, and the whole of it where the source then
ends. -/
structure Sent.Faithful (u : LargeFile) (sent : Sent) : Prop where
  bodies_prefix : sent.bodies.flatten <+: sent.read.bytes
  lengths : sent.accepted = true → sent.bodies.map List.length = u.numbers.map u.lengthOf
  whole : sent.accepted = true → sent.ended = true → sent.bodies.flatten = sent.read.bytes

/-- A MOVE comes after a send that went through, with none after it. -/
def MovesFollow (u : LargeFile) (log : List Event) : Prop :=
  ∀ k landed, log[k]? = some (.move landed) →
    ∃ sent, lastSent (log.take k) = some sent ∧ sent.Whole u

/-- What every step of an upload keeps. -/
structure World.Kept (u : LargeFile) (before : Option Bytes) (w : World) : Prop where
  stray : ∀ n, n ∉ u.numbers → w.server.pieces n = none
  destination : w.server.destination = before ∨ .move true ∈ w.log
  sends : ∀ sent, .sent sent ∈ w.log → sent.Faithful u
  moves : MovesFollow u w.log

variable {before : Option Bytes} {sent : Sent}

theorem World.start_kept (u : LargeFile) (fates : Nat → Fate) (reads : Nat → Option Read)
    (before : Option Bytes) : (World.start fates reads before).Kept u before where
  stray := fun _ _ => rfl
  destination := .inl rfl
  sends := fun _ hsent => by cases hsent
  moves := fun _ _ hmove => by cases hmove

theorem MovesFollow.snoc {log : List Event} (h : MovesFollow u log) {e : Event}
    (he : ∀ landed, e = .move landed → ∃ sent, lastSent log = some sent ∧ sent.Whole u) :
    MovesFollow u (log ++ [e]) := by
  intro k landed hk
  rcases Nat.lt_trichotomy k log.length with hlt | rfl | hgt
  · rw [List.getElem?_append_left hlt] at hk
    rw [List.take_append_of_le_length (Nat.le_of_lt hlt)]
    exact h k landed hk
  · rw [List.getElem?_concat_length] at hk
    rw [List.take_left]
    exact he landed (Option.some.inj hk)
  · rw [List.getElem?_eq_none (by rw [List.length_append, List.length_singleton]; omega)] at hk
    cases hk

theorem World.Kept.note (h : w.Kept u before) {e : Event}
    (hsent : ∀ sent, e = .sent sent → sent.Faithful u)
    (hmove : ∀ landed, e = .move landed → ∃ sent, lastSent w.log = some sent ∧ sent.Whole u) :
    (w.note e).Kept u before where
  stray := h.stray
  destination := h.destination.imp_right fun hmoved => List.mem_append_left _ hmoved
  sends := by
    intro sent hmem
    rcases List.mem_append.mp hmem with hmem | hmem
    · exact h.sends sent hmem
    · exact hsent sent (List.mem_singleton.mp hmem).symm
  moves := h.moves.snoc hmove

theorem request_keeps (h : w.Kept u before) {e : Event} (hsent : e.sent? = none)
    (hmove : ∀ landed, e ≠ .move landed) : (request e w).2.Kept u before := by
  have hspent : w.spend.Kept u before := ⟨h.stray, h.destination, h.sends, h.moves⟩
  refine hspent.note (fun sent heq => ?_) fun landed heq => absurd heq (hmove landed)
  rw [heq] at hsent
  cases hsent

/-! ### The pieces of a send that went through -/

/-- The pieces in the folder are those of the last send, which was of a whole read. -/
structure Ready (u : LargeFile) (sent : Sent) (w : World) : Prop where
  last : lastSent w.log = some sent
  whole : sent.Whole u
  assembled : w.server.assembled = sent.read.bytes

theorem Server.assembled_eq {server : Server} {bodies : List Bytes} (h : 0 < u.chunkBytes)
    (hstray : ∀ n, n ∉ u.numbers → server.pieces n = none)
    (hpieces : u.numbers.map server.pieces = bodies.map some) :
    server.assembled = bodies.flatten := by
  have hsplit : List.range' 1 NEXTCLOUD_MAX_CHUNKS =
      u.numbers ++ List.range' (1 + u.pieces) (NEXTCLOUD_MAX_CHUNKS - u.pieces) := by
    have hadd : NEXTCLOUD_MAX_CHUNKS = u.pieces + (NEXTCLOUD_MAX_CHUNKS - u.pieces) :=
      (Nat.add_sub_cancel' (LargeFile.pieces_le h)).symm
    unfold LargeFile.numbers
    rw [List.range'_append_1, ← hadd]
  have hnone : (List.range' (1 + u.pieces) (NEXTCLOUD_MAX_CHUNKS - u.pieces)).flatMap
      (fun n => (server.pieces n).getD []) = [] := by
    refine List.flatMap_eq_nil_iff.mpr fun n hn => ?_
    have hbeyond : n ∉ u.numbers := by
      intro hin
      have hlow := (List.mem_range'_1.mp hn).1
      have hhigh := (List.mem_range'_1.mp hin).2
      omega
    rw [hstray n hbeyond]
    rfl
  have hown : u.numbers.flatMap (fun n => (server.pieces n).getD []) = bodies.flatten := by
    show (u.numbers.map _).flatten = _
    have hmap : u.numbers.map (fun n => (server.pieces n).getD []) =
        (u.numbers.map server.pieces).map fun piece => piece.getD [] := by
      rw [List.map_map]
      rfl
    rw [hmap, hpieces, List.map_map]
    simp [Function.comp_def]
  unfold Server.assembled
  rw [hsplit, List.flatMap_append, hown, hnone, List.append_nil]

/-- A send keeps what there was; one that goes through makes the pieces ready, and
its hasher has seen the read. -/
structure SendKeeps (u : LargeFile) (before : Option Bytes) (r : Option (Nat × PieceAnswer) × World) :
    Prop where
  kept : r.2.Kept u before
  through : ∀ status reader, r.1 = some (status, .through reader) →
    ∃ sent, Ready u sent r.2 ∧ reader.seen = sent.read.bytes ∧ reader.done = true

/-- The pieces change, and nothing that is kept of the world. -/
theorem PiecesKeep.kept {r : PiecesEnd × List Bytes × Slicer × World} (h : w.Kept u before)
    (hr : PiecesKeep u read given u.numbers w r) : r.2.2.2.Kept u before where
  stray := fun n hn => (hr.others n hn).trans (h.stray n hn)
  destination := by
    rw [hr.destination, hr.log]
    exact h.destination
  sends := by
    rw [hr.log]
    exact h.sends
  moves := by
    rw [hr.log]
    exact h.moves

theorem send_keeps (hu : 0 < u.chunkBytes) (h : w.Kept u before) : SendKeeps u before (send u w) := by
  have hopened : World.Kept u before { w with reads := fun k => w.reads (k + 1) } :=
    ⟨h.stray, h.destination, h.sends, h.moves⟩
  unfold send
  dsimp only
  split
  · exact ⟨hopened, fun _ _ hnone => by cases hnone⟩
  · next read hread =>
      have hnumbers : u.numbers.Nodup := List.nodup_range'
      have hkeep : PiecesKeep u read [] u.numbers _ _ :=
        sendPieces_keep read.slicer_follows hnumbers { w with reads := fun k => w.reads (k + 1) }
      rcases hgo : sendPieces u u.numbers ⟨read.getReader, none, none⟩
        { w with reads := fun k => w.reads (k + 1) } with ⟨ended, bodies, s, w'⟩
      rw [hgo] at hkeep
      have hkept : w'.Kept u before := hkeep.kept hopened
      have hfollows : s.Follows read bodies.flatten := hkeep.follows
      have hnoted {sent : Sent} (hsent : sent.Faithful u) : (w'.note (.sent sent)).Kept u before :=
        hkept.note (fun _ heq => by cases heq; exact hsent) fun _ heq => by cases heq
      have hpart : Sent.Faithful u ⟨read, bodies, false, false⟩ :=
        ⟨hfollows.bytes_prefix, fun hacc => (by cases hacc), fun hacc => (by cases hacc)⟩
      cases ended with
      | threw => exact ⟨hnoted hpart, fun _ _ hnone => by cases hnone⟩
      | refused status n bytes => exact ⟨hnoted hpart, fun _ _ heq => by cases heq⟩
      | accepted =>
          obtain ⟨hlengths, hpieces⟩ := hkeep.accepted rfl
          rcases hend : s.assertEnded u.sizeBytes with ⟨atEnd, s'⟩
          have hread (hatEnd : atEnd = true) : EndedWith read bodies.flatten s'.reader := by
            have hended := hfollows.assertEnded u.sizeBytes (by rw [hend]; exact hatEnd)
            rwa [hend] at hended
          have hall : Sent.Faithful u ⟨read, bodies, true, atEnd⟩ :=
            ⟨hfollows.bytes_prefix, fun _ => hlengths, fun _ hatEnd => (hread hatEnd).bytes⟩
          refine ⟨hnoted hall, ?_⟩
          intro status reader heq
          dsimp only at heq
          split at heq
          · next hatEnd =>
              have hended := hread hatEnd
              cases heq
              have hlength : bodies.flatten.length = u.sizeBytes := by
                rw [List.length_flatten, hlengths]
                exact LargeFile.sum_numbers hu
              refine ⟨⟨read, bodies, true, atEnd⟩, ⟨lastSent_sent _ _, ⟨rfl, hatEnd, ?_, hended.ended⟩, ?_⟩,
                hended.seen, hended.done⟩
              · rw [← hended.bytes]
                exact hlength
              · rw [← hended.bytes]
                exact Server.assembled_eq hu hkept.stray hpieces
          · cases heq

/-! ### The MOVE -/

/-- Between the last send and the end of its MOVEs: the pieces are still those of the
send, or were assembled. -/
structure Moving (u : LargeFile) (before : Option Bytes) (sent : Sent) (w : World) : Prop where
  kept : w.Kept u before
  last : lastSent w.log = some sent
  whole : sent.Whole u
  pieces : w.server.assembled = sent.read.bytes ∨ w.server.assembled = []

theorem move_keeps (hu : 0 < u.sizeBytes) (h : Moving u before sent w) :
    Moving u before sent (move u w).2 ∧
      ∀ status, (move u w).1 = some (status, ()) → isAssembled status = true →
        (move u w).2.server.destination = some sent.read.bytes := by
  have hmoved (landed : Bool) (w' : World) (hkept : w'.Kept u before) (hlog : w'.log = w.log) :
      (w'.note (.move landed)).Kept u before ∧ lastSent (w'.note (.move landed)).log = some sent := by
    have hlast : lastSent w'.log = some sent := hlog ▸ h.last
    refine ⟨hkept.note (fun _ heq => by cases heq) fun _ _ => ⟨sent, hlast, h.whole⟩, ?_⟩
    exact (lastSent_other w'.log rfl).trans hlast
  unfold move
  dsimp only
  split
  · next hlanded =>
      simp only [Bool.and_eq_true, decide_eq_true_eq] at hlanded
      have hbytes : w.server.assembled = sent.read.bytes := by
        refine h.pieces.resolve_right fun hnil => ?_
        rw [hnil, List.length_nil] at hlanded
        omega
      have hnone : (⟨fun _ => none, some w.server.assembled⟩ : Server).assembled = [] :=
        List.flatMap_eq_nil_iff.mpr fun _ _ => rfl
      refine ⟨⟨?_, ?_, h.whole, .inr hnone⟩, fun _ _ _ => congrArg some hbytes⟩
      · refine ⟨fun _ _ => rfl, .inr (List.mem_append_right _ (List.mem_singleton_self _)), ?_, ?_⟩
        · exact (hmoved true w.spend ⟨h.kept.stray, h.kept.destination, h.kept.sends, h.kept.moves⟩
            rfl).1.sends
        · exact h.kept.moves.snoc fun _ _ => ⟨sent, h.last, h.whole⟩
      · exact (lastSent_other w.log rfl).trans h.last
  · obtain ⟨hkept, hlast⟩ := hmoved false w.spend
      ⟨h.kept.stray, h.kept.destination, h.kept.sends, h.kept.moves⟩ rfl
    refine ⟨⟨hkept, hlast, h.whole, h.pieces⟩, fun status hstatus hassembled => ?_⟩
    obtain ⟨answer, -, heq⟩ := Option.map_eq_some_iff.mp hstatus
    have hturned : isAssembled (if isAssembled answer then 400 else answer) = false := by
      split
      · rfl
      · next hnot => simpa using hnot
    rw [(Prod.mk.inj heq).1, hassembled] at hturned
    cases hturned

/-! ### The upload -/

/-- What holds of an upload, whatever it met. -/
structure UploadedWhole (u : LargeFile) (sha256 : Bytes → Digest) (before : Option Bytes)
    (r : Option (Outcome Digest) × Chunking × World) : Prop where
  few : u.pieces ≤ NEXTCLOUD_MAX_CHUNKS
  sized : u.sizeBytes ≤ NEXTCLOUD_MAX_CHUNKS * u.chunkBytes → u.pieceBytes = u.chunkBytes
  lengths : ∀ n ∈ u.numbers, 0 < u.lengthOf n ∧ u.lengthOf n ≤ u.pieceBytes
  total : (u.numbers.map u.lengthOf).sum = u.sizeBytes
  /-- The bodies of one send are those of one read. -/
  sends : ∀ sent, .sent sent ∈ r.2.2.log → sent.Faithful u
  /-- A MOVE is sent after a send that went through. -/
  moves : MovesFollow u r.2.2.log
  /-- A success is the digest of the bytes at the destination, those of the last send. -/
  assembled : ∀ hash, r.1 = some (.assembled hash) → ∃ sent, lastSent r.2.2.log = some sent ∧
    sent.Whole u ∧ r.2.2.server.destination = some sent.read.bytes ∧
      hash = some (sha256 sent.read.bytes)
  /-- Nothing but a MOVE that took effect changes the destination. -/
  otherwise : r.2.2.server.destination = before ∨ .move true ∈ r.2.2.log

/-- What the send and the MOVE come to. -/
structure Concluded (u : LargeFile) (sha256 : Bytes → Digest) (before : Option Bytes)
    (outcome : Outcome Digest) (w : World) : Prop where
  kept : w.Kept u before
  assembled : ∀ hash, outcome = .assembled hash → ∃ sent, lastSent w.log = some sent ∧
    sent.Whole u ∧ w.server.destination = some sent.read.bytes ∧
      hash = some (sha256 sent.read.bytes)

variable {sha256 : Bytes → Digest} {t : Target}

theorem outcomeOf_assembled {reader : Reader} {moved : Option (Nat × Unit)} {hash : Option Digest}
    (h : outcomeOf u sha256 t reader moved = .assembled hash) :
    ∃ status, moved = some (status, ()) ∧ isAssembled status = true ∧ hash = reader.digest sha256 := by
  rcases moved with - | ⟨status, ⟨⟩⟩
  · cases h
  · simp only [outcomeOf] at h
    split at h
    · next hassembled =>
        cases h
        exact ⟨status, rfl, hassembled, rfl⟩
    · split at h
      · split at h
        · cases h
        · split at h <;> cases h
      · split at h <;> cases h

theorem sendAndMove_concludes (hu : 0 < u.chunkBytes) (hsize : 0 < u.sizeBytes)
    (h : w.Kept u before) :
    Concluded u sha256 before (sendAndMove u sha256 t w).1 (sendAndMove u sha256 t w).2 := by
  obtain ⟨hkept, hsent⟩ := withDavRetry_rule (fun w => w.Kept u before)
    (fun answer w => SendKeeps u before (answer, w))
    (fun w hw => ⟨(send_keeps hu hw).kept, send_keeps hu hw⟩) MORE_ATTEMPTS h
  unfold sendAndMove
  rcases hgo : withDavRetry (send u) MORE_ATTEMPTS w with ⟨- | ⟨status, ⟨n, bytes⟩ | reader⟩, w'⟩
  · rw [hgo] at hkept
    exact ⟨hkept, fun _ heq => by cases heq⟩
  · rw [hgo] at hkept
    exact ⟨hkept, fun _ heq => by cases heq⟩
  · rw [hgo] at hkept hsent
    obtain ⟨sent, hready, hseen, hdone⟩ := hsent.through status reader rfl
    have hmoving : Moving u before sent w' := ⟨hkept, hready.last, hready.whole, .inl hready.assembled⟩
    obtain ⟨hmoved, hdestination⟩ := withDavRetry_rule (Moving u before sent)
      (fun answer w => ∀ status, answer = some (status, ()) → isAssembled status = true →
        w.server.destination = some sent.read.bytes)
      (fun w hw => move_keeps hsize hw) MORE_ATTEMPTS hmoving
    refine ⟨hmoved.kept, fun hash houtcome => ?_⟩
    obtain ⟨status', hstatus, hassembled, hhash⟩ := outcomeOf_assembled houtcome
    refine ⟨sent, hmoved.last, hready.whole, hdestination status' hstatus hassembled, ?_⟩
    rw [hhash, Reader.digest, if_pos hdone, hseen]

/-- The folder that is left is removed, and the file is as it was. -/
theorem discardUpload_concludes {outcome : Outcome Digest}
    (h : Concluded u sha256 before outcome w) :
    Concluded u sha256 before outcome (discardUpload outcome w) := by
  have hremoved : (withDavRetry (request .delete) MORE_ATTEMPTS w).2.Kept u before :=
    (withDavRetry_rule (fun w => w.Kept u before) (fun _ _ => True)
      (fun w hw => ⟨request_keeps hw rfl fun _ heq => (by cases heq), trivial⟩) MORE_ATTEMPTS h.kept).1
  cases outcome with
  | assembled hash => exact h
  | conflicted => exact ⟨hremoved, fun _ heq => by cases heq⟩
  | alreadyHeld => exact ⟨hremoved, fun _ heq => by cases heq⟩
  | threw => exact ⟨hremoved, fun _ heq => by cases heq⟩

theorem uploadChunked_concludes (hu : 0 < u.chunkBytes) (hsize : 0 < u.sizeBytes)
    (sha256 : Bytes → Digest) (t : Target) (uploads : Bool) (chunking : Chunking)
    (h : w.Kept u before) :
    (uploadChunked u sha256 t uploads chunking w).2.2.Kept u before ∧
      ∀ outcome, (uploadChunked u sha256 t uploads chunking w).1 = some outcome →
        Concluded u sha256 before outcome (uploadChunked u sha256 t uploads chunking w).2.2 := by
  have hopened : (withDavRetry (request .mkcol) MORE_ATTEMPTS w).2.Kept u before :=
    (withDavRetry_rule (fun w => w.Kept u before) (fun _ _ => True)
      (fun w hw => ⟨request_keeps hw rfl fun _ heq => (by cases heq), trivial⟩) MORE_ATTEMPTS h).1
  have hthrew {w' : World} (hw' : w'.Kept u before) :
      w'.Kept u before ∧ ∀ outcome, some (.threw : Outcome Digest) = some outcome →
        Concluded u sha256 before outcome w' :=
    ⟨hw', fun _ heq => by cases heq; exact ⟨hw', fun _ hne => by cases hne⟩⟩
  unfold uploadChunked
  split
  · exact ⟨h, fun _ heq => by cases heq⟩
  · rcases hgo : withDavRetry (request .mkcol) MORE_ATTEMPTS w with ⟨- | ⟨status, ⟨⟩⟩, w'⟩
    · rw [hgo] at hopened
      exact hthrew hopened
    · rw [hgo] at hopened
      dsimp only
      split
      · split
        · exact ⟨hopened, fun _ heq => by cases heq⟩
        · exact hthrew hopened
      · have hend : Concluded u sha256 before (sendAndMove u sha256 t w').1 _ :=
          discardUpload_concludes (sendAndMove_concludes hu hsize hopened)
        exact ⟨hend.kept, fun _ heq => by cases heq; exact hend⟩

/-- A file goes up in pieces whole, or not at all: whatever the requests are
answered, however the source is cut into chunks, and whether or not it keeps to the
size it declared. -/
theorem uploadChunked_whole (u : LargeFile) (hu : 0 < u.chunkBytes)
    (hsize : u.chunkBytes < u.sizeBytes) (sha256 : Bytes → Digest) (t : Target) (uploads : Bool)
    (chunking : Chunking) (fates : Nat → Fate) (reads : Nat → Option Read)
    (before : Option Bytes) :
    UploadedWhole u sha256 before
      (uploadChunked u sha256 t uploads chunking (World.start fates reads before)) := by
  obtain ⟨hkept, hconcluded⟩ := uploadChunked_concludes hu (Nat.zero_lt_of_lt hsize) sha256 t uploads
    chunking (World.start_kept u fates reads before)
  exact
    { few := LargeFile.pieces_le hu
      sized := LargeFile.pieceBytes_eq
      lengths := fun n hn => ⟨LargeFile.lengthOf_pos hu hn, LargeFile.lengthOf_le n⟩
      total := LargeFile.sum_numbers hu
      sends := hkept.sends
      moves := hkept.moves
      assembled := fun hash heq => (hconcluded _ heq).assembled hash rfl
      otherwise := hkept.destination }

/-! ### Ten bytes in three pieces -/

def tenBytes : LargeFile := ⟨4, 10, false, false⟩

/-- Two reads: the first is short by a byte. -/
def tenReads (n : Nat) : Option Read :=
  if n = 0 then some ⟨[[1, 2, 3], [], [4, 5, 6, 7, 8, 9]], false⟩
  else some ⟨[[1, 2, 3], [], [4, 5, 6, 7, 8, 9, 10]], false⟩

/-- The folder is made, a piece meets a lock, and everything after it is accepted. -/
def tenFates (n : Nat) : Fate := ⟨some (if n = 2 then 423 else 201), true, 1, []⟩

theorem uploadChunked_whole_ten : UploadedWhole tenBytes id none
    (uploadChunked tenBytes id ⟨false, false⟩ true .unknown (World.start tenFates tenReads none)) :=
  uploadChunked_whole tenBytes (by decide) (by decide) id ⟨false, false⟩ true .unknown tenFates
    tenReads none

end Ownpace.Upload
