/-
Ownpace/Upload/Slicer.lean

One read of a file handed out as consecutive pieces: `ChunkSlicer` of
`nextcloud-chunked-upload.ts`, over a source that is read through the hasher of
`streamingFileContentHash`.

The source comes in chunks of any sizes, empty ones among them, and may break
where it should end.  Whatever they are, what was handed out and what still waits
are the bytes of the read, in order (`Slicer.Follows`).
-/
import Mathlib.Data.List.Basic

namespace Ownpace.Upload

abbrev Bytes := List UInt8

/-! ### The source -/

/-- One read: its chunks, and whether it breaks after them rather than ends. -/
structure Read where
  chunks : List Bytes
  breaks : Bool

def Read.bytes (r : Read) : Bytes := r.chunks.flatten

/-- A read under way, with what the hasher has seen of it, and whether it was
flushed. -/
structure Reader where
  chunks : List Bytes
  breaks : Bool
  seen : Bytes
  done : Bool

def Read.getReader (r : Read) : Reader := ⟨r.chunks, r.breaks, [], false⟩

inductive Taken where
  | piece (bytes : Bytes)
  | ended
  | broke

/-- `reader.read()` -/
def Reader.read (r : Reader) : Taken × Reader :=
  match r.chunks with
  | c :: rest => (.piece c, { r with chunks := rest, seen := r.seen ++ c })
  | [] => if r.breaks then (.broke, r) else (.ended, { r with done := true })

/-! ### The slicer -/

inductive Failure where
  | readBroke
  | endedBefore (remaining : Nat)
  | tooLong (declared : Nat)
  deriving DecidableEq

structure Slicer where
  reader : Reader
  leftover : Option Bytes
  failure : Option Failure

/-- `this.failure ??= failure` -/
def Slicer.fail (s : Slicer) (failure : Failure) : Slicer :=
  { s with failure := s.failure.or (some failure) }

/-- The first `max` bytes of a chunk; the rest of it waits. -/
def Slicer.cut (max : Nat) (piece : Bytes) (s : Slicer) : Taken × Slicer :=
  if max < piece.length then
    (.piece (piece.take max), { s with leftover := some (piece.drop max) })
  else (.piece piece, s)

def Slicer.take (max : Nat) (s : Slicer) : Taken × Slicer :=
  match s.leftover with
  | some piece => cut max piece { s with leftover := none }
  | none =>
    match s.reader.read with
    | (.piece piece, r) => cut max piece { s with reader := r }
    | (taken, r) => (taken, { s with reader := r })

inductive Pulled where
  | piece (bytes : Bytes)
  | closed
  | errored

/-- The chunks that `take` may still be asked for. -/
def Slicer.waiting (s : Slicer) : Nat :=
  s.reader.chunks.length + if s.leftover.isSome then 1 else 0

theorem Slicer.cut_nil {max : Nat} (hmax : 0 < max) {piece : Bytes} {s s' : Slicer}
    (h : s.cut max piece = (.piece [], s')) : s' = s := by
  unfold Slicer.cut at h
  split at h
  · next hlong =>
      obtain ⟨htaken, -⟩ := Prod.mk.inj h
      have hnil := congrArg List.length (Taken.piece.inj htaken)
      rw [List.length_take, List.length_nil] at hnil
      omega
  · exact (Prod.mk.inj h).2.symm

theorem Slicer.waiting_lt {max : Nat} (hmax : 0 < max) {s s' : Slicer}
    (h : s.take max = (.piece [], s')) : s'.waiting < s.waiting := by
  unfold Slicer.take at h
  split at h
  · next piece hleftover =>
      rw [Slicer.cut_nil hmax h]
      simp [Slicer.waiting, hleftover]
  · next hleftover =>
      rcases hchunks : s.reader.chunks with - | ⟨c, rest⟩
      · rcases hbreaks : s.reader.breaks <;> simp [Reader.read, hchunks, hbreaks] at h
      · simp only [Reader.read, hchunks] at h
        rw [Slicer.cut_nil hmax h]
        simp [Slicer.waiting, hleftover, hchunks]

/-- One pull of a piece's stream: an empty chunk is passed over. -/
def Slicer.pull (remaining : Nat) (s : Slicer) : Pulled × Slicer :=
  if _hremaining : remaining = 0 then (.closed, s)
  else
    match _htaken : s.take remaining with
    | (.piece [], s') => s'.pull remaining
    | (.piece (b :: bytes), s') => (.piece (b :: bytes), s')
    | (.ended, s') => (.errored, s'.fail (.endedBefore remaining))
    | (.broke, s') => (.errored, s'.fail .readBroke)
termination_by s.waiting
decreasing_by exact Slicer.waiting_lt (Nat.pos_of_ne_zero _hremaining) _htaken

inductive StreamEnd where
  | closed
  | errored
  /-- The request stopped reading. -/
  | unread
  deriving DecidableEq

/-- What a request reads of `next(remaining)` in so many pulls. -/
def Slicer.drain : (pulls remaining : Nat) → Slicer → Bytes × StreamEnd × Slicer
  | 0, remaining, s => ([], if remaining = 0 then .closed else .unread, s)
  | pulls + 1, remaining, s =>
    match s.pull remaining with
    | (.piece bytes, s') =>
      let (rest, ended, s'') := s'.drain pulls (remaining - bytes.length)
      (bytes ++ rest, ended, s'')
    | (.closed, s') => ([], .closed, s')
    | (.errored, s') => ([], .errored, s')

/-- The loop of `assertEnded`. -/
def Slicer.readOut (declared : Nat) (s : Slicer) : Bool × Slicer :=
  match _hchunks : s.reader.chunks with
  | [] => (!s.reader.breaks, { s with reader := s.reader.read.2 })
  | [] :: _ => readOut declared { s with reader := s.reader.read.2 }
  | (_ :: _) :: _ => (false, { s with reader := s.reader.read.2 }.fail (.tooLong declared))
termination_by s.reader.chunks.length
decreasing_by simp [Reader.read, _hchunks]

/-- Did the source end with the last piece? -/
def Slicer.assertEnded (declared : Nat) (s : Slicer) : Bool × Slicer :=
  if s.leftover.getD [] ≠ [] then (false, s.fail (.tooLong declared)) else s.readOut declared

/-! ### What a slicer has handed out -/

/-- The bytes that still wait. -/
def Slicer.unread (s : Slicer) : Bytes := s.leftover.getD [] ++ s.reader.chunks.flatten

/-- A slicer over a read: the bytes that were handed out and those that wait are
those of the read, and the hasher has seen what was read of it. -/
structure Slicer.Follows (read : Read) (given : Bytes) (s : Slicer) : Prop where
  bytes : given ++ s.unread = read.bytes
  seen : s.reader.seen ++ s.reader.chunks.flatten = read.bytes
  done : s.reader.done = true → s.reader.chunks = [] ∧ read.breaks = false
  breaks : s.reader.breaks = read.breaks

variable {read : Read} {given : Bytes} {s : Slicer}

theorem Read.slicer_follows (read : Read) : Slicer.Follows read [] ⟨read.getReader, none, none⟩ where
  bytes := rfl
  seen := rfl
  done := fun h => by cases h
  breaks := rfl

namespace Slicer.Follows

theorem fail (h : s.Follows read given) (failure : Failure) : (s.fail failure).Follows read given :=
  ⟨h.bytes, h.seen, h.done, h.breaks⟩

theorem bytes_prefix (h : s.Follows read given) : given <+: read.bytes := ⟨s.unread, h.bytes⟩

end Slicer.Follows

/-- What `take` leaves of a read. -/
inductive Took (read : Read) (given : Bytes) (max : Nat) : Taken × Slicer → Prop
  | piece {bytes : Bytes} {s : Slicer} (h : s.Follows read (given ++ bytes))
      (hlength : bytes.length ≤ max) : Took read given max (.piece bytes, s)
  | ended {s : Slicer} (h : s.Follows read given) : Took read given max (.ended, s)
  | broke {s : Slicer} (h : s.Follows read given) : Took read given max (.broke, s)

theorem Slicer.cut_took (s : Slicer) {piece : Bytes} (hnone : s.leftover = none)
    (h : s.Follows read (given ++ piece)) (max : Nat) : Took read given max (s.cut max piece) := by
  have hunread : s.unread = s.reader.chunks.flatten := by simp [Slicer.unread, hnone]
  unfold Slicer.cut
  split
  · refine .piece ⟨?_, h.seen, h.done, h.breaks⟩ (List.length_take_le _ _)
    show given ++ piece.take max ++ (piece.drop max ++ s.reader.chunks.flatten) = read.bytes
    rw [List.append_assoc, ← List.append_assoc (piece.take max), List.take_append_drop, ← hunread,
      ← List.append_assoc]
    exact h.bytes
  · next hshort => exact .piece h (Nat.le_of_not_lt hshort)

theorem Slicer.Follows.take_took (h : s.Follows read given) (max : Nat) :
    Took read given max (s.take max) := by
  unfold Slicer.take
  split
  · next piece hleftover =>
      refine Slicer.cut_took { s with leftover := none } rfl ⟨?_, h.seen, h.done, h.breaks⟩ max
      have hbytes := h.bytes
      rw [Slicer.unread, hleftover] at hbytes
      show given ++ piece ++ ([] ++ s.reader.chunks.flatten) = read.bytes
      rw [List.append_assoc]
      exact hbytes
  · next hleftover =>
      have hbytes := h.bytes
      rw [Slicer.unread, hleftover] at hbytes
      rcases hchunks : s.reader.chunks with - | ⟨c, rest⟩
      · rcases hbreaks : s.reader.breaks with - | -
        · simp only [Reader.read, hchunks, hbreaks, Bool.false_eq_true, if_false]
          refine .ended ⟨?_, ?_, fun _ => ⟨rfl, h.breaks ▸ hbreaks⟩, hbreaks.symm.trans h.breaks⟩
          · rw [← h.bytes, Slicer.unread, Slicer.unread, hchunks]
          · rw [← h.seen, hchunks]
        · simp only [Reader.read, hchunks, hbreaks, if_true]
          exact .broke h
      · simp only [Reader.read, hchunks]
        let r : Reader := { s.reader with chunks := rest, seen := s.reader.seen ++ c }
        refine Slicer.cut_took { s with reader := r } hleftover ⟨?_, ?_, ?_, h.breaks⟩ max
        · show given ++ c ++ (s.leftover.getD [] ++ rest.flatten) = read.bytes
          rw [hleftover, List.append_assoc]
          rw [hchunks] at hbytes
          exact hbytes
        · show s.reader.seen ++ c ++ rest.flatten = read.bytes
          rw [List.append_assoc, ← List.flatten_cons, ← hchunks]
          exact h.seen
        · intro hdone
          rw [(h.done hdone).1] at hchunks
          cases hchunks

/-- What a pull leaves of a read. -/
inductive PulledOf (read : Read) (given : Bytes) (remaining : Nat) : Pulled × Slicer → Prop
  | piece {bytes : Bytes} {s : Slicer} (h : s.Follows read (given ++ bytes)) (hne : bytes ≠ [])
      (hlength : bytes.length ≤ remaining) : PulledOf read given remaining (.piece bytes, s)
  | closed {s : Slicer} (h : s.Follows read given) (hzero : remaining = 0) :
      PulledOf read given remaining (.closed, s)
  | errored {s : Slicer} (h : s.Follows read given) : PulledOf read given remaining (.errored, s)

theorem Slicer.Follows.pull (h : s.Follows read given) (remaining : Nat) :
    PulledOf read given remaining (s.pull remaining) := by
  induction hn : s.waiting using Nat.strongRecOn generalizing s with
  | ind n ih =>
      rw [Slicer.pull]
      split
      · next hzero => exact .closed h hzero
      · next hpos =>
          have htook := h.take_took remaining
          split
          · next s' htaken =>
              rw [htaken] at htook
              cases htook with
              | piece h' _ =>
                  rw [List.append_nil] at h'
                  exact ih s'.waiting (hn ▸ Slicer.waiting_lt (Nat.pos_of_ne_zero hpos) htaken) h' rfl
          · next b bytes s' htaken =>
              rw [htaken] at htook
              cases htook with
              | piece h' hlength => exact .piece h' (List.cons_ne_nil _ _) hlength
          · next s' htaken =>
              rw [htaken] at htook
              cases htook with
              | ended h' => exact .errored (h'.fail _)
          · next s' htaken =>
              rw [htaken] at htook
              cases htook with
              | broke h' => exact .errored (h'.fail _)

/-- What a request read of a piece. -/
structure Drained (read : Read) (given : Bytes) (pulls remaining : Nat)
    (r : Bytes × StreamEnd × Slicer) : Prop where
  follows : r.2.2.Follows read (given ++ r.1)
  length_le : r.1.length ≤ remaining
  closed : r.2.1 = .closed → r.1.length = remaining
  read_out : remaining ≤ pulls → r.2.1 ≠ .unread

theorem Slicer.Follows.drain (h : s.Follows read given) (pulls remaining : Nat) :
    Drained read given pulls remaining (s.drain pulls remaining) := by
  induction pulls generalizing given remaining s with
  | zero =>
      refine ⟨by simpa [Slicer.drain] using h, Nat.zero_le _, ?_, ?_⟩
      · intro hclosed
        show 0 = remaining
        by_contra hne
        simp [Slicer.drain, Ne.symm hne] at hclosed
      · intro hle
        have hzero : remaining = 0 := Nat.le_zero.mp hle
        simp [Slicer.drain, hzero]
  | succ pulls ih =>
      have hpulled := h.pull remaining
      rcases hpull : s.pull remaining with ⟨bytes | - | -, s'⟩
      · rw [hpull] at hpulled
        cases hpulled with
        | piece h' hne hlength =>
            have hrest := ih h' (remaining - bytes.length)
            have hpos : 0 < bytes.length := List.length_pos_iff.mpr hne
            simp only [Slicer.drain, hpull]
            refine ⟨?_, ?_, ?_, ?_⟩
            · show Slicer.Follows read (given ++ (bytes ++ _)) _
              rw [← List.append_assoc]
              exact hrest.follows
            · have hle := hrest.length_le
              rw [List.length_append]
              omega
            · intro hclosed
              have heq := hrest.closed hclosed
              rw [List.length_append]
              omega
            · exact fun hle => hrest.read_out (by omega)
      · rw [hpull] at hpulled
        cases hpulled with
        | closed h' hzero =>
            simp only [Slicer.drain, hpull]
            refine ⟨?_, Nat.zero_le _, fun _ => hzero.symm, fun _ => by simp⟩
            rw [List.append_nil]
            exact h'
      · rw [hpull] at hpulled
        cases hpulled with
        | errored h' =>
            simp only [Slicer.drain, hpull]
            refine ⟨?_, Nat.zero_le _, fun hclosed => (by cases hclosed), fun _ => (by simp)⟩
            rw [List.append_nil]
            exact h'

/-- A read that ended with the last piece: all of it was handed out, and the hasher
has seen it to its end. -/
structure EndedWith (read : Read) (given : Bytes) (r : Reader) : Prop where
  bytes : given = read.bytes
  ended : read.breaks = false
  seen : r.seen = read.bytes
  done : r.done = true

theorem Slicer.readOut_nil (h : s.reader.chunks = []) (declared : Nat) :
    s.readOut declared = (!s.reader.breaks, { s with reader := s.reader.read.2 }) := by
  rw [Slicer.readOut]
  split
  · rfl
  · next hcons => cases h.symm.trans hcons
  · next hcons => cases h.symm.trans hcons

theorem Slicer.readOut_cons {c : Bytes} {rest : List Bytes} (h : s.reader.chunks = c :: rest)
    (declared : Nat) : s.readOut declared =
      if c = [] then Slicer.readOut declared { s with reader := s.reader.read.2 }
      else (false, { s with reader := s.reader.read.2 }.fail (.tooLong declared)) := by
  rw [Slicer.readOut]
  split
  · next hnil => cases h.symm.trans hnil
  · next hcons =>
      cases h.symm.trans hcons
      rfl
  · next hcons =>
      cases h.symm.trans hcons
      rfl

theorem Slicer.Follows.readOut (h : s.Follows read given) (hempty : s.leftover.getD [] = [])
    (declared : Nat) (hended : (s.readOut declared).1 = true) :
    EndedWith read given (s.readOut declared).2.reader := by
  have hbytes := h.bytes
  rw [Slicer.unread, hempty, List.nil_append] at hbytes
  induction hchunks : s.reader.chunks generalizing s with
  | nil =>
      have hseen := h.seen
      rw [hchunks, List.flatten_nil, List.append_nil] at hbytes hseen
      rw [Slicer.readOut_nil hchunks] at hended ⊢
      have hends : s.reader.breaks = false := by simpa using hended
      simp only [Reader.read, hchunks, hends]
      exact ⟨hbytes, h.breaks ▸ hends, hseen, rfl⟩
  | cons c rest ih =>
      rw [Slicer.readOut_cons hchunks] at hended ⊢
      split at hended
      · next hnil =>
          subst hnil
          rw [if_pos rfl]
          have hread : s.reader.read.2 =
              { s.reader with chunks := rest, seen := s.reader.seen ++ [] } := by
            simp [Reader.read, hchunks]
          rw [hread] at hended ⊢
          have hrest : given ++ rest.flatten = read.bytes := by simpa [hchunks] using hbytes
          refine ih ⟨?_, ?_, ?_, h.breaks⟩ hempty hended hrest rfl
          · show given ++ (s.leftover.getD [] ++ rest.flatten) = read.bytes
            rw [hempty, List.nil_append, hrest]
          · have hseen := h.seen
            rw [hchunks] at hseen
            simpa using hseen
          · intro hdone
            rw [(h.done hdone).1] at hchunks
            cases hchunks
      · cases hended

theorem Slicer.Follows.assertEnded (h : s.Follows read given) (declared : Nat)
    (hended : (s.assertEnded declared).1 = true) :
    EndedWith read given (s.assertEnded declared).2.reader := by
  unfold Slicer.assertEnded at hended ⊢
  split at hended
  · cases hended
  · next hempty =>
      rw [if_neg hempty]
      exact h.readOut (not_not.mp hempty) declared hended

end Ownpace.Upload
