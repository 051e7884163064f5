/-
Ownpace/Archive/Together.lean

Any readers of any sources of one store at once: every read that is answered gives exactly the
bytes of the file it asked for, and what the sources hold between them is what the budget
counts, within its limit or a single window.

A window is a value that its read holds: what another fetch or an eviction does meanwhile
touches only what the sources remember (`Sound`).  Of a fetch begun nothing but its outcome
changes (`Later`).
-/
import Ownpace.Archive.RangeSource
import Ownpace.Await.Answers

namespace Ownpace.Archive

open Await

/-- The bytes of a file that a read asks for. -/
def cut (file : List UInt8) (offset length : Nat) : List UInt8 := (file.drop offset).take length

/-- What the server may answer: a rejection, or any response, where one that says it is of the
range has the file's bytes from the offset on, however many. -/
inductive Effects (files : Nat → List UInt8) : World → (o : RangeOp) → o.Ans → World → Prop
  | answered {s : World} {source offset stop : Nat} {response : Response}
      (h : response.status = 206 → response.bytes <+: (files source).drop offset) :
      Effects files s (.request source offset stop) (.ok response) s
  | rejects {s : World} {source offset stop : Nat} (e : String) :
      Effects files s (.request source offset stop) (.error e) s
  | settled {s : World} {promise : Nat} {f : Fetch} {r : Except ReadError RangeWindow}
      (hf : s.fetches[promise]? = some f) (hr : f.outcome = some r) :
      Effects files s (.settled promise) r s

/-! ### What is kept -/

/-- The window is a stretch of the file. -/
def Exact (file : List UInt8) (window : RangeWindow) : Prop :=
  window.bytes <+: file.drop window.offset

/-- An exact window of an extent. -/
structure Brings (file : List UInt8) (offset stop : Nat) (window : RangeWindow) : Prop where
  exact : Exact file window
  offset_eq : window.offset = offset
  length_eq : window.bytes.length = stop - offset

structure Sound (sources : Nat → Opened) (files : Nat → List UInt8) (s : World) : Prop where
  held : ∀ i window, s.held i = some window → Exact (files i) window
  fetches : ∀ (p : Nat) f window, s.fetches[p]? = some f → f.outcome = some (.ok window) →
    Brings (files f.source) f.offset f.stop window
  onItsWay : ∀ i p, s.onItsWay i = some p → ∃ f, s.fetches[p]? = some f ∧ f.source = i
  counted : ∀ i n, (i, n) ∈ s.budget.held ↔
    (sources i).inBudget = true ∧ ∃ window, s.held i = some window ∧ window.bytes.length = n
  answers : ∀ a ∈ s.answers, a.bytes = cut (files a.source) a.offset a.length ∧
    a.bytes.length = a.length

/-- Two records of one fetch. -/
structure Fetch.Same (f f' : Fetch) : Prop where
  source : f'.source = f.source
  offset : f'.offset = f.offset
  stop : f'.stop = f.stop

/-- A fetch begun stays what it is, and the budget's limit does. -/
structure Later (s s' : World) : Prop where
  fetches : ∀ (p : Nat) f, s.fetches[p]? = some f → ∃ f', s'.fetches[p]? = some f' ∧ f.Same f'
  limit : s'.budget.limitBytes = s.budget.limitBytes

theorem Fetch.Same.refl (f : Fetch) : f.Same f := ⟨rfl, rfl, rfl⟩

theorem Fetch.Same.trans {f f' f'' : Fetch} (h : f.Same f') (h' : f'.Same f'') : f.Same f'' :=
  ⟨h'.source.trans h.source, h'.offset.trans h.offset, h'.stop.trans h.stop⟩

theorem Later.refl (s : World) : Later s s := ⟨fun _ f hf => ⟨f, hf, .refl f⟩, rfl⟩

theorem Later.trans (s s' s'' : World) (h : Later s s') (h' : Later s' s'') : Later s s'' := by
  refine ⟨fun p f hf => ?_, h'.limit.trans h.limit⟩
  obtain ⟨f', hf', hsame⟩ := h.fetches p f hf
  obtain ⟨f'', hf'', hsame'⟩ := h'.fetches p f' hf'
  exact ⟨f'', hf'', hsame.trans hsame'⟩

theorem Later.of_eq {s s' : World} (hfetches : s'.fetches = s.fetches)
    (hlimit : s'.budget.limitBytes = s.budget.limitBytes) : Later s s' :=
  ⟨fun _ f hf => ⟨f, hfetches ▸ hf, .refl f⟩, hlimit⟩

/-! ### One read's bytes -/

variable {sources : Nat → Opened} {files : Nat → List UInt8} {s : World}
variable {file : List UInt8} {window : RangeWindow} {source offset length stop promise : Nat}

theorem covers_iff {start : Nat} :
    covers start stop offset length = true ↔ start ≤ offset ∧ offset + length ≤ stop := by
  simp [covers]

theorem clampIndex_ofNat {n length : Nat} (h : n ≤ length) : clampIndex length n = n := by
  rw [clampIndex, if_neg (by omega)]
  simp [h]

theorem slice_of_covered (hexact : Exact file window)
    (h : covers window.offset (window.offset + window.bytes.length) offset length = true) :
    slice window.bytes (offset - window.offset) (offset - window.offset + length) =
        cut file offset length ∧ (cut file offset length).length = length := by
  obtain ⟨hstart, hstop⟩ := covers_iff.mp h
  obtain ⟨beyond, hfile⟩ := hexact
  obtain ⟨d, rfl⟩ := Nat.exists_eq_add_of_le hstart
  have hd : d + length ≤ window.bytes.length := by omega
  have hstartAt : ((window.offset + d : Nat) : Int) - window.offset = (d : Nat) := by omega
  have hcut : cut file (window.offset + d) length = (window.bytes.drop d).take length := by
    unfold cut
    rw [← List.drop_drop, ← hfile, List.drop_append_of_le_length (by omega),
      List.take_append_of_le_length (by rw [List.length_drop]; omega)]
  rw [hstartAt, hcut]
  constructor
  · show (window.bytes.take (clampIndex window.bytes.length ((d + length : Nat) : Int))).drop
      (clampIndex window.bytes.length (d : Int)) = _
    rw [clampIndex_ofNat hd, clampIndex_ofNat (by omega), List.drop_take, Nat.add_sub_cancel_left]
  · rw [List.length_take, List.length_drop]
    omega

/-! ### The steps -/

/-- What is found once a key is set: its own, or what was there. -/
theorem of_update {α : Type} {f : Nat → Option α} {i : Nat} {v : Option α} {a : α}
    (h : Function.update f source v i = some a) : i = source ∧ v = some a ∨ f i = some a := by
  rcases eq_or_ne i source with rfl | hne
  · rw [Function.update_self] at h
    exact .inl ⟨rfl, h⟩
  · rw [Function.update_of_ne hne] at h
    exact .inr h

/-- A program that keeps the store in order, among others that do. -/
abbrev Keeps (sources : Nat → Opened) (files : Nat → List UInt8) {α : Type} (p : Reading α)
    (A : World → α → Prop) (s : World) : Prop :=
  p.Among (Sound sources files) Later (Effects files) (Answers A) s

theorem Sound.keep (hs : Sound sources files s) (hexact : Exact (files source) window) :
    Sound sources files (s.keep sources source window) := by
  unfold World.keep
  dsimp only
  split
  · rename_i hin
    refine ⟨fun i w hw => ?_, hs.fetches, hs.onItsWay, fun i n => ?_, hs.answers⟩
    · dsimp only at hw
      split at hw
      · cases hw
      · rcases of_update hw with ⟨rfl, heq⟩ | hw
        · cases heq
          exact hexact
        · exact hs.held i w hw
    · rw [RangeBudget.mem_hold]
      dsimp only
      rcases eq_or_ne i source with rfl | hi
      · have hstays : i ∉ s.budget.dropped i window.bytes.length := RangeBudget.not_mem_dropped
        simp [hstays, hin, eq_comm]
      · by_cases hdropped : i ∈ s.budget.dropped source window.bytes.length
        · simp [hdropped]
        · simp [hdropped, hi, hs.counted]
  · rename_i hout
    refine ⟨fun i w hw => ?_, hs.fetches, hs.onItsWay, fun i n => ?_, hs.answers⟩
    · rcases of_update hw with ⟨rfl, heq⟩ | hw
      · cases heq
        exact hexact
      · exact hs.held i w hw
    · rcases eq_or_ne i source with rfl | hi
      · simp [hs.counted, hout]
      · simp [hs.counted, hi]

theorem later_keep : Later s (s.keep sources source window) := by
  unfold World.keep
  dsimp only
  split <;> exact .of_eq rfl rfl

theorem Sound.settle (hs : Sound sources files s) {outcome : Except ReadError RangeWindow}
    (h : ∀ f window, s.fetches[promise]? = some f → outcome = .ok window →
      Brings (files f.source) f.offset f.stop window) :
    Sound sources files (s.settle promise outcome) := by
  refine ⟨hs.held, fun p f w hf hw => ?_, fun i p hi => ?_, hs.counted, hs.answers⟩
  · obtain ⟨old, hold, hnew⟩ := Option.map_eq_some_iff.mp ((List.getElem?_modify ..).symm.trans hf)
    split at hnew
    · rename_i hsame
      subst hsame
      subst hnew
      cases hthen : old.outcome with
      | none =>
          rw [show (old.outcome.or (some outcome)) = some outcome by rw [hthen]; rfl] at hw
          exact h old w hold (Option.some.inj hw)
      | some r =>
          rw [show (old.outcome.or (some outcome)) = some r by rw [hthen]; rfl] at hw
          exact hs.fetches promise old w hold (hthen.trans hw)
    · subst hnew
      exact hs.fetches p old w hold hw
  · obtain ⟨f, hf, hsource⟩ := hs.onItsWay i p hi
    refine ⟨_, (List.getElem?_modify ..).trans (congrArg _ hf), ?_⟩
    dsimp only
    split <;> exact hsource

theorem later_settle {outcome : Except ReadError RangeWindow} :
    Later s (s.settle promise outcome) := by
  refine ⟨fun p f hf => ?_, rfl⟩
  refine ⟨_, (List.getElem?_modify ..).trans (congrArg _ hf), ?_⟩
  dsimp only
  split
  · exact ⟨rfl, rfl, rfl⟩
  · exact .refl f

theorem Sound.arrived (hs : Sound sources files s) :
    Sound sources files (s.arrived source promise) := by
  unfold World.arrived
  split
  · refine ⟨hs.held, hs.fetches, fun i p hi => ?_, hs.counted, hs.answers⟩
    rcases of_update hi with ⟨-, heq⟩ | hi
    · cases heq
    · exact hs.onItsWay i p hi
  · exact hs

theorem later_arrived : Later s (s.arrived source promise) := by
  unfold World.arrived
  split <;> exact .of_eq rfl rfl

theorem Sound.close (hs : Sound sources files s) : Sound sources files (s.close sources source) := by
  refine ⟨fun i w hw => ?_, hs.fetches, fun i p hi => ?_, fun i n => ?_, hs.answers⟩
  · rcases of_update hw with ⟨-, heq⟩ | hw
    · cases heq
    · exact hs.held i w hw
  · rcases of_update hi with ⟨-, heq⟩ | hi
    · cases heq
    · exact hs.onItsWay i p hi
  · rcases eq_or_ne i source with rfl | hne
    · cases hin : (sources i).inBudget with
      | true => simp [World.close, hin]
      | false => simp [World.close, hin, hs.counted]
    · cases hin : (sources source).inBudget with
      | true => simp [World.close, hin, hs.counted, hne]
      | false => simp [World.close, hin, hs.counted, hne]

theorem later_close : Later s (s.close sources source) := by
  refine .of_eq rfl ?_
  dsimp only [World.close]
  split <;> rfl

theorem touch_limit (b : RangeBudget Nat) : (b.touch source).limitBytes = b.limitBytes := by
  unfold RangeBudget.touch
  split <;> rfl

/-! ### Where a read's window comes from -/

theorem wayOut_cases :
    (∃ promise f, s.onItsWay source = some promise ∧ s.fetches[promise]? = some f ∧
      covers f.offset f.stop offset length = true ∧
      s.wayOut sources source offset length = .coming promise) ∨
    s.wayOut sources source offset length = .fetching
      (min (sources source).size (offset + max length (sources source).windowBytes)) := by
  unfold World.wayOut
  dsimp only
  cases hcoming : s.comingTo source with
  | none => exact .inr rfl
  | some coming =>
      obtain ⟨promise, hon, hmap⟩ := Option.bind_eq_some_iff.mp hcoming
      obtain ⟨f, hf, rfl⟩ := Option.map_eq_some_iff.mp hmap
      cases hcovers : covers f.offset f.stop offset length with
      | true => exact .inl ⟨promise, f, hon, hf, hcovers, by simp [hcovers]⟩
      | false => exact .inr (by simp [hcovers])

/-- The window in memory, one on its way, or one to ask for. -/
theorem way_cases :
    (∃ window, s.held source = some window ∧
      covers window.offset (window.offset + window.bytes.length) offset length = true ∧
      s.way sources source offset length = .cached window) ∨
    (∃ promise f, s.onItsWay source = some promise ∧ s.fetches[promise]? = some f ∧
      covers f.offset f.stop offset length = true ∧
      s.way sources source offset length = .coming promise) ∨
    s.way sources source offset length = .fetching
      (min (sources source).size (offset + max length (sources source).windowBytes)) := by
  unfold World.way
  cases hheld : s.held source with
  | none => exact .inr wayOut_cases
  | some window =>
      dsimp only
      cases hcovers : covers window.offset (window.offset + window.bytes.length) offset length with
      | true => exact .inl ⟨window, rfl, hcovers, if_pos rfl⟩
      | false =>
          rw [if_neg Bool.false_ne_true]
          exact .inr wayOut_cases

/-- An exact window that covers a read. -/
structure Serves (file : List UInt8) (offset length : Nat) (window : RangeWindow) : Prop where
  exact : Exact file window
  covered : covers window.offset (window.offset + window.bytes.length) offset length = true

theorem Brings.serves {start : Nat} (h : Brings file start stop window)
    (hcovers : covers start stop offset length = true) : Serves file offset length window := by
  obtain ⟨hstart, hstop⟩ := covers_iff.mp hcovers
  refine ⟨h.exact, covers_iff.mpr ⟨h.offset_eq ▸ hstart, ?_⟩⟩
  rw [h.offset_eq, h.length_eq]
  omega

/-- The fetch of this number is the one of the extent. -/
def Begun (source offset stop promise : Nat) (s : World) : Prop :=
  ∃ f, s.fetches[promise]? = some f ∧ f.source = source ∧ f.offset = offset ∧ f.stop = stop

theorem Begun.later {s' : World} (h : Begun source offset stop promise s) (hl : Later s s') :
    Begun source offset stop promise s' := by
  obtain ⟨f, hf, hsource, hoffset, hstop⟩ := h
  obtain ⟨f', hf', hsame⟩ := hl.fetches promise f hf
  exact ⟨f', hf', hsame.source.trans hsource, hsame.offset.trans hoffset, hsame.stop.trans hstop⟩

theorem keeps_fetch : Keeps sources files (fetch sources source offset stop)
    (fun _ => Brings (files source) offset stop) s := by
  intro t _ ht a t' heffects
  cases heffects with
  | rejects e => exact ⟨ht, Later.refl t, Prog.among_throw⟩
  | @answered _ _ _ response hexact =>
      refine ⟨ht, Later.refl t, ?_⟩
      dsimp only
      split
      · exact Prog.among_throw
      · split
        · exact Prog.among_throw
        · split
          · exact Prog.among_throw
          · rename_i hstatus hlength
            have hprefixed := hexact (not_not.mp hstatus)
            intro t' _ ht'
            refine ⟨ht'.keep hprefixed, later_keep, Prog.among_ret fun _ _ _ => ?_⟩
            exact ⟨hprefixed, rfl, not_not.mp hlength⟩

/-- Whoever awaits a fetch gets what it brings. -/
theorem keeps_awaitWindow (h : Begun source offset stop promise s) :
    Keeps sources files (awaitWindow promise) (fun _ => Brings (files source) offset stop) s := by
  intro t hl ht a t' heffects
  obtain ⟨f, hf, rfl, rfl, rfl⟩ := h.later hl
  cases heffects with
  | @settled _ f' _ hf' hr =>
      obtain rfl := Option.some.inj (hf.symm.trans hf')
      refine ⟨ht, Later.refl t, Prog.among_ofExcept fun _ window _ _ hok => ?_⟩
      exact ht.fetches promise f window hf (hok ▸ hr)

theorem keeps_fetchWindow (hs : Sound sources files s) (h : Begun source offset stop promise s) :
    Keeps sources files (fetchWindow sources source offset stop promise)
      (fun _ => Brings (files source) offset stop) s := by
  have hfetch : Keeps sources files (fetch sources source offset stop).attempt
      (Caught fun _ => Brings (files source) offset stop) s := keeps_fetch.caught
  apply hfetch.andThen Later.refl Later.trans hs
  intro t outcome hl ht houtcome
  have hbegun := h.later hl
  have hsettle : Keeps sources files (Prog.modify (World.settle promise outcome))
      (fun _ _ => True) t := by
    refine Prog.among_step fun t' hl' ht' => ⟨ht'.settle fun f window hf hok => ?_, later_settle⟩
    obtain ⟨f', hf', rfl, rfl, rfl⟩ := hbegun.later hl'
    obtain rfl := Option.some.inj (hf.symm.trans hf')
    exact houtcome window hok
  apply hsettle.andThen Later.refl Later.trans ht
  intro t' _ hl' ht' _
  have hawait : Keeps sources files (awaitWindow promise).attempt
      (Caught fun _ => Brings (files source) offset stop) t' :=
    (keeps_awaitWindow (hbegun.later hl')).caught
  apply hawait.andThen Later.refl Later.trans ht'
  intro t'' arrived _ ht'' harrived
  have hclear : Keeps sources files (Prog.modify (World.arrived source promise))
      (fun _ _ => True) t'' :=
    Prog.among_step fun _ _ hu => ⟨hu.arrived, later_arrived⟩
  apply hclear.andThen Later.refl Later.trans ht''
  intro _ _ _ _ _
  exact Prog.among_ofExcept fun _ window _ _ hok => harrived window hok

theorem Sound.begun (hs : Sound sources files s) :
    Sound sources files (s.begun source offset stop) := by
  refine ⟨hs.held, fun p f w hf hw => ?_, fun i p hi => ?_, hs.counted, hs.answers⟩
  · dsimp only [World.begun] at hf
    rcases Nat.lt_trichotomy p s.fetches.length with hlt | rfl | hgt
    · rw [List.getElem?_append_left hlt] at hf
      exact hs.fetches p f w hf hw
    · rw [List.getElem?_concat_length] at hf
      cases hf
      cases hw
    · rw [List.getElem?_eq_none (by rw [List.length_append, List.length_singleton]; omega)] at hf
      cases hf
  · dsimp only [World.begun]
    rcases of_update hi with ⟨rfl, heq⟩ | hi
    · cases heq
      exact ⟨_, List.getElem?_concat_length, rfl⟩
    · obtain ⟨f, hf, hsource⟩ := hs.onItsWay i p hi
      exact ⟨f, List.getElem?_append_left (List.getElem?_eq_some_iff.mp hf).1 ▸ hf, hsource⟩

theorem later_begun : Later s (s.begun source offset stop) := by
  refine ⟨fun p f hf => ⟨f, ?_, .refl f⟩, rfl⟩
  exact (List.getElem?_append_left (List.getElem?_eq_some_iff.mp hf).1).trans hf

theorem Sound.touch (hs : Sound sources files s) :
    Sound sources files { s with budget := s.budget.touch source } := by
  refine ⟨hs.held, hs.fetches, hs.onItsWay, fun i n => ?_, hs.answers⟩
  rw [RangeBudget.mem_touch]
  exact hs.counted i n

theorem taken_of_cached (h : s.way sources source offset length = .cached window) :
    s.taken sources source offset length =
      if (sources source).inBudget then { s with budget := s.budget.touch source } else s := by
  unfold World.taken
  rw [h]

theorem keeps_windowFor (hfits : offset + length ≤ (sources source).size) :
    Keeps sources files (windowFor sources source offset length)
      (fun _ => Serves (files source) offset length) s := by
  intro t _ ht
  rcases @way_cases sources t source offset length with
    ⟨window, hheld, hcovers, hway⟩ | ⟨promise, f, hon, hf, hcovers, hway⟩ | hway
  · have htaken := taken_of_cached hway
    dsimp only
    rw [hway, htaken]
    have hserves : Serves (files source) offset length window := ⟨ht.held source window hheld, hcovers⟩
    split
    · exact ⟨ht.touch, .of_eq rfl (touch_limit _), Prog.among_ret fun _ _ _ => hserves⟩
    · exact ⟨ht, Later.refl t, Prog.among_ret fun _ _ _ => hserves⟩
  · have htaken : t.taken sources source offset length = t := by
      unfold World.taken
      rw [hway]
    dsimp only
    rw [hway, htaken]
    obtain ⟨f', hf', rfl⟩ := ht.onItsWay source promise hon
    obtain rfl := Option.some.inj (hf.symm.trans hf')
    refine ⟨ht, Later.refl t, ?_⟩
    have hawait : Keeps sources files (awaitWindow promise)
        (fun _ => Brings (files f.source) f.offset f.stop) t :=
      keeps_awaitWindow ⟨f, hf, rfl, rfl, rfl⟩
    exact hawait.imp fun _ _ hbrings => hbrings.serves hcovers
  · have htaken : t.taken sources source offset length = t.begun source offset
        (min (sources source).size (offset + max length (sources source).windowBytes)) := by
      unfold World.taken
      rw [hway]
    dsimp only
    rw [hway, htaken]
    refine ⟨ht.begun, later_begun, ?_⟩
    have hfetch := keeps_fetchWindow ht.begun
      ⟨_, (List.getElem?_concat_length : (t.begun source offset (min (sources source).size
        (offset + max length (sources source).windowBytes))).fetches[t.fetches.length]? = _),
        rfl, rfl, rfl⟩
    refine Prog.Among.imp hfetch fun _ _ hbrings => hbrings.serves (covers_iff.mpr ⟨Nat.le_refl _, ?_⟩)
    have hmax := Nat.le_max_left length (sources source).windowBytes
    exact Nat.le_min.mpr ⟨hfits, Nat.add_le_add_left hmax offset⟩

/-- **One read.**  What it answers is the bytes it asked for. -/
theorem keeps_read (hs : Sound sources files s) : Keeps sources files (read sources source offset length)
    (fun _ bytes => bytes = cut (files source) offset length ∧ bytes.length = length) s := by
  unfold read
  split
  · exact Prog.among_throw
  · rename_i hfits
    have hwindow : Keeps sources files (windowFor sources source offset length)
      (fun _ => Serves (files source) offset length) s := keeps_windowFor (Nat.le_of_not_lt hfits)
    apply hwindow.andThen Later.refl Later.trans hs
    intro t window _ _ hserves
    obtain ⟨hslice, hlength⟩ := slice_of_covered hserves.exact hserves.covered
    exact Prog.among_ret fun _ _ _ => ⟨hslice, hslice ▸ hlength⟩

theorem Sound.note (hs : Sound sources files s) {answer : Answer}
    (h : answer.bytes = cut (files answer.source) answer.offset answer.length ∧
      answer.bytes.length = answer.length) : Sound sources files (s.note answer) := by
  refine ⟨hs.held, hs.fetches, hs.onItsWay, hs.counted, fun a ha => ?_⟩
  rcases List.mem_append.mp ha with ha | ha
  · exact hs.answers a ha
  · obtain rfl := List.mem_singleton.mp ha
    exact h

theorem keeps_use (use : Use) (hs : Sound sources files s) :
    Keeps sources files (use.run sources) (fun _ _ => True) s := by
  cases use with
  | close source => exact Prog.among_step fun _ _ ht => ⟨ht.close, later_close⟩
  | read source offset length =>
      have hread : Keeps sources files (read sources source offset length).attempt
          (Caught fun _ bytes => bytes = cut (files source) offset length ∧ bytes.length = length) s :=
        (keeps_read hs).caught
      apply hread.andThen Later.refl Later.trans hs
      intro t r _ _ hr
      cases r with
      | error e => exact Prog.among_ret fun _ _ _ => trivial
      | ok bytes =>
          exact Prog.among_step fun t' _ ht' =>
            ⟨@Sound.note _ _ _ ht' ⟨source, offset, length, bytes⟩ (hr bytes rfl), .of_eq rfl rfl⟩

/-! ### All the readers -/

theorem sound_opened {limitBytes : Nat} : Sound sources files (.opened limitBytes) where
  held _ _ h := by cases h
  fetches _ _ _ h := by cases h
  onItsWay _ _ h := by cases h
  counted i n := by
    constructor
    · intro h
      cases h
    · rintro ⟨-, window, h, -⟩
      cases h
  answers _ h := by cases h

variable {limit limitBytes : Nat} {readers : List (List Use)}
variable {pl : Pool World RangeOp RangeOp.Ans ReadError}

theorem sound_reached
    (h : Pool.Reaches (Effects files) limit (readers.map (reader sources)) (.opened limitBytes) pl s) :
    Sound sources files s ∧ s.budget.limitBytes = limitBytes := by
  have htasks : ∀ (i : Nat) (p : Reading Unit), (readers.map (reader sources))[i]? = some p →
      Keeps sources files p (fun _ _ => True) (.opened limitBytes) := by
    intro i p hp
    obtain ⟨uses, -, rfl⟩ := List.mem_map.mp (List.mem_of_getElem? hp)
    exact Prog.among_each Later.refl Later.trans (fun use _ _ hs => keeps_use use hs) sound_opened
  obtain ⟨hs, hlater, -, -⟩ := Pool.among Later.refl Later.trans sound_opened htasks h
  exact ⟨hs, hlater.limit⟩

/-- The bytes of the window a source holds. -/
def World.windowOf (s : World) (source : Nat) : Nat := (s.held source).elim 0 (·.bytes.length)

theorem windowOf_eq {n : Nat} (hs : Sound sources files s) (h : (source, n) ∈ s.budget.held) :
    s.windowOf source = n := by
  obtain ⟨-, window, hheld, rfl⟩ := (hs.counted source n).mp h
  simp [World.windowOf, hheld]

/-! ### A store of two small files -/

def sampleFiles (source : Nat) : List UInt8 := if source = 0 then [1, 2, 3, 4, 5] else [6, 7, 8]

def sampleSources (source : Nat) : Opened :=
  ⟨(sampleFiles source).length, 2, true⟩

/-- A server that answers every range with its bytes. -/
def sampleWorld (s : World) : (o : RangeOp) → Option (o.Ans × World)
  | .request source offset stop =>
    some (.ok ⟨206, cut (sampleFiles source) offset (stop - offset)⟩, s)
  | .settled promise => (s.fetches[promise]?.bind Fetch.outcome).map fun r => (r, s)

theorem effects_sample (s : World) (o : RangeOp) (a : o.Ans) (s' : World)
    (h : sampleWorld s o = some (a, s')) : Effects sampleFiles s o a s' := by
  cases o with
  | request source offset stop =>
      cases h
      exact .answered fun _ => List.take_prefix _ _
  | settled promise =>
      obtain ⟨r, hr, heq⟩ := Option.map_eq_some_iff.mp h
      obtain ⟨f, hf, hout⟩ := Option.bind_eq_some_iff.mp hr
      cases heq
      exact .settled hf hout

def sampleReaders : List (List Use) := [[.read 0 1 3, .read 0 2 1, .read 1 0 2], [.read 0 4 1]]

/-- The sample run: the second file's window takes the first one's place. -/
theorem sample_run : ∃ pl s, Pool.Reaches (Effects sampleFiles) 2
    (sampleReaders.map (reader sampleSources)) (.opened 3) pl s ∧
    s.answers = [⟨0, 1, 3, [2, 3, 4]⟩, ⟨0, 2, 1, [3]⟩, ⟨1, 0, 2, [6, 7]⟩, ⟨0, 4, 1, [5]⟩] ∧
    s.budget.total = 3 := by
  have hrun : ∃ s, Pool.execAll sampleWorld (sampleReaders.map (reader sampleSources))
      (.opened 3) = some (.ok (), s) ∧
      s.answers = [⟨0, 1, 3, [2, 3, 4]⟩, ⟨0, 2, 1, [3]⟩, ⟨1, 0, 2, [6, 7]⟩, ⟨0, 4, 1, [5]⟩] ∧
      s.budget.total = 3 := by
    refine ⟨_, rfl, ?_, ?_⟩
    · decide +kernel
    · decide +kernel
  obtain ⟨s, hs, hanswers, htotal⟩ := hrun
  obtain ⟨pl, hr, -, -⟩ := Pool.reaches_execAll effects_sample hs
  exact ⟨pl, s, hr, hanswers, htotal⟩

/-! ### The results -/

/-- **No short read.**  However the readers of a store go on together, every read answered gave
the very bytes of its file that it asked for, as many as it asked for. -/
theorem reads_exact
    (h : Pool.Reaches (Effects files) limit (readers.map (reader sources)) (.opened limitBytes) pl s) :
    ∀ a ∈ s.answers, a.bytes = ((files a.source).drop a.offset).take a.length ∧
      a.bytes.length = a.length :=
  (sound_reached h).1.answers

theorem reads_exact_sample : ∃ pl s, Pool.Reaches (Effects sampleFiles) 2
    (sampleReaders.map (reader sampleSources)) (.opened 3) pl s ∧ s.answers.length = 4 ∧
    ∀ a ∈ s.answers, a.bytes = ((sampleFiles a.source).drop a.offset).take a.length ∧
      a.bytes.length = a.length := by
  obtain ⟨pl, s, hr, hanswers, -⟩ := sample_run
  exact ⟨pl, s, hr, by rw [hanswers]; rfl, reads_exact hr⟩

/-- **The ceiling.**  However the readers of a store go on together, the budget counts exactly
the windows that its sources hold, and they are within its limit or only one. -/
theorem windows_within
    (h : Pool.Reaches (Effects files) limit (readers.map (reader sources)) (.opened limitBytes) pl s) :
    ∃ holders : List Nat, holders.Nodup ∧
      (∀ i, i ∈ holders ↔ (sources i).inBudget = true ∧ (s.held i).isSome) ∧
      s.budget.total = (holders.map s.windowOf).sum ∧
      (s.budget.total ≤ limitBytes ∨ holders.length ≤ 1) := by
  obtain ⟨hs, hlimit⟩ := sound_reached h
  refine ⟨heldKeys s.budget.held, s.budget.nodup, fun i => ?_, ?_, ?_⟩
  · constructor
    · intro hi
      obtain ⟨⟨i, n⟩, hmem, rfl⟩ := List.mem_map.mp hi
      obtain ⟨hin, window, hheld, -⟩ := (hs.counted i n).mp hmem
      exact ⟨hin, Option.isSome_iff_exists.mpr ⟨window, hheld⟩⟩
    · rintro ⟨hin, hsome⟩
      obtain ⟨window, hheld⟩ := Option.isSome_iff_exists.mp hsome
      exact List.mem_map.mpr ⟨_, (hs.counted i _).mpr ⟨hin, window, hheld, rfl⟩, rfl⟩
  · rw [s.budget.total_eq, List.map_map, heldBytes]
    congr 1
    apply List.map_congr_left
    intro e he
    exact (windowOf_eq hs he).symm
  · rw [← hlimit, heldKeys, List.length_map]
    exact s.budget.fits

theorem windows_within_sample : ∃ pl s, Pool.Reaches (Effects sampleFiles) 2
    (sampleReaders.map (reader sampleSources)) (.opened 3) pl s ∧ s.budget.total = 3 ∧
    ∃ holders : List Nat, holders.Nodup ∧
      (∀ i, i ∈ holders ↔ (sampleSources i).inBudget = true ∧ (s.held i).isSome) ∧
      s.budget.total = (holders.map s.windowOf).sum ∧
      (s.budget.total ≤ 3 ∨ holders.length ≤ 1) := by
  obtain ⟨pl, s, hr, -, htotal⟩ := sample_run
  exact ⟨pl, s, hr, htotal, windows_within hr⟩

end Ownpace.Archive
