/-
Ownpace/Sync/Bins.lean

The owner's bins, and the cursors they are read from: `listDiscardedKeys` of
`reconcile.ts`, in the part of a pass that reads them.

Each bin has a cursor of its own, set as soon as that bin was listed.  What the
bins hold is resolved only after all of them were read, so a cursor can move past
an entry that is never looked at again.  `binCursors_iff` says of any sequence of
passes when that does not happen.

What a run of this part calls is described once for the reading of the bins
(`Scanned`) and once for the resolving (`Discarding`); the rest is about these
two.
-/
import Mathlib.Data.List.Chain
import Ownpace.Sync.Exec
import Ownpace.Sync.Unset

namespace Ownpace.Sync

open Await Ownpace

variable {Item Raw Folder τ α : Type}

/-! ### Reading the bins -/

section Source

variable (deps : DomainSyncDeps Item Raw Folder) (path : Folder → String)

/-- `discardedScanCursorKey` -/
def discardedScanCursorKey (collectionPath : String) : String :=
  "\x01discarded\x01" ++ collectionPath

/-- The entries of a listing that can be named. -/
def entriesOf (listing : Listing Item) : List String := listing.items.filterMap deps.naturalKey

def binCursor (bin : Folder) : Pass Item Raw Folder τ (Option String) :=
  if deps.cursors then ask (.cursorGet (discardedScanCursorKey (path bin))) else return none

/-- One bin: its entries, and then its cursor. -/
def readBin (bin : Folder) : Pass Item Raw Folder τ (List String) := do
  let prev ← binCursor deps path bin
  let listing ← ask (.listSince bin prev)
  doIf deps.cursors (ask (.cursorSet (discardedScanCursorKey (path bin)) listing.nextCursor))
  return entriesOf deps listing

/-- The `listDiscardedKeys` of the mail domain, over the bins of the account. -/
def listDiscardedKeys : List Folder → Pass Item Raw Folder τ DiscardedListing
  | [] => return { keys := [] }
  | bin :: bins => do
    let keys ← readBin deps path bin
    let rest ← listDiscardedKeys bins
    return { keys := keys ++ rest.keys }

/-- The part of a pass that reads the owner's bin, `bin` being what reads it. -/
def binPart (bin : Pass Item Raw Folder τ DiscardedListing) : Pass Item Raw Folder τ Unit := do
  if (← toldToStop deps).isSome then return ()
  else
    match ← bin.attempt with
    | .error _ =>
      let _ ← ask (.recordAppEvent ("sync." ++ deps.domain.text ++ ".bin-unreadable"))
      return ()
    | .ok discarded => concludeDiscarded deps discarded

theorem concludeBin_eq_binPart :
    (concludeBin deps : Pass Item Raw Folder τ Unit) = binPart deps (ask .listDiscardedKeys) := by
  refine congrArg (Bind.bind (toldToStop deps)) (funext fun told => ?_)
  cases told with
  | some reason => rfl
  | none => exact congrArg (Bind.bind _) (funext fun answer => by cases answer <;> rfl)

end Source

/-! ### What a run of it called -/

section Runs

variable {deps : DomainSyncDeps Item Raw Folder} {path : Folder → String}
variable {out : Outside Item Raw Folder τ} {s s' s'' : PassState Item Raw Folder τ}
variable {made made' : List (Made Item Raw Folder)} {stored stored' : List (String × String)}
variable {seen : Vars Item} {key : String} {bin : Folder}

/-- The call was rejected. -/
def Rejects (m : Made Item Raw Folder) : Prop := ∃ e, m.2 = .error e

/-- A call of the reading, none to the ledger. -/
def OfScan (m : Made Item Raw Folder) : Prop := ∀ o, m.1 ≠ .ledger o

variable (deps) in
/-- A listing of this bin held an entry of this key. -/
def Lists (made : List (Made Item Raw Folder)) (bin : Folder) (key : String) : Prop :=
  ∃ prev listing, ⟨.listSince bin prev, .ok listing⟩ ∈ made ∧ key ∈ entriesOf deps listing

/-- From `s` to `s'` these calls were made, these cursors stored, the latest first,
and no variable changed. -/
structure Goes (s s' : PassState Item Raw Folder τ) (made : List (Made Item Raw Folder))
    (stored : List (String × String)) : Prop where
  log : s'.world.log = s.world.log ++ made
  cursors : s'.world.cursors = stored ++ s.world.cursors
  vars : s'.vars = s.vars

theorem Goes.refl (s : PassState Item Raw Folder τ) : Goes s s [] [] :=
  ⟨(List.append_nil _).symm, rfl, rfl⟩

theorem Goes.trans (h : Goes s s' made stored) (h' : Goes s' s'' made' stored') :
    Goes s s'' (made ++ made') (stored' ++ stored) where
  log := by rw [h'.log, h.log, List.append_assoc]
  cursors := by rw [h'.cursors, h.cursors, List.append_assoc]
  vars := h'.vars.trans h.vars

/-- Calls that store no cursor. -/
def storesNothing : SyncOp Item Raw Folder → Bool
  | .ledger _ | .cursorGet _ | .listSince .. | .whyItStops | .recordAppEvent _ => true
  | _ => false

theorem goes_call {o : SyncOp Item Raw Folder} {a : o.Ans} (ho : storesNothing o = true)
    (hw : out.Effects s o a s') : Goes s s' [⟨o, a⟩] [] := by
  refine ⟨log_grows hw, ?_, effects_vars hw⟩
  obtain ⟨w', hcalls, rfl⟩ := hw
  show w'.cursors = s.world.cursors
  cases o with
  | ledger o =>
      rw [hcalls.2]
  | cursorGet c =>
      rw [hcalls.1]
  | listSince folder cursor =>
      rw [hcalls.2]
  | whyItStops =>
      rw [hcalls.2]
  | recordAppEvent event =>
      rw [hcalls.1]
  | _ => cases ho

theorem goes_cursorSet {c value : String} {a : Except Err Unit}
    (hw : out.Effects s (.cursorSet c value) a s') :
    Goes s s' [⟨.cursorSet c value, a⟩] [(c, value)] ∨
      Goes s s' [⟨.cursorSet c value, a⟩] [] ∧ ∃ e, a = .error e := by
  have hlog := log_grows hw
  have hvars := effects_vars hw
  obtain ⟨w', hcalls, rfl⟩ := hw
  rcases hcalls with hset | ⟨herr, hsame⟩
  · left
    refine ⟨hlog, ?_, hvars⟩
    show w'.cursors = _
    rw [hset]
    rfl
  · right
    refine ⟨⟨hlog, ?_, hvars⟩, herr⟩
    show w'.cursors = _
    rw [hsame]
    rfl

variable (deps out) in
/-- Run alone from `s`, the program ends as `Q` says. -/
abbrev Ends (p : Pass Item Raw Folder τ α) (s : PassState Item Raw Folder τ)
    (Q : PassState Item Raw Folder τ → Except Err α → Prop) : Prop :=
  p.Wp (Effects deps out) (fun _ _ => True) Q s

theorem ends_ask {o : SyncOp Item Raw Folder}
    (ho : ∀ a s', Effects deps out s o a s' → out.Effects s o a s')
    {Q : PassState Item Raw Folder τ → Except Err o.Reply → Prop}
    (hok : ∀ a s', out.Effects s o (.ok a) s' → Q s' (.ok a))
    (herr : ∀ e s', out.Effects s o (.error e) s' → Q s' (.error (Err.sided o.side e))) :
    Ends deps out (ask o) s Q := by
  refine ⟨trivial, fun a s' hw => ?_⟩
  cases a with
  | ok a => exact hok a s' (ho _ _ hw)
  | error e => exact herr e s' (ho _ _ hw)

theorem ends_bind {β : Type} {p : Pass Item Raw Folder τ α} {f : α → Pass Item Raw Folder τ β}
    {P : PassState Item Raw Folder τ → Except Err α → Prop}
    {Q : PassState Item Raw Folder τ → Except Err β → Prop} (hp : Ends deps out p s P)
    (hok : ∀ a s', P s' (.ok a) → Ends deps out (f a) s' Q)
    (herr : ∀ e s', P s' (.error e) → Q s' (.error e)) : Ends deps out (p >>= f) s Q := by
  refine Prog.wp_bind.mpr (Prog.Wp.mono hp fun s' r hr => ?_)
  cases r with
  | ok a => exact hok a s' hr
  | error e => exact herr e s' hr

/-- A call, and what its answer is used for. -/
theorem ends_ask_bind {β : Type} {o : SyncOp Item Raw Folder} {f : o.Reply → Pass Item Raw Folder τ β}
    (ho : ∀ a s', Effects deps out s o a s' → out.Effects s o a s')
    {Q : PassState Item Raw Folder τ → Except Err β → Prop}
    (hok : ∀ a s', out.Effects s o (.ok a) s' → Ends deps out (f a) s' Q)
    (herr : ∀ e s', out.Effects s o (.error e) s' → Q s' (.error (Err.sided o.side e))) :
    Ends deps out (ask o >>= f) s Q := by
  refine ends_bind (P := fun s' r => (∀ a, r = .ok a → out.Effects s o (.ok a) s') ∧
    ∀ e, r = .error e → Q s' (.error e)) (ends_ask ho ?_ ?_) ?_ ?_
  · intro a s' hw
    refine ⟨?_, fun e he => (by cases he)⟩
    rintro _ ⟨⟩
    exact hw
  · intro e s' hw
    refine ⟨fun a ha => (by cases ha), ?_⟩
    rintro _ ⟨⟩
    exact herr e s' hw
  · exact fun a s' hr => hok a s' (hr.1 a rfl)
  · exact fun e s' hr => hr.2 e rfl

/-- A rewriting of the variables, and what goes on from there. -/
theorem ends_onVars_bind {β γ : Type} {g : Vars Item → Vars Item × β}
    {f : β → Pass Item Raw Folder τ γ} {Q : PassState Item Raw Folder τ → Except Err γ → Prop}
    (h : Ends deps out (f (g s.vars).2) { s with vars := (g s.vars).1 } Q) :
    Ends deps out (onVars g >>= f) s Q := h

/-! ### The reading, described -/

variable (deps path) in
/-- What the reading called and stored, and what it answered: all that was listed
was handed on, or a call was rejected. -/
structure Scanned (made : List (Made Item Raw Folder)) (stored : List (String × String))
    (r : Except Err (List String)) : Prop where
  ops : ∀ m ∈ made, OfScan m
  uncounted : deps.cursors = false → stored = []
  rejected : ∀ e, r = .error e → ∃ m ∈ made, Rejects m
  answered : ∀ keys, r = .ok keys → ∀ m ∈ made, ¬ Rejects m
  listed : ∀ keys, r = .ok keys → ∀ bin key, Lists deps made bin key → key ∈ keys
  read : ∀ keys, r = .ok keys → ∀ key ∈ keys, ∃ bin, Lists deps made bin key ∧
    (deps.cursors = true → ∃ value, (discardedScanCursorKey (path bin), value) ∈ stored)

theorem lists_append : Lists deps (made ++ made') bin key ↔ Lists deps made bin key ∨ Lists deps made' bin key := by
  simp only [Lists, List.mem_append, or_and_right, exists_or]

theorem scanned_nil : Scanned deps path ([] : List (Made Item Raw Folder)) [] (.ok []) where
  ops := fun m hm => absurd hm List.not_mem_nil
  uncounted := fun _ => rfl
  rejected := by
    intro e he
    cases he
  answered := fun _ _ m hm => absurd hm List.not_mem_nil
  listed := by
    rintro _ _ _ _ ⟨_, _, hm, _⟩
    cases hm
  read := by
    rintro _ ⟨⟩ key hkey
    cases hkey

/-- A reading, and what was read behind it. -/
theorem Scanned.append {keys : List String} {r : Except Err (List String)}
    (h : Scanned deps path made stored (.ok keys)) (h' : Scanned deps path made' stored' r) :
    Scanned deps path (made ++ made') (stored' ++ stored) (r.map (keys ++ ·)) where
  ops := List.forall_mem_append.mpr ⟨h.ops, h'.ops⟩
  uncounted := by
    intro hno
    rw [h.uncounted hno, h'.uncounted hno]
    rfl
  rejected := by
    intro e he
    cases r with
    | ok keys' => cases he
    | error e' =>
        obtain ⟨m, hm, hrejects⟩ := h'.rejected e' rfl
        exact ⟨m, List.mem_append_right _ hm, hrejects⟩
  answered := by
    intro all he
    cases r with
    | ok keys' => exact List.forall_mem_append.mpr ⟨h.answered keys rfl, h'.answered keys' rfl⟩
    | error e' => cases he
  listed := by
    intro all he bin key hlists
    cases r with
    | error e' => cases he
    | ok keys' =>
        obtain rfl := Except.ok.inj he
        rcases lists_append.mp hlists with hl | hl
        · exact List.mem_append_left _ (h.listed keys rfl bin key hl)
        · exact List.mem_append_right _ (h'.listed keys' rfl bin key hl)
  read := by
    intro all he key hkey
    cases r with
    | error e' => cases he
    | ok keys' =>
        obtain rfl := Except.ok.inj he
        rcases List.mem_append.mp hkey with hkey | hkey
        · obtain ⟨bin, hl, hstored⟩ := h.read keys rfl key hkey
          refine ⟨bin, lists_append.mpr (.inl hl), fun hc => ?_⟩
          obtain ⟨value, hv⟩ := hstored hc
          exact ⟨value, List.mem_append_right _ hv⟩
        · obtain ⟨bin, hl, hstored⟩ := h'.read keys' rfl key hkey
          refine ⟨bin, lists_append.mpr (.inr hl), fun hc => ?_⟩
          obtain ⟨value, hv⟩ := hstored hc
          exact ⟨value, List.mem_append_left _ hv⟩

theorem scanned_error {e : Err} (hops : ∀ m ∈ made, OfScan m)
    (hno : deps.cursors = false → stored = []) (hrejects : ∃ m ∈ made, Rejects m) :
    Scanned deps path made stored (.error e) where
  ops := hops
  uncounted := hno
  rejected := fun _ _ => hrejects
  answered := by
    intro keys he
    cases he
  listed := by
    intro keys he
    cases he
  read := by
    intro keys he
    cases he

variable (deps) in
/-- Calls of the reading that list nothing. -/
structure Asks (made : List (Made Item Raw Folder)) (r : Except Err α) : Prop where
  ops : ∀ m ∈ made, OfScan m
  lists : ∀ bin key, ¬ Lists deps made bin key
  rejected : ∀ e, r = .error e → ∃ m ∈ made, Rejects m
  answered : ∀ a, r = .ok a → ∀ m ∈ made, ¬ Rejects m

theorem asks_none (a : α) : Asks deps ([] : List (Made Item Raw Folder)) (.ok a : Except Err α) where
  ops := fun m hm => absurd hm List.not_mem_nil
  lists := by
    rintro bin key ⟨_, _, hm, _⟩
    cases hm
  rejected := by
    intro e he
    cases he
  answered := fun _ _ m hm => absurd hm List.not_mem_nil

theorem not_rejects_ok {o : SyncOp Item Raw Folder} {a : o.Reply} :
    ¬ Rejects (⟨o, .ok a⟩ : Made Item Raw Folder) := by
  rintro ⟨e, he⟩
  cases he

theorem rejects_error {o : SyncOp Item Raw Folder} {e : Err} :
    Rejects (⟨o, .error e⟩ : Made Item Raw Folder) :=
  ⟨e, rfl⟩

theorem asks_one {o : SyncOp Item Raw Folder} {a : o.Ans} {r : Except Err α}
    (ho : ∀ lo, o ≠ .ledger lo) (hlist : ∀ folder cursor, o ≠ .listSince folder cursor)
    (herr : ∀ e, r = .error e → ∃ e', a = .error e') (hok : ∀ b, r = .ok b → ∃ b', a = .ok b') :
    Asks deps [⟨o, a⟩] r where
  ops := by
    rw [List.forall_mem_singleton]
    exact ho
  lists := by
    rintro bin key ⟨prev, listing, hm, -⟩
    exact hlist bin prev (congrArg Sigma.fst (List.mem_singleton.mp hm)).symm
  rejected := fun e he => ⟨_, List.mem_singleton_self _, herr e he⟩
  answered := by
    intro b hb
    rw [List.forall_mem_singleton]
    obtain ⟨b', rfl⟩ := hok b hb
    exact not_rejects_ok

theorem ends_binCursor :
    Ends deps out (binCursor deps path bin) s fun s' r =>
      ∃ made, Goes s s' made [] ∧ Asks deps made r := by
  unfold binCursor
  split
  · refine ends_ask (fun _ _ => id) (fun a s' hw => ?_) fun e s' hw => ?_
    · exact ⟨_, goes_call rfl hw, asks_one (by simp) (by simp) (by simp) (by simp)⟩
    · exact ⟨_, goes_call rfl hw, asks_one (by simp) (by simp) (by simp) (by simp)⟩
  · exact ⟨[], .refl s, asks_none none⟩

/-- One bin, listed and its cursor set. -/
theorem scanned_bin {listing : Listing Item} (hmade : ∀ m ∈ made, OfScan m)
    (hanswered : ∀ m ∈ made, ¬ Rejects m) (hno : deps.cursors = false → stored = [])
    (hlists : ∀ b key, Lists deps made b key ↔ b = bin ∧ key ∈ entriesOf deps listing)
    (hset : deps.cursors = true → ∃ value, (discardedScanCursorKey (path bin), value) ∈ stored) :
    Scanned deps path made stored (.ok (entriesOf deps listing)) where
  ops := hmade
  uncounted := hno
  rejected := by
    intro e he
    cases he
  answered := fun _ _ => hanswered
  listed := by
    rintro _ ⟨⟩ b key hl
    exact ((hlists b key).mp hl).2
  read := by
    rintro _ ⟨⟩ key hkey
    exact ⟨bin, (hlists bin key).mpr ⟨rfl, hkey⟩, hset⟩

theorem lists_one {prev : Option String} {listing : Listing Item} {b : Folder} :
    Lists deps [⟨.listSince bin prev, .ok listing⟩] b key ↔ b = bin ∧ key ∈ entriesOf deps listing := by
  constructor
  · rintro ⟨prev', listing', hm, hkey⟩
    cases List.mem_singleton.mp hm
    exact ⟨rfl, hkey⟩
  · rintro ⟨rfl, hkey⟩
    exact ⟨prev, listing, List.mem_singleton_self _, hkey⟩

/-- **One bin.** -/
theorem ends_readBin :
    Ends deps out (readBin deps path bin) s fun s' r =>
      ∃ made stored, Goes s s' made stored ∧ Scanned deps path made stored r := by
  refine ends_bind ends_binCursor ?_ ?_
  · rintro prev s₁ ⟨made₁, hgoes₁, hasks⟩
    refine ends_ask_bind (fun _ _ => id) (fun listing s₂ hw => ?_) fun e s₂ hw => ?_
    · have hgoes₂ := hgoes₁.trans (goes_call rfl hw)
      have hops : ∀ m ∈ made₁ ++ [⟨.listSince bin prev, .ok listing⟩], OfScan m :=
        List.forall_mem_append.mpr ⟨hasks.ops, by simp [OfScan]⟩
      have hanswered : ∀ m ∈ made₁ ++ [⟨.listSince bin prev, .ok listing⟩], ¬ Rejects m :=
        List.forall_mem_append.mpr ⟨hasks.answered prev rfl, List.forall_mem_singleton.mpr not_rejects_ok⟩
      have hlists (b : Folder) (key : String) :
          Lists deps (made₁ ++ [⟨.listSince bin prev, .ok listing⟩]) b key ↔
            b = bin ∧ key ∈ entriesOf deps listing := by
        rw [lists_append, lists_one]
        exact or_iff_right (hasks.lists b key)
      unfold doIf
      split
      · next hc =>
        have hset {c : String} {a : Except Err Unit} :
            ∀ m ∈ [(⟨.cursorSet c listing.nextCursor, a⟩ : Made Item Raw Folder)], OfScan m := by
          simp [OfScan]
        refine ends_ask_bind (fun _ _ => id) (fun a s₃ hw => ?_) fun e s₃ hw => ?_
        · rcases goes_cursorSet hw with hgoes₃ | ⟨-, e, he⟩
          · refine ⟨_, _, hgoes₂.trans hgoes₃, scanned_bin (List.forall_mem_append.mpr ⟨hops, hset⟩)
              (List.forall_mem_append.mpr ⟨hanswered, List.forall_mem_singleton.mpr not_rejects_ok⟩)
              (fun hno => by rw [hc] at hno; cases hno) (fun b key => ?_)
              fun _ => ⟨listing.nextCursor, List.mem_append_left _ (List.mem_singleton_self _)⟩⟩
            rw [lists_append, hlists]
            refine or_iff_left ?_
            rintro ⟨prev', listing', hm, -⟩
            cases List.mem_singleton.mp hm
          · cases he
        · have hdown {stored : List (String × String)}
              (hgoes₃ : Goes s₂ s₃ [⟨.cursorSet (discardedScanCursorKey (path bin)) listing.nextCursor, .error e⟩] stored) :
              ∃ made stored, Goes s s₃ made stored ∧ Scanned deps path made stored
                (.error (Err.sided (SyncOp.cursorSet (discardedScanCursorKey (path bin)) listing.nextCursor :
                  SyncOp Item Raw Folder).side e)) :=
            ⟨_, _, hgoes₂.trans hgoes₃, scanned_error (List.forall_mem_append.mpr ⟨hops, hset⟩)
              (fun hno => by rw [hc] at hno; cases hno)
              ⟨_, List.mem_append_right _ (List.mem_singleton_self _), rejects_error⟩⟩
          rcases goes_cursorSet hw with hgoes₃ | ⟨hgoes₃, -⟩
          · exact hdown hgoes₃
          · exact hdown hgoes₃
      · next hc =>
        refine ⟨_, _, hgoes₂, scanned_bin hops hanswered (fun _ => rfl) hlists fun h => absurd h hc⟩
    · refine ⟨_, _, hgoes₁.trans (goes_call rfl hw), scanned_error ?_ (fun _ => rfl)
        ⟨_, List.mem_append_right _ (List.mem_singleton_self _), rejects_error⟩⟩
      exact List.forall_mem_append.mpr ⟨hasks.ops, by simp [OfScan]⟩
  · rintro e s₁ ⟨made, hgoes, hasks⟩
    exact ⟨made, [], hgoes, scanned_error hasks.ops (fun _ => rfl) (hasks.rejected e rfl)⟩

/-- **All the bins.** -/
theorem ends_listDiscardedKeys (bins : List Folder) :
    Ends deps out (listDiscardedKeys deps path bins) s fun s' r =>
      ∃ made stored, Goes s s' made stored ∧
        Scanned deps path made stored (r.map DiscardedListing.keys) := by
  induction bins generalizing s with
  | nil => exact ⟨[], [], .refl s, scanned_nil⟩
  | cons bin bins ih =>
      refine ends_bind ends_readBin ?_ ?_
      · rintro keys s₁ ⟨made, stored, hgoes, hscanned⟩
        refine ends_bind (ih (s := s₁)) ?_ ?_
        · rintro rest s₂ ⟨made', stored', hgoes', hscanned'⟩
          exact ⟨_, _, hgoes.trans hgoes', hscanned.append hscanned'⟩
        · rintro e s₂ ⟨made', stored', hgoes', hscanned'⟩
          exact ⟨_, _, hgoes.trans hgoes', hscanned.append hscanned'⟩
      · rintro e s₁ ⟨made, stored, hgoes, hscanned⟩
        exact ⟨made, stored, hgoes, hscanned⟩

/-! ### The resolving, described -/

variable (deps) in
/-- The entry was recorded, or there is no copy of ours it could be about. -/
def Settled (made : List (Made Item Raw Folder)) (key : String) : Prop :=
  ⟨.ledger (.find deps.domain key), .ok none⟩ ∈ made ∨
    (∃ row, ⟨.ledger (.find deps.domain key), .ok (some row)⟩ ∈ made ∧ isOnTarget row.status = false) ∨
    ∃ recorded, ⟨.ledger (.recordTrashedDeletion deps.domain key), .ok recorded⟩ ∈ made

variable (deps) in
/-- A call about an entry of this key. -/
def AboutKey (key : String) (m : Made Item Raw Folder) : Prop :=
  m.1 = .ledger (.find deps.domain key) ∨ m.1 = .ledger (.recordTrashedDeletion deps.domain key)

variable (deps seen) in
/-- What the resolving called, over keys that are each once among these: all that
was not seen alive was settled, or one was not, a call about it being rejected. -/
structure Discarding (keys : List String) (made : List (Made Item Raw Folder))
    (r : Except Err α) : Prop where
  ops : ∀ m ∈ made, ∃ key ∈ keys, seen.seenAnywhere key = false ∧ AboutKey deps key m
  settled : ∀ a, r = .ok a → (∀ m ∈ made, ¬ Rejects m) ∧
    ∀ key ∈ keys, seen.seenAnywhere key = false → Settled deps made key
  rejected : ∀ e, r = .error e → (∃ m ∈ made, Rejects m) ∧
    ∃ key ∈ keys, seen.seenAnywhere key = false ∧ ¬ Settled deps made key

theorem Settled.about (h : Settled deps made key) : ∃ m ∈ made, AboutKey deps key m := by
  rcases h with hm | ⟨row, hm, -⟩ | ⟨recorded, hm⟩
  · exact ⟨_, hm, .inl rfl⟩
  · exact ⟨_, hm, .inl rfl⟩
  · exact ⟨_, hm, .inr rfl⟩

theorem settled_append : Settled deps (made ++ made') key ↔ Settled deps made key ∨ Settled deps made' key := by
  simp only [Settled, List.mem_append, or_and_right, exists_or]
  constructor
  · rintro ((h | h) | (h | h) | h | h)
    · exact .inl (.inl h)
    · exact .inr (.inl h)
    · exact .inl (.inr (.inl h))
    · exact .inr (.inr (.inl h))
    · exact .inl (.inr (.inr h))
    · exact .inr (.inr (.inr h))
  · rintro ((h | h | h) | h | h | h)
    · exact .inl (.inl h)
    · exact .inr (.inl (.inl h))
    · exact .inr (.inr (.inl h))
    · exact .inl (.inr h)
    · exact .inr (.inl (.inr h))
    · exact .inr (.inr (.inr h))

theorem aboutKey_inj {key' : String} {m : Made Item Raw Folder} (h : AboutKey deps key m)
    (h' : AboutKey deps key' m) : key = key' := by
  rcases h with h | h <;> rcases h' with h' | h' <;> rw [h] at h' <;> cases h' <;> rfl

/-- One entry, and the ones behind it, none of this key. -/
theorem Discarding.cons {keys : List String} {r r' : Except Err α} (hkey : seen.seenAnywhere key = false)
    (hnot : key ∉ keys) (hops : ∀ m ∈ made, AboutKey deps key m) (hanswered : ∀ m ∈ made, ¬ Rejects m)
    (hsettled : Settled deps made key) (h : Discarding deps seen keys made' r)
    (hok : ∀ a, r' = .ok a → ∃ b, r = .ok b) (herr : ∀ e, r' = .error e → ∃ e', r = .error e') :
    Discarding deps seen (key :: keys) (made ++ made') r' where
  ops := by
    refine List.forall_mem_append.mpr ⟨fun m hm => ⟨key, List.mem_cons_self, hkey, hops m hm⟩, ?_⟩
    intro m hm
    obtain ⟨k, hk, hseen, habout⟩ := h.ops m hm
    exact ⟨k, List.mem_cons_of_mem _ hk, hseen, habout⟩
  settled := by
    intro a ha
    obtain ⟨b, hb⟩ := hok a ha
    obtain ⟨hanswered', hall⟩ := h.settled b hb
    refine ⟨List.forall_mem_append.mpr ⟨hanswered, hanswered'⟩, List.forall_mem_cons.mpr ⟨?_, ?_⟩⟩
    · exact fun _ => settled_append.mpr (.inl hsettled)
    · exact fun k hk hseen => settled_append.mpr (.inr (hall k hk hseen))
  rejected := by
    intro e he
    obtain ⟨e', he'⟩ := herr e he
    obtain ⟨⟨m, hm, hrejects⟩, k, hk, hseen, hunsettled⟩ := h.rejected e' he'
    refine ⟨⟨m, List.mem_append_right _ hm, hrejects⟩, k, List.mem_cons_of_mem _ hk, hseen, ?_⟩
    rw [settled_append, not_or]
    refine ⟨fun hs => ?_, hunsettled⟩
    obtain ⟨m', hm', habout⟩ := hs.about
    exact hnot (aboutKey_inj (hops m' hm') habout ▸ hk)

/-- An entry that is not looked at: its key was seen alive. -/
theorem Discarding.skip {keys : List String} {r : Except Err α} (hkey : seen.seenAnywhere key = true)
    (h : Discarding deps seen keys made r) : Discarding deps seen (key :: keys) made r where
  ops := by
    intro m hm
    obtain ⟨k, hk, hseen, habout⟩ := h.ops m hm
    exact ⟨k, List.mem_cons_of_mem _ hk, hseen, habout⟩
  settled := by
    intro a ha
    obtain ⟨hanswered, hall⟩ := h.settled a ha
    refine ⟨hanswered, List.forall_mem_cons.mpr ⟨fun hunseen => ?_, hall⟩⟩
    rw [hkey] at hunseen
    cases hunseen
  rejected := by
    intro e he
    obtain ⟨hrejects, k, hk, hrest⟩ := h.rejected e he
    exact ⟨hrejects, k, List.mem_cons_of_mem _ hk, hrest⟩

/-- An entry a call about which was rejected. -/
theorem discarding_rejected {keys : List String} {e : Err} (hkey : seen.seenAnywhere key = false)
    (hops : ∀ m ∈ made, AboutKey deps key m) (hrejects : ∃ m ∈ made, Rejects m)
    (hunsettled : ¬ Settled deps made key) :
    Discarding deps seen (key :: keys) made (.error e : Except Err α) where
  ops := fun m hm => ⟨key, List.mem_cons_self, hkey, hops m hm⟩
  settled := by
    intro a ha
    cases ha
  rejected := fun _ _ => ⟨hrejects, key, List.mem_cons_self, hkey, hunsettled⟩

/-- **All the entries.** -/
theorem ends_resolveDiscarded {keys : List String} (hnodup : keys.Nodup) :
    Ends deps out (resolveDiscarded deps seen keys) s fun s' r =>
      ∃ made, Goes s s' made [] ∧ Discarding deps seen keys made r := by
  induction keys generalizing s with
  | nil =>
      refine ⟨[], .refl s, ⟨fun m hm => absurd hm List.not_mem_nil, fun _ _ => ⟨?_, ?_⟩, ?_⟩⟩
      · exact fun m hm => absurd hm List.not_mem_nil
      · exact fun k hk => absurd hk List.not_mem_nil
      · intro e he
        cases he
  | cons key keys ih =>
      obtain ⟨hnot, hnodup⟩ := List.nodup_cons.mp hnodup
      unfold resolveDiscarded
      split
      · next hkey =>
        refine Prog.Wp.mono (ih hnodup) ?_
        rintro s' r ⟨made, hgoes, hr⟩
        exact ⟨made, hgoes, hr.skip hkey⟩
      · next hkey =>
        have hkey : seen.seenAnywhere key = false := Bool.eq_false_iff.mpr hkey
        have hfind {a : Except Err (Option LedgerRecord)} :
            ∀ m ∈ [(⟨.ledger (.find deps.domain key), a⟩ : Made Item Raw Folder)], AboutKey deps key m :=
          List.forall_mem_singleton.mpr (.inl rfl)
        refine ends_ask_bind (fun _ _ => id) (fun row s₁ hw => ?_) fun e s₁ hw => ?_
        · have hgoes₁ := goes_call rfl hw
          cases row with
          | none =>
              refine Prog.Wp.mono (ih hnodup) ?_
              rintro s' r ⟨made, hgoes, hr⟩
              refine ⟨_, hgoes₁.trans hgoes, hr.cons hkey hnot hfind ?_ ?_ (fun a ha => ⟨a, ha⟩)
                fun e he => ⟨e, he⟩⟩
              · exact List.forall_mem_singleton.mpr not_rejects_ok
              · exact .inl (List.mem_singleton_self _)
          | some row =>
              show Ends deps out (if !isOnTarget row.status then _ else _) s₁ _
              split
              · next hoff =>
                refine Prog.Wp.mono (ih hnodup) ?_
                rintro s' r ⟨made, hgoes, hr⟩
                refine ⟨_, hgoes₁.trans hgoes, hr.cons hkey hnot hfind ?_ ?_ (fun a ha => ⟨a, ha⟩)
                  fun e he => ⟨e, he⟩⟩
                · exact List.forall_mem_singleton.mpr not_rejects_ok
                · exact .inr (.inl ⟨row, List.mem_singleton_self _, by simpa using hoff⟩)
              · next hon =>
                have hboth {a : Except Err Bool} : ∀ m ∈
                    [(⟨.ledger (.find deps.domain key), .ok (some row)⟩ : Made Item Raw Folder)] ++
                      [⟨.ledger (.recordTrashedDeletion deps.domain key), a⟩], AboutKey deps key m :=
                  List.forall_mem_append.mpr ⟨hfind, List.forall_mem_singleton.mpr (.inr rfl)⟩
                refine ends_ask_bind (fun _ _ => id) (fun recorded s₂ hw => ?_) fun e s₂ hw => ?_
                · have hgoes₂ := hgoes₁.trans (goes_call rfl hw)
                  have hsettled : Settled deps
                      ([(⟨.ledger (.find deps.domain key), .ok (some row)⟩ : Made Item Raw Folder)] ++
                        [⟨.ledger (.recordTrashedDeletion deps.domain key), .ok recorded⟩]) key :=
                    .inr (.inr ⟨recorded, List.mem_append_right _ (List.mem_singleton_self _)⟩)
                  have hanswered : ∀ m ∈
                      [(⟨.ledger (.find deps.domain key), .ok (some row)⟩ : Made Item Raw Folder)] ++
                        [⟨.ledger (.recordTrashedDeletion deps.domain key), .ok recorded⟩], ¬ Rejects m :=
                    List.forall_mem_append.mpr ⟨List.forall_mem_singleton.mpr not_rejects_ok,
                      List.forall_mem_singleton.mpr not_rejects_ok⟩
                  refine ends_bind (ih hnodup) ?_ ?_
                  · rintro found s₃ ⟨made, hgoes, hr⟩
                    exact ⟨_, hgoes₂.trans hgoes, hr.cons hkey hnot hboth hanswered hsettled
                      (fun _ _ => ⟨found, rfl⟩) fun e he => (by cases he)⟩
                  · rintro e s₃ ⟨made, hgoes, hr⟩
                    exact ⟨_, hgoes₂.trans hgoes, hr.cons hkey hnot hboth hanswered hsettled
                      (fun a ha => (by cases ha)) fun _ _ => ⟨e, rfl⟩⟩
                · refine ⟨_, hgoes₁.trans (goes_call rfl hw), discarding_rejected hkey hboth
                    ⟨_, List.mem_append_right _ (List.mem_singleton_self _), rejects_error⟩ ?_⟩
                  rintro (hm | ⟨row', hm, hoff⟩ | ⟨recorded, hm⟩)
                  · rcases List.mem_append.mp hm with hm | hm <;> cases List.mem_singleton.mp hm
                  · rcases List.mem_append.mp hm with hm | hm
                    · cases List.mem_singleton.mp hm
                      rw [hoff] at hon
                      exact hon rfl
                    · cases List.mem_singleton.mp hm
                  · rcases List.mem_append.mp hm with hm | hm <;> cases List.mem_singleton.mp hm
        · refine ⟨_, goes_call rfl hw, discarding_rejected hkey hfind
            ⟨_, List.mem_singleton_self _, rejects_error⟩ ?_⟩
          rintro (hm | ⟨row, hm, -⟩ | ⟨recorded, hm⟩) <;> cases List.mem_singleton.mp hm

/-! ### The part of the pass, described -/

variable (deps path seen) in
/-- It was not to read the bins, or could not, or it did and resolved what they
held. -/
inductive BinRun (made : List (Made Item Raw Folder)) (stored : List (String × String)) : Prop
  | unread : (∀ bin key, ¬ Lists deps made bin key) → BinRun made stored
  | unreadable : (∃ m ∈ made, OfScan m ∧ Rejects m) → BinRun made stored
  | resolved {told scan resolving keys} {reason : Option PassStopReason}
      {r : Except Err (List ReportedDeletion)} :
      made = told ++ scan ++ resolving → Asks deps told (.ok reason) →
      Scanned deps path scan stored (.ok keys) → Discarding deps seen keys.eraseDups resolving r →
      BinRun made stored

theorem ends_toldToStop :
    Ends deps out (toldToStop deps) s fun s' r => ∃ made, Goes s s' made [] ∧ Asks deps made r := by
  unfold toldToStop
  split
  · refine ends_ask (fun _ _ => id) (fun a s' hw => ?_) fun e s' hw => ?_
    · exact ⟨_, goes_call rfl hw, asks_one (by simp) (by simp) (by simp) (by simp)⟩
    · exact ⟨_, goes_call rfl hw, asks_one (by simp) (by simp) (by simp) (by simp)⟩
  · exact ⟨[], .refl s, asks_none none⟩

variable (s) in
/-- The calls made and the cursors stored since. -/
structure Since (s' : PassState Item Raw Folder τ) (made : List (Made Item Raw Folder))
    (stored : List (String × String)) : Prop where
  log : s'.world.log = s.world.log ++ made
  cursors : s'.world.cursors = stored ++ s.world.cursors

theorem Goes.since (h : Goes s s' made stored) : Since s s' made stored := ⟨h.log, h.cursors⟩

theorem nodup_eraseDups (keys : List String) : keys.eraseDups.Nodup := by
  induction hn : keys.length using Nat.strong_induction_on generalizing keys with
  | _ n ih =>
      cases keys with
      | nil => exact List.nodup_nil
      | cons key keys =>
          rw [List.eraseDups_cons, List.nodup_cons]
          refine ⟨by simp, ih _ ?_ _ rfl⟩
          rw [← hn]
          exact Nat.lt_succ_of_le (List.length_filter_le _ _)

theorem ends_concludeDiscarded {discarded : DiscardedListing} :
    Ends deps out (concludeDiscarded deps discarded) s fun s' _ =>
      ∃ made, Since s s' made [] ∧ ∃ r : Except Err (List ReportedDeletion),
        Discarding deps s.vars discarded.keys.eraseDups made r := by
  apply ends_onVars_bind
  refine ends_bind (ends_resolveDiscarded (nodup_eraseDups _)) ?_ ?_
  · rintro found s₁ ⟨made, hgoes, hr⟩
    exact ⟨made, ⟨hgoes.log, hgoes.cursors⟩, _, hr⟩
  · rintro e s₁ ⟨made, hgoes, hr⟩
    exact ⟨made, ⟨hgoes.log, hgoes.cursors⟩, _, hr⟩

/-- **A run of the part that reads the bins.** -/
theorem ends_binPart (bins : List Folder) :
    Ends deps out (binPart deps (listDiscardedKeys deps path bins)) s fun s' _ =>
      ∃ made stored, Since s s' made stored ∧ BinRun deps path s.vars made stored := by
  refine ends_bind ends_toldToStop ?_ ?_
  · rintro reason s₁ ⟨told, hgoes₁, hasks⟩
    split
    · exact ⟨told, [], hgoes₁.since, .unread hasks.lists⟩
    · refine Prog.wp_bind.mpr (Prog.wp_attempt.mpr (Prog.Wp.mono (ends_listDiscardedKeys bins) ?_))
      rintro s₂ r ⟨scan, stored, hgoes₂, hscanned⟩
      have hgoes := hgoes₁.trans hgoes₂
      rw [List.append_nil] at hgoes
      cases r with
      | error e =>
          obtain ⟨m, hm, hrejects⟩ := hscanned.rejected e rfl
          have hbad : ∃ m ∈ told ++ scan, OfScan m ∧ Rejects m :=
            ⟨m, List.mem_append_right _ hm, hscanned.ops m hm, hrejects⟩
          have hevent {a : Except Err String} {s₃ : PassState Item Raw Folder τ} (hw : out.Effects s₂
              (.recordAppEvent ("sync." ++ deps.domain.text ++ ".bin-unreadable")) a s₃) :
              ∃ made stored, Since s s₃ made stored ∧ BinRun deps path s.vars made stored := by
            have hgoes₃ := hgoes.trans (goes_call rfl hw)
            obtain ⟨m, hm, hops, hrejects⟩ := hbad
            exact ⟨_, _, hgoes₃.since, .unreadable ⟨m, List.mem_append_left _ hm, hops, hrejects⟩⟩
          exact ends_ask_bind (fun _ _ => id) (fun a s₃ hw => hevent hw) fun e s₃ hw => hevent hw
      | ok discarded =>
          refine Prog.Wp.mono ends_concludeDiscarded ?_
          rintro s₃ - ⟨made, hsince, r, hr⟩
          rw [hgoes.vars] at hr
          refine ⟨told ++ scan ++ made, stored, ⟨?_, ?_⟩, .resolved rfl hasks hscanned hr⟩
          · rw [hsince.log, hgoes.log, List.append_assoc]
          · rw [hsince.cursors, hgoes.cursors, List.nil_append]
  · rintro e s₁ ⟨told, hgoes₁, hasks⟩
    exact ⟨told, [], hgoes₁.since, .unread hasks.lists⟩

end Runs

/-! ### What a cursor may move past -/

section Passes

/-- One pass, as its bins are concerned: from where the part that reads them
began, alone, to where it ended, and which items are alive in the source then. -/
structure BinPass (deps : DomainSyncDeps Item Raw Folder) (path : Folder → String)
    (out : Outside Item Raw Folder τ) where
  bins : List Folder
  alive : String → Prop
  start : PassState Item Raw Folder τ
  stop : PassState Item Raw Folder τ
  result : Except Err Unit
  events : List (Event (PassState Item Raw Folder τ) (SyncOp Item Raw Folder) SyncOp.Ans)
  ran : Prog.Run (fun _ _ => False) (Effects deps out)
    (binPart deps (listDiscardedKeys deps path bins)) start (Prog.outcome result) events stop

variable {deps : DomainSyncDeps Item Raw Folder} {path : Folder → String}
variable {out : Outside Item Raw Folder τ}

namespace BinPass

variable (p q : BinPass deps path out)

/-- The calls made. -/
def made : List (Made Item Raw Folder) := callsSince p.start p.stop

/-- The cursors stored, the latest first. -/
def stored : List (String × String) :=
  p.stop.world.cursors.take (p.stop.world.cursors.length - p.start.world.cursors.length)

/-- An entry of this key was listed in a bin whose cursor was stored. -/
def MovedPast (key : String) : Prop :=
  ∃ bin value, Lists deps p.made bin key ∧ (discardedScanCursorKey (path bin), value) ∈ p.stored

/-- The bins were read to the end, and what they held was handed to the
resolving: no call but those to the ledger was rejected. -/
def Handed : Prop := ∀ m ∈ p.made, OfScan m → ¬ Rejects m

/-- The entry was recorded, or has no copy of ours, or was ignored as alive and is. -/
def Resolved (key : String) : Prop :=
  Settled deps p.made key ∨ p.start.vars.seenAnywhere key = true ∧ p.alive key

/-- No cursor moved past an entry that was not handed over and resolved. -/
def Kept : Prop := ∀ key, p.MovedPast key → p.Handed ∧ p.Resolved key

/-- No call was rejected, and no entry that was seen alive before is gone. -/
def Meets : Prop := ∀ key, p.MovedPast key →
  (∀ m ∈ p.made, ¬ Rejects m) ∧ (p.start.vars.seenAnywhere key = true → p.alive key)

/-- The next pass begins with the cursors this one left. -/
def Follows : Prop := ∀ bin, q.start.world.cursors.lookup (discardedScanCursorKey bin) =
  p.stop.world.cursors.lookup (discardedScanCursorKey bin)

/-- Where something threw, the next pass reads from where this one did every bin
that had entries. -/
def Rereads : Prop := (∃ m ∈ p.made, Rejects m) → ∀ bin key, Lists deps p.made bin key →
  q.start.world.cursors.lookup (discardedScanCursorKey (path bin)) =
    p.start.world.cursors.lookup (discardedScanCursorKey (path bin))

variable {p q} {key : String}

theorem described : Since p.start p.stop p.made p.stored ∧
    BinRun deps path p.start.vars p.made p.stored := by
  have hend := Prog.Wp.run p.ran (ends_binPart p.bins)
  have hdescribed : ∃ made stored, Since p.start p.stop made stored ∧
      BinRun deps path p.start.vars made stored := by
    cases hr : p.result with
    | ok a =>
        rw [hr] at hend
        exact hend
    | error e =>
        rw [hr] at hend
        exact hend
  obtain ⟨made, stored, hsince, hrun⟩ := hdescribed
  have hmade : p.made = made := by
    rw [BinPass.made, callsSince, hsince.log, List.drop_left]
  have hstored : p.stored = stored := by
    rw [BinPass.stored, hsince.cursors, List.length_append, Nat.add_sub_cancel, List.take_left]
  rw [hmade, hstored]
  exact ⟨hsince, hrun⟩

/-- **One pass.** -/
theorem kept_iff_meets : p.Kept ↔ p.Meets := by
  obtain ⟨-, hrun⟩ := p.described
  cases hrun with
  | unread hno =>
      have hnot (key : String) : ¬ p.MovedPast key := by
        rintro ⟨bin, value, hlists, -⟩
        exact hno bin key hlists
      exact iff_of_true (fun key hmoved => absurd hmoved (hnot key)) fun key hmoved =>
        absurd hmoved (hnot key)
  | unreadable hbad =>
      obtain ⟨m, hm, hops, hrejects⟩ := hbad
      constructor
      · exact fun h key hmoved => absurd hrejects ((h key hmoved).1 m hm hops)
      · exact fun h key hmoved => absurd hrejects ((h key hmoved).1 m hm)
  | @resolved told scan resolving keys reason r hmade hasks hscanned hresolving =>
      -- the reading lists and asks no ledger, the resolving asks only the ledger
      have hlists {bin : Folder} {key : String} (h : Lists deps p.made bin key) :
          Lists deps scan bin key := by
        rw [hmade, lists_append, lists_append] at h
        rcases h with (h | h) | h
        · exact absurd h (hasks.lists bin key)
        · exact h
        · obtain ⟨prev, listing, hm, -⟩ := h
          obtain ⟨k, -, -, habout | habout⟩ := hresolving.ops _ hm <;> cases habout
      have hsettled {key : String} : Settled deps p.made key ↔ Settled deps resolving key := by
        have hscan {made : List (Made Item Raw Folder)} (hops : ∀ m ∈ made, OfScan m) :
            ¬ Settled deps made key := by
          intro h
          obtain ⟨m, hm, habout | habout⟩ := h.about
          · exact hops m hm _ habout
          · exact hops m hm _ habout
        rw [hmade, settled_append, settled_append, or_assoc]
        rw [or_iff_right (hscan hasks.ops), or_iff_right (hscan hscanned.ops)]
      cases r with
      | ok found =>
          obtain ⟨hanswered, hall⟩ := hresolving.settled found rfl
          have hnone : ∀ m ∈ p.made, ¬ Rejects m := by
            rw [hmade]
            exact List.forall_mem_append.mpr ⟨List.forall_mem_append.mpr
              ⟨hasks.answered reason rfl, hscanned.answered keys rfl⟩, hanswered⟩
          constructor
          · intro h key hmoved
            refine ⟨hnone, fun hseen => ?_⟩
            rcases (h key hmoved).2 with hsome | ⟨-, halive⟩
            · -- what was seen alive is not asked about
              obtain ⟨m, hm, habout⟩ := (hsettled.mp hsome).about
              obtain ⟨k, -, hunseen, habout'⟩ := hresolving.ops m hm
              rw [aboutKey_inj habout' habout, hseen] at hunseen
              cases hunseen
            · exact halive
          · rintro h key hmoved
            refine ⟨fun m hm _ => hnone m hm, ?_⟩
            obtain ⟨bin, value, hl, hmem⟩ := hmoved
            cases hseen : p.start.vars.seenAnywhere key with
            | true => exact .inr ⟨hseen, (h key ⟨bin, value, hl, hmem⟩).2 hseen⟩
            | false =>
                have hkey := hscanned.listed keys rfl bin key (hlists hl)
                exact .inl (hsettled.mpr (hall key (List.mem_eraseDups.mpr hkey) hseen))
      | error e =>
          obtain ⟨⟨m, hm, hrejects⟩, key, hkey, hunseen, hunsettled⟩ := hresolving.rejected e rfl
          cases hc : deps.cursors with
          | false =>
              have hnot (key : String) : ¬ p.MovedPast key := by
                rintro ⟨bin, value, -, hmem⟩
                rw [hscanned.uncounted hc] at hmem
                cases hmem
              exact iff_of_true (fun key hmoved => absurd hmoved (hnot key)) fun key hmoved =>
                absurd hmoved (hnot key)
          | true =>
              obtain ⟨bin, ⟨prev, listing, hlisted, hentry⟩, hset⟩ :=
                hscanned.read keys rfl key (List.mem_eraseDups.mp hkey)
              obtain ⟨value, hvalue⟩ := hset hc
              have hmem : ⟨.listSince bin prev, .ok listing⟩ ∈ p.made := by
                rw [hmade]
                exact List.mem_append_left _ (List.mem_append_right _ hlisted)
              have hmoved : p.MovedPast key := ⟨bin, value, ⟨prev, listing, hmem, hentry⟩, hvalue⟩
              refine iff_of_false (fun h => ?_) fun h => ?_
              · rcases (h key hmoved).2 with hsome | ⟨hseen, -⟩
                · exact hunsettled (hsettled.mp hsome)
                · rw [hunseen] at hseen
                  cases hseen
              · refine (h key hmoved).1 m ?_ hrejects
                rw [hmade]
                exact List.mem_append_right _ hm

theorem rereads_of_meets (h : p.Meets) (hq : p.Follows q) : p.Rereads q := by
  rintro ⟨m, hm, hrejects⟩ bin key hlists
  obtain ⟨hsince, -⟩ := p.described
  rw [hq, hsince.cursors, List.lookup_append]
  have hnone : p.stored.lookup (discardedScanCursorKey (path bin)) = none := by
    rw [List.lookup_eq_none_iff]
    rintro ⟨c, value⟩ hmem
    rw [bne_iff_ne]
    rintro rfl
    exact (h key ⟨bin, value, hlists, hmem⟩).1 m hm hrejects
  rw [hnone]
  rfl

end BinPass

/-- **When no bin's cursor moves past an entry that is lost**, in any sequence of
passes. -/
theorem binCursors_iff {ps : List (BinPass deps path out)} (hchain : ps.IsChain BinPass.Follows) :
    ((∀ p ∈ ps, p.Kept) ∧ ps.IsChain BinPass.Rereads) ↔ ∀ p ∈ ps, p.Meets := by
  constructor
  · rintro ⟨hkept, -⟩ p hp
    exact BinPass.kept_iff_meets.mp (hkept p hp)
  · intro hmeets
    refine ⟨fun p hp => BinPass.kept_iff_meets.mpr (hmeets p hp), ?_⟩
    exact hchain.imp_of_mem_imp fun p q hp _ hq => BinPass.rereads_of_meets (hmeets p hp) hq

end Passes

/-! ### A message in the bin -/

section Post

variable {host : Host} {answer : τ → (o : SyncOp Item Raw Folder) → Option (o.Ans × τ)}
variable {deps : DomainSyncDeps Item Raw Folder} {s s' : PassState Item Raw Folder τ}

/-- What is computed of the part is a pass. -/
theorem binPass_of_exec (path : Folder → String) (bins : List Folder) (alive : String → Prop)
    (h : (binPart deps (listDiscardedKeys deps path bins)).exec (passState host answer deps)
      (fun _ => false) s = some (.ret (), s')) :
    ∃ p : BinPass deps path (Outside.ofAnswer answer), p.start = s ∧ p.stop = s' ∧ p.alive = alive := by
  have hworld : ∀ s o a s', passState host answer deps s o = some (a, s') →
      Effects deps (Outside.ofAnswer answer) s o a s' := fun _ _ _ _ => effects_passState
  obtain ⟨events, hrun⟩ := Prog.run_exec hworld .refl h
  exact ⟨⟨bins, alive, s, s', .ok (), events, hrun⟩, rfl, rfl, rfl⟩

theorem not_rejects_of_all {made : List (Made Item Raw Folder)}
    (h : (made.all fun m => m.2.isOk) = true) : ∀ m ∈ made, ¬ Rejects m := by
  rintro m hm ⟨e, he⟩
  have hok := List.all_eq_true.mp h m hm
  rw [he] at hok
  cases hok

def postDeps : DomainSyncDeps String Unit String where
  domain := .email
  cursors := true
  folderPath := some
  naturalKey := some
  contentHash := fun _ => .ok ""
  sourceIsAuthorityOnExistence := true
  listDiscardedKeys := true

def postHost : Host := ⟨0, fun _ _ => .unknown⟩

/-- The bin of this name holds a message, and there is no other. -/
def postWorld : Unit → (o : SyncOp String Unit String) → Option (o.Ans × Unit)
  | t, .listSince bin _ =>
    if bin = "Trash" then some (.ok { items := ["message"], nextCursor := "1" }, t)
    else some (.error { message := "no such mailbox" }, t)
  | _, _ => none

abbrev PostPass := BinPass postDeps id (Outside.ofAnswer postWorld)

/-- What reading these bins comes to. -/
def post (bins : List String) (s : PassState String Unit String Unit) :=
  (binPart postDeps (listDiscardedKeys postDeps id bins)).exec
    (passState postHost postWorld postDeps) (fun _ => false) s

/-- What is called for the bin, read since there. -/
def postCalls (prev : Option String) : List (Made String Unit String) :=
  [⟨.cursorGet (discardedScanCursorKey "Trash"), .ok prev⟩,
    ⟨.listSince "Trash" prev, .ok { items := ["message"], nextCursor := "1" }⟩,
    ⟨.cursorSet (discardedScanCursorKey "Trash") "1", .ok ()⟩]

theorem post_movedPast {p : PostPass} {prev : Option String} {made : List (Made String Unit String)}
    (hmade : p.made = postCalls prev ++ made)
    (hstored : (discardedScanCursorKey "Trash", "1") ∈ p.stored) : p.MovedPast "message" := by
  refine ⟨"Trash", "1", ⟨prev, { items := ["message"], nextCursor := "1" }, ?_, ?_⟩, hstored⟩
  · rw [hmade]
    exact List.mem_append_left _ (List.mem_cons_of_mem _ List.mem_cons_self)
  · exact List.mem_singleton_self "message"

/-- The bin read to the end: its message has no copy of ours. -/
theorem post_pass {s s' : PassState String Unit String Unit} {prev : Option String}
    (hpost : post ["Trash"] s = some (.ret (), s'))
    (hmade : callsSince s s' = postCalls prev ++ [⟨.ledger (.find .email "message"), .ok none⟩])
    (hstored : s'.world.cursors = (discardedScanCursorKey "Trash", "1") :: s.world.cursors)
    (hseen : ∀ key, s.vars.seenAnywhere key = false) :
    ∃ p : PostPass, p.start = s ∧ p.stop = s' ∧ p.MovedPast "message" ∧ p.Meets := by
  obtain ⟨p, rfl, rfl, -⟩ := binPass_of_exec id ["Trash"] (fun _ => False) hpost
  refine ⟨p, rfl, rfl, post_movedPast hmade ?_, fun key _ => ⟨?_, fun h => ?_⟩⟩
  · rw [BinPass.stored, hstored, List.length_cons, Nat.add_sub_cancel_left]
    exact List.mem_singleton_self _
  · refine not_rejects_of_all ?_
    show (callsSince p.start p.stop).all _ = true
    rw [hmade]
    rfl
  · rw [hseen] at h
    cases h

/-- A new pass, behind one that stored these cursors. -/
def newPassAfter (cursors : List (String × String)) : PassState String Unit String Unit where
  world := { ledger := Store.Table.empty, target := (), cursors := cursors }

/-- The bin is read in two passes, and nothing is passed over. -/
theorem binned_message_kept :
    ∃ p q : PostPass, p.Follows q ∧ p.MovedPast "message" ∧ q.MovedPast "message" ∧
      (∀ r ∈ [p, q], r.Kept) ∧ [p, q].IsChain BinPass.Rereads := by
  have hfirst : ∃ s', post ["Trash"] (newPass ()) = some (.ret (), s') ∧
      callsSince (newPass ()) s' = postCalls none ++ [⟨.ledger (.find .email "message"), .ok none⟩] ∧
      s'.world.cursors = [(discardedScanCursorKey "Trash", "1")] := ⟨_, rfl, rfl, rfl⟩
  obtain ⟨s', hpost, hmade, hstored⟩ := hfirst
  have hsecond : ∃ s'', post ["Trash"] (newPassAfter [(discardedScanCursorKey "Trash", "1")]) =
        some (.ret (), s'') ∧
      callsSince (newPassAfter [(discardedScanCursorKey "Trash", "1")]) s'' =
        postCalls (some "1") ++ [⟨.ledger (.find .email "message"), .ok none⟩] ∧
      s''.world.cursors =
        [(discardedScanCursorKey "Trash", "1"), (discardedScanCursorKey "Trash", "1")] :=
    ⟨_, rfl, rfl, rfl⟩
  obtain ⟨s'', hpost', hmade', hstored'⟩ := hsecond
  obtain ⟨p, -, hstop, hmoved, hmeets⟩ := post_pass hpost hmade hstored fun _ => rfl
  obtain ⟨q, hstart, -, hmoved', hmeets'⟩ := post_pass hpost' hmade' hstored' fun _ => rfl
  have hfollows : p.Follows q := by
    intro bin
    rw [hstart, hstop, hstored]
    rfl
  have hchain : [p, q].IsChain BinPass.Follows := List.isChain_pair.mpr hfollows
  refine ⟨p, q, hfollows, hmoved, hmoved', (binCursors_iff hchain).mpr ?_⟩
  exact List.forall_mem_cons.mpr ⟨hmeets, List.forall_mem_singleton.mpr hmeets'⟩

/-- The second bin cannot be listed, and what the first one held is passed over. -/
theorem binned_message_passed_over :
    ¬ ∀ ps : List PostPass, ps.IsChain BinPass.Follows →
      (∀ p ∈ ps, p.Kept) ∧ ps.IsChain BinPass.Rereads := by
  intro hall
  have hexec : ∃ s', post ["Trash", "Deleted"] (newPass ()) = some (.ret (), s') ∧
      callsSince (newPass ()) s' = postCalls none ++
        [⟨.cursorGet (discardedScanCursorKey "Deleted"), .ok none⟩,
          ⟨.listSince "Deleted" none, .error { message := "no such mailbox" }⟩,
          ⟨.recordAppEvent "sync.email.bin-unreadable", .ok "sync.email.bin-unreadable"⟩] ∧
      s'.world.cursors = [(discardedScanCursorKey "Trash", "1")] := ⟨_, rfl, rfl, rfl⟩
  obtain ⟨s', hpost, hmade, hstored⟩ := hexec
  obtain ⟨p, hstart, rfl, -⟩ := binPass_of_exec id ["Trash", "Deleted"] (fun _ => False) hpost
  rw [← hstart] at hmade
  have hmoved : p.MovedPast "message" := by
    refine post_movedPast hmade ?_
    rw [BinPass.stored, hstored, hstart]
    exact List.mem_singleton_self _
  have hbad : (⟨.listSince "Deleted" none, .error { message := "no such mailbox" }⟩ :
      Made String Unit String) ∈ p.made := by
    show _ ∈ callsSince p.start p.stop
    rw [hmade]
    exact List.mem_append_right _ (List.mem_cons_of_mem _ List.mem_cons_self)
  have hkept := (hall [p] (List.isChain_singleton p)).1 p (List.mem_singleton_self p)
  exact (hkept "message" hmoved).1 _ hbad (by simp [OfScan]) rejects_error

end Post

end Ownpace.Sync
