/-
Ownpace/Sharing/Together.lean

Presses and ticks at the same time, over one ledger.

`RowKept` is what every run keeps of a row: what was scanned of it stays, a settled row
stays as it is, and a row that was open was settled at most once, as applied only by a
press whose last call had created its share (`traced_kept`).  A share is asked for right
after a list of the same press that shows the row open, so never for a row that was
settled before that list (`sent_of_traced`); what comes between the list and the request
the press does not see, and two presses can create one share twice
(`presses_create_twice`).
-/
import Ownpace.Sharing.Pressed

namespace Ownpace.Sharing

open Await Calendar Store

abbrev ShareLabel := Pool.Label ShareDb ShareOp ShareOp.Ans

/-! ### What a step does to a row -/

/-- What was scanned of a row. -/
def ShareGrantRow.scanned (row : ShareGrantRow) : ShareGrantRow :=
  { row with state := .opened, stateReason := none, decidedBy := none, decidedAt := none }

theorem get_decide (t : ShareDb) (grantId : Text) (d : ShareDecision) (decidedAt : String) :
    (t.decide grantId d decidedAt).get grantId =
      (t.get grantId).map fun row => bif row.isOpen then d.set decidedAt row else row :=
  Table.get_updateWhere_self t (d.set decidedAt) fun _ => rfl

theorem get_decide_of_ne (t : ShareDb) {grantId id : Text} (d : ShareDecision) (decidedAt : String)
    (hne : id ≠ grantId) : (t.decide grantId d decidedAt).get id = t.get id :=
  Table.get_updateWhere_of_ne t (d.set decidedAt) (fun _ => rfl) hne

variable {t t' : ShareDb} {o : ShareOp} {a : o.Ans} {id : Text} {row : ShareGrantRow}

/-- A row stays as it is, or was open and is decided. -/
theorem world_step (h : ShareWorld t o a t') (hrow : t.get id = some row) :
    t'.get id = some row ∨ ∃ d decidedAt, o = .decideShareGrant id d ∧ row.isOpen = true ∧
      t'.get id = some (d.set decidedAt row) := by
  have hdecide (grantId : Text) (d : ShareDecision) (decidedAt : String) :
      (t.decide grantId d decidedAt).get id = some row ∨ (id = grantId ∧ row.isOpen = true ∧
        (t.decide grantId d decidedAt).get id = some (d.set decidedAt row)) := by
    by_cases hid : id = grantId
    · subst hid
      rw [get_decide, hrow, Option.map_some]
      cases hopen : row.isOpen with
      | true => exact Or.inr ⟨rfl, rfl, rfl⟩
      | false => exact Or.inl rfl
    · rw [get_decide_of_ne t d decidedAt hid]
      exact Or.inl hrow
  cases h with
  | listed | asked | settled | recorded | failed => exact Or.inl hrow
  | @decided grantId d _ decidedAt _ _ =>
      rcases hdecide grantId d decidedAt with h | ⟨rfl, hopen, h⟩
      · exact Or.inl h
      · exact Or.inr ⟨d, decidedAt, rfl, hopen, h⟩
  | @lost grantId d decidedAt _ =>
      rcases hdecide grantId d decidedAt with h | ⟨rfl, hopen, h⟩
      · exact Or.inl h
      · exact Or.inr ⟨d, decidedAt, rfl, hopen, h⟩

theorem world_none (h : ShareWorld t o a t') (hrow : t.get id = none) : t'.get id = none := by
  have hdecide (grantId : Text) (d : ShareDecision) (decidedAt : String) :
      (t.decide grantId d decidedAt).get id = none := by
    by_cases hid : id = grantId
    · subst hid
      rw [get_decide, hrow]
      rfl
    · rw [get_decide_of_ne t d decidedAt hid, hrow]
  cases h with
  | listed | asked | settled | recorded | failed => exact hrow
  | decided => exact hdecide _ _ _
  | lost => exact hdecide _ _ _

/-- After an answered decision a row is not open. -/
theorem closed_of_answered {d : ShareDecision} {answer : Option { row : ShareGrantRow // row.id = id }}
    (h : ShareWorld t (.decideShareGrant id d) (.ok answer) t') (hstate : d.state ≠ .opened)
    (hrow : t'.get id = some row) : row.isOpen = false := by
  cases h with
  | @decided _ _ row' decidedAt hrow' hopen =>
      rw [get_decide, hrow', Option.map_some, hopen] at hrow
      cases hrow
      exact decide_eq_false hstate
  | settled hsettled => exact hsettled row hrow

/-! ### What a run keeps of a row -/

/-- **What has become of a row.** -/
structure RowKept (trace : List ShareLabel) (row₀ row : ShareGrantRow) : Prop where
  /-- What was scanned stays. -/
  scanned : row.scanned = row₀.scanned
  /-- A settled row stays as it is. -/
  settled : row₀.isOpen = false → row = row₀
  /-- It was settled by a press or a tick, and as applied only right after that press's
  share was created. -/
  by_press : row.isOpen = false → row₀.isOpen = true → ∃ past k d a rest,
    trace = past ++ (k, .call (.decideShareGrant row₀.id d) a) :: rest ∧ d.state = row.state ∧
    (row.state = .applied → ∃ before asked shareWith,
      Pool.own k past = before ++ [.call (.createShare asked shareWith) (.ok .created)] ∧
      asked.id = row₀.id)
  /-- While it is open, no decision on it was answered. -/
  undecided : row.isOpen = true → ∀ k d answer,
    (k, .call (.decideShareGrant row₀.id d) (.ok answer)) ∉ trace
  /-- And one decision at most has settled it. -/
  once : (trace.filter fun l => settles l.2 = some row₀.id).length ≤ 1

/-- Every row, and no other. -/
def AllKept (t₀ : ShareDb) (trace : List ShareLabel) (t : ShareDb) : Prop :=
  ∀ id, Option.Rel (RowKept trace) (t₀.get id) (t.get id)

/-- What a call on a row may be, after what. -/
theorem mayCall_decide {press : Press} {past : List ShareEvent} {d : ShareDecision}
    {answer : Except String (Option { row : ShareGrantRow // row.id = id })}
    (h : MayCall press past (.call (.decideShareGrant id d) answer)) :
    d.state ≠ .opened ∧ (d.state = .applied → ∃ before asked shareWith,
      past = before ++ [.call (.createShare asked shareWith) (.ok .created)] ∧ asked.id = id) := by
  cases h with
  | @apply before asked shareWith _ _ hpast hstate =>
      exact ⟨by rw [hstate]; decide, fun _ => ⟨before, asked, shareWith, hpast, rfl⟩⟩
  | tick _ hticks =>
      constructor
      · intro hstate
        rw [hstate] at hticks
        cases press <;> cases hticks
      · intro hstate
        rw [hstate] at hticks
        cases press <;> cases hticks

theorem settles_eq {e : ShareEvent} (h : settles e = some id) :
    ∃ d settled, e = .call (.decideShareGrant id d) (.ok (some settled)) := by
  cases e with
  | sync before after => cases h
  | call o a =>
      cases o with
      | listShareGrants | createShare | recordAuditEvent => cases h
      | decideShareGrant grantId d =>
          cases a with
          | error message => cases h
          | ok answer =>
              cases answer with
              | none => cases h
              | some settled =>
                  cases h
                  exact ⟨d, settled, rfl⟩

theorem kept_concat {trace : List ShareLabel} {row₀ : ShareGrantRow} {k : Nat} {e : ShareEvent}
    (h : RowKept trace row₀ row)
    (hnot : ∀ d answer, e ≠ .call (.decideShareGrant row₀.id d) (.ok answer)) :
    RowKept (trace ++ [(k, e)]) row₀ row where
  scanned := h.scanned
  settled := h.settled
  by_press hclosed hopen := by
    obtain ⟨past, j, d, a, rest, rfl, hrest⟩ := h.by_press hclosed hopen
    exact ⟨past, j, d, a, rest ++ [(k, e)], by simp, hrest⟩
  undecided hopen j d answer hmem := by
    rcases List.mem_append.mp hmem with hmem | hmem
    · exact h.undecided hopen j d answer hmem
    · have := List.mem_singleton.mp hmem
      exact hnot d answer (congrArg Prod.snd this).symm
  once := by
    have hsettles : settles e ≠ some row₀.id := by
      intro hsettles
      obtain ⟨d, settled, rfl⟩ := settles_eq hsettles
      exact hnot d (some settled) rfl
    rw [List.filter_append, List.filter_singleton]
    simpa [hsettles] using h.once

/-- Nothing has settled a row that is open. -/
theorem RowKept.unsettled {trace : List ShareLabel} {row₀ : ShareGrantRow}
    (h : RowKept trace row₀ row) (hopen : row.isOpen = true) :
    (trace.filter fun l => settles l.2 = some row₀.id) = [] := by
  apply List.filter_eq_nil_iff.mpr
  rintro ⟨k, e⟩ hmem hsettles
  obtain ⟨d, settled, rfl⟩ := settles_eq (of_decide_eq_true hsettles)
  exact h.undecided hopen k d (some settled) hmem

/-- The row a decision leaves. -/
theorem kept_decided {trace : List ShareLabel} {row₀ : ShareGrantRow} {press : Press} {i : Nat}
    {d : ShareDecision} {decidedAt : String}
    {answer : Except String (Option { row : ShareGrantRow // row.id = row₀.id })}
    (h : RowKept trace row₀ row) (hopen : row.isOpen = true)
    (hmay : MayCall press (Pool.own i trace) (.call (.decideShareGrant row₀.id d) answer)) :
    RowKept (trace ++ [(i, .call (.decideShareGrant row₀.id d) answer)]) row₀ (d.set decidedAt row) where
  scanned := h.scanned
  settled hclosed := by
    rw [← h.settled hclosed, hopen] at hclosed
    cases hclosed
  by_press _ _ := by
    refine ⟨trace, i, d, answer, [], rfl, rfl, ?_⟩
    exact (mayCall_decide hmay).2
  undecided hstill := absurd (of_decide_eq_true hstill) (mayCall_decide hmay).1
  once := by
    rw [List.filter_append, h.unsettled hopen, List.nil_append]
    exact List.length_filter_le _ _

/-- **One step keeps a row.** -/
theorem kept_step {trace : List ShareLabel} {row₀ : ShareGrantRow} {press : Press} {i : Nat}
    {e : ShareEvent} (hkept : RowKept trace row₀ row) (hrow : t.get row₀.id = some row)
    (hmay : MayCall press (Pool.own i trace) e) (hfires : Fires ShareWorld t e t') :
    ∃ row', t'.get row₀.id = some row' ∧ RowKept (trace ++ [(i, e)]) row₀ row' := by
  cases e with
  | sync before after => cases hmay
  | call o a =>
      have hworld : ShareWorld t o a t' := hfires
      rcases world_step hworld hrow with hsame | ⟨d, decidedAt, rfl, hopen, hset⟩
      · refine ⟨row, hsame, ?_⟩
        by_cases hanswered : ∃ d answer,
            (.call o a : ShareEvent) = .call (.decideShareGrant row₀.id d) (.ok answer)
        · -- an answered decision that left the row as it was found it settled
          obtain ⟨d, answer, heq⟩ := hanswered
          cases heq
          have hclosed := closed_of_answered hworld (mayCall_decide hmay).1 hsame
          have hnone : answer = none := by
            cases hworld with
            | settled => rfl
            | decided decidedAt hfound hopen =>
                rw [hrow] at hfound
                cases hfound
                rw [hclosed] at hopen
                cases hopen
          subst hnone
          refine ⟨hkept.scanned, hkept.settled, ?_, ?_, ?_⟩
          · intro _ hopen
            obtain ⟨past, j, d', a, rest, rfl, hrest⟩ := hkept.by_press hclosed hopen
            exact ⟨past, j, d', a, rest ++ [(i, .call (.decideShareGrant row₀.id d) (.ok none))],
              by simp, hrest⟩
          · intro hopen
            rw [hclosed] at hopen
            cases hopen
          · rw [List.filter_append, List.filter_singleton]
            simpa [settles] using hkept.once
        · apply kept_concat hkept
          intro d answer heq
          exact hanswered ⟨d, answer, heq⟩
      · exact ⟨_, hset, kept_decided hkept hopen hmay⟩

/-! ### Runs -/

/-- What the program of a press keeps to. -/
def MayCallOf (presses : List Press) (i : Nat) : List ShareEvent → ShareEvent → Prop :=
  (presses[i]?).elim (fun _ _ => False) MayCall

theorem always_presses (presses : List Press) (i : Nat) (p : Pressing Unit)
    (h : (presses.map Press.prog)[i]? = some p) :
    p.Always (MayCallOf presses i) (fun _ _ => True) [] := by
  rw [List.getElem?_map, Option.map_eq_some_iff] at h
  obtain ⟨press, hpress, rfl⟩ := h
  rw [MayCallOf, hpress]
  exact always_prog press

theorem exists_press {presses : List Press} {i : Nat} {past : List ShareEvent} {e : ShareEvent}
    (h : MayCallOf presses i past e) : ∃ press, presses[i]? = some press ∧ MayCall press past e := by
  rw [MayCallOf] at h
  cases hpress : presses[i]? with
  | none =>
      rw [hpress] at h
      exact h.elim
  | some press =>
      rw [hpress] at h
      exact ⟨press, rfl, h⟩

variable {presses : List Press} {limit : Nat} {t₀ : ShareDb}
variable {pl : Pool ShareDb ShareOp ShareOp.Ans String} {trace : List ShareLabel}

theorem traced_kept
    (h : Pool.Traced ShareWorld limit (presses.map Press.prog) t₀ pl t trace) :
    AllKept t₀ trace t := by
  apply h.rule (always_presses presses)
  · intro id
    cases hrow : t₀.get id with
    | none => exact .none
    | some row =>
        refine .some ⟨rfl, fun _ => rfl, ?_, ?_, Nat.zero_le _⟩
        · intro hclosed hopen
          rw [hclosed] at hopen
          cases hopen
        · intro _ k d answer hmem
          cases hmem
  · intro trace t i e t' _ hkept hmay hfires id
    obtain ⟨press, -, hmay⟩ := exists_press hmay
    have hid := hkept id
    cases hrow₀ : t₀.get id with
    | none =>
        cases hrow : t.get id with
        | some row =>
            rw [hrow₀, hrow] at hid
            cases hid
        | none =>
            have hnone : t'.get id = none := by
              cases e with
              | sync before after => cases hmay
              | call o a => exact world_none hfires hrow
            rw [hnone]
            exact .none
    | some row₀ =>
        cases hrow : t.get id with
        | none =>
            rw [hrow₀, hrow] at hid
            cases hid
        | some row =>
            rw [hrow₀, hrow] at hid
            obtain rfl : row₀.id = id := Table.get_key hrow₀
            cases hid with
            | some hkept =>
                obtain ⟨row', hrow', hkept'⟩ := kept_step hkept hrow hmay hfires
                rw [hrow']
                exact .some hkept'

/-- **A settled row stays as it is**, from any moment of a run. -/
theorem settled_stays (h : Pool.Traced ShareWorld limit (presses.map Press.prog) t₀ pl t trace)
    {past rest : List ShareLabel} (heq : trace = past ++ rest) :
    ∃ pl₁ t₁, Pool.Traced ShareWorld limit (presses.map Press.prog) t₀ pl₁ t₁ past ∧
      ∀ id row, t₁.get id = some row → row.isOpen = false → t.get id = some row := by
  induction h generalizing rest with
  | refl =>
      obtain ⟨rfl, rfl⟩ := List.append_eq_nil_iff.mp heq.symm
      exact ⟨_, _, .refl, fun id row hrow _ => hrow⟩
  | start htraced hs ih =>
      cases hs with
      | start hlt => exact ih heq
  | @task pl t l pl' t' trace htraced hs ih =>
      rcases List.eq_nil_or_concat rest with rfl | ⟨rest', l', rfl⟩
      · rw [List.append_nil] at heq
        subst heq
        exact ⟨_, _, .task htraced hs, fun id row hrow _ => hrow⟩
      · rw [List.concat_eq_append, ← List.append_assoc] at heq
        obtain ⟨heq, -⟩ := List.append_inj' heq rfl
        obtain ⟨pl₁, t₁, htraced₁, hstays⟩ := ih heq
        refine ⟨pl₁, t₁, htraced₁, fun id row hrow hclosed => ?_⟩
        obtain ⟨-, hmay, hfires⟩ := htraced.justified (always_presses presses) hs
        obtain ⟨press, -, hmay⟩ := exists_press hmay
        generalize l.2 = e at hmay hfires
        cases e with
        | sync before after => cases hmay
        | call o a =>
            rcases world_step hfires (hstays id row hrow hclosed) with h | ⟨d, decidedAt, -, hopen, -⟩
            · exact h
            · rw [hclosed] at hopen
              cases hopen

/-! ### What is sent -/

/-- A list of the run is of the rows there are, each as this run has kept it. -/
theorem listed_of_traced (h : Pool.Traced ShareWorld limit (presses.map Press.prog) t₀ pl t trace)
    {past rest : List ShareLabel} {k : Nat} {rows : List ShareGrantRow}
    (heq : trace = past ++ (k, .call .listShareGrants (.ok rows)) :: rest) (hrow : row ∈ rows) :
    ∃ row₀, t₀.get row.id = some row₀ ∧ RowKept past row₀ row := by
  obtain ⟨pl₁, t₁, t₂, htraced, -, -, hfires⟩ := h.moment (always_presses presses) heq
  have hget : t₁.get row.id = some row := by
    have hworld : ShareWorld t₁ .listShareGrants (.ok rows) t₂ := hfires
    cases hworld with
    | listed hperm => exact Table.get_of_mem (hperm.mem_iff.mp hrow)
  have hkept := traced_kept htraced row.id
  rw [hget] at hkept
  cases hrow₀ : t₀.get row.id with
  | none =>
      rw [hrow₀] at hkept
      cases hkept
  | some row₀ =>
      rw [hrow₀] at hkept
      cases hkept with
      | some hkept => exact ⟨row₀, rfl, hkept⟩

/-- **What may be said of a share that is asked for**: by which press, of what row, to whom,
and what had happened when that press read the row. -/
structure Sent (presses : List Press) (past : List ShareLabel) (k : Nat) (row : ShareGrantRow)
    (shareWith : Option Text) : Prop where
  press : ∃ press, presses[k]? = some press ∧ press.isCutOver row.subject = true ∧
    press.Addressed (Pool.own k past) row.id shareWith ∧
    ∀ localeCompare deps confirmed parentKey, press = .folder localeCompare deps confirmed parentKey →
      shareWith = addressIn confirmed row ∧
      ∀ g, row.grantee = some g → g ≠ [] → confirmedFor confirmed g = shareWith ∧ shareWith ≠ none
  addressable : row.addressable = true
  unlimited : Unlimited (Pool.own k past)
  read : ∃ before rows after, past = before ++ (k, .call .listShareGrants (.ok rows)) :: after ∧
    Pool.own k after = [] ∧ row ∈ rows ∧ row.isOpen = true ∧
    ∀ j d answer, (j, .call (.decideShareGrant row.id d) (.ok answer)) ∉ before

theorem sent_of_traced (h : Pool.Traced ShareWorld limit (presses.map Press.prog) t₀ pl t trace)
    {past rest : List ShareLabel} {k : Nat} {shareWith : Option Text} {a : Except String ShareAnswer}
    (heq : trace = past ++ (k, .call (.createShare row shareWith) a) :: rest) :
    Sent presses past k row shareWith := by
  obtain ⟨pl₁, t₁, t₂, htraced, -, hmay, -⟩ := h.moment (always_presses presses) heq
  obtain ⟨press, hpress, hmay⟩ := exists_press hmay
  cases hmay with
  | @ask own rows _ _ _ hown hmem hopen haddressable hcut haddressed hunlimited =>
      obtain ⟨before, after, rfl, -, hafter⟩ := Pool.own_eq_concat hown
      obtain ⟨row₀, hrow₀, hkept⟩ := listed_of_traced htraced rfl hmem
      refine ⟨⟨press, hpress, hcut, haddressed, ?_⟩, haddressable, hunlimited,
        before, rows, after, rfl, hafter, hmem, hopen, ?_⟩
      · rintro localeCompare deps confirmed parentKey rfl
        obtain ⟨candidates, asked, ⟨⟨rows', group, hhead, -, rfl⟩, hevery⟩, hasked, hid, rfl⟩ := haddressed
        -- the row it was pressed for and the row it was read as are one row of the ledger
        have hgrantee : asked.grantee = row.grantee := by
          have hlisted : (k, .call .listShareGrants (.ok rows')) ∈
              before ++ (k, .call .listShareGrants (.ok rows)) :: after :=
            Pool.mem_own.mp (List.mem_of_head? hhead)
          obtain ⟨earlier, later, hsplit⟩ := List.append_of_mem hlisted
          have hmem' : asked ∈ rows' :=
            (List.mem_filter.mp (List.mem_filter.mp hasked).1).1
          obtain ⟨row₀', hrow₀', hkept'⟩ := listed_of_traced htraced hsplit hmem'
          rw [hid, hrow₀] at hrow₀'
          cases hrow₀'
          have hscanned : asked.scanned = row.scanned := hkept'.scanned.trans hkept.scanned.symm
          have hgrantee : asked.scanned.grantee = row.scanned.grantee := by rw [hscanned]
          exact hgrantee
        refine ⟨by rw [addressIn, addressIn, hgrantee], fun g hg hne => ?_⟩
        have haddress : addressIn confirmed asked = confirmedFor confirmed g := by
          rw [addressIn, hgrantee, hg]
          show (said g).bind _ = _
          rw [said, if_neg hne]
          rfl
        rw [haddress]
        exact ⟨rfl, hevery asked hasked g (hgrantee.trans hg) hne⟩
      · have hid : row₀.id = row.id := Table.get_key hrow₀
        rw [← hid]
        exact hkept.undecided hopen

/-- **Presses and ticks at the same time.**  Every row is kept, what is sent is sent for a row
the press read open, a settled row stays; and each press accounts for its rows. -/
theorem share_presses (h : Pool.Traced ShareWorld limit (presses.map Press.prog) t₀ pl t trace) :
    AllKept t₀ trace t ∧
    (∀ past k row shareWith a rest,
      trace = past ++ (k, .call (.createShare row shareWith) a) :: rest →
      Sent presses past k row shareWith) ∧
    (∀ past rest, trace = past ++ rest → ∃ pl₁ t₁,
      Pool.Traced ShareWorld limit (presses.map Press.prog) t₀ pl₁ t₁ past ∧
      ∀ id row, t₁.get id = some row → row.isOpen = false → t.get id = some row) ∧
    (∀ deps, (applyAllOpenShareGrants deps).Always (MayCall (.all deps))
      (fun h r => ∀ answer, r = .ok answer → AllDone deps h answer) []) ∧
    ∀ localeCompare deps confirmed parentKey,
      (applyShareGrantsInFolder localeCompare deps confirmed parentKey).Always
        (MayCall (.folder localeCompare deps confirmed parentKey))
        (fun h r => ∀ answer, r = .ok answer → FolderDone localeCompare deps parentKey h answer) [] := by
  refine ⟨traced_kept h, ?_, ?_, always_applyAll, always_folder⟩
  · intro past k row shareWith a rest heq
    exact sent_of_traced h heq
  · intro past rest heq
    exact settled_stays h heq

/-! ### Two presses of one row -/

/-- The row whose share the target answered that it created. -/
def creates : ShareEvent → Option Text
  | .call (.createShare row _) (.ok .created) => some row.id
  | _ => none

/-- A file shared with one person, to be applied. -/
def annasRow : ShareGrantRow where
  id := ['1']
  subject := ['d', 'r', 'i', 'v', 'e', '_', 'i', 't', 'e', 'm']
  onLabel := ['A']
  grantee := some ['a', 'n', 'n', 'a']
  role := ['r', 'e', 'a', 'd', 'e', 'r']

def annasDb : ShareDb := ⟨[annasRow], List.nodup_singleton _⟩

def pressAnnas : Press := .one ⟨"owner", fun _ => true, true⟩ ['1'] none

/-- Both presses list the row, and then both ask for its share. -/
def overlapping : List ShareLabel :=
  [(0, .call .listShareGrants (.ok [annasRow])), (1, .call .listShareGrants (.ok [annasRow])),
    (0, .call (.createShare annasRow none) (.ok .created)),
    (1, .call (.createShare annasRow none) (.ok .created))]

theorem presses_overlap : ∃ pl, Pool.Traced ShareWorld 2 ([pressAnnas, pressAnnas].map Press.prog)
    annasDb pl annasDb overlapping := by
  have hlisted : ShareWorld annasDb .listShareGrants (.ok [annasRow]) annasDb :=
    .listed (List.Perm.refl _)
  have hasked : ShareWorld annasDb (.createShare annasRow none) (.ok .created) annasDb :=
    .asked .created
  have h₁ : Pool.Traced ShareWorld 2 ([pressAnnas, pressAnnas].map Press.prog) annasDb
      ⟨[pressAnnas.prog], [⟨pressAnnas.prog, []⟩], none⟩ annasDb [] :=
    .start .refl (.start (by decide))
  have h₂ : Pool.Traced ShareWorld 2 ([pressAnnas, pressAnnas].map Press.prog) annasDb
      ⟨[], [⟨pressAnnas.prog, []⟩, ⟨pressAnnas.prog, []⟩], none⟩ annasDb [] :=
    .start h₁ (.start (by decide))
  have h₃ := h₂.task (@Pool.Step.task ShareDb ShareOp ShareOp.Ans String ShareWorld 2 [] []
    pressAnnas.prog [] [⟨pressAnnas.prog, []⟩] none annasDb _ _ _ (.call _ hlisted))
  have h₄ := h₃.task (@Pool.Step.task ShareDb ShareOp ShareOp.Ans String ShareWorld 2 [] [_]
    pressAnnas.prog [] [] none annasDb _ _ _ (.call _ hlisted))
  have h₅ := h₄.task (@Pool.Step.task ShareDb ShareOp ShareOp.Ans String ShareWorld 2 [] []
    _ _ [_] none annasDb _ _ _ (.call _ hasked))
  have h₆ := h₅.task (@Pool.Step.task ShareDb ShareOp ShareOp.Ans String ShareWorld 2 [] [_]
    _ _ [] none annasDb _ _ _ (.call _ hasked))
  exact ⟨_, h₆⟩

/-- **One row's share is created twice.** -/
theorem presses_create_twice : ∃ pl t trace,
    Pool.Traced ShareWorld 2 ([pressAnnas, pressAnnas].map Press.prog) annasDb pl t trace ∧
    (trace.filter fun l => creates l.2 = some annasRow.id).length = 2 := by
  obtain ⟨pl, h⟩ := presses_overlap
  exact ⟨pl, annasDb, overlapping, h, by decide⟩

/-- The second request, too, was for a row its press had read open. -/
theorem overlap_sent : Sent [pressAnnas, pressAnnas] (overlapping.take 3) 1 annasRow none := by
  obtain ⟨pl, h⟩ := presses_overlap
  exact (share_presses h).2.1 (overlapping.take 3) 1 annasRow none (.ok .created) [] rfl

end Ownpace.Sharing
