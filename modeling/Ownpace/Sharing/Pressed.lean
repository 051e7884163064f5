/-
Ownpace/Sharing/Pressed.lean

What a press does on its own path, whatever every call answers.

`MayCall` says of each call of a press what its path must be: the target is asked only
right after a list that shows the row open, and a row is settled as applied only right
after the target created its share.  The programs are walked once each, and what a
press answers is accounted for by its path (`always_applyAll`, `always_folder`).
-/
import Ownpace.Sharing.Grouped
import Ownpace.Sharing.Press

namespace Ownpace.Sharing

open Await Calendar Store

/-! ### What has happened -/

/-- Did the target answer with its limit? -/
def isLimited : ShareEvent → Bool
  | .call (.createShare ..) (.ok (.refused _ _ limited _)) => limited.isSome
  | _ => false

/-- Was the target asked for a share? -/
def isAsked : ShareEvent → Bool
  | .call (.createShare ..) _ => true
  | _ => false

/-- The row a decision settled. -/
def settles : ShareEvent → Option Text
  | .call (.decideShareGrant grantId _) (.ok (some _)) => some grantId
  | _ => none

/-- The rows settled, in order. -/
def settledIds (h : List ShareEvent) : List Text := h.filterMap settles

theorem settledIds_concat (h : List ShareEvent) (e : ShareEvent) :
    settledIds (h ++ [e]) = settledIds h ++ (settles e).toList := by
  rw [settledIds, List.filterMap_append, settledIds]
  cases hs : settles e with
  | none => rw [List.filterMap_cons_none hs, List.filterMap_nil]; rfl
  | some id => rw [List.filterMap_cons_some hs, List.filterMap_nil]; rfl

/-- No call met the limit. -/
def Unlimited (h : List ShareEvent) : Prop := ∀ e ∈ h, isLimited e = false

theorem Unlimited.concat {h : List ShareEvent} {e : ShareEvent} (hh : Unlimited h)
    (he : isLimited e = false) : Unlimited (h ++ [e]) := by
  intro e' he'
  rcases List.mem_append.mp he' with he' | he'
  · exact hh e' he'
  · rw [List.mem_singleton.mp he']
    exact he

/-! ### What a press may call -/

/-- The cutover gate of a press; a tick sends nothing. -/
def Press.isCutOver : Press → Text → Bool
  | one deps _ _ | all deps | folder _ deps _ _ => deps.isCutOver
  | doneManual .. | skip .. => fun _ => false

/-- A folder press's own list, its group, and that every person it would reach is confirmed. -/
structure Confirmed (localeCompare : Text → Text → Int) (confirmed : Text → Option Text)
    (parentKey : Text) (past : List ShareEvent) (candidates : List ShareGrantRow) : Prop where
  listed : ∃ rows group, past.head? = some (.call .listShareGrants (.ok rows)) ∧
    groupOfFolder localeCompare rows parentKey = some group ∧
    candidates = addressableOf (openInFolder rows group)
  every : ∀ row ∈ candidates, ∀ g, row.grantee = some g → g ≠ [] →
    confirmedFor confirmed g ≠ none

/-- Where a press sends a row. -/
def Press.Addressed (press : Press) (past : List ShareEvent) (grantId : Text)
    (shareWith : Option Text) : Prop :=
  match press with
  | one _ id address => grantId = id ∧ shareWith = address
  | all _ => shareWith = none
  | folder localeCompare _ confirmed parentKey => ∃ candidates asked,
      Confirmed localeCompare confirmed parentKey past candidates ∧ asked ∈ candidates ∧
      asked.id = grantId ∧ shareWith = addressIn confirmed asked
  | doneManual .. | skip .. => False

/-- What a tick settles a row as. -/
def Press.ticks : Press → Option RowState
  | doneManual .. => some .doneManual
  | skip .. => some .skipped
  | one .. | all _ | folder .. => none

/-- **What a press may call**, and when. -/
inductive MayCall (press : Press) (past : List ShareEvent) : ShareEvent → Prop
  | list (a) : MayCall press past (.call .listShareGrants a)
  | ask {before rows row shareWith} (a) :
      past = before ++ [.call .listShareGrants (.ok rows)] → row ∈ rows → row.isOpen = true →
      row.addressable = true → press.isCutOver row.subject = true →
      press.Addressed past row.id shareWith → Unlimited past →
      MayCall press past (.call (.createShare row shareWith) a)
  | apply {before row shareWith d} (a) :
      past = before ++ [.call (.createShare row shareWith) (.ok .created)] → d.state = .applied →
      MayCall press past (.call (.decideShareGrant row.id d) a)
  | tick {grantId d} (a) : press.ticks = some d.state →
      MayCall press past (.call (.decideShareGrant grantId d) a)
  | record {actor event} (a) : MayCall press past (.call (.recordAuditEvent actor event) a)

/-! ### One call -/

section Walk

variable {press : Press} {past : List ShareEvent} {o : ShareOp}

theorem always_ask (hmay : ∀ a, MayCall press past (.call o a)) :
    (ask o).Always (MayCall press) (fun h r => h = past ++ [.call o r]) past := by
  intro a
  refine ⟨hmay a, ?_⟩
  cases a with
  | ok reply => exact Prog.always_ret.mpr rfl
  | error message => exact Prog.always_throw.mpr rfl

theorem always_tryAsk (hmay : ∀ a, MayCall press past (.call o a)) :
    (tryAsk o).Always (MayCall press) (fun h r => ∃ a, r = .ok a ∧ h = past ++ [.call o a]) past := by
  rw [tryAsk, Prog.always_attempt]
  exact (always_ask hmay).mono fun h r _ hr => ⟨r, rfl, hr⟩

/-! ### One row -/

/-- How a row was looked for: the list, and what it shows. -/
structure Found (grantId : Text) (past h : List ShareEvent) (r : Except ActionRefusal ShareGrantRow) :
    Prop where
  listed : ∃ rows, h = past ++ [.call .listShareGrants (.ok rows)] ∧
    ∀ row, r = .ok row → row ∈ rows ∧ row.id = grantId ∧ row.isOpen = true
  refused : ∀ refusal, r = .error refusal → refusal.code ≠ .targetLimited

theorem always_findOpenRow (grantId : Text) :
    (findOpenRow grantId).Always (MayCall press)
      (fun h r => ∀ found, r = .ok found → Found grantId past h found) past := by
  apply (always_ask fun a => .list a).andThen
  · intro h rows _ hh
    cases hrow : rows.find? (fun row => row.id = grantId) with
    | none =>
        dsimp only
        rintro _ ⟨⟩
        refine ⟨⟨rows, hh, fun row hr => by cases hr⟩, ?_⟩
        rintro _ ⟨⟩
        decide
    | some row =>
        dsimp only
        have hid : row.id = grantId := by simpa using List.find?_some hrow
        cases hopen : row.isOpen with
        | true =>
            rw [if_pos rfl]
            rintro _ ⟨⟩
            refine ⟨⟨rows, hh, ?_⟩, fun refusal hr => by cases hr⟩
            rintro _ ⟨⟩
            exact ⟨List.mem_of_find?_eq_some hrow, hid, hopen⟩
        | false =>
            rw [if_neg (by decide)]
            rintro _ ⟨⟩
            refine ⟨⟨rows, hh, fun row hr => by cases hr⟩, ?_⟩
            rintro _ ⟨⟩
            simp
  · intro h message _ _ found hfound
    cases hfound

/-- What became of one row: it was settled by this press, or it was not; and if the
target was at its limit the press knows. -/
structure Became (grantId : Text) (past h : List ShareEvent) (r : ShareActionOutcome grantId) :
    Prop where
  applied : ∀ settled, r = .ok settled → settledIds h = settledIds past ++ [grantId] ∧ Unlimited h
  refused : ∀ refusal, r = .error refusal → settledIds h = settledIds past ∧
    (refusal.code ≠ .targetLimited → Unlimited h)

theorem Unlimited.asked {row : ShareGrantRow} {shareWith : Option Text} {created : Except String ShareAnswer}
    (hpast : Unlimited past) (h : ∀ reason reasonNl limited refusedAs,
      answered created = .refused reason reasonNl (some limited) refusedAs → False) :
    Unlimited (past ++ [.call (.createShare row shareWith) created]) := by
  apply hpast.concat
  cases created with
  | error message => rfl
  | ok answer =>
      cases answer with
      | created => rfl
      | refused reason reasonNl limited refusedAs =>
          cases limited with
          | none => rfl
          | some limited => exact (h reason reasonNl limited refusedAs rfl).elim

theorem always_audit {decidedBy action : String} {row : ShareGrantRow} {sentTo : Option Text} :
    (audit decidedBy action row sentTo).Always (MayCall press)
      (fun h r => r = .ok () ∧ settledIds h = settledIds past ∧ (Unlimited past → Unlimited h)) past := by
  apply (always_tryAsk fun a => .record a).andThen
  · rintro h _ _ ⟨a, -, rfl⟩
    refine ⟨rfl, ?_, fun hpast => hpast.concat rfl⟩
    rw [settledIds_concat]
    exact List.append_nil _
  · rintro h _ _ ⟨a, ha, -⟩
    cases ha

/-- What passes the gates may be created, and is cut over. -/
theorem passes_of_gate {deps : ApplyShareDeps} {row : ShareGrantRow}
    (h : gateRefusal deps row = none) :
    row.addressable = true ∧ deps.isCutOver row.subject = true := by
  rw [gateRefusal] at h
  split at h
  · cases h
  · rename_i hlink
    split at h
    · cases h
    · rename_i hverdict
      split at h
      · cases h
      · rename_i hcut
        rw [Bool.not_eq_true] at hlink
        rw [not_not] at hverdict
        rw [Bool.not_eq_true, Bool.not_eq_false'] at hcut
        refine ⟨?_, hcut⟩
        rw [ShareGrantRow.addressable, hlink, hverdict]
        rfl

theorem always_applyShareGrant {deps : ApplyShareDeps} {grantId : Text} {shareWith : Option Text}
    (hpast : Unlimited past)
    (hcut : ∀ subject, deps.isCutOver subject = true → press.isCutOver subject = true)
    (haddressed : ∀ h, past <+: h → press.Addressed h grantId shareWith) :
    (applyShareGrant deps grantId shareWith).Always (MayCall press)
      (fun h r => ∀ outcome, r = .ok outcome → Became grantId past h outcome) past := by
  apply (always_findOpenRow grantId).andThen
  · intro h found hpre hfound
    obtain ⟨⟨rows, rfl, hrow⟩, hrefused⟩ := hfound found rfl
    have hsettled : settledIds (past ++ [.call .listShareGrants (.ok rows)]) = settledIds past := by
      rw [settledIds_concat]
      exact List.append_nil _
    have hlisted : Unlimited (past ++ [.call .listShareGrants (.ok rows)]) := hpast.concat rfl
    cases found with
    | error refusal =>
        rintro _ ⟨⟩
        refine ⟨by rintro _ ⟨⟩, ?_⟩
        rintro _ ⟨⟩
        exact ⟨hsettled, fun _ => hlisted⟩
    | ok row =>
        obtain ⟨hmem, rfl, hopen⟩ := hrow row rfl
        dsimp only
        cases hgate : gateRefusal deps row with
        | some refusal =>
            rintro _ ⟨⟩
            refine ⟨by rintro _ ⟨⟩, ?_⟩
            rintro _ ⟨⟩
            exact ⟨hsettled, fun _ => hlisted⟩
        | none =>
            have hpasses := passes_of_gate hgate
            dsimp only
            apply (always_tryAsk fun a => .ask a rfl hmem hopen hpasses.1 (hcut _ hpasses.2)
              (haddressed _ hpre) hlisted).andThen
            · rintro h created hpre' ⟨a, ha, rfl⟩
              cases ha
              have hasked : settledIds (past ++ [.call .listShareGrants (.ok rows)] ++
                  [.call (.createShare row shareWith) created]) = settledIds past := by
                rw [settledIds_concat, hsettled]
                exact List.append_nil _
              cases hanswered : answered created with
              | refused reason reasonNl limited refusedAs =>
                  cases limited with
                  | some limited =>
                      rintro _ ⟨⟩
                      refine ⟨by rintro _ ⟨⟩, ?_⟩
                      rintro _ ⟨⟩
                      exact ⟨hasked, fun hcode => absurd rfl hcode⟩
                  | none =>
                      rintro _ ⟨⟩
                      refine ⟨by rintro _ ⟨⟩, ?_⟩
                      rintro _ ⟨⟩
                      refine ⟨hasked, fun _ => hlisted.asked ?_⟩
                      intro reason reasonNl limited refusedAs h
                      rw [hanswered] at h
                      cases h
              | created =>
                  have hcreated : created = .ok .created := by
                    cases created with
                    | error message => cases hanswered
                    | ok answer => rw [← hanswered]; rfl
                  subst hcreated
                  have hunlimited : Unlimited (past ++ [.call .listShareGrants (.ok rows)] ++
                      [.call (.createShare row shareWith) (.ok .created)]) := hlisted.concat rfl
                  dsimp only
                  apply (always_ask fun a => .apply a rfl rfl).andThen
                  · rintro h settled hpre'' rfl
                    cases settled with
                    | none =>
                        rintro _ ⟨⟩
                        refine ⟨by rintro _ ⟨⟩, ?_⟩
                        rintro _ ⟨⟩
                        refine ⟨?_, fun _ => hunlimited.concat rfl⟩
                        rw [settledIds_concat, hasked]
                        exact List.append_nil _
                    | some settled =>
                        dsimp only
                        apply always_audit.andThen
                        · rintro h _ _ ⟨-, hids, hlimit⟩ outcome houtcome
                          cases houtcome
                          refine ⟨?_, by rintro _ ⟨⟩⟩
                          rintro _ ⟨⟩
                          refine ⟨?_, hlimit (hunlimited.concat rfl)⟩
                          rw [hids, settledIds_concat, hasked]
                          rfl
                        · rintro h _ _ ⟨hok, -⟩
                          cases hok
                  · intro h message _ _ outcome houtcome
                    cases houtcome
            · rintro h _ _ ⟨a, ha, -⟩
              cases ha
  · intro h message _ _ outcome houtcome
    cases houtcome

/-! ### Every row -/

/-- What a press made of its rows: each was applied, refused or left waiting, and those
applied are those it settled. -/
structure PressedAll (rows : List ShareGrantRow) (before : Pressed) (h : List ShareEvent)
    (after : Pressed) : Prop where
  settled : settledIds h = after.applied.map ShareGrantRow.id
  split : (after.applied.map ShareGrantRow.id ++ after.refused.map (fun r => r.id) ++
    after.waitingForLimit.map ShareRowWaiting.id).Perm
    (before.applied.map ShareGrantRow.id ++ before.refused.map (fun r => r.id) ++
      rows.map ShareGrantRow.id)
  limit : after.limit.isSome = true ↔ after.waitingForLimit ≠ []

theorem always_pressRows {deps : ApplyShareDeps} {addressFor : ShareGrantRow → Option Text}
    {rows : List ShareGrantRow} {pressed : Pressed} {before : BeforeLimit}
    (hpast : Unlimited past) (hsettled : settledIds past = pressed.applied.map ShareGrantRow.id)
    (hwaiting : pressed.waitingForLimit = []) (hlimit : pressed.limit = none)
    (hcut : ∀ subject, deps.isCutOver subject = true → press.isCutOver subject = true)
    (haddressed : ∀ h, past <+: h → ∀ row ∈ rows, press.Addressed h row.id (addressFor row)) :
    (pressRows deps addressFor rows pressed before).Always (MayCall press)
      (fun h r => ∀ after, r = .ok after → PressedAll rows pressed h after) past := by
  induction rows generalizing pressed before past with
  | nil =>
      rintro _ ⟨⟩
      refine ⟨hsettled, ?_, ?_⟩
      · rw [hwaiting]
        simp
      · rw [hwaiting, hlimit]
        simp
  | cons row rows ih =>
      apply (always_applyShareGrant hpast hcut
        fun h hh => haddressed h hh row List.mem_cons_self).andThen
      · intro h outcome hpre hbecame
        have hrest (h' : List ShareEvent) (hh' : h <+: h') (row' : ShareGrantRow)
            (hrow' : row' ∈ rows) : press.Addressed h' row'.id (addressFor row') :=
          haddressed h' (hpre.trans hh') row' (List.mem_cons_of_mem _ hrow')
        cases outcome with
        | ok settled =>
            obtain ⟨hids, hunlimited⟩ := (hbecame _ rfl).applied settled rfl
            have hids : settledIds h =
                (pressed.applied ++ [settled.1]).map ShareGrantRow.id := by
              rw [hids, hsettled, List.map_append, List.map_singleton, settled.2]
            dsimp only
            apply (@ih h { pressed with applied := pressed.applied ++ [settled.1] } before hunlimited
              hids hwaiting hlimit hrest).mono
            intro h' r _ hdone after hafter
            obtain ⟨hs, hsplit, hl⟩ := hdone after hafter
            refine ⟨hs, hsplit.trans ?_, hl⟩
            rw [List.map_append, List.map_singleton, settled.2, List.map_cons, List.append_assoc,
              List.append_assoc, List.append_assoc]
            apply List.Perm.append_left
            show (row.id :: (pressed.refused.map (fun r => r.id) ++ rows.map ShareGrantRow.id)).Perm _
            exact List.perm_middle.symm
        | error r =>
            obtain ⟨hids, hunlimited⟩ := (hbecame _ rfl).refused r rfl
            dsimp only
            by_cases hcode : r.code = .targetLimited
            · rw [if_pos hcode]
              rintro _ ⟨⟩
              refine ⟨hids.trans hsettled, ?_, ?_⟩
              · apply List.Perm.of_eq
                congr 1
                show ((row :: rows).map ShareGrantRow.waiting).map ShareRowWaiting.id = _
                rw [List.map_map]
                rfl
              · simp
            · rw [if_neg hcode]
              apply (@ih h { pressed with refused := pressed.refused ++
                [{ row.waiting with code := r.code, reason := r.reason, reasonNl := r.reasonNl }] }
                (before.note r) (hunlimited hcode) (hids.trans hsettled) hwaiting hlimit hrest).mono
              intro h' r' _ hdone after hafter
              obtain ⟨hs, hsplit, hl⟩ := hdone after hafter
              refine ⟨hs, hsplit.trans ?_, hl⟩
              rw [List.map_append, List.map_cons (l := rows), List.append_assoc, List.append_assoc,
                List.append_assoc]
              exact List.Perm.refl _
      · intro h message _ _ after hafter
        cases hafter

/-! ### The presses -/

/-- **The account of a press**: of the open rows it reached, each is a link, a manual one,
one that waits for its cutover, applied, refused or waiting for the limit, and no two of
these; the applied ones are those this press settled. -/
structure Accounts (opened : List ShareGrantRow) (isCutOver : Text → Bool) (h : List ShareEvent)
    (o : ApplyAllOutcome) : Prop where
  split : ((linksOf opened).map ShareGrantRow.id ++ (manualOf opened).map ShareGrantRow.id ++
    ((addressableOf opened).filter fun row => !isCutOver row.subject).map ShareGrantRow.id ++
    (o.applied.map ShareGrantRow.id ++ o.refused.map (fun r => r.id) ++
      o.waitingForLimit.map ShareRowWaiting.id)).Perm (opened.map ShareGrantRow.id)
  links : o.leftForChecklist.links = (linksOf opened).length
  manual : o.leftForChecklist.manual = (manualOf opened).length
  waitingForCutover : o.waitingForCutover =
    ((addressableOf opened).filter fun row => !isCutOver row.subject).length
  applied : settledIds h = o.applied.map ShareGrantRow.id
  limit : o.limit.isSome = true ↔ o.waitingForLimit ≠ []

/-- Links, manual rows, rows not cut over and the rest are all open rows. -/
theorem split_opened (opened : List ShareGrantRow) (isCutOver : Text → Bool) :
    (linksOf opened ++ manualOf opened ++
      (addressableOf opened).filter (fun row => !isCutOver row.subject) ++
      (addressableOf opened).filter fun row => isCutOver row.subject).Perm opened := by
  have hcut := List.filter_append_perm (fun row => !isCutOver row.subject) (addressableOf opened)
  have hplain : (manualOf opened ++ addressableOf opened).Perm
      (opened.filter fun row => !row.viaLink) := by
    have h := List.filter_append_perm (fun row => decide (row.verdict ≠ .clean))
      (opened.filter fun row => !row.viaLink)
    rw [List.filter_filter, List.filter_filter] at h
    have hmanual : (opened.filter fun row => decide (row.verdict ≠ .clean) && !row.viaLink) =
        manualOf opened := by
      apply List.filter_congr
      intro row _
      rw [Bool.and_comm]
    have haddressable : (opened.filter fun row => !decide (row.verdict ≠ .clean) && !row.viaLink) =
        addressableOf opened := by
      apply List.filter_congr
      intro row _
      rw [ShareGrantRow.addressable, Bool.and_comm]
      simp
    rwa [hmanual, haddressable] at h
  have hlinks := List.filter_append_perm ShareGrantRow.viaLink opened
  simp only [Bool.not_not] at hcut
  rw [List.append_assoc, List.append_assoc]
  exact ((List.Perm.append_left _ (hcut.append_left _)).trans (hplain.append_left _)).trans hlinks

theorem accounts_of_pressed {opened : List ShareGrantRow} {isCutOver : Text → Bool}
    {h h' : List ShareEvent} {pressed : Pressed}
    (hpressed : PressedAll ((addressableOf opened).filter fun row => isCutOver row.subject) {} h pressed)
    (hids : settledIds h' = settledIds h) :
    Accounts opened isCutOver h'
      { pressed with
        leftForChecklist := { links := (linksOf opened).length, manual := (manualOf opened).length }
        waitingForCutover :=
          ((addressableOf opened).filter fun row => !isCutOver row.subject).length } where
  split := by
    apply (List.Perm.append_left _ hpressed.split).trans
    have h := (split_opened opened isCutOver).map ShareGrantRow.id
    rwa [List.map_append, List.map_append, List.map_append] at h
  links := rfl
  manual := rfl
  waitingForCutover := rfl
  applied := hids.trans hpressed.settled
  limit := hpressed.limit

/-- What the one-go press answers. -/
structure AllDone (deps : ApplyShareDeps) (h : List ShareEvent) (r : Except NotCutOver ApplyAllOutcome) :
    Prop where
  listed : ∃ rows rest, h = .call .listShareGrants (.ok rows) :: rest ∧
    ∀ o, r = .ok o → Accounts (rows.filter ShareGrantRow.isOpen) deps.isCutOver h o
  refused : ∀ refusal, r = .error refusal → ∀ e ∈ h, isAsked e = false

theorem always_applyAll (deps : ApplyShareDeps) :
    (applyAllOpenShareGrants deps).Always (MayCall (.all deps))
      (fun h r => ∀ answer, r = .ok answer → AllDone deps h answer) [] := by
  apply (always_ask fun a => .list a).andThen
  · rintro h rows hpre rfl
    dsimp only
    split
    · rintro _ ⟨⟩
      refine ⟨⟨rows, [], rfl, fun o ho => by cases ho⟩, ?_⟩
      intro refusal _ e he
      rw [List.mem_singleton.mp he]
      rfl
    · have hunlimited : Unlimited [(.call .listShareGrants (.ok rows) : ShareEvent)] := by
        intro e he
        rw [List.mem_singleton.mp he]
        rfl
      apply (always_pressRows hunlimited rfl rfl rfl (fun _ hcut => hcut)
        fun h _ row _ => show (Press.all deps).Addressed h row.id none from rfl).andThen
      · intro h' pressed hpre' hpressed
        have hdone := hpressed pressed rfl
        apply (always_tryAsk fun a => .record a).andThen
        · rintro h'' _ hpre'' ⟨a, -, rfl⟩ answer ⟨⟩
          obtain ⟨rest, rfl⟩ := hpre'
          refine ⟨⟨rows, rest ++ [_], rfl, ?_⟩, fun refusal hr => by cases hr⟩
          rintro o ⟨⟩
          apply accounts_of_pressed hdone
          rw [settledIds_concat]
          exact List.append_nil _
        · rintro h'' message _ ⟨a, ha, -⟩
          cases ha
      · intro h' message _ _ answer hanswer
        cases hanswer
  · intro h message _ _ answer hanswer
    cases hanswer

/-- With nobody unconfirmed, everybody the rows would reach is confirmed. -/
theorem confirmed_of_none {confirmed : Text → Option Text} {candidates : List ShareGrantRow}
    (h : ¬ (sorted ((neededOf candidates).filter fun g => (confirmedFor confirmed g).isNone)).length > 0) :
    ∀ row ∈ candidates, ∀ g, row.grantee = some g → g ≠ [] → confirmedFor confirmed g ≠ none := by
  intro row hrow g hg hne hnone
  apply h
  apply List.length_pos_of_mem (a := g)
  rw [mem_sorted, List.mem_filter, neededOf, List.mem_eraseDups, List.mem_filterMap, hnone]
  refine ⟨⟨row, hrow, ?_⟩, rfl⟩
  rw [hg]
  exact if_neg hne

/-- With no row too early, every row is cut over. -/
theorem filters_of_none {isCutOver : Text → Bool} {candidates : List ShareGrantRow}
    (h : ¬ (candidates.filter fun row => !isCutOver row.subject).length > 0) :
    (candidates.filter fun row => isCutOver row.subject) = candidates ∧
      (candidates.filter fun row => !isCutOver row.subject) = [] := by
  have hnone : (candidates.filter fun row => !isCutOver row.subject) = [] :=
    List.length_eq_zero_iff.mp (Nat.eq_zero_of_not_pos h)
  refine ⟨List.filter_eq_self.mpr fun row hrow => ?_, hnone⟩
  have := List.filter_eq_nil_iff.mp hnone row hrow
  simpa using this

/-- What a folder press answers: its account is of the folder's own open rows. -/
structure FolderDone (localeCompare : Text → Text → Int) (deps : ApplyShareDeps)
    (parentKey : Text) (h : List ShareEvent) (r : Except FolderRefusal ApplyAllOutcome) : Prop where
  listed : ∃ rows rest, h = .call .listShareGrants (.ok rows) :: rest ∧
    ∀ o, r = .ok o → ∃ group, groupOfFolder localeCompare rows parentKey = some group ∧
      Accounts (openInFolder rows group) deps.isCutOver h o
  refused : ∀ refusal, r = .error refusal → ∀ e ∈ h, isAsked e = false

theorem always_folder (localeCompare : Text → Text → Int) (deps : ApplyShareDeps)
    (confirmed : Text → Option Text) (parentKey : Text) :
    (applyShareGrantsInFolder localeCompare deps confirmed parentKey).Always
      (MayCall (.folder localeCompare deps confirmed parentKey))
      (fun h r => ∀ answer, r = .ok answer → FolderDone localeCompare deps parentKey h answer) [] := by
  have hrefused (rows : List ShareGrantRow) (refusal : FolderRefusal) :
      FolderDone localeCompare deps parentKey [.call .listShareGrants (.ok rows)] (.error refusal) := by
    refine ⟨⟨rows, [], rfl, fun o ho => by cases ho⟩, ?_⟩
    intro _ _ e he
    rw [List.mem_singleton.mp he]
    rfl
  apply (always_ask fun a => .list a).andThen
  · rintro h rows hpre rfl
    cases hgroup : groupOfFolder localeCompare rows parentKey with
    | none =>
        rintro _ ⟨⟩
        exact hrefused rows _
    | some group =>
        dsimp only
        split
        · rintro _ ⟨⟩
          exact hrefused rows _
        · rename_i hearly
          split
          · rintro _ ⟨⟩
            exact hrefused rows _
          · rename_i hunconfirmed
            have hunlimited : Unlimited [(.call .listShareGrants (.ok rows) : ShareEvent)] := by
              intro e he
              rw [List.mem_singleton.mp he]
              rfl
            have hevery := confirmed_of_none hunconfirmed
            have haddressed (h : List ShareEvent) (hh : [.call .listShareGrants (.ok rows)] <+: h)
                (row : ShareGrantRow) (hrow : row ∈ addressableOf (openInFolder rows group)) :
                (Press.folder localeCompare deps confirmed parentKey).Addressed h row.id
                  (addressIn confirmed row) := by
              obtain ⟨rest, rfl⟩ := hh
              exact ⟨_, row, ⟨⟨rows, group, rfl, hgroup, rfl⟩, hevery⟩, hrow, rfl, rfl⟩
            apply (always_pressRows hunlimited rfl rfl rfl (fun _ hcut => hcut) haddressed).andThen
            · intro h' pressed hpre' hpressed
              have hdone := hpressed pressed rfl
              apply (always_tryAsk fun a => .record a).andThen
              · rintro h'' _ hpre'' ⟨a, -, rfl⟩ answer ⟨⟩
                obtain ⟨rest, rfl⟩ := hpre'
                refine ⟨⟨rows, rest ++ [_], rfl, ?_⟩, fun refusal hr => by cases hr⟩
                rintro o ⟨⟩
                refine ⟨group, hgroup, ?_⟩
                obtain ⟨hcut, hearly⟩ := filters_of_none hearly
                rw [← hcut] at hdone
                have hids (e : ShareEvent) (he : settles e = none) :
                    settledIds ([.call .listShareGrants (.ok rows)] ++ rest ++ [e]) =
                      settledIds ([.call .listShareGrants (.ok rows)] ++ rest) := by
                  rw [settledIds_concat, he]
                  exact List.append_nil _
                have haccounts := accounts_of_pressed hdone (hids (.call _ a) rfl)
                rw [hearly] at haccounts
                exact haccounts
              · rintro h'' message _ ⟨a, ha, -⟩
                cases ha
            · intro h' message _ _ answer hanswer
              cases hanswer
  · intro h message _ _ answer hanswer
    cases hanswer

theorem always_markShareGrant {decidedBy : String} {grantId : Text} {state : RowState}
    {reason : Option String} (hticks : press.ticks = some state) :
    (markShareGrant decidedBy grantId state reason).Always (MayCall press) (fun _ _ => True) past := by
  apply (always_findOpenRow grantId).andThen
  · intro h found _ _
    cases found with
    | error refusal => trivial
    | ok row =>
        apply (always_ask fun a => .tick a hticks).andThen
        · intro h settled _ _
          cases settled with
          | none => trivial
          | some settled =>
              apply always_audit.andThen
              · intro _ _ _ _
                trivial
              · intro _ _ _ _
                trivial
        · intro _ _ _ _
          trivial
  · intro _ _ _ _
    trivial

end Walk

/-- **A press calls what it may call.** -/
theorem always_prog (press : Press) : press.prog.Always (MayCall press) (fun _ _ => True) [] := by
  have hdone {α : Type} {p : Pressing α} {D : List ShareEvent → Except String α → Prop}
      (hp : p.Always (MayCall press) D []) :
      (p >>= fun _ => (pure () : Pressing Unit)).Always (MayCall press) (fun _ _ => True) [] :=
    hp.andThen (fun _ _ _ _ => trivial) fun _ _ _ _ => trivial
  cases press with
  | one deps grantId shareWith =>
      exact hdone (always_applyShareGrant (fun e he => absurd he List.not_mem_nil)
        (fun _ hcut => hcut) fun _ _ => ⟨rfl, rfl⟩)
  | all deps => exact hdone (always_applyAll deps)
  | folder localeCompare deps confirmed parentKey =>
      exact hdone (always_folder localeCompare deps confirmed parentKey)
  | doneManual decidedBy grantId reason => exact hdone (always_markShareGrant rfl)
  | skip decidedBy grantId reason => exact hdone (always_markShareGrant rfl)

end Ownpace.Sharing
