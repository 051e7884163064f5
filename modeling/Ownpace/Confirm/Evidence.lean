/-
Ownpace/Confirm/Evidence.lean

What a confirmation pass writes down, and on what evidence.

`facts` folds the calls made so far: what the target was asked about, what was
recorded, how the run row was closed, and whether a call failed the run, the budget
was seen empty or the organisation closed.  `MayCall` says of each call what must
have happened before it.  The program is walked once, function by function, with
`Open` for the time nothing has failed and `Broken` for what an error leaves.
-/
import Ownpace.Confirm.Pass

namespace Ownpace.Confirm

open Await

/-! ### What has happened -/

structure Facts where
  /-- The items `isPresent` was asked about, in order. -/
  asked : List String := []
  /-- The items an answer was recorded for. -/
  recorded : List String := []
  /-- The calls that close the run row. -/
  finished : List RunOutcome := []
  /-- A port failed whose failure ends the pass. -/
  failed : Bool := false
  empty : Bool := false
  closed : Bool := false

def Facts.add (f : Facts) : ConfirmEvent → Facts
  | .call (.isPresent item) _ => { f with asked := f.asked ++ [item.itemId] }
  | .call (.record itemId _) (.ok _) => { f with recorded := f.recorded ++ [itemId] }
  | .call (.finishRun outcome _) _ => { f with finished := f.finished ++ [outcome] }
  | .call .budgetState (.ok state) => if 0 < state.remainingBytes then f else { f with empty := true }
  | .call .organisationIsOpen (.ok isOpen) => if isOpen then f else { f with closed := true }
  | .call (.record ..) (.error _) | .call .budgetState (.error _) | .call .organisationIsOpen (.error _)
  | .call (.readerFor _) (.error _) | .call (.pull ..) (.error _) | .call (.close _) (.error _) =>
    { f with failed := true }
  | _ => f

def facts (h : List ConfirmEvent) : Facts := h.foldl Facts.add {}

theorem facts_concat (h : List ConfirmEvent) (e : ConfirmEvent) : facts (h ++ [e]) = (facts h).add e := by
  rw [facts, List.foldl_append]
  rfl

/-- How the run row is closed. -/
def Facts.outcome (f : Facts) : RunOutcome :=
  if f.failed then .failed else if f.closed then .cancelled else .succeeded

/-- What these calls say of an item. -/
def Evidence (h : List ConfirmEvent) (item : ConfirmableRow) : TargetAnswer → Prop
  | .unreachable => ∃ e, .call (.isPresent item) (.error e) ∈ h
  | .notOnTarget => .call (.isPresent item) (.ok false) ∈ h
  | .onTarget comparison => .call (.isPresent item) (.ok true) ∈ h ∧
    (comparison = .same → ∃ hash, .call (.hashOnTarget item) (.ok (some hash)) ∈ h ∧
      item.contentHash = some hash) ∧
    (comparison = .differ → ∃ hash contentHash, .call (.hashOnTarget item) (.ok (some hash)) ∈ h ∧
      item.contentHash = some contentHash ∧ versionOf hash = versionOf contentHash ∧ hash ≠ contentHash)

theorem Evidence.mono {h h' : List ConfirmEvent} {item : ConfirmableRow} {answer : TargetAnswer}
    (he : Evidence h item answer) (hsub : h ⊆ h') : Evidence h' item answer := by
  cases answer with
  | unreachable =>
      obtain ⟨e, he⟩ := he
      exact ⟨e, hsub he⟩
  | notOnTarget => exact hsub he
  | onTarget comparison =>
      obtain ⟨hpresent, hsame, hdiffer⟩ := he
      refine ⟨hsub hpresent, fun hc => ?_, fun hc => ?_⟩
      · obtain ⟨hash, hmem, heq⟩ := hsame hc
        exact ⟨hash, hsub hmem, heq⟩
      · obtain ⟨hash, contentHash, hmem, hrest⟩ := hdiffer hc
        exact ⟨hash, contentHash, hsub hmem, hrest⟩

/-- The answer is what the calls since the last record say of the item they ask about. -/
structure Said (h : List ConfirmEvent) (item : ConfirmableRow) (answer : TargetAnswer) : Prop where
  since : ∃ before heard, h = before ++ heard ∧ (facts before).asked = (facts before).recorded ∧
    (facts h).asked = (facts before).asked ++ [item.itemId] ∧
    (facts h).recorded = (facts before).recorded ∧ Evidence heard item answer

/-- Nothing has stopped the pass. -/
structure Facts.Going (f : Facts) : Prop where
  failed : f.failed = false
  empty : f.empty = false
  closed : f.closed = false
  finished : f.finished = []

/-- The counts a run row is closed with. -/
structure FinishStats.AddUp (stats : FinishStats) (f : Facts) : Prop where
  recorded : stats.recorded = f.recorded.length
  within : stats.recorded ≤ stats.itemsProcessed
  verified : ∀ n, stats.verified = some n → n ≤ stats.itemsProcessed
  states : ∀ counts, stats.byState = some counts → counts.sum = stats.itemsProcessed

/-- What must have happened before a call. -/
def MayCall (h : List ConfirmEvent) : ConfirmOp → Prop
  | .isPresent _ => (facts h).Going ∧ (facts h).asked = (facts h).recorded
  | .hashOnTarget _ => (facts h).Going
  | .record itemId answer => (facts h).Going ∧ ∃ item, item.itemId = itemId ∧ Said h item answer
  | .finishRun outcome stats => (facts h).finished = [] ∧ outcome = (facts h).outcome ∧
    stats.AddUp (facts h)
  | _ => True

def Justifies (h : List ConfirmEvent) : ConfirmEvent → Prop
  | .call o _ => MayCall h o
  | .sync .. => False

/-! ### While nothing has failed -/

/-- A call has failed the pass. -/
def Facts.fail (f : Facts) : Facts := { f with failed := true }

/-- The pass has this, and nothing has failed. -/
structure Open (f : Facts) (v : Counts) : Prop where
  settled : f.asked = f.recorded
  finished : f.finished = []
  failed : f.failed = false
  empty : f.empty = v.budgetPause.isSome
  closed : f.closed = v.stoppedBefore.isSome
  recorded : f.recorded.length = v.recorded
  within : v.recorded ≤ v.rows.length

/-- The pass had this when an error was thrown: at most the last item that was asked
about has no record. -/
structure Broken (f : Facts) (v : Counts) : Prop where
  asked : f.asked = f.recorded ∨ ∃ itemId, f.asked = f.recorded ++ [itemId]
  finished : f.finished = []
  failed : f.failed = true
  recorded : f.recorded.length = v.recorded
  within : v.recorded ≤ v.rows.length

/-- The end of a part of the pass. -/
def Stands (Q : α → List ConfirmEvent → Prop) (h : List ConfirmEvent) : Except Thrown α → Prop
  | .ok a => Q a h
  | .error thrown => Broken (facts h) thrown.2

/-- The pass takes the next row. -/
structure Reading (f : Facts) (v : Counts) : Prop extends Open f v where
  budget : v.budgetPause = none
  stopped : v.stoppedBefore = none

/-- The target was asked about an item, and there is no record of it yet. -/
structure Pending (h : List ConfirmEvent) (v : Counts) (item : ConfirmableRow) (answer : TargetAnswer) :
    Prop where
  since : ∃ before heard, h = before ++ heard ∧ Reading (facts before) v ∧
    facts h = { facts before with asked := (facts before).asked ++ [item.itemId] } ∧
    Evidence heard item answer

variable {args : ConfirmationArgs} {h h' : List ConfirmEvent} {f : Facts} {v v' : Counts}
variable {item : ConfirmableRow} {answer : TargetAnswer} {domain : DiscoveryDomain} {hashes : Bool}

theorem Open.fail (ho : Open f v) : Broken f.fail v :=
  ⟨.inl ho.settled, ho.finished, rfl, ho.recorded, ho.within⟩

theorem Broken.fail (hb : Broken f v) : Broken f.fail v :=
  ⟨hb.asked, hb.finished, rfl, hb.recorded, hb.within⟩

theorem Reading.going (hr : Reading f v) : f.Going where
  failed := hr.failed
  empty := by rw [hr.empty, hr.budget]; rfl
  closed := by rw [hr.closed, hr.stopped]; rfl
  finished := hr.finished

/-! ### The calls -/

section Calls

theorem always_ask {o : ConfirmOp} {D : List ConfirmEvent → Except Thrown o.Reply → Prop} :
    (ask v o).Always Justifies D h ↔
      (∀ a, MayCall h o ∧ D (h ++ [.call o (.ok a)]) (.ok a)) ∧
      ∀ e, MayCall h o ∧ D (h ++ [.call o (.error e)]) (.error (e, v)) :=
  Prog.always_awaitWith

theorem always_ask_bind {o : ConfirmOp} {k : o.Reply → Passing α}
    {D : List ConfirmEvent → Except Thrown α → Prop} :
    (ask v o >>= k).Always Justifies D h ↔
      (∀ a, MayCall h o ∧ (k a).Always Justifies D (h ++ [.call o (.ok a)])) ∧
      ∀ e, MayCall h o ∧ D (h ++ [.call o (.error e)]) (.error (e, v)) :=
  Prog.always_awaitWith_bind

theorem always_tryAsk_bind {o : ConfirmOp} {k : Except String o.Reply → Passing α}
    {D : List ConfirmEvent → Except Thrown α → Prop} :
    (tryAsk o >>= k).Always Justifies D h ↔
      ∀ a, MayCall h o ∧ (k a).Always Justifies D (h ++ [.call o a]) := by
  rw [Prog.bind_eq, Prog.always_bind, tryAsk, Prog.always_attempt, Prog.always_awaitWith]
  constructor
  · rintro ⟨hok, herr⟩ (e | a)
    · exact herr e
    · exact hok a
  · intro hall
    exact ⟨fun a => hall (.ok a), fun e => hall (.error e)⟩

/-- A throw in the body of a loop closes the stream; the pass was broken before. -/
theorem always_closing {p : Passing α} {Q : α → List ConfirmEvent → Prop}
    (hp : p.Always Justifies (Stands Q) h) : (closing domain p).Always Justifies (Stands Q) h := by
  rw [closing, Prog.bind_eq, Prog.always_bind, Prog.always_attempt]
  refine hp.mono fun h' r _ hr => ?_
  cases r with
  | ok a => exact hr
  | error thrown =>
      refine always_tryAsk_bind.mpr fun a => ⟨trivial, ?_⟩
      show Broken (facts _) thrown.2
      rw [facts_concat]
      cases a with
      | ok a => exact hr
      | error e => exact Broken.fail hr

/-- The budget is asked, and found empty or not. -/
theorem always_outOfBytes {spends : Bool} (hr : Reading (facts h) v) :
    (outOfBytes args spends v).Always Justifies (Stands fun spent h' => Open (facts h') spent.2 ∧
      spent.2.stoppedBefore = none ∧ (spent.1 = false → spent.2.budgetPause = none)) h := by
  unfold outOfBytes
  split
  · exact ⟨hr.toOpen, hr.stopped, fun _ => hr.budget⟩
  · split
    · refine always_ask_bind.mpr ⟨fun state => ⟨trivial, ?_⟩, fun e => ⟨trivial, ?_⟩⟩
      · split
        · next hleft =>
            show Open (facts _) v ∧ _
            rw [facts_concat, Facts.add, if_pos hleft]
            exact ⟨hr.toOpen, hr.stopped, fun _ => hr.budget⟩
        · next hleft =>
            show Open (facts _) _ ∧ _
            rw [facts_concat, Facts.add, if_neg hleft]
            refine ⟨⟨hr.settled, hr.finished, hr.failed, ?_, hr.closed, hr.recorded, hr.within⟩, hr.stopped, ?_⟩
            · rw [hr.budget]
              rfl
            · intro hno
              cases hno
      · show Broken (facts _) v
        rw [facts_concat]
        exact hr.fail
    · exact ⟨hr.toOpen, hr.stopped, fun _ => hr.budget⟩

/-- Is the row handed on?  If not, the organisation was seen closed. -/
theorem always_stillOpen {status : Option ItemStatus} (hr : Reading (facts h) v) :
    (stillOpen args status v).Always Justifies (Stands fun handedOn h' =>
      (handedOn = true → facts h' = facts h) ∧
        (handedOn = false → facts h' = { facts h with closed := true })) h := by
  unfold stillOpen
  split
  · refine always_ask.mpr ⟨fun isOpen => ⟨trivial, ?_⟩, fun e => ⟨trivial, ?_⟩⟩
    · show (_ → facts _ = facts h) ∧ (_ → facts _ = _)
      rw [facts_concat]
      cases isOpen with
      | true => exact ⟨fun _ => rfl, fun hno => by cases hno⟩
      | false => exact ⟨fun hno => (by cases hno), fun _ => rfl⟩
    · show Broken (facts _) v
      rw [facts_concat]
      exact hr.fail
  · exact ⟨fun _ => rfl, fun hno => by cases hno⟩

theorem comparisonOf_same {onTarget : Except String (Option Text)} {contentHash : Text}
    (h : comparisonOf onTarget contentHash = .same) : onTarget = .ok (some contentHash) := by
  unfold comparisonOf at h
  split at h
  · cases h
  · cases h
  · next hash =>
      split at h
      · split at h
        · next heq => rw [heq]
        · cases h
      · cases h

theorem comparisonOf_differ {onTarget : Except String (Option Text)} {contentHash : Text}
    (h : comparisonOf onTarget contentHash = .differ) :
    ∃ hash, onTarget = .ok (some hash) ∧ versionOf hash = versionOf contentHash ∧ hash ≠ contentHash := by
  unfold comparisonOf at h
  split at h
  · cases h
  · cases h
  · next hash =>
      split at h
      · next hversion =>
          split at h
          · cases h
          · next hne => exact ⟨hash, rfl, of_decide_eq_true hversion, hne⟩
      · cases h

/-- The target is asked about an item: it answers, and nothing is thrown. -/
theorem always_answerFor (hr : Reading (facts h) v) :
    (answerFor hashes item).Always Justifies (Stands fun answer h' => Pending h' v item answer) h := by
  have hgoing := hr.going
  have hasked (a : (ConfirmOp.isPresent item).Ans) : facts (h ++ [.call (.isPresent item) a]) =
      { facts h with asked := (facts h).asked ++ [item.itemId] } := facts_concat _ _
  unfold answerFor
  refine always_tryAsk_bind.mpr fun present => ⟨⟨hgoing, hr.settled⟩, ?_⟩
  -- what `isPresent` says, where no hash is asked for
  have hpending (answer : TargetAnswer) (he : Evidence [.call (.isPresent item) present] item answer) :
      Pending (h ++ [.call (.isPresent item) present]) v item answer :=
    ⟨h, [.call (.isPresent item) present], rfl, hr, hasked present, he⟩
  have hunavailable : present = .ok true →
      Evidence [.call (.isPresent item) present] item (.onTarget .unavailable) := by
    rintro rfl
    exact ⟨List.mem_singleton_self _, fun hno => (by cases hno), fun hno => by cases hno⟩
  split
  · exact hpending _ ⟨_, List.mem_singleton_self _⟩
  · exact hpending _ (List.mem_singleton_self _)
  · split
    · exact hpending _ (hunavailable rfl)
    · next contentHash hcontent =>
        split
        · refine always_tryAsk_bind.mpr fun onTarget => ⟨?_, ?_⟩
          · show (facts _).Going
            rw [hasked]
            exact ⟨hgoing.failed, hgoing.empty, hgoing.closed, hgoing.finished⟩
          · refine ⟨h, [.call (.isPresent item) (.ok true), .call (.hashOnTarget item) onTarget], by simp, hr, ?_, ?_⟩
            · rw [facts_concat, hasked]
              rfl
            · refine ⟨List.mem_cons_self, fun hsame => ?_, fun hdiffer => ?_⟩
              · exact ⟨contentHash, comparisonOf_same hsame ▸ List.mem_cons_of_mem _ (List.mem_singleton_self _), hcontent⟩
              · obtain ⟨hash, heq, hversion, hne⟩ := comparisonOf_differ hdiffer
                exact ⟨hash, contentHash, heq ▸ List.mem_cons_of_mem _ (List.mem_singleton_self _), hcontent, hversion, hne⟩
        · exact hpending _ (hunavailable rfl)

end Calls

/-! ### The pass -/

section Pass

/-- Sequencing, where an error ends both. -/
theorem Stands.andThen {p : Passing α} {k : α → Passing β} {Q : α → List ConfirmEvent → Prop}
    {Q' : β → List ConfirmEvent → Prop} (hp : p.Always Justifies (Stands Q) h)
    (hk : ∀ a h', Q a h' → (k a).Always Justifies (Stands Q') h') :
    (p >>= k).Always Justifies (Stands Q') h :=
  hp.andThen (fun h' a _ hq => hk a h' hq) fun _ _ _ hb => hb

/-- The finding of an item: the target was asked about it, or there was no need to. -/
def Found (v : Counts) (item : ConfirmableRow) (answer : TargetAnswer) (h : List ConfirmEvent) : Prop :=
  (needsTargetRead item.status = true ∧ Pending h v item answer) ∨
    (needsTargetRead item.status = false ∧ Reading (facts h) v)

theorem always_findingOf (hr : Reading (facts h) v) :
    (findingOf hashes item).Always Justifies (Stands (Found v item)) h := by
  unfold findingOf
  split
  · next hneeds =>
      refine (always_answerFor hr).mono fun h' r _ hr => ?_
      cases r with
      | ok answer => exact .inl ⟨hneeds, hr⟩
      | error thrown => exact hr
  · next hneeds => exact .inr ⟨Bool.eq_false_iff.mpr hneeds, hr⟩

/-- A progress note, whatever it answers, changes nothing. -/
theorem always_noteProgress :
    (noteProgress v).Always Justifies
      (Stands fun _ h' => ∃ notes, h' = h ++ notes ∧ facts h' = facts h) h := by
  unfold noteProgress
  split
  · refine always_tryAsk_bind.mpr fun a => ⟨trivial, ?_⟩
    exact ⟨_, rfl, facts_concat _ _⟩
  · exact ⟨[], (List.append_nil h).symm, rfl⟩

theorem Found.noted {notes : List ConfirmEvent} (hf : Found v item answer h)
    (hsame : facts (h ++ notes) = facts h) : Found v item answer (h ++ notes) := by
  rcases hf with ⟨hneeds, ⟨before, heard, rfl, hr, hfacts, he⟩⟩ | ⟨hneeds, hr⟩
  · refine .inl ⟨hneeds, before, heard ++ notes, List.append_assoc _ _ _, hr, hsame.trans hfacts, ?_⟩
    exact he.mono (List.subset_append_left _ _)
  · exact .inr ⟨hneeds, hsame ▸ hr⟩

/-- What was found is recorded, if the target was asked. -/
theorem always_recordFinding (hf : Found v item answer h) (row : ConfirmedRow) :
    (recordFinding item answer { v with rows := v.rows ++ [row] }).Always Justifies
      (Stands fun v' h' => Reading (facts h') v') h := by
  have hmore : v.rows.length + 1 = (v.rows ++ [row]).length := by
    rw [List.length_append, List.length_singleton]
  unfold recordFinding
  rcases hf with ⟨hneeds, ⟨before, heard, rfl, hr, hfacts, he⟩⟩ | ⟨hneeds, hr⟩
  · rw [if_pos hneeds]
    have hgoing := hr.going
    have hmay : MayCall (before ++ heard) (.record item.itemId answer) := by
      refine ⟨?_, item, rfl, before, heard, rfl, hr.settled, ?_, ?_, he⟩
      · rw [hfacts]
        exact ⟨hgoing.failed, hgoing.empty, hgoing.closed, hgoing.finished⟩
      · rw [hfacts]
      · rw [hfacts]
    refine always_ask_bind.mpr ⟨fun _ => ⟨hmay, ?_⟩, fun e => ⟨hmay, ?_⟩⟩
    · show Reading (facts _) _
      rw [facts_concat, hfacts]
      refine ⟨⟨?_, hr.finished, hr.failed, hr.empty, hr.closed, ?_, ?_⟩, hr.budget, hr.stopped⟩
      · show (facts before).asked ++ [_] = (facts before).recorded ++ [_]
        rw [hr.settled]
      · show ((facts before).recorded ++ [_]).length = v.recorded + 1
        rw [List.length_append, List.length_singleton, hr.recorded]
      · have hwithin := hr.within
        show v.recorded + 1 ≤ (v.rows ++ [row]).length
        omega
    · show Broken (facts _) _
      rw [facts_concat, hfacts]
      refine ⟨.inr ⟨item.itemId, ?_⟩, hr.finished, rfl, hr.recorded, ?_⟩
      · show (facts before).asked ++ [_] = _
        rw [hr.settled]
        rfl
      · have hwithin := hr.within
        show v.recorded ≤ (v.rows ++ [row]).length
        omega
  · rw [if_neg (by rw [hneeds]; exact Bool.false_ne_true)]
    refine ⟨⟨hr.settled, hr.finished, hr.failed, hr.empty, hr.closed, hr.recorded, ?_⟩, hr.budget, hr.stopped⟩
    have hwithin := hr.within
    show v.recorded ≤ (v.rows ++ [row]).length
    omega

/-- The body of the loop. -/
theorem always_settle (hf : Found v item answer h) :
    (settle args domain hashes item answer v).Always Justifies (Stands fun settled h' =>
      Open (facts h') settled.2 ∧ settled.2.stoppedBefore = none ∧
        (settled.1 = false → settled.2.budgetPause = none)) h := by
  unfold settle
  refine Stands.andThen always_noteProgress fun _ h' hnotes => ?_
  obtain ⟨notes, rfl, hsame⟩ := hnotes
  exact Stands.andThen (always_recordFinding (hf.noted hsame) _) fun v' h' hr => always_outOfBytes hr

/-- **The rows of one data type.** -/
theorem always_confirmRows {rows : List ConfirmableRow} (hr : Reading (facts h) v) :
    (confirmRows args domain hashes rows v).Always Justifies (Stands fun v' h' => Open (facts h') v') h := by
  induction rows generalizing h v with
  | nil =>
      refine always_ask_bind.mpr ⟨fun _ => ⟨trivial, ?_⟩, fun e => ⟨trivial, ?_⟩⟩
      · show Open (facts _) v
        rw [facts_concat]
        exact hr.toOpen
      · show Broken (facts _) v
        rw [facts_concat]
        exact hr.fail
  | cons row rows ih =>
      refine always_ask_bind.mpr ⟨fun _ => ⟨trivial, ?_⟩, fun e => ⟨trivial, ?_⟩⟩
      · have hpulled : facts (h ++ [.call (.pull domain (some row)) (.ok ())]) = facts h := facts_concat _ _
        refine Stands.andThen (always_closing (always_stillOpen (hpulled.symm ▸ hr))) fun handedOn h' hopen => ?_
        cases handedOn with
        | true =>
            have hsame : facts h' = facts h := (hopen.1 rfl).trans hpulled
            refine Stands.andThen (always_findingOf (hsame.symm ▸ hr)) fun answer h' hfound => ?_
            refine Stands.andThen (always_closing (always_settle hfound)) fun settled h' hsettled => ?_
            obtain ⟨hopen, hstopped, hbudget⟩ := hsettled
            cases hout : settled.1 with
            | true =>
                rw [if_pos rfl]
                refine always_ask_bind.mpr ⟨fun _ => ⟨trivial, ?_⟩, fun e => ⟨trivial, ?_⟩⟩
                · show Open (facts _) settled.2
                  rw [facts_concat]
                  exact hopen
                · show Broken (facts _) settled.2
                  rw [facts_concat]
                  exact hopen.fail
            | false =>
                rw [if_neg Bool.false_ne_true]
                exact ih ⟨hopen, hbudget hout, hstopped⟩
        | false =>
            have hclosed := (hopen.2 rfl).trans (congrArg (fun f : Facts => { f with closed := true }) hpulled)
            have hstop : Open (facts h') { v with stoppedBefore := some domain } := by
              rw [hclosed]
              exact ⟨hr.settled, hr.finished, hr.failed, hr.empty, rfl, hr.recorded, hr.within⟩
            refine always_ask_bind.mpr ⟨fun _ => ⟨trivial, ?_⟩, fun e => ⟨trivial, ?_⟩⟩
            · show Open (facts _) _
              rw [facts_concat]
              exact hstop
            · show Broken (facts _) _
              rw [facts_concat]
              exact hstop.fail
      · show Broken (facts _) v
        rw [facts_concat]
        exact hr.fail

/-- **All data types.** -/
theorem always_confirmDomains {domains : List (DiscoveryDomain × List ConfirmableRow)}
    (ho : Open (facts h) v) :
    (confirmDomains args domains v).Always Justifies (Stands fun v' h' => Open (facts h') v') h := by
  induction domains generalizing h v with
  | nil => exact ho
  | cons entry domains ih =>
      obtain ⟨domain, rows⟩ := entry
      rw [confirmDomains]
      split
      · exact ho
      · next hgo =>
          simp only [Bool.or_eq_true, Option.isSome_iff_ne_none, ne_eq, not_or, not_not] at hgo
          have hr : Reading (facts h) v := ⟨ho, hgo.1, hgo.2⟩
          refine always_ask_bind.mpr ⟨fun reader => ⟨trivial, ?_⟩, fun e => ⟨trivial, ?_⟩⟩
          · have hasked : facts (h ++ [.call (.readerFor domain) (.ok reader)]) = facts h := facts_concat _ _
            cases reader with
            | none => exact ih (hasked.symm ▸ ho)
            | some hashes =>
                refine Stands.andThen (always_outOfBytes (hasked.symm ▸ hr)) fun spent h' hspent => ?_
                obtain ⟨hopen, hstopped, hbudget⟩ := hspent
                cases hout : spent.1 with
                | true =>
                    rw [if_pos rfl]
                    exact hopen
                | false =>
                    rw [if_neg Bool.false_ne_true]
                    exact Stands.andThen (always_confirmRows ⟨hopen, hbudget hout, hstopped⟩) fun v' h' ho' => ih ho'
          · show Broken (facts _) v
            rw [facts_concat]
            exact hr.fail

/-- What a pass has done when it ends. -/
structure Ended (args : ConfirmationArgs) (h : List ConfirmEvent) (r : Except String ConfirmationRunResult) :
    Prop where
  /-- Unless there is no run, its row was closed once. -/
  closed_once : (∃ outcome, (facts h).finished = [outcome]) ∨
    ∃ e, h = [.call (.startRun args.trigger) (.error e)]
  /-- Where nothing failed, what the target was asked about was recorded. -/
  recorded : (facts h).failed = false → (facts h).asked = (facts h).recorded
  /-- Else the last item at most was not. -/
  last : (facts h).asked = (facts h).recorded ∨ ∃ itemId, (facts h).asked = (facts h).recorded ++ [itemId]
  result : ∀ result, r = .ok result → (facts h).failed = false ∧
    (ROW_STATES.map result.tally.byState).sum = result.tally.total ∧
    result.tally.verified ≤ result.tally.total ∧ result.recorded ≤ result.tally.total ∧
    result.recorded = (facts h).recorded.length

theorem always_concludeRun {runId : String} {finished : Except Thrown Counts}
    (hf : Stands (fun v h => Open (facts h) v) h finished) :
    (concludeRun runId finished).Always Justifies (Ended args) h := by
  cases finished with
  | error thrown =>
      have hb : Broken (facts h) thrown.2 := hf
      have hmay : MayCall h (.finishRun .failed (failedStats thrown)) := by
        refine ⟨hb.finished, ?_, hb.recorded.symm, hb.within, ?_, ?_⟩
        · rw [Facts.outcome, hb.failed]
          rfl
        · intro n hn
          cases hn
        · intro counts hcounts
          cases hcounts
      have hended (a : Except String Unit) (r : Except String ConfirmationRunResult)
          (hr : ∀ result, r ≠ .ok result) :
          Ended args (h ++ [.call (.finishRun .failed (failedStats thrown)) a]) r := by
        have hfacts : facts (h ++ [.call (.finishRun .failed (failedStats thrown)) a]) =
            { facts h with finished := (facts h).finished ++ [.failed] } := facts_concat _ _
        constructor
        · rw [hfacts, hb.finished]
          exact .inl ⟨_, rfl⟩
        · rw [hfacts]
          intro hno
          rw [hb.failed] at hno
          cases hno
        · rw [hfacts]
          exact hb.asked
        · intro result heq
          exact absurd heq (hr result)
      refine Prog.always_awaitWith_bind.mpr ⟨fun a => ⟨hmay, ?_⟩, fun e => ⟨hmay, ?_⟩⟩
      · exact hended _ _ fun _ h => by cases h
      · exact hended _ _ fun _ h => by cases h
  | ok v =>
      have ho : Open (facts h) v := hf
      obtain ⟨hadds, htotal⟩ := tally_spec v.rows
      have hrecorded : v.recorded ≤ (tally v.rows).total := htotal ▸ ho.within
      have hmay : MayCall h (.finishRun (if v.stoppedBefore.isSome then .cancelled else .succeeded)
          (finishedStats v)) := by
        refine ⟨ho.finished, ?_, ho.recorded.symm, hrecorded, ?_, ?_⟩
        · rw [Facts.outcome, ho.failed, ho.closed]
          rfl
        · rintro n ⟨⟩
          exact hadds.verified_le
        · rintro counts ⟨⟩
          exact hadds.states
      have hfacts (outcome : RunOutcome) (stats : FinishStats) (a : Except String Unit) :
          facts (h ++ [.call (.finishRun outcome stats) a]) =
            { facts h with finished := (facts h).finished ++ [outcome] } := facts_concat _ _
      refine Prog.always_awaitWith_bind.mpr ⟨fun a => ⟨hmay, ?_⟩, fun e => ⟨hmay, ?_⟩⟩
      · show Ended args _ _
        constructor
        · rw [hfacts, ho.finished]
          exact .inl ⟨_, rfl⟩
        · rw [hfacts]
          exact fun _ => ho.settled
        · rw [hfacts]
          exact .inl ho.settled
        · rintro result ⟨⟩
          rw [hfacts]
          exact ⟨ho.failed, hadds.states, hadds.verified_le, hrecorded, ho.recorded.symm⟩
      · show Ended args _ _
        constructor
        · rw [hfacts, ho.finished]
          exact .inl ⟨_, rfl⟩
        · rw [hfacts]
          exact fun _ => ho.settled
        · rw [hfacts]
          exact .inl ho.settled
        · intro result heq
          cases heq

theorem always_runConfirmationPass :
    (runConfirmationPass args).Always Justifies (Ended args) [] := by
  refine Prog.always_awaitWith_bind.mpr ⟨fun runId => ⟨trivial, ?_⟩, fun e => ⟨trivial, ?_⟩⟩
  · rw [Prog.bind_eq, Prog.always_bind, Prog.always_attempt]
    have hstart : Open (facts [.call (.startRun args.trigger) (.ok runId)]) {} :=
      ⟨rfl, rfl, rfl, rfl, rfl, rfl, Nat.le_refl _⟩
    exact (always_confirmDomains hstart).mono fun h' r _ hr => always_concludeRun hr
  · refine ⟨.inr ⟨e, rfl⟩, fun _ => rfl, .inl rfl, fun result heq => ?_⟩
    cases heq

end Pass

/-- **The evidence of a confirmation pass**, in every run of it, whatever its ports
answer: before every call what `MayCall` says, and at its end what `Ended` says. -/
theorem confirmation_evidence {R : Unit → Unit → Prop} {W : Unit → (o : ConfirmOp) → o.Ans → Unit → Prop}
    {args : ConfirmationArgs} {p : Prog Unit ConfirmOp ConfirmOp.Ans String ConfirmationRunResult}
    {h : List ConfirmEvent} (hrun : Prog.Run R W (runConfirmationPass args) () p h ()) :
    (∀ h₁ o a h₂, h = h₁ ++ .call o a :: h₂ → MayCall h₁ o) ∧
      ∀ r, p = Prog.outcome r → Ended args h r := by
  constructor
  · intro h₁ o a h₂ heq
    obtain ⟨p₁, s₁, p₂, s₂, hrun₁, hstep⟩ := hrun.split heq
    exact (hstep.always (hrun₁.always always_runConfirmationPass)).1
  · rintro r rfl
    have hend := hrun.always always_runConfirmationPass
    cases r with
    | ok result => exact hend
    | error e => exact hend

/-! ### A mailbox of one message -/

/-- Everybody answers, and the target holds what the ledger says. -/
def holdsAll : Unit → (o : ConfirmOp) → o.Ans × Unit
  | _, .startRun _ => (.ok "run", ())
  | _, .readerFor _ => (.ok (some true), ())
  | _, .budgetState => (.ok ⟨100, 0, 100, none⟩, ())
  | _, .organisationIsOpen => (.ok true, ())
  | _, .pull .. => (.ok (), ())
  | _, .close _ => (.ok (), ())
  | _, .isPresent _ => (.ok true, ())
  | _, .hashOnTarget item => (.ok item.contentHash, ())
  | _, .noteProgress _ => (.ok (), ())
  | _, .record .. => (.ok (), ())
  | _, .finishRun .. => (.ok (), ())

def Answers (s : Unit) (o : ConfirmOp) (a : o.Ans) (s' : Unit) : Prop := (a, s') = holdsAll s o

def oneMessage : ConfirmationArgs where
  meter := some "imap"
  asksOrganisation := true
  domains := [(.email, [⟨"item", "key", some .copied, some ['a', 'b']⟩])]

/-- The one message is asked about, and recorded. -/
theorem one_message_confirmed :
    ∃ result h, Prog.Run (fun _ _ => False) Answers (runConfirmationPass oneMessage) () (.ret result) h () ∧ result.recorded = 1 ∧
      (∀ h₁ o a h₂, h = h₁ ++ .call o a :: h₂ → MayCall h₁ o) ∧ Ended oneMessage h (.ok result) := by
  have hrecorded : ((runConfirmationPass oneMessage).eval holdsAll ()).1.toOption.any
      (fun result => result.recorded = 1) = true := by
    decide
  obtain ⟨h, hrun⟩ := @Prog.exists_run_eval _ _ _ _ _ Answers (fun _ _ => False) holdsAll
    (fun _ _ => rfl) (runConfirmationPass oneMessage) ()
  cases hresult : ((runConfirmationPass oneMessage).eval holdsAll ()).1 with
  | error e =>
      rw [hresult] at hrecorded
      cases hrecorded
  | ok result =>
      rw [hresult] at hrecorded hrun
      obtain ⟨hmay, hended⟩ := confirmation_evidence hrun
      exact ⟨result, h, hrun, of_decide_eq_true hrecorded, hmay, hended _ rfl⟩

end Ownpace.Confirm
