/-
Ownpace/Cutover/Ledgers.lean

What holds of the cutover ledgers over a whole run of calls to their store.

`Kept` is the invariant: no data type has a ledger of its own beside a whole
migration's that is under way, and every row reads back the grace period it was
saved with.  A call keeps it and does to the ledgers only what `StepOk` lists.
Both are for calls whose metadata names neither the state nor the length of the
grace period (`Call.Plain`): a transition writes the state its metadata names,
and resets the length it does not name.
-/
import Ownpace.Cutover.Store

namespace Ownpace.Cutover

open CutoverState

/-! ### What one transition does -/

theorem updateCutoverStatus_ok {now : Nat} {status updated : CutoverStatus}
    {newState : CutoverState} {reason : Option String}
    (h : updateCutoverStatus now status newState reason = .ok updated) :
    updated.state = newState ∧ updated.metadata = status.metadata ∧
      updated.gracePeriodStartedAt = status.gracePeriodStartedAt ∧
      updated.copiesThroughGrace = status.copiesThroughGrace ∧
      updated.targetMailServer = status.targetMailServer := by
  unfold updateCutoverStatus at h
  split at h
  · cases h
  · dsimp only at h
    split at h
    · cases h
      exact ⟨rfl, rfl, rfl, rfl, rfl⟩
    · split at h
      · cases h
        exact ⟨rfl, rfl, rfl, rfl, rfl⟩
      · cases h
        exact ⟨rfl, rfl, rfl, rfl, rfl⟩

/-- The metadata of a call, naming nothing where it gives none. -/
def MetadataOrReason.named (m : MetadataOrReason) : TransitionMetadata := m.given.getD {}

/-- The row a transition writes, as it follows from the status it started from. -/
structure Written (current : CutoverStatus) (toState : CutoverState) (m : TransitionMetadata)
    (row : CutoverRow) : Prop where
  state : row.state = m.state.getD toState
  gracePeriodStartedAt :
    row.gracePeriodStartedAt = m.gracePeriodStartedAt.or current.gracePeriodStartedAt
  copiesThroughGrace :
    row.copiesThroughGrace = decide (m.copiesThroughGrace.or current.copiesThroughGrace = some true)
  targetMailServer : row.targetMailServer = m.targetMailServer.or current.targetMailServer
  gracePeriodHours : row.gracePeriodHours =
    (((m.metadata.or current.metadata).map fun held => hoursOr72 held.gracePeriodDurationHours).getD 72)
  metadata : row.metadata.gracePeriodDurationHours = some 72

namespace CutoverLedgers

theorem transitionState_ok {s s' : CutoverLedgers} {now : Nat} {toState : CutoverState}
    {m : MetadataOrReason} {domain : Option DiscoveryDomain} {status : CutoverStatus}
    (h : s.transitionState now toState m domain = .ok (s', status)) :
    ∃ current row, s.loadCutoverState domain = some current ∧
      s.whoseLedgerMayMove current toState domain = none ∧
      isValidTransition current.state toState = true ∧
      s'.rows = Function.update s.rows domain (some row) ∧ Written current toState m.named row := by
  unfold transitionState at h
  split at h
  · cases h
  · next current hread =>
      split at h
      · cases h
      · next hmay =>
          split at h
          · cases h
          · next hvalid =>
              rw [Bool.not_eq_true, Bool.not_eq_false'] at hvalid
              dsimp only at h
              cases hup : updateCutoverStatus now current toState m.extractReason with
              | error e => rw [hup] at h; cases h
              | ok updated =>
                  rw [hup] at h
                  obtain ⟨hstate, hmeta, hstart, hcopies, hserver⟩ := updateCutoverStatus_ok hup
                  cases h
                  refine ⟨current, _, hread, hmay, hvalid, rfl, ?_⟩
                  cases hg : m.given with
                  | none =>
                      have hnamed : m.named = {} := by rw [MetadataOrReason.named, hg]; rfl
                      rw [hnamed]
                      refine ⟨hstate, hstart, ?_, hserver, ?_, rfl⟩
                      · rw [← hcopies]
                        exact decide_eq_decide.mpr Iff.rfl
                      · simp only [rowOf, extractGracePeriodHours, hmeta]
                        cases current.metadata <;> rfl
                  | some named =>
                      have hnamed : m.named = named := by rw [MetadataOrReason.named, hg]; rfl
                      rw [hnamed]
                      refine ⟨?_, ?_, ?_, ?_, ?_, rfl⟩
                      · simp [rowOf, assign, hstate]
                      · simp [rowOf, assign, hstart]
                      · simp [rowOf, assign, hcopies]
                      · simp [rowOf, assign, hserver]
                      · simp only [rowOf, extractGracePeriodHours, assign, hmeta]
                        cases named.metadata <;> cases current.metadata <;> rfl

/-- A data type that leaves the whole migration's ledger begins its own. -/
theorem begins_of_leaves {s : CutoverLedgers} {current : CutoverStatus} {toState : CutoverState}
    {d : DiscoveryDomain} (hdomain : current.domain = none)
    (hmay : s.whoseLedgerMayMove current toState (some d) = none) :
    current.state ∉ cutoverUnderWay ∧ toState = PREPARING := by
  unfold whoseLedgerMayMove at hmay
  rw [hdomain] at hmay
  exact (leavingTheWholeLedger_iff _ _).mp hmay

theorem initializeCutover_ok {s s' : CutoverLedgers} {now : Nat}
    {targetMailServer startedBy : Option String} {domain : Option DiscoveryDomain}
    {status : CutoverStatus}
    (h : s.initializeCutover now targetMailServer startedBy domain = .ok (s', status)) :
    s' = s ∨ (s.loadCutoverState domain = none ∧ cutoverBeginRefusal s.loadLedgers domain = none ∧
      ∃ row, s'.rows = Function.update s.rows domain (some row) ∧ row.state = PREPARING ∧
        row.gracePeriodHours = 72 ∧ row.metadata.gracePeriodDurationHours = some 72) := by
  unfold initializeCutover at h
  split at h
  · cases h
    exact .inl rfl
  · next hnone =>
      split at h
      · cases h
      · next hbegin =>
          cases h
          exact .inr ⟨hnone, hbegin, _, rfl, rfl, rfl, rfl⟩

theorem mem_loadLedgers {s : CutoverLedgers} {domain : Option DiscoveryDomain} {row : CutoverRow}
    (h : s.rows domain = some row) : ⟨domain, row.state⟩ ∈ s.loadLedgers := by
  unfold loadLedgers
  rw [List.mem_filterMap]
  refine ⟨domain, ?_, by rw [h]; rfl⟩
  cases domain with
  | none => exact List.mem_cons_self
  | some d => exact List.mem_cons_of_mem _ (List.mem_map_of_mem (mem_discoveryDomains d))

/-- The whole migration's cutover begins only where no data type has its own. -/
theorem no_own_of_begin {s : CutoverLedgers} (h : cutoverBeginRefusal s.loadLedgers none = none)
    (d : DiscoveryDomain) : s.rows (some d) = none := by
  rw [Option.eq_none_iff_forall_not_mem]
  intro row hrow
  have hdomain := (begin_whole_iff _).mp h _ (mem_loadLedgers hrow)
  cases hdomain

end CutoverLedgers

/-! ### Runs -/

/-- A call to the store of one migration. -/
inductive Call where
  | initializeCutover (targetMailServer startedBy : Option String)
      (domain : Option DiscoveryDomain)
  | transitionState (toState : CutoverState) (metadata : MetadataOrReason)
      (domain : Option DiscoveryDomain)
  | loadCutoverState (domain : Option DiscoveryDomain)

/-- The ledger a call is about. -/
def Call.domain : Call → Option DiscoveryDomain
  | initializeCutover _ _ domain => domain
  | transitionState _ _ domain => domain
  | loadCutoverState domain => domain

/-- The ledgers after a call: one that throws leaves them as they were. -/
def Call.run (s : CutoverLedgers) (now : Nat) : Call → CutoverLedgers
  | initializeCutover targetMailServer startedBy domain =>
    match s.initializeCutover now targetMailServer startedBy domain with
    | .ok (s', _) => s'
    | .error _ => s
  | transitionState toState metadata domain =>
    match s.transitionState now toState metadata domain with
    | .ok (s', _) => s'
    | .error _ => s
  | loadCutoverState _ => s

/-- The ledgers after calls, each at its own time. -/
def runCalls (s : CutoverLedgers) (calls : List (Nat × Call)) : CutoverLedgers :=
  calls.foldl (fun s c => c.2.run s c.1) s

theorem runCalls_append (s : CutoverLedgers) (calls later : List (Nat × Call)) :
    runCalls s (calls ++ later) = runCalls (runCalls s calls) later :=
  List.foldl_append

/-- Metadata that names neither the state nor the length of the grace period. -/
structure TransitionMetadata.Plain (m : TransitionMetadata) : Prop where
  state : m.state = none
  gracePeriodHours : m.gracePeriodHours = none
  metadata : ∀ held ∈ m.metadata, hoursOr72 held.gracePeriodDurationHours = 72

def Call.Plain : Call → Prop
  | transitionState _ metadata _ => metadata.named.Plain
  | _ => True

/-- A field a later gate reads. -/
inductive GateField where
  | gracePeriodStartedAt
  | gracePeriodHours
  | copiesThroughGrace
  | targetMailServer

/-- Two rows hold one value in a field. -/
def GateField.Same : GateField → CutoverRow → CutoverRow → Prop
  | gracePeriodStartedAt, row, row' => row'.gracePeriodStartedAt = row.gracePeriodStartedAt
  | gracePeriodHours, row, row' => row'.gracePeriodHours = row.gracePeriodHours
  | copiesThroughGrace, row, row' => row'.copiesThroughGrace = row.copiesThroughGrace
  | targetMailServer, row, row' => row'.targetMailServer = row.targetMailServer

/-- The metadata sets a field. -/
def TransitionMetadata.sets (m : TransitionMetadata) : GateField → Bool
  | .gracePeriodStartedAt => m.gracePeriodStartedAt.isSome
  | .gracePeriodHours => m.gracePeriodHours.isSome
  | .copiesThroughGrace => m.copiesThroughGrace.isSome
  | .targetMailServer => m.targetMailServer.isSome

/-- A call sets a field of a ledger. -/
def Call.Sets (f : GateField) (ledger : Option DiscoveryDomain) : Call → Prop
  | transitionState _ metadata domain => domain = ledger ∧ metadata.named.sets f = true
  | _ => False

theorem GateField.Same.refl (f : GateField) (row : CutoverRow) : f.Same row row := by
  cases f <;> rfl

theorem GateField.Same.trans {f : GateField} {r₁ r₂ r₃ : CutoverRow} (h₁ : f.Same r₁ r₂)
    (h₂ : f.Same r₂ r₃) : f.Same r₁ r₃ := by
  cases f <;> exact Eq.trans h₂ h₁

/-- What a call does to the ledgers. -/
structure StepOk (c : Call) (s s' : CutoverLedgers) : Prop where
  /-- A row stays, and its state moves along the transition table. -/
  along : ∀ ledger row, s.rows ledger = some row → ∃ row', s'.rows ledger = some row' ∧
    (row'.state = row.state ∨ isValidTransition row.state row'.state = true)
  /-- A new row is in PREPARING: the first state, or the next one of the ledger
  that was read where it was not there. -/
  begun : ∀ ledger row', s.rows ledger = none → s'.rows ledger = some row' →
    row'.state = PREPARING ∧
      ∀ whole, s.rows none = some whole → isValidTransition whole.state PREPARING = true
  /-- Only the ledger of the call changes. -/
  frame : ∀ ledger, ledger ≠ c.domain → s'.rows ledger = s.rows ledger
  /-- The whole migration's begins only where no data type has its own. -/
  wholeBegins : ∀ row', s'.rows none = some row' → row'.state = PREPARING →
    s'.rows none ≠ s.rows none → ∀ d, s.rows (some d) = none
  /-- A data type's own begins only where the whole migration's is not under way. -/
  ownBegins : ∀ d, s.rows (some d) = none → s'.rows (some d) ≠ none →
    ∀ whole, s.rows none = some whole → whole.state ∉ cutoverUnderWay
  /-- A field the call does not set stays, also in a data type's first own row. -/
  fields : ∀ f ledger row row', ¬ c.Sets f ledger → s'.rows ledger = some row' →
    (s.rows ledger = some row ∨ (s.rows ledger = none ∧ s.rows none = some row)) → f.Same row row'

theorem StepOk.refl (c : Call) (s : CutoverLedgers) : StepOk c s s where
  along _ row hrow := ⟨row, hrow, .inl rfl⟩
  begun _ _ hnone hrow := by rw [hnone] at hrow; cases hrow
  frame _ _ := rfl
  wholeBegins _ _ _ hne := absurd rfl hne
  ownBegins _ hnone hsome := absurd hnone hsome
  fields f _ row _ _ hrow' hrow := by
    rcases hrow with hrow | ⟨hnone, _⟩
    · rw [hrow] at hrow'
      cases hrow'
      exact .refl f row
    · rw [hnone] at hrow'
      cases hrow'

/-- The invariant: a whole migration's ledger is not under way beside a data
type's own, and a row reads back the 72 hours every save writes. -/
structure Kept (s : CutoverLedgers) : Prop where
  apart : ∀ d whole, s.rows (some d) ≠ none → s.rows none = some whole →
    whole.state = FAILED ∨ whole.state = ROLLED_BACK
  hours : ∀ ledger row, s.rows ledger = some row →
    row.gracePeriodHours = 72 ∧ row.metadata.gracePeriodDurationHours = some 72

theorem kept_empty : Kept .empty where
  apart _ _ h := absurd rfl h
  hours _ _ h := by cases h

/-- What a data type or the whole migration reads is a row: its own, or the
whole migration's. -/
theorem loadCutoverState_eq {s : CutoverLedgers} {domain : Option DiscoveryDomain}
    {current : CutoverStatus} (h : s.loadCutoverState domain = some current) :
    ∃ row, current = mapRowToStatus current.domain row ∧
      ((s.rows domain = some row ∧ current.domain = domain) ∨
        (s.rows domain = none ∧ s.rows none = some row ∧ current.domain = none)) := by
  unfold CutoverLedgers.loadCutoverState at h
  cases hown : s.rows domain with
  | some row =>
      rw [hown] at h
      cases h
      exact ⟨row, rfl, .inl ⟨rfl, rfl⟩⟩
  | none =>
      rw [hown] at h
      obtain ⟨row, hrow, rfl⟩ := Option.map_eq_some_iff.mp h
      exact ⟨row, rfl, .inr ⟨rfl, hrow, rfl⟩⟩

/-- The row a plain transition writes, beside the row it read. -/
theorem Written.same {domain : Option DiscoveryDomain} {read row : CutoverRow}
    {toState : CutoverState} {m : TransitionMetadata}
    (h : Written (mapRowToStatus domain read) toState m row) (hm : m.Plain)
    (hread : read.gracePeriodHours = 72 ∧ read.metadata.gracePeriodDurationHours = some 72) :
    row.state = toState ∧ row.gracePeriodHours = 72 ∧
      ∀ f, m.sets f = false → f.Same read row := by
  have hhours : row.gracePeriodHours = 72 := by
    rw [h.gracePeriodHours]
    cases hmeta : m.metadata with
    | some held => exact hm.metadata held hmeta
    | none =>
        show hoursOr72 read.metadata.gracePeriodDurationHours = 72
        rw [hread.2]
        rfl
  refine ⟨?_, hhours, fun f hf => ?_⟩
  · rw [h.state, hm.state]
    rfl
  · cases f with
    | gracePeriodStartedAt =>
        rw [TransitionMetadata.sets, Option.isSome_eq_false_iff, Option.isNone_iff_eq_none] at hf
        show row.gracePeriodStartedAt = read.gracePeriodStartedAt
        rw [h.gracePeriodStartedAt, hf]
        rfl
    | gracePeriodHours =>
        show row.gracePeriodHours = read.gracePeriodHours
        rw [hhours, hread.1]
    | copiesThroughGrace =>
        rw [TransitionMetadata.sets, Option.isSome_eq_false_iff, Option.isNone_iff_eq_none] at hf
        show row.copiesThroughGrace = read.copiesThroughGrace
        rw [h.copiesThroughGrace, hf]
        simp [mapRowToStatus]
    | targetMailServer =>
        rw [TransitionMetadata.sets, Option.isSome_eq_false_iff, Option.isNone_iff_eq_none] at hf
        show row.targetMailServer = read.targetMailServer
        rw [h.targetMailServer, hf]
        rfl

theorem rows_of_load_none {s : CutoverLedgers} {domain : Option DiscoveryDomain}
    (h : s.loadCutoverState domain = none) : s.rows domain = none ∧ s.rows none = none := by
  unfold CutoverLedgers.loadCutoverState at h
  cases hown : s.rows domain with
  | some row => rw [hown] at h; cases h
  | none =>
      rw [hown] at h
      exact ⟨rfl, Option.map_eq_none_iff.mp h⟩

/-- A first row: nothing was read. -/
theorem step_begun {s s' : CutoverLedgers} {c : Call} (hk : Kept s) {row : CutoverRow}
    (hread : s.loadCutoverState c.domain = none)
    (hbegin : cutoverBeginRefusal s.loadLedgers c.domain = none)
    (hrows : s'.rows = Function.update s.rows c.domain (some row)) (hstate : row.state = PREPARING)
    (hhours : row.gracePeriodHours = 72 ∧ row.metadata.gracePeriodDurationHours = some 72) :
    StepOk c s s' ∧ Kept s' := by
  obtain ⟨hnone, hwhole⟩ := rows_of_load_none hread
  have hother : ∀ ledger, ledger ≠ c.domain → s'.rows ledger = s.rows ledger := by
    intro ledger hne
    rw [hrows, Function.update_of_ne hne]
  have hself : s'.rows c.domain = some row := by rw [hrows, Function.update_self]
  constructor
  · constructor
    case along =>
      intro ledger r hr
      have hne : ledger ≠ c.domain := by
        rintro rfl
        rw [hnone] at hr
        cases hr
      exact ⟨r, (hother ledger hne).trans hr, .inl rfl⟩
    case begun =>
      intro ledger r hr hr'
      by_cases hne : ledger = c.domain
      · subst hne
        rw [hself] at hr'
        cases hr'
        exact ⟨hstate, fun w hw => by rw [hwhole] at hw; cases hw⟩
      · rw [hother ledger hne, hr] at hr'
        cases hr'
    case frame => exact hother
    case wholeBegins =>
      intro _ _ _ hne
      have hdomain : none = c.domain := by
        by_contra hother'
        exact hne (hother none hother')
      rw [← hdomain] at hbegin
      exact CutoverLedgers.no_own_of_begin hbegin
    case ownBegins =>
      intro _ _ _ w hw
      rw [hwhole] at hw
      cases hw
    case fields =>
      intro f ledger r r' _ hr' hr
      rcases hr with hr | ⟨_, hr⟩
      · have hne : ledger ≠ c.domain := by
          rintro rfl
          rw [hnone] at hr
          cases hr
        rw [hother ledger hne, hr] at hr'
        cases hr'
        exact .refl f r
      · rw [hwhole] at hr
        cases hr
  · constructor
    case apart =>
      intro d w hd hw
      by_cases hdomain : c.domain = none
      · have hown := CutoverLedgers.no_own_of_begin (hdomain ▸ hbegin) d
        rw [hother (some d) (by rw [hdomain]; exact Option.some_ne_none d), hown] at hd
        exact absurd rfl hd
      · rw [hother none (Ne.symm hdomain), hwhole] at hw
        cases hw
    case hours =>
      intro ledger r hr
      by_cases hne : ledger = c.domain
      · subst hne
        rw [hself] at hr
        cases hr
        exact hhours
      · exact hk.hours ledger r ((hother ledger hne).symm.trans hr)

/-- A transition: of the ledger that was read, or to a data type's first own row. -/
theorem step_moved {s s' : CutoverLedgers} {now : Nat} {toState : CutoverState}
    {m : MetadataOrReason} {domain : Option DiscoveryDomain} {status : CutoverStatus}
    (hk : Kept s) (hplain : m.named.Plain)
    (h : s.transitionState now toState m domain = .ok (s', status)) :
    StepOk (.transitionState toState m domain) s s' ∧ Kept s' := by
  obtain ⟨current, row, hload, hmay, hvalid, hrows, hwritten⟩ :=
    CutoverLedgers.transitionState_ok h
  obtain ⟨read, hcurrent, hwhich⟩ := loadCutoverState_eq hload
  have hreadstate : current.state = read.state := by rw [hcurrent]; rfl
  have hreadhours : read.gracePeriodHours = 72 ∧ read.metadata.gracePeriodDurationHours = some 72 := by
    rcases hwhich with ⟨hr, _⟩ | ⟨_, hr, _⟩ <;> exact hk.hours _ _ hr
  rw [hcurrent] at hwritten
  obtain ⟨hstate, hhours, hsame⟩ := hwritten.same hplain hreadhours
  have hother : ∀ ledger, ledger ≠ domain → s'.rows ledger = s.rows ledger := by
    intro ledger hne
    rw [hrows, Function.update_of_ne hne]
  have hself : s'.rows domain = some row := by rw [hrows, Function.update_self]
  rw [hreadstate] at hvalid
  have hleaves (hnone : s.rows domain = none) : domain ≠ none ∧ s.rows none = some read ∧
      read.state ∉ cutoverUnderWay ∧ toState = PREPARING := by
    rcases hwhich with ⟨hr, _⟩ | ⟨_, hr, hdom⟩
    · rw [hnone] at hr
      cases hr
    · cases domain with
      | none => rw [hnone] at hr; cases hr
      | some d =>
          have hleave := CutoverLedgers.begins_of_leaves hdom hmay
          rw [hreadstate] at hleave
          exact ⟨Option.some_ne_none d, hr, hleave⟩
  have hbegins (hdomain : domain = none) (hto : toState = PREPARING) (d : DiscoveryDomain) :
      s.rows (some d) = none := by
    apply CutoverLedgers.no_own_of_begin
    subst hdomain hto
    unfold CutoverLedgers.whoseLedgerMayMove at hmay
    simpa using hmay
  constructor
  · constructor
    case along =>
      intro ledger r hr
      by_cases hne : ledger = domain
      · subst hne
        refine ⟨row, hself, .inr ?_⟩
        rcases hwhich with ⟨hr', _⟩ | ⟨hr', _⟩
        · rw [hr] at hr'
          cases hr'
          rw [hstate]
          exact hvalid
        · rw [hr] at hr'
          cases hr'
      · exact ⟨r, (hother ledger hne).trans hr, .inl rfl⟩
    case begun =>
      intro ledger r hr hr'
      by_cases hne : ledger = domain
      · subst hne
        obtain ⟨_, hwhole, _, hto⟩ := hleaves hr
        rw [hself] at hr'
        cases hr'
        refine ⟨hstate.trans hto, fun w hw => ?_⟩
        rw [hwhole] at hw
        cases hw
        rw [← hto]
        exact hvalid
      · rw [hother ledger hne, hr] at hr'
        cases hr'
    case frame => exact hother
    case wholeBegins =>
      intro r' hr' hprep hne
      have hdomain : domain = none := by
        by_contra hother'
        exact hne (hother none (Ne.symm hother'))
      rw [← hdomain, hself] at hr'
      cases hr'
      exact hbegins hdomain (hstate.symm.trans hprep)
    case ownBegins =>
      intro d hnone hsome w hw
      have hdomain : some d = domain := by
        by_contra hne
        exact hsome ((hother _ hne).trans hnone)
      obtain ⟨_, hwhole, hway, _⟩ := hleaves (hdomain ▸ hnone)
      rw [hwhole] at hw
      cases hw
      exact hway
    case fields =>
      intro f ledger r r' hsets hr' hr
      by_cases hne : ledger = domain
      · subst hne
        have hf : m.named.sets f = false := by
          rw [← Bool.not_eq_true]
          exact fun hset => hsets ⟨rfl, hset⟩
        have hread : r = read := by
          rcases hwhich with ⟨hown, _⟩ | ⟨hnone, hwhole, _⟩
          · rcases hr with hr | ⟨hn, _⟩
            · exact Option.some.inj (hr.symm.trans hown)
            · rw [hn] at hown
              cases hown
          · rcases hr with hr | ⟨_, hr⟩
            · rw [hnone] at hr
              cases hr
            · exact Option.some.inj (hr.symm.trans hwhole)
        rw [hself] at hr'
        cases hr'
        rw [hread]
        exact hsame f hf
      · rcases hr with hr | ⟨hn, hr⟩
        · rw [hother ledger hne, hr] at hr'
          cases hr'
          exact .refl f r
        · rw [hother ledger hne, hn] at hr'
          cases hr'
  · constructor
    case apart =>
      intro d w hd hw
      by_cases hdomain : domain = none
      · -- The whole migration's moved, beside an own ledger: to ROLLED_BACK only.
        have hown : s.rows (some d) ≠ none := by
          rw [← hother (some d) (by rw [hdomain]; exact Option.some_ne_none d)]
          exact hd
        have hwread : s.rows none = some read := by
          rcases hwhich with ⟨hr, _⟩ | ⟨_, hr, _⟩
          · rw [← hdomain]
            exact hr
          · exact hr
        rw [← hdomain, hself] at hw
        cases hw
        have hto : toState ≠ PREPARING := fun hto => hown (hbegins hdomain hto d)
        rw [hstate]
        rcases hk.apart d read hown hwread with hold | hold <;> rw [hold] at hvalid <;>
          revert hvalid hto <;> cases toState <;> decide
      · have hwhole : s.rows none = some w := (hother none (Ne.symm hdomain)).symm.trans hw
        by_cases hown : s.rows (some d) = none
        · have hdom : some d = domain := by
            by_contra hne
            exact hd ((hother _ hne).trans hown)
          obtain ⟨_, hwread, hway, hto⟩ := hleaves (hdom ▸ hown)
          rw [hwhole] at hwread
          cases hwread
          exact not_underWay_of_preparing hway (hto ▸ hvalid)
        · exact hk.apart d w hown hwhole
    case hours =>
      intro ledger r hr
      by_cases hne : ledger = domain
      · subst hne
        rw [hself] at hr
        cases hr
        exact ⟨hhours, hwritten.metadata⟩
      · exact hk.hours ledger r ((hother ledger hne).symm.trans hr)

theorem step_ok {s : CutoverLedgers} (hk : Kept s) {c : Call} (hc : c.Plain) (now : Nat) :
    StepOk c s (c.run s now) ∧ Kept (c.run s now) := by
  cases c with
  | loadCutoverState domain => exact ⟨.refl _ s, hk⟩
  | initializeCutover targetMailServer startedBy domain =>
      cases hrun : s.initializeCutover now targetMailServer startedBy domain with
      | error e =>
          simp only [Call.run, hrun]
          exact ⟨.refl _ s, hk⟩
      | ok p =>
          obtain ⟨s', status⟩ := p
          simp only [Call.run, hrun]
          rcases CutoverLedgers.initializeCutover_ok hrun with
            rfl | ⟨hread, hbegin, row, hrows, hstate, hhours⟩
          · exact ⟨.refl _ s', hk⟩
          · exact step_begun (c := .initializeCutover targetMailServer startedBy domain) hk hread
              hbegin hrows hstate hhours
  | transitionState toState metadata domain =>
      cases hrun : s.transitionState now toState metadata domain with
      | error e =>
          simp only [Call.run, hrun]
          exact ⟨.refl _ s, hk⟩
      | ok p =>
          obtain ⟨s', status⟩ := p
          simp only [Call.run, hrun]
          exact step_moved hk hc hrun

theorem kept_runCalls {s : CutoverLedgers} (hk : Kept s) {calls : List (Nat × Call)}
    (hplain : ∀ c ∈ calls, c.2.Plain) : Kept (runCalls s calls) := by
  induction calls generalizing s with
  | nil => exact hk
  | cons c calls ih =>
      have hc := (step_ok hk (hplain c List.mem_cons_self) c.1).2
      exact ih hc fun c' hc' => hplain c' (List.mem_cons_of_mem _ hc')

/-- What a row holds in a field stays over calls that do not set it. -/
theorem same_runCalls {s : CutoverLedgers} (hk : Kept s) {calls : List (Nat × Call)}
    (hplain : ∀ c ∈ calls, c.2.Plain) {f : GateField} {ledger : Option DiscoveryDomain}
    (hsets : ∀ c ∈ calls, ¬ c.2.Sets f ledger) {row : CutoverRow}
    (hrow : s.rows ledger = some row) :
    ∃ row', (runCalls s calls).rows ledger = some row' ∧ f.Same row row' := by
  induction calls generalizing s row with
  | nil => exact ⟨row, hrow, .refl f row⟩
  | cons c calls ih =>
      obtain ⟨hstep, hk'⟩ := step_ok hk (hplain c List.mem_cons_self) c.1
      obtain ⟨row₁, hrow₁, _⟩ := hstep.along ledger row hrow
      have hfirst := hstep.fields f ledger row row₁ (hsets c List.mem_cons_self) hrow₁ (.inl hrow)
      obtain ⟨row', hrow', hrest⟩ := ih hk' (fun c' hc' => hplain c' (List.mem_cons_of_mem _ hc'))
        (fun c' hc' => hsets c' (List.mem_cons_of_mem _ hc')) hrow₁
      exact ⟨row', hrow', hfirst.trans hrest⟩

/-- **The cutover ledgers of a migration**, over every run of plain calls: each
call does what `StepOk` lists, no data type has a cutover of its own beside a
whole migration's under way, and a field stays until it is set again. -/
theorem ledgers_of_runCalls {calls : List (Nat × Call)} (hplain : ∀ c ∈ calls, c.2.Plain) :
    (∀ earlier c later, calls = earlier ++ c :: later →
      StepOk c.2 (runCalls .empty earlier) (runCalls .empty (earlier ++ [c]))) ∧
    (∀ d whole, (runCalls .empty calls).rows (some d) ≠ none →
      (runCalls .empty calls).rows none = some whole → whole.state ∉ cutoverUnderWay) ∧
    ∀ f ledger earlier later row, calls = earlier ++ later →
      (runCalls .empty earlier).rows ledger = some row → (∀ c ∈ later, ¬ c.2.Sets f ledger) →
      ∃ row', (runCalls .empty calls).rows ledger = some row' ∧ f.Same row row' := by
  refine ⟨?_, ?_, ?_⟩
  · rintro earlier c later rfl
    have hk := kept_runCalls kept_empty fun c' hc' => hplain c' (List.mem_append_left _ hc')
    have hc := hplain c (List.mem_append_right _ List.mem_cons_self)
    rw [runCalls_append]
    exact (step_ok hk hc c.1).1
  · intro d whole hown hwhole
    rcases (kept_runCalls kept_empty hplain).apart d whole hown hwhole with h | h <;> rw [h] <;>
      decide
  · rintro f ledger earlier later row rfl hrow hsets
    have hk := kept_runCalls kept_empty fun c' hc' => hplain c' (List.mem_append_left _ hc')
    rw [runCalls_append]
    exact same_runCalls hk (fun c hc => hplain c (List.mem_append_right _ hc)) hsets hrow

/-- Mail begins a cutover of its own after the whole migration's failed. -/
def mailAfterFailure : List (Nat × Call) :=
  [(0, .initializeCutover (some "mail.new") none none), (1, .transitionState FAILED .nothing none),
    (2, .transitionState PREPARING .nothing (some .email))]

theorem ledgers_of_mailAfterFailure :
    ∃ whole row, (runCalls .empty mailAfterFailure).rows none = some whole ∧
      whole.state ∉ cutoverUnderWay ∧
      (runCalls .empty mailAfterFailure).rows (some .email) = some row ∧
      row.targetMailServer = some "mail.new" := by
  have hplain : ∀ c ∈ mailAfterFailure, c.2.Plain := by
    intro c hc
    rcases List.mem_cons.mp hc with rfl | hc
    · trivial
    · rcases List.mem_cons.mp hc with rfl | hc
      · exact ⟨rfl, rfl, nofun⟩
      · rcases List.mem_cons.mp hc with rfl | hc
        · exact ⟨rfl, rfl, nofun⟩
        · cases hc
  exact ⟨_, _, rfl, (ledgers_of_runCalls hplain).2.1 .email _ (by decide) rfl, rfl, rfl⟩

/-- The length a transition gave the grace period is reset by the next one; and
metadata that names a state moves a ledger off the table. -/
theorem graceHours_reset_and_state_named :
    let start : List (Nat × Call) :=
      [(0, .initializeCutover none none none), (1, .transitionState READY_FOR_CUTOVER
        (.metadata { metadata := some { gracePeriodDurationHours := some 24 } }) none)]
    (((runCalls .empty start).rows none).map (·.gracePeriodHours) = some 24 ∧
      ((runCalls .empty (start ++ [(2, .transitionState APPROVED .nothing none)])).rows none).map
        (·.gracePeriodHours) = some 72) ∧
    ((runCalls .empty [(0, .initializeCutover none none none), (1, .transitionState READY_FOR_CUTOVER
        (.metadata { state := some COMPLETED }) none)]).rows none).map (·.state) = some COMPLETED ∧
      isValidTransition PREPARING COMPLETED = false := by
  decide

end Ownpace.Cutover
