/-
Ownpace/Orchestration/AllDomains.lean

A pass keeps its data types apart: `domains_kept_apart`.

Each lane is walked on its own, and an event of a lane is about one of its data types.  No
data type stands in two lanes, so what is told of is told of once, and what a lane's end
leaves, the pass leaves.
-/
import Ownpace.Orchestration.OneDomain

namespace Ownpace.Orchestration

open Await Store

variable {C : Type} {setup : PassSetup C} {d : DiscoveryDomain} {h t : List (PassEvent C)}
variable {domains lane : List DiscoveryDomain}

/-! ### A lane -/

theorem about_of_pushed {e : PassEvent C} (he : pushedBy e = some d) : about e = some d := by
  cases e with
  | sync before after => exact he
  | call o a => cases he

/-- Every event is about one of these. -/
def Within (domains : List DiscoveryDomain) (h : List (PassEvent C)) : Prop :=
  ∀ e ∈ h, ∃ d ∈ domains, about e = some d

theorem mayDo_about {e : PassEvent C} (he : MayDo setup domains h e) :
    ∃ d ∈ domains, about e = some d := by
  cases e with
  | sync before after =>
      obtain ⟨r, rfl, hr, -⟩ := he
      exact ⟨r.domain, hr, pushedBy_push before r⟩
  | call o a => exact ⟨o.domain, he.1, rfl⟩

theorem AllFine.right (hf : AllFine setup (h ++ t)) : AllFine setup t := fun e he =>
  hf e (List.mem_append_right _ he)

theorem Within.not_about (hw : Within domains h) (hd : d ∉ domains) {e : PassEvent C} (he : e ∈ h) :
    about e ≠ some d := by
  intro habout
  obtain ⟨d', hd', habout'⟩ := hw e he
  exact hd (Option.some.inj (habout'.symm.trans habout) ▸ hd')

theorem Within.told (hw : Within domains h) (hd : d ∉ domains) (ht : Told d (h ++ t)) :
    Told d t := by
  obtain ⟨e, he, hpushed⟩ := ht
  rcases List.mem_append.mp he with he | he
  · exact (hw.not_about hd he (about_of_pushed hpushed)).elim
  · exact ⟨e, he, hpushed⟩

theorem Within.stopped (hw : Within domains h) (hd : d ∉ domains) (hs : ToldToStop d (h ++ t)) :
    ToldToStop d t := by
  obtain ⟨reason, he⟩ := hs
  rcases List.mem_append.mp he with he | he
  · exact (hw.not_about hd he rfl).elim
  · exact ⟨reason, he⟩

theorem Within.begun (hw : Within domains h) (hd : d ∉ domains) (hb : Begun d (h ++ t)) :
    Begun d t := by
  obtain ⟨a, he⟩ := hb
  rcases List.mem_append.mp he with he | he
  · exact (hw.not_about hd he rfl).elim
  · exact ⟨a, he⟩

/-- What was about others stands in nobody's way. -/
theorem Within.mayCall (hw : Within domains h) {o : PassOp} (hd : o.domain ∉ domains)
    (ho : MayCall setup t o) : MayCall setup (h ++ t) o := by
  cases o with
  | markInProgress d => exact fun hs => ho (hw.stopped hd hs)
  | buildDeps d => exact fun hs => ho (hw.stopped hd hs)
  | runPass d => exact fun hs => ho (hw.stopped hd hs)
  | markCompleted d =>
      obtain ⟨r, hr, hwhole⟩ := ho
      exact ⟨r, List.mem_append_right _ hr, hwhole⟩
  | autoApplyRelocations =>
      intro hf
      obtain ⟨r, hr, hended⟩ := ho hf.right
      exact ⟨r, List.mem_append_right _ hr, hended⟩
  | initDomainStatus | markSwitchedOff | whyItStops | phasesNow | close | markPaused
  | noteUnreadCollections | markFailed => trivial

theorem Within.mayDo (hw : Within [d] h) (hd : d ∉ lane) {e : PassEvent C}
    (he : MayDo setup lane t e) : MayDo setup (d :: lane) (h ++ t) e := by
  have hother {x : DiscoveryDomain} (hx : x ∈ lane) : x ∉ [d] := by
    intro hxd
    exact hd (List.mem_singleton.mp hxd ▸ hx)
  cases e with
  | sync before after =>
      obtain ⟨r, hafter, hr, honce⟩ := he
      refine ⟨r, hafter, List.mem_cons_of_mem _ hr, fun hf ht => honce hf.right ?_⟩
      exact hw.told (hother hr) ht
  | call o a => exact ⟨List.mem_cons_of_mem _ he.1, hw.mayCall (hother he.1) he.2⟩

theorem mayDo_cons {e : PassEvent C} (he : MayDo setup [d] h e) : MayDo setup (d :: lane) h e := by
  have hsub {x : DiscoveryDomain} (hx : x ∈ [d]) : x ∈ d :: lane :=
    List.mem_singleton.mp hx ▸ List.mem_cons_self
  cases e with
  | sync before after =>
      obtain ⟨r, hafter, hr, honce⟩ := he
      exact ⟨r, hafter, hsub hr, honce⟩
  | call o a => exact ⟨hsub he.1, he.2⟩

/-- What the end of a lane leaves. -/
structure LaneEnds (setup : PassSetup C) (lane : List DiscoveryDomain) (h : List (PassEvent C))
    (r : Except String Unit) : Prop where
  within : Within lane h
  ends : AllFine setup h → r = .ok () ∧ ∀ d ∈ lane, DomainEnds d h

/-- **A lane**, one data type after the other. -/
theorem always_runLane (hlane : lane.Nodup) :
    (setup.runLane lane).Always (MayDo setup lane) (LaneEnds setup lane) [] := by
  induction lane with
  | nil =>
      refine ⟨fun e he => ?_, fun _ => ⟨rfl, fun d hd => ?_⟩⟩
      · cases he
      · cases hd
  | cons d lane ih =>
      obtain ⟨hd, hlane⟩ := List.nodup_cons.mp hlane
      have hfirst : (setup.runOneDomain d).Always (MayDo setup (d :: lane))
          (fun h r => Ends setup d h r ∧ Within [d] h) [] := by
        refine always_runOneDomain.collect (fun h e he => ⟨mayDo_cons he, mayDo_about he⟩) ?_
        intro e he
        cases he
      have hwithin {h : List (PassEvent C)} (hw : Within [d] h) : Within (d :: lane) h := by
        intro e he
        obtain ⟨x, hx, habout⟩ := hw e he
        exact ⟨x, List.mem_singleton.mp hx ▸ List.mem_cons_self, habout⟩
      refine hfirst.andThen (fun h₁ _ _ h₁ends => ?_) fun h₁ message _ h₁ends => ?_
      · obtain ⟨hends, hw⟩ := h₁ends
        have hrest := (ih hlane).after (h := h₁) (fun t e he => hw.mayDo hd he)
          (fun t r hr => show LaneEnds setup (d :: lane) (h₁ ++ t) r from ?_)
        · rwa [List.append_nil] at hrest
        · refine ⟨fun e he => ?_, fun hf => ⟨(hr.ends hf.right).1, fun x hx => ?_⟩⟩
          · rcases List.mem_append.mp he with he | he
            · exact hwithin hw e he
            · obtain ⟨x, hx, habout⟩ := hr.within e he
              exact ⟨x, List.mem_cons_of_mem _ hx, habout⟩
          · rcases List.mem_cons.mp hx with rfl | hx
            · refine (hends hf.left).2.mono (List.subset_append_left _ _) fun hb => ?_
              obtain ⟨a, ha⟩ := hb
              rcases List.mem_append.mp ha with ha | ha
              · exact ⟨a, ha⟩
              · exact (hr.within.not_about hd ha rfl).elim
            · have hxd : x ∉ [d] := fun hxd => hd (List.mem_singleton.mp hxd ▸ hx)
              exact ((hr.ends hf.right).2 x hx).mono (List.subset_append_right _ _) (hw.begun hxd)
      · refine ⟨hwithin h₁ends.2, fun hf => ?_⟩
        cases (h₁ends.1 hf).1

/-! ### All lanes at once -/

/-- The ports answer anything at all, and leave the results alone. -/
def Ports (s : Results C) (o : PassOp) (_ : PassOp.Ans C o) (s' : Results C) : Prop := s' = s

abbrev LaneLabel (C : Type) : Type := Pool.Label (Results C) PassOp (PassOp.Ans C)

variable {lanes : List (List DiscoveryDomain)} {i j : Nat} {trace : List (LaneLabel C)}
variable {s s' s₁ : Results C}

theorem lane_unique (hlanes : lanes.flatten.Nodup) {lane lane' : List DiscoveryDomain}
    (hi : lanes[i]? = some lane) (hj : lanes[j]? = some lane') (hd : d ∈ lane) (hd' : d ∈ lane') :
    i = j := by
  obtain ⟨hilt, rfl⟩ := List.getElem?_eq_some_iff.mp hi
  obtain ⟨hjlt, rfl⟩ := List.getElem?_eq_some_iff.mp hj
  have hdisjoint := List.pairwise_iff_getElem.mp (List.nodup_flatten.mp hlanes).2
  rcases Nat.lt_trichotomy i j with hlt | heq | hgt
  · exact (hdisjoint i j hilt hjlt hlt hd hd').elim
  · exact heq
  · exact (hdisjoint j i hjlt hilt hgt hd' hd).elim

def InLane (setup : PassSetup C) (lanes : List (List DiscoveryDomain)) (i : Nat)
    (past : List (PassEvent C)) (e : PassEvent C) : Prop :=
  ∃ lane, lanes[i]? = some lane ∧ MayDo setup lane past e

def LaneDone (setup : PassSetup C) (lanes : List (List DiscoveryDomain)) (i : Nat)
    (past : List (PassEvent C)) (r : Except String Unit) : Prop :=
  r = .ok () ∧ ∃ lane, lanes[i]? = some lane ∧ (AllFine setup past → ∀ d ∈ lane, DomainEnds d past)

theorem always_lanePrograms (hlanes : lanes.flatten.Nodup) (i : Nat) (p : DomainPass C Unit)
    (hp : (setup.lanePrograms lanes)[i]? = some p) :
    p.Always (InLane setup lanes i) (LaneDone setup lanes i) [] := by
  rw [PassSetup.lanePrograms, List.getElem?_map] at hp
  obtain ⟨lane, hlane, rfl⟩ := Option.map_eq_some_iff.mp hp
  have hnodup := (List.nodup_flatten.mp hlanes).1 lane (List.mem_of_getElem? hlane)
  rw [Prog.bind_eq, Prog.always_bind, Prog.always_attempt]
  refine (always_runLane hnodup).after (h := []) (fun t e he => ⟨lane, hlane, he⟩) fun t r hr => ?_
  exact ⟨rfl, lane, hlane, fun hf => (hr.ends hf).2⟩

/-- The data types told of, in the order they were. -/
def toldOf (trace : List (LaneLabel C)) : List DiscoveryDomain :=
  trace.filterMap fun l => pushedBy l.2

theorem mem_toldOf : d ∈ toldOf trace ↔ ∃ l ∈ trace, pushedBy l.2 = some d := List.mem_filterMap

/-- What holds of all lanes at any moment. -/
structure Accounted (setup : PassSetup C) (lanes : List (List DiscoveryDomain)) (s₁ : Results C)
    (trace : List (LaneLabel C)) (s : Results C) : Prop where
  placed : ∀ l ∈ trace, ∃ lane, lanes[l.1]? = some lane ∧ ∃ d ∈ lane, about l.2 = some d
  results : ∃ pushed, s = s₁ ++ pushed ∧ pushed.map (·.domain) = toldOf trace
  once : (∀ l ∈ trace, Fine setup l.2) → (toldOf trace).Nodup

theorem Accounted.step (hlanes : lanes.flatten.Nodup) (ha : Accounted setup lanes s₁ trace s)
    {e : PassEvent C} (he : InLane setup lanes i (Pool.own i trace) e) (hfires : Fires Ports s e s') :
    Accounted setup lanes s₁ (trace ++ [(i, e)]) s' := by
  obtain ⟨lane, hlane, he⟩ := he
  obtain ⟨pushed, hpushed, htold⟩ := ha.results
  have hplaced : ∀ l ∈ trace ++ [(i, e)],
      ∃ lane, lanes[l.1]? = some lane ∧ ∃ d ∈ lane, about l.2 = some d := by
    intro l hl
    rcases List.mem_append.mp hl with hl | hl
    · exact ha.placed l hl
    · rw [List.mem_singleton.mp hl]
      exact ⟨lane, hlane, mayDo_about he⟩
  have hearlier (hf : ∀ l ∈ trace ++ [(i, e)], Fine setup l.2) : ∀ l ∈ trace, Fine setup l.2 :=
    fun l hl => hf l (List.mem_append_left _ hl)
  have hsplit : toldOf (trace ++ [(i, e)]) = toldOf trace ++ (pushedBy e).toList := by
    rw [toldOf, List.filterMap_append]
    cases hone : pushedBy e <;> simp [toldOf, hone]
  cases e with
  | call o a =>
      have hstays : toldOf (trace ++ [(i, .call o a)]) = toldOf trace := by
        rw [hsplit]
        exact List.append_nil _
      refine ⟨hplaced, ⟨pushed, hfires.trans hpushed, htold.trans hstays.symm⟩, fun hf => ?_⟩
      rw [hstays]
      exact ha.once (hearlier hf)
  | sync before after =>
      obtain ⟨r, rfl, hr, honce⟩ := he
      obtain ⟨rfl, rfl⟩ := hfires
      rw [pushedBy_push, Option.toList_some] at hsplit
      refine ⟨hplaced, ⟨pushed ++ [r], ?_, ?_⟩, fun hf => ?_⟩
      · rw [hpushed, List.append_assoc]
      · rw [List.map_append, htold, hsplit]
        rfl
      · -- Told of already, it would have been by another lane, and it is in this one.
        rw [hsplit]
        refine List.nodup_append.mpr ⟨ha.once (hearlier hf), List.nodup_singleton _, ?_⟩
        rintro d hd d' hd' rfl
        obtain rfl := List.mem_singleton.mp hd'
        obtain ⟨⟨j, e⟩, hl, hpush⟩ := mem_toldOf.mp hd
        obtain ⟨lane', hlane', x, hx, habout⟩ := ha.placed _ hl
        obtain rfl := Option.some.inj (habout.symm.trans (about_of_pushed hpush))
        obtain rfl := lane_unique hlanes hlane' hlane hx hr
        refine honce (fun e he => ?_) ⟨e, Pool.mem_own.mpr hl, hpush⟩
        exact hearlier hf _ (Pool.mem_own.mp he)

/-! ### The rows before them -/

/-- The call was answered, and not rejected. -/
def Answered : PassEvent C → Prop
  | .sync _ _ => True
  | .call _ a => ∃ r, a = .ok r

/-- The results an event adds. -/
def added : PassEvent C → Results C
  | .sync before after => after.drop before.length
  | .call _ _ => []

/-- How the rows end. -/
def RowsEnd (setup : PassSetup C) (domains : List DiscoveryDomain) (h h' : List (PassEvent C))
    (r : Except String Unit) : Prop :=
  (∀ e ∈ h', Answered e) → r = .ok () ∧
    h'.flatMap added = h.flatMap added ++
      (domains.filter fun d => !setup.enabled d).map setup.switchedOff

/-- A result is added behind the others. -/
def AddsBehind (_ : List (PassEvent C)) : PassEvent C → Prop
  | .sync before after => before <+: after
  | .call _ _ => True

theorem not_answered_concat {α : Prop} {o : PassOp} {message : String}
    (ha : ∀ e ∈ h ++ [.call o (.error message)], Answered e) : α := by
  obtain ⟨r, hr⟩ := ha _ List.mem_concat_self
  cases hr

theorem always_startRows : (setup.startRows domains).Always AddsBehind (RowsEnd setup domains h) h := by
  induction domains generalizing h with
  | nil => exact fun _ => ⟨rfl, (List.append_nil _).symm⟩
  | cons d domains ih =>
      have hcall {o : PassOp} {a : PassOp.Ans C o} {h : List (PassEvent C)} :
          (h ++ [.call o a] : List (PassEvent C)).flatMap added = h.flatMap added := by
        rw [List.flatMap_append]
        exact List.append_nil _
      refine always_ask_bind.mpr ⟨fun _ => ⟨trivial, ?_⟩, fun e => ⟨trivial, not_answered_concat⟩⟩
      split
      · next hon =>
          refine Prog.Always.mono ih fun h' r _ hr ha => ?_
          obtain ⟨hok, hadded⟩ := hr ha
          rw [hcall] at hadded
          refine ⟨hok, ?_⟩
          rw [hadded, List.filter_cons_of_neg (by simp [hon])]
      · next hoff =>
          rw [Prog.bind_assoc]
          refine always_ask_bind.mpr ⟨fun _ => ⟨trivial, fun s => ⟨List.prefix_append _ _, ?_⟩⟩,
            fun e => ⟨trivial, not_answered_concat⟩⟩
          refine Prog.Always.mono ih fun h' r _ hr ha => ?_
          obtain ⟨hok, hadded⟩ := hr ha
          rw [List.flatMap_append, hcall, hcall] at hadded
          refine ⟨hok, ?_⟩
          rw [hadded, List.filter_cons_of_pos (by simp [hoff]), List.append_assoc]
          simp [added]

variable {p : DomainPass C Unit} {rows : List (PassEvent C)}

theorem startRows_quiet
    (hrows : Prog.Run (fun _ _ => False) Ports (setup.startRows discoveryDomains) [] p rows s₁)
    (hanswered : ∀ e ∈ rows, Answered e) (message : String) : p ≠ .throw message := by
  rintro rfl
  have hends : RowsEnd setup discoveryDomains [] rows (.error message) := hrows.always always_startRows
  cases (hends hanswered).1

/-- The results once the rows are there: the data types that are switched off. -/
theorem startRows_results
    (hrows : Prog.Run (fun _ _ => False) Ports (setup.startRows discoveryDomains) [] (.ret ()) rows s₁)
    (hanswered : ∀ e ∈ rows, Answered e) :
    s₁ = (discoveryDomains.filter fun d => !setup.enabled d).map setup.switchedOff := by
  have hends : RowsEnd setup discoveryDomains [] rows (.ok ()) := hrows.always always_startRows
  have hstate : s₁ = rows.flatMap added := by
    refine Prog.Run.rule (I := fun h s => s = h.flatMap added) always_startRows rfl
      (fun _ _ _ _ hfalse => hfalse.elim) (fun h s e s' hI hJ hfires => ?_) hrows
    rw [List.flatMap_append, ← hI]
    cases e with
    | call o a => exact hfires.trans (List.append_nil _).symm
    | sync before after =>
        obtain ⟨rfl, rfl⟩ := hfires
        obtain ⟨rest, rfl⟩ := hJ
        simp [added]
  rw [hstate, (hends hanswered).2]
  rfl

/-! ### The whole pass -/

/-- What may be called after all that has happened. -/
def Rightly (past : List (PassEvent C)) : PassOp → Prop
  | .markInProgress d => ¬ ToldToStop d past
  | .buildDeps d => ¬ ToldToStop d past
  | .runPass d => ¬ ToldToStop d past
  | .markCompleted d => ∃ r, .call (.runPass d) (.ok r) ∈ past ∧ r.Whole
  | .autoApplyRelocations =>
      ∃ r, .call (.runPass .file) (.ok r) ∈ past ∧ r.haltPause = none ∧ r.budgetPause = none
  | _ => True

/-- The events, whosever they are. -/
def eventsOf (trace : List (LaneLabel C)) : List (PassEvent C) := trace.map Prod.snd

/-- The data types do not get into each other's way. -/
structure KeptApart (setup : PassSetup C) (pl : Pool (Results C) PassOp (PassOp.Ans C) String)
    (trace : List (LaneLabel C)) (s : Results C) : Prop where
  /-- At most one result each, in the fixed order. -/
  order : ((inOrder s).map (·.domain)).Sublist discoveryDomains
  switchedOff : ∀ d, setup.enabled d = false → ∃ r ∈ inOrder s, r.domain = d ∧ r.disabled = true
  told : pl.Joined → ∀ d, Begun d (eventsOf trace) → ∃ r ∈ inOrder s, r.domain = d
  turn : pl.Joined → ∀ d, setup.enabled d = true → setup.runsNow d = true →
    HadTurn d (eventsOf trace)
  rightly : ∀ past i o a rest, trace = past ++ (i, .call o a) :: rest → Rightly (eventsOf past) o

theorem mem_eventsOf {e : PassEvent C} : e ∈ eventsOf trace ↔ ∃ i, (i, e) ∈ trace := by
  rw [eventsOf, List.mem_map]
  constructor
  · rintro ⟨⟨i, e⟩, hl, rfl⟩
    exact ⟨i, hl⟩
  · rintro ⟨i, hl⟩
    exact ⟨_, hl, rfl⟩

theorem own_subset : Pool.own i trace ⊆ eventsOf trace := fun _ he =>
  mem_eventsOf.mpr ⟨i, Pool.mem_own.mp he⟩

variable {limit : Nat} {pl : Pool (Results C) PassOp (PassOp.Ans C) String}

theorem accounted (hlanes : lanes.flatten.Nodup)
    (htraced : Pool.Traced Ports limit (setup.lanePrograms lanes) s₁ pl s trace) :
    Accounted setup lanes s₁ trace s := by
  refine htraced.rule (always_lanePrograms hlanes) ⟨fun l hl => ?_, ⟨[], ?_, rfl⟩, fun _ => ?_⟩
    fun trace s i e s' _ ha he hfires => ha.step hlanes he hfires
  · cases hl
  · exact (List.append_nil _).symm
  · exact List.nodup_nil

/-- What is about a data type happened in its lane. -/
theorem Accounted.mem_own (hlanes : lanes.flatten.Nodup) (ha : Accounted setup lanes s₁ trace s)
    (hlane : lanes[i]? = some lane) (hd : d ∈ lane) {e : PassEvent C} (he : e ∈ eventsOf trace)
    (habout : about e = some d) : e ∈ Pool.own i trace := by
  obtain ⟨j, hl⟩ := mem_eventsOf.mp he
  obtain ⟨lane', hlane', x, hx, hsame⟩ := ha.placed _ hl
  obtain rfl := Option.some.inj (hsame.symm.trans habout)
  obtain rfl := lane_unique hlanes hlane' hlane hx hd
  exact Pool.mem_own.mpr hl

/-- What a call rests on in its lane, it rests on in the whole pass. -/
theorem rightly_of_traced (hlanes : lanes.flatten.Nodup)
    (htraced : Pool.Traced Ports limit (setup.lanePrograms lanes) s₁ pl s trace)
    (hfine : ∀ l ∈ trace, Fine setup l.2) {past rest : List (LaneLabel C)} {o : PassOp}
    {a : PassOp.Ans C o} (heq : trace = past ++ (i, .call o a) :: rest) :
    Rightly (eventsOf past) o := by
  obtain ⟨pl', s', -, hpast, -, ⟨lane, hlane, hin, hmay⟩, -⟩ :=
    htraced.moment (always_lanePrograms hlanes) heq
  have hstop {d : DiscoveryDomain} (hd : d ∈ lane) (hs : ToldToStop d (eventsOf past)) :
      ToldToStop d (Pool.own i past) := by
    obtain ⟨reason, hmem⟩ := hs
    exact ⟨reason, (accounted hlanes hpast).mem_own hlanes hlane hd hmem rfl⟩
  have hownfine : AllFine setup (Pool.own i past) := by
    intro e he
    refine hfine (i, e) ?_
    rw [heq]
    exact List.mem_append_left _ (Pool.mem_own.mp he)
  cases o with
  | markInProgress d => exact fun hs => hmay (hstop hin hs)
  | buildDeps d => exact fun hs => hmay (hstop hin hs)
  | runPass d => exact fun hs => hmay (hstop hin hs)
  | markCompleted d =>
      obtain ⟨r, hr, hwhole⟩ := hmay
      exact ⟨r, own_subset hr, hwhole⟩
  | autoApplyRelocations =>
      obtain ⟨r, hr, hended⟩ := hmay hownfine
      exact ⟨r, own_subset hr, hended⟩
  | initDomainStatus | markSwitchedOff | whyItStops | phasesNow | close | markPaused
  | noteUnreadCollections | markFailed => trivial

theorem nodup_discoveryDomains : discoveryDomains.Nodup := by decide

theorem nodup_running : setup.running.Nodup := nodup_discoveryDomains.filter _

/-- Some results of distinct data types, sorted. -/
theorem inOrder_sublist (hs : (s.map (·.domain)).Nodup) :
    ((inOrder s).map (·.domain)).Sublist discoveryDomains := by
  have hperm : ((inOrder s).map (·.domain)).Perm (s.map (·.domain)) := (sortBy_perm _ s).map _
  have hsorted : ((inOrder s).map (·.domain)).Pairwise fun a b => byRank discoveryDomains a b ≤ 0 :=
    List.pairwise_map.mpr (pairwise_sortBy (consistent_byRank.comap (·.domain)) s)
  have hnodup := hperm.nodup_iff.mpr hs
  have hsame : (inOrder s).map (·.domain) =
      discoveryDomains.filter fun d => ((inOrder s).map (·.domain)).contains d := by
    rw [← sortBy_byRank nodup_discoveryDomains hnodup fun d _ => mem_discoveryDomains d]
    refine (List.mergeSort_of_pairwise (hsorted.imp fun h => ?_)).symm
    exact decide_eq_true h
  rw [hsame]
  exact List.filter_sublist

/-- **A pass keeps its data types apart**: where the first status rows and the records of how a
data type ended are written, and a files pass that moves are applied after is not paused. -/
theorem domains_kept_apart (urlHost : String → Option String) (config : MappingConfig)
    (hrows : Prog.Run (fun _ _ => False) Ports (setup.startRows discoveryDomains) [] p rows s₁)
    (hanswered : ∀ e ∈ rows, Answered e) :
    (∀ message, p ≠ .throw message) ∧ ∀ limit pl s trace, p = .ret () →
      Pool.Traced Ports limit
          (setup.lanePrograms (planDomainLanes urlHost config setup.running)) s₁ pl s trace →
        (∀ l ∈ trace, Fine setup l.2) → KeptApart setup pl trace s := by
  refine ⟨startRows_quiet hrows hanswered, ?_⟩
  rintro limit pl s trace rfl htraced hfine
  have hs₁ := startRows_results hrows hanswered
  have hperm := planLanes_once (hostsOf urlHost config) (nodup_running : setup.running.Nodup)
  have hlanes : (planDomainLanes urlHost config setup.running).flatten.Nodup :=
    hperm.nodup_iff.mpr nodup_running
  have ha := accounted hlanes htraced
  obtain ⟨pushed, hpushed, htold⟩ := ha.results
  have hmem (r : DomainSyncResult C) : r ∈ inOrder s ↔ r ∈ s := mem_sortBy
  have hended {d : DiscoveryDomain} (hjoined : pl.Joined) (hd : d ∈ setup.running) :
      ∃ i lane, (planDomainLanes urlHost config setup.running)[i]? = some lane ∧ d ∈ lane ∧
        DomainEnds d (Pool.own i trace) := by
    obtain ⟨lane, hlane, hin⟩ := List.mem_flatten.mp (hperm.mem_iff.mpr hd)
    obtain ⟨i, hi⟩ := List.mem_iff_getElem?.mp hlane
    have hlt : i < (setup.lanePrograms (planDomainLanes urlHost config setup.running)).length := by
      rw [PassSetup.lanePrograms, List.length_map]
      exact (List.getElem?_eq_some_iff.mp hi).1
    obtain ⟨-, lane', hlane', hends⟩ := htraced.ended (always_lanePrograms hlanes)
      (fun _ _ _ hdone => by cases hdone.1) hjoined hlt
    obtain rfl := Option.some.inj (hlane'.symm.trans hi)
    refine ⟨i, lane', hi, hin, hends (fun e he => ?_) d hin⟩
    exact hfine _ (Pool.mem_own.mp he)
  have hrunning {d : DiscoveryDomain} (hl : ∃ lane ∈ planDomainLanes urlHost config setup.running,
      d ∈ lane) : d ∈ setup.running := hperm.mem_iff.mp (List.mem_flatten.mpr hl)
  refine ⟨?_, fun d hoff => ?_, fun hjoined d hbegun => ?_, fun hjoined d hon hruns => ?_,
    fun past i o a rest heq => rightly_of_traced hlanes htraced hfine heq⟩
  · -- No data type that is switched off is in a lane.
    refine inOrder_sublist ?_
    rw [hpushed, List.map_append, htold, hs₁, List.map_map]
    refine List.nodup_append.mpr ⟨?_, ha.once hfine, ?_⟩
    · rw [show ((·.domain) ∘ setup.switchedOff) = id from rfl, List.map_id]
      exact nodup_discoveryDomains.filter _
    · rintro d hd d' hd' rfl
      rw [show ((·.domain) ∘ setup.switchedOff) = id from rfl, List.map_id, List.mem_filter] at hd
      obtain ⟨l, hl, hpush⟩ := mem_toldOf.mp hd'
      obtain ⟨lane, hlane, x, hx, habout⟩ := ha.placed l hl
      obtain rfl := Option.some.inj (habout.symm.trans (about_of_pushed hpush))
      have hon := (List.mem_filter.mp (hrunning ⟨lane, List.mem_of_getElem? hlane, hx⟩)).2
      simp only [Bool.and_eq_true, Bool.not_eq_true'] at hon hd
      exact Bool.false_ne_true (hd.2.symm.trans hon.1)
  · refine ⟨setup.switchedOff d, (hmem _).mpr ?_, rfl, rfl⟩
    rw [hpushed, hs₁]
    refine List.mem_append_left _ (List.mem_map_of_mem (List.mem_filter.mpr ⟨mem_discoveryDomains d, ?_⟩))
    rw [hoff]
    rfl
  · obtain ⟨answer, hcall⟩ := hbegun
    obtain ⟨j, hl⟩ := mem_eventsOf.mp hcall
    obtain ⟨lane, hlane, x, hx, habout⟩ := ha.placed _ hl
    obtain rfl : d = x := Option.some.inj habout
    obtain ⟨i, lane', hi, hin, hends⟩ := hended hjoined (hrunning ⟨lane, List.mem_of_getElem? hlane, hx⟩)
    obtain ⟨e, he, hpush⟩ := hends.told ⟨answer, ha.mem_own hlanes hi hin hcall rfl⟩
    have htold' : d ∈ pushed.map (·.domain) := by
      rw [htold]
      exact mem_toldOf.mpr ⟨(i, e), Pool.mem_own.mp he, hpush⟩
    obtain ⟨r, hr, hrd⟩ := List.mem_map.mp htold'
    refine ⟨r, (hmem r).mpr ?_, hrd⟩
    rw [hpushed]
    exact List.mem_append_right _ hr
  · obtain ⟨i, lane, -, -, hends⟩ := hended hjoined
      (List.mem_filter.mpr ⟨mem_discoveryDomains d, by rw [hon, hruns]; rfl⟩)
    exact hends.turn.mono own_subset

/-! ### A pass of the calendar alone -/

def calendarOnly : PassSetup Unit where
  enabled d := d = .calendar
  runsNow _ := true
  asked := false
  autoApplyRelocations := false
  zero := ()

/-- Every call is answered, but for the notes where `noted` is off. -/
def answers (noted : Bool) : (o : PassOp) → PassOp.Ans Unit o
  | .whyItStops _ => .ok none
  | .runPass _ => .ok ⟨(), none, none, []⟩
  | .noteUnreadCollections .. => if noted then .ok () else .error "connection terminated"
  | .initDomainStatus _ | .markSwitchedOff _ | .markInProgress _ | .phasesNow _ | .buildDeps _
  | .autoApplyRelocations | .close _ | .markPaused .. | .markCompleted _ | .markFailed .. => .ok ()

def portsOf (noted : Bool) (s : Results Unit) (o : PassOp) : Option (PassOp.Ans Unit o × Results Unit) :=
  some (answers noted o, s)

theorem portsOf_ports (noted : Bool) (s : Results Unit) (o : PassOp) (a : PassOp.Ans Unit o)
    (s' : Results Unit) (h : portsOf noted s o = some (a, s')) : Ports s o a s' := by
  cases h
  rfl

/-- The results when the calendar's lane starts. -/
def fourOff : Results Unit :=
  [.email, .contact, .file, .task].map calendarOnly.switchedOff

theorem rows_run : Prog.Run (fun _ _ => False) Ports (calendarOnly.startRows discoveryDomains) []
    (.ret ()) ([] ++ (calendarOnly.startRows discoveryDomains).trace (portsOf true) []) fourOff :=
  Prog.run_trace (portsOf_ports true) .refl rfl

theorem rows_answered :
    ∀ e ∈ [] ++ (calendarOnly.startRows discoveryDomains).trace (portsOf true) [], Answered e := by
  intro e he
  have hcall : ∀ s o a s', portsOf true s o = some (a, s') → Answered (.call o a) := by
    intro s o a s' h
    cases h
    cases o <;> exact ⟨_, rfl⟩
  exact Prog.of_mem_trace (fun _ _ => trivial) hcall he

/-- A data type alone has a lane of its own. -/
theorem planLanes_singleton (hosts : DiscoveryDomain → List String) (d : DiscoveryDomain) :
    planLanes hosts [d] = [[d]] := by
  have hflat : (planLanes hosts [d]).flatten = [d] :=
    List.perm_singleton.mp (planLanes_once hosts (List.nodup_singleton d))
  have hfilled : ∀ lane ∈ planLanes hosts [d], lane ≠ [] := by
    intro lane hlane
    rw [planLanes, List.mem_filter] at hlane
    exact List.ne_nil_of_length_pos (of_decide_eq_true hlane.2)
  revert hflat hfilled
  generalize planLanes hosts [d] = lanes
  intro hflat hfilled
  cases lanes with
  | nil => cases hflat
  | cons lane rest =>
      rcases List.append_eq_singleton_iff.mp hflat with ⟨hnil, -⟩ | ⟨rfl, hrest⟩
      · exact absurd hnil (hfilled lane List.mem_cons_self)
      · cases rest with
        | nil => rfl
        | cons other rest =>
            have hnil := List.append_eq_nil_iff.mp hrest
            exact absurd hnil.1 (hfilled other (List.mem_cons_of_mem _ List.mem_cons_self))

theorem calendar_lane : planDomainLanes (fun _ => none) scattered calendarOnly.running = [[.calendar]] :=
  planLanes_singleton _ .calendar

/-- The calendar's lane, run to its end. -/
theorem calendar_traced (noted : Bool) {q : DomainPass Unit Unit} {s : Results Unit}
    (he : ((calendarOnly.runLane [.calendar]).attempt >>= fun (_ : Except String Unit) =>
      (.ret () : DomainPass Unit Unit)).exec (portsOf noted) (fun _ => false) fourOff = some (q, s)) :
    ∃ pl, Pool.Traced Ports 1
      (calendarOnly.lanePrograms (planDomainLanes (fun _ => none) scattered calendarOnly.running))
      fourOff pl s ((((calendarOnly.runLane [.calendar]).attempt >>= fun (_ : Except String Unit) =>
        (.ret () : DomainPass Unit Unit)).trace (portsOf noted) fourOff).map fun e => (0, e)) := by
  rw [calendar_lane]
  exact ⟨_, Pool.traced_exec (portsOf_ports noted) he⟩

theorem calendar_fine :
    ∀ l ∈ ((((calendarOnly.runLane [.calendar]).attempt >>= fun (_ : Except String Unit) =>
      (.ret () : DomainPass Unit Unit)).trace (portsOf true) fourOff).map fun e => (0, e)),
        Fine calendarOnly l.2 := by
  intro l hl
  obtain ⟨e, he, rfl⟩ := List.mem_map.mp hl
  have hcall : ∀ s o a s', portsOf true s o = some (a, s') → Fine calendarOnly (.call o a) := by
    intro s o a s' h
    cases h
    cases o with
    | runPass d =>
        cases d with
        | file => exact fun _ _ => rfl
        | email | calendar | contact | task => trivial
    | initDomainStatus | markSwitchedOff | whyItStops | markInProgress | phasesNow | buildDeps
    | autoApplyRelocations | close | markPaused | markCompleted | noteUnreadCollections
    | markFailed => trivial
  exact Prog.of_mem_trace (fun _ _ => trivial) hcall he

theorem calendar_apart : ∃ pl s, (∃ counts, (⟨.calendar, counts, false, none, none⟩ :
    DomainSyncResult Unit) ∈ s) ∧ ∃ trace, KeptApart calendarOnly pl trace s := by
  obtain ⟨pl, htraced⟩ := calendar_traced true (q := .ret ()) rfl
  refine ⟨pl, _, ⟨(), ?_⟩, _, (domains_kept_apart (fun _ => none) scattered rows_run rows_answered).2 1 pl _ _
    rfl htraced calendar_fine⟩
  exact List.mem_append_right _ List.mem_cons_self

/-- **The calendar is told of twice**, as copied and as failed, where the note behind its result
cannot be written. -/
theorem told_of_twice :
    ¬ ∀ (setup : PassSetup Unit) (urlHost : String → Option String) (config : MappingConfig)
        (rows : List (PassEvent Unit)) (s₁ : Results Unit) (limit : Nat)
        (pl : Pool (Results Unit) PassOp (PassOp.Ans Unit) String) (s : Results Unit)
        (trace : List (LaneLabel Unit)),
      Prog.Run (fun _ _ => False) Ports (setup.startRows discoveryDomains) [] (.ret ()) rows s₁ →
      Pool.Traced Ports limit
          (setup.lanePrograms (planDomainLanes urlHost config setup.running)) s₁ pl s trace →
        KeptApart setup pl trace s := by
  intro h
  obtain ⟨pl, htraced⟩ := calendar_traced false (q := .ret ()) rfl
  have hkept := h calendarOnly (fun _ => none) scattered _ _ 1 pl _ _ rows_run htraced
  have honce := hkept.order.nodup nodup_discoveryDomains
  have hlength := (List.Perm.map (·.domain) (sortBy_perm
    (fun a b : DomainSyncResult Unit => byRank discoveryDomains a.domain b.domain) _)).nodup_iff.mp honce
  exact absurd hlength (by decide)

end Ownpace.Orchestration
