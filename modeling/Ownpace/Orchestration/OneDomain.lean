/-
Ownpace/Orchestration/OneDomain.lean

One data type's pass, walked once: what is called after what, and what its end leaves.

`Fine` is what a step must not do for a data type to be told of once and to give way to the
next: a write behind the result must not fail, nor a failure's own record, and a files pass
that is not told to stop must not come back paused where moves are applied by themselves.
-/
import Ownpace.Orchestration.DomainPass

namespace Ownpace.Orchestration

open Await

variable {C : Type} {setup : PassSetup C} {d : DiscoveryDomain} {h h' : List (PassEvent C)}

/-! ### Events -/

/-- The data type whose result an event adds. -/
def pushedBy : PassEvent C → Option DiscoveryDomain
  | .sync before after => (after.drop before.length).head?.map (·.domain)
  | .call .. => none

@[simp] theorem pushedBy_push (s : Results C) (r : DomainSyncResult C) :
    pushedBy (.sync s (s ++ [r])) = some r.domain := by
  rw [pushedBy, List.drop_left]
  rfl

/-- The data type an event is about. -/
def about : PassEvent C → Option DiscoveryDomain
  | .sync before after => pushedBy (.sync before after)
  | .call o _ => some o.domain

/-- A pass that read everything, and was neither paused nor told to stop. -/
structure PassResult.Whole (r : PassResult C) : Prop where
  haltPause : r.haltPause = none
  budgetPause : r.budgetPause = none
  unread : r.unread = []

/-- What must not go wrong. -/
def Fine (setup : PassSetup C) : PassEvent C → Prop
  | .call (.markPaused ..) (.error _) => False
  | .call (.markCompleted _) (.error _) => False
  | .call (.noteUnreadCollections ..) (.error _) => False
  | .call (.markFailed ..) (.error _) => False
  | .call (.runPass .file) (.ok r) =>
    setup.autoApplyRelocations = true → r.haltPause = none → r.budgetPause = none
  | _ => True

def AllFine (setup : PassSetup C) (h : List (PassEvent C)) : Prop := ∀ e ∈ h, Fine setup e

theorem AllFine.left (hf : AllFine setup (h ++ h')) : AllFine setup h := fun e he =>
  hf e (List.mem_append_left _ he)

theorem AllFine.last {e : PassEvent C} (hf : AllFine setup (h ++ [e])) : Fine setup e :=
  hf e List.mem_concat_self

/-- Its question answered a stop. -/
def ToldToStop (d : DiscoveryDomain) (h : List (PassEvent C)) : Prop :=
  ∃ reason, .call (.whyItStops d) (.ok (some reason)) ∈ h

/-- It was started, or its question answered a stop or failed. -/
def HadTurn (d : DiscoveryDomain) (h : List (PassEvent C)) : Prop :=
  (∃ a, .call (.markInProgress d) a ∈ h) ∨ ToldToStop d h ∨
    ∃ message, .call (.whyItStops d) (.error message) ∈ h

/-- Its pass was begun. -/
def Begun (d : DiscoveryDomain) (h : List (PassEvent C)) : Prop := ∃ a, .call (.runPass d) a ∈ h

def Told (d : DiscoveryDomain) (h : List (PassEvent C)) : Prop := ∃ e ∈ h, pushedBy e = some d

theorem HadTurn.mono (ht : HadTurn d h) (hsub : h ⊆ h') : HadTurn d h' := by
  rcases ht with ⟨a, ha⟩ | ⟨reason, ha⟩ | ⟨message, ha⟩
  · exact Or.inl ⟨a, hsub ha⟩
  · exact Or.inr (Or.inl ⟨reason, hsub ha⟩)
  · exact Or.inr (Or.inr ⟨message, hsub ha⟩)

/-! ### What may be called after what -/

def MayCall (setup : PassSetup C) (past : List (PassEvent C)) : PassOp → Prop
  | .markInProgress d => ¬ ToldToStop d past
  | .buildDeps d => ¬ ToldToStop d past
  | .runPass d => ¬ ToldToStop d past
  | .markCompleted d => ∃ r, .call (.runPass d) (.ok r) ∈ past ∧ r.Whole
  | .autoApplyRelocations => AllFine setup past →
      ∃ r, .call (.runPass .file) (.ok r) ∈ past ∧ r.haltPause = none ∧ r.budgetPause = none
  | _ => True

/-- An event about one of these data types. -/
def MayDo (setup : PassSetup C) (domains : List DiscoveryDomain) (past : List (PassEvent C)) :
    PassEvent C → Prop
  | .sync before after => ∃ r, after = before ++ [r] ∧ r.domain ∈ domains ∧
      (AllFine setup past → ¬ Told r.domain past)
  | .call o _ => o.domain ∈ domains ∧ MayCall setup past o

/-- What the end of a data type leaves. -/
structure DomainEnds (d : DiscoveryDomain) (h : List (PassEvent C)) : Prop where
  turn : HadTurn d h
  told : Begun d h → Told d h

theorem DomainEnds.mono (he : DomainEnds d h) (hsub : h ⊆ h')
    (hbegun : Begun d h' → Begun d h) : DomainEnds d h' where
  turn := he.turn.mono hsub
  told hb := by
    obtain ⟨e, hmem, hpushed⟩ := he.told (hbegun hb)
    exact ⟨e, hsub hmem, hpushed⟩

/-- How a try of it ends. -/
def TryEnds (setup : PassSetup C) (d : DiscoveryDomain) (h : List (PassEvent C)) :
    Except String Unit → Prop
  | .ok _ => AllFine setup h → DomainEnds d h
  | .error _ => AllFine setup h → HadTurn d h ∧ ¬ Told d h

/-- How its turn ends. -/
def Ends (setup : PassSetup C) (d : DiscoveryDomain) (h : List (PassEvent C))
    (r : Except String Unit) : Prop :=
  AllFine setup h → r = .ok () ∧ DomainEnds d h

/-! ### The walk -/

theorem always_ask_bind {α : Type} {J : List (PassEvent C) → PassEvent C → Prop}
    {D : List (PassEvent C) → Except String α → Prop} {o : PassOp} {k : o.Reply C → DomainPass C α} :
    (ask o >>= k).Always J D h ↔
      (∀ a, J h (.call o (.ok a)) ∧ (k a).Always J D (h ++ [.call o (.ok a)])) ∧
        ∀ e, J h (.call o (.error e)) ∧ D (h ++ [.call o (.error e)]) (.error e) :=
  Prog.always_awaitWith_bind

/-- Started, and not told of. -/
structure UnderWay (d : DiscoveryDomain) (h : List (PassEvent C)) : Prop where
  turn : HadTurn d h
  told : ¬ Told d h

theorem not_told_concat {o : PassOp} {a : o.Ans C} (ht : ¬ Told d h) :
    ¬ Told d (h ++ [.call o a]) := by
  rintro ⟨e, he, hpushed⟩
  rcases List.mem_append.mp he with he | he
  · exact ht ⟨e, he, hpushed⟩
  · rw [List.mem_singleton.mp he] at hpushed
    cases hpushed

theorem UnderWay.concat {o : PassOp} {a : o.Ans C} (hu : UnderWay d h) :
    UnderWay d (h ++ [.call o a]) where
  turn := hu.turn.mono (List.subset_append_left _ _)
  told := not_told_concat hu.told

theorem not_stopped_concat {o : PassOp} {a : o.Ans C} (hs : ¬ ToldToStop d h)
    (ho : ∀ e, o ≠ .whyItStops e) : ¬ ToldToStop d (h ++ [.call o a]) := by
  rintro ⟨reason, hmem⟩
  rcases List.mem_append.mp hmem with hmem | hmem
  · exact hs ⟨reason, hmem⟩
  · cases List.mem_singleton.mp hmem
    exact ho d rfl

theorem mayDo_call {o : PassOp} {a : o.Ans C} (hd : o.domain = d) (hmay : MayCall setup h o) :
    MayDo setup [d] h (.call o a) :=
  ⟨List.mem_singleton.mpr hd, hmay⟩

theorem always_autoApply {result : PassResult C} (hd : d = .file) (hu : UnderWay d h)
    (hrun : .call (.runPass .file) (.ok result) ∈ h) :
    (setup.autoApply result.haltPause).Always (MayDo setup [d]) (fun h' _ => UnderWay d h') h := by
  unfold PassSetup.autoApply
  split
  · next hflag =>
      cases hhalt : result.haltPause with
      | some reason => exact hu
      | none =>
          -- Applied only where the question, asked again, answers no stop.
          have happly (h' : List (PassEvent C)) (hpre : h <+: h') (hu' : UnderWay d h')
              (told : Option StopReason) :
              (if told.isNone then ask .autoApplyRelocations else .ret () : DomainPass C Unit).Always
                (MayDo setup [d]) (fun h' _ => UnderWay d h') h' := by
            split
            · have hmay (a : PassOp.Ans C .autoApplyRelocations) :
                  MayDo setup [d] h' (.call .autoApplyRelocations a) := by
                refine mayDo_call hd.symm fun hfine => ⟨result, hpre.subset hrun, hhalt, ?_⟩
                exact hfine _ (hpre.subset hrun) hflag hhalt
              exact Prog.always_awaitWith.mpr
                ⟨fun a => ⟨hmay _, hu'.concat⟩, fun e => ⟨hmay _, hu'.concat⟩⟩
            · exact hu'
          show ((setup.whyItStops .file) >>= _).Always _ _ h
          unfold PassSetup.whyItStops
          split
          · refine always_ask_bind.mpr ⟨fun told => ⟨mayDo_call hd.symm trivial, ?_⟩,
              fun e => ⟨mayDo_call hd.symm trivial, hu.concat⟩⟩
            exact happly _ (List.prefix_append _ _) hu.concat told
          · exact happly h List.prefix_rfl hu none
  · exact hu

/-- How the pass itself ends. -/
structure Ran (d : DiscoveryDomain) (h : List (PassEvent C)) (r : Except String (PassResult C)) :
    Prop where
  underWay : UnderWay d h
  ran : ∀ result, r = .ok result → .call (.runPass d) (.ok result) ∈ h

theorem always_passOf (hu : UnderWay d h) (hs : ¬ ToldToStop d h) :
    (setup.passOf d).Always (MayDo setup [d]) (Ran d) h := by
  refine always_ask_bind.mpr ⟨fun result => ⟨mayDo_call rfl hs, ?_⟩, fun e => ⟨mayDo_call rfl hs, ?_⟩⟩
  · have hhere : .call (.runPass d) (.ok result) ∈ h ++ [.call (.runPass d) (.ok result)] :=
      List.mem_concat_self
    have hret (h' : List (PassEvent C)) (hpre : h ++ [.call (.runPass d) (.ok result)] <+: h')
        (hu' : UnderWay d h') : Ran d h' (.ok result) := by
      refine ⟨hu', ?_⟩
      rintro result' heq
      cases heq
      exact hpre.subset hhere
    split
    · next hd =>
        refine (always_autoApply hd hu.concat (hd ▸ hhere)).andThen (fun h' _ hpre hu' => hret h' hpre hu')
          fun h' e hpre hu' => ⟨hu', ?_⟩
        rintro result' heq
        cases heq
    · exact hret _ List.prefix_rfl hu.concat
  · refine ⟨hu.concat, ?_⟩
    rintro result heq
    cases heq

theorem always_withDeps (hu : UnderWay d h) (hs : ¬ ToldToStop d h) :
    (setup.withDeps d).Always (MayDo setup [d]) (Ran d) h := by
  have hfailed (h' : List (PassEvent C)) (hu' : UnderWay d h') (e : String) : Ran d h' (.error e) := by
    refine ⟨hu', ?_⟩
    rintro result heq
    cases heq
  refine always_ask_bind.mpr ⟨fun _ => ⟨mayDo_call rfl hs, ?_⟩,
    fun e => ⟨mayDo_call rfl hs, hfailed _ hu.concat e⟩⟩
  rw [Prog.bind_eq, Prog.always_bind, Prog.always_attempt]
  refine (always_passOf hu.concat (not_stopped_concat hs fun _ heq => by cases heq)).mono fun h' r hpre hran => ?_
  refine always_ask_bind.mpr ⟨fun _ => ⟨mayDo_call rfl trivial, ?_⟩,
    fun e => ⟨mayDo_call rfl trivial, hfailed _ hran.underWay.concat e⟩⟩
  cases r with
  | error e => exact hfailed _ hran.underWay.concat e
  | ok result =>
      refine ⟨hran.underWay.concat, ?_⟩
      rintro result' heq
      exact List.mem_append_left _ (hran.ran result' heq)

/-! ### Its end -/

theorem not_fine_concat {e : PassEvent C} (he : ¬ Fine setup e) : ¬ AllFine setup (h ++ [e]) :=
  fun hf => he hf.last

theorem told_concat {e : PassEvent C} (he : pushedBy e = some d) : Told d (h ++ [e]) :=
  ⟨e, List.mem_concat_self, he⟩

theorem Told.mono (ht : Told d h) (hsub : h ⊆ h') : Told d h' := by
  obtain ⟨e, he, hpushed⟩ := ht
  exact ⟨e, hsub he, hpushed⟩

/-- One more result, of a data type that was not told of. -/
theorem always_push_bind {α : Type} {D : List (PassEvent C) → Except String α → Prop}
    {r : DomainSyncResult C} {k : Unit → DomainPass C α} (hd : r.domain = d) (ht : AllFine setup h → ¬ Told d h)
    (hk : ∀ h', h ⊆ h' → Told d h' → (k ()).Always (MayDo setup [d]) D h') :
    (push r >>= k).Always (MayDo setup [d]) D h := by
  intro s
  refine ⟨⟨r, rfl, List.mem_singleton.mpr hd, hd ▸ ht⟩, ?_⟩
  exact hk _ (List.subset_append_left _ _) (told_concat (by rw [pushedBy_push, hd]))

theorem always_conclude {result : PassResult C} (hu : UnderWay d h)
    (hran : .call (.runPass d) (.ok result) ∈ h) :
    (PassSetup.conclude d result).Always (MayDo setup [d]) (TryEnds setup d) h := by
  refine always_push_bind rfl (fun _ => hu.told) fun h₁ hsub htold => ?_
  have hturn : HadTurn d h₁ := hu.turn.mono hsub
  have hends {h' : List (PassEvent C)} (hsub' : h₁ ⊆ h') : DomainEnds d h' :=
    ⟨hturn.mono hsub', fun _ => htold.mono hsub'⟩
  -- The note is the last write, whatever was marked.
  have hnote (h' : List (PassEvent C)) (hsub' : h₁ ⊆ h') :
      (ask (.noteUnreadCollections d result.unread) : DomainPass C Unit).Always (MayDo setup [d])
        (TryEnds setup d) h' := by
    refine Prog.always_awaitWith.mpr ⟨fun _ => ⟨mayDo_call rfl trivial, fun _ => hends ?_⟩,
      fun e => ⟨mayDo_call rfl trivial, fun hf => (not_fine_concat id hf).elim⟩⟩
    exact List.Subset.trans hsub' (List.subset_append_left _ _)
  unfold PassSetup.markEnded
  split
  · exact hnote h₁ (List.Subset.refl _)
  · refine always_ask_bind.mpr ⟨fun _ => ⟨mayDo_call rfl trivial, ?_⟩,
      fun e => ⟨mayDo_call rfl trivial, fun hf => (not_fine_concat id hf).elim⟩⟩
    exact hnote _ (List.subset_append_left _ _)
  · next hhalt hbudget =>
      split
      · next hunread =>
          have hmay (a : PassOp.Ans C (.markCompleted d)) : MayDo setup [d] h₁ (.call (.markCompleted d) a) :=
            mayDo_call rfl ⟨result, hsub hran, hhalt, hbudget, hunread⟩
          refine always_ask_bind.mpr ⟨fun _ => ⟨hmay _, ?_⟩,
            fun e => ⟨hmay _, fun hf => (not_fine_concat id hf).elim⟩⟩
          exact hnote _ (List.subset_append_left _ _)
      · exact hnote h₁ (List.Subset.refl _)

theorem always_started (ht : ¬ Told d h) (hs : ¬ ToldToStop d h) :
    (ask (.markInProgress d) >>= fun _ => ask (.phasesNow d) >>= fun _ =>
      setup.withDeps d >>= fun result => PassSetup.conclude d result).Always (MayDo setup [d])
        (TryEnds setup d) h := by
  have hturn (a : PassOp.Ans C (.markInProgress d)) :
      UnderWay d (h ++ [.call (.markInProgress d) a]) :=
    ⟨Or.inl ⟨a, List.mem_concat_self⟩, not_told_concat ht⟩
  refine always_ask_bind.mpr ⟨fun a => ⟨mayDo_call rfl hs, ?_⟩,
    fun e => ⟨mayDo_call rfl hs, fun _ => ⟨(hturn (.error e)).turn, (hturn (.error e)).told⟩⟩⟩
  have hs₁ : ¬ ToldToStop d (h ++ [.call (.markInProgress d) (.ok a)]) :=
    not_stopped_concat hs fun _ heq => by cases heq
  refine always_ask_bind.mpr ⟨fun _ => ⟨mayDo_call rfl trivial, ?_⟩,
    fun e => ⟨mayDo_call rfl trivial, fun _ => ⟨(hturn _).concat.turn, (hturn _).concat.told⟩⟩⟩
  refine (always_withDeps (hturn _).concat (not_stopped_concat hs₁ fun _ heq => by cases heq)).andThen
    (fun h' result _ hran => ?_) fun h' e _ hran _ => ⟨hran.underWay.turn, hran.underWay.told⟩
  exact always_conclude hran.underWay (hran.ran result rfl)

theorem always_tryDomain :
    (setup.tryDomain d).Always (MayDo setup [d]) (TryEnds setup d) [] := by
  have hnone : ¬ Told d ([] : List (PassEvent C)) := by
    rintro ⟨e, he, -⟩
    cases he
  unfold PassSetup.tryDomain PassSetup.whyItStops
  split
  · refine always_ask_bind.mpr ⟨fun before => ⟨mayDo_call rfl trivial, ?_⟩,
      fun e => ⟨mayDo_call rfl trivial, fun _ => ⟨?_, not_told_concat hnone⟩⟩⟩
    · cases before with
      | some reason =>
          refine fun _ => ⟨Or.inr (Or.inl ⟨reason, List.mem_concat_self⟩), ?_⟩
          rintro ⟨a, ha⟩
          cases List.mem_singleton.mp ha
      | none =>
          refine always_started (not_told_concat hnone) ?_
          rintro ⟨reason, hmem⟩
          cases List.mem_singleton.mp hmem
    · exact Or.inr (Or.inr ⟨e, List.mem_concat_self⟩)
  · refine always_started hnone ?_
    rintro ⟨reason, hmem⟩
    cases hmem

/-- **One data type's turn**: told of once, and given up to the next. -/
theorem always_runOneDomain :
    (setup.runOneDomain d).Always (MayDo setup [d]) (Ends setup d) [] := by
  unfold PassSetup.runOneDomain
  rw [Prog.bind_eq, Prog.always_bind, Prog.always_attempt]
  refine always_tryDomain.mono fun h r _ hr => ?_
  cases r with
  | ok _ => exact fun hf => ⟨rfl, hr hf⟩
  | error message =>
      refine always_ask_bind.mpr ⟨fun _ => ⟨mayDo_call rfl trivial, ?_⟩,
        fun e => ⟨mayDo_call rfl trivial, fun hf => (not_fine_concat id hf).elim⟩⟩
      intro s
      refine ⟨⟨_, rfl, List.mem_singleton_self d, fun hf => not_told_concat (hr hf.left).2⟩, ?_⟩
      intro hf
      refine ⟨rfl, (hr hf.left.left).1.mono ?_, fun _ => told_concat (pushedBy_push _ _)⟩
      exact List.Subset.trans (List.subset_append_left _ _) (List.subset_append_left _ _)

end Ownpace.Orchestration
