/-
Ownpace/JmapContact/OneWriter.lean

Any calls on one writer, and then one more: over every answer and failure of the server and
every change of the owner's between two requests, what is asked of the server rests on what
was read of it, and what the writer answers on what the server answered (`perform_honest`).

A rewrite is a patch, so a property that the new card does not have stays on the old one
(`rewritten_keeps_phones`); `Meets` says what else the answers rest on.
-/
import Ownpace.JmapContact.Answered

namespace Ownpace.JmapContact

open Await

variable {V : Type} {v : Values V} {s s' : World V} {h h' : List (ContactEvent V)}

/-! ### What a run keeps -/

/-- The writer's keys come from listings, and each rewrite confirmed was carried out. -/
structure Kept (v : Values V) (h : List (ContactEvent V)) (s : World V) : Prop where
  sound : Sound v s.keySnapshot h
  read : ∀ keys, Read keys h → SoundKeys v keys h
  rewritten : ∀ targetId sent response, .call (.update targetId sent) (.ok response) ∈ h →
    response.done = true → ∃ old, ⟨targetId, old, sent⟩ ∈ s.replaced

theorem Kept.env (hk : Kept v h s) (ho : Owner s s') : Kept v h s' :=
  ⟨ho.1 ▸ hk.sound, hk.read, fun targetId sent response hmem hdone =>
    ho.2 ▸ hk.rewritten targetId sent response hmem hdone⟩

/-- No request of the writer's is about its keys. -/
theorem Effects.frame {o : ContactOp V} {a : o.Ans} (he : Effects s o a s') :
    s'.keySnapshot = s.keySnapshot ∧ s.replaced ⊆ s'.replaced := by
  cases he with
  | updated => exact ⟨rfl, List.subset_append_left _ _⟩
  | connect | list | get | upload | parse | created | notCreated | notUpdated | destroyed
    | notDestroyed | rejects => exact ⟨rfl, List.Subset.refl _⟩

theorem Effects.rewritten {targetId : String} {sent : Card V} {response : SetResponse}
    (he : Effects s (.update targetId sent) (.ok response) s') (hdone : response.done = true) :
    ∃ old, ⟨targetId, old, sent⟩ ∈ s'.replaced := by
  cases he with
  | updated hold ha => exact ⟨_, List.mem_concat_self⟩
  | notUpdated hnot =>
      rw [hdone] at hnot
      cases hnot

theorem Kept.step {calls : List Call} {e : ContactEvent V} (hk : Kept v h s)
    (hdo : MayDo v calls h e) (hfires : Fires Effects s e s') : Kept v (h ++ [e]) s' := by
  have hsub : h ⊆ h ++ [e] := List.subset_append_left _ _
  cases e with
  | sync before after =>
      obtain ⟨rfl, rfl⟩ : s = before ∧ s' = after := hfires
      obtain ⟨-, hreplaced, hsound⟩ := hdo
      refine ⟨(hsound hk.sound).mono hsub, ?_, fun targetId sent response hmem hdone => ?_⟩
      · rintro keys ⟨s₁, s₂, hmem, hkeys⟩
        obtain hmem | hmem := List.mem_append.mp hmem
        · exact (hk.read keys ⟨s₁, s₂, hmem, hkeys⟩).mono hsub
        · cases List.mem_singleton.mp hmem
          exact (hk.sound keys hkeys).mono hsub
      · obtain hmem | hmem := List.mem_append.mp hmem
        · exact hreplaced ▸ hk.rewritten targetId sent response hmem hdone
        · cases List.mem_singleton.mp hmem
  | call o a =>
      have heffects : Effects s o a s' := hfires
      obtain ⟨hkeys, hreplaced⟩ := heffects.frame
      refine ⟨hkeys ▸ hk.sound.mono hsub, ?_, fun targetId sent response hmem hdone => ?_⟩
      · rintro keys ⟨s₁, s₂, hmem, hkeys⟩
        obtain hmem | hmem := List.mem_append.mp hmem
        · exact (hk.read keys ⟨s₁, s₂, hmem, hkeys⟩).mono hsub
        · cases List.mem_singleton.mp hmem
      · obtain hmem | hmem := List.mem_append.mp hmem
        · obtain ⟨old, hold⟩ := hk.rewritten targetId sent response hmem hdone
          exact ⟨old, hreplaced hold⟩
        · cases List.mem_singleton.mp hmem
          exact heffects.rewritten hdone

/-! ### One more call -/

/-- Listed under this UID, or created by this writer from a card with it. -/
def Held (v : Values V) (uid : Text) (targetId : String) (h : List (ContactEvent V)) : Prop :=
  Listed v uid targetId h ∨ ∃ card response, .call (.create card) (.ok response) ∈ h ∧
    response.created = some targetId ∧ uidOf v card = some uid

/-- Nothing was recorded to compare with, or the card was read with the fingerprint recorded. -/
def Unchanged (v : Values V) (expected : Option String) (targetId : String)
    (h : List (ContactEvent V)) : Prop :=
  ∀ version, expected = some version → ∃ card, ReadJustNow targetId (some card) h ∧
    v.digest card = version

/-- A rewrite or removal of this card. -/
def IsWrite (targetId : String) : ContactEvent V → Prop
  | .call (.update id _) _ => id = targetId
  | .call (.destroy id) _ => id = targetId
  | _ => False

def Refused : ContactEvent V → Prop
  | .call (.update ..) (.ok response) => response.refused.isSome
  | .call (.destroy _) (.ok response) => response.refused.isSome
  | _ => False

/-- A call that asks for this write. -/
def AsksFor (v : Values V) (h : List (ContactEvent V)) (expected : Option String) :
    Call → ContactEvent V → Prop
  | .upsert folderId vcard options, .call (.update _ sent) _ => options = ⟨true, expected⟩ ∧
    ∃ card, ParsedFrom vcard card h ∧ sent = filedIn v folderId card
  | .remove targetId version, .call (.destroy id) _ => id = targetId ∧ version = expected ∧
    expected.isSome
  | _, _ => False

/-- What the answer of an `upsertContact` says; `h` is what was before it. -/
structure UpsertSays (v : Values V) (folderId : String) (vcard : Text) (options : UpsertOptions)
    (h h' : List (ContactEvent V)) (s : World V) (r : UpsertResult) : Prop where
  created : r.created = true → CreatedFrom v folderId vcard r.targetId (h ++ h')
  adopted : r.adopted = true → ∃ uid, Uid.jmapExtractUidFromVcard vcard = some uid ∧
    Held v uid r.targetId (h ++ h')
  /-- And the card became what was sent: the server's parse, filed in the folder. -/
  updated : r.updated = true → ∃ card before response after,
    h' = before ++ .call (.update r.targetId (filedIn v folderId card)) (.ok response) :: after ∧
    ParsedFrom vcard card (h ++ before) ∧
    Unchanged v options.expectedTargetVersion r.targetId (h ++ before) ∧
    ∃ old, ⟨r.targetId, old, filedIn v folderId card⟩ ∈ s.replaced ∧
      patch old (filedIn v folderId card) = filedIn v folderId card

def Says (v : Values V) (h h' : List (ContactEvent V)) (s : World V) : (call : Call) → call.Result → Prop
  | .upsert folderId vcard options, r => UpsertSays v folderId vcard options h h' s r
  | .remove targetId _, r => GoodRemoval targetId r (h ++ h')

/-- What holds at any moment of a call, after the calls before it. -/
structure Honest (v : Values V) (call : Call) (h h' : List (ContactEvent V))
    (p : Writing V call.Result) (s : World V) : Prop where
  /-- A card is created where a listing of the account showed none with its UID. -/
  creates : ∀ before card a after, h' = before ++ .call (.create card) a :: after →
    ∃ folderId vcard options uid parsed, call = .upsert folderId vcard options ∧
      Uid.jmapExtractUidFromVcard vcard = some uid ∧ ParsedFrom vcard parsed (h ++ before) ∧
      card = filedIn v folderId parsed ∧ Absent v uid (h ++ before)
  writes : ∀ before e after targetId, h' = before ++ e :: after → IsWrite targetId e →
    ∃ expected, AsksFor v (h ++ before) expected call e ∧
      (Refused e ∨ Unchanged v expected targetId (h ++ before))
  answers : ∀ r, p = .ret r → Says v h h' s call r

/-- The server reads the UIDs that the writer reads, refuses to write a card that it showed as
not there and confirms what it does not refuse, and no card has a property that its rewrite
lacks. -/
structure Meets (v : Values V) (h : List (ContactEvent V)) (s : World V) : Prop where
  sameUid : ∀ vcard card uid, Uid.jmapExtractUidFromVcard vcard = some uid →
    ParsedFrom vcard card h → uidOf v card = some uid
  found : ∀ before e after targetId, h = before ++ e :: after → IsWrite targetId e →
    ReadJustNow targetId none before → Refused e
  confirmed : ∀ targetId sent response, .call (.update targetId sent) (.ok response) ∈ h →
    response.refused = none → response.done = true
  covers : ∀ r ∈ s.replaced, ∀ property, r.sent property = none → r.old property = none

theorem Held.of_known {uid : Text} {targetId : String}
    (hsame : ∀ vcard card uid, Uid.jmapExtractUidFromVcard vcard = some uid →
      ParsedFrom vcard card h → uidOf v card = some uid)
    (hk : Known v uid targetId h) : Held v uid targetId h := by
  obtain hlisted | ⟨folderId, vcard, huid, card, response, hparsed, hcreate, hid⟩ := hk
  · exact .inl hlisted
  · refine .inr ⟨filedIn v folderId card, response, hcreate, hid, ?_⟩
    have hfiled : filedIn v folderId card "uid" = card "uid" :=
      Function.update_of_ne (by decide) _ _
    rw [uidOf, hfiled]
    exact hsame vcard card uid huid hparsed

theorem unchanged_of_guarded {expected : Option String} {targetId : String}
    (hg : Guarded v expected targetId h) (hnone : ¬ ReadJustNow targetId (none : Option (Card V)) h) :
    Unchanged v expected targetId h := by
  intro version hversion
  obtain ⟨shownCard, hread, hdigest⟩ := hg version hversion
  cases shownCard with
  | none => exact absurd hread hnone
  | some card => exact ⟨card, hread, hdigest card rfl⟩

theorem patch_of_covers {old sent : Card V} (hc : ∀ property, sent property = none → old property = none) :
    patch old sent = sent := by
  funext property
  show (sent property).or (old property) = sent property
  cases hsent : sent property with
  | none => exact hc property hsent
  | some => rfl

/-- The guard of a write holds where the server does not show the card as gone. -/
theorem guarded_write {targetId : String} {call : Call} {e : ContactEvent V}
    (hdo : MayDo v [call] h e) (hwrite : IsWrite targetId e) :
    ∃ expected, AsksFor v h expected call e ∧ Guarded v expected targetId h := by
  cases e with
  | sync => exact hwrite.elim
  | call o a =>
      cases o with
      | update id sent =>
          obtain rfl : id = targetId := hwrite
          obtain ⟨folderId, vcard, expected, card, hcall, hparsed, hsent, hguarded⟩ := hdo
          obtain rfl := List.mem_singleton.mp hcall
          exact ⟨expected, ⟨rfl, card, hparsed, hsent⟩, hguarded⟩
      | destroy id =>
          obtain rfl : id = targetId := hwrite
          obtain ⟨expected, hcall, hguarded⟩ := hdo
          obtain rfl := List.mem_singleton.mp hcall
          exact ⟨some expected, ⟨rfl, rfl, rfl⟩, hguarded⟩
      | connect | list | get | upload | parse | create => exact hwrite.elim

theorem upsertSays_of_good {folderId : String} {vcard : Text} {options : UpsertOptions}
    {r : UpsertResult} (hm : Meets v (h ++ h') s) (hk : Kept v (h ++ h') s)
    (hg : GoodUpsert v folderId vcard options.expectedTargetVersion h r (h ++ h')) :
    UpsertSays v folderId vcard options h h' s r := by
  refine ⟨hg.created, fun hr => ?_, fun hr => ?_⟩
  · obtain ⟨uid, huid, hknown | ⟨keys, hread, hkey⟩⟩ := hg.adopted hr
    · exact ⟨uid, huid, .of_known hm.sameUid hknown⟩
    · exact ⟨uid, huid, .of_known hm.sameUid ((hk.read keys hread).known uid _ hkey)⟩
  · obtain ⟨before, card, response, after, hevents, hrefused, hparsed, hguarded⟩ := hg.updated hr
    have hmem : .call (.update r.targetId (filedIn v folderId card)) (.ok response) ∈ h ++ h' := by
      rw [hevents]
      simp
    have hunchanged : Unchanged v options.expectedTargetVersion r.targetId (h ++ before) := by
      refine unchanged_of_guarded hguarded fun hnone => ?_
      have hrefusal := hm.found _ _ after r.targetId hevents rfl hnone
      rw [Refused, hrefused] at hrefusal
      cases hrefusal
    obtain ⟨old, hold⟩ := hk.rewritten _ _ response hmem (hm.confirmed _ _ response hmem hrefused)
    rw [List.append_assoc] at hevents
    exact ⟨card, before, response, after, List.append_cancel_left hevents, hparsed, hunchanged,
      old, hold, patch_of_covers (hm.covers _ hold)⟩

section

variable {earlier : List Call} {call : Call} {answers : List Answered} {p : Writing V call.Result}
variable {s₀ s₁ : World V}

/-- The walk of a call, on its own events. -/
theorem always_perform_since : (perform v call).Always (fun t => MayDo v [call] (h ++ t))
    (fun t => Returns (Good v h call) (h ++ t)) [] := by
  refine Prog.Always.since (t := []) ?_
  rw [List.append_nil]
  exact always_perform (List.mem_singleton_self call)

/-- What both runs keep, of all that happened. -/
theorem kept_of_runs (hfresh : s₀.keySnapshot = none)
    (hearlier : Prog.Run Owner Effects (performAll v earlier) s₀ (.ret answers) h s₁)
    (hcall : Prog.Run Owner Effects (perform v call) s₁ p h' s) : Kept v (h ++ h') s := by
  have hstart : Kept v [] s₀ := by
    refine ⟨fun keys hkeys => ?_, fun keys ⟨_, _, hmem, _⟩ => absurd hmem List.not_mem_nil,
      fun _ _ _ hmem => absurd hmem List.not_mem_nil⟩
    rw [hfresh] at hkeys
    cases hkeys
  have hfirst : Kept v h s₁ := Prog.Run.rule
    (always_performAll (v := v) fun _ hmem => hmem) hstart (fun _ _ _ hk ho => hk.env ho)
    (fun _ _ _ _ hk hdo hf => hk.step hdo hf) hearlier
  refine Prog.Run.rule (I := fun t s => Kept v (h ++ t) s)
    (always_perform_since (h := h)) ?_
    (fun _ _ _ hk ho => hk.env ho) (fun t s e s' hk hdo hf => ?_) hcall
  · rwa [List.append_nil]
  · rw [← List.append_assoc]
    exact hk.step hdo hf

theorem perform_honest (hfresh : s₀.keySnapshot = none)
    (hearlier : Prog.Run Owner Effects (performAll v earlier) s₀ (.ret answers) h s₁)
    (hcall : Prog.Run Owner Effects (perform v call) s₁ p h' s)
    (hmeets : Meets v (h ++ h') s) : Honest v call h h' p s := by
  have hkept := kept_of_runs hfresh hearlier hcall
  have hjustified : Prog.Justified (fun t => MayDo v [call] (h ++ t)) h' :=
    Prog.Run.rule (I := fun t _ => Prog.Justified (fun t => MayDo v [call] (h ++ t)) t)
      always_perform_since Prog.justified_nil (fun _ _ _ hj _ => hj) (fun _ _ _ _ hj hdo _ => hj.concat hdo) hcall
  refine ⟨fun before card a after hh => ?_, fun before e after targetId hh hwrite => ?_, fun r hr => ?_⟩
  · obtain ⟨folderId, vcard, options, uid, parsed, hmem, huid, hparsed, hcard, habsent⟩ :=
      hjustified before _ after hh
    refine ⟨folderId, vcard, options, uid, parsed, (List.mem_singleton.mp hmem).symm, huid, hparsed,
      hcard, ?_⟩
    obtain habsent | ⟨keys, hread, hkey⟩ := habsent
    · exact habsent
    · obtain ⟨p₁, s', p₂, s'', hrun, -⟩ := hcall.split hh
      exact ((kept_of_runs hfresh hearlier hrun).read keys hread).absent uid hkey
  · obtain ⟨expected, hasks, hguarded⟩ := guarded_write (hjustified before e after hh) hwrite
    refine ⟨expected, hasks, ?_⟩
    by_cases hnone : ReadJustNow targetId (none : Option (Card V)) (h ++ before)
    · refine .inl (hmeets.found (h ++ before) e after targetId ?_ hwrite hnone)
      rw [hh, List.append_assoc]
    · exact .inr (unchanged_of_guarded hguarded hnone)
  · subst hr
    have hgood : Good v h call r (h ++ h') := hcall.always always_perform_since
    cases call with
    | upsert folderId vcard options => exact upsertSays_of_good hmeets hkept hgood
    | remove => exact hgood

end

/-! ### On a server -/

/-- A card's fingerprint is its UID here. -/
def plainValues : Values Text where
  text := some
  inBook := String.toList
  digest := fun card => String.ofList ((card "uid").getD [])

def adaVcard : Text := "BEGIN:VCARD\r\nUID:u\r\nFN:Ada\r\nEND:VCARD".toList

def uCard (property : String) (value : Option Text) : Card Text := fun p =>
  if p = "uid" then some ['u'] else if p = property then value else none

/-- The server's parse of it. -/
def adaCard : Card Text := uCard "name" (some ['A', 'd', 'a'])

/-- An account with one card. -/
def account (phones : Option Text) : World Text :=
  { cards := fun id => if id = "1" then some (uCard "phones" phones) else none }

/-- A server that carries out what it is asked. -/
def carriesOut (s : World Text) : (o : ContactOp Text) → Option (o.Ans × World Text)
  | .connect => some (.ok (), s)
  | .list => some (.ok ((s.cards "1").toList.map fun card => ("1", shown card)), s)
  | .get targetId => (s.cards targetId).map fun card => (.ok (some (shown card)), s)
  | .upload vcard => if vcard = adaVcard then some (.ok "blob", s) else none
  | .parse _ => some (.ok (.parsed adaCard), s)
  | .create _ => none
  | .update targetId sent => (s.cards targetId).map fun old =>
      (.ok ⟨true, none⟩, s.replace targetId old sent)
  | .destroy _ => none

theorem effects_of_carriesOut (s : World Text) (o : ContactOp Text) (a : o.Ans) (s' : World Text)
    (h : carriesOut s o = some (a, s')) : Effects s o a s' := by
  cases o with
  | connect =>
      cases h
      exact .connect
  | list =>
      cases h
      exact .list _
  | get targetId =>
      obtain ⟨card, -, h⟩ := Option.map_eq_some_iff.mp h
      cases h
      exact .get _
  | upload vcard =>
      rw [carriesOut] at h
      split_ifs at h with hada
      cases h
      exact .upload _
  | parse =>
      cases h
      exact .parse _
  | update targetId sent =>
      obtain ⟨old, hold, h⟩ := Option.map_eq_some_iff.mp h
      cases h
      exact .updated hold fun response hr => (Except.ok.inj hr).symm
  | create | destroy => cases h

/-- The rewrite of the card, whose fingerprint was recorded. -/
def adaRewrite : Call := .upsert "b" adaVcard ⟨true, some "u"⟩

theorem uid_of_adaVcard : Uid.jmapExtractUidFromVcard adaVcard = some ['u'] := by decide +kernel

theorem perform_adaRewrite : perform plainValues adaRewrite =
    (do ensureConnected; rewriteContact plainValues "b" adaVcard ['u'] (some "u")) := by
  show upsertContact plainValues "b" adaVcard ⟨true, some "u"⟩ = _
  rw [upsertContact, uid_of_adaVcard]
  rfl

def adaRewritten : UpsertResult :=
  { targetId := "1", created := false, updated := true, targetVersion := some "u" }

theorem run_adaRewrite (phones : Option Text) : ∃ s,
    Prog.Run Owner Effects (perform plainValues adaRewrite) (account phones) (.ret adaRewritten)
      ((perform plainValues adaRewrite).trace carriesOut (account phones)) s ∧
    s.replaced = [⟨"1", uCard "phones" phones, filedIn plainValues "b" adaCard⟩] := by
  have hexec : ((perform plainValues adaRewrite).exec carriesOut (fun _ => false) (account phones)).map
      (fun r => (r.1, r.2.replaced)) = some (.ret adaRewritten,
        [⟨"1", uCard "phones" phones, filedIn plainValues "b" adaCard⟩]) := by
    rw [perform_adaRewrite]
    rfl
  obtain ⟨⟨p, s⟩, hexec, heq⟩ := Option.map_eq_some_iff.mp hexec
  obtain ⟨rfl, hreplaced⟩ := Prod.mk.inj heq
  exact ⟨s, Prog.run_trace effects_of_carriesOut .refl hexec, hreplaced⟩

/-- What this server answers. -/
def Plain : ContactEvent Text → Prop
  | .call (.upload vcard) _ => vcard = adaVcard
  | .call (.parse _) a => a = .ok (.parsed adaCard)
  | .call (.get _) a => a ≠ .ok none
  | .call (.update ..) a => a = .ok ⟨true, none⟩
  | _ => True

theorem plain_of_carriesOut (s : World Text) (o : ContactOp Text) (a : o.Ans) (s' : World Text)
    (h : carriesOut s o = some (a, s')) : Plain (.call o a) := by
  cases o with
  | get targetId =>
      obtain ⟨card, -, h⟩ := Option.map_eq_some_iff.mp h
      cases h
      exact fun hnone => by cases hnone
  | upload vcard =>
      rw [carriesOut] at h
      split_ifs at h with hada
      exact hada
  | parse =>
      cases h
      rfl
  | update targetId sent =>
      obtain ⟨old, -, h⟩ := Option.map_eq_some_iff.mp h
      cases h
      rfl
  | connect | list | create | destroy => exact trivial

/-- On this server only a property of the old card may be left. -/
theorem meets_of_plain {h : List (ContactEvent Text)} {s : World Text} (hplain : ∀ e ∈ h, Plain e)
    (hcovers : ∀ r ∈ s.replaced, ∀ property, r.sent property = none → r.old property = none) :
    Meets plainValues h s := by
  refine ⟨fun vcard card uid huid hparsed => ?_, fun before e after targetId hh _ hnone => ?_,
    fun targetId sent response hmem _ => ?_, hcovers⟩
  · obtain ⟨blobId, hupload, hparse⟩ := hparsed
    obtain rfl : vcard = adaVcard := hplain _ hupload
    cases hplain _ hparse
    rw [uid_of_adaVcard] at huid
    rw [← huid]
    rfl
  · obtain ⟨first, since, hbefore, -⟩ := hnone
    refine absurd rfl (hplain (.call (.get targetId) (.ok none)) ?_)
    rw [hh, hbefore]
    simp
  · cases hplain _ hmem
    rfl

theorem plain_adaRewrite (phones : Option Text) :
    ∀ e ∈ (perform plainValues adaRewrite).trace carriesOut (account phones), Plain e :=
  fun _ he => Prog.of_mem_trace (fun _ _ => trivial) plain_of_carriesOut he

/-- Where the old card has no other property, it says what was sent. -/
theorem ada_rewritten : ∃ h s, Honest plainValues adaRewrite [] h (.ret adaRewritten) s ∧
    s.replaced = [⟨"1", uCard "phones" none, filedIn plainValues "b" adaCard⟩] := by
  obtain ⟨s, hrun, hreplaced⟩ := run_adaRewrite none
  have hnothing : Prog.Run Owner Effects (performAll plainValues []) (account none) (.ret []) []
      (account none) := .refl
  refine ⟨_, s, perform_honest rfl hnothing hrun (meets_of_plain (plain_adaRewrite none) ?_), hreplaced⟩
  rw [hreplaced]
  intro r hr property hsent
  obtain rfl := List.mem_singleton.mp hr
  show uCard "phones" none property = none
  by_cases huid : property = "uid"
  · subst huid
    cases hsent
  · simp [uCard, huid]

/-- A property that the server's parse lacks stays on the card. -/
theorem rewritten_keeps_phones : ¬ ∀ (v : Values Text) (earlier : List Call) (call : Call)
    (answers : List Answered) (s₀ s₁ s : World Text) (h h' : List (ContactEvent Text))
    (p : Writing Text call.Result), s₀.keySnapshot = none →
      Prog.Run Owner Effects (performAll v earlier) s₀ (.ret answers) h s₁ →
        Prog.Run Owner Effects (perform v call) s₁ p h' s → Honest v call h h' p s := by
  intro hall
  obtain ⟨s, hrun, hreplaced⟩ := run_adaRewrite (some ['6'])
  have hsays := (hall plainValues [] adaRewrite [] _ _ s [] _ _ rfl .refl hrun).answers _ rfl
  have hupdated : UpsertSays plainValues "b" adaVcard ⟨true, some "u"⟩ [] _ s adaRewritten := hsays
  obtain ⟨card, before, response, after, -, -, -, old, hold, hpatch⟩ := hupdated.updated rfl
  rw [hreplaced] at hold
  obtain ⟨-, hold, hsent⟩ := Replaced.mk.inj (List.mem_singleton.mp hold)
  rw [hold, hsent] at hpatch
  cases congrFun hpatch "phones"

end Ownpace.JmapContact
