/-
Ownpace/JmapContact/Answered.lean

What the answers of the contact writer say of the calls before them, whatever the server
answers and whatever the keys of the snapshot are by then.

Each call is walked once: `MayDo` says what was read before a card is created, rewritten or
destroyed, and `Good` what an answer says.  The snapshot is the writer's own, and no step of
it is anything but a listing with the keys known since (`Sound`).
-/
import Ownpace.JmapContact.Writer

namespace Ownpace.JmapContact

open Await

variable {V : Type}

section

variable (v : Values V)

/-! ### What was read -/

/-- A card that held this UID when it was listed. -/
def Listed (uid : Text) (targetId : String) (h : List (ContactEvent V)) : Prop :=
  ∃ listed card, .call .list (.ok listed) ∈ h ∧ (targetId, card) ∈ listed ∧ uidOf v card = some uid

/-- The account was listed, and no card held this UID. -/
def Absent (uid : Text) (h : List (ContactEvent V)) : Prop :=
  ∃ listed, .call .list (.ok listed) ∈ h ∧ ∀ c ∈ listed, uidOf v c.2 ≠ some uid

/-- The server's own parse of a vCard. -/
def ParsedFrom (vcard : Text) (card : Card V) (h : List (ContactEvent V)) : Prop :=
  ∃ blobId, .call (.upload vcard) (.ok blobId) ∈ h ∧ .call (.parse blobId) (.ok (.parsed card)) ∈ h

/-- A card that the server created from a vCard. -/
def CreatedFrom (folderId : String) (vcard : Text) (targetId : String) (h : List (ContactEvent V)) :
    Prop :=
  ∃ card response, ParsedFrom vcard card h ∧
    .call (.create (filedIn v folderId card)) (.ok response) ∈ h ∧ response.created = some targetId

/-- Listed under this UID, or created from a vCard that is read as having it. -/
def Known (uid : Text) (targetId : String) (h : List (ContactEvent V)) : Prop :=
  Listed v uid targetId h ∨ ∃ folderId vcard, Uid.jmapExtractUidFromVcard vcard = some uid ∧
    CreatedFrom v folderId vcard targetId h

/-- A snapshot is of a listing, with the keys known since. -/
structure SoundKeys (keys : Keys) (h : List (ContactEvent V)) : Prop where
  known : ∀ uid targetId, keys uid = some targetId → Known v uid targetId h
  absent : ∀ uid, keys uid = none → Absent v uid h

def Sound (keySnapshot : Option (Option Keys)) (h : List (ContactEvent V)) : Prop :=
  ∀ keys, keySnapshot = some (some keys) → SoundKeys v keys h

/-- These keys were the writer's. -/
def Read (keys : Keys) (h : List (ContactEvent V)) : Prop :=
  ∃ s s', .sync s s' ∈ h ∧ s.keySnapshot = some (some keys)

/-- The uploading and parsing of a vCard. -/
def IsParsing : ContactEvent V → Prop
  | .call (.upload _) _ => True
  | .call (.parse _) _ => True
  | _ => False

/-- The last thing that was done, but for the parsing of a vCard, was to read this card. -/
def ReadJustNow (targetId : String) (shownCard : Option (Card V)) (h : List (ContactEvent V)) : Prop :=
  ∃ before since, h = before ++ .call (.get targetId) (.ok shownCard) :: since ∧ ∀ e ∈ since, IsParsing e

/-- Nothing was recorded to compare with, or the card was read: with the fingerprint
recorded, or as not being there. -/
def Guarded (expected : Option String) (targetId : String) (h : List (ContactEvent V)) : Prop :=
  ∀ version, expected = some version → ∃ shownCard, ReadJustNow targetId shownCard h ∧
    ∀ card, shownCard = some card → v.digest card = version

def MayDo (calls : List Call) (h : List (ContactEvent V)) : ContactEvent V → Prop
  | .sync s s' => s'.cards = s.cards ∧ s'.replaced = s.replaced ∧
    (Sound v s.keySnapshot h → Sound v s'.keySnapshot h)
  | .call (.create card) _ => ∃ folderId vcard options uid parsed, .upsert folderId vcard options ∈ calls ∧
    Uid.jmapExtractUidFromVcard vcard = some uid ∧ ParsedFrom vcard parsed h ∧
    card = filedIn v folderId parsed ∧ (Absent v uid h ∨ ∃ keys, Read keys h ∧ keys uid = none)
  | .call (.update targetId card) _ => ∃ folderId vcard expected parsed,
    .upsert folderId vcard ⟨true, expected⟩ ∈ calls ∧ ParsedFrom vcard parsed h ∧
    card = filedIn v folderId parsed ∧ Guarded v expected targetId h
  | .call (.destroy targetId) _ => ∃ expected, .remove targetId (some expected) ∈ calls ∧
    Guarded v (some expected) targetId h
  | _ => True

/-! ### What an answer says -/

/-- Of a call that began after `start`. -/
structure GoodUpsert (folderId : String) (vcard : Text) (expected : Option String)
    (start : List (ContactEvent V)) (r : UpsertResult) (h : List (ContactEvent V)) : Prop where
  created : r.created = true → CreatedFrom v folderId vcard r.targetId h
  adopted : r.adopted = true → ∃ uid, Uid.jmapExtractUidFromVcard vcard = some uid ∧
    (Known v uid r.targetId h ∨ ∃ keys, Read keys h ∧ keys uid = some r.targetId)
  updated : r.updated = true → ∃ before card response after,
    h = start ++ before ++ .call (.update r.targetId (filedIn v folderId card)) (.ok response) :: after ∧
    response.refused = none ∧ ParsedFrom vcard card (start ++ before) ∧
    Guarded v expected r.targetId (start ++ before)

def GoodRemoval (targetId : String) (r : RemovalResult) (h : List (ContactEvent V)) : Prop :=
  r.kind.isSome = true → ∃ response, .call (.destroy targetId) (.ok response) ∈ h ∧ response.done = true

def Good (start : List (ContactEvent V)) : (call : Call) → call.Result → List (ContactEvent V) → Prop
  | .upsert folderId vcard options => GoodUpsert v folderId vcard options.expectedTargetVersion start
  | .remove targetId _ => GoodRemoval targetId

/-- Where a value is returned, and nothing is asked of an error. -/
def Returns {α : Type} (P : α → List (ContactEvent V) → Prop) (h : List (ContactEvent V)) :
    Except ContactError α → Prop
  | .ok a => P a h
  | .error _ => True

end

variable {v : Values V} {calls : List Call} {start h h' : List (ContactEvent V)} {uid vcard : Text}
variable {targetId folderId : String} {card : Card V} {keys : Keys} {α : Type}

/-! ### What was read stays so -/

theorem Listed.mono (hl : Listed v uid targetId h) (hsub : h ⊆ h') : Listed v uid targetId h' := by
  obtain ⟨listed, card, hlist, hrest⟩ := hl
  exact ⟨listed, card, hsub hlist, hrest⟩

theorem Absent.mono (ha : Absent v uid h) (hsub : h ⊆ h') : Absent v uid h' := by
  obtain ⟨listed, hlist, hrest⟩ := ha
  exact ⟨listed, hsub hlist, hrest⟩

theorem ParsedFrom.mono (hp : ParsedFrom vcard card h) (hsub : h ⊆ h') : ParsedFrom vcard card h' := by
  obtain ⟨blobId, hupload, hparse⟩ := hp
  exact ⟨blobId, hsub hupload, hsub hparse⟩

theorem CreatedFrom.mono (hc : CreatedFrom v folderId vcard targetId h) (hsub : h ⊆ h') :
    CreatedFrom v folderId vcard targetId h' := by
  obtain ⟨card, response, hparsed, hcreate, hid⟩ := hc
  exact ⟨card, response, hparsed.mono hsub, hsub hcreate, hid⟩

theorem Known.mono (hk : Known v uid targetId h) (hsub : h ⊆ h') : Known v uid targetId h' := by
  obtain hl | ⟨folderId, vcard, huid, hc⟩ := hk
  · exact .inl (hl.mono hsub)
  · exact .inr ⟨folderId, vcard, huid, hc.mono hsub⟩

theorem SoundKeys.mono (hs : SoundKeys v keys h) (hsub : h ⊆ h') : SoundKeys v keys h' :=
  ⟨fun uid targetId hkey => (hs.known uid targetId hkey).mono hsub,
    fun uid hkey => (hs.absent uid hkey).mono hsub⟩

theorem Sound.mono {keySnapshot : Option (Option Keys)} (hs : Sound v keySnapshot h) (hsub : h ⊆ h') :
    Sound v keySnapshot h' :=
  fun keys hkeys => (hs keys hkeys).mono hsub

theorem Read.mono (hr : Read keys h) (hsub : h ⊆ h') : Read keys h' := by
  obtain ⟨s, s', hmem, hkeys⟩ := hr
  exact ⟨s, s', hsub hmem, hkeys⟩

/-! ### The walk -/

section Walk

theorem always_ask_bind {o : ContactOp V} {k : o.Reply → Writing V α}
    {D : List (ContactEvent V) → Except ContactError α → Prop} :
    (ask o >>= k).Always (MayDo v calls) D h ↔
      (∀ a, MayDo v calls h (.call o (.ok a)) ∧
        (k a).Always (MayDo v calls) D (h ++ [.call o (.ok a)])) ∧
      ∀ e, MayDo v calls h (.call o (.error e)) ∧
        D (h ++ [.call o (.error e)]) (.error (.rejected e)) :=
  Prog.always_awaitWith_bind

/-- Nothing is asked before a read. -/
def IsRead : ContactOp V → Prop
  | .create _ => False
  | .update .. => False
  | .destroy _ => False
  | _ => True

theorem mayDo_of_isRead {o : ContactOp V} {a : o.Ans} (ho : IsRead o) :
    MayDo v calls h (.call o a) := by
  cases o with
  | create | update | destroy => exact ho.elim
  | connect | list | get | upload | parse => exact trivial

theorem always_read_bind {o : ContactOp V} {k : o.Reply → Writing V α}
    {P : α → List (ContactEvent V) → Prop} (ho : IsRead o)
    (hk : ∀ a, (k a).Always (MayDo v calls) (Returns P) (h ++ [.call o (.ok a)])) :
    (ask o >>= k).Always (MayDo v calls) (Returns P) h :=
  always_ask_bind.mpr ⟨fun a => ⟨mayDo_of_isRead ho, hk a⟩, fun _ => ⟨mayDo_of_isRead ho, trivial⟩⟩

/-- A part of a call, and what it returns. -/
theorem always_then {β : Type} {p : Writing V α} {k : α → Writing V β}
    {P : α → List (ContactEvent V) → Prop} {P' : β → List (ContactEvent V) → Prop}
    (hp : p.Always (MayDo v calls) (Returns P) h)
    (hk : ∀ a h', h <+: h' → P a h' → (k a).Always (MayDo v calls) (Returns P') h') :
    (p >>= k).Always (MayDo v calls) (Returns P') h :=
  hp.andThen (fun h' a hpre ha => hk a h' hpre ha) fun _ _ _ _ => trivial

/-- The same of a part that is caught. -/
theorem always_attempt_then {β : Type} {p : Writing V α} {k : Except ContactError α → Writing V β}
    {P : α → List (ContactEvent V) → Prop} {P' : β → List (ContactEvent V) → Prop}
    (hp : p.Always (MayDo v calls) (Returns P) h)
    (hk : ∀ r h', h <+: h' → Returns P h' r → (k r).Always (MayDo v calls) (Returns P') h') :
    (p.attempt >>= k).Always (MayDo v calls) (Returns P') h := by
  rw [Prog.bind_eq, Prog.always_bind, Prog.always_attempt]
  exact hp.mono fun h' r hpre hr => hk r h' hpre hr

/-- The entries of a listing are its cards, each with a UID. -/
theorem mapM_entryOf {listed : List (String × Card V)} {entries : List (Text × String)}
    (hm : listed.mapM (entryOf v) = some entries) :
    (∀ e ∈ entries, ∃ card, (e.2, card) ∈ listed ∧ uidOf v card = some e.1) ∧
      ∀ c ∈ listed, ∃ uid, uidOf v c.2 = some uid ∧ (uid, c.1) ∈ entries := by
  induction listed generalizing entries with
  | nil =>
      obtain rfl : [] = entries := Option.some.inj hm
      exact ⟨fun e he => absurd he List.not_mem_nil, fun c hc => absurd hc List.not_mem_nil⟩
  | cons c rest ih =>
      rw [List.mapM_cons] at hm
      obtain ⟨entry, hentry, hm⟩ := Option.bind_eq_some_iff.mp hm
      obtain ⟨entries', hrest, hm⟩ := Option.bind_eq_some_iff.mp hm
      obtain rfl := Option.some.inj hm
      obtain ⟨uid, hfiltered, rfl⟩ := Option.map_eq_some_iff.mp hentry
      have huid : uidOf v c.2 = some uid := (Option.filter_eq_some_iff.mp hfiltered).1
      obtain ⟨hentries, hcards⟩ := ih hrest
      constructor
      · intro e he
        obtain rfl | he := List.mem_cons.mp he
        · exact ⟨c.2, List.mem_cons_self, huid⟩
        · obtain ⟨card, hmem, hcard⟩ := hentries e he
          exact ⟨card, List.mem_cons_of_mem _ hmem, hcard⟩
      · intro c' hc'
        obtain rfl | hc' := List.mem_cons.mp hc'
        · exact ⟨uid, huid, List.mem_cons_self⟩
        · obtain ⟨uid', huid', hmem⟩ := hcards c' hc'
          exact ⟨uid', huid', List.mem_cons_of_mem _ hmem⟩

/-- The keys that entries set. -/
theorem foldl_setKey (entries : List (Text × String)) (keys : Keys) :
    (∀ uid targetId, (entries.foldl (fun keys e => setKey keys e.1 e.2) keys) uid = some targetId →
      (uid, targetId) ∈ entries ∨ keys uid = some targetId) ∧
    ∀ uid, (entries.foldl (fun keys e => setKey keys e.1 e.2) keys) uid = none →
      keys uid = none ∧ ∀ e ∈ entries, e.1 ≠ uid := by
  induction entries generalizing keys with
  | nil => exact ⟨fun _ _ hkey => .inr hkey, fun _ hkey => ⟨hkey, fun _ he => absurd he List.not_mem_nil⟩⟩
  | cons e rest ih =>
      obtain ⟨hsome, hnone⟩ := ih (setKey keys e.1 e.2)
      refine ⟨fun uid targetId hkey => ?_, fun uid hkey => ?_⟩
      · obtain hmem | hset := hsome uid targetId hkey
        · exact .inl (List.mem_cons_of_mem _ hmem)
        · by_cases huid : uid = e.1
          · subst huid
            rw [setKey, Function.update_self] at hset
            obtain rfl := Option.some.inj hset
            exact .inl List.mem_cons_self
          · rw [setKey, Function.update_of_ne huid] at hset
            exact .inr hset
      · obtain ⟨hset, hrest⟩ := hnone uid hkey
        have huid : uid ≠ e.1 := by
          rintro rfl
          rw [setKey, Function.update_self] at hset
          cases hset
        rw [setKey, Function.update_of_ne huid] at hset
        refine ⟨hset, fun e' he' => ?_⟩
        obtain rfl | he' := List.mem_cons.mp he'
        · exact huid.symm
        · exact hrest e' he'

/-- A snapshot taken of a listing. -/
theorem soundKeys_of_listing {listed : List (String × Card V)} {entries : List (Text × String)}
    (hlist : .call .list (.ok listed) ∈ h) (hm : listed.mapM (entryOf v) = some entries) :
    SoundKeys v (entries.foldl (fun keys e => setKey keys e.1 e.2) fun _ => none) h := by
  obtain ⟨hentries, hcards⟩ := mapM_entryOf hm
  obtain ⟨hsome, hnone⟩ := foldl_setKey entries fun _ => none
  refine ⟨fun uid targetId hkey => ?_, fun uid hkey => ⟨listed, hlist, fun c hc huid => ?_⟩⟩
  · obtain hmem | hbefore := hsome uid targetId hkey
    · obtain ⟨card, hcard, huid⟩ := hentries _ hmem
      exact .inl ⟨listed, card, hlist, hcard, huid⟩
    · cases hbefore
  · obtain ⟨uid', huid', hmem⟩ := hcards c hc
    obtain rfl := Option.some.inj (huid'.symm.trans huid)
    exact (hnone _ hkey).2 _ hmem rfl

theorem always_listEntries : (listEntries v).Always (MayDo v calls) (Returns fun entries h' =>
    ∃ listed, .call .list (.ok listed) ∈ h' ∧ listed.mapM (entryOf v) = some entries) h := by
  refine always_read_bind trivial fun _ => always_read_bind trivial fun listed => ?_
  cases hm : listed.mapM (entryOf v) with
  | none => exact trivial
  | some entries =>
      show ∃ _, _
      exact ⟨listed, List.mem_concat_self, hm⟩

theorem always_buildKeySnapshot : (buildKeySnapshot v).Always (MayDo v calls)
    (Returns fun snapshot h' => ∀ keys, snapshot = some keys → SoundKeys v keys h') h := by
  refine always_attempt_then always_listEntries ?_
  rintro r h' - hr
  cases r with
  | error e =>
      intro keys hkeys
      cases hkeys
  | ok entries =>
      obtain ⟨listed, hlist, hm⟩ := hr
      intro keys hkeys
      obtain rfl := Option.some.inj hkeys
      exact soundKeys_of_listing hlist hm

/-- The keys of the snapshot: as the writer has them, or just taken. -/
theorem always_targetKeys : (targetKeys v).Always (MayDo v calls) (Returns fun snapshot h' =>
    ∀ keys, snapshot = some keys → SoundKeys v keys h' ∨ Read keys h') h := by
  intro s
  refine ⟨⟨rfl, rfl, fun hs => hs⟩, ?_⟩
  simp only [Prog.ret_bind]
  cases hsnapshot : s.keySnapshot with
  | some snapshot =>
      rintro keys rfl
      exact .inr ⟨s, s, List.mem_concat_self, hsnapshot⟩
  | none =>
      refine always_then always_buildKeySnapshot fun built h' _ hbuilt => ?_
      intro s
      refine ⟨⟨rfl, rfl, fun _ keys hkeys => hbuilt keys (Option.some.inj hkeys)⟩, ?_⟩
      intro keys hkeys
      exact .inl ((hbuilt keys hkeys).mono (List.subset_append_left _ _))

theorem always_noteKey (hk : Known v uid targetId h) :
    (noteKey uid targetId : Writing V Unit).Always (MayDo v calls) (Returns fun _ _ => True) h := by
  intro s
  refine ⟨⟨rfl, rfl, fun hs keys hkeys => ?_⟩, trivial⟩
  obtain ⟨snapshot, hbefore, hmapped⟩ := Option.map_eq_some_iff.mp hkeys
  obtain ⟨before, rfl, rfl⟩ := Option.map_eq_some_iff.mp hmapped
  have hsound := hs before hbefore
  refine ⟨fun uid' targetId' hkey => ?_, fun uid' hkey => hsound.absent uid' ?_⟩
  · by_cases huid : uid' = uid
    · subst huid
      rw [setKey, Function.update_self] at hkey
      obtain rfl := Option.some.inj hkey
      exact hk
    · rw [setKey, Function.update_of_ne huid] at hkey
      exact hsound.known uid' targetId' hkey
  · have huid : uid' ≠ uid := by
      rintro rfl
      rw [setKey, Function.update_self] at hkey
      cases hkey
    rwa [setKey, Function.update_of_ne huid] at hkey

theorem always_findContactByNaturalKey : (findContactByNaturalKey v uid).Always (MayDo v calls)
    (Returns fun found h' => (∀ targetId, found = some targetId → Listed v uid targetId h') ∧
      (found = none → Absent v uid h')) h := by
  refine always_read_bind trivial fun _ => always_read_bind trivial fun listed => ?_
  refine ⟨fun targetId hfound => ?_, fun hnone => ⟨listed, List.mem_concat_self, fun c hc huid => ?_⟩⟩
  · obtain ⟨c, hfind, rfl⟩ := Option.map_eq_some_iff.mp hfound
    exact ⟨listed, c.2, List.mem_concat_self, List.mem_of_find?_eq_some hfind,
      of_decide_eq_true (List.find?_some (p := fun c : String × Card V => decide (uidOf v c.2 = some uid)) hfind)⟩
  · have hfind := List.find?_eq_none.mp (Option.map_eq_none_iff.mp hnone) c hc
    exact hfind (decide_eq_true huid)

/-- What a vCard's parsing leaves: its parse, and a card read as just now. -/
def Parsing (vcard : Text) (card : Card V) (h h' : List (ContactEvent V)) : Prop :=
  ∃ blobId, h' = h ++ [.call (.upload vcard) (.ok blobId), .call (.parse blobId) (.ok (.parsed card))]

theorem Parsing.parsedFrom (hp : Parsing vcard card h h') : ParsedFrom vcard card h' := by
  obtain ⟨blobId, rfl⟩ := hp
  exact ⟨blobId, by simp, by simp⟩

theorem Parsing.guarded {expected : Option String} (hp : Parsing vcard card h h')
    (hg : Guarded v expected targetId h) : Guarded v expected targetId h' := by
  obtain ⟨blobId, rfl⟩ := hp
  intro version hversion
  obtain ⟨shownCard, ⟨before, since, rfl, hsince⟩, hdigest⟩ := hg version hversion
  refine ⟨shownCard, ⟨before, since ++ [.call (.upload vcard) (.ok blobId),
    .call (.parse blobId) (.ok (.parsed card))], by simp, fun e he => ?_⟩, hdigest⟩
  obtain he | he := List.mem_append.mp he
  · exact hsince e he
  · obtain rfl | he := List.mem_cons.mp he
    · exact trivial
    · obtain rfl := List.mem_singleton.mp he
      exact trivial

theorem ParsedFrom.created {response : CreateResponse} (hp : ParsedFrom vcard card h)
    (hid : response.created = some targetId) : CreatedFrom v folderId vcard targetId
      (h ++ [.call (.create (filedIn v folderId card)) (.ok response)]) :=
  ⟨card, response, hp.mono (List.subset_append_left _ _), List.mem_concat_self, hid⟩

/-- The upload of a vCard, and its parse. -/
theorem always_parseVcard : (parseVcard vcard : Writing V (Card V)).Always (MayDo v calls)
    (Returns fun card h' => Parsing vcard card h h') h := by
  have hupload : (uploadVcard vcard : Writing V String).Always (MayDo v calls)
      (Returns fun blobId h' => h' = h ++ [.call (.upload vcard) (.ok blobId)]) h := by
    refine always_read_bind trivial fun blobId => ?_
    by_cases hblob : blobId = ""
    · rw [if_pos hblob]
      exact trivial
    · rw [if_neg hblob]
      exact rfl
  refine always_then hupload ?_
  rintro blobId _ - rfl
  refine always_read_bind trivial fun response => ?_
  cases response with
  | parsed card =>
      show ∃ _, _
      exact ⟨blobId, by simp⟩
  | notParsable | notFound | neither => exact trivial

theorem always_fingerprintOf : (fingerprintOf v targetId).Always (MayDo v calls)
    (Returns fun version h' => ∃ shownCard, h' = h ++ [.call (.get targetId) (.ok shownCard)] ∧
      version = shownCard.map v.digest) h := by
  refine always_read_bind trivial fun shownCard => ?_
  show ∃ _, _
  exact ⟨shownCard, rfl, rfl⟩

theorem always_storedCardVersion : (storedCardVersion v targetId).Always (MayDo v calls)
    (Returns fun _ _ => True) h := by
  refine always_attempt_then always_fingerprintOf ?_
  rintro r h' - -
  cases r <;> exact trivial

theorem always_cardVersionBefore : (cardVersionBefore v targetId).Always (MayDo v calls)
    (Returns fun version h' => ∃ shownCard, h' = h ++ [.call (.get targetId) (.ok shownCard)] ∧
      version = shownCard.map v.digest) h := by
  refine always_attempt_then always_fingerprintOf ?_
  rintro r h' - hr
  cases r with
  | ok version => exact hr
  | error e => cases e <;> exact trivial

/-- A version that was compared is the one recorded, or there was no card. -/
theorem guarded_of_compared {shownCard : Option (Card V)} {expected : Option String}
    (hsame : ¬ ((shownCard.map v.digest).isSome = true ∧ shownCard.map v.digest ≠ expected)) :
    Guarded v expected targetId (h ++ [.call (.get targetId) (.ok shownCard)]) := by
  intro version hversion
  refine ⟨shownCard, ⟨h, [], rfl, fun _ he => absurd he List.not_mem_nil⟩, ?_⟩
  rintro card rfl
  by_contra hne
  refine hsame ⟨rfl, fun heq => hne (Option.some.inj (heq.trans hversion))⟩

theorem always_createContact {options : UpsertOptions}
    (hcall : .upsert folderId vcard options ∈ calls) (huid : Uid.jmapExtractUidFromVcard vcard = some uid)
    (habsent : Absent v uid h ∨ ∃ keys, Read keys h ∧ keys uid = none) :
    (createContact v folderId vcard uid).Always (MayDo v calls)
      (Returns (GoodUpsert v folderId vcard options.expectedTargetVersion start)) h := by
  refine always_then always_parseVcard ?_
  intro card h₁ hpre hparsing
  have hdo (a : (ContactOp.create (filedIn v folderId card)).Ans) : MayDo v calls h₁ (.call _ a) :=
    ⟨folderId, vcard, options, uid, card, hcall, huid, hparsing.parsedFrom, rfl,
      habsent.imp (fun ha => ha.mono hpre.subset) fun ⟨keys, hread, hkey⟩ =>
        ⟨keys, hread.mono hpre.subset, hkey⟩⟩
  refine always_ask_bind.mpr ⟨fun response => ⟨hdo (.ok response), ?_⟩, fun e => ⟨hdo (.error e), trivial⟩⟩
  cases hid : response.created with
  | some createdId =>
      dsimp only
      have hcreated := (hparsing.parsedFrom.created hid : CreatedFrom v folderId vcard createdId _)
      refine always_then (always_noteKey (.inr ⟨folderId, vcard, huid, hcreated⟩)) fun _ h₂ hpre₂ _ => ?_
      refine always_then always_storedCardVersion fun version h₃ hpre₃ _ => ?_
      refine ⟨fun _ => hcreated.mono (hpre₂.trans hpre₃).subset, fun hr => ?_, fun hr => ?_⟩
      · cases hr
      · cases hr
  | none =>
      dsimp only
      by_cases hexists : response.notCreated = some "alreadyExists"
      · rw [if_pos hexists]
        refine always_then always_findContactByNaturalKey ?_
        rintro found h₂ - ⟨hfound, -⟩
        cases found with
        | none => exact trivial
        | some targetId =>
            have hlisted := hfound targetId rfl
            refine always_then (always_noteKey (.inl hlisted)) fun _ h₃ hpre₃ _ => ?_
            refine ⟨fun hr => ?_, fun _ => ⟨uid, huid, .inl (.inl (hlisted.mono hpre₃.subset))⟩, fun hr => ?_⟩
            · cases hr
            · cases hr
      · rw [if_neg hexists]
        exact trivial

theorem always_cardToRewrite {snapshot : Option Keys} : (cardToRewrite v snapshot uid).Always
    (MayDo v calls) (Returns fun _ _ => True) h := by
  unfold cardToRewrite
  cases snapshot.bind fun keys => keys uid with
  | some => exact trivial
  | none => exact always_findContactByNaturalKey.mono fun _ r _ _ => by cases r <;> exact trivial

/-- A version that is not the recorded one ends a call. -/
theorem always_compared (expected : Option String) :
    (cardVersionBefore v targetId).Always (MayDo v calls) (Returns fun current h' =>
      ¬ (current.isSome = true ∧ current ≠ expected) → Guarded v expected targetId h') h := by
  refine always_cardVersionBefore.mono fun h' r _ hr => ?_
  cases r with
  | error => exact trivial
  | ok current =>
      obtain ⟨shownCard, rfl, rfl⟩ := hr
      exact fun hsame => guarded_of_compared hsame

theorem always_versionToCompare {expected : Option String} :
    (versionToCompare v targetId expected).Always (MayDo v calls) (Returns fun current h' =>
      ¬ (current.isSome = true ∧ current ≠ expected) → Guarded v expected targetId h') h := by
  cases expected with
  | none => exact fun _ version hversion => by cases hversion
  | some version => exact always_compared _

/-- A key of the snapshot as it is or was, or a card looked for. -/
theorem always_existingCard {snapshot : Option Keys}
    (hsnapshot : ∀ keys, snapshot = some keys → SoundKeys v keys h ∨ Read keys h) :
    (existingCard v snapshot uid).Always (MayDo v calls) (Returns fun existing h' =>
      (∀ targetId, existing = some targetId →
        Known v uid targetId h' ∨ ∃ keys, Read keys h' ∧ keys uid = some targetId) ∧
      (existing = none → Absent v uid h' ∨ ∃ keys, Read keys h' ∧ keys uid = none)) h := by
  cases snapshot with
  | none =>
      refine always_findContactByNaturalKey.mono fun h' r _ hr => ?_
      cases r with
      | error => exact trivial
      | ok found =>
          exact ⟨fun targetId hfound => .inl (.inl (hr.1 targetId hfound)), fun hnone => .inl (hr.2 hnone)⟩
  | some keys =>
      obtain hsound | hread := hsnapshot keys rfl
      · exact ⟨fun targetId hkey => .inl (hsound.known uid targetId hkey),
          fun hkey => .inl (hsound.absent uid hkey)⟩
      · exact ⟨fun _ hkey => .inr ⟨keys, hread, hkey⟩, fun hkey => .inr ⟨keys, hread, hkey⟩⟩

theorem always_rewriteContact {expected : Option String}
    (hcall : .upsert folderId vcard ⟨true, expected⟩ ∈ calls) (hstart : start <+: h) :
    (rewriteContact v folderId vcard uid expected).Always (MayDo v calls)
      (Returns (GoodUpsert v folderId vcard expected start)) h := by
  refine always_then always_targetKeys fun snapshot h₁ hpre₁ _ => ?_
  refine always_then always_cardToRewrite fun found h₂ hpre₂ _ => ?_
  cases found with
  | none => exact trivial
  | some targetId =>
      dsimp only
      refine always_then always_versionToCompare fun current h₃ hpre₃ hcompared => ?_
      by_cases hconflict : current.isSome = true ∧ current ≠ expected
      · rw [if_pos hconflict]
        refine ⟨fun hr => ?_, fun hr => ?_, fun hr => ?_⟩
        all_goals cases hr
      rw [if_neg hconflict]
      have hguarded := hcompared hconflict
      refine always_then always_parseVcard ?_
      intro card h₄ hpre₄ hparsing
      have hdo (a : (ContactOp.update targetId (filedIn v folderId card)).Ans) :
          MayDo v calls h₄ (.call _ a) :=
        ⟨folderId, vcard, expected, card, hcall, hparsing.parsedFrom, rfl, hparsing.guarded hguarded⟩
      refine always_ask_bind.mpr ⟨fun response => ⟨hdo (.ok response), ?_⟩,
        fun e => ⟨hdo (.error e), trivial⟩⟩
      cases hrefused : response.refused with
      | some type => exact trivial
      | none =>
          dsimp only
          refine always_then always_storedCardVersion fun version h₅ hpre _ => ?_
          refine ⟨fun hr => ?_, fun hr => ?_, fun _ => ?_⟩
          · cases hr
          · cases hr
          · obtain ⟨after, rfl⟩ := hpre
            obtain ⟨before, rfl⟩ := (((hstart.trans hpre₁).trans hpre₂).trans hpre₃).trans hpre₄
            exact ⟨before, card, response, after, by simp, hrefused, hparsing.parsedFrom,
              hparsing.guarded hguarded⟩

theorem always_upsertContact {options : UpsertOptions} (hcall : .upsert folderId vcard options ∈ calls) :
    (upsertContact v folderId vcard options).Always (MayDo v calls)
      (Returns (GoodUpsert v folderId vcard options.expectedTargetVersion h)) h := by
  refine always_read_bind trivial fun _ => ?_
  cases huid : Uid.jmapExtractUidFromVcard vcard with
  | none => exact trivial
  | some uid =>
      dsimp only
      obtain ⟨overwrite, expected⟩ := options
      cases overwrite with
      | true =>
          rw [if_pos rfl]
          exact always_rewriteContact hcall (List.prefix_append _ _)
      | false =>
          rw [if_neg (by simp)]
          refine always_then always_targetKeys fun snapshot h₁ _ hsnapshot => ?_
          refine always_then (always_existingCard hsnapshot) fun existing h₂ _ hexisting => ?_
          cases existing with
          | none => exact always_createContact hcall huid (hexisting.2 rfl)
          | some existingId =>
              refine ⟨fun hr => ?_, fun _ => ⟨uid, huid, hexisting.1 existingId rfl⟩, fun hr => ?_⟩
              · cases hr
              · cases hr

theorem always_removeItem {expected : Option String} (hcall : .remove targetId expected ∈ calls) :
    (removeItem v targetId expected).Always (MayDo v calls) (Returns (GoodRemoval targetId)) h := by
  cases expected with
  | none =>
      intro hkind
      cases hkind
  | some expected =>
      refine always_read_bind trivial fun _ => ?_
      refine always_then (always_compared (some expected)) fun current h₁ _ hcompared => ?_
      by_cases hconflict : current.isSome = true ∧ current ≠ some expected
      · rw [if_pos hconflict]
        intro hkind
        cases hkind
      rw [if_neg hconflict]
      have hdo (a : (ContactOp.destroy (V := V) targetId).Ans) : MayDo v calls h₁ (.call _ a) :=
        ⟨expected, hcall, hcompared hconflict⟩
      refine always_ask_bind.mpr ⟨fun response => ⟨hdo (.ok response), ?_⟩,
        fun e => ⟨hdo (.error e), trivial⟩⟩
      cases hrefused : response.refused with
      | some type => exact trivial
      | none =>
          dsimp only
          cases hdone : response.done with
          | false => exact trivial
          | true => exact fun _ => ⟨response, List.mem_concat_self, hdone⟩

/-- **The walk of a call.** -/
theorem always_perform {call : Call} (hcall : call ∈ calls) :
    (perform v call).Always (MayDo v calls) (Returns (Good v h call)) h := by
  cases call with
  | upsert => exact always_upsertContact hcall
  | remove => exact always_removeItem hcall

theorem always_performAll {made : List Call} (hmade : ∀ call ∈ made, call ∈ calls) :
    (performAll v made).Always (MayDo v calls) (Returns fun _ _ => True) h := by
  induction made generalizing h with
  | nil => exact trivial
  | cons call made ih =>
      refine always_attempt_then (always_perform (hmade call List.mem_cons_self)) fun r h₁ _ _ => ?_
      refine always_then (ih fun call' hcall' => hmade call' (List.mem_cons_of_mem _ hcall')) ?_
      exact fun _ _ _ _ => trivial

end Walk

end Ownpace.JmapContact
