/-
Ownpace/Sharing/Apart.lean

When the rows of the sharing queue keep grants apart.

The hash is of the label and not of the item's key, so two items of one name that
are shared alike share a row.  `keepsApart_iff` says that this is the only case;
what was decided about a row stays through any rescan.
-/
import Ownpace.Sharing.Grant

namespace Ownpace.Sharing

open Store

/-! ### The parts of an identity -/

section Parts

variable {g g' : PermissionGrant}

theorem subject_name_injective {s s' : PermissionSubject} (h : s.name = s'.name) : s = s' := by
  cases s <;> cases s' <;> first | rfl | exact absurd h (by decide)

theorem nul_not_mem_subject (s : PermissionSubject) : '\x00' ∉ s.name := by
  cases s <;> decide

/-- No part of it has a NUL. -/
def Plain (g : PermissionGrant) : Prop := ∀ part ∈ identityParts g, '\x00' ∉ part

/-- Plain parts are read back off the text. -/
theorem identityParts_of_text (hg : Plain g) (hg' : Plain g') (h : identityText g = identityText g') :
    identityParts g = identityParts g' := by
  have hsplit (g : PermissionGrant) (hg : Plain g) : (identityText g).splitOn '\x00' = identityParts g :=
    List.splitOn_intercalate '\x00' hg (List.cons_ne_nil _ _)
  rw [← hsplit g hg, h, hsplit g' hg']

/-- What the parts say. -/
structure SameRight (g g' : PermissionGrant) : Prop where
  subject : g.subject = g'.subject
  on : g.on = g'.on
  person : g.person = g'.person
  role : g.role = g'.role
  link : g.isLink = g'.isLink

theorem identityParts_eq_iff : identityParts g = identityParts g' ↔ SameRight g g' := by
  constructor
  · intro h
    simp only [identityParts, List.cons.injEq, and_true] at h
    obtain ⟨hsubject, hon, hperson, hrole, hlink⟩ := h
    refine ⟨subject_name_injective hsubject, hon, hperson, hrole, ?_⟩
    cases hl : g.isLink <;> cases hl' : g'.isLink <;> simp [hl, hl'] at hlink ⊢
  · intro h
    rw [identityParts, identityParts, h.subject, h.on, h.person, h.role, h.link]

theorem plain_of_storable {digest : Text → Text} (h : (shareGrantRowFrom digest g).storable = true) :
    Plain g := by
  have hall := List.all_eq_true.mp h
  have hno (t : Text) (ht : t ∈ [shareGrantHash digest g, g.on, (g.grantee.bind said).getD [], g.role,
      g.raw, g.itemKey.getD [], g.parentKey.getD []]) : '\x00' ∉ t := by
    simpa using hall t ht
  have hperson : (g.grantee.bind said).getD [] = g.person := by
    cases hg : g.grantee with
    | none => simp [PermissionGrant.person, hg]
    | some t => by_cases ht : t = [] <;> simp [PermissionGrant.person, hg, said, ht]
  intro part hpart
  simp only [identityParts, List.mem_cons, List.not_mem_nil, or_false] at hpart
  rcases hpart with rfl | rfl | rfl | rfl | rfl
  · exact nul_not_mem_subject _
  · exact hno _ (by simp)
  · exact hperson ▸ hno _ (by simp)
  · exact hno _ (by simp)
  · split <;> decide

end Parts

/-! ### What a rescan leaves -/

section Rescan

variable {t t' : ShareTable} {now : Nat} {v : ShareGrantValues} {vs : List ShareGrantValues}
variable {key : Text} {r : ShareRow}

theorem grantHash_of_get (h : t.get key = some r) : r.grantHash = key :=
  @Table.get_key Text ShareRow _ (fun r => r.grantHash) t key r h

/-- One statement: the row of its hash is there, and no other row changes. -/
theorem get_touch (t : ShareTable) (now : Nat) (v : ShareGrantValues) (key : Text) :
    ((t.touch now v).get key).isSome = ((t.get key).isSome || decide (v.grantHash = key)) ∧
      ∀ r, t.get key = some r → ∃ r', (t.touch now v).get key = some r' ∧ r'.decision = r.decision := by
  unfold ShareTable.touch
  split
  · next hsome =>
      rw [Table.get_updateWhere]
      refine ⟨?_, fun r hr => ?_⟩
      · by_cases hk : v.grantHash = key
        · subst hk
          simp [hsome]
        · simp [hk]
      · rw [hr, Option.map_some]
        refine ⟨_, rfl, ?_⟩
        cases h : (decide (r.grantHash = v.grantHash) && true) <;> rfl
  · next hnone =>
      rw [Table.get_insert]
      have hnone : t.get v.grantHash = none := by simpa using hnone
      refine ⟨?_, fun r hr => ⟨r, ?_, rfl⟩⟩
      · by_cases hk : v.grantHash = key
        · simp [hk]
        · simp [hk]
      · have hk : v.grantHash ≠ key := by
          rintro rfl
          rw [hr] at hnone
          cases hnone
        simpa [hk] using hr

/-- Every statement of a rescan: no row goes, and what was decided stays. -/
theorem get_upsertRows {created : Nat} (hr : t.get key = some r) :
    ∃ r', (upsertRows now vs created t).2.get key = some r' ∧ r'.decision = r.decision := by
  induction vs generalizing created t r with
  | nil => exact ⟨r, hr, rfl⟩
  | cons v vs ih =>
      rw [upsertRows]
      split
      · obtain ⟨r', hr', hd⟩ := (get_touch t now v key).2 r hr
        obtain ⟨r'', hr'', hd'⟩ := @ih _ _ _ hr'
        exact ⟨r'', hr'', hd'.trans hd⟩
      · exact ⟨r, hr, rfl⟩

/-- A row of a rescan was there, or is of a grant. -/
theorem mem_of_get_upsertRows {created : Nat}
    (h : ((upsertRows now vs created t).2.get key).isSome = true) :
    (t.get key).isSome = true ∨ ∃ v ∈ vs, v.grantHash = key := by
  induction vs generalizing created t with
  | nil => exact .inl h
  | cons v vs ih =>
      rw [upsertRows] at h
      split at h
      · rcases ih h with h | ⟨v', hv', hkey⟩
        · rw [(get_touch t now v key).1, Bool.or_eq_true, decide_eq_true_eq] at h
          exact h.imp_right fun hkey => ⟨v, List.mem_cons_self, hkey⟩
        · exact .inr ⟨v', List.mem_cons_of_mem _ hv', hkey⟩
      · exact .inl h

/-- A rescan that returns: every grant could be stored, and has its row. -/
theorem upsertRows_ok {created n : Nat} (h : upsertRows now vs created t = (.ok n, t')) :
    ∀ v ∈ vs, v.storable = true ∧ (t'.get v.grantHash).isSome = true := by
  induction vs generalizing created t with
  | nil => exact fun _ hv => absurd hv List.not_mem_nil
  | cons v vs ih =>
      rw [upsertRows] at h
      split at h
      · next hstorable =>
          refine List.forall_mem_cons.mpr ⟨⟨hstorable, ?_⟩, ih h⟩
          have hthere : ((t.touch now v).get v.grantHash).isSome = true := by
            simp [(get_touch t now v v.grantHash).1]
          obtain ⟨r, hr⟩ := Option.isSome_iff_exists.mp hthere
          obtain ⟨r', hr', -⟩ := get_upsertRows hr
          rw [h] at hr'
          rw [hr']
          rfl
      · cases h

end Rescan

/-! ### Grants that are kept apart -/

section Apart

variable (digest : Text → Text)

/-- Two grants that must not become one row. -/
inductive Different (g g' : PermissionGrant) : Prop
  | item {k k'} : g.itemKey = some k → g'.itemKey = some k' → k ≠ k' → Different g g'
  | person : g.person ≠ g'.person → Different g g'
  | role : g.role ≠ g'.role → Different g g'
  | subject : g.subject ≠ g'.subject → Different g g'
  | link : g.isLink ≠ g'.isLink → Different g g'

/-- Every grant has its row, and different grants have different rows. -/
structure KeepsApart (t : ShareTable) (grants : List PermissionGrant) : Prop where
  listed : ∀ g ∈ grants, (t.get (shareGrantHash digest g)).isSome = true
  apart : ∀ g ∈ grants, ∀ g' ∈ grants, Different g g' →
    t.get (shareGrantHash digest g) ≠ t.get (shareGrantHash digest g')

/-- The same grant, but for the raw text. -/
def SameButRaw (g g' : PermissionGrant) : Prop := g' = { g with raw := g'.raw }

/-- A rescan that differs only in raw texts gives every row the same identity, and
leaves the rows as they were decided since. -/
structure RescanKeeps (t : ShareTable) (grants grants' : List PermissionGrant) : Prop where
  identities : grants.map (shareGrantHash digest) = grants'.map (shareGrantHash digest)
  decisions : ∀ (t₁ : ShareTable) deps listings now,
    (∀ key, (t.get key).isSome = true → (t₁.get key).isSome = true) →
    deps.scans = listings.map .ok → inventory listings = grants' →
    ∀ key, ((refreshShareGrants digest deps now t₁).2.get key).map ShareRow.decision =
      (t₁.get key).map ShareRow.decision

/-- No two items that are named and shared alike. -/
def TellsItems (grants : List PermissionGrant) : Prop :=
  ∀ g ∈ grants, ∀ g' ∈ grants, SameRight g g' →
    ∀ k k', g.itemKey = some k → g'.itemKey = some k' → k = k'

variable {digest} {g g' : PermissionGrant} {grants grants' : List PermissionGrant} {t t' : ShareTable}
variable {deps : RefreshShareGrantsDeps} {listings : List PermissionListing} {now : Nat}

theorem different_iff (h : SameRight g g') :
    Different g g' ↔ ∃ k k', g.itemKey = some k ∧ g'.itemKey = some k' ∧ k ≠ k' := by
  constructor
  · intro hd
    cases hd with
    | item hk hk' hne => exact ⟨_, _, hk, hk', hne⟩
    | person hne => exact absurd h.person hne
    | role hne => exact absurd h.role hne
    | subject hne => exact absurd h.subject hne
    | link hne => exact absurd h.link hne
  · rintro ⟨k, k', hk, hk', hne⟩
    exact .item hk hk' hne

theorem mapM_ok (listings : List PermissionListing) :
    (listings.map (Except.ok : PermissionListing → Except String PermissionListing)).mapM id = .ok listings := by
  induction listings with
  | nil => rfl
  | cons listing listings ih =>
      rw [List.map_cons, List.mapM_cons, ih]
      rfl

/-- A rescan whose scans answer is the upsert of its inventory. -/
theorem refreshShareGrants_snd (hscans : deps.scans = listings.map .ok) :
    (refreshShareGrants digest deps now t).2 =
      (upsertShareGrants deps.migration now ((inventory listings).map (shareGrantRowFrom digest)) t).2 := by
  rw [refreshShareGrants, hscans, mapM_ok]

/-- **A rescan that returns** could store every grant, and lists it. -/
theorem refresh_ok (hscans : deps.scans = listings.map .ok) {found : RefreshShareGrantsResult}
    (h : refreshShareGrants digest deps now t = (.ok found, t')) :
    ∀ g ∈ inventory listings, Plain g ∧ (t'.get (shareGrantHash digest g)).isSome = true := by
  have htable : (refreshShareGrants digest deps now t).2 = (upsertShareGrants deps.migration now
      ((inventory listings).map (shareGrantRowFrom digest)) t).2 := refreshShareGrants_snd hscans
  rw [h] at htable
  rw [refreshShareGrants, hscans, mapM_ok] at h
  have hfirst := congrArg Prod.fst h
  intro g hg
  simp only [upsertShareGrants] at htable hfirst
  cases hm : deps.migration with
  | false =>
      rw [hm] at hfirst
      cases hfirst
  | true =>
      rw [hm] at htable hfirst
      cases hrows : upsertRows now ((inventory listings).map (shareGrantRowFrom digest)) 0 t with
      | mk result t₁ =>
          simp only [if_true, hrows] at htable hfirst
          cases result with
          | error e => cases hfirst
          | ok n =>
              obtain ⟨hstorable, hlisted⟩ := upsertRows_ok hrows _ (List.mem_map_of_mem hg)
              exact ⟨plain_of_storable hstorable, htable ▸ hlisted⟩

theorem upsertRows_of_storable {vs : List ShareGrantValues} (h : ∀ v ∈ vs, v.storable = true)
    (now created : Nat) (t : ShareTable) : ∃ n t', upsertRows now vs created t = (.ok n, t') := by
  induction vs generalizing created t with
  | nil => exact ⟨created, t, rfl⟩
  | cons v vs ih =>
      rw [upsertRows, if_pos (h v List.mem_cons_self)]
      exact ih (fun w hw => h w (List.mem_cons_of_mem _ hw)) _ _

/-- A rescan returns where its grants can be stored. -/
theorem refresh_returns (hscans : deps.scans = listings.map .ok) (hmigration : deps.migration = true)
    (h : ∀ g ∈ inventory listings, (shareGrantRowFrom digest g).storable = true) (t : ShareTable) :
    ∃ found t', refreshShareGrants digest deps now t = (.ok found, t') := by
  obtain ⟨n, t', hrows⟩ := upsertRows_of_storable (List.forall_mem_map.mpr h) now 0 t
  rw [refreshShareGrants, hscans, mapM_ok]
  simp only [upsertShareGrants, hmigration, if_true, hrows]
  exact ⟨_, _, rfl⟩

theorem shareGrantHash_of_sameButRaw (h : SameButRaw g g') :
    shareGrantHash digest g = shareGrantHash digest g' := by
  rw [h]
  rfl

/-- A rescan of the same grants, but for their raw texts. -/
theorem rescanKeeps (hlisted : ∀ g ∈ grants, (t.get (shareGrantHash digest g)).isSome = true)
    (hsame : List.Forall₂ SameButRaw grants grants') : RescanKeeps digest t grants grants' := by
  have hhashes : grants.map (shareGrantHash digest) = grants'.map (shareGrantHash digest) := by
    induction hsame with
    | nil => rfl
    | cons h _ ih =>
        rw [List.map_cons, List.map_cons, shareGrantHash_of_sameButRaw h,
          ih fun g hg => hlisted g (List.mem_cons_of_mem _ hg)]
  refine ⟨hhashes, fun t₁ deps listings now hkept hscans hinventory key => ?_⟩
  rw [refreshShareGrants_snd hscans, hinventory, upsertShareGrants]
  split
  · cases hkey : t₁.get key with
    | some r =>
        obtain ⟨r', hr', hd⟩ := get_upsertRows hkey
        rw [hr', Option.map_some, Option.map_some, hd]
    | none =>
        cases hnew : (upsertRows now (grants'.map (shareGrantRowFrom digest)) 0 t₁).2.get key with
        | none => rfl
        | some r =>
            exfalso
            rcases mem_of_get_upsertRows (by rw [hnew]; rfl) with h | ⟨v, hv, hhash⟩
            · rw [hkey] at h
              cases h
            · obtain ⟨g', hg', rfl⟩ := List.mem_map.mp hv
              have hmem : key ∈ grants.map (shareGrantHash digest) := by
                rw [hhashes]
                exact List.mem_map.mpr ⟨g', hg', hhash⟩
              obtain ⟨g, hg, rfl⟩ := List.mem_map.mp hmem
              have hthere := hkept _ (hlisted g hg)
              rw [hkey] at hthere
              cases hthere
  · rfl

/-- **When the rows of the queue keep grants apart**, for every inventory that a rescan
stored. -/
theorem keepsApart_iff (hscans : deps.scans = listings.map .ok) {found : RefreshShareGrantsResult}
    (h : refreshShareGrants digest deps now t = (.ok found, t'))
    (hdigest : ∀ g ∈ inventory listings, ∀ g' ∈ inventory listings,
      digest (identityText g) = digest (identityText g') → identityText g = identityText g') :
    (KeepsApart digest t' (inventory listings) ∧
      ∀ grants', List.Forall₂ SameButRaw (inventory listings) grants' →
        RescanKeeps digest t' (inventory listings) grants') ↔ TellsItems (inventory listings) := by
  have hok := refresh_ok hscans h
  constructor
  · rintro ⟨hapart, -⟩ g hg g' hg' hsame k k' hk hk'
    by_contra hne
    refine hapart.apart g hg g' hg' ((different_iff hsame).mpr ⟨k, k', hk, hk', hne⟩) ?_
    rw [shareGrantHash, shareGrantHash, identityText, identityText, identityParts_eq_iff.mpr hsame]
  · intro htells
    refine ⟨⟨fun g hg => (hok g hg).2, fun g hg g' hg' hd hrow => ?_⟩, fun grants' =>
      rescanKeeps fun g hg => (hok g hg).2⟩
    obtain ⟨r, hr⟩ := Option.isSome_iff_exists.mp (hok g hg).2
    have hr' : t'.get (shareGrantHash digest g') = some r := hrow ▸ hr
    have hhash : shareGrantHash digest g = shareGrantHash digest g' :=
      (grantHash_of_get hr).symm.trans (grantHash_of_get hr')
    have hsame : SameRight g g' := identityParts_eq_iff.mp
      (identityParts_of_text (hok g hg).1 (hok g' hg').1 (hdigest g hg g' hg' hhash))
    obtain ⟨k, k', hk, hk', hne⟩ := (different_iff hsame).mp hd
    exact hne (htells g hg g' hg' hsame k k' hk hk')

end Apart

/-! ### Two files, shared with one person -/

/-- A file that Anna may read. -/
def readByAnna (id name : Text) : SharedFile where
  id := id
  name := name
  permissions := [{ role := some (text "reader"), emailAddress := some (text "anna") }]

/-- A scan of a drive with these two files. -/
def scanOf (name name' : Text) : PermissionListing :=
  listOwnedShareGrants (fun id _ => id) (fun reason => reason) 500
    [.ok [readByAnna (text "1") name, readByAnna (text "2") name']]

def depsOf (name name' : Text) : RefreshShareGrantsDeps where
  migration := true
  scans := [.ok (scanOf name name')]
  delegationReason := "no connector reads it"

/-- SHA-256, where the file is the report, and where it is the notes. -/
def sha (t : Text) : Text :=
  if t = text "drive_item\x00report.pdf\x00anna\x00reader\x00person" then
    text "8a75eaf8089e774843d28f8bb41263ec6f44f74b046fc71bd5f1d5c97bb3902f"
  else text "4efefe44b5747d585ad41ad0f08c3de92197c59cfaf1d16fdffe6481d3ef0426"

/-- The grant of such a file. -/
def annaReads (id name : Text) : PermissionGrant :=
  (readByAnna id name).grant (fun id _ => id) { role := some (text "reader"), emailAddress := some (text "anna") }

theorem scanOf_grants (name name' : Text) :
    inventory [scanOf name name'] = [annaReads (text "1") name, annaReads (text "2") name'] := rfl

theorem sha_plain (t : Text) : (sha t).contains '\x00' = false := by
  unfold sha text
  split
  all_goals
    rw [String.toList_ofList]
    decide

theorem refresh_depsOf (name name' : Text) (h : ∀ g ∈ inventory [scanOf name name'],
      ({ shareGrantRowFrom sha g with grantHash := [] } : ShareGrantValues).storable = true) :
    ∃ found t', refreshShareGrants sha (depsOf name name') 0 Table.empty = (.ok found, t') := by
  have hscans : (depsOf name name').scans = [scanOf name name'].map .ok := rfl
  refine refresh_returns hscans rfl (fun g hg => ?_) Table.empty
  have hplain : (shareGrantRowFrom sha g).grantHash.contains '\x00' = false := sha_plain _
  rw [ShareGrantValues.storable, List.all_cons, hplain]
  exact h g hg

/-- The text of the report, and no other of the two, is the one that is named. -/
theorem sha_apart : sha (identityText (annaReads (text "1") (text "report.pdf"))) ≠
    sha (identityText (annaReads (text "2") (text "notes.txt"))) := by
  have hnamed : text "drive_item\x00report.pdf\x00anna\x00reader\x00person" = _ := String.toList_ofList
  have hreport : identityText (annaReads (text "1") (text "report.pdf")) =
      text "drive_item\x00report.pdf\x00anna\x00reader\x00person" := by
    rw [hnamed]
    decide +kernel
  have hnotes : identityText (annaReads (text "2") (text "notes.txt")) ≠
      text "drive_item\x00report.pdf\x00anna\x00reader\x00person" := by
    rw [hnamed]
    decide +kernel
  rw [sha, sha, if_pos hreport, if_neg hnotes, text, text, String.toList_ofList, String.toList_ofList]
  decide

/-- A report and notes: two rows. -/
theorem two_names_two_rows :
    ∃ found t', refreshShareGrants sha (depsOf (text "report.pdf") (text "notes.txt")) 0 Table.empty =
        (.ok found, t') ∧
      (KeepsApart sha t' (inventory [scanOf (text "report.pdf") (text "notes.txt")]) ∧
        ∀ grants', List.Forall₂ SameButRaw (inventory [scanOf (text "report.pdf") (text "notes.txt")]) grants' →
          RescanKeeps sha t' (inventory [scanOf (text "report.pdf") (text "notes.txt")]) grants') := by
  obtain ⟨found, t', hrefresh⟩ :=
    refresh_depsOf (text "report.pdf") (text "notes.txt") (by decide +kernel)
  have hsha : ∀ g ∈ inventory [scanOf (text "report.pdf") (text "notes.txt")],
      ∀ g' ∈ inventory [scanOf (text "report.pdf") (text "notes.txt")],
        sha (identityText g) = sha (identityText g') → identityText g = identityText g' := by
    rw [scanOf_grants]
    intro g hg g' hg' heq
    rcases List.mem_pair.mp hg with rfl | rfl <;> rcases List.mem_pair.mp hg' with rfl | rfl
    · rfl
    · exact absurd heq sha_apart
    · exact absurd heq.symm sha_apart
    · rfl
  have hnames : ∀ g ∈ inventory [scanOf (text "report.pdf") (text "notes.txt")],
      ∀ g' ∈ inventory [scanOf (text "report.pdf") (text "notes.txt")], g.on = g'.on → g.itemKey = g'.itemKey := by
    decide +kernel
  refine ⟨found, t', hrefresh, (keepsApart_iff rfl hrefresh hsha).mpr ?_⟩
  intro g hg g' hg' hsame k k' hk hk'
  rw [hnames g hg g' hg' hsame.on, hk'] at hk
  exact (Option.some.inj hk).symm

/-- Two files called report.pdf: one row, and nobody sees that the other is shared. -/
theorem one_name_one_row :
    ¬ ∀ deps listings now t t' found, deps.scans = listings.map .ok →
      refreshShareGrants sha deps now t = (.ok found, t') → KeepsApart sha t' (inventory listings) := by
  intro hall
  obtain ⟨found, t', hrefresh⟩ :=
    refresh_depsOf (text "report.pdf") (text "report.pdf") (by decide +kernel)
  have hapart := hall _ [scanOf (text "report.pdf") (text "report.pdf")] _ _ _ _ rfl hrefresh
  rw [scanOf_grants] at hapart
  exact hapart.apart (annaReads (text "1") (text "report.pdf")) List.mem_cons_self
    (annaReads (text "2") (text "report.pdf")) (List.mem_cons_of_mem _ List.mem_cons_self)
    (.item rfl rfl (by decide)) rfl

end Ownpace.Sharing
