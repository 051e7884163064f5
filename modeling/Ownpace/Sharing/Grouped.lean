/-
Ownpace/Sharing/Grouped.lean

What a grouping accounts for.

Every row is in one entry, and no row without a place is in a group (`accounted`).
Where no key has a NUL and no grant the mark it is joined by, a bucket is one
container and one grant set (`key_of_mem_bucket`), so what a group and a deviation
say of their items is so of each (`truthful`).
-/
import Ownpace.Sharing.Grouping

namespace Ownpace.Sharing

open Calendar Store

variable {rows : List GroupableGrant} {items : List Item}

/-! ### Grant sets -/

theorem mem_sorted {g : Text} {gs : List Text} : g ∈ sorted gs ↔ g ∈ gs :=
  (sorted_perm gs).mem_iff

theorem mem_grantSet {g : Text} {grants : List GroupableGrant} :
    g ∈ grantSet grants ↔ ∃ row ∈ grants, row.grant = g := by
  rw [grantSet, mem_sorted, List.mem_eraseDups, List.mem_map]

/-- A grant set is its members. -/
theorem grantSet_eq_iff {grants grants' : List GroupableGrant} :
    grantSet grants = grantSet grants' ↔ ∀ g, g ∈ grantSet grants ↔ g ∈ grantSet grants' := by
  constructor
  · intro h g
    rw [h]
  · intro h
    apply sorted_eq_iff.mpr
    apply (List.perm_ext_iff_of_nodup (nodup_eraseDups _) (nodup_eraseDups _)).mpr
    intro g
    have := h g
    rwa [grantSet, grantSet, mem_sorted, mem_sorted] at this

theorem mem_deviation_extra {ref cand : List Text} {g : Text} :
    g ∈ (deviation ref cand).extra ↔ g ∈ cand ∧ g ∉ ref := by
  simp [deviation, mem_sorted, List.mem_filter]

theorem mem_deviation_missing {ref cand : List Text} {g : Text} :
    g ∈ (deviation ref cand).missing ↔ g ∈ ref ∧ g ∉ cand := by
  simp [deviation, mem_sorted, List.mem_filter]

/-- Nothing deviates exactly where the two hold the same. -/
theorem deviates_eq_false_iff {ref cand : List Text} :
    (deviation ref cand).deviates = false ↔ ∀ g, g ∈ ref ↔ g ∈ cand := by
  have hdeviates : (deviation ref cand).deviates = false ↔
      (deviation ref cand).extra = [] ∧ (deviation ref cand).missing = [] := by
    simp [deviation]
  rw [hdeviates, List.eq_nil_iff_forall_not_mem, List.eq_nil_iff_forall_not_mem]
  simp only [mem_deviation_extra, mem_deviation_missing, not_and, not_not]
  constructor
  · rintro ⟨hextra, hmissing⟩ g
    exact ⟨hmissing g, hextra g⟩
  · intro h
    exact ⟨fun g => (h g).mpr, fun g => (h g).mp⟩

/-! ### Items -/

/-- The placed rows on a thing. -/
def rowsOf (rows : List GroupableGrant) (itemKey : Text) : List GroupableGrant :=
  (placed rows).filter fun row => row.itemKey.getD [] = itemKey

/-- Everything granted on a thing. -/
def grantsOf (rows : List GroupableGrant) (itemKey : Text) : List Text :=
  grantSet (rowsOf rows itemKey)

theorem mem_itemsOf {i : Item} : i ∈ itemsOf rows ↔ ∃ first rest,
    rowsOf rows (first.itemKey.getD []) = first :: rest ∧
    i = itemOf (first.itemKey.getD []) first (first :: rest) := mem_entries

/-- An item is its first row's, and counts all of them. -/
theorem item_spec {i : Item} (hi : i ∈ itemsOf rows) : ∃ first ∈ rowsOf rows i.itemKey,
    i = itemOf i.itemKey first (rowsOf rows i.itemKey) := by
  obtain ⟨first, rest, hrows, rfl⟩ := mem_itemsOf.mp hi
  refine ⟨first, ?_, ?_⟩
  · show first ∈ rowsOf rows (first.itemKey.getD [])
    rw [hrows]
    exact List.mem_cons_self
  · show _ = itemOf (first.itemKey.getD []) first (rowsOf rows (first.itemKey.getD []))
    rw [hrows]

theorem item_grants {i : Item} (hi : i ∈ itemsOf rows) : i.grants = grantsOf rows i.itemKey := by
  obtain ⟨first, -, h⟩ := item_spec hi
  rw [h]
  rfl

theorem item_rowIds {i : Item} (hi : i ∈ itemsOf rows) :
    i.rowIds = (rowsOf rows i.itemKey).map GroupableGrant.id := by
  obtain ⟨first, -, h⟩ := item_spec hi
  rw [h]
  rfl

theorem nodup_itemKeys (rows : List GroupableGrant) : ((itemsOf rows).map Item.itemKey).Nodup :=
  entries_nodup fun _ _ => rfl

theorem itemKey_inj {i j : Item} (hi : i ∈ itemsOf rows) (hj : j ∈ itemsOf rows)
    (h : i.itemKey = j.itemKey) : i = j :=
  List.inj_on_of_nodup_map (nodup_itemKeys rows) hi hj h

/-! ### Every row in one entry -/

/-- **The account of a grouping**: every row's id in one entry, and no row without a
place in a group. -/
structure Accounted (rows : List GroupableGrant) (result : ShareGrouping) : Prop where
  once : (result.groups.flatMap ShareGroup.rowIds ++
    result.standalone.flatMap ShareStandalone.rowIds).Perm (rows.map GroupableGrant.id)
  apart : (rows.map GroupableGrant.id).Nodup → ∀ row ∈ rows, row.isPlaced = false →
    ∀ g ∈ result.groups, row.id ∉ g.rowIds

theorem items_rowIds_perm (rows : List GroupableGrant) :
    ((itemsOf rows).flatMap Item.rowIds).Perm ((placed rows).map GroupableGrant.id) :=
  entries_flatMap_perm fun _ _ _ => List.Perm.refl _

theorem unplaced_rowIds_perm (rows : List GroupableGrant) :
    ((unplacedsOf rows).flatMap ShareStandalone.rowIds).Perm
      ((unplaced rows).map GroupableGrant.id) :=
  entries_flatMap_perm fun _ _ _ => sorted_perm _

theorem buckets_items_perm (items : List Item) :
    ((bucketsOf items).flatMap Bucket.items).Perm items := by
  have h : ((bucketsOf items).flatMap Bucket.items).Perm (items.map id) :=
    entries_flatMap_perm fun _ _ as => by rw [List.map_id]
  rwa [List.map_id] at h

theorem flatMap_filter_append_perm {β γ : Type} (p : β → Bool) (f : β → List γ) (l : List β) :
    ((l.filter p).flatMap f ++ (l.filter fun b => !p b).flatMap f).Perm (l.flatMap f) := by
  rw [← List.flatMap_append]
  exact (List.filter_append_perm p l).flatMap_right f

/-- Groups and deviations hold the placed rows. -/
theorem placed_rowIds_perm (rows : List GroupableGrant) :
    ((groupsOf (itemsOf rows)).flatMap ShareGroup.rowIds ++
      (deviatingsOf (itemsOf rows)).flatMap ShareStandalone.rowIds).Perm
      ((placed rows).map GroupableGrant.id) := by
  have hgroups : ((groupsOf (itemsOf rows)).flatMap ShareGroup.rowIds).Perm
      (((bucketsOf (itemsOf rows)).filter fun b => agrees (itemsOf rows) b.key).flatMap
        fun b => b.items.flatMap Item.rowIds) := by
    rw [groupsOf, List.flatMap_map]
    exact List.Perm.flatMap_left _ fun b _ => sorted_perm _
  have hdeviatings : ((deviatingsOf (itemsOf rows)).flatMap ShareStandalone.rowIds).Perm
      (((bucketsOf (itemsOf rows)).filter fun b => !agrees (itemsOf rows) b.key).flatMap
        fun b => b.items.flatMap Item.rowIds) := by
    rw [deviatingsOf, List.flatMap_assoc]
    apply List.Perm.flatMap_left
    intro b _
    rw [List.flatMap_map]
    exact List.Perm.flatMap_left _ fun i _ => sorted_perm _
  apply (hgroups.append hdeviatings).trans
  apply (flatMap_filter_append_perm _ _ _).trans
  rw [← List.flatMap_assoc]
  exact ((buckets_items_perm _).flatMap_right _).trans (items_rowIds_perm rows)

theorem accounted (localeCompare : Text → Text → Int) (rows : List GroupableGrant) :
    Accounted rows (groupShareGrants localeCompare rows) := by
  have hplaced := placed_rowIds_perm rows
  have hgroups := (sortBy_perm (groupOrder localeCompare) (groupsOf (itemsOf rows))).flatMap_right
    ShareGroup.rowIds
  have hstandalone := (sortBy_perm (standaloneOrder localeCompare)
    (deviatingsOf (itemsOf rows) ++ unplacedsOf rows)).flatMap_right ShareStandalone.rowIds
  have hrows : ((placed rows).map GroupableGrant.id ++ (unplaced rows).map GroupableGrant.id).Perm
      (rows.map GroupableGrant.id) := by
    rw [← List.map_append]
    exact (List.filter_append_perm _ rows).map _
  refine ⟨?_, ?_⟩
  · apply (hgroups.append hstandalone).trans
    rw [List.flatMap_append, ← List.append_assoc]
    exact (hplaced.append (unplaced_rowIds_perm rows)).trans hrows
  · intro hnodup row hrow hunplaced g hg hmem
    have hdisjoint := List.disjoint_of_nodup_append (hrows.nodup_iff.mpr hnodup)
    apply @hdisjoint row.id
    · apply hplaced.mem_iff.mp
      exact List.mem_append_left _ (List.mem_flatMap.mpr ⟨g, mem_sortBy.mp hg, hmem⟩)
    · apply List.mem_map_of_mem
      exact List.mem_filter.mpr ⟨hrow, by rw [hunplaced]; rfl⟩

/-! ### Buckets -/

/-- No two of the items' keys are written the same. -/
def Told (items : List Item) : Prop := ∀ i ∈ items, ∀ j ∈ items,
  bucketText (pairOf items i) = bucketText (pairOf items j) → pairOf items i = pairOf items j

/-- A text is cut in one way at the first of a character. -/
theorem cut_inj {c : Char} {a a' b b' : Text} (ha : c ∉ a) (ha' : c ∉ a')
    (h : a ++ c :: b = a' ++ c :: b') : a = a' ∧ b = b' := by
  rcases List.append_eq_append_iff.mp h with ⟨d, rfl, hd⟩ | ⟨d, rfl, hd⟩
  · cases d with
    | nil => exact ⟨(List.append_nil a).symm, (List.cons.inj hd).2⟩
    | cons e d =>
        have : c = e := (List.cons.inj hd).1
        exact absurd (by rw [this]; simp) ha'
  · cases d with
    | nil => exact ⟨List.append_nil a', (List.cons.inj hd).2.symm⟩
    | cons e d =>
        have : c = e := (List.cons.inj hd).1
        exact absurd (by rw [this]; simp) ha

theorem bucketText_inj {key key' : Text × List Text} (hnul : '\x00' ∉ key.1)
    (hnul' : '\x00' ∉ key'.1) (hne : key.2 ≠ []) (hne' : key'.2 ≠ [])
    (hmark : ∀ g ∈ key.2, '\x01' ∉ g) (hmark' : ∀ g ∈ key'.2, '\x01' ∉ g)
    (h : bucketText key = bucketText key') : key = key' := by
  obtain ⟨hparent, hjoined⟩ := cut_inj hnul hnul' h
  apply Prod.ext hparent
  rw [← List.splitOn_intercalate '\x01' hmark hne, hjoined,
    List.splitOn_intercalate '\x01' hmark' hne']

/-- What is filed with an item is filed by its key. -/
theorem filter_told (htold : Told items) {first : Item} (hfirst : first ∈ items) :
    (items.filter fun i => bucketText (pairOf items i) = bucketText (pairOf items first)) =
      items.filter fun i => pairOf items i = pairOf items first := by
  apply List.filter_congr
  intro i hi
  rw [decide_eq_decide]
  exact ⟨htold i hi first hfirst, fun h => congrArg bucketText h⟩

theorem mem_bucketsOf (htold : Told items) {b : Bucket} : b ∈ bucketsOf items ↔
    b.items ≠ [] ∧ b.items = items.filter fun i => pairOf items i = b.key := by
  rw [bucketsOf, mem_entries]
  constructor
  · rintro ⟨first, rest, has, rfl⟩
    have hfirst : first ∈ items := (List.mem_filter.mp (has ▸ List.mem_cons_self)).1
    rw [filter_told htold hfirst] at has
    exact ⟨List.cons_ne_nil _ _, has.symm⟩
  · rintro ⟨hne, hitems⟩
    cases has : b.items with
    | nil => exact absurd has hne
    | cons first rest =>
        rw [has] at hitems
        obtain ⟨hfirst, hkey⟩ := List.mem_filter.mp (hitems ▸ List.mem_cons_self)
        have hkey : pairOf items first = b.key := of_decide_eq_true hkey
        refine ⟨first, rest, ?_, ?_⟩
        · rw [filter_told htold hfirst, hkey, hitems]
        · obtain ⟨parentKey, grants, bitems⟩ := b
          have has : bitems = first :: rest := has
          have hparent : bucketKeyFor items first = parentKey := (Prod.mk.inj hkey).1
          have hgrants : first.grants = grants := (Prod.mk.inj hkey).2
          rw [has, hparent, hgrants]

theorem exists_bucket (htold : Told items) {i : Item} (hi : i ∈ items) :
    ∃ b ∈ bucketsOf items, b.key = pairOf items i := by
  refine ⟨⟨bucketKeyFor items i, i.grants, items.filter fun j => pairOf items j = pairOf items i⟩,
    (mem_bucketsOf htold).mpr ⟨?_, rfl⟩, rfl⟩
  exact List.ne_nil_of_mem (List.mem_filter.mpr ⟨hi, decide_eq_true rfl⟩)

theorem key_of_mem_bucket (htold : Told items) {b : Bucket} (hb : b ∈ bucketsOf items) {i : Item}
    (hi : i ∈ b.items) : i ∈ items ∧ pairOf items i = b.key := by
  rw [((mem_bucketsOf htold).mp hb).2] at hi
  obtain ⟨hi, hkey⟩ := List.mem_filter.mp hi
  exact ⟨hi, of_decide_eq_true hkey⟩

theorem nodup_bucketKeys (items : List Item) : ((bucketsOf items).map Bucket.key).Nodup := by
  have h : ((bucketsOf items).map fun b => bucketText b.key).Nodup := entries_nodup fun _ _ => rfl
  apply List.Nodup.of_map bucketText
  rwa [List.map_map]

/-- How many items are filed by a key. -/
def carriers (items : List Item) (key : Text × List Text) : Nat :=
  (items.filter fun i => pairOf items i = key).length

theorem length_bucket (htold : Told items) {b : Bucket} (hb : b ∈ bucketsOf items) :
    b.items.length = carriers items b.key := by
  rw [((mem_bucketsOf htold).mp hb).2, carriers]

/-! ### The reference -/

/-- The largest of the buckets of a container. -/
structure IsLargest (buckets : List Bucket) (parentKey : Text) (b : Bucket) : Prop where
  mem : b ∈ buckets
  key : b.parentKey = parentKey
  le : ∀ c ∈ buckets, c.parentKey = parentKey → c.items.length ≤ b.items.length

theorem largestPerParent_spec (buckets : List Bucket) (parentKey : Text) :
    (largestPerParent buckets parentKey = none ∧ ∀ b ∈ buckets, b.parentKey ≠ parentKey) ∨
    ∃ b, largestPerParent buckets parentKey = some b ∧ IsLargest buckets parentKey b := by
  induction buckets using List.reverseRecOn with
  | nil => exact Or.inl ⟨rfl, fun b hb => absurd hb List.not_mem_nil⟩
  | append_singleton buckets c ih =>
      have hfold : largestPerParent (buckets ++ [c]) = keepLargest (largestPerParent buckets) c := by
        rw [largestPerParent, List.foldl_append]
        rfl
      by_cases hc : c.parentKey = parentKey
      · right
        rcases ih with ⟨hnone, hno⟩ | ⟨b, hb, hlargest⟩
        · refine ⟨c, ?_, List.mem_append_right _ List.mem_cons_self, hc, ?_⟩
          · rw [hfold, keepLargest, hc, hnone, Option.all_none, if_pos rfl, Function.update_self]
          · intro d hd hkey
            rcases List.mem_append.mp hd with hd | hd
            · exact absurd hkey (hno d hd)
            · rw [List.mem_singleton.mp hd]
        · by_cases hlt : b.items.length < c.items.length
          · refine ⟨c, ?_, List.mem_append_right _ List.mem_cons_self, hc, ?_⟩
            · rw [hfold, keepLargest, hc, hb, Option.all_some, if_pos (decide_eq_true hlt),
                Function.update_self]
            · intro d hd hkey
              rcases List.mem_append.mp hd with hd | hd
              · have := hlargest.le d hd hkey
                omega
              · rw [List.mem_singleton.mp hd]
          · refine ⟨b, ?_, List.mem_append_left _ hlargest.mem, hlargest.key, ?_⟩
            · rw [hfold, keepLargest, hc, hb, Option.all_some,
                if_neg (by rw [decide_eq_true_eq]; exact hlt), hb]
            · intro d hd hkey
              rcases List.mem_append.mp hd with hd | hd
              · exact hlargest.le d hd hkey
              · rw [List.mem_singleton.mp hd]
                omega
      · have hsame : largestPerParent (buckets ++ [c]) parentKey =
            largestPerParent buckets parentKey := by
          rw [hfold, keepLargest]
          split
          · exact Function.update_of_ne (Ne.symm hc) _ _
          · rfl
        rw [hsame]
        rcases ih with ⟨hnone, hno⟩ | ⟨b, hb, hlargest⟩
        · refine Or.inl ⟨hnone, fun d hd => ?_⟩
          rcases List.mem_append.mp hd with hd | hd
          · exact hno d hd
          · rwa [List.mem_singleton.mp hd]
        · refine Or.inr ⟨b, hb, List.mem_append_left _ hlargest.mem, hlargest.key, ?_⟩
          intro d hd hkey
          rcases List.mem_append.mp hd with hd | hd
          · exact hlargest.le d hd hkey
          · exact absurd (List.mem_singleton.mp hd ▸ hkey) hc

/-- What an item's grants are. -/
def IsGrantSet (gs : List Text) : Prop := ∃ grants, gs = grantSet grants

theorem isGrantSet_of_item {i : Item} (hi : i ∈ itemsOf rows) : IsGrantSet i.grants :=
  ⟨_, item_grants hi⟩

/-- Of grant sets only the same one does not deviate. -/
theorem eq_of_not_deviates {ref cand : List Text} (href : IsGrantSet ref) (hcand : IsGrantSet cand) :
    (deviation ref cand).deviates = false ↔ ref = cand := by
  obtain ⟨grants, rfl⟩ := href
  obtain ⟨grants', rfl⟩ := hcand
  rw [deviates_eq_false_iff, grantSet_eq_iff]

theorem mem_of_containerItem {p : Text} {folder : Item} (h : containerItem items p = some folder) :
    folder ∈ items ∧ folder.isContainer = some true ∧ folder.itemKey = p := by
  have hp := List.find?_some h
  rw [Bool.and_eq_true, decide_eq_true_eq, decide_eq_true_eq] at hp
  exact ⟨List.mem_of_find?_eq_some h, hp⟩

/-- No shared container has the key. -/
def Unshared (items : List Item) (p : Text) : Prop :=
  ∀ folder ∈ items, folder.isContainer = some true → folder.itemKey ≠ p

/-- No grant set is carried by more of a container's items. -/
structure IsMost (items : List Item) (p : Text) (gs : List Text) : Prop where
  carried : 0 < carriers items (p, gs)
  le : ∀ gs', carriers items (p, gs') ≤ carriers items (p, gs)

/-- Is it the container's own grants, or else carried by the most of its items? -/
structure IsReference (items : List Item) (p : Text) (gs : List Text) : Prop where
  own : ∀ folder ∈ items, folder.isContainer = some true → folder.itemKey = p → folder.grants = gs
  most : Unshared items p → IsMost items p gs

theorem grants_of_bucket (htold : Told items) {b : Bucket} (hb : b ∈ bucketsOf items) :
    ∃ i ∈ items, pairOf items i = b.key := by
  obtain ⟨hne, hitems⟩ := (mem_bucketsOf htold).mp hb
  obtain ⟨i, hi⟩ := List.exists_mem_of_ne_nil _ hne
  exact ⟨i, key_of_mem_bucket htold hb hi⟩

theorem carriers_of_bucket (htold : Told items) (key : Text × List Text) :
    carriers items key = 0 ∨ ∃ b ∈ bucketsOf items, b.key = key ∧ b.items.length = carriers items key := by
  rcases Nat.eq_zero_or_pos (carriers items key) with h | h
  · exact Or.inl h
  · right
    obtain ⟨i, hi⟩ := List.exists_mem_of_length_pos h
    obtain ⟨hi, hkey⟩ := List.mem_filter.mp hi
    obtain ⟨b, hb, hbkey⟩ := exists_bucket htold hi
    have hkey : b.key = key := hbkey.trans (of_decide_eq_true hkey)
    exact ⟨b, hb, hkey, hkey ▸ length_bucket htold hb⟩

theorem isReference (htold : Told items) (hkeys : (items.map Item.itemKey).Nodup) {p : Text}
    {gs : List Text} (h : reference items p = some gs) : IsReference items p gs := by
  rw [reference] at h
  cases hfolder : containerItem items p with
  | some folder =>
      rw [hfolder] at h
      cases h
      obtain ⟨hmem, hcontainer, hkey⟩ := mem_of_containerItem hfolder
      refine ⟨?_, fun hno => absurd hkey (hno folder hmem hcontainer)⟩
      intro other hother _ hkey'
      rw [List.inj_on_of_nodup_map hkeys hother hmem (hkey'.trans hkey.symm)]
  | none =>
      rw [hfolder] at h
      obtain ⟨b, hb, rfl⟩ := Option.map_eq_some_iff.mp h
      refine ⟨?_, fun _ => ?_⟩
      · intro folder hmem hcontainer hkey
        have := List.find?_eq_none.mp hfolder folder hmem
        simp [hcontainer, hkey] at this
      · rcases largestPerParent_spec (bucketsOf items) p with ⟨hnone, -⟩ | ⟨b', hb', hlargest⟩
        · rw [hb] at hnone
          cases hnone
        · cases hb.symm.trans hb'
          have hlength := length_bucket htold hlargest.mem
          rw [Bucket.key, hlargest.key] at hlength
          refine ⟨?_, fun gs' => ?_⟩
          · rw [← hlength]
            exact List.length_pos_iff.mpr ((mem_bucketsOf htold).mp hlargest.mem).1
          · rw [← hlength]
            rcases carriers_of_bucket htold (p, gs') with hzero | ⟨c, hc, hkey, hclength⟩
            · omega
            · rw [← hclength]
              exact hlargest.le c hc (congrArg Prod.fst hkey)

/-- A container something is filed under has a reference. -/
theorem exists_reference (htold : Told (itemsOf rows)) {b : Bucket}
    (hb : b ∈ bucketsOf (itemsOf rows)) :
    ∃ gs, reference (itemsOf rows) b.parentKey = some gs ∧ IsGrantSet gs := by
  rw [reference]
  cases hfolder : containerItem (itemsOf rows) b.parentKey with
  | some folder => exact ⟨_, rfl, isGrantSet_of_item (mem_of_containerItem hfolder).1⟩
  | none =>
      rcases largestPerParent_spec (bucketsOf (itemsOf rows)) b.parentKey with ⟨-, hno⟩ | ⟨c, hc, hlargest⟩
      · exact absurd rfl (hno b hb)
      · obtain ⟨i, hi, hkey⟩ := grants_of_bucket htold hlargest.mem
        refine ⟨c.grants, by rw [hc]; rfl, ?_⟩
        rw [← (Prod.mk.inj hkey).2]
        exact isGrantSet_of_item hi

/-- A bucket agrees with its container's reference by carrying it. -/
theorem agrees_iff (htold : Told (itemsOf rows)) {b : Bucket} (hb : b ∈ bucketsOf (itemsOf rows)) :
    agrees (itemsOf rows) b.key = true ↔ reference (itemsOf rows) b.parentKey = some b.grants := by
  obtain ⟨gs, hreference, hgs⟩ := exists_reference htold hb
  obtain ⟨i, hi, hkey⟩ := grants_of_bucket htold hb
  have hgrants : IsGrantSet b.grants := (Prod.mk.inj hkey).2 ▸ isGrantSet_of_item hi
  have hdiff : diffOf (itemsOf rows) b.key = some (deviation gs b.grants) := by
    show (reference (itemsOf rows) b.parentKey).map _ = _
    rw [hreference]
    rfl
  rw [agrees, hdiff, hreference, Option.some.injEq, Option.all_some, Bool.not_eq_true',
    eq_of_not_deviates hgs hgrants]

/-! ### What the entries say -/

/-- Rows of one thing say the same of it. -/
structure SameThing (r s : GroupableGrant) : Prop where
  label : r.onLabel = s.onLabel
  parentKey : r.isPlaced = true → r.parentKey = s.parentKey
  isContainer : r.isPlaced = true → r.isContainer = s.isContainer

/-- **Rows that can be told apart**: the rows of a thing agree about it, and no key or
grant has a character the bucket keys are put together with. -/
structure Clean (rows : List GroupableGrant) : Prop where
  agree : ∀ r ∈ rows, ∀ s ∈ rows, r.itemKey = s.itemKey → r.itemKey ≠ none →
    r.isPlaced = s.isPlaced → SameThing r s
  nul : ∀ row ∈ rows, '\x00' ∉ row.itemKey.getD [] ∧ '\x00' ∉ row.parentKey.getD []
  mark : ∀ row ∈ rows, '\x01' ∉ row.grant

/-- **What the groups and the deviations say is so.** -/
structure Truthful (rows : List GroupableGrant) (result : ShareGrouping) : Prop where
  group : ∀ g ∈ result.groups, IsReference (itemsOf rows) g.parentKey g.grants ∧
    ∃ members : List GroupableGrant, g.rowIds.Perm (members.map GroupableGrant.id) ∧
      ∀ row ∈ members, row ∈ rows ∧ row.isPlaced = true ∧
        (row.parentKey = some g.parentKey ∨ row.itemKey = some g.parentKey) ∧
        grantsOf rows (row.itemKey.getD []) = g.grants
  deviating : ∀ s ∈ result.standalone, s.reason = .deviates → ∃ itemKey p gs extra missing,
    s.itemKey = some itemKey ∧ s.parentKey = some p ∧ s.extra = some extra ∧
    s.missing = some missing ∧ s.grants = grantsOf rows itemKey ∧
    IsReference (itemsOf rows) p gs ∧
    (∀ g, g ∈ extra ↔ g ∈ s.grants ∧ g ∉ gs) ∧ ∀ g, g ∈ missing ↔ g ∈ gs ∧ g ∉ s.grants

theorem mem_rowsOf {k : Text} {row : GroupableGrant} :
    row ∈ rowsOf rows k ↔ row ∈ rows ∧ row.isPlaced = true ∧ row.itemKey.getD [] = k := by
  rw [rowsOf, placed, List.mem_filter, List.mem_filter, decide_eq_true_eq, and_assoc]

theorem isPlaced_iff {row : GroupableGrant} : row.isPlaced = true ↔
    ∃ itemKey parentKey, row.itemKey = some itemKey ∧ itemKey ≠ [] ∧
      row.parentKey = some parentKey ∧ parentKey ≠ [] := by
  rw [GroupableGrant.isPlaced, Bool.and_eq_true, decide_eq_true_eq, decide_eq_true_eq]
  constructor
  · rintro ⟨hitem, hparent⟩
    cases hi : row.itemKey with
    | none => exact absurd (by rw [hi]; rfl) hitem
    | some itemKey =>
        cases hp : row.parentKey with
        | none => exact absurd (by rw [hp]; rfl) hparent
        | some parentKey =>
            rw [hi] at hitem
            rw [hp] at hparent
            exact ⟨itemKey, parentKey, rfl, hitem, rfl, hparent⟩
  · rintro ⟨itemKey, parentKey, hi, hitem, hp, hparent⟩
    rw [hi, hp]
    exact ⟨hitem, hparent⟩

/-- The rows of a placed thing agree about it. -/
theorem sameThing_of_rowsOf (hclean : Clean rows) {k : Text} {r s : GroupableGrant}
    (hr : r ∈ rowsOf rows k) (hs : s ∈ rowsOf rows k) : SameThing r s := by
  obtain ⟨hr, hrplaced, hrkey⟩ := mem_rowsOf.mp hr
  obtain ⟨hs, hsplaced, hskey⟩ := mem_rowsOf.mp hs
  obtain ⟨rkey, -, hri, -⟩ := isPlaced_iff.mp hrplaced
  obtain ⟨skey, -, hsi, -⟩ := isPlaced_iff.mp hsplaced
  have hsame : r.itemKey = s.itemKey := by
    rw [hri] at hrkey ⊢
    rw [hsi] at hskey ⊢
    exact congrArg some (hrkey.trans hskey.symm)
  exact hclean.agree r hr s hs hsame (by rw [hri]; exact Option.some_ne_none _)
    (hrplaced.trans hsplaced.symm)

theorem told_of_clean (hclean : Clean rows) : Told (itemsOf rows) := by
  have hnul {i : Item} (hi : i ∈ itemsOf rows) : '\x00' ∉ bucketKeyFor (itemsOf rows) i := by
    obtain ⟨first, hfirst, h⟩ := item_spec hi
    obtain ⟨hmem, -, hkey⟩ := mem_rowsOf.mp hfirst
    obtain ⟨hitem, hparent⟩ := hclean.nul first hmem
    rw [bucketKeyFor]
    split
    · rwa [← hkey]
    · rw [h]
      exact hparent
  have hgrants {i : Item} (hi : i ∈ itemsOf rows) :
      i.grants ≠ [] ∧ ∀ g ∈ i.grants, '\x01' ∉ g := by
    obtain ⟨first, hfirst, -⟩ := item_spec hi
    rw [item_grants hi]
    refine ⟨List.ne_nil_of_mem (mem_grantSet.mpr ⟨first, hfirst, rfl⟩), ?_⟩
    intro g hg
    obtain ⟨row, hrow, rfl⟩ := mem_grantSet.mp hg
    exact hclean.mark row (mem_rowsOf.mp hrow).1
  intro i hi j hj h
  exact bucketText_inj (hnul hi) (hnul hj) (hgrants hi).1 (hgrants hj).1 (hgrants hi).2 (hgrants hj).2 h

theorem bucketKeyFor_eq (items : List Item) (i : Item) :
    bucketKeyFor items i = i.itemKey ∨ bucketKeyFor items i = i.parentKey := by
  rw [bucketKeyFor]
  split
  · exact Or.inl rfl
  · exact Or.inr rfl

theorem truthful (localeCompare : Text → Text → Int) (hclean : Clean rows) :
    Truthful rows (groupShareGrants localeCompare rows) := by
  have htold := told_of_clean hclean
  refine ⟨?_, ?_⟩
  · intro g hg
    obtain ⟨b, hb, rfl⟩ := List.mem_map.mp (mem_sortBy.mp hg)
    obtain ⟨hb, hagrees⟩ := List.mem_filter.mp hb
    refine ⟨isReference htold (nodup_itemKeys rows) ((agrees_iff htold hb).mp hagrees),
      b.items.flatMap fun i => rowsOf rows i.itemKey, ?_, ?_⟩
    · apply (sorted_perm _).trans
      rw [List.map_flatMap]
      apply List.Perm.of_eq
      apply List.flatMap_congr
      intro i hi
      exact item_rowIds (key_of_mem_bucket htold hb hi).1
    · intro row hrow
      obtain ⟨i, hi, hrow⟩ := List.mem_flatMap.mp hrow
      obtain ⟨himem, hkey⟩ := key_of_mem_bucket htold hb hi
      obtain ⟨hmem, hplaced, hrowkey⟩ := mem_rowsOf.mp hrow
      refine ⟨hmem, hplaced, ?_, ?_⟩
      · obtain ⟨itemKey, parentKey, hitem, -, hparent, -⟩ := isPlaced_iff.mp hplaced
        obtain ⟨first, hfirst, hi'⟩ := item_spec himem
        have hfirst : row.parentKey = first.parentKey :=
          (sameThing_of_rowsOf hclean hrow hfirst).parentKey hplaced
        have hcontainer : bucketKeyFor (itemsOf rows) i = b.parentKey := (Prod.mk.inj hkey).1
        show row.parentKey = some b.parentKey ∨ row.itemKey = some b.parentKey
        rw [← hcontainer]
        rcases bucketKeyFor_eq (itemsOf rows) i with h | h
        · right
          rw [h, ← hrowkey, hitem]
          rfl
        · left
          rw [h, hi']
          show row.parentKey = some (first.parentKey.getD [])
          rw [← hfirst, hparent]
          rfl
      · show grantsOf rows (row.itemKey.getD []) = b.grants
        rw [hrowkey, ← item_grants himem]
        exact (Prod.mk.inj hkey).2
  · intro s hs hreason
    rcases List.mem_append.mp (mem_sortBy.mp hs) with hs | hs
    · obtain ⟨b, hb, hs⟩ := List.mem_flatMap.mp hs
      obtain ⟨hb, -⟩ := List.mem_filter.mp hb
      obtain ⟨i, hi, rfl⟩ := List.mem_map.mp hs
      obtain ⟨himem, hkey⟩ := key_of_mem_bucket htold hb hi
      obtain ⟨gs, hreference, -⟩ := exists_reference htold hb
      have hdiff : diffOf (itemsOf rows) b.key = some (deviation gs b.grants) := by
        show (reference (itemsOf rows) b.parentKey).map _ = _
        rw [hreference]
        rfl
      have hgrants : i.grants = b.grants := (Prod.mk.inj hkey).2
      refine ⟨i.itemKey, b.parentKey, gs, (deviation gs b.grants).extra,
        (deviation gs b.grants).missing, rfl, rfl, ?_, ?_, item_grants himem,
        isReference htold (nodup_itemKeys rows) hreference, ?_, ?_⟩
      · exact congrArg (Option.map Deviation.extra) hdiff
      · exact congrArg (Option.map Deviation.missing) hdiff
      · intro g
        rw [mem_deviation_extra]
        exact and_congr_left' (by rw [← hgrants]; rfl)
      · intro g
        rw [mem_deviation_missing]
        exact and_congr_right' (by rw [← hgrants]; rfl)
    · obtain ⟨first, rest, -, rfl⟩ := mem_entries.mp hs
      cases hreason

end Ownpace.Sharing
