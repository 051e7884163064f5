/-
Ownpace/Sharing/Ordered.lean

When a grouping does not depend on the order of its rows.

Another order gives the same items but for the order of their row ids
(`settled_perm`), and everything shown of a bucket is shown of its items in no order.
What the order can decide is which of two largest buckets is the reference of a
container that is not itself shared: the one whose row came first
(`reference_of_first`).  So the grouping is free of the order exactly where no such
container is tied (`grouping_faithful_iff`).
-/
import Mathlib.Data.List.Pairwise
import Ownpace.Sharing.Grouped

namespace Ownpace.Sharing

open Calendar Store

variable {rows order : List GroupableGrant} {items items' : List Item}

/-! ### The same items -/

/-- An item with its row ids in order. -/
def Item.settled (i : Item) : Item := { i with rowIds := sorted i.rowIds }

/-- The same items, but for the order they and their row ids are in. -/
def SameItems (items items' : List Item) : Prop :=
  (items.map Item.settled).Perm (items'.map Item.settled)

theorem SameItems.symm (h : SameItems items items') : SameItems items' items := List.Perm.symm h

theorem grantSet_perm {grants grants' : List GroupableGrant} (h : grants.Perm grants') :
    grantSet grants = grantSet grants' := by
  apply grantSet_eq_iff.mpr
  intro g
  simp only [mem_grantSet, h.mem_iff]

theorem placed_perm (h : order.Perm rows) : (placed order).Perm (placed rows) := h.filter _

theorem rowsOf_perm (h : order.Perm rows) (k : Text) : (rowsOf order k).Perm (rowsOf rows k) :=
  (placed_perm h).filter _

/-- **Another order, the same items.** -/
theorem settled_perm (hclean : Clean rows) (h : order.Perm rows) :
    SameItems (itemsOf order) (itemsOf rows) := by
  apply entries_map_perm ((placed_perm h).map _)
  intro k first rest first' rest' hfirst hfirst'
  have hperm : (first :: rest).Perm (first' :: rest') := by
    rw [← hfirst, ← hfirst']
    exact rowsOf_perm h k
  have hsame : SameThing first first' := by
    apply sameThing_of_rowsOf hclean
    · apply (rowsOf_perm h k).mem_iff.mp
      show first ∈ (placed order).filter _
      rw [hfirst]
      exact List.mem_cons_self
    · show first' ∈ (placed rows).filter _
      rw [hfirst']
      exact List.mem_cons_self
  have hplaced : first.isPlaced = true := by
    have : first ∈ rowsOf order k := by
      show first ∈ (placed order).filter _
      rw [hfirst]
      exact List.mem_cons_self
    exact (mem_rowsOf.mp this).2.1
  have hids : sorted ((first :: rest).map GroupableGrant.id) =
      sorted ((first' :: rest').map GroupableGrant.id) := sorted_eq_iff.mpr (hperm.map _)
  show Item.mk _ _ _ _ _ _ = Item.mk _ _ _ _ _ _
  congr 1
  · exact hsame.label
  · exact congrArg (fun parentKey => Option.getD parentKey []) (hsame.parentKey hplaced)
  · exact hsame.isContainer hplaced
  · exact grantSet_perm hperm

section Same

variable (h : SameItems items items')

include h

theorem SameItems.exists_mem {i : Item} (hi : i ∈ items) : ∃ j ∈ items', j.settled = i.settled :=
  List.mem_map.mp (h.mem_iff.mp (List.mem_map_of_mem hi))

theorem SameItems.bucketKeyFor (i : Item) : bucketKeyFor items i = bucketKeyFor items' i := by
  have hheads : (heads items).Perm (heads items') := by
    have := h.map Item.parentKey
    rwa [List.map_map, List.map_map] at this
  rw [Sharing.bucketKeyFor, Sharing.bucketKeyFor, hheads.contains_eq]

theorem SameItems.pairOf (i : Item) : pairOf items i = pairOf items' i := by
  rw [Sharing.pairOf, Sharing.pairOf, h.bucketKeyFor i]

/-- What is filed by a key is the same items. -/
theorem SameItems.filed (key : Text × List Text) :
    SameItems (items.filter fun i => Sharing.pairOf items i = key)
      (items'.filter fun i => Sharing.pairOf items' i = key) := by
  have hfilter (l : List Item) (l' : List Item) :
      (l.filter fun i => Sharing.pairOf l' i = key).map Item.settled =
        (l.map Item.settled).filter fun i => Sharing.pairOf l' i = key := by
    rw [List.filter_map]
    rfl
  show ((items.filter fun i => Sharing.pairOf items i = key).map Item.settled).Perm
    ((items'.filter fun i => Sharing.pairOf items' i = key).map Item.settled)
  rw [hfilter, hfilter]
  apply (List.Perm.filter _ h).trans
  apply List.Perm.of_eq
  apply List.filter_congr
  intro i _
  rw [h.pairOf i]

theorem SameItems.length : items.length = items'.length := by
  have := List.Perm.length_eq h
  rwa [List.length_map, List.length_map] at this

theorem SameItems.carriers (key : Text × List Text) :
    carriers items key = carriers items' key := (h.filed key).length

theorem SameItems.unshared {p : Text} (hp : Unshared items p) : Unshared items' p := by
  intro folder hfolder hcontainer hkey
  obtain ⟨j, hj, hsame⟩ := h.symm.exists_mem hfolder
  apply hp j hj
  · exact (congrArg Item.isContainer hsame).trans hcontainer
  · exact (congrArg Item.itemKey hsame).trans hkey

theorem SameItems.isMost {p : Text} {gs : List Text} (hgs : IsMost items p gs) :
    IsMost items' p gs where
  carried := h.carriers (p, gs) ▸ hgs.carried
  le gs' := by
    rw [← h.carriers, ← h.carriers]
    exact hgs.le gs'

theorem SameItems.isReference {p : Text} {gs : List Text} (hgs : IsReference items p gs) :
    IsReference items' p gs where
  own folder hfolder hcontainer hkey := by
    obtain ⟨j, hj, hsame⟩ := h.symm.exists_mem hfolder
    have hgrants : j.settled.grants = folder.settled.grants := congrArg Item.grants hsame
    apply Eq.trans hgrants.symm
    apply hgs.own j hj
    · exact (congrArg Item.isContainer hsame).trans hcontainer
    · exact (congrArg Item.itemKey hsame).trans hkey
  most hp := h.isMost (hgs.most (h.symm.unshared hp))

end Same

/-! ### The same buckets -/

/-- **No container is tied**: of one that is not itself shared, one grant set is carried
by the most items. -/
def Untied (items : List Item) : Prop :=
  ∀ p, Unshared items p → ∀ gs gs', IsMost items p gs → IsMost items p gs' → gs = gs'

theorem IsReference.unique (huntied : Untied items) {p : Text} {gs gs' : List Text}
    (h : IsReference items p gs) (h' : IsReference items p gs') : gs = gs' := by
  by_cases hp : Unshared items p
  · exact huntied p hp gs gs' (h.most hp) (h'.most hp)
  · unfold Unshared at hp
    push Not at hp
    obtain ⟨folder, hmem, hcontainer, hkey⟩ := hp
    exact (h.own folder hmem hcontainer hkey).symm.trans (h'.own folder hmem hcontainer hkey)

theorem find?_perm {α : Type} {p : α → Bool} {l l' : List α} (h : l.Perm l')
    (hone : ∀ a ∈ l, ∀ b ∈ l, p a = true → p b = true → a = b) : l.find? p = l'.find? p := by
  cases hl : l.find? p with
  | none =>
      symm
      apply List.find?_eq_none.mpr
      intro a ha
      exact List.find?_eq_none.mp hl a (h.mem_iff.mpr ha)
  | some a =>
      have ha := List.mem_of_find?_eq_some hl
      cases hl' : l'.find? p with
      | none => exact absurd (List.find?_some hl) (List.find?_eq_none.mp hl' a (h.mem_iff.mp ha))
      | some b =>
          have hb := h.mem_iff.mpr (List.mem_of_find?_eq_some hl')
          rw [hone a ha b hb (List.find?_some hl) (List.find?_some hl')]

theorem containerItem_settled (items : List Item) (p : Text) :
    (containerItem items p).map Item.settled =
      (items.map Item.settled).find? fun i => i.isContainer = some true && i.itemKey = p := by
  rw [List.find?_map]
  rfl

/-- The items of rows, twice: in their order, and in another. -/
structure Reordered (items items' : List Item) : Prop where
  same : SameItems items items'
  keys : (items.map Item.itemKey).Nodup
  told : Told items
  told' : Told items'

variable {p : Text}

theorem Reordered.containerItem (h : Reordered items items') :
    (containerItem items p).map Item.settled = (containerItem items' p).map Item.settled := by
  rw [containerItem_settled, containerItem_settled]
  apply find?_perm h.same
  intro a ha b hb hpa hpb
  have hkeys : ((items.map Item.settled).map Item.itemKey).Nodup := by
    rw [List.map_map]
    exact h.keys
  apply List.inj_on_of_nodup_map hkeys ha hb
  rw [Bool.and_eq_true, decide_eq_true_eq, decide_eq_true_eq] at hpa hpb
  exact hpa.2.trans hpb.2.symm

theorem Clean.perm (hclean : Clean rows) (h : order.Perm rows) : Clean order where
  agree r hr s hs := hclean.agree r (h.mem_iff.mp hr) s (h.mem_iff.mp hs)
  nul row hrow := hclean.nul row (h.mem_iff.mp hrow)
  mark row hrow := hclean.mark row (h.mem_iff.mp hrow)

theorem reordered (hclean : Clean rows) (h : order.Perm rows) :
    Reordered (itemsOf order) (itemsOf rows) where
  same := settled_perm hclean h
  keys := nodup_itemKeys order
  told := told_of_clean (hclean.perm h)
  told' := told_of_clean hclean

/-- Every bucket has one and the same reference, where nothing is tied. -/
theorem reference_eq (hclean : Clean rows) (h : order.Perm rows) (huntied : Untied (itemsOf rows))
    {i : Item} (hi : i ∈ itemsOf order) :
    reference (itemsOf order) (pairOf (itemsOf order) i).1 =
      reference (itemsOf rows) (pairOf (itemsOf order) i).1 := by
  have hre := reordered hclean h
  obtain ⟨j, hj, hsame⟩ := hre.same.exists_mem hi
  obtain ⟨b, hb, hbkey⟩ := exists_bucket hre.told hi
  obtain ⟨c, hc, hckey⟩ := exists_bucket hre.told' hj
  obtain ⟨gs, hgs, -⟩ := exists_reference hre.told hb
  obtain ⟨gs', hgs', -⟩ := exists_reference hre.told' hc
  have hpair : pairOf (itemsOf order) i = pairOf (itemsOf rows) j := by
    rw [hre.same.pairOf i]
    show pairOf (itemsOf rows) i.settled = pairOf (itemsOf rows) j.settled
    rw [hsame]
  have hb : (pairOf (itemsOf order) i).1 = b.parentKey := congrArg Prod.fst hbkey.symm
  have hc : (pairOf (itemsOf order) i).1 = c.parentKey := by
    rw [hpair]
    exact congrArg Prod.fst hckey.symm
  rw [← hb] at hgs
  rw [← hc] at hgs'
  rw [hgs, hgs']
  apply congrArg some
  apply IsReference.unique huntied
  · exact hre.same.isReference (isReference hre.told hre.keys hgs)
  · exact isReference hre.told' (nodup_itemKeys rows) hgs'

theorem diffOf_eq (hclean : Clean rows) (h : order.Perm rows) (huntied : Untied (itemsOf rows))
    {i : Item} (hi : i ∈ itemsOf order) :
    diffOf (itemsOf order) (pairOf (itemsOf order) i) =
      diffOf (itemsOf rows) (pairOf (itemsOf order) i) := by
  rw [diffOf, diffOf, reference_eq hclean h huntied hi]

theorem agrees_eq (hclean : Clean rows) (h : order.Perm rows) (huntied : Untied (itemsOf rows))
    {i : Item} (hi : i ∈ itemsOf order) :
    agrees (itemsOf order) (pairOf (itemsOf order) i) =
      agrees (itemsOf rows) (pairOf (itemsOf order) i) := by
  rw [agrees, agrees, diffOf_eq hclean h huntied hi]

/-! ### The same groups -/

/-- A group is shown of its items in no order. -/
theorem groupOf_eq (hre : Reordered items items') {b c : Bucket} (hkey : b.key = c.key)
    (hitems : SameItems b.items c.items) : groupOf items b = groupOf items' c := by
  obtain ⟨hparent, hgrants⟩ := Prod.mk.inj hkey
  have hfolder := hre.containerItem (p := c.parentKey)
  have hlabel : (containerItem items c.parentKey).map Item.label =
      (containerItem items' c.parentKey).map Item.label := by
    have := congrArg (Option.map Item.label) hfolder
    rwa [Option.map_map, Option.map_map] at this
  have hshared : (containerItem items c.parentKey).isSome =
      (containerItem items' c.parentKey).isSome := by
    have := congrArg Option.isSome hfolder
    rwa [Option.isSome_map, Option.isSome_map] at this
  have hsample : ((b.items.filter fun i => i.itemKey ≠ c.parentKey).map Item.label).Perm
      ((c.items.filter fun i => i.itemKey ≠ c.parentKey).map Item.label) := by
    have hfilter (l : List Item) : (l.filter fun i => i.itemKey ≠ c.parentKey).map Item.label =
        ((l.map Item.settled).filter fun i => i.itemKey ≠ c.parentKey).map Item.label := by
      rw [List.filter_map, List.map_map]
      rfl
    rw [hfilter b.items, hfilter c.items]
    exact (List.Perm.filter _ hitems).map _
  have hids : (b.items.flatMap Item.rowIds).Perm (c.items.flatMap Item.rowIds) := by
    have hsettled (l : List Item) :
        (l.flatMap Item.rowIds).Perm ((l.map Item.settled).flatMap Item.rowIds) := by
      rw [List.flatMap_map]
      exact List.Perm.flatMap_left _ fun i _ => (sorted_perm i.rowIds).symm
    exact ((hsettled _).trans (hitems.flatMap_right _)).trans (hsettled _).symm
  rw [groupOf, groupOf, hparent, hgrants, hlabel, hshared, hitems.length, sorted_eq_iff.mpr hsample,
    sorted_eq_iff.mpr hids]

theorem texts_perm (hre : Reordered items items') :
    (items.map fun i => bucketText (pairOf items i)).Perm
      (items'.map fun i => bucketText (pairOf items' i)) := by
  have hsettled (l l' : List Item) : (l.map fun i => bucketText (pairOf l' i)) =
      (l.map Item.settled).map fun i => bucketText (pairOf l' i) := by
    rw [List.map_map]
    rfl
  rw [hsettled, hsettled items']
  apply (List.Perm.map _ hre.same).trans
  apply List.Perm.of_eq
  apply List.map_congr_left
  intro i _
  rw [hre.same.pairOf i]

/-- Two files of one text are of one key and of the same items. -/
theorem file_same (hre : Reordered items items') {k : Text} {first first' : Item}
    {rest rest' : List Item}
    (hfirst : (items.filter fun i => bucketText (pairOf items i) = k) = first :: rest)
    (hfirst' : (items'.filter fun i => bucketText (pairOf items' i) = k) = first' :: rest') :
    pairOf items first = pairOf items' first' ∧ SameItems (first :: rest) (first' :: rest') := by
  obtain ⟨hmem, htext⟩ := List.mem_filter.mp (hfirst ▸ List.mem_cons_self)
  obtain ⟨hmem', htext'⟩ := List.mem_filter.mp (hfirst' ▸ List.mem_cons_self)
  have htext : bucketText (pairOf items first) = k := of_decide_eq_true htext
  have htext' : bucketText (pairOf items' first') = k := of_decide_eq_true htext'
  obtain ⟨j, hj, hsame⟩ := hre.same.symm.exists_mem hmem'
  have hpair : pairOf items' first' = pairOf items j := by
    rw [← hre.same.pairOf first']
    show pairOf items first'.settled = pairOf items j.settled
    rw [hsame]
  have hkey : pairOf items first = pairOf items' first' := by
    rw [hpair]
    apply hre.told first hmem j hj
    rw [← hpair, htext, htext']
  refine ⟨hkey, ?_⟩
  rw [← htext, filter_told hre.told hmem] at hfirst
  rw [← htext', filter_told hre.told' hmem'] at hfirst'
  rw [← hfirst, ← hfirst', ← hkey]
  exact hre.same.filed _

theorem groupsOf_perm (hclean : Clean rows) (h : order.Perm rows) (huntied : Untied (itemsOf rows)) :
    (groupsOf (itemsOf order)).Perm (groupsOf (itemsOf rows)) := by
  have hre := reordered hclean h
  have hkeyed : ((bucketsOf (itemsOf order)).map fun b => (b.key, groupOf (itemsOf order) b)).Perm
      ((bucketsOf (itemsOf rows)).map fun b => (b.key, groupOf (itemsOf rows) b)) := by
    apply entries_map_perm (texts_perm hre)
    intro k first rest first' rest' hfirst hfirst'
    obtain ⟨hkey, hitems⟩ := file_same hre hfirst hfirst'
    exact Prod.ext hkey (groupOf_eq hre hkey hitems)
  have hgroups (items : List Item) : groupsOf items =
      (((bucketsOf items).map fun b => (b.key, groupOf items b)).filter
        fun shown => agrees items shown.1).map Prod.snd := by
    rw [groupsOf, List.filter_map, List.map_map]
    rfl
  rw [hgroups, hgroups]
  have hagrees : (((bucketsOf (itemsOf order)).map fun b => (b.key, groupOf (itemsOf order) b)).filter
      fun shown => agrees (itemsOf order) shown.1) =
      ((bucketsOf (itemsOf order)).map fun b => (b.key, groupOf (itemsOf order) b)).filter
        fun shown => agrees (itemsOf rows) shown.1 := by
    apply List.filter_congr
    intro shown hshown
    obtain ⟨b, hb, rfl⟩ := List.mem_map.mp hshown
    obtain ⟨i, hi, hkey⟩ := grants_of_bucket hre.told hb
    show agrees (itemsOf order) b.key = agrees (itemsOf rows) b.key
    rw [← hkey]
    exact agrees_eq hclean h huntied hi
  rw [hagrees]
  exact (hkeyed.filter _).map _

/-! ### The same deviations -/

/-- The items that deviate, each beside its container's reference. -/
theorem deviatingsOf_perm_items (htold : Told items) :
    (deviatingsOf items).Perm ((items.filter fun i => !agrees items (pairOf items i)).map
      fun i => deviatingOf items (pairOf items i) i) := by
  have hbucket (buckets : List Bucket) (hbuckets : ∀ b ∈ buckets, b ∈ bucketsOf items) :
      ((buckets.filter fun b => !agrees items b.key).flatMap fun b =>
        b.items.map (deviatingOf items b.key)) =
      ((buckets.flatMap Bucket.items).filter fun i => !agrees items (pairOf items i)).map
        fun i => deviatingOf items (pairOf items i) i := by
    induction buckets with
    | nil => rfl
    | cons b buckets ih =>
        obtain ⟨hb, hbuckets⟩ := List.forall_mem_cons.mp hbuckets
        have hkey (i : Item) (hi : i ∈ b.items) : pairOf items i = b.key :=
          (key_of_mem_bucket htold hb hi).2
        have hfilter : (b.items.filter fun i => !agrees items (pairOf items i)) =
            b.items.filter fun _ => !agrees items b.key := by
          apply List.filter_congr
          intro i hi
          rw [hkey i hi]
        rw [List.flatMap_cons, List.filter_append, List.map_append, hfilter, ← ih hbuckets,
          List.filter_cons]
        cases agrees items b.key with
        | true =>
            rw [if_neg (by decide)]
            simp
        | false =>
            rw [Bool.not_false, if_pos rfl, List.flatMap_cons, List.filter_true]
            congr 1
            apply List.map_congr_left
            intro i hi
            rw [hkey i hi]
  rw [deviatingsOf, hbucket _ fun b hb => hb]
  exact (List.Perm.filter _ (buckets_items_perm items)).map _

/-- A deviation is shown of its item with the row ids in order. -/
theorem deviatingOf_settled (items : List Item) (i : Item) :
    deviatingOf items (pairOf items i) i = deviatingOf items (pairOf items i.settled) i.settled := by
  have hids : sorted (sorted i.rowIds) = sorted i.rowIds := sorted_eq_iff.mpr (sorted_perm _)
  show ShareStandalone.mk _ _ _ _ _ _ _ _ _ = ShareStandalone.mk _ _ _ _ _ _ _ _ _
  congr 1
  exact hids.symm

theorem deviatingOf_eq (hclean : Clean rows) (h : order.Perm rows) (huntied : Untied (itemsOf rows))
    {i : Item} (hi : i ∈ itemsOf order) :
    deviatingOf (itemsOf order) (pairOf (itemsOf order) i) i =
      deviatingOf (itemsOf rows) (pairOf (itemsOf rows) i) i := by
  have hre := reordered hclean h
  have hshared : (containerItem (itemsOf order) (pairOf (itemsOf order) i).1).isSome =
      (containerItem (itemsOf rows) (pairOf (itemsOf order) i).1).isSome := by
    have := congrArg Option.isSome (hre.containerItem (p := (pairOf (itemsOf order) i).1))
    rwa [Option.isSome_map, Option.isSome_map] at this
  rw [← hre.same.pairOf i, deviatingOf, deviatingOf, comparedWith, comparedWith, hshared,
    reference_eq hclean h huntied hi, diffOf_eq hclean h huntied hi]

theorem deviatingsOf_perm (hclean : Clean rows) (h : order.Perm rows)
    (huntied : Untied (itemsOf rows)) :
    (deviatingsOf (itemsOf order)).Perm (deviatingsOf (itemsOf rows)) := by
  have hre := reordered hclean h
  have hsettled (l : List Item) :
      ((l.filter fun i => !agrees (itemsOf rows) (pairOf (itemsOf rows) i)).map
        fun i => deviatingOf (itemsOf rows) (pairOf (itemsOf rows) i) i) =
      ((l.map Item.settled).filter fun i => !agrees (itemsOf rows) (pairOf (itemsOf rows) i)).map
        fun i => deviatingOf (itemsOf rows) (pairOf (itemsOf rows) i) i := by
    rw [List.filter_map, List.map_map]
    apply List.map_congr_left
    intro i _
    exact deviatingOf_settled (itemsOf rows) i
  have horder : ((itemsOf order).filter fun i =>
        !agrees (itemsOf order) (pairOf (itemsOf order) i)).map
        (fun i => deviatingOf (itemsOf order) (pairOf (itemsOf order) i) i) =
      ((itemsOf order).filter fun i => !agrees (itemsOf rows) (pairOf (itemsOf rows) i)).map
        fun i => deviatingOf (itemsOf rows) (pairOf (itemsOf rows) i) i := by
    have hfilter : ((itemsOf order).filter fun i =>
        !agrees (itemsOf order) (pairOf (itemsOf order) i)) =
        (itemsOf order).filter fun i => !agrees (itemsOf rows) (pairOf (itemsOf rows) i) := by
      apply List.filter_congr
      intro i hi
      rw [agrees_eq hclean h huntied hi, hre.same.pairOf i]
    rw [hfilter]
    apply List.map_congr_left
    intro i hi
    exact deviatingOf_eq hclean h huntied (List.mem_filter.mp hi).1
  apply (deviatingsOf_perm_items hre.told).trans
  apply List.Perm.trans _ (deviatingsOf_perm_items hre.told').symm
  rw [horder, hsettled, hsettled (itemsOf rows)]
  exact (List.Perm.filter _ hre.same).map _

/-! ### The same rows without a place -/

/-- **What a grouping can be told by**: clean rows of their own ids, of which no two
compare equal, nor do two of their keys. -/
structure Readable (localeCompare : Text → Text → Int) (rows : List GroupableGrant) : Prop
    extends Clean rows where
  ids : (rows.map GroupableGrant.id).Nodup
  toldIds : ∀ r ∈ rows, ∀ s ∈ rows, localeCompare r.id s.id = 0 → r.id = s.id
  toldKeys : ∀ a ∈ rows.flatMap (fun row => [row.itemKey.getD [], row.parentKey.getD []]),
    ∀ b ∈ rows.flatMap (fun row => [row.itemKey.getD [], row.parentKey.getD []]),
    localeCompare a b = 0 → a = b

variable {localeCompare : Text → Text → Int}

theorem unplacedsOf_perm (hread : Readable localeCompare rows) (h : order.Perm rows) :
    (unplacedsOf order).Perm (unplacedsOf rows) := by
  have hunplaced : (unplaced order).Perm (unplaced rows) := h.filter _
  have hmap : ((unplacedsOf order).map id).Perm ((unplacedsOf rows).map id) := by
    apply entries_map_perm (hunplaced.map _)
    intro k first rest first' rest' hfirst hfirst'
    have hperm : (first :: rest).Perm (first' :: rest') := by
      rw [← hfirst, ← hfirst']
      exact hunplaced.filter _
    obtain ⟨hmem, hkey⟩ := List.mem_filter.mp (hfirst ▸ List.mem_cons_self)
    obtain ⟨hmem', hkey'⟩ := List.mem_filter.mp (hfirst' ▸ List.mem_cons_self)
    obtain ⟨hmem, hplaced⟩ := List.mem_filter.mp (hunplaced.mem_iff.mp hmem)
    obtain ⟨hmem', hplaced'⟩ := List.mem_filter.mp hmem'
    have hkey : unplacedKey first = unplacedKey first' :=
      (of_decide_eq_true hkey).trans (of_decide_eq_true hkey').symm
    have hsame : first.itemKey = first'.itemKey ∧ first.onLabel = first'.onLabel := by
      rw [unplacedKey, unplacedKey] at hkey
      cases hi : first.itemKey with
      | none =>
          cases hi' : first'.itemKey with
          | none =>
              rw [hi, hi'] at hkey
              have hid : first.id = first'.id := by simpa using hkey
              have : first = first' := List.inj_on_of_nodup_map hread.ids hmem hmem' hid
              exact ⟨rfl, by rw [this]⟩
          | some key =>
              have := (hread.nul first' hmem').1
              rw [hi, hi'] at hkey
              rw [hi', show (some key).getD [] = key from rfl,
                ← show _ = key from hkey] at this
              exact absurd List.mem_cons_self this
      | some key =>
          have hnul := (hread.nul first hmem).1
          cases hi' : first'.itemKey with
          | none =>
              rw [hi, hi'] at hkey
              rw [hi, show (some key).getD [] = key from rfl, show key = _ from hkey] at hnul
              exact absurd List.mem_cons_self hnul
          | some key' =>
              rw [hi, hi'] at hkey
              have hkey : key = key' := hkey
              have hsame : SameThing first first' := by
                apply hread.agree first hmem first' hmem'
                · rw [hi, hi', hkey]
                · rw [hi]
                  exact Option.some_ne_none _
                · rw [Bool.not_eq_true'] at hplaced hplaced'
                  rw [hplaced, hplaced']
              exact ⟨by rw [hkey], hsame.label⟩
    have hids : sorted ((first :: rest).map GroupableGrant.id) =
        sorted ((first' :: rest').map GroupableGrant.id) := sorted_eq_iff.mpr (hperm.map _)
    show unplacedOf first (first :: rest) = unplacedOf first' (first' :: rest')
    rw [unplacedOf, unplacedOf, hsame.1, hsame.2, hids, grantSet_perm hperm]
  rwa [List.map_id, List.map_id] at hmap

/-! ### The screen's order -/

theorem consistent_groupOrder (hcompare : Consistent localeCompare) :
    Consistent (groupOrder localeCompare) := by
  have hitems : Consistent fun a b : ShareGroup => (b.items : Int) - a.items := by
    constructor
    · intro a b
      show 0 < (b.items : Int) - a.items ↔ (a.items : Int) - b.items < 0
      omega
    · intro a b c
      show (b.items : Int) - a.items ≤ 0 → (c.items : Int) - b.items ≤ 0 →
        (c.items : Int) - a.items ≤ 0
      omega
  exact hitems.orElse (hcompare.comap ShareGroup.parentKey)

theorem consistent_standaloneOrder (hcompare : Consistent localeCompare) :
    Consistent (standaloneOrder localeCompare) :=
  (hcompare.comap ShareStandalone.label).orElse
    (hcompare.comap fun s : ShareStandalone => s.rowIds.headD [])

/-- A container has one group. -/
theorem group_unique (hclean : Clean rows) {g g' : ShareGroup} (hg : g ∈ groupsOf (itemsOf rows))
    (hg' : g' ∈ groupsOf (itemsOf rows)) (h : g.parentKey = g'.parentKey) : g = g' := by
  have htold := told_of_clean hclean
  obtain ⟨b, hb, rfl⟩ := List.mem_map.mp hg
  obtain ⟨c, hc, rfl⟩ := List.mem_map.mp hg'
  obtain ⟨hb, hbagrees⟩ := List.mem_filter.mp hb
  obtain ⟨hc, hcagrees⟩ := List.mem_filter.mp hc
  have hparent : b.parentKey = c.parentKey := h
  have hbref := (agrees_iff htold hb).mp hbagrees
  have hcref := (agrees_iff htold hc).mp hcagrees
  have hgrants : b.grants = c.grants := by
    rw [hparent, hcref] at hbref
    exact (Option.some.inj hbref).symm
  have : b = c :=
    List.inj_on_of_nodup_map (nodup_bucketKeys _) hb hc (Prod.ext hparent hgrants)
  rw [this]

theorem groupKey_mem (hclean : Clean rows) {g : ShareGroup} (hg : g ∈ groupsOf (itemsOf rows)) :
    g.parentKey ∈ rows.flatMap fun row => [row.itemKey.getD [], row.parentKey.getD []] := by
  obtain ⟨b, hb, rfl⟩ := List.mem_map.mp hg
  obtain ⟨i, hi, hkey⟩ := grants_of_bucket (told_of_clean hclean) (List.mem_filter.mp hb).1
  obtain ⟨first, hfirst, hi'⟩ := item_spec hi
  obtain ⟨hmem, -, hrowkey⟩ := mem_rowsOf.mp hfirst
  have hparent : bucketKeyFor (itemsOf rows) i = b.parentKey := (Prod.mk.inj hkey).1
  show b.parentKey ∈ _
  rw [← hparent]
  apply List.mem_flatMap.mpr
  refine ⟨first, hmem, ?_⟩
  rcases bucketKeyFor_eq (itemsOf rows) i with h | h
  · rw [h, ← hrowkey]
    exact List.mem_cons_self
  · rw [h, hi']
    exact List.mem_cons_of_mem _ List.mem_cons_self

/-- An entry that stands alone has a row, and its first row's id is one of its own. -/
theorem firstId_mem {s : ShareStandalone}
    (hs : s ∈ deviatingsOf (itemsOf rows) ++ unplacedsOf rows) : s.rowIds.headD [] ∈ s.rowIds := by
  have hne : s.rowIds ≠ [] := by
    rcases List.mem_append.mp hs with hs | hs
    · obtain ⟨b, hb, hs⟩ := List.mem_flatMap.mp hs
      obtain ⟨i, hi, rfl⟩ := List.mem_map.mp hs
      have himem : i ∈ itemsOf rows := (buckets_items_perm (itemsOf rows)).mem_iff.mp
        (List.mem_flatMap.mpr ⟨b, (List.mem_filter.mp hb).1, hi⟩)
      obtain ⟨first, hfirst, -⟩ := item_spec himem
      apply List.ne_nil_of_mem (a := first.id)
      show first.id ∈ sorted i.rowIds
      rw [mem_sorted, item_rowIds himem]
      exact List.mem_map_of_mem hfirst
    · obtain ⟨first, rest, -, rfl⟩ := mem_entries.mp hs
      apply List.ne_nil_of_mem (a := first.id)
      show first.id ∈ sorted ((first :: rest).map GroupableGrant.id)
      rw [mem_sorted]
      exact List.mem_cons_self
  cases hids : s.rowIds with
  | nil => exact absurd hids hne
  | cons id ids => exact List.mem_cons_self

/-- No row is in two entries that stand alone. -/
theorem standalone_unique (hids : (rows.map GroupableGrant.id).Nodup) {s s' : ShareStandalone}
    (hs : s ∈ deviatingsOf (itemsOf rows) ++ unplacedsOf rows)
    (hs' : s' ∈ deviatingsOf (itemsOf rows) ++ unplacedsOf rows) {id : Text}
    (hid : id ∈ s.rowIds) (hid' : id ∈ s'.rowIds) : s = s' := by
  have hrows : ((placed rows).map GroupableGrant.id ++ (unplaced rows).map GroupableGrant.id).Perm
      (rows.map GroupableGrant.id) := by
    rw [← List.map_append]
    exact (List.filter_append_perm _ rows).map _
  have hnodup : ((deviatingsOf (itemsOf rows) ++ unplacedsOf rows).flatMap
      ShareStandalone.rowIds).Nodup := by
    have hall := (((placed_rowIds_perm rows).append (unplaced_rowIds_perm rows)).trans
      hrows).nodup_iff.mpr hids
    rw [List.append_assoc, ← List.flatMap_append] at hall
    exact (List.nodup_append.mp hall).2.1
  by_contra hne
  have hsymm : Std.Symm (Function.onFun List.Disjoint ShareStandalone.rowIds) := ⟨fun _ _ h _ ha hb => h hb ha⟩
  exact (List.nodup_flatMap.mp hnodup).2.forall hs hs' hne hid hid'

theorem orderFree_of_untied (hcompare : Consistent localeCompare)
    (hread : Readable localeCompare rows) (huntied : Untied (itemsOf rows)) (h : order.Perm rows) :
    groupShareGrants localeCompare order = groupShareGrants localeCompare rows := by
  have hgroups : sortBy (groupOrder localeCompare) (groupsOf (itemsOf rows)) =
      sortBy (groupOrder localeCompare) (groupsOf (itemsOf order)) := by
    apply sortBy_eq_of_perm (consistent_groupOrder hcompare)
    · intro g hg g' hg' hequal
      apply group_unique hread.toClean hg hg'
      apply hread.toldKeys _ (groupKey_mem hread.toClean hg) _ (groupKey_mem hread.toClean hg')
      exact (orElse_eq_zero hequal).2
    · exact (groupsOf_perm hread.toClean h huntied).symm
  have hstandalone : sortBy (standaloneOrder localeCompare)
        (deviatingsOf (itemsOf rows) ++ unplacedsOf rows) =
      sortBy (standaloneOrder localeCompare)
        (deviatingsOf (itemsOf order) ++ unplacedsOf order) := by
    apply sortBy_eq_of_perm (consistent_standaloneOrder hcompare)
    · intro s hs s' hs' hequal
      have hfirst := firstId_mem hs
      have hfirst' := firstId_mem hs'
      have hrow {s : ShareStandalone} (hs : s ∈ deviatingsOf (itemsOf rows) ++ unplacedsOf rows)
          {id : Text} (hid : id ∈ s.rowIds) : ∃ row ∈ rows, row.id = id := by
        apply List.mem_map.mp
        apply (accounted localeCompare rows).once.mem_iff.mp
        exact List.mem_append_right _ (List.mem_flatMap.mpr ⟨s, mem_sortBy.mpr hs, hid⟩)
      obtain ⟨r, hr, hrid⟩ := hrow hs hfirst
      obtain ⟨r', hr', hrid'⟩ := hrow hs' hfirst'
      have hequal : localeCompare (s.rowIds.headD []) (s'.rowIds.headD []) = 0 :=
        (orElse_eq_zero hequal).2
      rw [← hrid, ← hrid'] at hequal
      have hsame := hread.toldIds r hr r' hr' hequal
      rw [hrid, hrid'] at hsame
      rw [← hsame] at hfirst'
      exact standalone_unique hread.ids hs hs' hfirst hfirst'
    · exact ((deviatingsOf_perm hread.toClean h huntied).append (unplacedsOf_perm hread h)).symm
  rw [groupShareGrants, groupShareGrants, hgroups, hstandalone]

/-! ### A tie is decided by the first row -/

theorem largest_of_first {b : Bucket} {buckets : List Bucket}
    (hmost : ∀ c ∈ buckets, c.parentKey = b.parentKey → c.items.length ≤ b.items.length) :
    largestPerParent (b :: buckets) b.parentKey = some b := by
  have hkeeps (buckets : List Bucket) (hmost : ∀ c ∈ buckets, c.parentKey = b.parentKey →
      c.items.length ≤ b.items.length) (seen : Text → Option Bucket)
      (hseen : seen b.parentKey = some b) :
      buckets.foldl keepLargest seen b.parentKey = some b := by
    induction buckets generalizing seen with
    | nil => exact hseen
    | cons c buckets ih =>
        obtain ⟨hc, hmost⟩ := List.forall_mem_cons.mp hmost
        apply ih hmost
        rw [keepLargest]
        by_cases hkey : c.parentKey = b.parentKey
        · have hle := hc hkey
          rw [hkey, hseen, Option.all_some, if_neg (by rw [decide_eq_true_eq]; omega), hseen]
        · split
          · rw [Function.update_of_ne (Ne.symm hkey), hseen]
          · exact hseen
  apply hkeeps buckets hmost
  show keepLargest (fun _ => none) b b.parentKey = some b
  rw [keepLargest, Option.all_none, if_pos rfl, Function.update_self]

theorem bucketsOf_first {head : Item} {its : List Item} (h : items = head :: its) :
    ∃ bitems rest, bucketsOf items = ⟨bucketKeyFor items head, head.grants, bitems⟩ :: rest := by
  obtain ⟨rest, hrest⟩ := entries_cons (fun _ first list =>
    Bucket.mk (bucketKeyFor items first) first.grants list)
    (fun item => bucketText (pairOf items item)) head its
  rw [← h] at hrest
  exact ⟨_, rest, hrest⟩

/-- **The order decides a tie**: with a row of one of the largest buckets in front, that
bucket is the reference, and a group. -/
theorem reference_of_first (hclean : Clean rows) {gs : List Text} (hp : Unshared (itemsOf rows) p)
    (hgs : IsMost (itemsOf rows) p gs) :
    ∃ order, order.Perm rows ∧ ∃ g ∈ groupsOf (itemsOf order), g.parentKey = p ∧ g.grants = gs := by
  obtain ⟨i, hi⟩ := List.exists_mem_of_length_pos hgs.carried
  obtain ⟨hi, hkey⟩ := List.mem_filter.mp hi
  have hkey : pairOf (itemsOf rows) i = (p, gs) := of_decide_eq_true hkey
  obtain ⟨first, hfirst, -⟩ := item_spec hi
  obtain ⟨hmem, hplaced, hfirstkey⟩ := mem_rowsOf.mp hfirst
  have hperm : (first :: rows.erase first).Perm rows := (List.perm_cons_erase hmem).symm
  refine ⟨first :: rows.erase first, hperm, ?_⟩
  have hre := reordered hclean hperm
  have hhead : ∃ head its, itemsOf (first :: rows.erase first) = head :: its ∧
      head.itemKey = i.itemKey := by
    obtain ⟨its, hits⟩ := entries_cons itemOf (fun row => row.itemKey.getD []) first
      (placed (rows.erase first))
    rw [itemsOf, placed, List.filter_cons_of_pos hplaced]
    exact ⟨_, its, hits, hfirstkey⟩
  generalize first :: rows.erase first = order at hperm hre hhead ⊢
  obtain ⟨head, its, hits, hheadkey⟩ := hhead
  have hheadmem : head ∈ itemsOf order := hits ▸ List.mem_cons_self
  obtain ⟨j, hj, hsame⟩ := hre.same.exists_mem hheadmem
  have hji : j = i := itemKey_inj hj hi ((congrArg Item.itemKey hsame).trans hheadkey)
  have hpair : pairOf (itemsOf order) head = (p, gs) := by
    rw [hre.same.pairOf head, ← hkey, ← hji]
    show pairOf (itemsOf rows) head.settled = pairOf (itemsOf rows) j.settled
    rw [hsame]
  obtain ⟨bitems, rest, hbuckets⟩ := bucketsOf_first hits
  obtain ⟨hparent, hgrants⟩ := Prod.mk.inj hpair
  rw [hparent, hgrants] at hbuckets
  have hbucket : (⟨p, gs, bitems⟩ : Bucket) ∈ bucketsOf (itemsOf order) :=
    hbuckets ▸ List.mem_cons_self
  have hlargest : largestPerParent (bucketsOf (itemsOf order)) p = some ⟨p, gs, bitems⟩ := by
    rw [hbuckets]
    apply largest_of_first (b := ⟨p, gs, bitems⟩)
    intro c hc hcp
    have hc : c ∈ bucketsOf (itemsOf order) := hbuckets ▸ List.mem_cons_of_mem _ hc
    have hcp : c.parentKey = p := hcp
    rw [length_bucket hre.told hc, length_bucket hre.told hbucket, hre.same.carriers,
      hre.same.carriers, Bucket.key, hcp]
    exact hgs.le c.grants
  have hunshared : containerItem (itemsOf order) p = none := by
    apply List.find?_eq_none.mpr
    intro folder hfolder hfound
    rw [Bool.and_eq_true, decide_eq_true_eq, decide_eq_true_eq] at hfound
    exact hre.same.symm.unshared hp folder hfolder hfound.1 hfound.2
  have hreference : reference (itemsOf order) p = some gs := by
    rw [reference, hunshared]
    show (largestPerParent (bucketsOf (itemsOf order)) p).map Bucket.grants = some gs
    rw [hlargest]
    rfl
  refine ⟨groupOf (itemsOf order) ⟨p, gs, bitems⟩, List.mem_map_of_mem ?_, rfl, rfl⟩
  exact List.mem_filter.mpr ⟨hbucket, (agrees_iff hre.told hbucket).mpr hreference⟩

/-! ### What the claim comes to -/

/-- **A grouping to be relied on**: every row in one entry, every entry true, and the
same from any order of the rows. -/
structure Faithful (localeCompare : Text → Text → Int) (rows : List GroupableGrant) : Prop where
  accounted : Accounted rows (groupShareGrants localeCompare rows)
  truthful : Truthful rows (groupShareGrants localeCompare rows)
  orderFree : ∀ order, order.Perm rows →
    groupShareGrants localeCompare order = groupShareGrants localeCompare rows

theorem untied_of_orderFree (hclean : Clean rows) (hfree : ∀ order, order.Perm rows →
    groupShareGrants localeCompare order = groupShareGrants localeCompare rows) :
    Untied (itemsOf rows) := by
  intro p hp gs gs' hgs hgs'
  have hgroup {gs : List Text} (hgs : IsMost (itemsOf rows) p gs) :
      ∃ g ∈ groupsOf (itemsOf rows), g.parentKey = p ∧ g.grants = gs := by
    obtain ⟨order, hperm, g, hg, hkey, hgrants⟩ := reference_of_first hclean hp hgs
    have hg : g ∈ (groupShareGrants localeCompare order).groups := mem_sortBy.mpr hg
    rw [hfree order hperm] at hg
    exact ⟨g, mem_sortBy.mp hg, hkey, hgrants⟩
  obtain ⟨g, hg, hkey, rfl⟩ := hgroup hgs
  obtain ⟨g', hg', hkey', rfl⟩ := hgroup hgs'
  rw [group_unique hclean hg hg' (hkey.trans hkey'.symm)]

/-- **Every row is accounted for, and clean rows are told truly; the order of the rows
does not matter exactly where no container is tied.** -/
theorem grouping_faithful_iff (hcompare : Consistent localeCompare) :
    (∀ rows, Accounted rows (groupShareGrants localeCompare rows)) ∧
    (∀ rows, Clean rows → Truthful rows (groupShareGrants localeCompare rows)) ∧
    ∀ rows, Readable localeCompare rows →
      (Faithful localeCompare rows ↔ Untied (itemsOf rows)) := by
  refine ⟨accounted localeCompare, fun rows => truthful localeCompare, ?_⟩
  intro rows hread
  constructor
  · intro h
    exact untied_of_orderFree hread.toClean h.orderFree
  · intro huntied
    exact ⟨accounted localeCompare rows, truthful localeCompare hread.toClean,
      fun order h => orderFree_of_untied hcompare hread huntied h⟩

/-! ### Two files of one folder -/

/-- A file in the folder `F`, shared with one person. -/
def fileOf (name person : Text) : GroupableGrant where
  id := name
  itemKey := some name
  parentKey := some ['F']
  onLabel := name
  grantee := some person
  role := ['r', 'e', 'a', 'd', 'e', 'r']

def anna : Text := ['a', 'n', 'n', 'a']
def bob : Text := ['b', 'o', 'b']

/-- The first of two files, and Anna's. -/
def annasFile : GroupableGrant := fileOf ['1'] anna

/-- The second, whoever's it is. -/
def second (person : Text) : GroupableGrant := fileOf ['2'] person

def itemOfFile (row : GroupableGrant) : Item where
  itemKey := row.id
  label := row.onLabel
  parentKey := ['F']
  isContainer := none
  rowIds := [row.id]
  grants := [row.grant]

theorem grantSet_singleton (row : GroupableGrant) : grantSet [row] = [row.grant] := by
  rw [grantSet, List.map_singleton, sorted]
  exact List.mergeSort_singleton _

theorem itemsOf_files (person : Text) : itemsOf [annasFile, second person] =
    [itemOfFile annasFile, itemOfFile (second person)] := by
  show [itemOf ['1'] annasFile [annasFile], itemOf ['2'] (second person) [second person]] = _
  rw [itemOf, itemOf, grantSet_singleton, grantSet_singleton]
  rfl

theorem clean_files {person : Text} (hperson : '\x01' ∉ (second person).grant) :
    Clean [annasFile, second person] where
  agree r hr s hs hkey := by
    rw [List.mem_pair] at hr hs
    rcases hr with rfl | rfl
    · rcases hs with rfl | rfl
      · exact fun _ _ => ⟨rfl, fun _ => rfl, fun _ => rfl⟩
      · exact absurd (Option.some.inj hkey) (by decide)
    · rcases hs with rfl | rfl
      · exact absurd (Option.some.inj hkey) (by decide)
      · exact fun _ _ => ⟨rfl, fun _ => rfl, fun _ => rfl⟩
  nul row hrow := by
    rw [List.mem_pair] at hrow
    rcases hrow with rfl | rfl
    · decide
    · show '\x00' ∉ ['2'] ∧ '\x00' ∉ ['F']
      decide
  mark row hrow := by
    rw [List.mem_pair] at hrow
    rcases hrow with rfl | rfl
    · decide
    · exact hperson

/-- One language's comparison: code unit by code unit. -/
def byCodeUnits (a b : Text) : Int :=
  if codeUnits a < codeUnits b then -1 else if codeUnits b < codeUnits a then 1 else 0

theorem byCodeUnits_le (a b : Text) : byCodeUnits a b ≤ 0 ↔ ¬ codeUnits b < codeUnits a := by
  have hasymm : codeUnits a < codeUnits b → ¬ codeUnits b < codeUnits a := List.lt_asymm
  rw [byCodeUnits]
  by_cases hab : codeUnits a < codeUnits b
  · simp [hab, hasymm hab]
  · by_cases hba : codeUnits b < codeUnits a
    · simp [hab, hba]
    · simp [hab, hba]

theorem consistent_byCodeUnits : Consistent byCodeUnits where
  anti a b := by
    have hasymm : codeUnits a < codeUnits b → ¬ codeUnits b < codeUnits a := List.lt_asymm
    rw [byCodeUnits, byCodeUnits]
    by_cases hab : codeUnits a < codeUnits b
    · simp [hab, hasymm hab]
    · by_cases hba : codeUnits b < codeUnits a
      · simp [hab, hba]
      · simp [hab, hba]
  trans a b c hab hbc := by
    rw [byCodeUnits_le] at hab hbc ⊢
    exact List.le_trans hab hbc

/-- In a folder that is not shared itself, each of two people reads one of two files: the
row that comes first makes its file the group, and the other the one that deviates. -/
theorem tie_changes_groups : ¬ ∀ order, order.Perm [annasFile, second bob] →
    groupShareGrants byCodeUnits order = groupShareGrants byCodeUnits [annasFile, second bob] := by
  intro h
  have huntied := untied_of_orderFree (clean_files (by decide)) h
  rw [itemsOf_files bob] at huntied
  have hmost (row : GroupableGrant) (hrow : row ∈ [annasFile, second bob]) :
      IsMost [itemOfFile annasFile, itemOfFile (second bob)] ['F'] [row.grant] := by
    have hone :
        carriers [itemOfFile annasFile, itemOfFile (second bob)] (['F'], [row.grant]) = 1 := by
      revert row
      decide
    refine ⟨hone ▸ Nat.one_pos, fun gs' => ?_⟩
    rw [hone]
    by_cases hgs : gs' = [annasFile.grant]
    · subst hgs
      decide
    · rw [carriers, List.filter_cons_of_neg]
      · exact List.length_filter_le _ _
      · intro hpair
        exact hgs (congrArg Prod.snd (of_decide_eq_true hpair)).symm
  have hsame : [annasFile.grant] = [(second bob).grant] :=
    huntied ['F'] (by unfold Unshared; decide) _ _ (hmost annasFile (by decide))
      (hmost (second bob) (by decide))
  exact absurd hsame (by decide)

theorem annas_files_grouped : Faithful byCodeUnits [annasFile, second anna] := by
  refine ((grouping_faithful_iff consistent_byCodeUnits).2.2 [annasFile, second anna] ?_).mpr ?_
  · refine ⟨clean_files (by decide), by decide, ?_, ?_⟩
    · decide +kernel
    · decide +kernel
  · rw [itemsOf_files anna]
    have hgrants {p : Text} {gs : List Text}
        (h : 0 < carriers [itemOfFile annasFile, itemOfFile (second anna)] (p, gs)) :
        gs = [annasFile.grant] := by
      obtain ⟨i, hi⟩ := List.exists_mem_of_length_pos h
      obtain ⟨hi, hpair⟩ := List.mem_filter.mp hi
      have hpair : i.grants = gs := congrArg Prod.snd (of_decide_eq_true hpair)
      rw [List.mem_pair] at hi
      rcases hi with rfl | rfl
      · exact hpair.symm
      · exact hpair.symm
    intro p _ gs gs' hgs hgs'
    rw [hgrants hgs.carried, hgrants hgs'.carried]

end Ownpace.Sharing
