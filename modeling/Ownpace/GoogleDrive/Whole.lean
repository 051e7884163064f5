/-
Ownpace/GoogleDrive/Whole.lean

A drive is listed whole, and the ways its paths are derived agree
(`ListedWhole`), exactly where the drive is plain (`Plain`): the names of its
folders have no slash in them and tell siblings apart, no folder in the root has
the empty name, no document is given a suffix, nothing lies under 64 folders, and
no file's name spells the way to another file.

`listed_whole_iff_plain` is the equivalence; `binned_without_the_suffix` is a drive
of one document that the listing and the bin disagree about.
-/
import Ownpace.GoogleDrive.Ways

namespace Ownpace.GoogleDrive

open scoped List

variable {d : Drive} {p : Policies} {n m : Node} {c : Children} {g : DriveFolder}
  {inside : Children} {way way' : List DriveFolder} {f f' : DriveFile}

/-! ### What is to hold -/

/-- A file that is not in the bin lies in the folder a way leads to. -/
def Drive.Holds (d : Drive) (way : List DriveFolder) (f : DriveFile) : Prop :=
  ∃ n, Reaches d.root way n ∧ f ∈ n.children.files

/-- The ids and exported names on the way to a file, its own last. -/
def Policies.chain (p : Policies) (way : List DriveFolder) (f : DriveFile) : List (Id × Text) :=
  way.map (fun g => (g.id, g.name)) ++ [(f.id, p.exportedName f)]

/-- Two chains part at siblings that carry one name. -/
def PartAtOneName (a b : List (Id × Text)) : Prop :=
  ∃ common x y s t, a = common ++ x :: s ∧ b = common ++ y :: t ∧ x.1 ≠ y.1 ∧ x.2 = y.2

structure ListedWhole (d : Drive) (p : Policies) : Prop where
  /-- A file is listed once, so under one folder. -/
  once : ∀ way f, d.Holds way f →
    ((d.listing p).filter fun e => e.2.sourceRef = f.id).length = 1
  /-- Files of one path part at siblings of one name. -/
  apart : ∀ way f way' f', d.Holds way f → d.Holds way' f' → f.id ≠ f'.id →
    ∀ e ∈ d.listing p, ∀ e' ∈ d.listing p, e.2.sourceRef = f.id → e'.2.sourceRef = f'.id →
      e.2.path = e'.2.path → PartAtOneName (p.chain way f) (p.chain way' f')
  /-- A folder's path gives the folder. -/
  resolved : ∀ way n, Reaches d.root way n → d.resolveFolderId (wayPath way) = some n
  /-- The keys of a folder are the paths of its listing, whatever was called before. -/
  keys : ∀ calls way n, Reaches d.root way n →
    (d.listKeys (d.calls p calls ⟨none⟩) (wayPath way)).1 =
      (d.listSince p (d.calls p calls ⟨none⟩) (wayPath way)).1.map (·.map (·.path))
  /-- A file that goes to the bin, by itself or with a folder above it, is named by
  the path it was listed under. -/
  binned : ∀ way f, d.Holds way f → ∀ chosen : Id → Bool,
    (chosen f.id = true ∨ ∃ g ∈ way, chosen g.id = true) →
    ∀ e ∈ d.listing p, e.2.sourceRef = f.id →
      e.2.path ∈ (d.bin chosen).listTrashedPaths.paths ∧
        ∀ r, (f.id, r) ∈ (d.bin chosen).binnedPaths ↔ r = .path e.2.path
  /-- The former paths are those of the other policies. -/
  former : ∀ e ∈ d.listing p, ∀ q, q ∈ e.2.formerPaths ↔
    q ≠ e.2.path ∧ ∃ p', ∃ e' ∈ d.listing p', e'.2.sourceRef = e.2.sourceRef ∧ e'.2.path = q

/-- The policy of a document's kind has no suffix to give it. -/
def Policies.LeavesName (p : Policies) (f : DriveFile) : Prop :=
  ∀ ext, (googleEditorKindOf f.mimeType).bind (exportExtension (p.policyFor f.mimeType)) = some ext →
    endsWithExtension ext f.name = true

structure Plain (d : Drive) (p : Policies) : Prop where
  unslashed : ∀ way n, Reaches d.root way n → ∀ g ∈ way, '/' ∉ g.name
  toldApart : ∀ way n, Reaches d.root way n → n.ToldApart
  named : ∀ way n, Reaches d.root way n → Named way
  unsuffixed : ∀ way f, d.Holds way f → p.LeavesName f
  shallow : ∀ way f, d.Holds way f → way.length < 64
  unspelled : ∀ way n f, Reaches d.root way n → f ∈ n.children.files →
    ∀ further m f', Reaches n further m → further ≠ [] → f' ∈ m.children.files →
      f.name ≠ ['/'].intercalate (names further ++ [f'.name])

theorem exportedName_eq_iff : p.exportedName f = f.name ↔ p.LeavesName f := by
  unfold Policies.exportedName exportedNameUnder Policies.LeavesName
  rcases (googleEditorKindOf f.mimeType).bind (exportExtension (p.policyFor f.mimeType)) with - | ext
  · simp
  · simp only [Option.some.injEq, forall_eq']
    split
    · simp [*]
    · next hends =>
        constructor
        · intro h
          have hnil : ext = [] := List.append_right_eq_self.mp h
          simp [hnil, endsWithExtension]
        · exact fun h => absurd h hends

/-! ### Former paths and keys -/

theorem mem_formerPathsOf {folderPath q : Text} :
    q ∈ p.formerPathsOf f folderPath (childPath folderPath (p.exportedName f)) ↔
      q ≠ childPath folderPath (p.exportedName f) ∧
        ∃ p' : Policies, childPath folderPath (p'.exportedName f) = q := by
  unfold Policies.formerPathsOf
  split
  · simp only [List.mem_filter, List.mem_map, ne_eq, decide_not, Bool.not_eq_true',
      decide_eq_false_iff_not]
    constructor
    · rintro ⟨⟨policy, -, rfl⟩, hq⟩
      refine ⟨hq, ⟨policy, fun _ => policy⟩, ?_⟩
      have hpolicy : (⟨policy, fun _ => policy⟩ : Policies).policyFor f.mimeType = policy := by
        unfold Policies.policyFor
        split <;> rfl
      unfold Policies.exportedName
      rw [hpolicy]
    · rintro ⟨hq, p', rfl⟩
      refine ⟨⟨p'.policyFor f.mimeType, ⟨mem_every_policy _, fun heq => hq ?_⟩, rfl⟩, hq⟩
      unfold Policies.exportedName
      rw [heq]
  · next hstored =>
      have hname (p' : Policies) : p'.exportedName f = f.name := by
        unfold Policies.exportedName exportedNameUnder
        rcases hmime : f.mimeType with kind | - | -
        · simp [hmime, isNativeEditorFile] at hstored
        · rfl
        · rfl
      simp only [List.not_mem_nil, hname, false_iff, not_and]
      rintro hq ⟨-, rfl⟩
      exact hq rfl

/-- The memo, where there is one, holds the paths of its folder. -/
def Source.Kept (d : Drive) (p : Policies) (s : Source) : Prop :=
  ∀ path keys, s.lastListing = some (path, keys) →
    some keys = (d.itemsOf p path).map (·.map (·.path))

theorem Source.Kept.call {s : Source} (hs : s.Kept d p) (c : Call) : (d.call p s c).Kept d p := by
  cases c with
  | listSince path =>
      show (d.listSince p s path).2.Kept d p
      unfold Drive.listSince
      split
      · exact hs
      · next items hitems =>
          intro path' keys hmemo
          cases hmemo
          rw [hitems]
          rfl
  | listKeys path =>
      show (d.listKeys s path).2.Kept d p
      have hnone : (d.listKeys s path).2 = ⟨none⟩ := by
        unfold Drive.listKeys
        split
        · split <;> rfl
        · rfl
      rw [hnone]
      intro path' keys hmemo
      cases hmemo

theorem Source.Kept.calls {s : Source} (hs : s.Kept d p) (calls : List Call) :
    (d.calls p calls s).Kept d p := by
  induction calls generalizing s with
  | nil => exact hs
  | cons c rest ih => exact ih (hs.call c)

/-! ### Paths that lead back -/

/-- What a text is split into at a character does not hold it. -/
theorem not_mem_of_mem_splitOn {a : Char} {text part : Text} (h : part ∈ text.splitOn a) :
    a ∉ part := by
  induction text generalizing part with
  | nil =>
      rw [List.splitOn_nil, List.mem_singleton] at h
      rw [h]
      exact List.not_mem_nil
  | cons x text ih =>
      rw [List.splitOn_cons_eq_if_modifyHead] at h
      split at h
      · rcases List.mem_cons.mp h with rfl | h
        · exact List.not_mem_nil
        · exact ih h
      · next hx =>
          rcases hparts : text.splitOn a with - | ⟨first, rest⟩
          · exact absurd hparts (List.splitOn_ne_nil a text)
          · rw [hparts] at h ih
            rcases List.mem_cons.mp h with rfl | h
            · have hfirst : a ∉ first := ih List.mem_cons_self
              simp only [beq_iff_eq] at hx
              simp [hfirst, Ne.symm hx]
            · exact ih (List.mem_cons_of_mem _ h)

theorem Children.folders_ids (c : Children) : c.folders.map (·.1.id) <+ c.ids := by
  induction c with
  | nil => exact List.Sublist.refl _
  | file f rest ih => exact ih.cons _
  | folder g inside rest _ ih =>
      simp only [Children.folders]
      split
      · exact (ih.trans (List.sublist_append_right _ _)).cons _
      · exact (ih.trans (List.sublist_append_right _ _)).cons_cons _

/-- Every folder of the walk is found again by its path. -/
def Drive.LeadsBack (d : Drive) : Prop :=
  ∀ way n, Reaches d.root way n → d.resolveFolderId (wayPath way) = some n

theorem Plain.leadsBack (h : Plain d p) : d.LeadsBack := by
  intro way n hway
  have hfollow := hway.follow_names h.toldApart
  rcases way with - | ⟨g, way⟩
  · cases hway
    rfl
  · have hnamed := h.named _ _ hway
    have hsplit : (wayPath (g :: way)).splitOn '/' = names (g :: way) := by
      rw [wayPath_eq hnamed]
      refine List.splitOn_intercalate '/' ?_ (by simp [names])
      intro name hname
      obtain ⟨g', hg', rfl⟩ := List.mem_map.mp hname
      exact h.unslashed _ _ hway g' hg'
    show (if wayPath (g :: way) = [] then _ else _) = _
    rw [if_neg (wayPath_ne_nil hnamed (by simp)), hsplit, hfollow]

namespace Drive.LeadsBack

/-- One path does not lead back to two folders. -/
theorem way_eq (h : d.LeadsBack) (hway : Reaches d.root way n) (hway' : Reaches d.root way' m)
    (hpath : wayPath way = wayPath way') : way = way' ∧ n = m := by
  have hn := h way n hway
  rw [hpath, h way' m hway'] at hn
  exact Drive.way_unique hway hway' (congrArg Node.id (Option.some.inj hn.symm))

/-- The names on a way are what its path is split into. -/
theorem names_eq (h : d.LeadsBack) (hway : Reaches d.root way n) (hne : way ≠ []) :
    names way = (wayPath way).splitOn '/' := by
  have hpath : wayPath way ≠ [] := fun hnil => hne (h.way_eq hway .here hnil).1
  have hfollow : d.root.follow ((wayPath way).splitOn '/') = some n := by
    have hresolve := h way n hway
    simp only [Drive.resolveFolderId, if_neg hpath] at hresolve
    exact hresolve
  obtain ⟨way', hway', hnames⟩ := Node.reaches_of_follow hfollow
  rw [(Drive.way_unique hway hway' rfl).1, hnames, ← (Drive.way_unique hway hway' rfl).1]

theorem unslashed (h : d.LeadsBack) (hway : Reaches d.root way n) (hg : g ∈ way) :
    '/' ∉ g.name := by
  have hname : g.name ∈ names way := List.mem_map_of_mem hg
  rw [h.names_eq hway (List.ne_nil_of_mem hg)] at hname
  exact not_mem_of_mem_splitOn hname

theorem toldApart (h : d.LeadsBack) (hway : Reaches d.root way n) : n.ToldApart := by
  have hids : n.children.ids.Nodup :=
    (List.nodup_cons.mp (d.distinct.sublist hway.ids_sublist)).2
  have hfolders := (hids.sublist n.children.folders_ids).of_map
  refine hfolders.map_on fun x hx y hy hname => ?_
  have hpath : wayPath (way ++ [x.1]) = wayPath (way ++ [y.1]) := by
    rw [wayPath_snoc, wayPath_snoc, hname]
  obtain ⟨hways, hnodes⟩ := h.way_eq (hway.snoc hx) (hway.snoc hy) hpath
  have hfirst : x.1 = y.1 := by simpa using hways
  exact Prod.ext hfirst (Node.mk.inj hnodes).2

theorem named (h : d.LeadsBack) (hway : Reaches d.root way n) : Named way := by
  intro g hg hname
  cases hway with
  | here => cases hg
  | down hmem _ =>
      cases hg
      have hpath : wayPath [g] = wayPath [] := hname
      cases (h.way_eq (.down hmem .here) .here hpath).1

/-! ### The listing of such a drive -/

theorem itemsOf_eq (h : d.LeadsBack) (p : Policies) (hway : Reaches d.root way n) :
    d.itemsOf p (wayPath way) = some (n.children.files.map (p.toFileItem (wayPath way))) := by
  show (d.resolveFolderId (wayPath way)).map _ = _
  rw [h way n hway]
  rfl

/-- Every file is listed, by the way to it. -/
theorem listing_eq (h : d.LeadsBack) (p : Policies) : d.listing p =
    d.placed.map fun x => (folderOf x.1.1, p.toFileItem (wayPath x.1.1) x.2) := by
  unfold Drive.listing Drive.placed
  rw [Drive.listFolders_eq, List.flatMap_map, List.map_flatMap]
  refine List.flatMap_congr fun l hl => ?_
  show ((d.itemsOf p (wayPath l.1)).getD []).map _ = _
  rw [h.itemsOf_eq p (Drive.mem_located.mp hl), List.map_map]
  simp [Function.comp_def]

theorem mem_listing (h : d.LeadsBack) {e : FileFolder × RawFileItem} : e ∈ d.listing p ↔
    ∃ way f, d.Holds way f ∧ e = (folderOf way, p.toFileItem (wayPath way) f) := by
  rw [h.listing_eq p, List.mem_map]
  constructor
  · rintro ⟨⟨⟨way, n⟩, f⟩, hplaced, rfl⟩
    exact ⟨way, f, ⟨n, Drive.mem_placed.mp hplaced⟩, rfl⟩
  · rintro ⟨way, f, ⟨n, hplaced⟩, rfl⟩
    exact ⟨((way, n), f), Drive.mem_placed.mpr hplaced, rfl⟩

/-- A file's entry is the one of its own folder. -/
theorem item_eq (h : d.LeadsBack) {e : FileFolder × RawFileItem} (he : e ∈ d.listing p)
    (hf : d.Holds way f) (href : e.2.sourceRef = f.id) : e.2 = p.toFileItem (wayPath way) f := by
  obtain ⟨way', f', ⟨m, hway', hf'⟩, rfl⟩ := h.mem_listing.mp he
  obtain ⟨n, hway, hf⟩ := hf
  obtain ⟨rfl, -, rfl⟩ := Drive.placed_unique hway' hf' hway hf href
  rfl

theorem once (h : d.LeadsBack) (hf : d.Holds way f) :
    ((d.listing p).filter fun e => e.2.sourceRef = f.id).length = 1 := by
  obtain ⟨n, hway, hf⟩ := hf
  have hrefs : (d.listing p).map (·.2.sourceRef) = d.placed.map (·.2.id) := by
    rw [h.listing_eq p, List.map_map]
    rfl
  have hmem : f.id ∈ (d.listing p).map (·.2.sourceRef) := by
    rw [hrefs]
    exact List.mem_map_of_mem (Drive.mem_placed.mpr ⟨hway, hf⟩)
  have hcount := List.count_eq_one_of_mem (hrefs ▸ d.placed_nodup) hmem
  rw [List.count_eq_countP, List.countP_map, List.countP_eq_length_filter] at hcount
  rw [← hcount]
  congr 1

/-- The former paths are those of the other policies, its present one excepted. -/
theorem former (h : d.LeadsBack) {e : FileFolder × RawFileItem} (he : e ∈ d.listing p) (q : Text) :
    q ∈ e.2.formerPaths ↔ q ≠ e.2.path ∧
      ∃ p', ∃ e' ∈ d.listing p', e'.2.sourceRef = e.2.sourceRef ∧ e'.2.path = q := by
  obtain ⟨way, f, hf, rfl⟩ := h.mem_listing.mp he
  show q ∈ p.formerPathsOf f (wayPath way) _ ↔ _
  rw [mem_formerPathsOf]
  refine and_congr_right fun _ => exists_congr fun p' => ?_
  constructor
  · intro hq
    exact ⟨_, h.mem_listing.mpr ⟨way, f, hf, rfl⟩, rfl, hq⟩
  · rintro ⟨e', he', href, hq⟩
    rw [h.item_eq he' hf href] at hq
    exact hq

/-- The memo, where there is one, is of a listing of its folder. -/
theorem keys (h : d.LeadsBack) (hsuffix : ∀ way f, d.Holds way f → p.exportedName f = f.name)
    {s : Source} (hs : s.Kept d p) (hway : Reaches d.root way n) :
    (d.listKeys s (wayPath way)).1 =
      (d.listSince p s (wayPath way)).1.map (·.map (·.path)) := by
  have hitems := h.itemsOf_eq p hway
  have hlisted : (d.listSince p s (wayPath way)).1 = d.itemsOf p (wayPath way) := by
    simp only [Drive.listSince, hitems]
  have hkeys : d.keysOf (wayPath way) = (d.itemsOf p (wayPath way)).map (·.map (·.path)) := by
    rw [hitems]
    show (d.resolveFolderId (wayPath way)).map _ = _
    rw [h way n hway]
    simp only [Option.map_some, List.map_map]
    refine congrArg some (List.map_congr_left fun f hf => ?_)
    show childPath _ f.name = childPath _ (p.exportedName f)
    rw [hsuffix way f ⟨n, hway, hf⟩]
  rw [hlisted]
  unfold Drive.listKeys
  split
  · next memo keys hmemo =>
      split
      · next heq =>
          subst heq
          rw [hs _ _ hmemo]
      · exact hkeys
  · exact hkeys

end Drive.LeadsBack

/-! ### The bin -/

theorem Children.metas_bin (chosen : Id → Bool) (c : Children) (i : Id) :
    (c.bin chosen).metas i = c.metas i := by
  induction c generalizing i with
  | nil => rfl
  | file f rest ih => exact ih i
  | folder g inside rest ihi ih =>
      show (⟨g.id, g.name, some i⟩ : FolderMeta) ::
          ((inside.bin chosen).metas g.id ++ (rest.bin chosen).metas i) = _
      rw [ihi, ih]
      rfl

/-- What the bin says of a folder's place is what the drive said. -/
theorem Drive.climb_bin (chosen : Id → Bool) (name : Text) (depth : Nat) (current : Option Id)
    (segments : List Text) :
    (d.bin chosen).climb name depth current segments = d.climb name depth current segments := by
  have hmetas : (d.bin chosen).children.metas (d.bin chosen).rootId = d.children.metas d.rootId :=
    Children.metas_bin chosen d.children d.rootId
  induction depth generalizing current segments with
  | zero => rfl
  | succ depth ih =>
      cases current with
      | none => rfl
      | some current =>
          simp only [Drive.climb, hmetas, ih]
          rfl

theorem Children.binned_ids (c : Children) (above : Bool) (i : Id) :
    (c.binned above i).map (·.1.id) <+ c.ids := by
  induction c generalizing above i with
  | nil => exact List.Sublist.refl _
  | file f rest ih =>
      simp only [Children.binned]
      split
      · exact (ih above i).cons_cons _
      · exact (ih above i).cons _
  | folder g inside rest ihi ih =>
      show List.map _ (_ ++ _) <+ g.id :: (inside.ids ++ rest.ids)
      rw [List.map_append]
      exact ((ihi _ _).append (ih above i)).cons _

/-- A file that is chosen, or lies in what is in the bin already. -/
theorem Children.binned_of_mem_files {chosen : Id → Bool} {above : Bool} {i : Id}
    (hf : f ∈ c.files) (h : (chosen f.id || above) = true) :
    ({ f with trashed := chosen f.id }, some i) ∈ (c.bin chosen).binned above i := by
  induction c with
  | nil => exact absurd hf List.not_mem_nil
  | file f' rest ih =>
      have hrest (hf : f ∈ rest.files) : ({ f with trashed := chosen f.id }, some i) ∈
          ((Children.file f' rest).bin chosen).binned above i := by
        simp only [Children.bin, Children.binned]
        split
        · exact List.mem_cons_of_mem _ (ih hf)
        · exact ih hf
      simp only [Children.files] at hf
      split at hf
      · exact hrest hf
      · next hlive =>
          rcases List.mem_cons.mp hf with rfl | hf
          · have htrashed : (f.trashed || chosen f.id) = chosen f.id := by simp [hlive]
            simp only [Children.bin, Children.binned, htrashed, if_pos h]
            exact List.mem_cons_self
          · exact hrest hf
  | folder g inside rest _ ih => exact List.mem_append_right _ (ih hf)

theorem Children.binned_of_mem_folders {chosen : Id → Bool} {above : Bool} {i : Id}
    (hg : (g, inside) ∈ c.folders) {x : DriveFile × Option Id}
    (hx : x ∈ (inside.bin chosen).binned (chosen g.id || above) g.id) :
    x ∈ (c.bin chosen).binned above i := by
  induction c with
  | nil => exact absurd hg List.not_mem_nil
  | file f rest ih =>
      simp only [Children.bin, Children.binned]
      split
      · exact List.mem_cons_of_mem _ (ih hg)
      · exact ih hg
  | folder g' inside' rest _ ih =>
      simp only [Children.folders] at hg
      split at hg
      · exact List.mem_append_right _ (ih hg)
      · next hlive =>
          rcases List.mem_cons.mp hg with heq | hg
          · cases heq
            refine List.mem_append_left _ ?_
            have htrashed : (g.trashed || chosen g.id) = chosen g.id := by simp [hlive]
            show x ∈ (inside.bin chosen).binned ((g.trashed || chosen g.id) || above) g.id
            rw [htrashed]
            exact hx
          · exact List.mem_append_right _ (ih hg)

theorem Reaches.binned {chosen : Id → Bool} (h : Reaches n way m) (hf : f ∈ m.children.files)
    {above : Bool}
    (hchosen : chosen f.id = true ∨ (∃ g ∈ way, chosen g.id = true) ∨ above = true) :
    ({ f with trashed := chosen f.id }, some m.id) ∈ (n.children.bin chosen).binned above n.id := by
  induction h generalizing above with
  | here =>
      refine Children.binned_of_mem_files hf ?_
      rcases hchosen with hfile | ⟨g, hg, -⟩ | habove
      · simp [hfile]
      · cases hg
      · simp [habove]
  | @down n m g inside way hg h ih =>
      refine Children.binned_of_mem_folders hg (ih hf ?_)
      rcases hchosen with hfile | ⟨g', hg', hchosen⟩ | habove
      · exact .inl hfile
      · rcases List.mem_cons.mp hg' with rfl | hg'
        · exact .inr (.inr (by simp [hchosen]))
        · exact .inr (.inl ⟨g', hg', hchosen⟩)
      · exact .inr (.inr (by simp [habove]))

/-- What `listTrashedPaths` makes of a file that went to the bin. -/
theorem Drive.binnedPaths_iff (chosen : Id → Bool) (hf : d.Holds way f)
    (hchosen : chosen f.id = true ∨ ∃ g ∈ way, chosen g.id = true) (r : OriginalPath) :
    (f.id, r) ∈ (d.bin chosen).binnedPaths ↔ r =
      if way.length < 64 then .path (childPath (['/'].intercalate (names way)) f.name)
      else .unnameable := by
  obtain ⟨n, hway, hf⟩ := hf
  have hbinned : ({ f with trashed := chosen f.id }, some n.id) ∈
      (d.bin chosen).children.binned false (d.bin chosen).rootId :=
    hway.binned hf (hchosen.elim .inl fun h => .inr (.inl h))
  have hpath : (d.bin chosen).originalPathOf { f with trashed := chosen f.id } (some n.id) =
      if way.length < 64 then .path (childPath (['/'].intercalate (names way)) f.name)
      else .unnameable := by
    show (d.bin chosen).climb f.name 64 (some n.id) [] = _
    rw [Drive.climb_bin, Drive.climb_reaches hway, List.append_nil]
  have hnodup : (((d.bin chosen).children.binned false (d.bin chosen).rootId).map (·.1.id)).Nodup :=
    (List.nodup_cons.mp (d.bin chosen).distinct).2.sublist (Children.binned_ids _ _ _)
  unfold Drive.binnedPaths
  rw [List.mem_map, ← hpath]
  constructor
  · rintro ⟨b, hb, heq⟩
    obtain ⟨hid, rfl⟩ := Prod.mk.inj heq
    rw [List.inj_on_of_nodup_map hnodup hb hbinned hid]
  · rintro rfl
    exact ⟨_, hbinned, rfl⟩

theorem Drive.mem_listTrashedPaths {i : Id} {path : Text} (h : (i, .path path) ∈ d.binnedPaths) :
    path ∈ d.listTrashedPaths.paths :=
  List.mem_dedup.mpr (List.mem_filterMap.mpr ⟨_, h, rfl⟩)

/-! ### A plain drive is listed whole -/

theorem append_slash_inj {a b s t : Text} (ha : '/' ∉ a) (hb : '/' ∉ b)
    (h : a ++ '/' :: s = b ++ '/' :: t) : a = b ∧ s = t := by
  induction a generalizing b with
  | nil =>
      rcases b with - | ⟨y, b⟩
      · exact ⟨rfl, (List.cons.inj h).2⟩
      · exact absurd (List.cons.inj h).1 (List.ne_of_not_mem_cons hb)
  | cons x a ih =>
      rcases b with - | ⟨y, b⟩
      · exact absurd (List.cons.inj h).1.symm (List.ne_of_not_mem_cons ha)
      · obtain ⟨rfl, hrest⟩ := List.cons.inj h
        obtain ⟨rfl, hst⟩ := ih (fun hmem => ha (List.mem_cons_of_mem _ hmem))
          (fun hmem => hb (List.mem_cons_of_mem _ hmem)) hrest
        exact ⟨rfl, hst⟩

/-- The text of a way that goes through a folder. -/
theorem intercalate_names_cons (g : DriveFolder) (way : List DriveFolder) (name : Text) :
    ['/'].intercalate (names (g :: way) ++ [name]) =
      g.name ++ '/' :: ['/'].intercalate (names way ++ [name]) := by
  show ['/'].intercalate (g.name :: (names way ++ [name])) = _
  rw [List.intercalate_cons_of_ne_nil (by simp), List.append_assoc]
  rfl

theorem intercalate_append_intercalate (l : List Text) {k : List Text} (hk : k ≠ []) :
    ['/'].intercalate (l ++ [['/'].intercalate k]) = ['/'].intercalate (l ++ k) := by
  induction l with
  | nil => exact List.intercalate_singleton
  | cons a l ih =>
      rw [List.cons_append, List.cons_append, List.intercalate_cons_of_ne_nil (by simp), ih,
        List.intercalate_cons_of_ne_nil (by simp [hk])]

theorem PartAtOneName.cons {a b : List (Id × Text)} (x : Id × Text) (h : PartAtOneName a b) :
    PartAtOneName (x :: a) (x :: b) := by
  obtain ⟨common, y, z, s, t, rfl, rfl, hid, hname⟩ := h
  exact ⟨x :: common, y, z, s, t, rfl, rfl, hid, hname⟩

/-- Where one chain ends beside what the other goes on with, they part there. -/
theorem PartAtOneName.name_eq {base : List (Id × Text)} {a b : Id × Text} {t : List (Id × Text)}
    (h : PartAtOneName (base ++ [a]) (base ++ b :: t)) : a.2 = b.2 := by
  obtain ⟨common, x, y, s, s', hx, hy, hid, hname⟩ := h
  induction base generalizing common with
  | nil =>
      rcases common with - | ⟨z, common⟩
      · rw [(List.cons.inj hx).1, (List.cons.inj hy).1, hname]
      · have hend := (List.cons.inj hx).2
        simp at hend
  | cons z base ih =>
      rcases common with - | ⟨z', common⟩
      · exact absurd ((List.cons.inj hx).1.symm.trans (List.cons.inj hy).1) fun heq => hid (by rw [heq])
      · exact ih common (List.cons.inj hx).2 (List.cons.inj hy).2

namespace Plain

theorem exportedName (h : Plain d p) (hf : d.Holds way f) : p.exportedName f = f.name :=
  exportedName_eq_iff.mpr (h.unsuffixed way f hf)

/-- The path a file is listed under spells the way to it. -/
theorem path_eq (h : Plain d p) (hf : d.Holds way f) :
    (p.toFileItem (wayPath way) f).path = ['/'].intercalate (names way ++ [f.name]) := by
  obtain ⟨n, hway, hmem⟩ := hf
  show childPath (wayPath way) (p.exportedName f) = _
  rw [h.exportedName ⟨n, hway, hmem⟩, childPath_wayPath (h.named way n hway)]

/-- Two ways from one folder that spell one path part at siblings of one name. -/
theorem part (h : Plain d p) {before : List DriveFolder} (hn : Reaches d.root before n)
    (hway : Reaches n way m) (hf : f ∈ m.children.files) {m' : Node} (hway' : Reaches n way' m')
    (hf' : f' ∈ m'.children.files) (hid : f.id ≠ f'.id)
    (hpath : ['/'].intercalate (names way ++ [f.name]) = ['/'].intercalate (names way' ++ [f'.name])) :
    PartAtOneName (p.chain way f) (p.chain way' f') := by
  induction hway generalizing before way' with
  | @here n =>
      rcases way' with - | ⟨g', way'⟩
      · cases hway'
        have hname : f.name = f'.name := by simpa [names] using hpath
        refine ⟨[], _, _, [], [], rfl, rfl, hid, ?_⟩
        show p.exportedName f = p.exportedName f'
        rw [h.exportedName ⟨_, hn, hf⟩, h.exportedName ⟨_, hn, hf'⟩, hname]
      · have hspelled : f.name = ['/'].intercalate (names (g' :: way') ++ [f'.name]) := by
          rw [← hpath]
          simp [names]
        exact absurd hspelled (h.unspelled _ _ f hn hf _ _ f' hway' (List.cons_ne_nil _ _) hf')
  | @down n m g inside way hg hway ih =>
      rcases way' with - | ⟨g', way'⟩
      · cases hway'
        have hspelled : f'.name = ['/'].intercalate (names (g :: way) ++ [f.name]) := by
          rw [hpath]
          simp [names]
        exact absurd hspelled
          (h.unspelled _ _ f' hn hf' _ _ f (.down hg hway) (List.cons_ne_nil _ _) hf)
      · cases hway' with
        | down hg' hway' =>
            have hslash := h.unslashed _ _ (hn.snoc hg) g (by simp)
            have hslash' := h.unslashed _ _ (hn.snoc hg') g' (by simp)
            rw [intercalate_names_cons, intercalate_names_cons] at hpath
            obtain ⟨hname, hrest⟩ := append_slash_inj hslash hslash' hpath
            have heq := List.inj_on_of_nodup_map (h.toldApart _ n hn) hg hg' hname
            cases heq
            exact (ih (hn.snoc hg) hf hway' hrest).cons _

theorem listedWhole (h : Plain d p) : ListedWhole d p where
  once := fun way f hf => h.leadsBack.once hf
  apart := by
    intro way f way' f' hf hf' hid e he e' he' href href' hpath
    rw [h.leadsBack.item_eq he hf href, h.leadsBack.item_eq he' hf' href', h.path_eq hf,
      h.path_eq hf'] at hpath
    obtain ⟨n, hway, hf⟩ := hf
    obtain ⟨n', hway', hf'⟩ := hf'
    exact h.part .here hway hf hway' hf' hid hpath
  resolved := h.leadsBack
  keys := by
    intro calls way n hway
    have hfresh : Source.Kept d p ⟨none⟩ := fun path keys hmemo => by cases hmemo
    exact h.leadsBack.keys (fun way f hf => h.exportedName hf) (hfresh.calls calls) hway
  binned := by
    intro way f hf chosen hchosen e he href
    have hpath : e.2.path = childPath (['/'].intercalate (names way)) f.name := by
      rw [h.leadsBack.item_eq he hf href]
      show childPath (wayPath way) (p.exportedName f) = _
      obtain ⟨n, hway, hmem⟩ := hf
      rw [h.exportedName ⟨n, hway, hmem⟩, wayPath_eq (h.named way n hway)]
    have hiff (r : OriginalPath) :
        (f.id, r) ∈ (d.bin chosen).binnedPaths ↔ r = .path e.2.path := by
      rw [Drive.binnedPaths_iff chosen hf hchosen, if_pos (h.shallow way f hf), hpath]
    exact ⟨Drive.mem_listTrashedPaths ((hiff _).mpr rfl), hiff⟩
  former := fun e he q => h.leadsBack.former he q

end Plain

/-! ### Only a plain drive is -/

namespace ListedWhole

theorem exists_entry (h : ListedWhole d p) (hf : d.Holds way f) :
    ∃ e ∈ d.listing p, e.2.sourceRef = f.id := by
  have hlength := h.once way f hf
  obtain ⟨e, he⟩ := List.length_eq_one_iff.mp hlength
  have hmem : e ∈ (d.listing p).filter fun e => e.2.sourceRef = f.id := he ▸ List.mem_singleton_self e
  rw [List.mem_filter] at hmem
  exact ⟨e, hmem.1, of_decide_eq_true hmem.2⟩

theorem exportedName (h : ListedWhole d p) (hf : d.Holds way f) : p.exportedName f = f.name := by
  obtain ⟨n, hway, hf⟩ := hf
  have hback : d.LeadsBack := h.resolved
  have hkeys := h.keys [] way n hway
  have hlisted : (d.listSince p ⟨none⟩ (wayPath way)).1 = d.itemsOf p (wayPath way) := by
    simp only [Drive.listSince, hback.itemsOf_eq p hway]
  have hown : (d.listKeys ⟨none⟩ (wayPath way)).1 = d.keysOf (wayPath way) := rfl
  rw [show d.calls p [] ⟨none⟩ = ⟨none⟩ from rfl, hlisted, hown, hback.itemsOf_eq p hway] at hkeys
  simp only [Drive.keysOf, hback way n hway, Option.map_some, Option.some.injEq, List.map_map,
    List.map_inj_left] at hkeys
  exact (childPath_right (hkeys f hf)).symm

theorem shallow (h : ListedWhole d p) (hf : d.Holds way f) : way.length < 64 := by
  obtain ⟨e, he, href⟩ := h.exists_entry hf
  have hchosen : decide (f.id = f.id) = true := decide_eq_true rfl
  obtain ⟨-, hbinned⟩ := h.binned way f hf (fun i => i = f.id) (.inl hchosen) e he href
  have hpath := (Drive.binnedPaths_iff (fun i => i = f.id) hf (.inl hchosen) _).mp
    ((hbinned _).mpr rfl)
  split at hpath
  · assumption
  · cases hpath

theorem unspelled (h : ListedWhole d p) (hway : Reaches d.root way n) (hf : f ∈ n.children.files)
    {further : List DriveFolder} (hfurther : Reaches n further m) (hne : further ≠ [])
    (hf' : f' ∈ m.children.files) : f.name ≠ ['/'].intercalate (names further ++ [f'.name]) := by
  intro hname
  have hback : d.LeadsBack := h.resolved
  have hholds : d.Holds way f := ⟨n, hway, hf⟩
  have hholds' : d.Holds (way ++ further) f' := ⟨m, hway.append hfurther, hf'⟩
  obtain ⟨e, he, href⟩ := h.exists_entry hholds
  obtain ⟨e', he', href'⟩ := h.exists_entry hholds'
  rcases further with - | ⟨g, further⟩
  · exact hne rfl
  have hid : f.id ≠ f'.id := by
    intro hid
    have hways := (Drive.placed_unique hway hf (hway.append hfurther) hf' hid).1
    exact hne (List.append_right_eq_self.mp hways.symm)
  have hpath : e.2.path = e'.2.path := by
    rw [hback.item_eq he hholds href, hback.item_eq he' hholds' href']
    show childPath (wayPath way) (p.exportedName f) =
      childPath (wayPath (way ++ g :: further)) (p.exportedName f')
    rw [h.exportedName hholds, h.exportedName hholds', childPath_wayPath (hback.named hway),
      childPath_wayPath (hback.named (hway.append hfurther)), hname,
      intercalate_append_intercalate _ (by simp)]
    simp [names]
  have hpart := h.apart way f _ f' hholds hholds' hid e he e' he' href href' hpath
  have hbeside : PartAtOneName (way.map (fun g => (g.id, g.name)) ++ [(f.id, p.exportedName f)])
      (way.map (fun g => (g.id, g.name)) ++ (g.id, g.name) ::
        (further.map (fun g => (g.id, g.name)) ++ [(f'.id, p.exportedName f')])) := by
    simpa [Policies.chain] using hpart
  have hsibling : p.exportedName f = g.name := hbeside.name_eq
  rw [h.exportedName hholds, hname, intercalate_names_cons] at hsibling
  exact absurd (List.append_right_eq_self.mp hsibling) (List.cons_ne_nil _ _)

end ListedWhole

theorem ListedWhole.plain (h : ListedWhole d p) : Plain d p where
  unslashed := fun _ _ hway _ hg => Drive.LeadsBack.unslashed h.resolved hway hg
  toldApart := fun _ _ hway => Drive.LeadsBack.toldApart h.resolved hway
  named := fun _ _ hway => Drive.LeadsBack.named h.resolved hway
  unsuffixed := fun _ _ hf => exportedName_eq_iff.mp (h.exportedName hf)
  shallow := fun _ _ hf => h.shallow hf
  unspelled := fun _ _ _ hway hf _ _ _ hfurther hne hf' => h.unspelled hway hf hfurther hne hf'

/-- A drive is listed whole, and its paths agree, if and only if it is plain. -/
theorem listed_whole_iff_plain (d : Drive) (p : Policies) : ListedWhole d p ↔ Plain d p :=
  ⟨ListedWhole.plain, Plain.listedWhole⟩

/-! ### A drive that is not -/

def plan : DriveFile := ⟨"1", ['p', 'l', 'a', 'n'], .editor .document, false⟩

/-- A drive of one document. -/
def oneDocument : Drive where
  rootId := "root"
  children := .file plan .nil
  distinct := by decide

/-- Its kind is exported. -/
def asOdf : Policies := ⟨.exportOdf, fun _ => .exportOdf⟩

/-- The listing gives `plan.odt`, and the bin `plan`. -/
theorem binned_without_the_suffix : ¬ ListedWhole oneDocument asOdf := by
  intro h
  have hplan : oneDocument.Holds [] plan := ⟨oneDocument.root, .here, List.mem_singleton_self plan⟩
  have hentry : (⟨[], none⟩, asOdf.toFileItem [] plan) ∈ oneDocument.listing asOdf := by decide
  obtain ⟨hpath, -⟩ := h.binned [] plan hplan (fun _ => true) (.inl rfl) _ hentry rfl
  have hpaths : (oneDocument.bin fun _ => true).listTrashedPaths.paths = [['p', 'l', 'a', 'n']] := by
    decide
  rw [hpaths, List.mem_singleton] at hpath
  exact absurd hpath (by decide)

end Ownpace.GoogleDrive
