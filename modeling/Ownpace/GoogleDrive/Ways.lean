/-
Ownpace/GoogleDrive/Ways.lean

The ways to the folders of a drive.

The folder walk meets every folder that a way leads to, once, and an id tells
folders apart (`located`, `way_unique`).  A path is followed back along the way
where sibling names differ (`follow_names`), and the parents of a folder climb it
backwards (`climb_reaches`).
-/
import Ownpace.GoogleDrive.Listing

namespace Ownpace.GoogleDrive

open scoped List

variable {d : Drive} {n m : Node} {c : Children} {g : DriveFolder} {inside : Children}
  {way way' : List DriveFolder} {f f' : DriveFile}

/-! ### The folders of the walk -/

def names (way : List DriveFolder) : List Text := way.map (·.name)

/-- The path the walk derives along a way. -/
def wayPath (way : List DriveFolder) : Text := (names way).foldl childPath []

theorem wayPath_snoc (way : List DriveFolder) (g : DriveFolder) :
    wayPath (way ++ [g]) = childPath (wayPath way) g.name := by
  simp [wayPath, names]

/-- What the walk says of a folder. -/
def folderOf (way : List DriveFolder) : FileFolder :=
  ⟨wayPath way, way.getLast?.map (·.name)⟩

/-- The walk with the way to each folder. -/
def Children.located : Children → List DriveFolder → List (List DriveFolder × Node)
  | .nil, _ => []
  | .file _ rest, way => rest.located way
  | .folder g inside rest, way =>
    if g.trashed then rest.located way
    else (way ++ [g], ⟨g.id, inside⟩) :: (inside.located (way ++ [g]) ++ rest.located way)

def Drive.located (d : Drive) : List (List DriveFolder × Node) :=
  ([], d.root) :: d.children.located []

theorem Children.walk_eq (c : Children) (way : List DriveFolder) :
    c.walk (wayPath way) = (c.located way).map fun l => folderOf l.1 := by
  induction c generalizing way with
  | nil => rfl
  | file f rest ih => exact ih way
  | folder g inside rest ihi ih =>
      simp only [Children.walk, Children.located]
      split
      · exact ih way
      · have hg : folderOf (way ++ [g]) = ⟨wayPath (way ++ [g]), some g.name⟩ := by
          simp [folderOf]
        rw [List.map_cons, List.map_append, ← ihi, ← ih, hg, wayPath_snoc]

theorem Drive.listFolders_eq (d : Drive) :
    d.listFolders = d.located.map fun l => folderOf l.1 := by
  show (⟨[], none⟩ : FileFolder) :: d.children.walk (wayPath []) = _
  rw [Children.walk_eq]
  rfl

/-- What is located below a folder is what is located in one of its folders. -/
theorem Children.mem_located_iff {l : List DriveFolder × Node} :
    l ∈ c.located way ↔ ∃ g inside, (g, inside) ∈ c.folders ∧
      (l = (way ++ [g], ⟨g.id, inside⟩) ∨ l ∈ inside.located (way ++ [g])) := by
  induction c with
  | nil => simp [Children.located, Children.folders]
  | file f rest ih => exact ih
  | folder g' inside' rest _ ih =>
      simp only [Children.located, Children.folders]
      split
      · exact ih
      · simp only [List.mem_cons, List.mem_append, ih]
        constructor
        · rintro (rfl | h | ⟨g, inside, hg, h⟩)
          · exact ⟨g', inside', .inl rfl, .inl rfl⟩
          · exact ⟨g', inside', .inl rfl, .inr h⟩
          · exact ⟨g, inside, .inr hg, h⟩
        · rintro ⟨g, inside, heq | hg, h⟩
          · cases heq
            exact h.elim .inl fun h => .inr (.inl h)
          · exact .inr (.inr ⟨g, inside, hg, h⟩)

theorem Reaches.mem_located {further : List DriveFolder} (h : Reaches n further m)
    (hne : further ≠ []) (way : List DriveFolder) :
    (way ++ further, m) ∈ n.children.located way := by
  induction h generalizing way with
  | here => exact absurd rfl hne
  | @down n m g inside further hg h ih =>
      refine Children.mem_located_iff.mpr ⟨g, inside, hg, ?_⟩
      rcases further with - | ⟨g', further⟩
      · cases h
        exact .inl rfl
      · refine .inr ?_
        have hin := ih (List.cons_ne_nil _ _) (way ++ [g])
        rwa [List.append_assoc] at hin

theorem Children.reaches_of_mem_located {l : List DriveFolder × Node} {k : Node}
    (hn : Reaches k way n) (hc : ∀ x ∈ c.folders, x ∈ n.children.folders)
    (h : l ∈ c.located way) : Reaches k l.1 l.2 := by
  induction c generalizing n way with
  | nil => exact absurd h List.not_mem_nil
  | file f rest ih => exact ih hn hc h
  | folder g inside rest ihi ih =>
      simp only [Children.folders] at hc
      simp only [Children.located] at h
      split at h
      · next htrashed =>
          rw [if_pos htrashed] at hc
          exact ih hn hc h
      · next hlive =>
          rw [if_neg hlive] at hc
          have hg := hn.snoc (hc _ List.mem_cons_self)
          rcases List.mem_cons.mp h with rfl | h
          · exact hg
          · rcases List.mem_append.mp h with h | h
            · exact ihi hg (fun x hx => hx) h
            · exact ih hn (fun x hx => hc x (List.mem_cons_of_mem _ hx)) h

theorem Drive.mem_located : (way, n) ∈ d.located ↔ Reaches d.root way n := by
  constructor
  · intro h
    rcases List.mem_cons.mp h with heq | h
    · cases heq
      exact .here
    · exact Children.reaches_of_mem_located (c := d.children) (n := d.root) .here (fun x hx => hx) h
  · intro h
    rcases way with - | ⟨g, way⟩
    · cases h
      exact List.mem_cons_self
    · exact List.mem_cons_of_mem _ (h.mem_located (List.cons_ne_nil _ _) [])

/-! ### One way to each folder, one folder to each file -/

def fileIds (n : Node) : List Id := n.children.files.map (·.id)

/-- The files of a folder and of those located below it are some of the files it
holds, none of them twice. -/
theorem Children.fileIds_located (c : Children) (i : Id) (way : List DriveFolder) :
    fileIds ⟨i, c⟩ ++ ((c.located way).flatMap fun l => fileIds l.2) <+~ c.ids := by
  induction c generalizing i way with
  | nil => exact List.Subperm.refl _
  | file f rest ih =>
      show ((Children.file f rest).files.map (·.id)) ++ _ <+~ f.id :: rest.ids
      simp only [Children.files, Children.located]
      split
      · exact (ih i way).cons_right _
      · exact (List.subperm_cons _).mpr (ih i way)
  | folder g inside rest ihi ih =>
      simp only [Children.located]
      split
      · exact ((ih i way).trans (List.sublist_append_right _ _).subperm).cons_right _
      · have hboth := (ihi g.id (way ++ [g])).append (ih i way)
        refine List.Subperm.cons_right _ ((List.Perm.subperm_right ?_).mp hboth)
        rw [List.flatMap_cons, List.flatMap_append, ← List.append_assoc (fileIds ⟨g.id, inside⟩)]
        exact List.perm_append_comm_assoc _ _ _

/-- The files that are not in the bin, each with the way to it and its folder. -/
def Drive.placed (d : Drive) : List ((List DriveFolder × Node) × DriveFile) :=
  d.located.flatMap fun l => l.2.children.files.map fun f => (l, f)

theorem Drive.mem_placed :
    ((way, n), f) ∈ d.placed ↔ Reaches d.root way n ∧ f ∈ n.children.files := by
  simp only [Drive.placed, List.mem_flatMap, List.mem_map, Prod.mk.injEq]
  constructor
  · rintro ⟨l, hl, _, hf, rfl, rfl⟩
    exact ⟨Drive.mem_located.mp hl, hf⟩
  · rintro ⟨h, hf⟩
    exact ⟨_, Drive.mem_located.mpr h, f, hf, rfl, rfl⟩

theorem Drive.placed_nodup (d : Drive) : (d.placed.map (·.2.id)).Nodup := by
  have hids : d.placed.map (·.2.id) = d.located.flatMap fun l => fileIds l.2 := by
    simp [Drive.placed, fileIds, List.map_flatMap, Function.comp_def]
  rw [hids]
  obtain ⟨l, hperm, hsub⟩ := Children.fileIds_located d.children d.rootId []
  exact hperm.nodup_iff.mp ((List.nodup_cons.mp d.distinct).2.sublist hsub)

/-- A file is in one folder. -/
theorem Drive.placed_unique (h : Reaches d.root way n) (hf : f ∈ n.children.files)
    (h' : Reaches d.root way' m) (hf' : f' ∈ m.children.files) (hid : f.id = f'.id) :
    way = way' ∧ n = m ∧ f = f' := by
  have heq := List.inj_on_of_nodup_map d.placed_nodup (Drive.mem_placed.mpr ⟨h, hf⟩)
    (Drive.mem_placed.mpr ⟨h', hf'⟩) hid
  simp only [Prod.mk.injEq] at heq
  exact ⟨heq.1.1, heq.1.2, heq.2⟩

theorem Children.located_ids (c : Children) (way : List DriveFolder) :
    (c.located way).map (·.2.id) <+ c.ids := by
  induction c generalizing way with
  | nil => exact List.Sublist.refl _
  | file f rest ih => exact (ih way).cons _
  | folder g inside rest ihi ih =>
      simp only [Children.located]
      split
      · exact ((ih way).trans (List.sublist_append_right _ _)).cons _
      · show g.id :: List.map _ _ <+ g.id :: (inside.ids ++ rest.ids)
        rw [List.map_append]
        exact ((ihi _).append (ih way)).cons_cons _

/-- One way leads to a folder. -/
theorem Drive.way_unique (h : Reaches d.root way n) (h' : Reaches d.root way' m)
    (hid : n.id = m.id) : way = way' ∧ n = m := by
  have hnodup : (d.located.map (·.2.id)).Nodup :=
    d.distinct.sublist ((Children.located_ids d.children []).cons_cons _)
  have heq := List.inj_on_of_nodup_map hnodup (Drive.mem_located.mpr h)
    (Drive.mem_located.mpr h') hid
  exact Prod.mk.inj heq

/-! ### A path followed back -/

/-- No two folders in a folder carry one name. -/
def Node.ToldApart (n : Node) : Prop := (n.children.folders.map (·.1.name)).Nodup

theorem find?_of_nodup {α β : Type} [DecidableEq β] (key : α → β) {l : List α} {a : α}
    (hl : (l.map key).Nodup) (ha : a ∈ l) : (l.find? fun x => key x = key a) = some a := by
  obtain ⟨b, hb⟩ : ∃ b, (l.find? fun x => key x = key a) = some b :=
    Option.isSome_iff_exists.mp (List.find?_isSome.mpr ⟨a, ha, by simp⟩)
  have hkey : key b = key a := by simpa using List.find?_some hb
  rw [hb, List.inj_on_of_nodup_map hl (List.mem_of_find?_eq_some hb) ha hkey]

/-- The names on a way lead along it. -/
theorem Reaches.follow_names (h : Reaches n way m)
    (happart : ∀ w k, Reaches n w k → k.ToldApart) : n.follow (names way) = some m := by
  induction h with
  | here => rfl
  | @down n m g inside way hg h ih =>
      show (n.children.folders.find? fun c => c.1.name = g.name).bind _ = some m
      rw [find?_of_nodup (fun c : DriveFolder × Children => c.1.name)
        (happart [] n .here) hg]
      exact ih fun w k hk => happart (g :: w) k (.down hg hk)

/-- What names lead to lies on a way of these names. -/
theorem Node.reaches_of_follow {segments : List Text} (h : n.follow segments = some m) :
    ∃ way, Reaches n way m ∧ names way = segments := by
  induction segments generalizing n with
  | nil =>
      cases h
      exact ⟨[], .here, rfl⟩
  | cons segment rest ih =>
      obtain ⟨⟨g, inside⟩, hfind, hrest⟩ := Option.bind_eq_some_iff.mp h
      obtain ⟨way, hway, hnames⟩ := ih hrest
      have hname : g.name = segment := by simpa using List.find?_some hfind
      refine ⟨g :: way, .down (List.mem_of_find?_eq_some hfind) hway, ?_⟩
      show g.name :: names way = segment :: rest
      rw [hname, hnames]

/-! ### The path of a way -/

theorem intercalate_append_cons (a b : Text) (l : List Text) :
    ['/'].intercalate ((a ++ b) :: l) = a ++ ['/'].intercalate (b :: l) := by
  rcases l with - | ⟨c, l⟩
  · simp
  · simp only [List.intercalate_cons_cons, List.append_assoc]

theorem intercalate_snoc {l : List Text} (hne : l ≠ []) (a : Text) :
    ['/'].intercalate (l ++ [a]) = ['/'].intercalate l ++ '/' :: a := by
  induction l with
  | nil => exact absurd rfl hne
  | cons b l ih =>
      rcases l with - | ⟨c, l⟩
      · simp
      · rw [List.cons_append, List.intercalate_cons_of_ne_nil (by simp), ih (by simp),
          List.intercalate_cons_cons]
        simp only [List.append_assoc]

theorem foldl_childPath {before : Text} (hbefore : before ≠ []) (l : List Text) :
    l.foldl childPath before = ['/'].intercalate (before :: l) := by
  induction l generalizing before with
  | nil => simp
  | cons a l ih =>
      have hchild : childPath before a = before ++ (['/'] ++ a) := if_neg hbefore
      rw [List.foldl_cons, hchild, ih (by simp), intercalate_append_cons, intercalate_append_cons,
        List.intercalate_cons_cons, List.append_assoc]

/-- A way whose first folder has a name. -/
def Named (way : List DriveFolder) : Prop := ∀ g ∈ way.head?, g.name ≠ []

theorem wayPath_eq (h : Named way) : wayPath way = ['/'].intercalate (names way) := by
  rcases way with - | ⟨g, way⟩
  · rfl
  · exact foldl_childPath (h g rfl) (names way)

theorem wayPath_ne_nil (h : Named way) (hne : way ≠ []) : wayPath way ≠ [] := by
  rw [wayPath_eq h]
  rcases way with - | ⟨g, way⟩
  · exact absurd rfl hne
  · intro hnil
    refine h g rfl ?_
    have hpath : ['/'].intercalate ((g.name ++ []) :: names way) = [] := by
      rw [List.append_nil]
      exact hnil
    rw [intercalate_append_cons] at hpath
    exact (List.append_eq_nil_iff.mp hpath).1

/-- The path of a file, by the names on the way to it. -/
theorem childPath_wayPath (h : Named way) (name : Text) :
    childPath (wayPath way) name = ['/'].intercalate (names way ++ [name]) := by
  rcases way with - | ⟨g, way⟩
  · show name = _
    simp [names]
  · rw [intercalate_snoc (l := names (g :: way)) (by simp [names]), ← wayPath_eq h]
    exact if_neg (wayPath_ne_nil h (by simp))

theorem childPath_right {folderPath a b : Text}
    (h : childPath folderPath a = childPath folderPath b) : a = b := by
  simp only [childPath] at h
  split at h
  · exact h
  · exact (List.cons.inj (List.append_cancel_left h)).2

/-! ### The climb -/

theorem Reaches.exists_last (h : Reaches n way m) :
    way = [] ∧ m = n ∨ ∃ before k g inside, way = before ++ [g] ∧ Reaches n before k ∧
      (g, inside) ∈ k.children.folders ∧ m = ⟨g.id, inside⟩ := by
  induction h with
  | here => exact .inl ⟨rfl, rfl⟩
  | @down n m g inside way hg h ih =>
      refine .inr ?_
      rcases ih with ⟨rfl, rfl⟩ | ⟨before, k, g', inside', rfl, hk, hg', rfl⟩
      · exact ⟨[], n, g, inside, rfl, .here, hg, rfl⟩
      · exact ⟨g :: before, k, g', inside', rfl, .down hg hk, hg', rfl⟩

theorem Children.metas_ids (c : Children) (i : Id) : (c.metas i).map (·.id) <+ c.ids := by
  induction c generalizing i with
  | nil => exact List.Sublist.refl _
  | file f rest ih => exact (ih i).cons _
  | folder g inside rest ihi ih =>
      show g.id :: List.map _ (_ ++ _) <+ g.id :: (inside.ids ++ rest.ids)
      rw [List.map_append]
      exact ((ihi _).append (ih i)).cons_cons _

/-- A folder's own entry and those of the folders in it. -/
theorem Children.metas_of_mem_folders {i : Id} (h : (g, inside) ∈ c.folders) :
    ⟨g.id, g.name, some i⟩ ∈ c.metas i ∧ ∀ x ∈ inside.metas g.id, x ∈ c.metas i := by
  induction c with
  | nil => exact absurd h List.not_mem_nil
  | file f rest ih => exact ih h
  | folder g' inside' rest _ ih =>
      have hrest (h : (g, inside) ∈ rest.folders) :
          ⟨g.id, g.name, some i⟩ ∈ (Children.folder g' inside' rest).metas i ∧
            ∀ x ∈ inside.metas g.id, x ∈ (Children.folder g' inside' rest).metas i := by
        obtain ⟨hown, hin⟩ := ih h
        exact ⟨List.mem_cons_of_mem _ (List.mem_append_right _ hown),
          fun x hx => List.mem_cons_of_mem _ (List.mem_append_right _ (hin x hx))⟩
      simp only [Children.folders] at h
      split at h
      · exact hrest h
      · rcases List.mem_cons.mp h with heq | h
        · cases heq
          exact ⟨List.mem_cons_self,
            fun x hx => List.mem_cons_of_mem _ (List.mem_append_left _ hx)⟩
        · exact hrest h

theorem Reaches.mem_metas (h : Reaches n way m) (hg : (g, inside) ∈ m.children.folders) :
    ⟨g.id, g.name, some m.id⟩ ∈ n.children.metas n.id := by
  induction h with
  | here => exact (Children.metas_of_mem_folders hg).1
  | down hg' _ ih => exact (Children.metas_of_mem_folders hg').2 _ (ih hg)

/-- One turn of the loop goes from a folder to the one that holds it. -/
theorem Drive.climb_step (hway : Reaches d.root way n) (hg : (g, inside) ∈ n.children.folders)
    (name : Text) (depth : Nat) (segments : List Text) :
    d.climb name (depth + 1) (some g.id) segments =
      d.climb name depth (some n.id) (g.name :: segments) := by
  have hentry := hway.mem_metas hg
  have hmem : g.id ∈ d.children.ids :=
    (Children.metas_ids d.children d.rootId).subset (List.mem_map_of_mem hentry)
  have hroot : g.id ≠ d.rootId := fun heq => (List.nodup_cons.mp d.distinct).1 (heq ▸ hmem)
  have hnodup := (List.nodup_cons.mp d.distinct).2.sublist (Children.metas_ids d.children d.rootId)
  have hfind := find?_of_nodup _ hnodup hentry
  simp only [Drive.climb, if_neg hroot, hfind]

/-- The climb from a folder spells the way to it, where 64 turns are enough. -/
theorem Drive.climb_reaches (h : Reaches d.root way n) (name : Text) (depth : Nat)
    (segments : List Text) :
    d.climb name depth (some n.id) segments =
      if way.length < depth then
        .path (childPath (['/'].intercalate (names way ++ segments)) name)
      else .unnameable := by
  induction depth generalizing way n segments with
  | zero => rfl
  | succ depth ih =>
      rcases h.exists_last with ⟨rfl, rfl⟩ | ⟨before, k, g, inside, rfl, hk, hg, rfl⟩
      · show (if d.rootId = d.rootId then _ else _) = _
        rw [if_pos rfl, if_pos (by simp)]
        rfl
      · rw [Drive.climb_step hk hg, ih hk]
        simp [names]

end Ownpace.GoogleDrive
