/-
Ownpace/Dav/Listing.lean

The file writer's listing of a target: `listEntries` and `propfindChildren`
(`webdav-target-writer.ts`), over a tree of resources and a server that answers
for it.

A server is free in how it writes an href.  The listing is right for every
server that answers for the tree where the hrefs are plain, and only there
(`listing_right`).
-/
import Mathlib.Data.List.Nodup
import Mathlib.Data.List.Perm.Basic
import Ownpace.Dav.Target
import Ownpace.Store.Walk

namespace Ownpace.Dav

open Uri

/-! ### The functions -/

/-- One `<response>`: its href, and whether its resource is a collection. -/
structure Response where
  href : Text
  collection : Bool
  deriving DecidableEq

/-- What a PROPFIND is answered with. -/
inductive DavAnswer where
  | multiStatus (responses : List Response)
  /-- Any status but 207. -/
  | other (status : Nat) (body : Text)

structure Child where
  path : Text
  isDirectory : Bool
  deriving DecidableEq

structure TargetEntry where
  naturalKey : Text
  targetId : Text
  mailboxId : Text
  deriving DecidableEq

/-- The children among the responses to a PROPFIND of `self`. -/
def childrenOf (root self : Text) : List Response → Except DavError (List Child)
  | [] => .ok []
  | item :: items =>
    match hrefRelativeTo item.href root with
    | .error e => .error e
    | .ok none => childrenOf root self items
    | .ok (some relative) =>
      let path := normalizeRelativePath relative
      if path = self then childrenOf root self items
      else
        match childrenOf root self items with
        | .error e => .error e
        | .ok children => .ok (⟨path, item.collection⟩ :: children)

/-- What a refusal is thrown as. -/
def refusal (config : DavConfig) (dir : Text) (status : Nat) (body : Text) : DavError :=
  if status = 404 ∧ normalizeRelativePath dir = [] then
    .targetFolderMissing
      ('/' :: stripTrailing (stripLeading (config.targetFolderPrefix.getD [])))
      (.refused dir status body)
  else .refused dir status body

/-- One PROPFIND of depth 1: the children of a directory. -/
def propfindChildren (config : DavConfig) (answer : Text → DavAnswer) (dir : Text) :
    Except DavError (List Child) :=
  match answer (buildUrl config dir) with
  | .other status body => .error (refusal config dir status body)
  | .multiStatus responses => childrenOf (buildUrl config []) (normalizeRelativePath dir) responses

/-- A file as the listing hands it over. -/
def entryIn (dir : Text) (child : Child) : TargetEntry := ⟨child.path, child.path, dir⟩

/-- A directory looked at: the directories in it, and its files. -/
def lookAt (config : DavConfig) (answer : Text → DavAnswer) (dir : Text) :
    Except DavError (List Text × List TargetEntry) :=
  match propfindChildren config answer dir with
  | .error e => .error e
  | .ok children =>
    .ok ((children.filter (·.isDirectory)).map (·.path),
      (children.filter (!·.isDirectory)).map (entryIn dir))

/-- Every file, directory by directory from the one given or the root. -/
def listEntries (config : DavConfig) (answer : Text → DavAnswer) (steps : Nat)
    (mailboxId : Option Text) : Except DavError (List TargetEntry) :=
  let start := normalizeRelativePath (mailboxId.getD [])
  match Store.walk (lookAt config answer) .unfinished steps [start] [start] with
  | .error e => .error e
  | .ok visits => .ok (visits.flatMap (·.2))

/-! ### What is on the target -/

/-- Collections and files below a base, each by its names. -/
structure Tree where
  folders : List (List Text)
  files : List (List Text)
  nodup : (folders ++ files).Nodup
  names : ∀ p ∈ folders ++ files, p ≠ [] ∧ ∀ n ∈ p, IsName n
  parents : ∀ p ∈ folders ++ files, p.dropLast = [] ∨ p.dropLast ∈ folders

namespace Tree

/-- The base itself is a folder. -/
def IsFolder (tree : Tree) (names : List Text) : Prop := names = [] ∨ names ∈ tree.folders

instance (tree : Tree) (names : List Text) : Decidable (tree.IsFolder names) :=
  inferInstanceAs (Decidable (_ ∨ _))

/-- What is directly in a folder. -/
def childrenAt (tree : Tree) (names : List Text) : List (List Text) :=
  (tree.folders ++ tree.files).filter fun p => p.dropLast = names

def child (tree : Tree) (names : List Text) : Child := ⟨joinSlash names, decide (tree.IsFolder names)⟩

end Tree

/-- A resource as a server tells of it; one elsewhere has no names here. -/
structure Told where
  href : Href
  names : Option (List Text)
  collection : Bool

def Told.response (t : Told) : Response := ⟨t.href.text, t.collection⟩

/-- A path that is not below a base, and not the base. -/
structure Outside (D path : Text) : Prop where
  rooted : path.head? = some '/'
  other : path ≠ D
  apart : ¬ D ++ ['/'] <+: path

/-- A server of a tree.  Asked for a folder, it tells of it and of what is
directly in it, in any order, and may tell of resources elsewhere. -/
structure Serves (D : Text) (tree : Tree) (tells : Text → Option (List Told)) : Prop where
  answers : ∀ url names, Addresses D url names → tree.IsFolder names →
    ∃ told, tells url = some told ∧
      (told.filterMap (·.names)).Perm (names :: tree.childrenAt names)
  truth : ∀ url told, tells url = some told → ∀ t ∈ told, ∀ names, t.names = some names →
    t.href.Names (D ++ pathText names) ∧ t.collection = decide (tree.IsFolder names)
  elsewhere : ∀ url told, tells url = some told → ∀ t ∈ told, t.names = none →
    ∃ path, t.href.Names path ∧ Outside D path

/-- The answers of what a server tells; it refuses the rest. -/
def answerOf (tells : Text → Option (List Told)) (url : Text) : DavAnswer :=
  match tells url with
  | none => .other 404 []
  | some told => .multiStatus (told.map Told.response)

/-- A file's entry. -/
def entryOf (p : List Text) : TargetEntry := ⟨joinSlash p, joinSlash p, joinSlash p.dropLast⟩

/-- Asked for each folder of the tree, every resource the server tells of. -/
def Told.AskedFor (config : DavConfig) (tree : Tree) (tells : Text → Option (List Told)) (t : Told)
    (names : List Text) : Prop :=
  t.names = some names ∧ ∃ folder told, tree.IsFolder folder ∧
    tells (buildUrl config (joinSlash folder)) = some told ∧ t ∈ told

/-- **A right listing**: each href is read as the path below the base, and every
file is listed once, under its path, which is the path it is written by. -/
structure Listed (config : DavConfig) (tree : Tree) (tells : Text → Option (List Told)) : Prop where
  read : ∀ (t : Told) names, t.AskedFor config tree tells names →
    hrefRelativeTo t.href.text (buildUrl config []) = .ok (some (joinSlash names))
  keyed : ∀ p ∈ tree.files, normalizeRelativePath (joinSlash p) = joinSlash p
  entries : ∃ steps entries, listEntries config (answerOf tells) steps none = .ok entries ∧
    entries.Perm (tree.files.map entryOf)

/-- What makes a listing right: hrefs that are plain, and no `\` in a file's
path. -/
structure PlainListing (config : DavConfig) (D : Text) (tree : Tree)
    (tells : Text → Option (List Told)) : Prop where
  hrefs : ∀ (t : Told) names, t.AskedFor config tree tells names →
    t.href.Plain (basePathOf (buildUrl config [])) D names
  files : ∀ p ∈ tree.files, ∀ n ∈ p, '\\' ∉ n

/-- What else it needs: no `\` in a folder's, and resources elsewhere written so
that they stay there. -/
structure PlainElsewhere (config : DavConfig) (tree : Tree) (tells : Text → Option (List Told)) :
    Prop where
  folders : ∀ p ∈ tree.folders, ∀ n ∈ p, '\\' ∉ n
  strays : ∀ url told, tells url = some told → ∀ t ∈ told, t.names = none →
    '&' ∉ t.href.spelled ∧ '%' ∉ basePathOf (buildUrl config []) ∧
      (t.href.origin ≠ [] → ∀ path, decodeURIComponent t.href.spelled = some path →
        urlPathname (t.href.origin ++ path) = path)

/-! ### A folder looked at -/

variable {config : DavConfig} {tree : Tree} {tells : Text → Option (List Told)} {D o p root self : Text}
  {names path : List Text} {told : List Told}

theorem Tree.isName_of_folder (h : tree.IsFolder names) : ∀ n ∈ names, IsName n := by
  rcases h with rfl | h
  · exact fun n hn => absurd hn List.not_mem_nil
  · exact (tree.names names (List.mem_append_left _ h)).2

theorem Tree.mem_childrenAt :
    path ∈ tree.childrenAt names ↔ path ∈ tree.folders ++ tree.files ∧ path.dropLast = names := by
  unfold Tree.childrenAt
  rw [List.mem_filter, decide_eq_true_iff]

theorem Tree.not_mem_childrenAt_self : names ∉ tree.childrenAt names := by
  intro h
  obtain ⟨hmem, hlast⟩ := Tree.mem_childrenAt.mp h
  have hlength := congrArg List.length hlast
  have hne := List.length_pos_iff.mpr (tree.names names hmem).1
  rw [List.length_dropLast] at hlength
  omega

/-- A resource elsewhere is not answered, where its href stays there. -/
theorem hrefRelativeTo_outside {h : Href} {q : Text} (hh : h.Names q) (hq : Outside D q)
    (hb : decodeURIComponent (basePathOf root) = some D) (hamp : '&' ∉ h.spelled)
    (hbase : '%' ∉ basePathOf root)
    (hurl : h.origin ≠ [] → ∀ path, decodeURIComponent h.spelled = some path →
      urlPathname (h.origin ++ path) = path) :
    hrefRelativeTo h.text root = .ok none := by
  obtain ⟨t, ht, -, -, hsame⟩ := decode_xmlText hh.spelled
  rw [hsame hamp] at ht
  have hplain : decodeURIComponent h.spelled = some (q ++ h.tail) := by
    rwa [xmlText_of_no_amp hamp] at ht
  have hsameBase : D = basePathOf root := by
    rw [decode_plain hbase] at hb
    exact (Option.some.inj hb).symm
  have hread : ∃ t, decodeURIComponent h.text = some t ∧ pathOfDecoded t = q ++ h.tail := by
    by_cases horigin : h.origin = []
    · refine ⟨q ++ h.tail, ?_, ?_⟩
      · rw [Href.text, horigin, List.nil_append, ht]
      · have hhead : (q ++ h.tail).head? = some '/' := by
          rw [List.head?_append, hq.rooted]
          rfl
        rw [pathOfDecoded, not_absolute_of_head hhead, if_neg Bool.false_ne_true]
    · obtain ⟨ho, hescapes, hreference, habsolute⟩ := hh.origin.resolve_left horigin
      refine ⟨h.origin ++ (q ++ h.tail), ?_, ?_⟩
      · rw [Href.text, xmlText_append, xmlText_of_no_amp hreference, decode_append_plain hescapes, ht]
        rfl
      · rw [pathOfDecoded, isAbsoluteUrl_append habsolute, if_pos rfl]
        exact hurl horigin _ hplain
  obtain ⟨t, hdecode, hpath⟩ := hread
  rw [hrefRelativeTo_of_decoded hdecode, hpath, stripTrailing_append_tail h.tail_cases]
  have hne : basePathOf root ≠ [] := by
    rw [← hsameBase]
    rintro rfl
    obtain ⟨rest, rfl⟩ := List.head?_eq_some_iff.mp hq.rooted
    exact hq.apart (List.prefix_append ['/'] rest)
  rw [← hsameBase] at hne ⊢
  obtain ⟨slashes, hslashes, hall⟩ := stripTrailing_append_slashes q
  unfold relativeTo
  rw [if_neg hne, if_neg, if_pos]
  · rw [Bool.not_eq_true', ← Bool.not_eq_true, List.isPrefixOf_iff_prefix]
    exact fun hpre => hq.apart (hpre.trans (stripTrailing_initial q))
  · intro heq
    rw [heq] at hslashes
    cases slashes with
    | nil => exact hq.other (hslashes.trans (List.append_nil D))
    | cons c slashes =>
        obtain rfl := hall c List.mem_cons_self
        refine hq.apart ⟨slashes, ?_⟩
        rw [hslashes, List.append_assoc]
        rfl

/-- A server's answer is read as the resources it tells of, the one asked for
left out. -/
theorem childrenOf_told
    (hown : ∀ t ∈ told, ∀ n, t.names = some n →
      hrefRelativeTo t.href.text root = .ok (some (joinSlash n)) ∧
        t.collection = decide (tree.IsFolder n) ∧ normalizeRelativePath (joinSlash n) = joinSlash n)
    (hstray : ∀ t ∈ told, t.names = none → hrefRelativeTo t.href.text root = .ok none) :
    childrenOf root self (told.map Told.response) =
      .ok (((told.filterMap (·.names)).filter (fun n => joinSlash n ≠ self)).map tree.child) := by
  induction told with
  | nil => rfl
  | cons t told ih =>
      have hrest := ih (fun s hs => hown s (List.mem_cons_of_mem _ hs))
        fun s hs => hstray s (List.mem_cons_of_mem _ hs)
      rw [List.map_cons, childrenOf]
      cases hnames : t.names with
      | none =>
          have hnone : hrefRelativeTo t.response.href root = .ok none :=
            hstray t List.mem_cons_self hnames
          rw [hnone, List.filterMap_cons_none hnames]
          exact hrest
      | some n =>
          obtain ⟨hread, hkind, hnormal⟩ := hown t List.mem_cons_self n hnames
          have hsome : hrefRelativeTo t.response.href root = .ok (some (joinSlash n)) := hread
          rw [hsome, List.filterMap_cons_some hnames]
          dsimp only
          rw [hnormal, hrest]
          by_cases hself : joinSlash n = self
          · rw [if_pos hself, List.filter_cons_of_neg (by simpa using hself)]
          · rw [if_neg hself, List.filter_cons_of_pos (by simpa using hself), List.map_cons]
            rw [show t.response.collection = decide (tree.IsFolder n) from hkind]
            rfl

theorem Tree.childrenAt_files (names : List Text) :
    (tree.childrenAt names).filter (fun p => !decide (tree.IsFolder p)) =
      tree.files.filter (fun p => p.dropLast = names) := by
  unfold Tree.childrenAt
  rw [List.filter_append, List.filter_append]
  have hfolders : (tree.folders.filter fun p => p.dropLast = names).filter
      (fun p => !decide (tree.IsFolder p)) = [] := by
    refine List.filter_eq_nil_iff.mpr fun p hp => ?_
    have hfolder : tree.IsFolder p := .inr (List.mem_of_mem_filter hp)
    simp [hfolder]
  have hfiles : (tree.files.filter fun p => p.dropLast = names).filter
      (fun p => !decide (tree.IsFolder p)) = tree.files.filter fun p => p.dropLast = names := by
    refine List.filter_eq_self.mpr fun p hp => ?_
    have hp := List.mem_of_mem_filter hp
    have hnot : ¬ tree.IsFolder p := by
      rintro (hnil | hfolder)
      · exact (tree.names p (List.mem_append_right _ hp)).1 hnil
      · exact (List.nodup_append.mp tree.nodup).2.2 p hfolder p hp rfl
    simp [hnot]
  rw [hfolders, hfiles, List.nil_append]

/-- **A folder looked at** is the folders in it and its files. -/
theorem lookAt_folder (hlegal : config.Legal o p)
    (hD : decodeURIComponent (basePathOf (buildUrl config [])) = some D)
    (hserves : Serves D tree tells) (hplain : PlainListing config D tree tells)
    (helse : PlainElsewhere config tree tells) (hfolder : tree.IsFolder names) :
    ∃ dirs files, lookAt config (answerOf tells) (joinSlash names) = .ok (dirs, files) ∧
      dirs.Perm (((tree.childrenAt names).filter fun n => decide (tree.IsFolder n)).map joinSlash) ∧
      files.Perm ((tree.files.filter fun p => p.dropLast = names).map entryOf) := by
  have hnames := Tree.isName_of_folder hfolder
  have hslashes : ∀ n ∈ tree.folders ++ tree.files, ∀ m ∈ n, '\\' ∉ m := by
    intro n hn
    rcases List.mem_append.mp hn with hn | hn
    · exact helse.folders n hn
    · exact hplain.files n hn
  have hself : ∀ n ∈ names :: tree.childrenAt names,
      (∀ m ∈ n, IsName m) ∧ ∀ m ∈ n, '\\' ∉ m := by
    intro n hn
    rcases List.mem_cons.mp hn with rfl | hn
    · rcases hfolder with rfl | hfolder
      · exact ⟨hnames, fun m hm => absurd hm List.not_mem_nil⟩
      · exact ⟨hnames, hslashes n (List.mem_append_left _ hfolder)⟩
    · have hmem := (Tree.mem_childrenAt.mp hn).1
      exact ⟨(tree.names n hmem).2, hslashes n hmem⟩
  obtain ⟨told, htold, hperm⟩ :=
    hserves.answers _ names (addresses_buildUrl hlegal hD hnames) hfolder
  have hmem : ∀ t ∈ told, ∀ n, t.names = some n → n ∈ names :: tree.childrenAt names :=
    fun t ht n hn => hperm.subset (List.mem_filterMap.mpr ⟨t, ht, hn⟩)
  have hown : ∀ t ∈ told, ∀ n, t.names = some n →
      hrefRelativeTo t.href.text (buildUrl config []) = .ok (some (joinSlash n)) ∧
        t.collection = decide (tree.IsFolder n) ∧
          normalizeRelativePath (joinSlash n) = joinSlash n := by
    intro t ht n hn
    obtain ⟨hhref, hkind⟩ := hserves.truth _ told htold t ht n hn
    obtain ⟨hisName, hnoSlash⟩ := hself n (hmem t ht n hn)
    refine ⟨?_, hkind, normalize_joinSlash hisName hnoSlash⟩
    exact Href.plain_of hD hisName hhref (hplain.hrefs t n ⟨hn, names, told, hfolder, htold, ht⟩)
  have hstray : ∀ t ∈ told, t.names = none →
      hrefRelativeTo t.href.text (buildUrl config []) = .ok none := by
    intro t ht hn
    obtain ⟨q, hq, hout⟩ := hserves.elsewhere _ told htold t ht hn
    obtain ⟨hamp, hbase, hurl⟩ := helse.strays _ told htold t ht hn
    exact hrefRelativeTo_outside hq hout hD hamp hbase hurl
  have hchildren : childrenOf (buildUrl config []) (joinSlash names) (told.map Told.response) = _ :=
    childrenOf_told hown hstray
  have hfilter : ((told.filterMap (·.names)).filter fun n => joinSlash n ≠ joinSlash names).Perm
      (tree.childrenAt names) := by
    refine (hperm.filter _).trans ?_
    rw [List.filter_cons_of_neg (by simp), List.filter_eq_self.mpr]
    intro n hn
    rw [decide_eq_true_iff]
    intro heq
    have hsame := joinSlash_injective (hself n (List.mem_cons_of_mem _ hn)).1 hnames heq
    exact Tree.not_mem_childrenAt_self (hsame ▸ hn)
  have hlook : lookAt config (answerOf tells) (joinSlash names) = .ok
      ((((told.filterMap (·.names)).filter fun n => joinSlash n ≠ joinSlash names).map
          tree.child |>.filter (·.isDirectory)).map (·.path),
        (((told.filterMap (·.names)).filter fun n => joinSlash n ≠ joinSlash names).map
          tree.child |>.filter (!·.isDirectory)).map (entryIn (joinSlash names))) := by
    unfold lookAt propfindChildren answerOf
    rw [htold]
    dsimp only
    rw [normalize_joinSlash hnames (hself names List.mem_cons_self).2, hchildren]
  refine ⟨_, _, hlook, ?_, ?_⟩
  · rw [List.filter_map, List.map_map]
    exact (hfilter.filter _).map _
  · rw [List.filter_map, List.map_map, ← Tree.childrenAt_files]
    refine ((hfilter.filter _).map _).trans (.of_eq (List.map_congr_left fun n hn => ?_))
    rw [← (Tree.mem_childrenAt.mp (List.mem_of_mem_filter hn)).2]
    rfl

/-! ### The walk -/

theorem Tree.isFolder_iff : tree.IsFolder names ↔ names ∈ [] :: tree.folders := List.mem_cons.symm

theorem Tree.folders_nodup (tree : Tree) : ([] :: tree.folders).Nodup := by
  refine List.nodup_cons.mpr ⟨fun hmem => ?_, (List.nodup_append.mp tree.nodup).1⟩
  exact (tree.names [] (List.mem_append_left _ hmem)).1 rfl

theorem Tree.paths_nodup (tree : Tree) : (([] :: tree.folders).map joinSlash).Nodup := by
  refine List.Nodup.map_on (fun a ha b hb heq => ?_) tree.folders_nodup
  exact joinSlash_injective (Tree.isName_of_folder (Tree.isFolder_iff.mpr ha))
    (Tree.isName_of_folder (Tree.isFolder_iff.mpr hb)) heq

theorem Tree.parent_isFolder (h : path ∈ tree.folders ++ tree.files) : tree.IsFolder path.dropLast :=
  tree.parents path h

/-- What an answer holds of files. -/
def filesAt (config : DavConfig) (answer : Text → DavAnswer) (dir : Text) : List TargetEntry :=
  match lookAt config answer dir with
  | .ok (_, files) => files
  | .error _ => []

theorem filesAt_of_lookAt {answer : Text → DavAnswer} {dir : Text} {dirs : List Text}
    {files : List TargetEntry} (h : lookAt config answer dir = .ok (dirs, files)) :
    filesAt config answer dir = files := by
  unfold filesAt
  rw [h]

/-- Each file is in one folder. -/
theorem Tree.files_by_folder (tree : Tree) :
    (([] :: tree.folders).flatMap fun n => tree.files.filter fun p => p.dropLast = n).Perm
      tree.files := by
  have hfiles : tree.files.Nodup := (List.nodup_append.mp tree.nodup).2.1
  refine (List.perm_ext_iff_of_nodup ?_ hfiles).mpr fun q => ?_
  · refine List.nodup_flatMap.mpr ⟨fun n _ => hfiles.filter _, ?_⟩
    refine tree.folders_nodup.imp fun hne q hq hq' => hne ?_
    have hleft := of_decide_eq_true (List.mem_filter.mp hq).2
    have hright := of_decide_eq_true (List.mem_filter.mp hq').2
    exact hleft.symm.trans hright
  · rw [List.mem_flatMap]
    constructor
    · rintro ⟨n, -, hq⟩
      exact List.mem_of_mem_filter hq
    · intro hq
      refine ⟨q.dropLast, Tree.isFolder_iff.mp (Tree.parent_isFolder (List.mem_append_right _ hq)), ?_⟩
      exact List.mem_filter.mpr ⟨hq, decide_eq_true rfl⟩

section

variable (hlegal : config.Legal o p) (hD : decodeURIComponent (basePathOf (buildUrl config [])) = some D)
  (hserves : Serves D tree tells) (hplain : PlainListing config D tree tells)
  (helse : PlainElsewhere config tree tells)

include hlegal hD hserves hplain helse

/-- A folder leads to the folders in it. -/
theorem leads_iff {a b : Text} (hfolder : tree.IsFolder names) (ha : a = joinSlash names) :
    Store.Leads (lookAt config (answerOf tells)) a b ↔
      ∃ n ∈ tree.childrenAt names, tree.IsFolder n ∧ b = joinSlash n := by
  subst ha
  obtain ⟨dirs, files, hlook, hdirs, -⟩ := lookAt_folder hlegal hD hserves hplain helse hfolder
  constructor
  · rintro ⟨found, here, hfound, hb⟩
    rw [hlook] at hfound
    cases hfound
    obtain ⟨n, hn, rfl⟩ := List.mem_map.mp (hdirs.subset hb)
    obtain ⟨hchild, hkind⟩ := List.mem_filter.mp hn
    exact ⟨n, hchild, of_decide_eq_true hkind, rfl⟩
  · rintro ⟨n, hn, hkind, rfl⟩
    refine ⟨dirs, files, hlook, hdirs.symm.subset ?_⟩
    exact List.mem_map_of_mem (List.mem_filter.mpr ⟨hn, decide_eq_true hkind⟩)

/-- What is reached from the root are the folders. -/
theorem reached_isFolder {a : Text}
    (h : Relation.ReflTransGen (Store.Leads (lookAt config (answerOf tells))) [] a) :
    ∃ n, tree.IsFolder n ∧ a = joinSlash n := by
  induction h with
  | refl => exact ⟨[], .inl rfl, rfl⟩
  | tail _ hstep ih =>
      obtain ⟨n, hn, rfl⟩ := ih
      obtain ⟨m, -, hm, rfl⟩ :=
        (leads_iff hlegal hD hserves hplain helse hn rfl).mp hstep
      exact ⟨m, hm, rfl⟩

/-- **The walk looks at every folder once**, and ends. -/
theorem walk_folders : ∃ steps visits,
    Store.walk (lookAt config (answerOf tells)) .unfinished steps [[]] [[]] = .ok visits ∧
      (visits.map (·.1)).Perm (([] :: tree.folders).map joinSlash) ∧
        ∀ v ∈ visits, filesAt config (answerOf tells) v.1 = v.2 := by
  have hlook : ∀ a ∈ ([] :: tree.folders).map joinSlash, ∃ found here,
      lookAt config (answerOf tells) a = .ok (found, here) ∧
        ∀ b ∈ found, b ∈ ([] :: tree.folders).map joinSlash := by
    intro a ha
    obtain ⟨n, hn, rfl⟩ := List.mem_map.mp ha
    obtain ⟨dirs, files, hfound, hdirs, -⟩ :=
      lookAt_folder hlegal hD hserves hplain helse (Tree.isFolder_iff.mpr hn)
    refine ⟨dirs, files, hfound, fun b hb => ?_⟩
    obtain ⟨m, hm, rfl⟩ := List.mem_map.mp (hdirs.subset hb)
    exact List.mem_map_of_mem (Tree.isFolder_iff.mp (of_decide_eq_true (List.mem_filter.mp hm).2))
  have hstart : ∀ a ∈ [[]], a ∈ ([] :: tree.folders).map joinSlash := by
    intro a ha
    rw [List.mem_singleton.mp ha]
    exact List.mem_map_of_mem List.mem_cons_self
  obtain ⟨steps, visits, hwalk⟩ : ∃ steps visits,
      Store.walk (lookAt config (answerOf tells)) .unfinished steps [[]] [[]] = .ok visits :=
    ⟨_, Store.walk_ends tree.paths_nodup hlook hstart (Nat.le_refl _)⟩
  have hvisited := Store.walk_spec (List.nodup_singleton _) (fun a ha => ha) hwalk
  refine ⟨_, visits, hwalk, ?_, fun v hv => ?_⟩
  · refine (List.perm_ext_iff_of_nodup hvisited.once tree.paths_nodup).mpr fun a => ?_
    constructor
    · intro ha
      obtain ⟨start, hstart, hreach⟩ := hvisited.reached a ha
      rw [List.mem_singleton.mp hstart] at hreach
      obtain ⟨n, hn, rfl⟩ := reached_isFolder hlegal hD hserves hplain helse hreach
      exact List.mem_map_of_mem (Tree.isFolder_iff.mp hn)
    · intro ha
      obtain ⟨n, hn, rfl⟩ := List.mem_map.mp ha
      have hroot := hvisited.queued [] List.mem_cons_self
      -- Each folder is found in the one it is in.
      induction n using List.reverseRecOn with
      | nil => exact hroot
      | append_singleton init last ih =>
          have hfolder : init ++ [last] ∈ tree.folders :=
            (List.mem_cons.mp hn).resolve_left (by simp)
          have hparent : tree.IsFolder (init ++ [last]).dropLast :=
            Tree.parent_isFolder (List.mem_append_left _ hfolder)
          rw [List.dropLast_concat] at hparent
          have hinit := ih (Tree.isFolder_iff.mp hparent) (List.mem_map_of_mem (Tree.isFolder_iff.mp hparent))
          obtain ⟨v, hv, hpath⟩ := List.mem_map.mp hinit
          obtain ⟨found, hfound, hclosed⟩ := hvisited.looked v hv
          have hleads : Store.Leads (lookAt config (answerOf tells)) v.1 (joinSlash (init ++ [last])) := by
            refine (leads_iff hlegal hD hserves hplain helse hparent hpath).mpr ⟨init ++ [last], ?_, .inr hfolder, rfl⟩
            exact Tree.mem_childrenAt.mpr ⟨List.mem_append_left _ hfolder, List.dropLast_concat⟩
          obtain ⟨found', here, hsame, hmem⟩ := hleads
          rw [hfound] at hsame
          cases hsame
          rcases hclosed _ hmem with hseen | hseen
          · rw [List.mem_singleton.mp hseen]
            exact hroot
          · exact hseen
  · obtain ⟨found, hfound, -⟩ := hvisited.looked v hv
    exact filesAt_of_lookAt hfound

/-- **Every file is listed once, under its path.** -/
theorem listEntries_files : ∃ steps entries,
    listEntries config (answerOf tells) steps none = .ok entries ∧
      entries.Perm (tree.files.map entryOf) := by
  obtain ⟨steps, visits, hwalk, hperm, hfiles⟩ := walk_folders hlegal hD hserves hplain helse
  refine ⟨steps, visits.flatMap (·.2), ?_, ?_⟩
  · unfold listEntries
    have hstart : normalizeRelativePath ((none : Option Text).getD []) = [] := rfl
    dsimp only
    rw [hstart, hwalk]
  have hvisits : visits.flatMap (·.2) =
      (visits.map (·.1)).flatMap (filesAt config (answerOf tells)) := by
    rw [List.flatMap_map]
    exact List.flatMap_congr fun v hv => (hfiles v hv).symm
  rw [hvisits]
  refine (hperm.flatMap_right _).trans ?_
  rw [List.flatMap_map]
  have heach : ∀ n ∈ [] :: tree.folders, (filesAt config (answerOf tells) (joinSlash n)).Perm
      ((tree.files.filter fun p => p.dropLast = n).map entryOf) := by
    intro n hn
    obtain ⟨dirs, files, hlook, -, hentries⟩ :=
      lookAt_folder hlegal hD hserves hplain helse (Tree.isFolder_iff.mpr hn)
    rw [filesAt_of_lookAt hlook]
    exact hentries
  refine (List.Perm.flatMap_left _ heach).trans ?_
  rw [← List.map_flatMap]
  exact tree.files_by_folder.map _

end

/-! ### When the listing is right -/

theorem Told.AskedFor.isName {t : Told} (hlegal : config.Legal o p)
    (hD : decodeURIComponent (basePathOf (buildUrl config [])) = some D)
    (hserves : Serves D tree tells) (ht : t.AskedFor config tree tells names) :
    (∀ n ∈ names, IsName n) ∧ t.href.Names (D ++ pathText names) := by
  obtain ⟨hnames, folder, told, hfolder, htold, hmem⟩ := ht
  obtain ⟨told', htold', hperm⟩ := hserves.answers _ folder
    (addresses_buildUrl hlegal hD (Tree.isName_of_folder hfolder)) hfolder
  rw [htold] at htold'
  cases htold'
  refine ⟨?_, (hserves.truth _ told htold t hmem names hnames).1⟩
  rcases List.mem_cons.mp (hperm.subset (List.mem_filterMap.mpr ⟨t, hmem, hnames⟩)) with rfl | hchild
  · exact Tree.isName_of_folder hfolder
  · exact (tree.names names (Tree.mem_childrenAt.mp hchild).1).2

/-- **When a listing is right.**  It is where every href is plain and no path
has a `\`, over every server of the tree; and it is not where an href that is a
path, or holds no reference, is not plain, or where a file's path has a `\`. -/
theorem listing_right (hlegal : config.Legal o p)
    (hD : decodeURIComponent (basePathOf (buildUrl config [])) = some D)
    (hserves : Serves D tree tells) :
    (PlainListing config D tree tells ∧ PlainElsewhere config tree tells →
        Listed config tree tells) ∧
      (Listed config tree tells →
        (∀ (t : Told) names, t.AskedFor config tree tells names →
          t.href.origin = [] ∨ '&' ∉ t.href.spelled →
            t.href.Plain (basePathOf (buildUrl config [])) D names) ∧
        ∀ p ∈ tree.files, ∀ n ∈ p, '\\' ∉ n) := by
  constructor
  · rintro ⟨hplain, helse⟩
    refine ⟨fun t names ht => ?_, fun p hp => ?_, ?_⟩
    · obtain ⟨hnames, hhref⟩ := ht.isName hlegal hD hserves
      exact Href.plain_of hD hnames hhref (hplain.hrefs t names ht)
    · exact normalize_joinSlash (tree.names p (List.mem_append_right _ hp)).2 (hplain.files p hp)
    · exact listEntries_files hlegal hD hserves hplain helse
  · intro hlisted
    refine ⟨fun t names ht hform => ?_, fun p hp n hn hmem => ?_⟩
    · obtain ⟨hnames, hhref⟩ := ht.isName hlegal hD hserves
      exact Href.plain_of_read hD hnames hhref hform (hlisted.read t names ht)
    · have hin : '\\' ∈ pathText p := List.mem_flatMap.mpr ⟨n, hn, List.mem_cons_of_mem _ hmem⟩
      rw [pathText_eq_joinSlash (List.ne_nil_of_mem hn)] at hin
      have hkey := (List.mem_cons.mp hin).resolve_left (by decide)
      rw [← hlisted.keyed p hp] at hkey
      exact mem_normalize hkey rfl

/-! ### A target with one file -/

def oneFile : Tree where
  folders := []
  files := [["a".toList]]
  nodup := List.nodup_singleton _
  names := by
    intro p hp
    rw [List.mem_singleton.mp hp]
    refine ⟨List.cons_ne_nil _ _, fun n hn => ?_⟩
    rw [List.mem_singleton.mp hn]
    exact ⟨by decide, by decide, by decide, by decide⟩
  parents := by
    intro p hp
    rw [List.mem_singleton.mp hp]
    exact .inl rfl

/-- A server that writes its base as `spelled`, and hrefs as paths. -/
def tellsOneFile (spelled : Text) (_ : Text) : Option (List Told) :=
  some [⟨⟨[], spelled ++ ['/'], true⟩, some [], true⟩,
    ⟨⟨[], spelled ++ ['/', 'a'], false⟩, some ["a".toList], false⟩]

theorem serves_oneFile {spelled : Text} (h : Spells MayStand spelled D) :
    Serves D oneFile (tellsOneFile spelled) := by
  have hslash : Spells MayStand (spelled ++ ['/']) (D ++ ['/']) :=
    h.append (.plain (by decide) (by decide) .nil)
  have hfile : Spells MayStand (spelled ++ ['/', 'a']) (D ++ ['/', 'a']) :=
    h.append (.plain (by decide) (by decide) (.plain (by decide) (by decide) .nil))
  constructor
  · rintro url names - (rfl | hmem)
    · exact ⟨_, rfl, .refl _⟩
    · cases hmem
  · intro url told htold t ht names hnames
    cases htold
    rcases List.mem_cons.mp ht with rfl | ht
    · cases hnames
      refine ⟨⟨.inl rfl, ?_⟩, rfl⟩
      show Spells MayStand _ (D ++ [] ++ ['/'])
      rw [List.append_nil]
      exact hslash
    · rw [List.mem_singleton.mp ht] at hnames ⊢
      cases hnames
      refine ⟨⟨.inl rfl, ?_⟩, rfl⟩
      show Spells MayStand _ (D ++ ['/', 'a'] ++ [])
      rw [List.append_nil]
      exact hfile
  · intro url told htold t ht hnames
    cases htold
    rcases List.mem_cons.mp ht with rfl | ht
    · cases hnames
    · rw [List.mem_singleton.mp ht] at hnames
      cases hnames

/-- An endpoint, with or without a folder of the mapping's. -/
def davConfig (folder : Option Text) : DavConfig := ⟨"https://h/dav".toList, folder⟩

theorem legal_davConfig (folder : Option Text) :
    (davConfig folder).Legal "https://h".toList "/dav".toList := by
  have hscheme : "https".toList.all (fun c => decide (c ≠ ':') && !isC0OrSpace c) = true := by decide
  have hhost : "h".toList.all (fun c => !isSlash c && !endsPath c && !isC0OrSpace c) = true := by decide
  have hpath : "/dav".toList.all (fun c => !isTabOrNewline c && !endsPath c) = true := by decide
  rw [List.all_eq_true] at hscheme hhost hpath
  refine ⟨⟨"https".toList, "h".toList, by decide, by decide, by decide, ?_, ?_⟩, ⟨?_, ?_⟩, rfl⟩
  · intro c hc
    simpa using hscheme c hc
  · intro c hc
    simpa [and_assoc] using hhost c hc
  · intro c hc
    simpa using hpath c hc
  · intro c hc
    cases hc
    rfl

theorem spells_dav : Spells MayStand "/dav".toList "/dav".toList :=
  .plain (by decide) (by decide) (.plain (by decide) (by decide)
    (.plain (by decide) (by decide) (.plain (by decide) (by decide) .nil)))

theorem basePathOf_dav : basePathOf (buildUrl (davConfig none) []) = "/dav".toList := by decide +kernel

theorem decode_dav :
    decodeURIComponent (basePathOf (buildUrl (davConfig none) [])) = some "/dav".toList := by
  rw [basePathOf_dav]
  exact decode_plain (by decide)

theorem plain_oneFile :
    PlainListing (davConfig none) "/dav".toList oneFile (tellsOneFile "/dav".toList) ∧
      PlainElsewhere (davConfig none) oneFile (tellsOneFile "/dav".toList) := by
  have hescapes : '%' ∉ basePathOf (buildUrl (davConfig none) []) := by
    rw [basePathOf_dav]
    decide
  refine ⟨⟨?_, ?_⟩, ⟨fun p hp => absurd hp List.not_mem_nil, ?_⟩⟩
  · rintro t names ⟨-, folder, told, -, htold, ht⟩
    cases htold
    rcases List.mem_cons.mp ht with rfl | ht
    · exact ⟨by decide, fun _ => hescapes, fun hne => absurd rfl hne⟩
    · rw [List.mem_singleton.mp ht]
      exact ⟨by decide, fun _ => hescapes, fun hne => absurd rfl hne⟩
  · intro p hp
    rw [List.mem_singleton.mp hp]
    intro n hn
    rw [List.mem_singleton.mp hn]
    decide
  · intro url told htold t ht hnames
    cases htold
    rcases List.mem_cons.mp ht with rfl | ht
    · cases hnames
    · rw [List.mem_singleton.mp ht] at hnames
      cases hnames

theorem listing_right_oneFile :
    Listed (davConfig none) oneFile (tellsOneFile "/dav".toList) :=
  (listing_right (legal_davConfig none) decode_dav (serves_oneFile spells_dav)).1 plain_oneFile

/-! ### A folder with a blank in its name -/

def blankConfig : DavConfig := davConfig (some "Mijn map".toList)

theorem spells_blank : Spells MayStand "/dav/Mijn%20map".toList "/dav/Mijn map".toList := by
  have hmap : Spells MayStand "map".toList "map".toList :=
    .plain (by decide) (by decide) (.plain (by decide) (by decide)
      (.plain (by decide) (by decide) .nil))
  have hmijn : Spells MayStand "/Mijn".toList "/Mijn".toList :=
    .plain (by decide) (by decide) (.plain (by decide) (by decide) (.plain (by decide) (by decide)
      (.plain (by decide) (by decide) (.plain (by decide) (by decide) .nil))))
  have hblank : Spells MayStand ("%20".toList ++ "map".toList) (' ' :: "map".toList) :=
    .escaped (.cons (x := 0x20) (by decide) .nil) hmap
  exact spells_dav.append (hmijn.append hblank)

theorem basePathOf_blank :
    basePathOf (buildUrl blankConfig []) = "/dav/Mijn%20map".toList := by decide +kernel

theorem decode_blank :
    decodeURIComponent (basePathOf (buildUrl blankConfig [])) = some "/dav/Mijn map".toList := by
  rw [basePathOf_blank]
  exact decode_of_spells spells_blank

/-- Below a folder whose name is written with an escape, the file there is not
read at its path. -/
theorem listing_drops_escaped :
    ¬ ∀ (config : DavConfig) (o p D : Text) (tree : Tree) (tells : Text → Option (List Told)),
      config.Legal o p → decodeURIComponent (basePathOf (buildUrl config [])) = some D →
        Serves D tree tells → Listed config tree tells := by
  intro h
  have hserves := serves_oneFile spells_blank
  have hlisted := h blankConfig _ _ _ oneFile _ (legal_davConfig _) decode_blank hserves
  obtain ⟨file, hasked, horigin⟩ : ∃ t : Told, t.AskedFor blankConfig oneFile
      (tellsOneFile "/dav/Mijn%20map".toList) ["a".toList] ∧ t.href.origin = [] :=
    ⟨_, ⟨rfl, [], _, .inl rfl, rfl, List.mem_cons_of_mem _ List.mem_cons_self⟩, rfl⟩
  obtain ⟨hnames, hhref⟩ := hasked.isName (legal_davConfig _) decode_blank hserves
  have hread := (Href.path_iff decode_blank hnames hhref horigin).mp (hlisted.read file _ hasked)
  rw [basePathOf_blank] at hread
  exact hread.2 (by decide)

end Ownpace.Dav
