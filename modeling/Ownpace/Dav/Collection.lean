/-
Ownpace/Dav/Collection.lean

The collections of the target: `ensureCalendar` (`caldav-target-writer.ts`),
`ensureContactFolder` (`carddav-target-writer.ts`) and the slug that both are called by
(`dav-collection-path.ts`).

A source collection is known on the target by the words of its name and nothing else
(`slugWords`): two collections are told apart exactly where these differ.
-/
import Ownpace.Format.Words
import Ownpace.Keys.Text
import Ownpace.Uri.Percent

namespace Ownpace.Dav

open Keys Uri Words

/-- A source calendar or address book, as its listing names it. -/
structure CollectionFolder where
  path : Text
  name : Option Text := none
  deriving DecidableEq

/-! ### The slug -/

def lastSegment (path : Option Text) : Option Text :=
  path.bind fun path => ((path.splitOn '/').filter (!·.isEmpty)).getLast?

/-- `(name && name.trim()) || lastSegment(path) || fallback` -/
def slugSource (name path : Option Text) (fallback : Text) : Text :=
  match (name.map trim).filter (· ≠ []) with
  | some name => name
  | none => (lastSegment path).getD fallback

/-- `[a-z0-9]` -/
def isSlugChar (c : Char) : Bool := ('a' ≤ c && c ≤ 'z') || ('0' ≤ c && c ≤ '9')

/-- `raw.toLowerCase().replace(/[^a-z0-9]+/g, '-').replace(/^-+|-+$/g, '')` -/
def slugOf (t : CaseTable) (raw : Text) : Text :=
  strip '-' (squeeze isSlugChar '-' false (t.toLowerCase raw))

def collectionSlug (t : CaseTable) (name path : Option Text) (fallback : Text) : Text :=
  if slugOf t (slugSource name path fallback) = [] then fallback
  else slugOf t (slugSource name path fallback)

/-! ### Paths -/

/-- `normalizeCalendarPath` and `normalizeAddressBookPath`. -/
def normalizePath (extension path : Text) : Text :=
  let normalized := path.map fun c => if c = '\\' then '/' else c
  let normalized := if normalized.head? = some '/' then normalized else '/' :: normalized
  let normalized := if normalized.getLast? = some '/' then normalized else normalized ++ ['/']
  if (extension ++ ['/']).isSuffixOf normalized then normalized.take (normalized.length - 4)
  else normalized

/-- What the target answers while a pass runs: whether a collection is there, where a
failure to ask counts as no, and whether it can be made. -/
structure CollectionServer where
  holds : Text → Bool
  create : Text → CollectionFolder → Except Text Unit

/-- `ensureCalendar` and `ensureContactFolder`: the path, once something is there. -/
def ensureCollection (server : CollectionServer) (path : Text) (folder : CollectionFolder) :
    Except Text Text :=
  if server.holds path then .ok path
  else do
    server.create path folder
    return path

def calendarPath (t : CaseTable) (username : Text) (folder : CollectionFolder) : Text :=
  normalizePath ".ics".toList ("calendars/".toList ++ username ++ '/' ::
    collectionSlug t folder.name (some folder.path) "calendar".toList)

def ensureCalendar (t : CaseTable) (username : Text) (server : CollectionServer)
    (folder : CollectionFolder) : Except Text Text :=
  ensureCollection server (calendarPath t username folder) folder

def addressBookPath (t : CaseTable) (username : Text) (folder : CollectionFolder) : Text :=
  normalizePath ".vcf".toList ("addressbooks/users/".toList ++ username ++ '/' ::
    collectionSlug t folder.name (some folder.path) "contacts".toList)

def ensureContactFolder (t : CaseTable) (username : Text) (server : CollectionServer)
    (folder : CollectionFolder) : Except Text Text :=
  ensureCollection server (addressBookPath t username folder) folder

/-! ### The words of a slug -/

variable {t : CaseTable} {name path : Option Text} {fallback : Text}

/-- The words of a source collection: those of a-z and 0-9 in its name, or in the last
segment of its path where it has no name, lower-cased; the fallback where there are none. -/
def slugWords (t : CaseTable) (name path : Option Text) (fallback : Text) : List Text :=
  if words isSlugChar (t.toLowerCase (slugSource name path fallback)) = [] then [fallback]
  else words isSlugChar (t.toLowerCase (slugSource name path fallback))

theorem slugWords_legal (hne : fallback ≠ []) (hfallback : '-' ∉ fallback) :
    ∀ w ∈ slugWords t name path fallback, w ≠ [] ∧ '-' ∉ w := by
  intro w hw
  unfold slugWords at hw
  split_ifs at hw with hnone
  · obtain rfl := List.mem_singleton.mp hw
    exact ⟨hne, hfallback⟩
  · refine ⟨ne_nil_of_mem_words hw, fun hmem => ?_⟩
    have hdash := of_mem_words hw '-' hmem
    exact absurd hdash (by decide)

theorem collectionSlug_eq :
    collectionSlug t name path fallback = joined '-' (slugWords t name path fallback) := by
  have hstrip : slugOf t (slugSource name path fallback) =
      joined '-' (words isSlugChar (t.toLowerCase (slugSource name path fallback))) :=
    strip_squeeze (by decide) _
  have hnil : joined '-' (words isSlugChar (t.toLowerCase (slugSource name path fallback))) = [] ↔
      words isSlugChar (t.toLowerCase (slugSource name path fallback)) = [] :=
    joined_eq_nil_iff fun w hw => ne_nil_of_mem_words hw
  rw [collectionSlug, hstrip, slugWords]
  by_cases hnone : words isSlugChar (t.toLowerCase (slugSource name path fallback)) = []
  · rw [if_pos (hnil.mpr hnone), if_pos hnone, joined_cons, List.flatMap_nil, List.append_nil]
  · rw [if_neg fun h => hnone (hnil.mp h), if_neg hnone]

theorem isSlugChar_of_mem (hfallback : fallback.all isSlugChar = true) :
    ∀ c ∈ collectionSlug t name path fallback, isSlugChar c = true ∨ c = '-' := by
  have hwords : ∀ w ∈ slugWords t name path fallback, ∀ c ∈ w, isSlugChar c = true := by
    intro w hw
    unfold slugWords at hw
    split_ifs at hw with hnone
    · obtain rfl := List.mem_singleton.mp hw
      exact List.all_eq_true.mp hfallback
    · exact of_mem_words hw
  rw [collectionSlug_eq]
  cases hws : slugWords t name path fallback with
  | nil => exact fun c hc => absurd hc List.not_mem_nil
  | cons w ws =>
      rw [hws] at hwords
      intro c hc
      rw [joined_cons, List.mem_append, List.mem_flatMap] at hc
      obtain hc | ⟨v, hv, hc⟩ := hc
      · exact .inl (hwords w List.mem_cons_self c hc)
      · obtain rfl | hc := List.mem_cons.mp hc
        · exact .inr rfl
        · exact .inl (hwords v (List.mem_cons_of_mem _ hv) c hc)

theorem collectionSlug_ne_nil (hne : fallback ≠ []) : collectionSlug t name path fallback ≠ [] := by
  unfold collectionSlug
  split_ifs with hnone
  · exact hne
  · exact hnone

/-- Two source collections have one slug exactly where they have the same words. -/
theorem collectionSlug_inj {name' path' : Option Text} (hne : fallback ≠ [])
    (hfallback : '-' ∉ fallback) :
    collectionSlug t name path fallback = collectionSlug t name' path' fallback ↔
      slugWords t name path fallback = slugWords t name' path' fallback := by
  rw [collectionSlug_eq, collectionSlug_eq]
  constructor
  · exact joined_inj (slugWords_legal hne hfallback) (slugWords_legal hne hfallback)
  · exact fun h => congrArg (joined '-') h

/-! ### The path of a slug -/

/-- What stands behind the last of two marks is told by either. -/
theorem mark_behind {α : Type} {front front' back back' : List α} {a b : α} (hab : a ≠ b)
    (ha : a ∉ back') (hb : b ∉ back) : front ++ a :: back ≠ front' ++ b :: back' := by
  intro h
  obtain ⟨c, rfl, hc⟩ | ⟨c, rfl, hc⟩ := List.append_eq_append_iff.mp h
  · cases c with
    | nil => exact hab (List.cons.inj hc).1
    | cons d c =>
        rw [List.cons_append] at hc
        exact hb ((List.cons.inj hc).2 ▸ List.mem_append_right _ List.mem_cons_self)
  · cases c with
    | nil => exact hab (List.cons.inj hc).1.symm
    | cons d c =>
        rw [List.cons_append] at hc
        exact ha ((List.cons.inj hc).2 ▸ List.mem_append_right _ List.mem_cons_self)

/-- A folder's path below a home: a slash at each end, and nothing taken off. -/
theorem normalizePath_slug {extension home username slug : Text}
    (hextension : extension.head? = some '.') (hslash : '/' ∉ extension)
    (hhome : home.head? ≠ some '/' ∧ home ≠ [] ∧ '\\' ∉ home)
    (hslug : ∀ c ∈ slug, isSlugChar c = true ∨ c = '-') (hne : slug ≠ []) :
    normalizePath extension (home ++ username ++ '/' :: slug) =
      '/' :: home ++ username.map (fun c => if c = '\\' then '/' else c) ++ '/' :: slug ++ ['/'] := by
  have hplain : ∀ c ∈ slug, c ≠ '\\' ∧ c ≠ '/' ∧ c ≠ '.' := by
    intro c hc
    obtain h | rfl := hslug c hc
    · refine ⟨?_, ?_, ?_⟩ <;> (rintro rfl; exact absurd h (by decide))
    · decide
  have hmapHome : home.map (fun c => if c = '\\' then '/' else c) = home := by
    refine (List.map_congr_left fun c hc => if_neg ?_).trans (List.map_id _)
    rintro rfl
    exact hhome.2.2 hc
  have hmapSlug : slug.map (fun c => if c = '\\' then '/' else c) = slug :=
    (List.map_congr_left fun c hc => if_neg (hplain c hc).1).trans (List.map_id _)
  have hmap : (home ++ username ++ '/' :: slug).map (fun c => if c = '\\' then '/' else c) =
      home ++ username.map (fun c => if c = '\\' then '/' else c) ++ '/' :: slug := by
    rw [List.map_append, List.map_append, List.map_cons, hmapHome, hmapSlug]
    rfl
  have hhead : (home ++ username.map (fun c => if c = '\\' then '/' else c) ++ '/' :: slug).head? ≠
      some '/' := by
    rw [List.append_assoc, List.head?_append_of_ne_nil _ hhome.2.1]
    exact hhome.1
  have hlast : ('/' :: (home ++ username.map (fun c => if c = '\\' then '/' else c) ++
      '/' :: slug)).getLast? ≠ some '/' := by
    rw [← List.cons_append, ← List.singleton_append (l := slug), ← List.append_assoc,
      List.getLast?_append_of_ne_nil _ hne]
    exact fun h => (hplain '/' (List.mem_of_getLast? h)).2.1 rfl
  have hsuffix : ¬ (extension ++ ['/']).isSuffixOf ('/' :: (home ++
      username.map (fun c => if c = '\\' then '/' else c) ++ '/' :: slug) ++ ['/']) = true := by
    rw [List.isSuffixOf_iff_suffix]
    rintro ⟨front, hfront⟩
    cases extension with
    | nil => cases hextension
    | cons dot extension =>
        obtain rfl : dot = '.' := Option.some.inj hextension
        rw [← List.append_assoc] at hfront
        have hsame := List.append_cancel_right hfront
        rw [← List.cons_append] at hsame
        refine mark_behind (by decide) (fun h => (hplain '.' h).2.2 rfl) (fun h => ?_) hsame
        exact hslash (List.mem_cons_of_mem _ h)
  simp only [normalizePath, hmap]
  rw [if_neg hhead, if_neg hlast, if_neg hsuffix]
  rfl

/-! ### Collections told apart -/

variable {username : Text} {a b : CollectionFolder}

theorem calendarPath_inj : calendarPath t username a = calendarPath t username b ↔
    slugWords t a.name (some a.path) "calendar".toList =
      slugWords t b.name (some b.path) "calendar".toList := by
  have hpath (c : CollectionFolder) : calendarPath t username c = '/' :: "calendars/".toList ++
      username.map (fun c => if c = '\\' then '/' else c) ++
      '/' :: collectionSlug t c.name (some c.path) "calendar".toList ++ ['/'] :=
    normalizePath_slug (by decide) (by decide) (by decide) (isSlugChar_of_mem (by decide))
      (collectionSlug_ne_nil (by decide))
  rw [hpath a, hpath b, List.append_left_inj, List.append_right_inj,
    List.cons.injEq, ← collectionSlug_inj (by decide) (by decide)]
  exact and_iff_right rfl

theorem addressBookPath_inj : addressBookPath t username a = addressBookPath t username b ↔
    slugWords t a.name (some a.path) "contacts".toList =
      slugWords t b.name (some b.path) "contacts".toList := by
  have hpath (c : CollectionFolder) : addressBookPath t username c = '/' :: "addressbooks/users/".toList ++
      username.map (fun c => if c = '\\' then '/' else c) ++
      '/' :: collectionSlug t c.name (some c.path) "contacts".toList ++ ['/'] :=
    normalizePath_slug (by decide) (by decide) (by decide) (isSlugChar_of_mem (by decide))
      (collectionSlug_ne_nil (by decide))
  rw [hpath a, hpath b, List.append_left_inj,
    List.append_right_inj, List.cons.injEq, ← collectionSlug_inj (by decide) (by decide)]
  exact and_iff_right rfl

theorem ensureCollection_ok {server : CollectionServer} {path p : Text} {folder : CollectionFolder}
    (h : ensureCollection server path folder = .ok p) : p = path := by
  unfold ensureCollection at h
  split_ifs at h
  · exact (Except.ok.inj h).symm
  · cases hcreate : server.create path folder with
    | error e => rw [hcreate] at h; cases h
    | ok _ => rw [hcreate] at h; exact (Except.ok.inj h).symm

/-- Collections get one target collection where they have the same words, and a target
collection each where not; the same collection gets the same one whenever it is asked
for, and gets one where the target has it or can make it. -/
structure ToldApart (ensure : CollectionServer → CollectionFolder → Except Text Text)
    (ws : CollectionFolder → List Text) : Prop where
  apart : ∀ server server' a b p q, ensure server a = .ok p → ensure server' b = .ok q →
    (p = q ↔ ws a = ws b)
  distinct : ∀ folders targets, List.Forall₂ (fun a p => ∃ server, ensure server a = .ok p)
    folders targets → (targets.Nodup ↔ (folders.map ws).Nodup)
  steady : ∀ server server' a p q, ensure server a = .ok p → ensure server' a = .ok q → p = q
  answers : ∀ server a, (∀ p, server.holds p = true ∨ server.create p a = .ok ()) →
    ∃ p, ensure server a = .ok p

theorem toldApart_of_inj {path : CollectionFolder → Text} {ws : CollectionFolder → List Text}
    (h : ∀ a b, path a = path b ↔ ws a = ws b) :
    ToldApart (fun server a => ensureCollection server (path a) a) ws where
  apart := by
    intro server server' a b p q ha hb
    rw [ensureCollection_ok ha, ensureCollection_ok hb, h]
  distinct := by
    intro folders targets hall
    have htargets : targets = folders.map path := by
      induction hall with
      | nil => rfl
      | cons ha _ ih =>
          obtain ⟨_, ha⟩ := ha
          rw [List.map_cons, ← ih, ensureCollection_ok ha]
    rw [htargets, List.Nodup, List.Nodup, List.pairwise_map, List.pairwise_map]
    exact ⟨fun hp => hp.imp fun hne heq => hne ((h _ _).mpr heq),
      fun hp => hp.imp fun hne heq => hne ((h _ _).mp heq)⟩
  steady := by
    intro server server' a p q ha hb
    rw [ensureCollection_ok ha, ensureCollection_ok hb]
  answers := by
    intro server a hserver
    refine ⟨path a, ?_⟩
    unfold ensureCollection
    split_ifs with hholds
    · rfl
    · rw [(hserver (path a)).resolve_left hholds]
      rfl

/-- Calendars, and address books, are told apart on the target by their words. -/
theorem collections_toldApart (t : CaseTable) (username : Text) :
    ToldApart (ensureCalendar t username)
        (fun a => slugWords t a.name (some a.path) "calendar".toList) ∧
      ToldApart (ensureContactFolder t username)
        (fun a => slugWords t a.name (some a.path) "contacts".toList) :=
  ⟨toldApart_of_inj fun _ _ => calendarPath_inj, toldApart_of_inj fun _ _ => addressBookPath_inj⟩

/-- The case of ASCII; a Chinese character has none. -/
def asciiTable : CaseTable where
  lower := fun c => [c.toLower]
  cased := Char.isAlpha
  caseIgnorable := fun _ => false
  lower_bar := rfl
  cased_bar := rfl
  caseIgnorable_bar := rfl

/-- Two calendars with Chinese names. -/
theorem two_calendars_merged : ¬ ∀ (t : CaseTable) (username : Text) (server : CollectionServer)
    (a b : CollectionFolder) (p q : Text), a.name ≠ b.name → a.path ≠ b.path →
    ensureCalendar t username server a = .ok p → ensureCalendar t username server b = .ok q →
    p ≠ q := by
  intro h
  exact h asciiTable "bob".toList ⟨fun _ => true, fun _ _ => .ok ()⟩
    ⟨"/dav/alice/1/".toList, some ['日']⟩ ⟨"/dav/alice/2/".toList, some ['月']⟩ _ _
    (by decide) (by decide) rfl rfl (by decide)

end Ownpace.Dav
