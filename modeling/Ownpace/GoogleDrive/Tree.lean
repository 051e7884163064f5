/-
Ownpace/GoogleDrive/Tree.lean

A Google Drive and the names of its files (`google-drive-source.ts`).

A drive is a tree of folders and files, each with an id and a name of its own; a
path is nowhere in it.  A Google document has no suffix, and is given one by the
export policy of its kind.
-/
import Mathlib.Data.List.Nodup
import Mathlib.Data.List.Perm.Subperm

namespace Ownpace.GoogleDrive

open scoped List

abbrev Text := List Char

abbrev Id := String

/-! ### Export policies -/

inductive GoogleEditorKind where
  | document | spreadsheet | presentation | drawing
  deriving DecidableEq

/-- `mimeType`: one of the four editors', another one of Google's own (a form, a
map, a shortcut), or that of stored bytes. -/
inductive MimeType where
  | editor (kind : GoogleEditorKind)
  | native
  | stored
  deriving DecidableEq

inductive NativeFilePolicy where
  | refuse | exportOdf | exportOffice | exportPdf
  deriving DecidableEq

/-- The single setting, and the format of each kind. -/
structure Policies where
  policy : NativeFilePolicy
  policies : GoogleEditorKind → NativeFilePolicy

def EVERY_POLICY : List NativeFilePolicy := [.refuse, .exportOdf, .exportOffice, .exportPdf]

theorem mem_every_policy (policy : NativeFilePolicy) : policy ∈ EVERY_POLICY := by
  cases policy <;> simp [EVERY_POLICY]

def isNativeEditorFile : MimeType → Bool
  | .stored => false
  | _ => true

def googleEditorKindOf : MimeType → Option GoogleEditorKind
  | .editor kind => some kind
  | _ => none

def Policies.policyFor (p : Policies) (mimeType : MimeType) : NativeFilePolicy :=
  match googleEditorKindOf mimeType with
  | none => p.policy
  | some kind => p.policies kind

/-- `NATIVE_EXPORT_EXTENSIONS` of the type that `NATIVE_EXPORT_TYPES` has for a
kind; `refuse` has none. -/
def exportExtension : NativeFilePolicy → GoogleEditorKind → Option Text
  | .refuse, _ => none
  | .exportOdf, .document => some ['.', 'o', 'd', 't']
  | .exportOdf, .spreadsheet => some ['.', 'o', 'd', 's']
  | .exportOdf, .presentation => some ['.', 'o', 'd', 'p']
  | .exportOffice, .document => some ['.', 'd', 'o', 'c', 'x']
  | .exportOffice, .spreadsheet => some ['.', 'x', 'l', 's', 'x']
  | .exportOffice, .presentation => some ['.', 'p', 'p', 't', 'x']
  | .exportPdf, .drawing => some ['.', 'p', 'd', 'f']
  | _, .drawing => some ['.', 's', 'v', 'g']
  | .exportPdf, _ => some ['.', 'p', 'd', 'f']

/-! ### The tree -/

structure DriveFile where
  id : Id
  name : Text
  mimeType : MimeType
  trashed : Bool
  deriving DecidableEq

structure DriveFolder where
  id : Id
  name : Text
  trashed : Bool
  deriving DecidableEq

/-- `name.toLowerCase().endsWith(ext)`, for one of the extensions: no letter
outside ASCII is one of theirs in lower case. -/
def endsWithExtension (ext name : Text) : Bool := ext.isSuffixOf (name.map Char.toLower)

/-- The name a Drive file gets under a policy. -/
def exportedNameUnder (file : DriveFile) (policy : NativeFilePolicy) : Text :=
  match (googleEditorKindOf file.mimeType).bind (exportExtension policy) with
  | none => file.name
  | some ext => if endsWithExtension ext file.name then file.name else file.name ++ ext

def Policies.exportedName (p : Policies) (file : DriveFile) : Text :=
  exportedNameUnder file (p.policyFor file.mimeType)

/-- What a folder holds, in the order the drive lists it. -/
inductive Children where
  | nil
  | file (file : DriveFile) (rest : Children)
  | folder (folder : DriveFolder) (inside rest : Children)

namespace Children

def ids : Children → List Id
  | nil => []
  | file f rest => f.id :: rest.ids
  | folder g inside rest => g.id :: (inside.ids ++ rest.ids)

/-- `listChildren(folderId, false)`: `trashed=false`, and no folder. -/
def files : Children → List DriveFile
  | nil => []
  | file f rest => if f.trashed then rest.files else f :: rest.files
  | folder _ _ rest => rest.files

/-- `listChildren(folderId, true)`, each with what it holds. -/
def folders : Children → List (DriveFolder × Children)
  | nil => []
  | file _ rest => rest.folders
  | folder g inside rest => if g.trashed then rest.folders else (g, inside) :: rest.folders

end Children

/-- A folder of a drive, by its id. -/
structure Node where
  id : Id
  children : Children

/-- The drive below the configured root. -/
structure Drive where
  rootId : Id
  children : Children
  distinct : (rootId :: children.ids).Nodup

def Drive.root (d : Drive) : Node := ⟨d.rootId, d.children⟩

/-! ### Ways through the tree -/

/-- The folders on the way lead from one folder to another, none of them in the
bin. -/
inductive Reaches : Node → List DriveFolder → Node → Prop
  | here {n : Node} : Reaches n [] n
  | down {n m : Node} {g : DriveFolder} {inside : Children} {way : List DriveFolder}
      (hg : (g, inside) ∈ n.children.folders) (h : Reaches ⟨g.id, inside⟩ way m) :
      Reaches n (g :: way) m

variable {n m : Node} {c : Children} {way : List DriveFolder}

theorem Reaches.append {k : Node} {further : List DriveFolder} (h : Reaches n way m)
    (h' : Reaches m further k) : Reaches n (way ++ further) k := by
  induction h with
  | here => exact h'
  | down hg _ ih => exact .down hg (ih h')

theorem Reaches.snoc {g : DriveFolder} {inside : Children} (h : Reaches n way m)
    (hg : (g, inside) ∈ m.children.folders) : Reaches n (way ++ [g]) ⟨g.id, inside⟩ :=
  h.append (.down hg .here)

/-! ### Ids -/

/-- A folder's id and those inside it are ids of what holds it. -/
theorem Children.ids_of_mem_folders {g : DriveFolder} {inside : Children}
    (h : (g, inside) ∈ c.folders) : (g.id :: inside.ids) <+ c.ids := by
  induction c with
  | nil => exact absurd h List.not_mem_nil
  | file f rest ih => exact (ih h).cons _
  | folder g' inside' rest _ ih =>
      show (g.id :: inside.ids) <+ g'.id :: (inside'.ids ++ rest.ids)
      have hrest (h : (g, inside) ∈ rest.folders) :
          (g.id :: inside.ids) <+ g'.id :: (inside'.ids ++ rest.ids) :=
        ((ih h).trans (List.sublist_append_right _ _)).cons _
      simp only [Children.folders] at h
      split at h
      · exact hrest h
      · rcases List.mem_cons.mp h with heq | h
        · cases heq
          exact (List.sublist_append_left _ _).cons_cons _
        · exact hrest h

/-- What is reached is part of what it is reached from. -/
theorem Reaches.ids_sublist (h : Reaches n way m) :
    (m.id :: m.children.ids) <+ (n.id :: n.children.ids) := by
  induction h with
  | here => exact List.Sublist.refl _
  | down hg _ ih => exact ih.trans ((Children.ids_of_mem_folders hg).cons _)

end Ownpace.GoogleDrive
