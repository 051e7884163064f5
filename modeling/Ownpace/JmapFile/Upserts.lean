/-
Ownpace/JmapFile/Upserts.lean

Which upserts keep an account in order, and what they answer without a tree.
-/
import Ownpace.JmapFile.Unread

namespace Ownpace.JmapFile

open Await

/-! ### Alike -/

namespace Server

variable {server : Server} {α β : Type} {s s' : World} {path : Text} {id : String}

variable (server) in
/-- Programs that know the account alone. -/
def Alike (p p' : Filing α) : Prop :=
  ∀ s s' : World, s.account = s'.account → server.outcome p s = server.outcome p' s'

theorem outcome_bind_alike {p p' : Filing α} {f f' : α → Filing β}
    (hp : server.outcome p s = server.outcome p' s') (hf : ∀ a, server.Alike (f a) (f' a)) :
    server.outcome (p >>= f) s = server.outcome (p' >>= f') s' := by
  cases hout : server.outcome p s with
  | none => rw [outcome_bind_none hout, outcome_bind_none (hp.symm.trans hout)]
  | some r =>
      obtain ⟨t, ht, heq⟩ := outcome_bind_some hout f
      obtain ⟨t', ht', heq'⟩ := outcome_bind_some (hp.symm.trans hout) f'
      rw [heq, heq']
      exact hf r.1 t t' (ht.trans ht'.symm)

theorem Alike.bind {p p' : Filing α} {f f' : α → Filing β} (hp : server.Alike p p')
    (hf : ∀ a, server.Alike (f a) (f' a)) : server.Alike (p >>= f) (p' >>= f') :=
  fun s s' h => outcome_bind_alike (hp s s' h) hf

variable {maxSizeUpload : Option Nat} {raw : RawFileItem}

variable {names segs : List Text} {name : Text} {o parentId : Option String} {t : TreeSnapshot}
variable {snapshot : Option Nat}

/-- The writer has the tree as it is, or could not read it. -/
inductive Ready (s : World) : Option Nat → Prop
  | seen {read : Nat} {t : TreeSnapshot} (h : Seen s read t) : Ready s (some read)
  | unseen {read : Nat} (h : Unseen s read) : Ready s none

variable {account : Account}

theorem Ready.fileAt (h : Ready s snapshot) (hfile : s.fileAt snapshot path = some id) :
    At s.account.nodes path id .file := by
  cases h with
  | seen h =>
      rw [h.fileAt] at hfile
      exact (h.exact .file path id).mp hfile
  | unseen h => cases hfile

theorem Ready.directoryAt (h : Ready s snapshot) (hdirectory : s.directoryAt snapshot path = some id) :
    At s.account.nodes path id .directory := by
  cases h with
  | seen h =>
      rw [h.directoryAt] at hdirectory
      exact (h.exact .directory path id).mp hdirectory
  | unseen h => cases hdirectory

end Server

/-! ### Any upserts at once -/

/-- A node at a path. -/
def FileNode.AtPath (nodes : List FileNode) (path : List Text) (node : FileNode) : Prop :=
  node ∈ nodes ∧ ∃ id, node.id = some id ∧ PathTo Any nodes path (some id)

/-- What was created is alone at its path, under directories; what was answered is a file at
its natural key, and one that is said to be created was created there. -/
structure InOrder (s : World) : Prop where
  alone : ∀ node ∈ s.made, ∀ node' path, node.AtPath s.account.nodes path →
    node'.AtPath s.account.nodes path → node' = node
  under : ∀ node ∈ s.made, node ∈ s.account.nodes ∧
    ∃ names, PathTo IsDirectory s.account.nodes names node.parentId
  answers : ∀ a ∈ s.answers, Justified s a.1 a.2

theorem Sound.inOrder {s : World} (h : Sound s) : InOrder s := by
  refine ⟨fun node _ node' path hnode hnode' => ?_, h.made, h.answers⟩
  obtain ⟨hmem, id, hid, hto⟩ := hnode
  obtain ⟨hmem', id', hid', hto'⟩ := hnode'
  obtain rfl := Option.some.inj (hto.unique hto')
  exact Account.of_id hmem' hmem hid' hid

/-- What each new node is called. -/
def numbered : Nat → String
  | 0 => "0"
  | 1 => "1"
  | _ => "2"

/-- A server that answers, as long as it has names. -/
def sample (s : World) : (o : FileOp) → Option (o.Ans × World)
  | .connect => some (.ok (), s)
  | .listNodes => some (.ok s.account.nodes, s)
  | .getNode _ => some (.ok none, s)
  | .upload => some (.ok "blob", s)
  | .createNode name parentId blobId =>
    if h : (∀ node ∈ s.account.nodes, node.id ≠ some (numbered s.account.nodes.length)) ∧
        s.account.Free parentId name then
      some (.ok ⟨some (numbered s.account.nodes.length), none⟩,
        { s with
          account := s.account.add _ name parentId (kindOf blobId) h.1 h.2
          made := s.made ++ [.of (numbered s.account.nodes.length) name parentId (kindOf blobId)] })
    else none
  | .updateNode .. => none
  | .settled read =>
    match s.reads[read]? with
    | some (.tree _) => some (.ok true, s)
    | some .unreadable => some (.ok false, s)
    | some .pending => none
    | none => none

theorem effects_sample {s s' : World} {o : FileOp} {a : o.Ans} (h : sample s o = some (a, s')) :
    Effects s o a s' := by
  cases o with
  | connect =>
      cases h
      exact .connect
  | listNodes =>
      cases h
      exact .listed (List.Perm.refl _)
  | getNode id =>
      cases h
      exact .gotNode none
  | upload =>
      cases h
      exact .uploaded "blob"
  | createNode name parentId blobId =>
      rw [sample] at h
      split at h
      · cases h
        refine .created rfl fun response hresponse => ?_
        cases hresponse
        rfl
      · cases h
  | updateNode => cases h
  | settled read =>
      rw [sample] at h
      split at h
      · next hread =>
          cases h
          exact .hasTree hread
      · next hread =>
          cases h
          exact .noTree hread
      · cases h
      · cases h

def emptyAccount : Account where
  nodes := []
  ids := List.nodup_nil
  siblings _ hn := absurd hn List.not_mem_nil

/-- What a single upsert into an empty account leaves and answers. -/
def upserted (path : String) : Option (List FileNode × List (Text × UpsertResult)) :=
  (Pool.execAll sample [Call.prog none ⟨⟨path.toList, some 1⟩, {}⟩] { account := emptyAccount }).map
    fun r => (r.2.account.nodes, r.2.answers)

end Ownpace.JmapFile
