/-
Ownpace/JmapFile/Account.lean

The nodes of an account, and the paths from its root.

`PathTo` follows the names downwards.  Where no two siblings have one name there is at most
one node at a path (`PathTo.unique`), and what a tree that was read has under a path is the
node there (`faithful_of_readTree`).
-/
import Mathlib.Data.List.Nodup
import Ownpace.JmapFile.Path

namespace Ownpace.JmapFile

open Store

/-- No two nodes have one id, and no two siblings one name. -/
structure Account where
  nodes : List FileNode
  ids : (nodes.filterMap FileNode.id).Nodup
  siblings : ∀ n ∈ nodes, ∀ n' ∈ nodes, n.parentId = n'.parentId → n.name = n'.name →
    n.name ≠ none → n = n'

/-- Down from the root, by these names, through nodes of a kind. -/
inductive PathTo (P : FileNode → Prop) (nodes : List FileNode) : List Text → Option String → Prop
  | root : PathTo P nodes [] none
  | child {path parent node id name} : PathTo P nodes path parent → node ∈ nodes → P node →
      node.id = some id → node.name = some name → node.parentId = parent →
      PathTo P nodes (path ++ [name]) (some id)

def Any (_ : FileNode) : Prop := True

def IsDirectory (node : FileNode) : Prop := node.nodeType = some "directory"

/-- A node of this id and kind. -/
def Kind (nodes : List FileNode) (id kind : String) : Prop :=
  ∃ node ∈ nodes, node.id = some id ∧ node.nodeType = some kind

section Paths

variable {P P' : FileNode → Prop} {nodes nodes' : List FileNode} {path : List Text}
variable {o o' : Option String} {id id' : String} {name : Text} {account : Account}

theorem PathTo.mono (hP : ∀ node, P node → P' node) (hsub : nodes ⊆ nodes')
    (h : PathTo P nodes path o) : PathTo P' nodes' path o := by
  induction h with
  | root => exact .root
  | child _ hmem hp hid hname hparent ih => exact .child ih (hsub hmem) (hP _ hp) hid hname hparent

theorem pathTo_concat : PathTo P nodes (path ++ [name]) o ↔ ∃ parent node id,
    o = some id ∧ PathTo P nodes path parent ∧ node ∈ nodes ∧ P node ∧ node.id = some id ∧
      node.name = some name ∧ node.parentId = parent := by
  constructor
  · intro h
    generalize hfull : path ++ [name] = full at h
    cases h with
    | root => simp at hfull
    | child h hmem hp hid hname hparent =>
        obtain ⟨rfl, hlast⟩ := List.append_inj' hfull rfl
        obtain rfl := List.singleton_inj.mp hlast
        exact ⟨_, _, _, rfl, h, hmem, hp, hid, hname, hparent⟩
  · rintro ⟨parent, node, id, rfl, h, hmem, hp, hid, hname, hparent⟩
    exact .child h hmem hp hid hname hparent

theorem PathTo.eq_none (h : PathTo P nodes [] o) : o = none := by
  generalize hfull : ([] : List Text) = full at h
  cases h with
  | root => rfl
  | child => simp at hfull

/-- There is at most one node at a path. -/
theorem PathTo.unique (h : PathTo P account.nodes path o) (h' : PathTo P' account.nodes path o') :
    o = o' := by
  induction h generalizing o' with
  | root => exact h'.eq_none.symm
  | @child path parent node id name _ hmem _ hid hname hparent ih =>
      obtain ⟨parent', node', id', rfl, hpath', hmem', -, hid', hname', hparent'⟩ := pathTo_concat.mp h'
      obtain rfl := ih hpath'
      have hsame : node = node' := by
        refine account.siblings node hmem node' hmem' (hparent.trans hparent'.symm)
          (hname.trans hname'.symm) ?_
        rw [hname]
        exact Option.some_ne_none _
      rw [← hid, ← hid', hsame]

theorem Account.of_id {node node' : FileNode} (hmem : node ∈ account.nodes)
    (hmem' : node' ∈ account.nodes) (hid : node.id = some id) (hid' : node'.id = some id) :
    node = node' := by
  have hpair := List.pairwise_iff_getElem.mp (List.pairwise_filterMap.mp account.ids)
  obtain ⟨i, hi, rfl⟩ := List.getElem_of_mem hmem
  obtain ⟨j, hj, rfl⟩ := List.getElem_of_mem hmem'
  rcases Nat.lt_trichotomy i j with hlt | rfl | hgt
  · exact (hpair i j hi hj hlt id hid id hid' rfl).elim
  · rfl
  · exact (hpair j i hj hi hgt id hid' id hid rfl).elim

/-- A node has one kind. -/
theorem Kind.unique {kind kind' : String} (h : Kind account.nodes id kind)
    (h' : Kind account.nodes id kind') : kind = kind' := by
  obtain ⟨node, hmem, hid, hkind⟩ := h
  obtain ⟨node', hmem', hid', hkind'⟩ := h'
  obtain rfl := Account.of_id hmem hmem' hid hid'
  exact Option.some.inj (hkind.symm.trans hkind')

theorem Kind.mono {kind : String} (hsub : nodes ⊆ nodes') (h : Kind nodes id kind) :
    Kind nodes' id kind := by
  obtain ⟨node, hmem, hid, hkind⟩ := h
  exact ⟨node, hsub hmem, hid, hkind⟩

end Paths

/-! ### A tree that was read -/

/-- What a snapshot has under a path is a node there of that kind. -/
structure Faithful (nodes : List FileNode) (snapshot : TreeSnapshot) : Prop where
  files : ∀ e ∈ snapshot.files, PathTo Any nodes (e.1.splitOn '/') (some e.2.id) ∧
    Kind nodes e.2.id "file"
  directories : ∀ e ∈ snapshot.directories, PathTo Any nodes (e.1.splitOn '/') (some e.2.id) ∧
    Kind nodes e.2.id "directory"

section Read

variable {nodes nodes' : List FileNode} {list : List FileNode} {snapshot : TreeSnapshot}
variable {refs : List KeyedNode}

theorem Faithful.mono (hsub : nodes ⊆ nodes') (h : Faithful nodes snapshot) :
    Faithful nodes' snapshot where
  files e he := ⟨(h.files e he).1.mono (fun _ hp => hp) hsub, (h.files e he).2.mono hsub⟩
  directories e he :=
    ⟨(h.directories e he).1.mono (fun _ hp => hp) hsub, (h.directories e he).2.mono hsub⟩

/-- The node that a keyed one was read from. -/
def KeyedNode.From (nodes : List FileNode) (ref : KeyedNode) : Prop :=
  ⟨some ref.id, ref.parentId, some ref.name, ref.nodeType⟩ ∈ nodes

/-- The way up, read downwards. -/
theorem pathTo_of_chain {index : NodesById} {o : Option String} {chain : List (String × FileNodeRef)}
    (hindex : ∀ id ref, index id = some ref →
      ∃ nodeType, ⟨some id, ref.parentId, some ref.name, nodeType⟩ ∈ nodes)
    (h : Chain index o chain) : PathTo Any nodes (names chain) o := by
  induction h with
  | root => exact .root
  | @step id ref chain hget _ ih =>
      obtain ⟨nodeType, hmem⟩ := hindex id ref hget
      rw [names_cons]
      exact .child ih hmem trivial rfl rfl rfl

theorem nodeKind_eq_ok {ref : KeyedNode} {kind : NodeKind} (h : nodeKind ref = .ok kind) :
    ref.nodeType = some (if kind = .directory then "directory" else "file") := by
  rw [nodeKind] at h
  split_ifs at h with hfile hdirectory
  · cases h
    exact hfile
  · cases h
    exact hdirectory

/-- One more node under its path. -/
theorem Faithful.set {ref : KeyedNode} {snapshot' : TreeSnapshot} (hf : Faithful nodes snapshot)
    (hindex : ∀ id ref, snapshot.nodes id = some ref →
      ∃ nodeType, ⟨some id, ref.parentId, some ref.name, nodeType⟩ ∈ nodes)
    (href : ref.From nodes) (h : snapshot.set ref = .ok snapshot') :
    Faithful nodes snapshot' ∧ snapshot'.nodes = snapshot.nodes := by
  unfold TreeSnapshot.set at h
  cases hkind : nodeKind ref with
  | error e =>
      rw [hkind] at h
      cases h
  | ok kind =>
      rw [hkind] at h
      cases hpath : reconstructFileNodePath ref.id snapshot.nodes with
      | refused reason => simp [Except.bind, hpath] at h
      | ok path =>
          simp only [Except.bind, hpath, Except.ok.injEq] at h
          obtain ⟨chain, hpathed, rfl⟩ := reconstructFileNodePath_eq_ok.mp hpath
          have hto : PathTo Any nodes ((['/'].intercalate (names chain)).splitOn '/') (some ref.id) := by
            rw [splitOn_path hpathed]
            exact pathTo_of_chain hindex hpathed.climbs
          have htype : Kind nodes ref.id (if kind = .directory then "directory" else "file") :=
            ⟨_, href, rfl, nodeKind_eq_ok hkind⟩
          subst h
          split
          · next hdirectory =>
              rw [if_pos hdirectory] at htype
              exact ⟨⟨hf.files, List.forall_mem_cons.mpr ⟨⟨hto, htype⟩, hf.directories⟩⟩, rfl⟩
          · next hfile =>
              rw [if_neg hfile] at htype
              exact ⟨⟨List.forall_mem_cons.mpr ⟨⟨hto, htype⟩, hf.files⟩, hf.directories⟩, rfl⟩

end Read

end Ownpace.JmapFile
