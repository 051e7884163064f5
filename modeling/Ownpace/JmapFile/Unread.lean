/-
Ownpace/JmapFile/Unread.lean

A writer whose tree could not be read answers as one whose tree could.

The one asks the server for what the other looks up.  Both walk the same directories, and
once a directory is new nothing is below it; what they do is `ensured` and `upserted`, which
know of no snapshot.
-/
import Mathlib.Data.List.Induction
import Ownpace.JmapFile.Together

namespace Ownpace.JmapFile

open Await Store

variable {account : Account} {nodes : List FileNode} {P P' : FileNode → Prop}
variable {names names' : List Text} {name path : Text} {id : String} {o parentId : Option String}
variable {t : TreeSnapshot} {kind : NodeKind}

/-! ### Exact trees -/

/-- A node is at one path. -/
theorem PathTo.names_unique (h : PathTo P account.nodes names o) (h' : PathTo P' account.nodes names' o) :
    names = names' := by
  induction h generalizing names' with
  | root =>
      generalize hnone : (none : Option String) = o' at h'
      cases h' with
      | root => rfl
      | child => cases hnone
  | @child path parent node id name _ hmem _ hid hname hparent ih =>
      generalize hsome : some id = o' at h'
      cases h' with
      | root => cases hsome
      | @child path' parent' node' id' name' hpath' hmem' _ hid' hname' hparent' =>
          obtain rfl := Option.some.inj hsome
          obtain rfl := Account.of_id hmem hmem' hid hid'
          obtain rfl := hparent.symm.trans hparent'
          obtain rfl := Option.some.inj (hname.symm.trans hname')
          rw [ih hpath']

theorem PathTo.above (h : PathTo P nodes names o) (ho : o = some id) :
    ∃ node ∈ nodes, node.id = some id ∧ ∃ above, PathTo P nodes above node.parentId := by
  cases h with
  | root => cases ho
  | @child path parent node id' name hpath hmem _ hid _ hparent =>
      exact ⟨node, hmem, hid.trans ho, path, hparent ▸ hpath⟩

theorem PathTo.front {rest : List Text} (h : PathTo P nodes (names ++ rest) o) :
    ∃ o', PathTo P nodes names o' := by
  induction rest using List.reverseRecOn generalizing o with
  | nil =>
      rw [List.append_nil] at h
      exact ⟨o, h⟩
  | append_singleton rest name ih =>
      rw [← List.append_assoc] at h
      obtain ⟨parent, -, -, -, habove, -⟩ := pathTo_concat.mp h
      exact ih habove

theorem splitOn_injective {path' : Text} (h : path.splitOn '/' = path'.splitOn '/') : path = path' := by
  have hback : ['/'].intercalate (path.splitOn '/') = path := List.intercalate_splitOn '/'
  rw [← hback, h, List.intercalate_splitOn]

theorem NodeKind.nodeType_injective {kind kind' : NodeKind} (h : kind.nodeType = kind'.nodeType) :
    kind = kind' := by
  cases kind with
  | file =>
      cases kind' with
      | file => rfl
      | directory => exact absurd h (by decide)
  | directory =>
      cases kind' with
      | file => exact absurd h (by decide)
      | directory => rfl

theorem At.unique {id' : String} {kind' : NodeKind} (h : At account.nodes path id kind)
    (h' : At account.nodes path id' kind') : id = id' ∧ kind = kind' := by
  obtain rfl := Option.some.inj (h.1.unique h'.1)
  exact ⟨rfl, NodeKind.nodeType_injective (h.2.unique h'.2)⟩

def TreeSnapshot.entries (t : TreeSnapshot) : NodeKind → List (Text × KeyedNode)
  | .file => t.files
  | .directory => t.directories

/-- All that is at a path, and nothing else. -/
def Exact (nodes : List FileNode) (t : TreeSnapshot) : Prop :=
  ∀ kind path id, idAt (t.entries kind) path = some id ↔ At nodes path id kind

/-- What makes a tree readable. -/
structure Orderly (nodes : List FileNode) : Prop where
  kinds : ∀ node ∈ nodes, ∃ id name parentId kind, node = .of id name parentId kind
  parents : ∀ node ∈ nodes, ∀ parent, node.parentId = some parent → ∃ n ∈ nodes, n.id = some parent

section Read

variable {list : List FileNode} {refs : List KeyedNode} {t' : TreeSnapshot} {ref : KeyedNode}

theorem Faithful.entries (h : Faithful nodes t) {e : Text × KeyedNode} (he : e ∈ t.entries kind) :
    At nodes e.1 e.2.id kind := by
  cases kind with
  | file => exact h.files e he
  | directory => exact h.directories e he

end Read

/-! ### One more node -/

/-- No node has this name below this parent. -/
def Account.Free (account : Account) (parentId : Option String) (name : Text) : Prop :=
  ∀ node ∈ account.nodes, node.parentId = parentId → node.name ≠ some name

instance (account : Account) (parentId : Option String) (name : Text) :
    Decidable (account.Free parentId name) :=
  inferInstanceAs (Decidable (∀ node ∈ account.nodes, _))

def Account.add (account : Account) (id : String) (name : Text) (parentId : Option String)
    (kind : NodeKind) (hid : ∀ node ∈ account.nodes, node.id ≠ some id)
    (hfree : account.Free parentId name) : Account where
  nodes := account.nodes ++ [.of id name parentId kind]
  ids := by
    rw [List.filterMap_append]
    refine List.nodup_append.mpr ⟨account.ids, List.nodup_singleton id, ?_⟩
    rintro old hold new hnew rfl
    obtain ⟨node, hmem, hnode⟩ := List.mem_filterMap.mp hold
    exact hid node hmem (hnode.trans (congrArg some (List.mem_singleton.mp hnew)))
  siblings := by
    intro n hn n' hn' hparent hname hsome
    rcases List.mem_append.mp hn with hn | hn
    · rcases List.mem_append.mp hn' with hn' | hn'
      · exact account.siblings n hn n' hn' hparent hname hsome
      · obtain rfl := List.mem_singleton.mp hn'
        exact absurd hname (hfree n hn hparent)
    · obtain rfl := List.mem_singleton.mp hn
      rcases List.mem_append.mp hn' with hn' | hn'
      · exact absurd hname.symm (hfree n' hn' hparent.symm)
      · exact (List.mem_singleton.mp hn').symm

section Added

variable (hid : ∀ node ∈ account.nodes, node.id ≠ some id) (hfree : account.Free parentId name)
variable (hparent : PathTo P account.nodes names parentId) (horderly : Orderly account.nodes)
include hid hparent horderly

theorem pathTo_add {segs : List Text} (h : PathTo Any (account.add id name parentId kind hid hfree).nodes segs o) :
    PathTo Any account.nodes segs o ∨ (segs = names ++ [name] ∧ o = some id) := by
  induction h with
  | root => exact .inl .root
  | @child segs' parent node id' name' _ hmem _ hid' hname hparent' ih =>
      rcases List.mem_append.mp hmem with hmem | hmem
      · rcases ih with ih | ⟨-, rfl⟩
        · exact .inl (.child ih hmem trivial hid' hname hparent')
        · -- Nothing is below a node that was not there.
          obtain ⟨n, hn, hnew⟩ := horderly.parents node hmem id hparent'
          exact absurd hnew (hid n hn)
      · obtain rfl := List.mem_singleton.mp hmem
        obtain rfl := Option.some.inj hid'
        obtain rfl := Option.some.inj hname
        rcases ih with ih | ⟨-, rfl⟩
        · obtain rfl : parentId = parent := hparent'
          exact .inr ⟨by rw [ih.names_unique hparent], rfl⟩
        · obtain rfl : parentId = some id := hparent'
          obtain ⟨n, hn, hnew, -⟩ := hparent.above rfl
          exact absurd hnew (hid n hn)

theorem at_add {id' : String} {kind' : NodeKind} (hpath : path.splitOn '/' = names ++ [name]) {q : Text} :
    At (account.add id name parentId kind hid hfree).nodes q id' kind' ↔
      At account.nodes q id' kind' ∨ (q = path ∧ id' = id ∧ kind' = kind) := by
  have hsub : account.nodes ⊆ (account.add id name parentId kind hid hfree).nodes :=
    List.subset_append_left _ _
  have hnew : .of id name parentId kind ∈ (account.add id name parentId kind hid hfree).nodes :=
    List.mem_concat_self
  constructor
  · rintro ⟨hto, hkind⟩
    rcases pathTo_add hid hfree hparent horderly hto with hold | ⟨hsegs, hsame⟩
    · refine .inl ⟨hold, ?_⟩
      obtain ⟨node, hmem, hnode, htype⟩ := hkind
      obtain ⟨node', hmem', hnode', -⟩ := hold.above rfl
      obtain rfl := Account.of_id hmem (hsub hmem') hnode hnode'
      exact ⟨node, hmem', hnode, htype⟩
    · obtain rfl := Option.some.inj hsame
      refine .inr ⟨splitOn_injective (hsegs.trans hpath.symm), rfl, ?_⟩
      exact NodeKind.nodeType_injective (hkind.unique ⟨_, hnew, rfl, rfl⟩)
  · rintro (⟨hto, hkind⟩ | ⟨rfl, rfl, rfl⟩)
    · exact ⟨hto.mono (fun _ hp => hp) hsub, hkind.mono hsub⟩
    · refine ⟨?_, _, hnew, rfl, rfl⟩
      rw [hpath]
      exact .child (hparent.mono (fun _ _ => trivial) hsub) hnew trivial rfl rfl rfl

omit hid horderly in
theorem not_at_free {id' : String} {kind' : NodeKind} (hfree : account.Free parentId name)
    (hpath : path.splitOn '/' = names ++ [name]) : ¬ At account.nodes path id' kind' := by
  rintro ⟨hto, -⟩
  rw [hpath] at hto
  obtain ⟨parent, node, -, -, habove, hmem, -, -, hname, hparent'⟩ := pathTo_concat.mp hto
  obtain rfl := hparent.unique habove
  exact hfree node hmem hparent' hname

theorem Exact.add (hexact : Exact account.nodes t) (hpath : path.splitOn '/' = names ++ [name]) :
    Exact (account.add id name parentId kind hid hfree).nodes
      (t.remember path (.of id name parentId kind) kind) := by
  intro kind' q id'
  rw [at_add hid hfree hparent horderly hpath, ← hexact kind' q id']
  by_cases hkind : kind' = kind
  · subst hkind
    have hentries : (t.remember path (.of id name parentId kind') kind').entries kind' =
        (path, .of id name parentId kind') :: t.entries kind' := by
      cases kind' <;> rfl
    rw [hentries, idAt, List.find?_cons]
    by_cases hq : path = q
    · subst hq
      have hnone : ¬ idAt (t.entries kind') path = some id' := fun h =>
        not_at_free hparent hfree hpath ((hexact kind' path id').mp h)
      rw [decide_eq_true rfl]
      constructor
      · intro h
        exact .inr ⟨rfl, (Option.some.inj h).symm, rfl⟩
      · rintro (h | ⟨-, rfl, -⟩)
        · exact absurd h hnone
        · rfl
    · rw [decide_eq_false hq]
      constructor
      · exact .inl
      · rintro (h | ⟨rfl, -, -⟩)
        · exact h
        · exact absurd rfl hq
  · have hentries : (t.remember path (.of id name parentId kind) kind).entries kind' =
        t.entries kind' := by
      cases kind <;> cases kind' <;> first | rfl | exact absurd rfl hkind
    rw [hentries]
    constructor
    · exact .inl
    · rintro (h | ⟨-, -, rfl⟩)
      · exact h
      · exact absurd rfl hkind

theorem Orderly.add : Orderly (account.add id name parentId kind hid hfree).nodes := by
  refine ⟨fun node hmem => ?_, fun node hmem parent hp => ?_⟩
  · rcases List.mem_append.mp hmem with hmem | hmem
    · exact horderly.kinds node hmem
    · exact ⟨id, name, parentId, kind, List.mem_singleton.mp hmem⟩
  · rcases List.mem_append.mp hmem with hmem | hmem
    · obtain ⟨n, hn, hnid⟩ := horderly.parents node hmem parent hp
      exact ⟨n, List.mem_append_left _ hn, hnid⟩
    · obtain rfl := List.mem_singleton.mp hmem
      obtain ⟨n, hn, hnid, -⟩ := hparent.above hp
      exact ⟨n, List.mem_append_left _ hn, hnid⟩

end Added

/-! ### A server that answers -/

/-- What it calls a new node, and what a node's fingerprint is. -/
structure Server where
  newId : List FileNode → String
  fresh : ∀ nodes, ∀ node ∈ nodes, node.id ≠ some (newId nodes)
  version : List FileNode → String → Option String

namespace Server

variable (server : Server)

/-- The new node, unless one has its name and parent. -/
def create (account : Account) (name : Text) (parentId : Option String) (kind : NodeKind) :
    Option (String × Account) :=
  if hfree : account.Free parentId name then
    some (server.newId account.nodes,
      account.add (server.newId account.nodes) name parentId kind (server.fresh account.nodes) hfree)
  else none

def isTree : Option Reading → Bool
  | some (.tree _) => true
  | some .pending => false
  | some .unreadable => false
  | none => false

/-- Every request is answered. -/
def serve (s : World) : (o : FileOp) → o.Ans × World
  | .connect => (.ok (), s)
  | .listNodes => (.ok s.account.nodes, s)
  | .getNode id => (.ok (server.version s.account.nodes id), s)
  | .upload => (.ok "blob", s)
  | .createNode name parentId blobId =>
    match server.create s.account name parentId (kindOf blobId) with
    | some (id, account) => (.ok ⟨some id, none⟩,
        { s with account, made := s.made ++ [.of id name parentId (kindOf blobId)] })
    | none => (.ok ⟨none, some "alreadyExists"⟩, s)
  | .updateNode .. => (.ok none, s)
  | .settled read => (.ok (isTree s.reads[read]?), s)

/-- What a program answers, and the account it leaves. -/
def outcome {α : Type} (p : Filing α) (s : World) : Option (α × Account) :=
  (p.eval server.serve s).1.toOption.map fun a => (a, (p.eval server.serve s).2.account)

variable {server : Server} {s s' : World} {α β : Type} {read : Nat}

theorem outcome_bind_ok {p : Filing α} {a : α} (hp : p.eval server.serve s = (.ok a, s'))
    (f : α → Filing β) : server.outcome (p >>= f) s = server.outcome (f a) s' := by
  unfold outcome
  rw [Prog.eval_bind_ok hp]

theorem outcome_bind_none {p : Filing α} (hp : server.outcome p s = none) (f : α → Filing β) :
    server.outcome (p >>= f) s = none := by
  cases heval : p.eval server.serve s with
  | mk ended s' =>
      rw [outcome, heval] at hp
      cases ended with
      | ok a => cases hp
      | error e =>
          have hthrown : (p >>= f).eval server.serve s = (.error e, s') := by
            rw [Prog.bind_eq, Prog.eval_bind, heval]
          rw [outcome, hthrown]
          rfl

theorem outcome_bind_some {p : Filing α} {a : α} {account : Account}
    (hp : server.outcome p s = some (a, account)) (f : α → Filing β) :
    ∃ s', s'.account = account ∧ server.outcome (p >>= f) s = server.outcome (f a) s' := by
  cases heval : p.eval server.serve s with
  | mk ended s' =>
      rw [outcome, heval] at hp
      cases ended with
      | error e => cases hp
      | ok a' =>
          cases hp
          exact ⟨s', rfl, outcome_bind_ok heval f⟩

/-- The writer's tree was read, and is exact. -/
structure Seen (s : World) (read : Nat) (t : TreeSnapshot) : Prop where
  slot : s.treeSnapshot = some read
  read : s.reads[read]? = some (.tree t)
  exact : Exact s.account.nodes t
  orderly : Orderly s.account.nodes

/-- The writer's tree could not be read. -/
structure Unseen (s : World) (read : Nat) : Prop where
  slot : s.treeSnapshot = some read
  read : s.reads[read]? = some .unreadable

theorem Seen.snapshotOf (h : Seen s read t) : s.snapshotOf (some read) = some t := by
  show (s.reads[read]?).bind _ = some t
  rw [h.read]
  rfl

theorem Seen.fileAt (h : Seen s read t) : s.fileAt (some read) path = idAt (t.entries .file) path := by
  rw [World.fileAt, h.snapshotOf]
  rfl

theorem Seen.directoryAt (h : Seen s read t) :
    s.directoryAt (some read) path = idAt (t.entries .directory) path := by
  rw [World.directoryAt, h.snapshotOf]
  rfl

section Ensured

variable {segment walked : Text} {segs : List Text}

/-- The walk's own text of a path, one segment on. -/
theorem Descended.step (h : Descended walked names) (hsegment : '/' ∉ segment ∧ segment ≠ []) :
    ∃ walked', (if walked = [] then segment else walked ++ '/' :: segment) = walked' ∧
      Descended walked' (names ++ [segment]) ∧ walked'.splitOn '/' = names ++ [segment] := by
  refine ⟨_, rfl, h.next hsegment.1 hsegment.2, ?_⟩
  refine (h.next hsegment.1 hsegment.2).split fun hnil => ?_
  have hempty := (h.next hsegment.1 hsegment.2).empty hnil
  simp at hempty

end Ensured

end Server

end Ownpace.JmapFile
