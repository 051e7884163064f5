/-
Ownpace/JmapFile/Path.lean

The path of a file node, rebuilt from its parent chain (`jmap-file-path.ts`), and
the tree of an account keyed by it (`readTree` in `jmap-file-target.ts`).

A node has no path of its own: it has a name and a parent.  `climb` is the loop,
which is total: every turn adds a segment, and there are at most `MAX_DEPTH` of
them.  `reconstructFileNodePath_eq_ok` says of every index, whatever its nodes name
as their parents, which paths it answers; the rest follows from what is said of
such ways in `Store/Parents.lean`.
-/
import Ownpace.Store.Parents

namespace Ownpace.JmapFile

open Store

abbrev Text := List Char

/-! ### Nodes -/

structure FileNodeRef where
  id : String
  name : Text
  parentId : Option String
  deriving DecidableEq

/-- The map `nodesById`. -/
abbrev NodesById := String → Option FileNodeRef

def MAX_DEPTH : Nat := 256

/-- Why there is no path. -/
inductive NoPath : Type
  | cycle (nodeId currentId : String)
  | broken (nodeId currentId : String)
  | emptyName (id : String)
  | slashInName (id : String) (name : Text)
  | tooDeep (nodeId : String)
  deriving DecidableEq

inductive PathResult : Type
  | ok (path : Text)
  | refused (reason : NoPath)
  deriving DecidableEq

/-- The reason, in words; `stringify` is `JSON.stringify`. -/
def NoPath.reason (stringify : Text → String) : NoPath → String
  | .cycle nodeId currentId =>
    "the parent chain for " ++ nodeId ++ " contains a cycle (revisited " ++ currentId ++
      "), so it has no path. Nothing was keyed."
  | .broken nodeId currentId =>
    "the parent chain for " ++ nodeId ++ " is broken: " ++ currentId ++
      " was not among the nodes supplied, so any path built here would be a suffix of the real " ++
      "one and would key to something no other transport produces."
  | .emptyName id => "node " ++ id ++ " has an empty name; it cannot be a path segment."
  | .slashInName id name =>
    "node " ++ id ++ " has a '/' in its name (" ++ stringify name ++ "), which makes its path " ++
      "ambiguous against a real separator. WebDAV cannot express this, so no agreeing key exists."
  | .tooDeep nodeId =>
    "the parent chain for " ++ nodeId ++ " is deeper than 256; treating it as broken."

/-! ### The path -/

/-- The loop of `reconstructFileNodePath`. -/
def climb (nodesById : NodesById) (nodeId : String) (segments : List Text) (seen : List String)
    (currentId : Option String) : PathResult :=
  match currentId with
  | none => .ok (['/'].intercalate segments.reverse)
  | some currentId =>
    if currentId ∈ seen then .refused (.cycle nodeId currentId)
    else
      match nodesById currentId with
      | none => .refused (.broken nodeId currentId)
      | some node =>
        if node.name = [] then .refused (.emptyName node.id)
        else if '/' ∈ node.name then .refused (.slashInName node.id node.name)
        else if MAX_DEPTH < segments.length + 1 then .refused (.tooDeep nodeId)
        else climb nodesById nodeId (segments ++ [node.name]) (currentId :: seen) node.parentId
termination_by MAX_DEPTH - segments.length
decreasing_by
  rw [List.length_append, List.length_singleton]
  omega

def reconstructFileNodePath (nodeId : String) (nodesById : NodesById) : PathResult :=
  climb nodesById nodeId [] [] (some nodeId)

/-- Of two nodes of one id, the later one stays. -/
def fileNodeIndex (nodes : List FileNodeRef) : NodesById := fun id =>
  nodes.reverse.find? fun node => node.id = id

/-! ### Which path it is -/

section Spec

variable {nodesById : NodesById} {nodeId : String} {o : Option String}
variable {segments : List Text} {seen : List String} {path : Text}

/-- The parent chain of a node, up to a root. -/
abbrev Chain (nodesById : NodesById) (o : Option String) (chain : List (String × FileNodeRef)) : Prop :=
  Climbs nodesById FileNodeRef.parentId o chain

/-- The names of a chain, root first. -/
def names (chain : List (String × FileNodeRef)) : List Text := (chain.map (·.2.name)).reverse

/-- A name that can be a segment of a path. -/
structure FileNodeRef.Named (node : FileNodeRef) : Prop where
  nonempty : node.name ≠ []
  unslashed : '/' ∉ node.name

theorem climb_none : climb nodesById nodeId segments seen none = .ok (['/'].intercalate segments.reverse) := by
  rw [climb]

/-- A turn of the loop that goes on. -/
theorem climb_some_eq_ok {id : String} :
    climb nodesById nodeId segments seen (some id) = .ok path ↔
      id ∉ seen ∧ ∃ node, nodesById id = some node ∧ node.Named ∧ segments.length < MAX_DEPTH ∧
        climb nodesById nodeId (segments ++ [node.name]) (id :: seen) node.parentId = .ok path := by
  rw [climb]
  by_cases hseen : id ∈ seen
  · simp [hseen]
  rw [if_neg hseen]
  cases hget : nodesById id with
  | none => simp
  | some node =>
      by_cases hempty : node.name = []
      · simp [hempty, show ¬ node.Named from fun h => h.nonempty hempty]
      by_cases hslash : '/' ∈ node.name
      · simp [hempty, hslash, show ¬ node.Named from fun h => h.unslashed hslash]
      by_cases hdeep : MAX_DEPTH < segments.length + 1
      · have hnot : ¬ segments.length < MAX_DEPTH := by omega
        simp [hempty, hslash, hdeep, hnot]
      · have hdepth : segments.length < MAX_DEPTH := by omega
        simp [hempty, hslash, hdeep, hdepth, hseen, show node.Named from ⟨hempty, hslash⟩]

/-- A chain that the loop walks from a turn on, past nothing it has seen. -/
structure Walked (nodesById : NodesById) (segments : List Text) (seen : List String) (o : Option String)
    (chain : List (String × FileNodeRef)) : Prop where
  climbs : Chain nodesById o chain
  unseen : ∀ e ∈ chain, e.1 ∉ seen
  named : ∀ e ∈ chain, e.2.Named
  depth : chain = [] ∨ segments.length + chain.length ≤ MAX_DEPTH

theorem names_cons (e : String × FileNodeRef) (chain : List (String × FileNodeRef)) :
    names (e :: chain) = names chain ++ [e.2.name] := by
  simp [names]

/-- What the loop answers is a chain it walked, behind the segments it has. -/
theorem walked_of_climb (h : climb nodesById nodeId segments seen o = .ok path) :
    ∃ chain, Walked nodesById segments seen o chain ∧
      path = ['/'].intercalate (names chain ++ segments.reverse) := by
  -- by the turns that are left
  induction hn : MAX_DEPTH - segments.length generalizing segments seen o with
  | zero =>
      cases o with
      | none =>
          rw [climb_none] at h
          cases h
          exact ⟨[], ⟨.root, by simp, by simp, .inl rfl⟩, rfl⟩
      | some id =>
          obtain ⟨-, -, -, -, hdepth, -⟩ := climb_some_eq_ok.mp h
          omega
  | succ n ih =>
      cases o with
      | none =>
          rw [climb_none] at h
          cases h
          exact ⟨[], ⟨.root, by simp, by simp, .inl rfl⟩, rfl⟩
      | some id =>
          obtain ⟨hseen, node, hget, hnamed, hdepth, hrest⟩ := climb_some_eq_ok.mp h
          obtain ⟨chain, hwalked, rfl⟩ := ih hrest (by rw [List.length_append, List.length_singleton]; omega)
          refine ⟨(id, node) :: chain, ⟨.step hget hwalked.climbs, ?_, ?_, .inr ?_⟩, ?_⟩
          · exact List.forall_mem_cons.mpr ⟨hseen, fun e he hmem =>
              hwalked.unseen e he (List.mem_cons_of_mem _ hmem)⟩
          · exact List.forall_mem_cons.mpr ⟨hnamed, hwalked.named⟩
          · rcases hwalked.depth with rfl | hd
            · exact hdepth
            · rw [List.length_append, List.length_singleton] at hd
              rw [List.length_cons]
              omega
          · rw [names_cons]
            simp

/-- A chain that can be walked is what the loop answers. -/
theorem climb_of_walked {chain : List (String × FileNodeRef)} (h : Walked nodesById segments seen o chain) :
    climb nodesById nodeId segments seen o = .ok (['/'].intercalate (names chain ++ segments.reverse)) := by
  obtain ⟨hclimbs, hunseen, hnamed, hdepth⟩ := h
  have hnodup := hclimbs.nodup
  induction hclimbs generalizing segments seen with
  | root => exact climb_none
  | @step id node chain hget hclimbs ih =>
      obtain ⟨hseen, hunseen⟩ := List.forall_mem_cons.mp hunseen
      obtain ⟨hnode, hnamed⟩ := List.forall_mem_cons.mp hnamed
      obtain ⟨hid, hnodup⟩ := List.nodup_cons.mp hnodup
      have hlength : segments.length + chain.length + 1 ≤ MAX_DEPTH := by
        rcases hdepth with hnil | hd
        · cases hnil
        · rw [List.length_cons] at hd
          omega
      have hunseen' : ∀ e ∈ chain, e.1 ∉ id :: seen := by
        intro e he hmem
        rcases List.mem_cons.mp hmem with heq | hmem
        · exact hid (List.mem_map.mpr ⟨e, he, heq⟩)
        · exact hunseen e he hmem
      have hdepth' : (segments ++ [node.name]).length + chain.length ≤ MAX_DEPTH := by
        rw [List.length_append, List.length_singleton]
        omega
      refine climb_some_eq_ok.mpr ⟨hseen, node, hget, hnode, by omega, ?_⟩
      rw [ih hunseen' hnamed (.inr hdepth') hnodup, names_cons]
      simp

/-- A chain that makes a path: of so many nodes, whose names can be segments. -/
structure Pathed (nodesById : NodesById) (nodeId : String) (chain : List (String × FileNodeRef)) : Prop where
  climbs : Chain nodesById (some nodeId) chain
  named : ∀ e ∈ chain, e.2.Named
  depth : chain.length ≤ MAX_DEPTH

/-- **Which path is answered.** -/
theorem reconstructFileNodePath_eq_ok :
    reconstructFileNodePath nodeId nodesById = .ok path ↔
      ∃ chain, Pathed nodesById nodeId chain ∧ path = ['/'].intercalate (names chain) := by
  constructor
  · intro h
    obtain ⟨chain, hwalked, rfl⟩ := walked_of_climb h
    refine ⟨chain, ⟨hwalked.climbs, hwalked.named, ?_⟩, by simp⟩
    rcases hwalked.depth with rfl | hd
    · exact Nat.zero_le _
    · rwa [List.length_nil, Nat.zero_add] at hd
  · rintro ⟨chain, hpathed, rfl⟩
    have hwalked : Walked nodesById [] [] (some nodeId) chain :=
      ⟨hpathed.climbs, fun _ _ => List.not_mem_nil, hpathed.named, .inr (by simpa using hpathed.depth)⟩
    simpa [reconstructFileNodePath] using climb_of_walked hwalked

/-- The names of a chain are read back off its path. -/
theorem splitOn_path {chain : List (String × FileNodeRef)} (h : Pathed nodesById nodeId chain) :
    (['/'].intercalate (names chain)).splitOn '/' = names chain := by
  refine List.splitOn_intercalate '/' (fun name hname => ?_) ?_
  · obtain ⟨e, he, rfl⟩ := List.mem_map.mp (List.mem_reverse.mp hname)
    exact (h.named e he).unslashed
  · cases h.climbs with
    | step => simp [names]

/-- Two nodes with the same path have a sibling of the same name on the way. -/
theorem sibling_of_same_path {nodeId' : String} {chain chain' : List (String × FileNodeRef)}
    (h : Pathed nodesById nodeId chain) (h' : Pathed nodesById nodeId' chain') (hne : nodeId ≠ nodeId')
    (hsame : ['/'].intercalate (names chain) = ['/'].intercalate (names chain')) :
    ∃ e ∈ chain, ∃ id node, id ≠ e.1 ∧ nodesById id = some node ∧ node.parentId = e.2.parentId ∧
      node.name = e.2.name := by
  have hnames : names chain = names chain' := by
    rw [← splitOn_path h, hsame, splitOn_path h']
  obtain ⟨e, he, e', he', hid, hparent, hname⟩ := h.climbs.part h'.climbs
    (fun heq => hne (Option.some.inj heq)) (List.reverse_injective hnames)
  exact ⟨e, he, e'.1, e'.2, hid.symm, h'.climbs.get_of_mem he', hparent.symm, hname.symm⟩

/-- **The path of a node**, in any index: it is answered exactly where the parent chain
makes one; nodes that share it have siblings of one name on the way; and in a tree
that these are only some nodes of it is the whole path, never the end of it. -/
theorem reconstructFileNodePath_exact (nodesById : NodesById) (nodeId : String) :
    (∀ path, reconstructFileNodePath nodeId nodesById = .ok path ↔
      ∃ chain, Pathed nodesById nodeId chain ∧ path = ['/'].intercalate (names chain)) ∧
    (∀ nodeId' path, nodeId' ≠ nodeId → reconstructFileNodePath nodeId nodesById = .ok path →
      reconstructFileNodePath nodeId' nodesById = .ok path →
      ∃ chain, Pathed nodesById nodeId chain ∧ ∃ e ∈ chain, ∃ id node, id ≠ e.1 ∧
        nodesById id = some node ∧ node.parentId = e.2.parentId ∧ node.name = e.2.name) ∧
    ∀ (tree : NodesById) chain path, (∀ id node, nodesById id = some node → tree id = some node) →
      Chain tree (some nodeId) chain → reconstructFileNodePath nodeId nodesById = .ok path →
      path = ['/'].intercalate (names chain) := by
  refine ⟨fun path => reconstructFileNodePath_eq_ok, ?_, ?_⟩
  · intro nodeId' path hne h h'
    obtain ⟨chain, hpathed, rfl⟩ := reconstructFileNodePath_eq_ok.mp h
    obtain ⟨chain', hpathed', hsame⟩ := reconstructFileNodePath_eq_ok.mp h'
    exact ⟨chain, hpathed, sibling_of_same_path hpathed hpathed' hne.symm hsame⟩
  · intro tree chain path htree hchain h
    obtain ⟨chain', hpathed, rfl⟩ := reconstructFileNodePath_eq_ok.mp h
    rw [(hpathed.climbs.extend htree).unique hchain]

end Spec

/-! ### The tree -/

/-- A node as it comes off the wire: what is no string is missing. -/
structure FileNode where
  id : Option String
  parentId : Option String
  name : Option Text
  nodeType : Option String
  deriving DecidableEq

inductive NodeKind : Type
  | file | directory
  deriving DecidableEq

/-- What makes a tree unreadable. -/
inductive TreeError : Type
  | unnamed (id : Option String)
  | unkindly (id : String) (nodeType : Option String)
  | unkeyed (id : String) (reason : NoPath)
  deriving DecidableEq

/-- A node that has an id and a name. -/
structure KeyedNode extends FileNodeRef where
  nodeType : Option String
  deriving DecidableEq

def FileNode.keyed (node : FileNode) : Except TreeError KeyedNode :=
  match node.id, node.name with
  | some id, some name => .ok ⟨⟨id, name, node.parentId⟩, node.nodeType⟩
  | _, _ => .error (.unnamed node.id)

def nodeKind (node : KeyedNode) : Except TreeError NodeKind :=
  if node.nodeType = some "file" then .ok .file
  else if node.nodeType = some "directory" then .ok .directory
  else .error (.unkindly node.id node.nodeType)

/-- The account's nodes, and by path its files and its directories: of two nodes of
one path the first entry is the one that stays. -/
structure TreeSnapshot where
  nodes : NodesById
  files : List (Text × KeyedNode)
  directories : List (Text × KeyedNode)

/-- A turn of the loop of `readTree`. -/
def TreeSnapshot.set (tree : TreeSnapshot) (node : KeyedNode) : Except TreeError TreeSnapshot :=
  (nodeKind node).bind fun kind =>
    match reconstructFileNodePath node.id tree.nodes with
    | .refused reason => .error (.unkeyed node.id reason)
    | .ok path =>
      .ok (if kind = .directory then { tree with directories := (path, node) :: tree.directories }
        else { tree with files := (path, node) :: tree.files })

/-- The body of `readTree`, of the nodes that were listed. -/
def readTree (list : List FileNode) : Except TreeError TreeSnapshot :=
  (list.mapM FileNode.keyed).bind fun refs =>
    refs.foldlM TreeSnapshot.set ⟨fileNodeIndex (refs.map (·.toFileNodeRef)), [], []⟩

end Ownpace.JmapFile
