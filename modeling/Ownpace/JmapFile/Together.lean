/-
Ownpace/JmapFile/Together.lean

Any upserts at once on one writer: what its requests create lies under directories, and what
it answers names a file at the path.

Nodes are only added, so what is known of a path stays so, in whichever snapshot it was read
(`Sound`, `Later`).  Each call is walked once, among all the others.
-/
import Ownpace.JmapFile.Writer

namespace Ownpace.JmapFile

open Await

/-! ### The server -/

def FileNode.of (id : String) (name : Text) (parentId : Option String) (kind : NodeKind) : FileNode where
  id := some id
  parentId := parentId
  name := some name
  nodeType := some kind.nodeType

/-- A node with a blob is a file. -/
def kindOf (blobId : Option String) : NodeKind := if blobId.isSome then .file else .directory

/-- What a call may answer, and the world it leaves.  A creation that is not answered may have
been carried out; a second node of one name and parent there is not. -/
inductive Effects : World → (o : FileOp) → o.Ans → World → Prop
  | connect {s : World} : Effects s .connect (.ok ()) s
  | listed {s : World} {list : List FileNode} (hlist : list.Perm s.account.nodes) :
      Effects s .listNodes (.ok list) s
  | gotNode {s : World} {targetId : String} (version : Option String) :
      Effects s (.getNode targetId) (.ok version) s
  | uploaded {s : World} (blobId : String) : Effects s .upload (.ok blobId) s
  | created {s : World} {name : Text} {parentId blobId : Option String} {id : String}
      {account : Account} {a : Except String CreateResponse}
      (hnodes : account.nodes = s.account.nodes ++ [.of id name parentId (kindOf blobId)])
      (ha : ∀ response, a = .ok response → response.created = some id) :
      Effects s (.createNode name parentId blobId) a
        { s with account, made := s.made ++ [.of id name parentId (kindOf blobId)] }
  | notCreated {s : World} {name : Text} {parentId blobId : Option String} {response : CreateResponse}
      (hnone : response.created = none) :
      Effects s (.createNode name parentId blobId) (.ok response) s
  | updated {s : World} {targetId blobId : String} (failure : Option String) :
      Effects s (.updateNode targetId blobId) (.ok failure) s
  | hasTree {s : World} {read : Nat} {t : TreeSnapshot} (h : s.reads[read]? = some (.tree t)) :
      Effects s (.settled read) (.ok true) s
  | noTree {s : World} {read : Nat} (h : s.reads[read]? = some .unreadable) :
      Effects s (.settled read) (.ok false) s
  | rejects {s : World} {o : FileOp} (e : String) (ho : ∀ read, o ≠ .settled read) :
      Effects s o (.error e) s

/-! ### What is kept -/

/-- A node at a path, of a kind. -/
def At (nodes : List FileNode) (path : Text) (id : String) (kind : NodeKind) : Prop :=
  PathTo Any nodes (path.splitOn '/') (some id) ∧ Kind nodes id kind.nodeType

/-- A file under directories, that this writer created. -/
def MadeAt (s : World) (path : Text) (id : String) : Prop :=
  ∃ names name parentId, path.splitOn '/' = names ++ [name] ∧
    PathTo IsDirectory s.account.nodes names parentId ∧ .of id name parentId .file ∈ s.made

/-- An answer names a file at the path, and one it says was created was. -/
structure Justified (s : World) (path : Text) (r : UpsertResult) : Prop where
  file : At s.account.nodes path r.targetId .file
  created : r.created = true → MadeAt s path r.targetId

structure Sound (s : World) : Prop where
  reads : ∀ (read : Nat) t, s.reads[read]? = some (.tree t) → Faithful s.account.nodes t
  made : ∀ node ∈ s.made, node ∈ s.account.nodes ∧
    ∃ names, PathTo IsDirectory s.account.nodes names node.parentId
  answers : ∀ a ∈ s.answers, Justified s a.1 a.2

/-- Nothing is taken away. -/
structure Later (s s' : World) : Prop where
  nodes : s.account.nodes <+: s'.account.nodes
  made : s.made <+: s'.made

theorem Later.refl (s : World) : Later s s := ⟨List.prefix_rfl, List.prefix_rfl⟩

theorem Later.trans (s s' s'' : World) (h : Later s s') (h' : Later s' s'') : Later s s'' :=
  ⟨h.nodes.trans h'.nodes, h.made.trans h'.made⟩

theorem Later.of_eq {s s' : World} (haccount : s'.account = s.account) (hmade : s'.made = s.made) :
    Later s s' :=
  ⟨haccount ▸ List.prefix_rfl, hmade ▸ List.prefix_rfl⟩

variable {s s' : World} {path : Text} {id : String} {kind : NodeKind} {r : UpsertResult}
variable {names : List Text} {name : Text} {parentId o : Option String}

theorem At.later (hl : Later s s') (h : At s.account.nodes path id kind) :
    At s'.account.nodes path id kind :=
  ⟨h.1.mono (fun _ hp => hp) hl.nodes.subset, h.2.mono hl.nodes.subset⟩

theorem directories_later {P : FileNode → Prop} (hl : Later s s')
    (h : PathTo P s.account.nodes names o) : PathTo P s'.account.nodes names o :=
  h.mono (fun _ hp => hp) hl.nodes.subset

theorem Justified.later (hl : Later s s') (h : Justified s path r) : Justified s' path r := by
  refine ⟨h.file.later hl, fun hr => ?_⟩
  obtain ⟨names, name, parentId, hpath, hdirectories, hmade⟩ := h.created hr
  exact ⟨names, name, parentId, hpath, directories_later hl hdirectories, hl.made.subset hmade⟩

/-- A program that keeps the account in order, among others that do. -/
abbrev Keeps {α : Type} (Q : World → Except FileError α → Prop) (p : Filing α) (s : World) : Prop :=
  p.Among Sound Later Effects Q s

variable {α β : Type} {Q : World → Except FileError α → Prop} {Q' : World → Except FileError β → Prop}

/-- Nothing is claimed of an error. -/
def Answers (Q : World → α → Prop) (s : World) : Except FileError α → Prop
  | .ok a => Q s a
  | .error _ => True

theorem Keeps.andThen {A : World → α → Prop} {B : World → β → Prop} {p : Filing α}
    {f : α → Filing β} (hs : Sound s) (hp : Keeps (Answers A) p s)
    (hok : ∀ t a, Later s t → Sound t → A t a → Keeps (Answers B) (f a) t) :
    Keeps (Answers B) (p >>= f) s :=
  hp.bind Later.refl Later.trans hs hok fun _ _ _ _ _ => trivial

theorem keeps_ret {A : World → α → Prop} {a : α} (h : ∀ t, Later s t → A t a) :
    Keeps (Answers A) (.ret a : Filing α) s := fun t hl _ => h t hl

theorem keeps_throw {A : World → α → Prop} {e : FileError} :
    Keeps (Answers A) (.throw e : Filing α) s := fun _ _ _ => trivial

theorem Keeps.imp {A B : World → α → Prop} {p : Filing α} (hp : Keeps (Answers A) p s)
    (h : ∀ t a, A t a → B t a) : Keeps (Answers B) p s :=
  hp.mono fun t r _ hr => by
    cases r with
    | ok a => exact h t a hr
    | error e => trivial

/-- Only a creation changes the world. -/
theorem Effects.same {o : FileOp} {a : o.Ans} (h : Effects s o a s')
    (ho : ∀ name parentId blobId, o ≠ .createNode name parentId blobId) : s' = s := by
  cases h with
  | created => exact absurd rfl (ho _ _ _)
  | connect | listed | gotNode | uploaded | notCreated | updated | hasTree | noTree | rejects => rfl

theorem keeps_ask {o : FileOp} {A : World → o.Reply → Prop}
    (ho : ∀ name parentId blobId, o ≠ .createNode name parentId blobId)
    (hA : ∀ t a, Effects t o (.ok a) t → ∀ t', Later t t' → A t' a) : Keeps (Answers A) (ask o) s := by
  intro t _ ht a t' heffects
  obtain rfl := heffects.same ho
  refine ⟨ht, Later.refl t', ?_⟩
  cases a with
  | ok a => exact fun t hl _ => hA t' a heffects t hl
  | error e => exact fun _ _ _ => trivial

theorem keeps_read {B : World → β → Prop} {f : World → Filing β}
    (h : ∀ t, Later s t → Sound t → Keeps (Answers B) (f t) t) :
    Keeps (Answers B) (Prog.read >>= f) s :=
  fun t hl ht => ⟨ht, Later.refl t, h t hl ht⟩

/-- What the writer remembers is not asked about by what it has made and answered. -/
theorem Sound.of_reads (hs : Sound s) {reads : List Reading} {treeSnapshot : Option Nat}
    (h : ∀ (read : Nat) t, reads[read]? = some (.tree t) → Faithful s.account.nodes t) :
    Sound { s with reads, treeSnapshot } := by
  refine ⟨h, hs.made, fun a ha => ?_⟩
  exact ⟨(hs.answers a ha).file, (hs.answers a ha).created⟩

theorem Sound.begun (hs : Sound s) : Sound s.begun := by
  unfold World.begun
  split
  · exact hs
  · refine hs.of_reads fun read t hread => ?_
    rcases Nat.lt_trichotomy read s.reads.length with hlt | rfl | hgt
    · rw [List.getElem?_append_left hlt] at hread
      exact hs.reads read t hread
    · rw [List.getElem?_concat_length] at hread
      cases hread
    · rw [List.getElem?_eq_none (by rw [List.length_append, List.length_singleton]; omega)] at hread
      cases hread

theorem Sound.settle {read : Nat} {ended : Except FileError TreeSnapshot} (hs : Sound s)
    (h : ∀ snapshot, ended = .ok snapshot → Faithful s.account.nodes snapshot) :
    Sound (s.settle read ended) := by
  refine hs.of_reads fun read' t hread => ?_
  by_cases hsame : read = read'
  · subst hsame
    rw [List.getElem?_set_self'] at hread
    cases hold : s.reads[read]? with
    | none =>
        rw [hold] at hread
        cases hread
    | some old =>
        rw [hold] at hread
        cases ended with
        | ok snapshot =>
            cases hread
            exact h t rfl
        | error e => cases hread
  · rw [List.getElem?_set_ne hsame] at hread
    exact hs.reads read' t hread

theorem Faithful.remember {nodes : List FileNode} {t : TreeSnapshot} {node : KeyedNode}
    (hf : Faithful nodes t) (h : At nodes path node.id kind) :
    Faithful nodes (t.remember path node kind) := by
  cases kind with
  | file => exact ⟨List.forall_mem_cons.mpr ⟨h, hf.files⟩, hf.directories⟩
  | directory => exact ⟨hf.files, List.forall_mem_cons.mpr ⟨h, hf.directories⟩⟩

theorem mem_of_idAt {entries : List (Text × KeyedNode)} (h : idAt entries path = some id) :
    ∃ e ∈ entries, e.1 = path ∧ e.2.id = id := by
  obtain ⟨e, he, hid⟩ := Option.map_eq_some_iff.mp h
  have hpath := List.find?_some he
  exact ⟨e, List.mem_of_find?_eq_some he, of_decide_eq_true hpath, hid⟩

theorem at_of_idAt {nodes : List FileNode} {t : TreeSnapshot} (hf : Faithful nodes t)
    (h : idAt t.files path = some id) : At nodes path id .file := by
  obtain ⟨e, he, rfl, rfl⟩ := mem_of_idAt h
  exact hf.files e he

theorem Sound.snapshotOf (hs : Sound s) {snapshot : Option Nat} {t : TreeSnapshot}
    (h : s.snapshotOf snapshot = some t) : Faithful s.account.nodes t := by
  obtain ⟨reading, hreading, htree⟩ := Option.bind_eq_some_iff.mp h
  obtain ⟨read, -, hread⟩ := Option.bind_eq_some_iff.mp hreading
  cases reading with
  | tree t' =>
      cases htree
      exact hs.reads read t hread
  | pending | unreadable => cases htree

/-- What a snapshot has at a path is there. -/
theorem Sound.directoryAt (hs : Sound s) {snapshot : Option Nat}
    (h : s.directoryAt snapshot path = some id) : At s.account.nodes path id .directory := by
  obtain ⟨t, ht, hid⟩ := Option.bind_eq_some_iff.mp h
  obtain ⟨e, he, rfl, rfl⟩ := mem_of_idAt hid
  exact (hs.snapshotOf ht).directories e he

theorem Sound.fileAt (hs : Sound s) {snapshot : Option Nat}
    (h : s.fileAt snapshot path = some id) : At s.account.nodes path id .file := by
  obtain ⟨t, ht, hid⟩ := Option.bind_eq_some_iff.mp h
  exact at_of_idAt (hs.snapshotOf ht) hid

/-! ### Directories -/

/-- A node that the server was asked to create, and created. -/
theorem Sound.created (hs : Sound s) {account : Account} {node : FileNode}
    (hnodes : account.nodes = s.account.nodes ++ [node])
    (hparent : ∃ names, PathTo IsDirectory s.account.nodes names node.parentId) :
    Sound { s with account, made := s.made ++ [node] } ∧
      Later s { s with account, made := s.made ++ [node] } := by
  have hlater : Later s { s with account, made := s.made ++ [node] } := by
    refine ⟨?_, List.prefix_append _ _⟩
    show s.account.nodes <+: account.nodes
    rw [hnodes]
    exact List.prefix_append _ _
  have hhere : node ∈ account.nodes := by
    rw [hnodes]
    exact List.mem_concat_self
  refine ⟨⟨fun read t hread => ?_, fun n hn => ?_, fun a ha => (hs.answers a ha).later hlater⟩, hlater⟩
  · exact (hs.reads read t hread).mono hlater.nodes.subset
  · rcases List.mem_append.mp hn with hn | hn
    · obtain ⟨hmem, names, hdirectories⟩ := hs.made n hn
      exact ⟨hlater.nodes.subset hmem, names, directories_later hlater hdirectories⟩
    · obtain rfl := List.mem_singleton.mp hn
      obtain ⟨names, hdirectories⟩ := hparent
      exact ⟨hhere, names, directories_later hlater hdirectories⟩

/-- No two slashes in a row, once backslashes are slashes and those at the ends are off. -/
def Plain (path : Text) : Prop :=
  normalizeRelativePath path = [] ∨ ∀ name ∈ (normalizeRelativePath path).splitOn '/', name ≠ []

/-- What was walked of a path so far. -/
structure Descended (walked : Text) (names : List Text) : Prop where
  empty : walked = [] → names = []
  split : walked ≠ [] → walked.splitOn '/' = names

theorem Descended.next {walked segment : Text} (h : Descended walked names) (hslash : '/' ∉ segment)
    (hne : segment ≠ []) :
    Descended (if walked = [] then segment else walked ++ '/' :: segment) (names ++ [segment]) := by
  split
  · next hempty =>
      rw [h.empty hempty]
      exact ⟨fun hnil => absurd hnil hne, fun _ => List.splitOn_eq_singleton hslash⟩
  · next hwalked =>
      refine ⟨fun hnil => by simp at hnil, fun _ => ?_⟩
      rw [List.splitOn_append_cons_self, h.split hwalked, List.splitOn_eq_singleton hslash]

variable {maxSizeUpload : Option Nat} {raw : RawFileItem}

end Ownpace.JmapFile
