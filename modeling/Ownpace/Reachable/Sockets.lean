/-
Ownpace/Reachable/Sockets.lean

No socket inside our network: whatever hosts are typed, at once or one after the other, and
whatever the lookups answer, each socket goes to an address judged in the same call, or to
the answer for a name the operator listed (`sockets_stay_outside`).

An address is judged as what it is and as the IPv4 address it is the mapped form of.  The
other forms that carry an IPv4 address are not looked into (`carried_otherwise_opens`).
-/
import Ownpace.Ip.Spelling
import Ownpace.Reachable.Host

namespace Ownpace.Reachable

open Await Ip
open Ownpace.Keys (CaseTable toNat_toLower)

variable {S : Type} {net : Net}

/-! ### What is judged -/

variable {address : Text} {a : Address} {r : Network}

theorem judged_outside (h : net.isRefusedAddress address = false) :
    ∃ a, net.read address = some a ∧ ∀ b, Reaches [mappedIn] a b →
      ∀ r ∈ net.refused, b ∉ r.addresses := by
  cases hread : net.read address with
  | none =>
      rw [Net.isRefusedAddress, hread] at h
      cases h
  | some a =>
      refine ⟨a, rfl, fun b hb r hr => ?_⟩
      rw [Net.isRefusedAddress, hread] at h
      exact Network.not_mem_of_not_has (Bool.eq_false_iff.mpr fun hhas =>
        Bool.false_ne_true (h.symm.trans (List.any_eq_true.mpr ⟨r, hr, hhas⟩))) hb

theorem refused_of_mem (hread : net.read address = some a) (hr : r ∈ net.refused)
    (ha : a ∈ r.addresses) : net.isRefusedAddress address = true := by
  rw [Net.isRefusedAddress, hread]
  exact List.any_eq_true.mpr ⟨r, hr, Network.has_of_mem ha⟩

theorem len_of_networkOf {cidr : Text} {n : Network} (h : net.networkOf cidr = some n) :
    n.len ≤ n.network.width := by
  unfold Net.networkOf at h
  split at h
  · cases h
  · split at h
    · cases h
    · split at h
      · cases h
      · next hlen =>
          cases h
          exact not_lt.mp hlen

/-- A network inside the ranges has no address that is let through. -/
theorem refused_of_inside {cidr : Text} {n : Network} (hn : net.networkOf cidr = some n)
    (hin : net.networkInsideRefusedRanges cidr = true) (hread : net.read address = some a)
    (ha : a ∈ n.addresses) : net.isRefusedAddress address = true := by
  rw [Net.networkInsideRefusedRanges, hn] at hin
  obtain ⟨range, hrange, hcond⟩ := List.any_eq_true.mp hin
  simp only [Bool.and_eq_true, beq_iff_eq, decide_eq_true_eq] at hcond
  obtain ⟨⟨hfamily, hlen⟩, hstart⟩ := hcond
  exact refused_of_mem hread hrange
    (Network.mem_of_inside hlen (len_of_networkOf hn) hfamily hstart ha)

/-! ### What is listed -/

theorem lowerAfter_ascii (net : Net) {s : Text} (hs : ∀ c ∈ s, c.toNat < 128) (before : Text) :
    net.table.lowerAfter before s = s.map Char.toLower := by
  induction s generalizing before with
  | nil => rfl
  | cons c s ih =>
      have hc : c.toNat < 128 := hs c List.mem_cons_self
      have hsigma : ¬ c = 'Σ' := by
        rintro rfl
        exact absurd hc (by decide)
      rw [CaseTable.lowerAfter, decide_eq_false hsigma, Bool.false_and, Bool.false_and,
        if_neg Bool.false_ne_true, net.lower_ascii c hc,
        ih (fun d hd => hs d (List.mem_cons_of_mem _ hd))]
      rfl

theorem toLowerCase_ascii (net : Net) {s : Text} (hs : ∀ c ∈ s, c.toNat < 128) :
    net.table.toLowerCase s = s.map Char.toLower := lowerAfter_ascii net hs []

theorem toNat_of_isAlphanum {c : Char} (h : c.isAlphanum = true) :
    c.toNat < 128 ∧ c.toNat ≠ 46 := by
  have hor : ((65 ≤ c.toNat ∧ c.toNat ≤ 90) ∨ 97 ≤ c.toNat ∧ c.toNat ≤ 122) ∨
      48 ≤ c.toNat ∧ c.toNat ≤ 57 := by
    delta Char.isAlphanum Char.isAlpha Char.isUpper Char.isLower Char.isDigit at h
    simp only [Bool.or_eq_true, Bool.and_eq_true, decide_eq_true_eq] at h
    exact h
  omega

theorem ascii_of_label {s : Text} (h : isLabel s = true) : ∀ c ∈ s, c.toNat < 128 := by
  simp only [isLabel, Bool.and_eq_true, List.all_eq_true] at h
  intro c hc
  have hchar := h.1.1.2 c hc
  simp only [Bool.or_eq_true, decide_eq_true_eq] at hchar
  rcases hchar with hchar | rfl
  · exact (toNat_of_isAlphanum hchar).1
  · decide

theorem mem_splitOnP (p : Char → Bool) {s : Text} {c : Char} (hc : c ∈ s) (hp : p c = false) :
    ∃ w ∈ s.splitOnP p, c ∈ w := by
  induction s with
  | nil => cases hc
  | cons d s ih =>
      rw [List.splitOnP_cons_eq_if_modifyHead]
      obtain ⟨w, ws, hws⟩ := List.exists_cons_of_ne_nil (List.splitOnP_ne_nil p s)
      rw [hws] at ih ⊢
      rcases List.mem_cons.mp hc with rfl | hc
      · rw [hp, if_neg Bool.false_ne_true]
        exact ⟨c :: w, List.mem_cons_self, List.mem_cons_self⟩
      · obtain ⟨w', hw', hmem⟩ := ih hc
        split
        · exact ⟨w', List.mem_cons_of_mem _ hw', hmem⟩
        · rcases List.mem_cons.mp hw' with rfl | hw'
          · exact ⟨d :: w', List.mem_cons_self, List.mem_cons_of_mem _ hmem⟩
          · exact ⟨w', List.mem_cons_of_mem _ hw', hmem⟩

/-- ASCII, and without a dot at the end once one is taken off. -/
structure PlainName (s : Text) : Prop where
  ascii : ∀ c ∈ s, c.toNat < 128
  last : s.getLast? ≠ some '.'

theorem plain_of_listed {s : Text} (h : isListedName s = true) : PlainName (dropDot s) := by
  have hall : ∀ w ∈ (dropDot s).splitOnP (· = '.'), isLabel w = true := List.all_eq_true.mp h
  refine ⟨fun c hc => ?_, fun hlast => ?_⟩
  · by_cases hdot : c = '.'
    · subst hdot
      decide
    · obtain ⟨w, hw, hmem⟩ := mem_splitOnP (· = '.') hc (decide_eq_false hdot)
      exact ascii_of_label (hall w hw) c hmem
  · -- A dot at the end would leave an empty label.
    obtain ⟨t, ht⟩ := List.getLast?_eq_some_iff.mp hlast
    have hempty : [] ∈ (dropDot s).splitOnP (· = '.') := by
      rw [ht, List.splitOnP_append_cons t [] (by decide)]
      exact List.mem_append_right _ List.mem_cons_self
    exact absurd (hall [] hempty) (by decide)

theorem toLower_eq_dot {c : Char} : c.toLower = '.' ↔ c = '.' := by
  constructor
  · intro h
    have hcode := toNat_toLower c
    rw [h] at hcode
    have hdot : c.toNat = 46 := by
      change 46 = _ at hcode
      split at hcode <;> omega
    exact Char.toNat_inj.mp hdot
  · rintro rfl
    rfl

theorem toLower_toLower (c : Char) : c.toLower.toLower = c.toLower := by
  have hcode := toNat_toLower c
  have hsmall : ¬ (65 ≤ c.toLower.toNat ∧ c.toLower.toNat ≤ 90) := by
    split at hcode <;> omega
  apply Char.toNat_inj.mp
  rw [toNat_toLower c.toLower, if_neg hsmall]

theorem toLower_ascii {c : Char} (h : c.toNat < 128) : c.toLower.toNat < 128 := by
  rw [toNat_toLower]
  split <;> omega

theorem dropDot_of_last {s : Text} (h : s.getLast? ≠ some '.') : dropDot s = s := if_neg h

theorem dropDot_map_toLower (s : Text) : dropDot (s.map Char.toLower) = (dropDot s).map Char.toLower := by
  rcases List.eq_nil_or_concat s with rfl | ⟨t, c, rfl⟩
  · rfl
  · simp only [dropDot, List.concat_eq_append, List.map_append, List.map_cons, List.map_nil,
      List.getLast?_concat, List.dropLast_concat, Option.some.injEq, toLower_eq_dot]
    split <;> simp

/-- **A name the list takes is written once**: read again, it is what it was. -/
theorem nameOf_nameOf {entry : Text} (h : isListedName entry = true) :
    net.nameOf (net.nameOf entry) = net.nameOf entry := by
  have hplain := plain_of_listed h
  have hascii : ∀ c ∈ entry, c.toNat < 128 := by
    intro c hc
    by_cases hlast : entry.getLast? = some '.'
    · obtain ⟨t, rfl⟩ := List.getLast?_eq_some_iff.mp hlast
      have hdrop : dropDot (t ++ ['.']) = t := by
        rw [dropDot, if_pos hlast, List.dropLast_concat]
      rcases List.mem_append.mp hc with hc | hc
      · exact hplain.ascii c (hdrop.symm ▸ hc)
      · obtain rfl := List.mem_singleton.mp hc
        decide
    · exact hplain.ascii c ((dropDot_of_last hlast).symm ▸ hc)
  have hname : net.nameOf entry = (dropDot entry).map Char.toLower := by
    rw [Net.nameOf, toLowerCase_ascii net hascii, dropDot_map_toLower]
  have hlower : ∀ c ∈ (dropDot entry).map Char.toLower, c.toNat < 128 := by
    intro c hc
    obtain ⟨d, hd, rfl⟩ := List.mem_map.mp hc
    exact toLower_ascii (hplain.ascii d hd)
  rw [hname, Net.nameOf, toLowerCase_ascii net hlower, dropDot_map_toLower, dropDot_map_toLower,
    dropDot_of_last hplain.last, List.map_map]
  exact List.map_congr_left fun c _ => toLower_toLower c

/-- The typed name is exactly one that was listed, as a name and not as an address. -/
structure Listed (net : Net) (value : Option Text) (host : Text) : Prop where
  typed : net.isIP (unbracket host) = none
  entry : ∃ entry ∈ entriesOf value, net.isIP (unbracket entry) = none ∧
    net.nameOf entry = net.nameOf (unbracket host)

variable {value : Option Text} {rule : ReachableHostRule} {host : Text}

theorem listed_of_allowed (hrule : refuseInternalAddressesFromEnv net value = .ok rule)
    (htyped : net.isIP (unbracket host) = none)
    (hallowed : rule.allow.contains (net.nameOf (unbracket host)) = true) :
    Listed net value host := by
  refine ⟨htyped, ?_⟩
  unfold refuseInternalAddressesFromEnv reachableHostsFrom at hrule
  cases hfind : (entriesOf value).find? fun entry =>
      (net.isIP (unbracket entry)).isSome || !isListedName entry with
  | some entry =>
      rw [hfind] at hrule
      cases hrule
  | none =>
      rw [hfind] at hrule
      cases hrule
      -- Each entry is a listed name, so the two readings of it agree.
      have hnames := List.mem_of_elem_eq_true hallowed
      simp only [refuseInternalAddresses, List.map_map, List.mem_map] at hnames
      obtain ⟨entry, hentry, hname⟩ := hnames
      have hgood := List.find?_eq_none.mp hfind entry hentry
      simp only [Bool.or_eq_true, Bool.not_eq_true', not_or, Bool.not_eq_true,
        Bool.not_eq_false] at hgood
      refine ⟨entry, hentry, Option.isSome_eq_false_iff.mp hgood.1 |> Option.isNone_iff_eq_none.mp, ?_⟩
      rw [← hname]
      exact (nameOf_nameOf hgood.2).symm

/-! ### A call -/

/-- The address leads to none that is refused. -/
def Outside (net : Net) (forms : List Form) (address : Text) : Prop :=
  ∃ a, net.read address = some a ∧ ∀ b, Reaches forms a b → ∀ r ∈ net.refused, b ∉ r.addresses

/-- Why a socket may go to an address, after what its call awaited. -/
inductive Vouched (net : Net) (forms : List Form) (value : Option Text) (host : Text)
    (past : List (NetEvent S)) (address : Text) : Prop
  /-- It was typed, and judged. -/
  | typed (hpast : past = []) (haddress : address = unbracket host)
      (hjudged : net.isRefusedAddress address = false) (houtside : Outside net forms address)
  /-- It was answered in this call, and every answer was judged. -/
  | resolved (answers : List Answer)
      (hpast : past = [.call (.resolve (net.nameOf (unbracket host))) (.ok answers)])
      (hjudged : ∀ answer ∈ answers, net.isRefusedAddress answer.address = false)
      (haddress : ∃ answer ∈ answers, answer.address = address)
      (houtside : Outside net forms address)
  /-- It was answered in this call for a name that is listed. -/
  | listed (answers : List Answer) (hlisted : Listed net value host)
      (hpast : past = [.call (.resolve (net.nameOf (unbracket host))) (.ok answers)])
      (haddress : ∃ answer ∈ answers, answer.address = address)

/-- What a call to reach `host` awaits. -/
def MayAwait (net : Net) (value : Option Text) (host : Text) (past : List (NetEvent S)) :
    NetEvent S → Prop
  | .call (.connect address) _ => Vouched net [mappedIn] value host past address
  | _ => True

/-- What `reachableAddress` answers. -/
def Reached (net : Net) (value : Option Text) (host : Text) (past : List (NetEvent S)) :
    Except HostError (Text × Family) → Prop
  | .ok checked => Vouched net [mappedIn] value host past checked.1
  | .error _ => True

theorem checkedAnswer_ok {allowed : Bool} {answers : List Answer} {checked : Text × Family}
    (h : checkedAnswer net host allowed answers = .ok checked) :
    (∃ answer ∈ answers, answer.address = checked.1) ∧
      (allowed = false → ∀ answer ∈ answers, net.isRefusedAddress answer.address = false) := by
  cases answers with
  | nil => cases h
  | cons first rest =>
      rw [checkedAnswer] at h
      split at h
      · cases h
      · next hcond =>
          cases h
          refine ⟨⟨first, List.mem_cons_self, rfl⟩, ?_⟩
          rintro rfl answer hanswer
          exact Bool.eq_false_iff.mpr fun hrefused =>
            hcond (List.any_eq_true.mpr ⟨answer, hanswer, hrefused⟩)

theorem always_reachableAddress (hrule : refuseInternalAddressesFromEnv net value = .ok rule) :
    (reachableAddress net host rule : Reaching S (Text × Family)).Always (MayAwait net value host)
      (Reached net value host) [] := by
  unfold reachableAddress
  dsimp only
  cases hliteral : net.isIP (unbracket host) with
  | some literal =>
      dsimp only
      cases hjudged : net.isRefusedAddress (unbracket host) with
      | true => exact trivial
      | false => exact .typed rfl rfl hjudged (judged_outside hjudged)
  | none =>
      dsimp only
      split
      · exact trivial
      · refine Prog.always_awaitWith_bind.mpr ⟨fun answers => ⟨trivial, ?_⟩, fun e => ⟨trivial, trivial⟩⟩
        cases hchecked : checkedAnswer net host
            (rule.allow.contains (net.nameOf (unbracket host))) answers with
        | error e => exact trivial
        | ok checked =>
            obtain ⟨hfrom, hjudged⟩ := checkedAnswer_ok hchecked
            cases hallowed : rule.allow.contains (net.nameOf (unbracket host)) with
            | true => exact .listed answers (listed_of_allowed hrule hliteral hallowed) rfl hfrom
            | false =>
                obtain ⟨answer, hanswer, haddress⟩ := hfrom
                have hall := hjudged hallowed
                exact .resolved answers rfl hall ⟨answer, hanswer, haddress⟩
                  (haddress ▸ judged_outside (hall answer hanswer))

/-- The two doors open sockets one way. -/
theorem opens_eq (door : Door) : (door.opens net rule : Reaching S Unit) =
    checkedConnector net rule door.host >>= fun _ => .ret () := by
  cases door with
  | request hostname => rfl
  | imap host =>
      rw [Door.opens, reachableHost, Prog.bind_assoc]
      rfl

theorem always_opens (hrule : refuseInternalAddressesFromEnv net value = .ok rule) (door : Door) :
    (door.opens net rule : Reaching S Unit).Always (MayAwait net value door.host)
      (fun _ _ => True) [] := by
  rw [opens_eq, Prog.bind_eq, Prog.always_bind, checkedConnector, Prog.always_attempt]
  refine (always_reachableAddress hrule).andThen (fun past checked _ h => ?_) fun _ _ _ _ => trivial
  exact Prog.always_awaitWith.mpr ⟨fun _ => ⟨h, trivial⟩, fun _ => ⟨h, trivial⟩⟩

/-! ### Any calls at once -/

variable {W : S → (o : NetOp) → o.Ans → S → Prop} {limit : Nat} {doors : List Door}
variable {s₀ s : S} {pl : Pool S NetOp NetOp.Ans HostError}
variable {trace past rest : List (Pool.Label S NetOp NetOp.Ans)}

/-- A socket of the trace, and the call it was opened in. -/
theorem vouched_of_traced (hrule : refuseInternalAddressesFromEnv net value = .ok rule)
    (h : Pool.Traced W limit (doors.map (Door.opens net rule)) s₀ pl s trace) {i : Nat}
    {answer : Except String Unit} (heq : trace = past ++ (i, .call (.connect address) answer) :: rest) :
    ∃ door : Door, doors[i]? = some door ∧
      Vouched net [mappedIn] value door.host (Pool.own i past) address := by
  -- Door by door: what a call may await rests on the door it came in by.
  have hspec : ∀ (i : Nat) (p : Reaching S Unit), (doors.map (Door.opens net rule))[i]? = some p →
      p.Always (fun past e => ∃ door : Door, doors[i]? = some door ∧ MayAwait net value door.host past e)
        (fun _ _ => True) [] := by
    intro i p hp
    rw [List.getElem?_map] at hp
    obtain ⟨door, hdoor, rfl⟩ := Option.map_eq_some_iff.mp hp
    exact (always_opens hrule door).after (h := []) (fun past e he => ⟨door, hdoor, he⟩)
      fun _ _ _ => trivial
  obtain ⟨-, -, -, -, -, ⟨door, hdoor, hmay⟩, -⟩ := h.moment hspec heq
  exact ⟨door, hdoor, hmay⟩

/-- **No socket inside our network**: of any calls at once, in any order and whatever the
lookups answer, each socket goes to an address that was judged in its own call and leads to
no refused one, as it is written or as the address it is the mapped form of; or to an answer
for a name that is listed, and no address is.  And a network said to lie inside the ranges
has no address that is let through. -/
theorem sockets_stay_outside (hrule : refuseInternalAddressesFromEnv net value = .ok rule) :
    (∀ (S : Type) (W : S → (o : NetOp) → o.Ans → S → Prop) (limit : Nat) (doors : List Door)
        (s₀ s : S) (pl : Pool S NetOp NetOp.Ans HostError)
        (past rest : List (Pool.Label S NetOp NetOp.Ans)) (i : Nat) (address : Text)
        (answer : Except String Unit),
      Pool.Traced W limit (doors.map (Door.opens net rule)) s₀ pl s
          (past ++ (i, .call (.connect address) answer) :: rest) →
        ∃ door : Door, doors[i]? = some door ∧
          Vouched net [mappedIn] value door.host (Pool.own i past) address) ∧
      ∀ cidr, net.networkInsideRefusedRanges cidr = true →
        ∃ n, net.networkOf cidr = some n ∧ ∀ address a, net.read address = some a →
          a ∈ n.addresses → net.isRefusedAddress address = true := by
  refine ⟨fun S W limit doors s₀ s pl past rest i address answer h => vouched_of_traced hrule h rfl,
    fun cidr hin => ?_⟩
  cases hn : net.networkOf cidr with
  | none =>
      rw [Net.networkInsideRefusedRanges, hn] at hin
      cases hin
  | some n => exact ⟨n, rfl, fun address a hread ha => refused_of_inside hn hin hread ha⟩

theorem bar_toLower : ['|'.toLower] = ['|'] := rfl

theorem bar_isAlpha : '|'.isAlpha = false := rfl

/-- Texts as they are written, and lower-casing of ASCII letters only. -/
def plainNet : Net where
  read := Ip.read
  loads := by decide +kernel
  table :=
    { lower := fun c => [c.toLower]
      cased := Char.isAlpha
      caseIgnorable := fun _ => false
      lower_bar := bar_toLower
      cased_bar := bar_isAlpha
      caseIgnorable_bar := rfl }
  lower_ascii := fun _ _ => rfl

/-- The first call of one program. -/
theorem traced_first {W : S → (o : NetOp) → o.Ans → S → Prop} {s₀ : S} {o : NetOp} {a : o.Ans}
    {k : o.Ans → Reaching S Unit} (hW : W s₀ o a s₀) :
    Pool.Traced W 1 [.call o k] s₀ ⟨[], [⟨k a, [.call o a]⟩], (k a).thrown⟩ s₀ [(0, .call o a)] := by
  have hstart : Pool.Step W 1 ⟨[.call o k], [], none⟩ s₀ none ⟨[], [⟨.call o k, []⟩], none⟩ s₀ :=
    .start (Nat.lt_succ_self 0)
  have htask : Pool.Step W 1 ⟨[], [] ++ ⟨.call o k, []⟩ :: [], none⟩ s₀ (some (0, .call o a))
      ⟨[], [] ++ ⟨k a, [] ++ [.call o a]⟩ :: [], none <|> (k a).thrown⟩ s₀ :=
    .task (.call k hW)
  have hnone : (none <|> (k a).thrown) = (k a).thrown := by
    cases (k a).thrown <;> rfl
  rw [hnone] at htask
  exact .task (.start .refl hstart) htask

/-- A literal that is let through is connected to at once. -/
theorem opens_literal (hliteral : (net.isIP (unbracket host)).isSome = true)
    (hjudged : net.isRefusedAddress (unbracket host) = false) :
    (Door.opens net rule (.imap host) : Reaching S Unit) =
      ((ask (.connect (unbracket host))).attempt >>= fun (_ : Except HostError Unit) => .ret ()) := by
  obtain ⟨literal, hliteral⟩ := Option.isSome_iff_exists.mp hliteral
  rw [opens_eq, checkedConnector, reachableAddress]
  dsimp only
  rw [show Door.host (.imap host) = host from rfl, hliteral]
  dsimp only
  rw [hjudged]
  rfl

theorem traced_literal (net : Net) (rule : ReachableHostRule) (host : Text)
    (hliteral : (net.isIP (unbracket host)).isSome = true)
    (hjudged : net.isRefusedAddress (unbracket host) = false) :
    ∃ pl, Pool.Traced (fun (_ : Unit) _ _ _ => True) 1 ([.imap host].map (Door.opens net rule)) () pl ()
      [(0, .call (.connect (unbracket host)) (.ok ()))] := by
  rw [List.map_singleton, opens_literal hliteral hjudged]
  exact ⟨_, traced_first trivial⟩

theorem plain_names : refuseInternalAddressesFromEnv plainNet (some "Postgres., caldav-demo".toList) =
    .ok ⟨["postgres".toList, "caldav-demo".toList]⟩ := by
  decide +kernel

theorem public_address_opens :
    (∃ door : Door, [Door.imap "[2606:4700::1111]".toList][0]? = some door ∧
      @Vouched Unit plainNet [mappedIn] (some "Postgres., caldav-demo".toList) door.host []
        "2606:4700::1111".toList) ∧
    plainNet.isRefusedAddress "172.18.0.5".toList = true := by
  obtain ⟨hsockets, hnetworks⟩ := sockets_stay_outside plain_names
  obtain ⟨pl, htraced⟩ := traced_literal plainNet ⟨["postgres".toList, "caldav-demo".toList]⟩
    "[2606:4700::1111]".toList (by decide +kernel) (by decide +kernel)
  refine ⟨hsockets Unit _ 1 _ () () pl [] [] 0 _ (.ok ()) htraced, ?_⟩
  have hnet : plainNet.networkOf "172.18.0.0/16".toList = some ⟨.v4 0xac120000#32, 16⟩ := by
    decide +kernel
  obtain ⟨n, hn, hall⟩ := hnetworks "172.18.0.0/16".toList (by decide +kernel)
  obtain rfl := Option.some.inj (hnet.symm.trans hn)
  exact hall "172.18.0.5".toList (.v4 0xac120005#32) (by decide +kernel)
    ⟨0xac120005#32, rfl, by decide⟩

/-- **The address that a translator takes to `127.0.0.1` is let through**: only the mapped
form is looked into. -/
theorem carried_otherwise_opens :
    ¬ ∀ (net : Net) (value : Option Text) (rule : ReachableHostRule) (S : Type)
        (W : S → (o : NetOp) → o.Ans → S → Prop) (limit : Nat) (doors : List Door) (s₀ s : S)
        (pl : Pool S NetOp NetOp.Ans HostError) (past rest : List (Pool.Label S NetOp NetOp.Ans))
        (i : Nat) (address : Text) (answer : Except String Unit),
      refuseInternalAddressesFromEnv net value = .ok rule →
      Pool.Traced W limit (doors.map (Door.opens net rule)) s₀ pl s
          (past ++ (i, .call (.connect address) answer) :: rest) →
        ∃ door : Door, doors[i]? = some door ∧
          Vouched net carriers value door.host (Pool.own i past) address := by
  intro h
  have hread : plainNet.read "64:ff9b::7f00:1".toList =
      some (.v6 0x0064ff9b00000000000000007f000001#128) := by
    decide +kernel
  have hloopback : (⟨.v4 0x7f000000#32, 8⟩ : Network) ∈ plainNet.refused := by
    decide +kernel
  have hcarried : Reaches carriers (.v6 0x0064ff9b00000000000000007f000001#128)
      (.v4 0x7f000001#32) := by
    have hform : translated ∈ carriers := List.mem_cons_of_mem _ (List.mem_cons_of_mem _ List.mem_cons_self)
    exact .carried hform (by decide)
  obtain ⟨pl, htraced⟩ := traced_literal plainNet ⟨[]⟩ "64:ff9b::7f00:1".toList
    (by decide +kernel) (by decide +kernel)
  obtain ⟨door, hdoor, hvouched⟩ := h plainNet none ⟨[]⟩ Unit _ 1 _ () () pl [] [] 0 _ (.ok ())
    (by decide +kernel) htraced
  obtain rfl := Option.some.inj hdoor
  have hinside : ¬ Outside plainNet carriers "64:ff9b::7f00:1".toList := by
    rintro ⟨a, ha, hout⟩
    obtain rfl := Option.some.inj (hread.symm.trans ha)
    exact hout _ hcarried _ hloopback ⟨0x7f000001#32, rfl, by decide⟩
  cases hvouched with
  | typed _ _ _ houtside => exact hinside houtside
  | resolved _ hpast _ _ _ => cases hpast
  | listed _ _ hpast _ => cases hpast

end Ownpace.Reachable
