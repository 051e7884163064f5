/-
Ownpace/Orchestration/Apart.lean

When the lanes are right: `planDomainLanes_right_iff`.

They always are, but for the data types without a host.  Those join lane 0, the lane
of the first of all, and a data type on other servers runs beside them.
-/
import Ownpace.Orchestration.Placed

namespace Ownpace.Orchestration

open Store

variable {hosts : DiscoveryDomain → List String} {domains : List DiscoveryDomain}

/-! ### When the lanes are right -/

section Right

variable (hosts) (hd : domains.Nodup)
include hd

theorem mem_planLanes {L : List DiscoveryDomain} : L ∈ planLanes hosts domains ↔
    ∃ A ∈ (domains.foldl (Lanes.place hosts) Lanes.empty).lanes,
      (∀ a, a ∈ L ↔ a ∈ A) ∧ L = domains.filter fun a => A.contains a := by
  have hplaced := placed_all hosts domains hd
  rw [planLanes_eq hosts hd, List.mem_map]
  constructor
  · rintro ⟨A, hA, rfl⟩
    refine ⟨A, hA, fun a => ?_, rfl⟩
    rw [List.mem_filter, List.contains_iff_mem]
    exact ⟨And.right, fun ha => ⟨hplaced.mem_domains (fun _ h => h) hA ha, ha⟩⟩
  · rintro ⟨A, hA, -, rfl⟩
    exact ⟨A, hA, rfl⟩

theorem planLanes_once : (planLanes hosts domains).flatten.Perm domains := by
  have hplaced := placed_all hosts domains hd
  apply List.Perm.trans _ hplaced.once
  have hperm (lanes : List (List DiscoveryDomain)) :
      (lanes.map (sortBy (byRank domains))).flatten.Perm lanes.flatten := by
    induction lanes with
    | nil => exact List.Perm.nil
    | cons A lanes ih => exact (sortBy_perm _ A).append ih
  have hmap := planLanes_eq hosts hd
  have hnodup := List.nodup_flatten.mp (hplaced.once.nodup_iff.mpr hd)
  have hsame : (domains.foldl (Lanes.place hosts) Lanes.empty).lanes.map (sortBy (byRank domains)) =
      planLanes hosts domains := by
    rw [hmap]
    apply List.map_congr_left
    intro A hA
    exact sortBy_byRank hd (hnodup.1 A hA) fun a ha => hplaced.mem_domains (fun _ h => h) hA ha
  rw [← hsame]
  exact hperm _

theorem planLanes_apart : (planLanes hosts domains).Pairwise fun L L' =>
    ∀ a ∈ L, ∀ b ∈ L', ¬ Share hosts a b := by
  have hplaced := placed_all hosts domains hd
  rw [planLanes_eq hosts hd, List.pairwise_map]
  apply List.pairwise_iff_getElem.mpr
  rintro i j hi hj hij a ha b hb ⟨host, hah, hbh⟩
  have ha := List.contains_iff_mem.mp (List.mem_filter.mp ha).2
  have hb := List.contains_iff_mem.mp (List.mem_filter.mp hb).2
  have hsi := (hplaced.numbered host i).mpr ⟨_, List.getElem?_eq_getElem hi, a, ha, hah⟩
  have hsj := (hplaced.numbered host j).mpr ⟨_, List.getElem?_eq_getElem hj, b, hb, hbh⟩
  have := Option.some.inj (hsi.symm.trans hsj)
  omega

theorem planLanes_linked {L : List DiscoveryDomain} (hL : L ∈ planLanes hosts domains)
    {a b : DiscoveryDomain} (ha : a ∈ L) (hb : b ∈ L) :
    Chain domains (Touch hosts domains) a b := by
  obtain ⟨A, hA, hmem, -⟩ := (mem_planLanes hosts hd).mp hL
  exact (placed_all hosts domains hd).linked A hA a ((hmem a).mp ha) b ((hmem b).mp hb)

/-- What a data type without a host runs beside. -/
theorem planLanes_unknown_iff :
    (∀ L ∈ planLanes hosts domains, ∀ a ∈ L, hosts a = [] → ∀ b ∈ domains, b ∈ L) ↔
      (∀ a ∈ domains, hosts a ≠ []) ∨
        ∀ first, domains.head? = some first → ∀ a ∈ domains, hosts a ≠ [] →
          Chain domains (Share hosts) first a := by
  have hplaced := placed_all hosts domains hd
  constructor
  · intro hunknown
    by_cases hall : ∀ a ∈ domains, hosts a ≠ []
    · exact .inl hall
    · right
      push Not at hall
      obtain ⟨u, hu, hunone⟩ := hall
      intro first hfirst a ha hahost
      obtain ⟨L, hL, huL⟩ := List.mem_flatten.mp ((planLanes_once hosts hd).mem_iff.mpr hu)
      have hin := hunknown L hL u huL hunone
      have hlinked := planLanes_linked hosts hd hL
        (hin first (List.mem_of_mem_head? hfirst)) (hin a ha)
      -- along the chain, what has a host is linked by hosts alone
      have hkeeps : hosts a = [] ∨ Chain domains (Share hosts) first a := by
        refine hlinked.keeps (P := fun x => hosts x = [] ∨ Chain domains (Share hosts) first x)
          (.inr (.refl _)) ?_
        rintro x hx y hy hxy hx'
        rcases hxy with hshare | ⟨-, hhome⟩
        · obtain ⟨host, hxh, hyh⟩ := hshare
          rcases hx' with hnone | hchain
          · rw [hnone] at hxh
            cases hxh
          · exact .inr (hchain.trans (.single hx hy ⟨host, hxh, hyh⟩))
        · rcases hhome with hnone | hhead
          · exact .inl hnone
          · obtain rfl := Option.some.inj (hfirst.symm.trans hhead)
            exact .inr (.refl _)
      exact hkeeps.resolve_left hahost
  · rintro (hall | hchain) L hL u hu hnone b hb
    · obtain ⟨A, hA, hmem, -⟩ := (mem_planLanes hosts hd).mp hL
      have hdom := hplaced.mem_domains (fun _ h => h) hA ((hmem u).mp hu)
      exact absurd hnone (hall u hdom)
    · obtain ⟨A, hA, hmem, -⟩ := (mem_planLanes hosts hd).mp hL
      have huA := (hmem u).mp hu
      have hudom := hplaced.mem_domains (fun _ h => h) hA huA
      obtain ⟨Z, hZ, huZ⟩ := hplaced.home u hudom (.inl hnone)
      have hAZ : A = Z := by
        obtain ⟨i, hi, rfl⟩ := List.getElem_of_mem hA
        obtain ⟨h0, rfl⟩ := List.getElem?_eq_some_iff.mp hZ
        have hdisjoint := (List.nodup_flatten.mp (hplaced.once.nodup_iff.mpr hd)).2
        by_contra hne
        have hi0 : 0 < i := by
          rcases Nat.eq_zero_or_pos i with rfl | hpos
          · exact absurd rfl hne
          · exact hpos
        exact List.pairwise_iff_getElem.mp hdisjoint 0 i h0 hi hi0 huZ huA
      rw [hmem, hAZ]
      by_cases hbhost : hosts b = []
      · obtain ⟨Z', hZ', hbZ⟩ := hplaced.home b hb (.inl hbhost)
        exact Option.some.inj (hZ'.symm.trans hZ) ▸ hbZ
      · obtain ⟨first, hfirst⟩ : ∃ first, domains.head? = some first := by
          cases domains with
          | nil => cases hb
          | cons first _ => exact ⟨first, rfl⟩
        obtain ⟨Z', hZ', hfirstZ⟩ := hplaced.home first (List.mem_of_mem_head? hfirst) (.inr hfirst)
        obtain rfl := Option.some.inj (hZ'.symm.trans hZ)
        refine (hchain first hfirst b hb hbhost).keeps (P := fun x => x ∈ Z') hfirstZ ?_
        rintro x hx y hy ⟨host, hxh, hyh⟩ hxZ
        have h0 := (hplaced.numbered host 0).mpr ⟨Z', hZ', x, hxZ, hxh⟩
        obtain ⟨B, hB, hyB⟩ := List.mem_flatten.mp (hplaced.once.mem_iff.mpr hy)
        obtain ⟨j, hj, rfl⟩ := List.getElem_of_mem hB
        have hjsome := (hplaced.numbered host j).mpr ⟨_, List.getElem?_eq_getElem hj, y, hyB, hyh⟩
        obtain rfl := Option.some.inj (h0.symm.trans hjsome)
        exact Option.some.inj ((List.getElem?_eq_getElem hj).symm.trans hZ') ▸ hyB

theorem rightLanes_of_unknown
    (hunknown : ∀ L ∈ planLanes hosts domains, ∀ a ∈ L, hosts a = [] → ∀ b ∈ domains, b ∈ L) :
    RightLanes hosts domains (planLanes hosts domains) where
  once := planLanes_once hosts hd
  filled L hL hnil := by
    obtain ⟨A, hA, hmem, -⟩ := (mem_planLanes hosts hd).mp hL
    obtain ⟨a, ha⟩ := List.exists_mem_of_ne_nil A ((placed_all hosts domains hd).filled A hA)
    exact absurd ((hmem a).mpr ha) (hnil ▸ List.not_mem_nil)
  apart := planLanes_apart hosts hd
  unknown := hunknown
  order L hL := by
    obtain ⟨A, -, -, rfl⟩ := (mem_planLanes hosts hd).mp hL
    exact List.filter_sublist
  asMany L hL a ha b hb := by
    apply (planLanes_linked hosts hd hL ha hb).mono
    rintro x - y - (hshare | ⟨hx, hy⟩)
    · exact .inl hshare
    · rcases hx with hx | hx
      · exact .inr (.inl hx)
      · rcases hy with hy | hy
        · exact .inr (.inr hy)
        · -- both are the first of all
          obtain rfl := Option.some.inj (hx.symm.trans hy)
          cases hh : hosts x with
          | nil => exact .inr (.inl rfl)
          | cons host _ =>
              have hhost : host ∈ hosts x := hh ▸ List.mem_cons_self
              exact .inl ⟨host, hhost, hhost⟩

end Right

/-- **The lanes are right exactly if every data type has a host that can be told, or all that have
one are linked with the first of all by hosts they share.** -/
theorem planDomainLanes_right_iff (urlHost : String → Option String) (config : MappingConfig)
    (domains : List DiscoveryDomain) (hd : domains.Nodup) :
    RightLanes (hostsOf urlHost config) domains (planDomainLanes urlHost config domains) ↔
      (∀ a ∈ domains, hostsOf urlHost config a ≠ []) ∨
        ∀ first, domains.head? = some first → ∀ a ∈ domains, hostsOf urlHost config a ≠ [] →
          Chain domains (Share (hostsOf urlHost config)) first a := by
  rw [← planLanes_unknown_iff (hostsOf urlHost config) hd]
  exact ⟨RightLanes.unknown, rightLanes_of_unknown _ hd⟩

/-- An endpoint that names its host. -/
def onHost (host : String) : Endpoint := ⟨none, none, some host⟩

/-- The calendar on one server, contacts on another, and the files nobody knows where. -/
def scattered : MappingConfig where
  source := some (onHost "imap.example.com")
  target := some (onHost "mail.example.com")
  domains
    | .calendar => some ⟨some (onHost "a.example"), some (onHost "a.example")⟩
    | .contact => some ⟨some (onHost "b.example"), some (onHost "b.example")⟩
    | .file => some ⟨some ⟨none, none, none⟩, some ⟨none, none, none⟩⟩
    | _ => none

theorem scattered_right :
    RightLanes (hostsOf (fun _ => none) scattered) [.calendar, .contact]
      (planDomainLanes (fun _ => none) scattered [.calendar, .contact]) :=
  (planDomainLanes_right_iff _ scattered _ (by decide)).mpr (.inl (by decide))

/-- The files run beside the contacts. -/
theorem scattered_files :
    ¬ RightLanes (hostsOf (fun _ => none) scattered) [.calendar, .contact, .file]
      (planDomainLanes (fun _ => none) scattered [.calendar, .contact, .file]) := by
  intro hright
  rcases (planLanes_unknown_iff (hostsOf (fun _ => none) scattered) (by decide)).mp hright.unknown
    with hall | hchain
  · exact hall .file (by decide) rfl
  · have hcontact := hchain .calendar rfl .contact (by decide) (by decide)
    have hstays : DiscoveryDomain.contact = .calendar := by
      refine hcontact.keeps (P := fun x => x = .calendar) rfl ?_
      rintro x - y - ⟨host, hx, hy⟩ rfl
      obtain rfl : host = "a.example" := by simpa [hostsOf, scattered, endpointHost, onHost] using hx
      cases y <;> revert hy <;> decide
    cases hstays

end Ownpace.Orchestration
