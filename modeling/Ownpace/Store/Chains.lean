/-
Ownpace/Store/Chains.lean

Chains through the members of a list, each touching the next.

Where touching goes both ways so does a chain (`Chain.symm`), and what touching
keeps holds along a whole chain (`Chain.keeps`).
-/
import Mathlib.Logic.Relation

namespace Store

variable {α : Type} {S S' : List α} {touch touch' : α → α → Prop} {P : α → Prop} {a b c : α}

/-- A chain from `a` to `b`. -/
def Chain (S : List α) (touch : α → α → Prop) : α → α → Prop :=
  Relation.ReflTransGen fun a b => a ∈ S ∧ b ∈ S ∧ touch a b

theorem Chain.refl (a : α) : Chain S touch a a := Relation.ReflTransGen.refl

theorem Chain.single (ha : a ∈ S) (hb : b ∈ S) (h : touch a b) : Chain S touch a b :=
  Relation.ReflTransGen.single ⟨ha, hb, h⟩

theorem Chain.trans (h : Chain S touch a b) (h' : Chain S touch b c) : Chain S touch a c :=
  Relation.ReflTransGen.trans h h'

theorem Chain.mono (h : Chain S touch a b)
    (htouch : ∀ a ∈ S, ∀ b ∈ S, touch a b → touch' a b) : Chain S touch' a b := by
  induction h with
  | refl => exact .refl a
  | tail _ hbc ih => exact ih.trans (.single hbc.1 hbc.2.1 (htouch _ hbc.1 _ hbc.2.1 hbc.2.2))

theorem Chain.symm (hsymm : ∀ a b, touch a b → touch b a) (h : Chain S touch a b) :
    Chain S touch b a := by
  induction h with
  | refl => exact .refl a
  | tail _ hbc ih => exact (Chain.single hbc.2.1 hbc.1 (hsymm _ _ hbc.2.2)).trans ih

/-- What touching keeps holds along a chain. -/
theorem Chain.keeps (h : Chain S touch a b) (ha : P a)
    (hP : ∀ a ∈ S, ∀ b ∈ S, touch a b → P a → P b) : P b := by
  induction h with
  | refl => exact ha
  | tail _ hbc ih => exact hP _ hbc.1 _ hbc.2.1 hbc.2.2 ih

end Store
