import Mathlib

/-!
# Majority — more than half of a finite set of members

Any two majorities share a member. That is the only fact about quorums that agreement protocols
use. It holds for majorities of two different sets, too, as long as at most one member is in only one
of them (`Near`).
-/

variable {S : Type*}

/-- The members of `A` are more than half of `M`. -/
structure Majority (M A : Finset S) : Prop where
  subset : A ⊆ M
  card : M.card < 2 * A.card

namespace Majority

variable {M A B : Finset S}

theorem nonempty (hA : Majority M A) : A.Nonempty := by
  have := hA.card
  exact Finset.card_pos.mp (by omega)

theorem exists_common [DecidableEq S] (hA : Majority M A) (hB : Majority M B) : ∃ v, v ∈ A ∧ v ∈ B := by
  have hcard : M.card < A.card + B.card := by
    have := hA.card
    have := hB.card
    omega
  obtain ⟨v, hv⟩ := Finset.inter_nonempty_of_card_lt_card_add_card hA.subset hB.subset hcard
  exact ⟨v, Finset.mem_inter.mp hv⟩

end Majority

/-! ## Sets that differ by one member -/

variable [DecidableEq S] {M N A B : Finset S}

/-- At most one member is in only one of the sets. -/
def Near (M N : Finset S) : Prop := (symmDiff M N).card ≤ 1

instance (M N : Finset S) : Decidable (Near M N) := inferInstanceAs (Decidable (_ ≤ 1))

theorem Near.refl (M : Finset S) : Near M M := by simp [Near]

theorem Near.symm (h : Near M N) : Near N M := by
  unfold Near at h ⊢
  rwa [symmDiff_comm]

/-- Twice the union is both sets and what they do not share, so it has no room for two majorities
that are disjoint. -/
theorem Near.exists_common (h : Near M N) (hA : Majority M A) (hB : Majority N B) :
    ∃ v, v ∈ A ∧ v ∈ B := by
  have hunion : 2 * (M ∪ N).card = M.card + N.card + (symmDiff M N).card := by
    have hcard := Finset.card_union_add_card_inter M N
    have hsymm : (symmDiff M N).card = (M \ N).card + (N \ M).card :=
      Finset.card_union_of_disjoint disjoint_sdiff_sdiff
    have hM := Finset.card_sdiff_add_card_inter M N
    have hN := Finset.card_sdiff_add_card_inter N M
    rw [Finset.inter_comm] at hN
    omega
  have hroom : (M ∪ N).card < A.card + B.card := by
    have := hA.card
    have := hB.card
    unfold Near at h
    omega
  rcases Finset.inter_nonempty_of_card_lt_card_add_card
    (hA.subset.trans Finset.subset_union_left) (hB.subset.trans Finset.subset_union_right) hroom
    with ⟨v, hv⟩
  exact ⟨v, Finset.mem_inter.mp hv⟩
