import Mathlib

/-!
# OrderStatistic — the element at a position of a descending sort

A replicated index is committed by sorting the indices of all members in descending order and
reading one position. `le_getD_iff` says what such a read means as a count: the element at
position `k` is at least `y` exactly when more than `k` elements are.
-/

namespace OrderStatistic

open List

variable {α : Type*} [LinearOrder α] {l : List α}

theorem le_getElem_iff_of_pairwise (hl : l.Pairwise (· ≥ ·)) (y : α) (k : Nat)
    (hk : k < l.length) : y ≤ l[k] ↔ k < l.countP (fun x => decide (y ≤ x)) := by
  induction l generalizing k with
  | nil => exact absurd hk (Nat.not_lt_zero k)
  | cons a l ih =>
    rw [pairwise_cons] at hl
    by_cases hya : y ≤ a
    · have hcount : (a :: l).countP (fun x => decide (y ≤ x)) =
          l.countP (fun x => decide (y ≤ x)) + 1 := by
        simp [hya]
      cases k with
      | zero => simp [hya]
      | succ k =>
        rw [getElem_cons_succ, ih hl.2 k (Nat.lt_of_succ_lt_succ hk)]
        omega
    · -- `a` is the largest element, so nothing reaches `y`
      have hnone : ∀ x ∈ a :: l, ¬ y ≤ x := by
        intro x hx hyx
        rcases mem_cons.mp hx with rfl | hmem
        · exact hya hyx
        · exact hya (hyx.trans (hl.1 x hmem))
      have hcount : (a :: l).countP (fun x => decide (y ≤ x)) = 0 := by
        rw [countP_eq_zero]
        intro x hx
        simpa using hnone x hx
      rw [hcount]
      exact iff_of_false (hnone _ (getElem_mem hk)) (Nat.not_lt_zero k)

/-- The element at position `k` of the descending sort, as a count over the unsorted list. -/
theorem le_getD_iff {k : Nat} (hk : k < l.length) (y d : α) :
    y ≤ (l.insertionSort (· ≥ ·)).getD k d ↔ k < l.countP (fun x => decide (y ≤ x)) := by
  have hlen : k < (l.insertionSort (· ≥ ·)).length := by
    rwa [length_insertionSort]
  have hsorted : (l.insertionSort (· ≥ ·)).Pairwise (· ≥ ·) := pairwise_insertionSort _ l
  rw [← getElem_eq_getD (h := hlen) d, le_getElem_iff_of_pairwise hsorted y k hlen,
    (perm_insertionSort (· ≥ ·) l).countP_eq]

theorem lt_countP_getD {k : Nat} (hk : k < l.length) (d : α) :
    k < l.countP (fun x => decide ((l.insertionSort (· ≥ ·)).getD k d ≤ x)) :=
  (le_getD_iff hk _ d).mp le_rfl

theorem getD_mem {k : Nat} (hk : k < l.length) (d : α) :
    (l.insertionSort (· ≥ ·)).getD k d ∈ l := by
  have hlen : k < (l.insertionSort (· ≥ ·)).length := by
    rwa [length_insertionSort]
  rw [← getElem_eq_getD d, ← mem_insertionSort (· ≥ ·)]
  exact getElem_mem hlen

end OrderStatistic
