import Mathlib

/-!
# Conservation — every object handed out is in one place

A system hands out numbered objects, `0`, `1`, `2` and so on, and moves them between places: queues,
tables, the hands of a thread, the list of the finished ones. `Conserved held n` says that the
places, one after the other, hold each of the first `n` numbers once. Steps only permute the list,
so no object is lost and none is duplicated.
-/

namespace Conservation

open List

variable {held held' a b : List Nat} {n i : Nat}

def Conserved (held : List Nat) (n : Nat) : Prop := held.Perm (List.range n)

theorem conserved_nil : Conserved [] 0 := Perm.refl _

namespace Conserved

theorem issue (h : Conserved held n) (hp : held'.Perm (n :: held)) : Conserved held' (n + 1) := by
  have hrange : (n :: range n).Perm (range (n + 1)) := by
    rw [range_succ]
    exact (perm_append_singleton n (range n)).symm
  exact hp.trans ((Perm.cons n h).trans hrange)

theorem move (h : Conserved held n) (hp : held'.Perm held) : Conserved held' n := hp.trans h

theorem finish {x : Nat} {rest rest' : List Nat} (h : Conserved (a ++ rest) n)
    (hp : (x :: rest').Perm rest) : Conserved ((a ++ [x]) ++ rest') n := by
  apply h.move
  calc (a ++ [x]) ++ rest'
      _ = a ++ (x :: rest') := append_cons a x rest' |>.symm
      Perm _ (a ++ rest) := hp.append_left a

theorem mem_iff (h : Conserved held n) : i ∈ held ↔ i < n :=
  (Perm.mem_iff h).trans mem_range

theorem nodup (h : Conserved held n) : held.Nodup := h.nodup_iff.mpr nodup_range

theorem nodup_left (h : Conserved (a ++ b) n) : a.Nodup :=
  h.nodup.sublist (sublist_append_left a b)

/-- With the other places empty, everything handed out is in this one, once. -/
theorem count_eq_one (h : Conserved held n) (hi : i < n) : held.count i = 1 :=
  count_eq_one_of_mem h.nodup (h.mem_iff.mpr hi)

end Conserved
end Conservation
