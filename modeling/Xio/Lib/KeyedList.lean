import Mathlib

/-!
# KeyedList — lists with at most one element for a key

A work list that accepts no second element with the key of one that it has. A worker copies the
list, and when it is done it takes the copied elements out and puts some of them back at the end.
Both operations keep the keys apart, as long as the copied elements are still there.
-/

namespace KeyedList

open List

variable {α κ : Type*} {key : α → κ} {l copied back : List α} {a : α}

/-- No two positions of the list have the same key. -/
def UniqueKeys (key : α → κ) (l : List α) : Prop := (l.map key).Nodup

theorem UniqueKeys.nil (key : α → κ) : UniqueKeys key [] := nodup_nil

theorem UniqueKeys.nodup (h : UniqueKeys key l) : l.Nodup := Nodup.of_map key h

theorem UniqueKeys.eq_of_key (h : UniqueKeys key l) {x y : α} (hx : x ∈ l) (hy : y ∈ l)
    (hkey : key x = key y) : x = y := inj_on_of_nodup_map h hx hy hkey

theorem UniqueKeys.sublist (h : UniqueKeys key l) {l' : List α} (hsub : l'.Sublist l) :
    UniqueKeys key l' := Nodup.sublist (hsub.map key) h

theorem UniqueKeys.concat (h : UniqueKeys key l) (hnew : ∀ x ∈ l, key x ≠ key a) :
    UniqueKeys key (l ++ [a]) := by
  rw [UniqueKeys, map_append, map_singleton]
  refine Nodup.append h (nodup_singleton _) ?_
  intro k hk hka
  obtain ⟨x, hx, rfl⟩ := mem_map.mp hk
  exact hnew x hx (mem_singleton.mp hka)

theorem map_set_of_eq {f : α → κ} {i : Nat} {b : α} (h : l[i]? = some a) (hf : f b = f a) :
    (l.set i b).map f = l.map f := by
  obtain ⟨hi, rfl⟩ := List.getElem?_eq_some_iff.mp h
  have hself := set_getElem_self (by simpa using hi : i < (l.map f).length)
  rwa [getElem_map, ← hf, ← map_set] at hself

section Return

variable [DecidableEq α]

/-- Takes elements out, one occurrence each, and puts others at the end. -/
def giveBack (l copied back : List α) : List α := copied.foldl List.erase l ++ back

theorem mem_giveBack_of_mem (h : a ∈ back) : a ∈ giveBack l copied back :=
  mem_append_right _ h

/-- The keys stay apart, since what is put back was taken out before. -/
theorem UniqueKeys.giveBack (h : UniqueKeys key l) (hcopied : ∀ x ∈ copied, x ∈ l)
    (hback : back.Sublist copied) (hnodup : copied.Nodup) :
    UniqueKeys key (giveBack l copied back) := by
  have hdiff : copied.foldl List.erase l = l.diff copied := (List.diff_eq_foldl l copied).symm
  rw [KeyedList.giveBack, hdiff]
  have hsub : ∀ x ∈ l.diff copied ++ back, x ∈ l := by
    intro x hx
    rcases mem_append.mp hx with hx | hx
    · exact (diff_sublist l copied).subset hx
    · exact hcopied x (hback.subset hx)
  have hapart : (l.diff copied ++ back).Nodup := by
    refine Nodup.append (h.nodup.diff) (hnodup.sublist hback) ?_
    intro x hx hxback
    exact (h.nodup.mem_sdiff_iff.mp hx).2 (hback.subset hxback)
  refine Nodup.map_on ?_ hapart
  intro x hx y hy hkey
  exact h.eq_of_key (hsub x hx) (hsub y hy) hkey

end Return

end KeyedList
