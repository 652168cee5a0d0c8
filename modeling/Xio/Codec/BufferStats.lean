import Xio.Codec.Buffer
import Xio.Lib.KeyedList

/-!
# Codec.BufferStats — the counters of active buffers

`buffer::alloc` adds the bytes of a container to `amount_active_buffers`, and `free_buffer` takes
away what `container_size` says. Both are in balance as long as no big block is released: the macro
`__size_of_block` is not in parentheses, so its second branch takes the summand of the header in,
and a big block is released without it. Both counters exist only in a build with
`ENABLE_RAFT_STATS`.
-/

namespace Xio
namespace Codec
namespace Buffer

open List Option

/-- `container_size`: the sum stands in the second branch of the macro's conditional. -/
def containerSize (b : Buffer) : Nat :=
  if b.isBig then (b.head ^^^ bigFlag).toNat
  else (b.head.extractLsb' 0 16).toNat + (if b.isBig then 4 * 2 else 2 * 2)

/-- The `len` of `alloc` for data of `size` bytes. -/
def containerLen (size : Nat) : Nat := if size ≥ 0x8000 then size + 4 * 2 else size + 2 * 2

/-- A live buffer, with the bytes that were counted for it. -/
structure Live where
  buf : Buffer
  counted : Nat

/-- The live buffers and the two statistics, which are counters of 64 bits. -/
structure Stats where
  heap : Heap
  live : List Live
  numActive : UInt64
  amountActive : UInt64

/-- A buffer is allocated, used through one of its calls, or released by `free_buffer`. -/
inductive Stats.Action
  | alloc (size : Nat)
  | call (i : Nat) (c : Call)
  | release (i : Nat)

namespace Stats

def init (heap : Heap) : Stats := ⟨heap, [], 0, 0⟩

def step (x : Stats) : Action → Option Stats
  | .alloc size =>
    match Buffer.alloc size x.heap with
    | none => some x
    | some (buf, heap) => some
        { heap
          live := ⟨buf, containerLen size⟩ :: x.live
          numActive := x.numActive + 1
          amountActive := x.amountActive + UInt64.ofNat (containerLen size) }
  | .call i c => x.live[i]?.bind fun l =>
      if l.buf.Fits c then some { x with live := x.live.set i { l with buf := (l.buf.call c).buf } }
      else none
  | .release i => x.live[i]?.map fun l =>
      { x with
        live := x.live.eraseIdx i
        numActive := x.numActive - 1
        amountActive := x.amountActive - UInt64.ofNat l.buf.containerSize }

structure Balanced (x : Stats) : Prop where
  num : x.numActive = UInt64.ofNat x.live.length
  amount : x.amountActive = UInt64.ofNat (x.live.map Live.counted).sum

def ReleasesSmall (x : Stats) : Action → Prop
  | .release i => ∀ l ∈ x.live[i]?, l.buf.size < 0x8000
  | _ => True

instance (x : Stats) : (a : Action) → Decidable (x.ReleasesSmall a)
  | .release _ => inferInstanceAs (Decidable (∀ _ ∈ _, _))
  | .alloc _ | .call _ _ => isTrue trivial

/-- A block is what it was allocated as, and so was counted. -/
def Sound (x : Stats) : Prop :=
  ∀ l ∈ x.live, ∃ n < 0x80000000, Block n l.buf ∧ l.counted = containerLen n

theorem containerSize_small {n : Nat} {b : Buffer} (h : Block n b) (hn : n < 0x8000) :
    b.containerSize = containerLen n := by
  have hk := h.keeps (by omega)
  have hbig : b.isBig = false := by simp [hk.kind, hn]
  have hsize := hk.size
  simp only [Buffer.size, hbig, Bool.false_eq_true, if_false] at hsize
  simp [containerSize, containerLen, hbig, hsize, Nat.not_le.mpr hn]

theorem step_sound {x y : Stats} {a : Action} (hx : x.Sound) (h : x.step a = some y) :
    y.Sound := by
  cases a with
  | alloc size =>
    by_cases hsize : size < 0x80000000
    · obtain ⟨data, hdata, heap', halloc⟩ := alloc_eq_pack hsize x.heap
      simp only [step, halloc, some.injEq] at h
      subst h
      intro l hl
      rcases mem_cons.mp hl with rfl | hl
      · exact ⟨size, hsize, ⟨data, 0, hdata, Nat.zero_le _, rfl⟩, rfl⟩
      · exact hx l hl
    · simp only [step, alloc_throws hsize x.heap, some.injEq] at h
      exact h ▸ hx
  | call i c =>
    obtain ⟨l, hl, h⟩ := bind_eq_some_iff.mp h
    split at h
    next hfits =>
      cases h
      obtain ⟨n, hn, hb, hc⟩ := hx l (mem_of_getElem? hl)
      intro l' hl'
      rcases mem_or_eq_of_mem_set hl' with hl' | rfl
      · exact hx l' hl'
      · exact ⟨n, hn, (call_sound hb hn hfits).block, hc⟩
    next => cases h
  | release i =>
    obtain ⟨l, -, rfl⟩ := map_eq_some_iff.mp h
    exact fun l' hl' => hx l' (mem_of_mem_eraseIdx hl')

theorem step_balanced {x y : Stats} {a : Action} (hx : x.Sound) (hbal : x.Balanced)
    (ha : x.ReleasesSmall a) (h : x.step a = some y) : y.Balanced := by
  cases a with
  | alloc size =>
    simp only [step] at h
    split at h
    · cases h
      exact hbal
    · cases h
      exact ⟨by simp [hbal.num], by simp [hbal.amount, UInt64.add_comm]⟩
  | call i c =>
    obtain ⟨l, hl, h⟩ := bind_eq_some_iff.mp h
    split at h
    · cases h
      have hset : (x.live.set i { l with buf := (l.buf.call c).buf }).map Live.counted =
          x.live.map Live.counted := KeyedList.map_set_of_eq hl rfl
      exact ⟨by simpa using hbal.num, by rw [hset]; exact hbal.amount⟩
    · cases h
  | release i =>
    obtain ⟨l, hl, rfl⟩ := map_eq_some_iff.mp h
    obtain ⟨n, hn, hb, hc⟩ := hx l (mem_of_getElem? hl)
    have hsmall : n < 0x8000 := (hb.keeps hn).size ▸ ha l hl
    obtain ⟨hi, rfl⟩ := List.getElem?_eq_some_iff.mp hl
    -- The buffers that are left, and this one, are those of before.
    have hperm := (getElem_cons_eraseIdx_perm hi)
    have hlen := hperm.length_eq
    have hsum := (hperm.map Live.counted).sum_eq
    simp only [length_cons, map_cons, sum_cons] at hlen hsum
    refine ⟨?_, ?_⟩
    · rw [hbal.num, ← hlen, UInt64.ofNat_add]
      exact UInt64.add_sub_cancel ..
    · rw [hbal.amount, ← hsum, containerSize_small hb hsmall, hc, UInt64.ofNat_add,
        UInt64.add_comm]
      exact UInt64.add_sub_cancel ..

/-- After any sequence of allocations, calls and releases, the statistics count the live buffers
and the bytes of their containers, provided that the released ones are small. -/
theorem balanced_of_small {heap : Heap} {as : List Action} {x : Stats}
    (hsmall : Runs.AllSteps step ReleasesSmall (init heap) as)
    (hrun : Runs.run step (init heap) as = some x) : x.Balanced :=
  (Runs.invariant_of_allSteps (I := fun x => x.Sound ∧ x.Balanced)
    (fun _ _ _ hx ha h => ⟨step_sound hx.1 h, step_balanced hx.1 hx.2 ha h⟩)
    ⟨nofun, rfl, rfl⟩ hsmall hrun).2

/-- A big block and a small one are allocated, and the small one is used and released. -/
theorem balanced_of_small_run : ∃ x, Runs.run step (init fun _ _ => 7)
      [.alloc 0x8000, .alloc 6, .call 0 (.put (.int 5)), .release 0] = some x ∧ x.Balanced ∧
        x.amountActive = 0x8008 := by
  have hsmall : Runs.AllSteps step ReleasesSmall (init fun _ _ => 7)
      [.alloc 0x8000, .alloc 6, .call 0 (.put (.int 5)), .release 0] := by decide +kernel
  have hrun : (Runs.run step (init fun _ _ => 7)
      [.alloc 0x8000, .alloc 6, .call 0 (.put (.int 5)), .release 0]).map amountActive =
        some 0x8008 := by decide +kernel
  obtain ⟨x, hx, hamount⟩ := map_eq_some_iff.mp hrun
  exact ⟨x, hx, balanced_of_small hsmall hx, hamount⟩

/-- The header of a released big block stays in the amount. -/
theorem big_release_drifts : (Runs.run step (init fun _ _ => 7) [.alloc 0x8000, .release 0]).map
      (fun x => (x.live.length, x.numActive, x.amountActive)) = some (0, 0, 8) := by
  decide +kernel

end Stats
end Buffer
end Codec
end Xio
