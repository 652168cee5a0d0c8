import Xio.Lib.ByteCodec

/-!
# CursorScan — readers that move a cursor over a buffer

A reader of `ByteCodec` takes its value from the front of the bytes that are left. A reader of a
program keeps an offset into the whole buffer instead, and what it reads is memory at some offset,
inside the buffer or not. `Follows` says that the second kind does what the first does and stays
inside.

- `Valid`: the offset is in the buffer, and so is everything that was read so far
- `Follows.bind_of`, `Follows.map`, `Follows.ite`: sequences and branches of readers
- `Follows.throw`: an error where the reader fails
- `Follows.need`: a test for the number of bytes that are left, in front of a reader that fails
  without them
-/

namespace Xio
namespace CursorScan

open ByteCodec

/-- An offset, and what was read so far, as offsets and lengths. -/
structure Cursor where
  pos : Nat
  reads : List (Nat × Nat)

/-- The parts that were read stay known when a computation ends with an error. -/
abbrev Scan (ε : Type) := ExceptT ε (StateM Cursor)

variable {ε α β : Type}

theorem scan_bind (m : Scan ε α) (f : α → Scan ε β) (c : Cursor) : (m >>= f) c = match m c with
      | (.ok a, c) => f a c
      | (.error e, c) => (.error e, c) := by
  change ExceptT.bindCont f (m c).1 (m c).2 = _
  rcases m c with ⟨_ | a, c'⟩ <;> rfl

theorem scan_get (c : Cursor) : (get : Scan ε Cursor) c = (.ok c, c) := rfl

theorem scan_pure (a : α) (c : Cursor) : (pure a : Scan ε α) c = (.ok a, c) := rfl

def load (buf : List UInt8) (off len : Nat) : Scan ε (List UInt8) :=
  fun c => (.ok ((buf.drop off).take len), { c with reads := (off, len) :: c.reads })

/-- An error, unless so many bytes are left. -/
def need (buf : List UInt8) (n : Nat) (e : ε) : Scan ε Unit :=
  fun c => if buf.length - c.pos < n then (.error e, c) else (.ok (), c)

/-- The offset is in the buffer, and so is everything that was read. -/
structure Valid (buf : List UInt8) (c : Cursor) : Prop where
  pos : c.pos ≤ buf.length
  reads : ∀ r ∈ c.reads, r.1 + r.2 ≤ buf.length

/-- `m` does with the cursor what `r` does with the bytes behind it. -/
structure Follows (buf : List UInt8) (m : Scan ε α) (r : Reader α) : Prop where
  valid : ∀ c, Valid buf c → Valid buf (m c).2
  result : ∀ c, Valid buf c →
    (m c).1.toOption.map (fun a => (a, buf.drop (m c).2.pos)) = r (buf.drop c.pos)

namespace Follows

variable {buf : List UInt8} {m : Scan ε α} {r : Reader α}

theorem pure (a : α) : Follows (ε := ε) buf (Pure.pure a) (Pure.pure a) :=
  ⟨fun _ => id, fun _ _ => rfl⟩

theorem bind_of (h : Follows buf m r) {f : α → Scan ε β} {g : α → Reader β}
    (hf : ∀ a bs rest, r bs = some (a, rest) → Follows buf (f a) (g a)) :
    Follows buf (m >>= f) (r >>= g) := by
  refine ⟨fun c hc => ?_, fun c hc => ?_⟩
  · have hvalid := h.valid c hc
    have hresult := h.result c hc
    rw [scan_bind]
    rcases hm : m c with ⟨_ | a, c'⟩
    · rwa [hm] at hvalid
    · rw [hm] at hvalid hresult
      exact (hf a _ _ hresult.symm).valid c' hvalid
  · have hvalid := h.valid c hc
    have hresult := h.result c hc
    rw [scan_bind, ByteCodec.bind_apply, ← hresult]
    rcases hm : m c with ⟨_ | a, c'⟩
    · rfl
    · rw [hm] at hvalid hresult
      exact (hf a _ _ hresult.symm).result c' hvalid

theorem bind (h : Follows buf m r) {f : α → Scan ε β} {g : α → Reader β}
    (hf : ∀ a, Follows buf (f a) (g a)) : Follows buf (m >>= f) (r >>= g) :=
  h.bind_of fun a _ _ _ => hf a

theorem map (h : Follows buf m r) (f : α → β) : Follows buf (f <$> m) (f <$> r) := by
  exact h.bind fun a => Follows.pure (f a)

theorem ite {m' : Scan ε α} {r' : Reader α} {b : Bool} (h : Follows buf m r)
    (h' : Follows buf m' r') : Follows buf (if b then m else m') (if b then r else r') := by
  cases b
  · exact h'
  · exact h

theorem throw (e : ε) (hr : ∀ bs, bs.length ≤ buf.length → r bs = none) :
    Follows buf (MonadExcept.throw e : Scan ε α) r := by
  refine ⟨fun _ => id, fun c _ => ?_⟩
  rw [hr _ (by rw [List.length_drop]; exact Nat.sub_le _ _)]
  rfl

/-- Without so many bytes the reader fails anyway. -/
theorem need {n : Nat} {e : ε} (hr : ∀ bs, bs.length < n → r bs = none) (h : Follows buf m r) :
    Follows buf (CursorScan.need buf n e >>= fun _ => m) r := by
  refine ⟨fun c hc => ?_, fun c hc => ?_⟩
  · rw [scan_bind, CursorScan.need]
    by_cases hleft : buf.length - c.pos < n
    · rwa [if_pos hleft]
    · rw [if_neg hleft]
      exact h.valid c hc
  · rw [scan_bind, CursorScan.need]
    by_cases hleft : buf.length - c.pos < n
    · rw [if_pos hleft, hr _ (by rwa [List.length_drop])]
      rfl
    · rw [if_neg hleft]
      exact h.result c hc

end Follows

end CursorScan
end Xio
