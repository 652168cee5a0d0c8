import Mathlib

/-!
# Progression — a counter that goes up one by one, or jumps

The moves of a counter: `next k` is a move to the successor, `jump n` one to any number that is
not below. What such a trace says about the numbers it visits is independent of what makes the
moves.

- `Follows.snoc`: a trace grows by one move
- `Follows.increasing`: no number is visited twice by `next`, and they are visited in order
-/

namespace Xio
namespace Progression

inductive Move
  | next (k : Nat)
  | jump (n : Nat)
  deriving DecidableEq, Repr

namespace Move

def target : Move → Nat
  | .next k => k
  | .jump n => n

def next? : Move → Option Nat
  | .next k => some k
  | .jump _ => none

end Move

def last : Nat → List Move → Nat
  | i, [] => i
  | _, m :: ms => last m.target ms

/-- The trace leaves no number out, except at a jump. -/
def Follows : Nat → List Move → Prop
  | _, [] => True
  | i, .next k :: ms => k = i + 1 ∧ Follows k ms
  | i, .jump n :: ms => i ≤ n ∧ Follows n ms

variable {i : Nat} {ms : List Move}

theorem last_snoc (i : Nat) (ms : List Move) (m : Move) : last i (ms ++ [m]) = m.target := by
  induction ms generalizing i with
  | nil => rfl
  | cons m' ms ih => exact ih m'.target

/-- What a move adds to a trace. -/
def Allowed (i : Nat) : Move → Prop
  | .next k => k = i + 1
  | .jump n => i ≤ n

theorem Follows.snoc (h : Follows i ms) {m : Move} (hm : Allowed (last i ms) m) :
    Follows i (ms ++ [m]) := by
  induction ms generalizing i with
  | nil =>
    cases m with
    | next k => exact ⟨hm, trivial⟩
    | jump n => exact ⟨hm, trivial⟩
  | cons m' ms ih =>
    cases m' with
    | next k => exact ⟨h.1, ih h.2 hm⟩
    | jump n => exact ⟨h.1, ih h.2 hm⟩

theorem Follows.lt_of_mem (h : Follows i ms) : ∀ k ∈ ms.filterMap Move.next?, i < k := by
  induction ms generalizing i with
  | nil => exact fun k hk => absurd hk List.not_mem_nil
  | cons m ms ih =>
    intro k hk
    cases m with
    | next k' =>
      obtain ⟨rfl, hrest⟩ := h
      rcases List.mem_cons.mp hk with rfl | hk'
      · exact Nat.lt_succ_self i
      · exact Nat.lt_of_succ_lt (ih hrest k hk')
    | jump n => exact Nat.lt_of_le_of_lt h.1 (ih h.2 k hk)

theorem Follows.increasing (h : Follows i ms) : (ms.filterMap Move.next?).Pairwise (· < ·) := by
  induction ms generalizing i with
  | nil => exact List.Pairwise.nil
  | cons m ms ih =>
    cases m with
    | next k => exact List.pairwise_cons.mpr ⟨h.2.lt_of_mem, ih h.2⟩
    | jump n => exact ih h.2

end Progression
end Xio
