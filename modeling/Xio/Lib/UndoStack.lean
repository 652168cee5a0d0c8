import Mathlib

/-!
# UndoStack — traces that undo in reverse order

A trace of `push` and `pop` calls on a stack, each naming its element. Replaying it fails as soon
as a `pop` names anything but the element on top. A component that undoes its work in reverse
order has a trace that can always be replayed.

- `replay_append`: a trace is replayed piece by piece
- `replay_undo`: the top of the stack is taken off and something else is put there
-/

namespace Xio
namespace UndoStack

inductive Op (α : Type)
  | push (a : α)
  | pop (a : α)
  deriving DecidableEq

variable {α : Type} [DecidableEq α]

/-- One call; the head of the list is the top of the stack. -/
def apply : List α → Op α → Option (List α)
  | st, .push a => some (a :: st)
  | [], .pop _ => none
  | b :: st, .pop a => if b = a then some st else none

/-- `none` is a `pop` that did not find its element on top. -/
def replay (st : List α) (ops : List (Op α)) : Option (List α) := ops.foldlM apply st

@[simp] theorem replay_nil (st : List α) : replay st [] = some st := rfl

theorem replay_append {st st₁ st₂ : List α} {ops ops' : List (Op α)}
    (h : replay st ops = some st₁) (h' : replay st₁ ops' = some st₂) :
    replay st (ops ++ ops') = some st₂ := by
  unfold replay at *
  rwa [List.foldlM_append, h]

theorem replay_push (st xs : List α) : replay st (xs.map .push) = some (xs.reverse ++ st) := by
  induction xs generalizing st with
  | nil => rfl
  | cons x xs ih =>
    calc replay st ((x :: xs).map .push) = replay (x :: st) (xs.map .push) := rfl
      _ = some (xs.reverse ++ x :: st) := ih (x :: st)
      _ = some ((x :: xs).reverse ++ st) := by rw [List.reverse_cons, List.append_assoc]; rfl

theorem replay_pop (st xs : List α) : replay (xs ++ st) (xs.map .pop) = some st := by
  induction xs with
  | nil => rfl
  | cons x xs ih =>
    calc replay (x :: xs ++ st) ((x :: xs).map .pop)
        = (if x = x then some (xs ++ st) else none).bind (replay · (xs.map .pop)) := rfl
      _ = some st := by rw [if_pos rfl, Option.bind_some, ih]

/-- The newest part `old` of what is on the stack, undone in reverse, makes room for `new`. -/
theorem replay_undo (kept old new : List α) :
    replay (kept ++ old).reverse (old.reverse.map .pop ++ new.map .push) =
      some (kept ++ new).reverse := by
  rw [List.reverse_append, List.reverse_append]
  exact replay_append (replay_pop _ _) (replay_push _ _)

end UndoStack
end Xio
