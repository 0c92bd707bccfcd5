import Mathlib.Data.List.Perm.Basic

namespace Cscrypto.Data

/-! # Stacks

What is put on a stack and what is taken off it come in orders of their own.
Over any history nothing is lost and nothing is taken off twice.
-/

variable {Item : Type*} {pushed popped stack : List Item}

/-- What was pushed, what was popped, and what is still there, the newest first. -/
inductive Stacked : List Item → List Item → List Item → Prop
  | empty : Stacked [] [] []
  | push (item : Item) {pushed popped stack : List Item} (before : Stacked pushed popped stack) :
      Stacked (pushed ++ [item]) popped (item :: stack)
  | pop {item : Item} {pushed popped stack : List Item}
      (before : Stacked pushed popped (item :: stack)) : Stacked pushed (popped ++ [item]) stack

namespace Stacked

theorem pushes (before : Stacked pushed popped stack) (items : List Item) :
    Stacked (pushed ++ items) popped (items.reverse ++ stack) := by
  induction items generalizing pushed stack with
  | nil =>
      rw [List.append_nil]
      exact before
  | cons item rest ih =>
      have later := ih (before.push item)
      rw [List.reverse_cons, List.append_assoc]
      rwa [List.append_assoc] at later

theorem perm (stacked : Stacked pushed popped stack) : (popped ++ stack).Perm pushed := by
  induction stacked with
  | empty => exact .refl []
  | push item before ih =>
      exact List.perm_middle.trans ((ih.cons item).trans (List.perm_append_singleton item _).symm)
  | pop before ih =>
      rw [List.append_assoc, List.singleton_append]
      exact ih

theorem mem_of_popped (stacked : Stacked pushed popped stack) {item : Item}
    (member : item ∈ popped) : item ∈ pushed :=
  stacked.perm.mem_iff.mp (List.mem_append_left _ member)

end Stacked

end Cscrypto.Data
