import Mathlib.Data.List.Basic

namespace Cscrypto.Data

/-! # Streams in segments

A receiver gets a stream in segments, each of which brings something.  What it
makes of the stream should not depend on where it was cut.
-/

structure Splits (stream : List α) (segments : List (List α)) : Prop where
  joined : segments.flatten = stream
  nonempty : ∀ segment ∈ segments, segment ≠ []

theorem Splits.one {stream : List α} (nonempty : stream ≠ []) : Splits stream [stream] := by
  refine ⟨List.flatten_singleton, ?_⟩
  intro segment member
  rw [List.mem_singleton.mp member]
  exact nonempty

theorem Splits.append {front back : List α} {left right : List (List α)}
    (frontSplits : Splits front left) (backSplits : Splits back right) :
    Splits (front ++ back) (left ++ right) := by
  refine ⟨by rw [List.flatten_append, frontSplits.joined, backSplits.joined], ?_⟩
  intro segment member
  rcases List.mem_append.mp member with inside | inside
  · exact frontSplits.nonempty segment inside
  · exact backSplits.nonempty segment inside

/-- The first segment brings the head of the stream. -/
theorem Splits.cons {head : α} {tail : List α} {segments : List (List α)}
    (splits : Splits (head :: tail) segments) :
    ∃ first rest, segments = (head :: first) :: rest ∧ first ++ rest.flatten = tail := by
  cases segments with
  | nil => cases splits.joined
  | cons segment rest =>
      cases segment with
      | nil => exact absurd rfl (splits.nonempty [] List.mem_cons_self)
      | cons first others =>
          obtain ⟨rfl, joined⟩ := List.cons.inj splits.joined
          exact ⟨others, rest, rfl, joined⟩

end Cscrypto.Data
