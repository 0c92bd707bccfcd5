import Mathlib.Data.List.Forall2
import Mathlib.Tactic.Ring

namespace Cscrypto.Data

/-! # Reading a sequence block by block

A reader that fills a buffer of `size` elements until a read comes back short
cuts its input into pieces: full ones, then one short piece, which is empty
when the input ends on a block boundary.  `Blocked` is that shape.  It is
unique for the input, and it survives any change of the pieces that adds the
same amount to every length.
-/

inductive Blocked (size : Nat) : List (List α) → Prop where
  | last (short : piece.length < size) : Blocked size [piece]
  | cons (full : piece.length = size) (rest : Blocked size pieces) : Blocked size (piece :: pieces)

theorem Blocked.ne_nil {pieces : List (List α)} (blocked : Blocked size pieces) : pieces ≠ [] := by
  cases blocked <;> simp

/-- The pieces a reader with a buffer of `size` elements gets. -/
def blocks (size : Nat) (values : List α) : List (List α) :=
  (List.range (values.length / size + 1)).map (fun index => (values.drop (size * index)).take size)

theorem blocks_short {values : List α} (short : values.length < size) :
    blocks size values = [values] := by
  simp [blocks, Nat.div_eq_of_lt short, List.take_of_length_le short.le]

theorem blocks_full {values : List α} (positive : 0 < size) (full : size ≤ values.length) :
    blocks size values = values.take size :: blocks size (values.drop size) := by
  have quotient : values.length / size = (values.length - size) / size + 1 := by
    rw [← Nat.add_div_right _ positive, Nat.sub_add_cancel full]
  rw [blocks, blocks, List.length_drop, quotient, List.range_succ_eq_map, List.map_cons,
    List.map_map]
  simp only [Nat.mul_zero, List.drop_zero, List.cons.injEq, true_and]
  apply List.map_congr_left
  intro index _
  rw [Function.comp_apply, List.drop_drop, Nat.succ_eq_add_one, Nat.mul_add, Nat.mul_one,
    Nat.add_comm]

theorem blocks_blocked (positive : 0 < size) (values : List α) :
    Blocked size (blocks size values) := by
  induction length : values.length using Nat.strong_induction_on generalizing values with
  | _ count ih =>
      by_cases short : values.length < size
      · rw [blocks_short short]
        exact .last short
      · rw [blocks_full positive (Nat.not_lt.mp short)]
        refine .cons (List.length_take_of_le (Nat.not_lt.mp short)) ?_
        exact ih (values.drop size).length (by rw [List.length_drop]; omega) _ rfl

theorem blocks_flatten (positive : 0 < size) (values : List α) :
    (blocks size values).flatten = values := by
  induction length : values.length using Nat.strong_induction_on generalizing values with
  | _ count ih =>
      by_cases short : values.length < size
      · rw [blocks_short short, List.flatten_singleton]
      · rw [blocks_full positive (Nat.not_lt.mp short), List.flatten_cons,
          ih (values.drop size).length (by rw [List.length_drop]; omega) _ rfl,
          List.take_append_drop]

theorem blocks_length (size : Nat) (values : List α) :
    (blocks size values).length = values.length / size + 1 := by
  simp [blocks]

theorem Blocked.unique {left right : List (List α)} (leftBlocked : Blocked size left)
    (rightBlocked : Blocked size right) (same : left.flatten = right.flatten) : left = right := by
  induction leftBlocked generalizing right with
  | last short =>
      cases rightBlocked with
      | last _ => simpa using same
      | cons full _ =>
          have lengths := congrArg List.length same
          simp only [List.flatten_cons, List.flatten_nil, List.append_nil,
            List.length_append] at lengths
          omega
  | cons full _ ih =>
      cases rightBlocked with
      | last short =>
          have lengths := congrArg List.length same
          simp only [List.flatten_cons, List.flatten_nil, List.append_nil,
            List.length_append] at lengths
          omega
      | cons otherFull rest =>
          rw [List.flatten_cons, List.flatten_cons] at same
          obtain ⟨head, tail⟩ := List.append_inj same (full.trans otherFull.symm)
          rw [head, ih rest tail]

theorem Blocked.eq_blocks {pieces : List (List α)} (blocked : Blocked size pieces)
    (positive : 0 < size) : pieces = blocks size pieces.flatten :=
  blocked.unique (blocks_blocked positive _) (blocks_flatten positive _).symm

/-- A cut sequence that stops early does not end in a short piece. -/
theorem Blocked.eq_of_prefix {left right : List (List α)} (leftBlocked : Blocked size left)
    (rightBlocked : Blocked size right) (front : left <+: right) : left = right := by
  induction leftBlocked generalizing right with
  | last short =>
      cases rightBlocked with
      | last _ => simpa using front
      | cons full _ =>
          obtain ⟨rfl, _⟩ := List.cons_prefix_cons.mp front
          omega
  | cons full leftRest ih =>
      cases rightBlocked with
      | last short =>
          obtain ⟨rfl, _⟩ := List.cons_prefix_cons.mp front
          omega
      | cons _ rightRest =>
          obtain ⟨rfl, tail⟩ := List.cons_prefix_cons.mp front
          rw [ih rightRest tail]

/-- The last piece is the short one. -/
theorem Blocked.split {front back : List (List α)} {piece : List α}
    (blocked : Blocked size (front ++ piece :: back)) :
    (back = [] ∧ piece.length < size) ∨ (back ≠ [] ∧ piece.length = size) := by
  induction front with
  | nil =>
      cases blocked with
      | last short => exact .inl ⟨rfl, short⟩
      | cons full rest => exact .inr ⟨rest.ne_nil, full⟩
  | cons first front ih =>
      generalize pieces : front ++ piece :: back = rest at ih
      rw [List.cons_append, pieces] at blocked
      cases blocked with
      | last _ => simp at pieces
      | cons _ rest => exact ih rest

/-- What a read finds behind the pieces in front. -/
theorem Blocked.read {front back : List (List α)} {piece values : List α}
    (blocked : Blocked size (front ++ piece :: back))
    (whole : (front ++ piece :: back).flatten = values) :
    (values.drop front.flatten.length).take size = piece ∧
      decide ((values.drop front.flatten.length).length < size) = back.isEmpty := by
  have rest : values.drop front.flatten.length = piece ++ back.flatten := by
    rw [← whole, List.flatten_append, List.drop_left, List.flatten_cons]
  rw [rest]
  rcases blocked.split with ⟨rfl, short⟩ | ⟨more, full⟩
  · rw [List.flatten_nil, List.append_nil, List.take_of_length_le (Nat.le_of_lt short)]
    exact ⟨rfl, decide_eq_true short⟩
  · rw [← full, List.take_left, List.isEmpty_eq_false_iff.mpr more, List.length_append]
    exact ⟨rfl, decide_eq_false (Nat.not_lt.mpr (Nat.le_add_right _ _))⟩

theorem Blocked.forall₂_iff {pieces : List (List α)} {others : List (List β)}
    (longer : List.Forall₂ (fun piece other => other.length = piece.length + extra) pieces others) :
    Blocked (size + extra) others ↔ Blocked size pieces := by
  constructor
  · intro blocked
    induction blocked generalizing pieces with
    | last short =>
        obtain ⟨piece, rest, length, tail, rfl⟩ := List.forall₂_cons_right_iff.mp longer
        cases tail
        exact .last (by omega)
    | cons full _ ih =>
        obtain ⟨piece, rest, length, tail, rfl⟩ := List.forall₂_cons_right_iff.mp longer
        exact .cons (by omega) (ih tail)
  · intro blocked
    induction blocked generalizing others with
    | last short =>
        obtain ⟨other, rest, length, tail, rfl⟩ := List.forall₂_cons_left_iff.mp longer
        cases tail
        exact .last (by omega)
    | cons full _ ih =>
        obtain ⟨other, rest, length, tail, rfl⟩ := List.forall₂_cons_left_iff.mp longer
        exact .cons (by omega) (ih tail)

theorem flatten_length_of_forall₂ {pieces : List (List α)} {others : List (List β)}
    (longer : List.Forall₂ (fun piece other => other.length = piece.length + extra) pieces others) :
    others.flatten.length = pieces.flatten.length + extra * pieces.length := by
  induction longer with
  | nil => simp
  | cons length _ ih =>
      simp only [List.flatten_cons, List.length_append, List.length_cons, ih, length]
      ring

end Cscrypto.Data
