import Mathlib.Data.List.TakeWhile

namespace Cscrypto.Data

/-! # Tokens of a text

The parts of a text between separators, without the empty ones.
-/

variable {α : Type} {space : α → Bool}

def tokens (space : α → Bool) (text : List α) : List (List α) :=
  (text.splitOnP space).filter (!·.isEmpty)

@[simp]
theorem tokens_nil : tokens space [] = [] := by
  simp [tokens]

theorem tokens_append_cons (text rest : List α) {separator : α}
    (separates : space separator = true) :
    tokens space (text ++ separator :: rest) = tokens space text ++ tokens space rest := by
  simp only [tokens, List.splitOnP_append_cons text rest separates, List.filter_append]

theorem tokens_cons (rest : List α) {separator : α} (separates : space separator = true) :
    tokens space (separator :: rest) = tokens space rest := by
  have split := tokens_append_cons [] rest separates
  rwa [tokens_nil, List.nil_append, List.nil_append] at split

/-- What stands between two separators is one token. -/
theorem tokens_letters {word : List α} (nonempty : word ≠ [])
    (letters : ∀ letter ∈ word, space letter = false) : tokens space word = [word] := by
  simp [tokens, List.splitOnP_eq_singleton letters, nonempty]

theorem tokens_dropWhile (text : List α) :
    tokens space (text.dropWhile space) = tokens space text := by
  induction text with
  | nil => rfl
  | cons first rest ih =>
      cases separates : space first with
      | true => rw [List.dropWhile_cons_of_pos separates, ih, tokens_cons rest separates]
      | false => rw [List.dropWhile_cons_of_neg (by rw [separates]; decide)]

/-- The first token is what is read up to a separator. -/
theorem tokens_eq_cons {text : List α} (found : text.dropWhile space ≠ []) :
    tokens space text = (text.dropWhile space).takeWhile (!space ·) ::
      tokens space ((text.dropWhile space).dropWhile (!space ·)) := by
  have begins : space ((text.dropWhile space).head found) = false :=
    List.head_dropWhile_not space found
  rw [← tokens_dropWhile]
  generalize text.dropWhile space = text at found begins
  have letters : ∀ letter ∈ text.takeWhile (!space ·), space letter = false := by
    intro letter member
    have kept := List.mem_takeWhile_imp (p := fun letter => !space letter) member
    simpa using kept
  have nonempty : text.takeWhile (!space ·) ≠ [] := by
    cases text with
    | nil => contradiction
    | cons first rest =>
        rw [List.head_cons] at begins
        rw [List.takeWhile_cons_of_pos (by rw [begins]; rfl)]
        exact List.cons_ne_nil _ _
  have parts : text = text.takeWhile (!space ·) ++ text.dropWhile (!space ·) :=
    List.takeWhile_append_dropWhile.symm
  cases remains : text.dropWhile (!space ·) with
  | nil =>
      rw [remains, List.append_nil] at parts
      rw [tokens_nil, ← parts]
      exact tokens_letters found (parts ▸ letters)
  | cons separator rest =>
      have left : text.dropWhile (!space ·) ≠ [] := by rw [remains]; exact List.cons_ne_nil _ _
      have separates : space separator = true := by
        have stopped := List.head_dropWhile_not (!space ·) left
        simpa [remains] using stopped
      calc
        tokens space text = tokens space (text.takeWhile (!space ·) ++ separator :: rest) :=
          congrArg (tokens space) (remains ▸ parts)
        _ = text.takeWhile (!space ·) :: tokens space rest := by
          rw [tokens_append_cons _ _ separates, tokens_letters nonempty letters]
          rfl
        _ = text.takeWhile (!space ·) :: tokens space (separator :: rest) := by
          rw [tokens_cons _ separates]

end Cscrypto.Data
