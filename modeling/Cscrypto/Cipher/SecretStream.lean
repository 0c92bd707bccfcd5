import Cscrypto.Core.Types
import Cscrypto.Data.Blocks

namespace Cscrypto.Cipher

open Cscrypto.Data

/-! # libsodium's secret stream

`crypto_secretstream_xchacha20poly1305` is not part of the repository.  Its
four functions are the fields of `SecretStream`, and what callers may rely on
is stated about whole streams: what `pull` returns for pushed chunks
(`Delivers`), and that it accepts nothing else (`Ideal`).
-/

abbrev kCipherKeySize : Nat := 32
abbrev kHeaderBytes : Nat := 24
abbrev kABytes : Nat := 17

abbrev StreamKey := ByteArray kCipherKeySize
abbrev Header := ByteArray kHeaderBytes

abbrev tagMessage : Byte := 0
abbrev tagFinal : Byte := 3

abbrev Chunk := Bytes × Byte

structure SecretStream where
  State : Type
  initPush : StreamKey → Header → State
  push : State → Bytes → Byte → Bytes × State
  initPull : StreamKey → Header → Option State
  pull : State → Bytes → Option (Bytes × Byte × State)

namespace SecretStream

variable (ss : SecretStream)

def pushAll : ss.State → List Chunk → List Bytes
  | _, [] => []
  | st, (message, tag) :: rest =>
      (ss.push st message tag).1 :: pushAll (ss.push st message tag).2 rest

def pullAll : ss.State → List Bytes → Option (List Chunk × ss.State)
  | st, [] => some ([], st)
  | st, buffer :: rest =>
      match ss.pull st buffer with
      | none => none
      | some (message, tag, next) =>
          (pullAll next rest).map (fun (chunks, last) => ((message, tag) :: chunks, last))

/-- The chunks of a stream that is pulled completely and in which only the last
chunk may be tagged as final. -/
def pullStream : ss.State → List Bytes → Option (List Chunk)
  | _, [] => some []
  | st, buffer :: rest =>
      match ss.pull st buffer with
      | none => none
      | some (message, tag, next) =>
          if tag = tagFinal ∧ rest ≠ [] then none
          else (pullStream next rest).map ((message, tag) :: ·)

def AddsABytes : Prop :=
  ∀ st message tag, (ss.push st message tag).1.length = message.length + kABytes

def Delivers (key : StreamKey) (header : Header) (chunks : List Chunk) : Prop :=
  ∃ st last, ss.initPull key header = some st ∧
    ss.pullAll st (ss.pushAll (ss.initPush key header) chunks) = some (chunks, last)

/-- An ideal stream cipher relative to the streams that were pushed: each of
them is delivered, and a sequence of buffers is accepted only as the beginning
of the one stream pushed under that key and header. -/
structure Ideal (pushed : StreamKey → Header → Option (List Chunk)) : Prop where
  adds : ss.AddsABytes
  delivers : ∀ key header chunks, pushed key header = some chunks → ss.Delivers key header chunks
  authentic : ∀ key header st buffers result, ss.initPull key header = some st →
    ss.pullAll st buffers = some result → buffers ≠ [] →
    ∃ chunks, pushed key header = some chunks ∧
      buffers <+: ss.pushAll (ss.initPush key header) chunks

variable {ss}

theorem pushAll_longer (adds : ss.AddsABytes) (st : ss.State) (chunks : List Chunk) :
    List.Forall₂ (fun message buffer => buffer.length = message.length + kABytes)
      (chunks.map Prod.fst) (ss.pushAll st chunks) := by
  induction chunks generalizing st with
  | nil => exact .nil
  | cons chunk rest ih => exact .cons (adds st chunk.1 chunk.2) (ih _)

theorem pushAll_blocked_iff (adds : ss.AddsABytes) (st : ss.State) (chunks : List Chunk) :
    Blocked (size + kABytes) (ss.pushAll st chunks) ↔ Blocked size (chunks.map Prod.fst) :=
  Blocked.forall₂_iff (pushAll_longer adds st chunks)

theorem pushAll_nonempty (adds : ss.AddsABytes) (st : ss.State) (chunks : List Chunk) :
    ∀ buffer ∈ ss.pushAll st chunks, 0 < buffer.length := by
  induction chunks generalizing st with
  | nil => exact fun _ member => absurd member List.not_mem_nil
  | cons chunk rest ih =>
      obtain ⟨message, tag⟩ := chunk
      intro buffer member
      rw [pushAll, List.mem_cons] at member
      rcases member with rfl | later
      · rw [adds st message tag]
        exact Nat.succ_pos _
      · exact ih _ buffer later

theorem pullAll_cons_iff {st last : ss.State} {buffer : Bytes} {rest : List Bytes}
    {chunks : List Chunk} :
    ss.pullAll st (buffer :: rest) = some (chunks, last) ↔
      ∃ message tag next tail, ss.pull st buffer = some (message, tag, next) ∧
        ss.pullAll next rest = some (tail, last) ∧ chunks = (message, tag) :: tail := by
  rw [pullAll]
  rcases ss.pull st buffer with _ | ⟨message, tag, next⟩
  · simp
  · simp only [Option.map_eq_some_iff, Prod.exists, Prod.mk.injEq, Option.some.injEq]
    constructor
    · intro given
      obtain ⟨tail, last, continued, rfl, rfl⟩ := given
      exact ⟨message, tag, next, tail, ⟨rfl, rfl, rfl⟩, continued, rfl⟩
    · intro given
      obtain ⟨_, _, _, tail, ⟨rfl, rfl, rfl⟩, continued, rfl⟩ := given
      exact ⟨tail, last, continued, rfl, rfl⟩

theorem pullStream_cons_iff {st : ss.State} {buffer : Bytes} {rest : List Bytes}
    {chunks : List Chunk} :
    ss.pullStream st (buffer :: rest) = some chunks ↔
      ∃ message tag next tail, ss.pull st buffer = some (message, tag, next) ∧
        (rest ≠ [] → tag ≠ tagFinal) ∧
        ss.pullStream next rest = some tail ∧ chunks = (message, tag) :: tail := by
  rw [pullStream]
  rcases ss.pull st buffer with _ | ⟨message, tag, next⟩
  · simp
  · by_cases early : tag = tagFinal ∧ rest ≠ []
    · simp only [if_pos early, Option.some.injEq, Prod.mk.injEq, reduceCtorEq, false_iff]
      intro given
      obtain ⟨_, _, _, _, ⟨rfl, rfl, rfl⟩, unfinished, _⟩ := given
      exact unfinished early.2 early.1
    · simp only [if_neg early, Option.map_eq_some_iff, Option.some.injEq, Prod.mk.injEq]
      constructor
      · intro given
        obtain ⟨tail, continued, rfl⟩ := given
        exact ⟨message, tag, next, tail, ⟨rfl, rfl, rfl⟩, fun more final => early ⟨final, more⟩,
          continued, rfl⟩
      · intro given
        obtain ⟨_, _, _, tail, ⟨rfl, rfl, rfl⟩, _, continued, rfl⟩ := given
        exact ⟨tail, continued, rfl⟩

theorem pullAll_length {st last : ss.State} {buffers : List Bytes} {chunks : List Chunk}
    (pulled : ss.pullAll st buffers = some (chunks, last)) : chunks.length = buffers.length := by
  induction buffers generalizing st chunks with
  | nil =>
      cases pulled
      rfl
  | cons buffer rest ih =>
      obtain ⟨_, _, _, tail, _, continued, rfl⟩ := pullAll_cons_iff.mp pulled
      rw [List.length_cons, List.length_cons, ih continued]

theorem pullAll_append_some {st last : ss.State}
    {front back : List Bytes} {chunks : List Chunk}
    (pulled : ss.pullAll st (front ++ back) = some (chunks, last)) :
    ∃ early middle, ss.pullAll st front = some (early, middle) ∧ early <+: chunks := by
  induction front generalizing st chunks with
  | nil => exact ⟨[], st, rfl, List.nil_prefix⟩
  | cons buffer rest ih =>
      obtain ⟨message, tag, next, tail, found, continued, rfl⟩ := pullAll_cons_iff.mp pulled
      obtain ⟨early, middle, first, front⟩ := ih continued
      exact ⟨(message, tag) :: early, middle,
        pullAll_cons_iff.mpr ⟨message, tag, next, early, found, first, rfl⟩,
        List.cons_prefix_cons.mpr ⟨rfl, front⟩⟩

theorem pullAll_concat {st middle last : ss.State}
    {buffers : List Bytes} {chunks : List Chunk} {buffer message : Bytes} {tag : Byte}
    (pulled : ss.pullAll st buffers = some (chunks, middle))
    (next : ss.pull middle buffer = some (message, tag, last)) :
    ss.pullAll st (buffers ++ [buffer]) = some (chunks ++ [(message, tag)], last) := by
  induction buffers generalizing st chunks with
  | nil =>
      cases pulled
      exact pullAll_cons_iff.mpr ⟨message, tag, last, [], next, rfl, rfl⟩
  | cons first rest ih =>
      obtain ⟨early, kind, after, tail, found, continued, rfl⟩ := pullAll_cons_iff.mp pulled
      exact pullAll_cons_iff.mpr ⟨early, kind, after, _, found, ih continued, rfl⟩

theorem forall_dropLast_cons {predicate : α → Prop} {head : α} {tail : List α} :
    (∀ value ∈ (head :: tail).dropLast, predicate value) ↔
      (tail ≠ [] → predicate head) ∧ ∀ value ∈ tail.dropLast, predicate value := by
  cases tail <;> simp

theorem pullStream_eq_some_iff (st : ss.State) (buffers : List Bytes) (chunks : List Chunk) :
    ss.pullStream st buffers = some chunks ↔
      (∃ last, ss.pullAll st buffers = some (chunks, last)) ∧
        ∀ chunk ∈ chunks.dropLast, chunk.2 ≠ tagFinal := by
  induction buffers generalizing st chunks with
  | nil =>
      constructor
      · intro pulled
        cases pulled
        exact ⟨⟨st, rfl⟩, fun _ member => absurd member List.not_mem_nil⟩
      · intro given
        obtain ⟨⟨last, pulled⟩, _⟩ := given
        cases pulled
        rfl
  | cons buffer rest ih =>
      constructor
      · intro pulled
        obtain ⟨message, tag, next, tail, found, unfinished, continued, rfl⟩ :=
          pullStream_cons_iff.mp pulled
        obtain ⟨⟨last, pulled⟩, others⟩ := (ih next tail).mp continued
        refine ⟨⟨last, pullAll_cons_iff.mpr ⟨_, _, _, tail, found, pulled, rfl⟩⟩, ?_⟩
        refine forall_dropLast_cons.mpr ⟨fun more => unfinished ?_, others⟩
        rwa [← List.length_pos_iff, ← pullAll_length pulled, List.length_pos_iff]
      · intro given
        obtain ⟨⟨last, pulled⟩, unfinished⟩ := given
        obtain ⟨message, tag, next, tail, found, continued, rfl⟩ := pullAll_cons_iff.mp pulled
        obtain ⟨first, others⟩ := forall_dropLast_cons.mp unfinished
        refine pullStream_cons_iff.mpr ⟨message, tag, next, tail, found, fun more => first ?_,
          (ih next tail).mpr ⟨⟨last, continued⟩, others⟩, rfl⟩
        rwa [← List.length_pos_iff, pullAll_length continued, List.length_pos_iff]

/-- Ciphertexts are never empty, so a stream is longer than any of its proper
beginnings. -/
theorem eq_of_prefix_of_flatten (adds : ss.AddsABytes) {st : ss.State} {chunks : List Chunk}
    {buffers : List Bytes} (front : buffers <+: ss.pushAll st chunks)
    (same : buffers.flatten = (ss.pushAll st chunks).flatten) : buffers = ss.pushAll st chunks := by
  obtain ⟨rest, split⟩ := front
  have empty : rest = [] := by
    rw [← split, List.flatten_append, List.self_eq_append_right] at same
    cases rest with
    | nil => rfl
    | cons buffer others =>
        have positive := pushAll_nonempty adds st chunks buffer (by rw [← split]; simp)
        rw [List.flatten_cons, List.append_eq_nil_iff] at same
        rw [same.1] at positive
        contradiction
  rw [← split, empty, List.append_nil]

end SecretStream

end Cscrypto.Cipher
