import Mathlib.Data.List.Basic
import Mathlib.Data.UInt

namespace Cscrypto.Data

/-! # Bytes in digits of six bits

Three bytes are four digits, the most significant first.  One or two bytes at
the end are two or three digits, and the bits that are left over are zero.
-/

def sextets : List UInt8 → List Nat
  | [] => []
  | [a] => [a.toNat / 4, a.toNat % 4 * 16]
  | [a, b] => [a.toNat / 4, a.toNat % 4 * 16 + b.toNat / 16, b.toNat % 16 * 4]
  | a :: b :: c :: rest =>
      a.toNat / 4 :: (a.toNat % 4 * 16 + b.toNat / 16) :: (b.toNat % 16 * 4 + c.toNat / 64) ::
        c.toNat % 64 :: sextets rest

/-- The bytes of the digits; `none` when a single digit or a bit is left over. -/
def octets : List Nat → Option (List UInt8)
  | [] => some []
  | [_] => none
  | [s, t] => if t % 16 = 0 then some [UInt8.ofNat (s * 4 + t / 16)] else none
  | [s, t, u] =>
      if u % 4 = 0 then some [UInt8.ofNat (s * 4 + t / 16), UInt8.ofNat (t % 16 * 16 + u / 4)]
      else none
  | s :: t :: u :: v :: rest => (octets rest).map fun bytes =>
      UInt8.ofNat (s * 4 + t / 16) :: UInt8.ofNat (t % 16 * 16 + u / 4) ::
        UInt8.ofNat (u % 4 * 64 + v) :: bytes

theorem sextets_lt (bytes : List UInt8) : ∀ digit ∈ sextets bytes, digit < 64 := by
  fun_induction sextets bytes with
  | case1 => simp
  | case2 a =>
      have bound := a.toNat_lt
      simp only [List.mem_cons, List.not_mem_nil, or_false]
      omega
  | case3 a b =>
      have bound := a.toNat_lt
      have bound' := b.toNat_lt
      simp only [List.mem_cons, List.not_mem_nil, or_false]
      omega
  | case4 a b c rest ih =>
      have bound := a.toNat_lt
      have bound' := b.toNat_lt
      have bound'' := c.toNat_lt
      intro digit member
      simp only [List.mem_cons] at member
      rcases member with first | second | third | fourth | later
      · omega
      · omega
      · omega
      · omega
      · exact ih digit later

theorem length_sextets (bytes : List UInt8) :
    (sextets bytes).length = (4 * bytes.length + 2) / 3 := by
  fun_induction sextets bytes with
  | case1 => rfl
  | case2 a => simp
  | case3 a b => simp
  | case4 a b c rest ih =>
      simp only [List.length_cons, ih]
      omega

theorem byte_eq {value : Nat} {byte : UInt8} (same : value = byte.toNat) :
    UInt8.ofNat value = byte := by
  rw [same, UInt8.ofNat_toNat]

theorem octets_sextets (bytes : List UInt8) : octets (sextets bytes) = some bytes := by
  fun_induction sextets bytes with
  | case1 => rfl
  | case2 a =>
      have first : UInt8.ofNat (a.toNat / 4 * 4 + a.toNat % 4 * 16 / 16) = a := byte_eq (by omega)
      have clear : a.toNat % 4 * 16 % 16 = 0 := by omega
      rw [octets, if_pos clear, first]
  | case3 a b =>
      have bound := b.toNat_lt
      have first : UInt8.ofNat (a.toNat / 4 * 4 + (a.toNat % 4 * 16 + b.toNat / 16) / 16) = a :=
        byte_eq (by omega)
      have second : UInt8.ofNat ((a.toNat % 4 * 16 + b.toNat / 16) % 16 * 16 +
          b.toNat % 16 * 4 / 4) = b := byte_eq (by omega)
      have clear : b.toNat % 16 * 4 % 4 = 0 := by omega
      rw [octets, if_pos clear, first, second]
  | case4 a b c rest ih =>
      have bound := b.toNat_lt
      have bound' := c.toNat_lt
      have first : UInt8.ofNat (a.toNat / 4 * 4 + (a.toNat % 4 * 16 + b.toNat / 16) / 16) = a :=
        byte_eq (by omega)
      have second : UInt8.ofNat ((a.toNat % 4 * 16 + b.toNat / 16) % 16 * 16 +
          (b.toNat % 16 * 4 + c.toNat / 64) / 4) = b := byte_eq (by omega)
      have third : UInt8.ofNat ((b.toNat % 16 * 4 + c.toNat / 64) % 4 * 64 + c.toNat % 64) = c :=
        byte_eq (by omega)
      rw [octets, ih, Option.map_some, first, second, third]

end Cscrypto.Data
