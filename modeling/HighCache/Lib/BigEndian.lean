import Mathlib.Algebra.Ring.Nat
import Mathlib.Data.List.Induction
import Mathlib.Tactic.Common

/-!
# Big-endian numbers

The bytes of a natural number, most significant first, in a field of fixed width, and the number
with given bytes. `encode n` and `decode` are inverse to one another between the numbers below
`256 ^ n` and the lists of `n` bytes, so a field that is read determines the bytes it was read
from. Code writes such fields byte by byte, with shifts; the last section says that the shifts and
disjunctions on the machine integers are this arithmetic.
-/

/-! ## Encoding and decoding -/

namespace BigEndian

/-- The last `n` bytes of a number, most significant first. -/
def encode : ℕ → ℕ → List UInt8
  | 0, _ => []
  | n + 1, v => encode n (v / 256) ++ [UInt8.ofNat v]

/-- The number with given bytes. -/
def decode (bytes : List UInt8) : ℕ := bytes.foldl (fun v b ↦ 256 * v + b.toNat) 0

theorem decode_append_singleton (bytes : List UInt8) (b : UInt8) :
    decode (bytes ++ [b]) = 256 * decode bytes + b.toNat := by
  rw [decode, List.foldl_append, List.foldl_cons, List.foldl_nil, decode]

theorem decode_encode {n v : ℕ} (h : v < 256 ^ n) : decode (encode n v) = v := by
  induction n generalizing v with
  | zero =>
    rw [Nat.pow_zero, Nat.lt_one_iff] at h
    rw [h]
    rfl
  | succ n ih =>
    have hdiv : v / 256 < 256 ^ n := by
      rw [Nat.div_lt_iff_lt_mul (by decide), ← Nat.pow_succ]
      exact h
    rw [encode, decode_append_singleton, ih hdiv, UInt8.toNat_ofNat']
    omega

theorem encode_decode (bytes : List UInt8) : encode bytes.length (decode bytes) = bytes := by
  induction bytes using List.reverseRecOn with
  | nil => rfl
  | append_singleton bytes b ih =>
    have hb := b.toNat_lt
    have hdiv : (256 * decode bytes + b.toNat) / 256 = decode bytes := by omega
    have hlast : UInt8.ofNat (256 * decode bytes + b.toNat) = b := by
      rw [← UInt8.toNat_inj, UInt8.toNat_ofNat']
      omega
    rw [List.length_append, List.length_singleton, encode, decode_append_singleton, hdiv, ih, hlast]

/-! ## Shifts

The bytes of a field that has been shifted into place have no bit in common with those of the
others, so a disjunction of them adds up. The sizes are those of the fields code writes, two, four
and eight bytes, the last in two halves of four. -/

/-- A disjunction with a number below the lowest bit is a sum. -/
theorem or_eq_add {x y i : ℕ} (hx : 2 ^ i ∣ x) (hy : y < 2 ^ i) : x ||| y = x + y := by
  obtain ⟨a, rfl⟩ := hx
  exact (Nat.two_pow_add_eq_or_of_lt hy a).symm

theorem byte_mul_mod (b : UInt8) {m n : ℕ} (h : 256 * m ≤ n) (hm : 0 < m) :
    b.toNat * m % n = b.toNat * m :=
  Nat.mod_eq_of_lt (Nat.lt_of_lt_of_le (Nat.mul_lt_mul_of_pos_right b.toNat_lt hm) h)

theorem toNat_or_uint16 (b₀ b₁ : UInt8) :
    (b₀.toUInt16 <<< 8 ||| b₁.toUInt16).toNat = decode [b₀, b₁] := by
  have e₀ := byte_mul_mod b₀ (show 256 * 256 ≤ 65536 by decide) (by decide)
  have o₀ : b₀.toNat * 256 ||| b₁.toNat = b₀.toNat * 256 + b₁.toNat :=
    or_eq_add (i := 8) (Nat.dvd_mul_left _ _) b₁.toNat_lt
  simp only [UInt16.toNat_or, UInt16.toNat_shiftLeft, Nat.shiftLeft_eq, UInt8.toNat_toUInt16,
    UInt16.reduceToNat, Nat.reduceMod, Nat.reducePow, e₀, o₀]
  simp only [decode, List.foldl_cons, List.foldl_nil]
  omega

theorem toNat_or_uint32 (b₀ b₁ b₂ b₃ : UInt8) :
    (b₀.toUInt32 <<< 24 ||| b₁.toUInt32 <<< 16 ||| b₂.toUInt32 <<< 8 ||| b₃.toUInt32).toNat
      = decode [b₀, b₁, b₂, b₃] := by
  have h₁ := b₁.toNat_lt
  have h₂ := b₂.toNat_lt
  have o₁ : b₀.toNat * 16777216 ||| b₁.toNat * 65536 = b₀.toNat * 16777216 + b₁.toNat * 65536 :=
    or_eq_add (i := 24) (Nat.dvd_mul_left _ _) (by simp only [Nat.reducePow]; omega)
  have o₂ : b₀.toNat * 16777216 + b₁.toNat * 65536 ||| b₂.toNat * 256
      = b₀.toNat * 16777216 + b₁.toNat * 65536 + b₂.toNat * 256 :=
    or_eq_add (i := 16) (by simp only [Nat.reducePow]; omega) (by simp only [Nat.reducePow]; omega)
  have e₀ := byte_mul_mod b₀ (show 256 * 16777216 ≤ 4294967296 by decide) (by decide)
  have e₁ := byte_mul_mod b₁ (show 256 * 65536 ≤ 4294967296 by decide) (by decide)
  have e₂ := byte_mul_mod b₂ (show 256 * 256 ≤ 4294967296 by decide) (by decide)
  simp only [UInt32.toNat_or, UInt32.toNat_shiftLeft, Nat.shiftLeft_eq, UInt8.toNat_toUInt32,
    UInt32.reduceToNat, Nat.reduceMod, Nat.reducePow, e₀, e₁, e₂, o₁, o₂]
  clear o₁ o₂ e₀ e₁ e₂
  rw [or_eq_add (i := 8) (by omega) b₃.toNat_lt]
  simp only [decode, List.foldl_cons, List.foldl_nil]
  omega

theorem toNat_or_uint64 (high low : UInt32) :
    (high.toUInt64 <<< 32 ||| low.toUInt64).toNat = 256 ^ 4 * high.toNat + low.toNat := by
  have h₀ := high.toNat_lt
  have e₀ : high.toNat * 4294967296 % 18446744073709551616 = high.toNat * 4294967296 := by omega
  have o₀ : high.toNat * 4294967296 ||| low.toNat = high.toNat * 4294967296 + low.toNat :=
    or_eq_add (i := 32) (Nat.dvd_mul_left _ _) low.toNat_lt
  simp only [UInt64.toNat_or, UInt64.toNat_shiftLeft, Nat.shiftLeft_eq, UInt32.toNat_toUInt64,
    UInt64.reduceToNat, Nat.reduceMod, Nat.reducePow, e₀, o₀]
  omega

/-! ### Fields that are written -/

theorem bytes_uint16 (v : UInt16) : [(v >>> 8).toUInt8, v.toUInt8] = encode 2 v.toNat := by
  simp only [encode, List.nil_append, List.cons_append, List.cons.injEq, ← UInt8.toNat_inj,
    and_true, UInt16.toNat_toUInt8, UInt16.toNat_shiftRight, UInt8.toNat_ofNat',
    Nat.shiftRight_eq_div_pow, UInt16.reduceToNat, Nat.reduceMod, Nat.reducePow]

theorem bytes_uint32 (v : UInt32) :
    [(v >>> 24).toUInt8, (v >>> 16).toUInt8, (v >>> 8).toUInt8, v.toUInt8] = encode 4 v.toNat := by
  simp only [encode, List.nil_append, List.cons_append, List.cons.injEq, ← UInt8.toNat_inj,
    and_true, UInt32.toNat_toUInt8, UInt32.toNat_shiftRight, UInt8.toNat_ofNat',
    Nat.shiftRight_eq_div_pow, UInt32.reduceToNat, Nat.reduceMod, Nat.reducePow]
  refine ⟨?_, ?_⟩ <;> omega

end BigEndian
