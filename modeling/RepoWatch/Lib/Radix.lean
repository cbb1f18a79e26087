import Mathlib.Algebra.Group.Nat.Defs
import Mathlib.Data.List.Induction
/-!
# Lib.Radix — numerals of a fixed width

`digits base w n` is the `w` digits of `n`, the most significant one first.  Below `base ^ w` nothing is lost
(`value_digits`), and every list of digits is that of its value (`digits_value`).  Bytes are digits of base 256
(`BigEndian`).
-/
namespace Lib
namespace Radix

def digits (base : Nat) : Nat → Nat → List Nat
  | 0, _ => []
  | w + 1, n => digits base w (n / base) ++ [n % base]

def value (base : Nat) (ds : List Nat) : Nat := ds.foldl (fun n d => base * n + d) 0

variable {base : Nat}

theorem length_digits (base : Nat) : ∀ w n : Nat, (digits base w n).length = w
  | 0, _ => rfl
  | w + 1, n => by rw [digits, List.length_append, length_digits base w, List.length_singleton]

theorem value_append_singleton (base : Nat) (ds : List Nat) (d : Nat) :
    value base (ds ++ [d]) = base * value base ds + d :=
  List.foldl_append

theorem lt_of_mem_digits (hbase : 0 < base) : ∀ (w n : Nat), ∀ d ∈ digits base w n, d < base
  | w + 1, n, d, hd => by
    rcases List.mem_append.1 hd with hd | hd
    · exact lt_of_mem_digits hbase w _ d hd
    · rw [List.mem_singleton.1 hd]
      exact Nat.mod_lt _ hbase

theorem value_digits : ∀ {w n : Nat}, n < base ^ w → value base (digits base w n) = n
  | 0, n, h => by
    rw [Nat.pow_zero, Nat.lt_one_iff] at h
    rw [h]
    rfl
  | w + 1, n, h => by
    have hdiv : n / base < base ^ w := Nat.div_lt_of_lt_mul (by rwa [Nat.pow_succ, Nat.mul_comm] at h)
    rw [digits, value_append_singleton, value_digits hdiv]
    exact Nat.div_add_mod n base

theorem value_lt {ds : List Nat} (h : ∀ d ∈ ds, d < base) : value base ds < base ^ ds.length := by
  induction ds using List.reverseRecOn with
  | nil => exact Nat.one_pos
  | append_singleton ds d ih =>
    have hd := h d (List.mem_append_right _ (List.mem_singleton_self d))
    have hds := ih fun x hx => h x (List.mem_append_left _ hx)
    rw [value_append_singleton, List.length_append, List.length_singleton, Nat.pow_succ, Nat.mul_comm (base ^ ds.length)]
    calc base * value base ds + d < base * value base ds + base := Nat.add_lt_add_left hd _
      _ = base * (value base ds + 1) := (Nat.mul_succ _ _).symm
      _ ≤ base * base ^ ds.length := Nat.mul_le_mul_left base hds

theorem digits_value {ds : List Nat} (h : ∀ d ∈ ds, d < base) : digits base ds.length (value base ds) = ds := by
  induction ds using List.reverseRecOn with
  | nil => rfl
  | append_singleton ds d ih =>
    have hd := h d (List.mem_append_right _ (List.mem_singleton_self d))
    have hpos : 0 < base := Nat.lt_of_le_of_lt (Nat.zero_le d) hd
    have hdiv : (base * value base ds + d) / base = value base ds := by
      rw [Nat.mul_add_div hpos, Nat.div_eq_of_lt hd, Nat.add_zero]
    have hmod : (base * value base ds + d) % base = d := by rw [Nat.mul_add_mod, Nat.mod_eq_of_lt hd]
    rw [value_append_singleton, List.length_append, List.length_singleton, digits, hdiv, hmod,
      ih fun x hx => h x (List.mem_append_left _ hx)]

/-- The digit with `i` digits after it. -/
theorem digits_eq_map (base : Nat) : ∀ w n : Nat,
    digits base w n = (List.range w).reverse.map fun i => n / base ^ i % base
  | 0, _ => rfl
  | w + 1, n => by
    have hsucc : ∀ i, n / base / base ^ i = n / base ^ (i + 1) := fun i => by
      rw [Nat.div_div_eq_div_mul, Nat.pow_succ, Nat.mul_comm]
    rw [digits, digits_eq_map base w, List.range_succ_eq_map, List.reverse_cons, List.map_append, ← List.map_reverse,
      List.map_map, List.map_singleton, Nat.pow_zero, Nat.div_one]
    congr 1
    exact List.map_congr_left fun i _ => by rw [hsucc]; rfl

end Radix

/-! ## Bytes -/

namespace BigEndian

def encode (w n : Nat) : List UInt8 := (Radix.digits 256 w n).map UInt8.ofNat

def decode (bs : List UInt8) : Nat := Radix.value 256 (bs.map UInt8.toNat)

theorem length_encode (w n : Nat) : (encode w n).length = w := by
  rw [encode, List.length_map, Radix.length_digits]

theorem decode_encode {w n : Nat} (h : n < 256 ^ w) : decode (encode w n) = n := by
  have hbyte : (Radix.digits 256 w n).map (UInt8.toNat ∘ UInt8.ofNat) = Radix.digits 256 w n := by
    refine (List.map_congr_left fun d hd => ?_).trans (List.map_id _)
    exact (UInt8.toNat_ofNat').trans (Nat.mod_eq_of_lt (Radix.lt_of_mem_digits (by decide) w n d hd))
  rw [decode, encode, List.map_map, hbyte, Radix.value_digits h]

theorem byte_lt (bs : List UInt8) : ∀ d ∈ bs.map UInt8.toNat, d < 256 := by
  intro d hd
  obtain ⟨b, -, rfl⟩ := List.mem_map.1 hd
  exact b.toNat_lt

theorem decode_lt (bs : List UInt8) : decode bs < 256 ^ bs.length := by
  have h := Radix.value_lt (byte_lt bs)
  rwa [List.length_map] at h

theorem encode_decode (bs : List UInt8) : encode bs.length (decode bs) = bs := by
  have h := Radix.digits_value (byte_lt bs)
  rw [List.length_map] at h
  rw [encode, decode, h, List.map_map]
  exact (List.map_congr_left fun b _ => UInt8.ofNat_toNat).trans (List.map_id _)

end BigEndian
end Lib
