import Mathlib.Algebra.Ring.Nat
import PtyDaemon.Framework.Circular

/-!
# Words in a memory of bytes

Numbers of a fixed width at given places of a memory, least significant byte first. A word that has
been stored is read back, and what is stored or copied to one place changes nothing at a place
apart from it.
-/

namespace Words

open Circular

/-- The lowest `width` bytes of `n`. -/
def encode : Nat → Nat → List UInt8
  | 0, _ => []
  | width + 1, n => UInt8.ofNat n :: encode width (n / 256)

def decode : List UInt8 → Nat
  | [] => 0
  | b :: bs => b.toNat + 256 * decode bs

@[simp] theorem encode_length (width n : Nat) : (encode width n).length = width := by
  induction width generalizing n with
  | zero => rfl
  | succ width ih => simp [encode, ih]

theorem decode_encode (width n : Nat) : decode (encode width n) = n % 256 ^ width := by
  induction width generalizing n with
  | zero => simp [encode, decode, Nat.mod_one]
  | succ width ih =>
    have hlow : (UInt8.ofNat n).toNat = n % 256 := UInt8.toNat_ofNat'
    rw [encode, decode, ih, hlow, pow_succ', Nat.mod_mul]

/-- Zero bytes are the number zero. -/
theorem decode_replicate (n : Nat) : decode (List.replicate n 0) = 0 := by
  induction n with
  | zero => rfl
  | succ n ih => simp [List.replicate_succ, decode, ih]

def load (m : List UInt8) (i width : Nat) : Nat := decode (slice m i width)

def store (m : List UInt8) (i width n : Nat) : List UInt8 := overwrite m i (encode width n)

variable {m block : List UInt8} {i j n width width' : Nat}

theorem store_length (h : i + width ≤ m.length) : (store m i width n).length = m.length :=
  overwrite_length (by rwa [encode_length])

theorem slice_overwrite (h : i + block.length ≤ m.length) :
    slice (overwrite m i block) i block.length = block := by
  have hi : (m.take i).length = i := by
    rw [List.length_take]
    omega
  rw [slice, overwrite, List.append_assoc, List.drop_left' hi, List.take_left]

theorem load_store (h : i + width ≤ m.length) :
    load (store m i width n) i width = n % 256 ^ width := by
  have hroom : i + (encode width n).length ≤ m.length := by rwa [encode_length]
  have hslice := slice_overwrite hroom
  rw [encode_length] at hslice
  rw [load, store, hslice, decode_encode]

/-- Copying to another place changes no slice. -/
theorem slice_overwrite_apart (h : i + block.length ≤ m.length)
    (hapart : j + n ≤ i ∨ i + block.length ≤ j) : slice (overwrite m i block) j n = slice m j n :=
  slice_congr fun k hj hk => getElem?_overwrite h (by omega)

theorem load_overwrite_apart (h : i + block.length ≤ m.length)
    (hapart : j + width ≤ i ∨ i + block.length ≤ j) :
    load (overwrite m i block) j width = load m j width := by
  rw [load, slice_overwrite_apart h hapart, load]

theorem load_store_apart (h : i + width ≤ m.length) (hapart : j + width' ≤ i ∨ i + width ≤ j) :
    load (store m i width n) j width' = load m j width' :=
  load_overwrite_apart (by rwa [encode_length]) (by rwa [encode_length])

theorem slice_store_apart (h : i + width ≤ m.length) (hapart : j + n ≤ i ∨ i + width ≤ j)
    (v : Nat) : slice (store m i width v) j n = slice m j n :=
  slice_overwrite_apart (by rwa [encode_length]) (by rwa [encode_length])

/-- Copying what is there already. -/
theorem overwrite_slice (h : i + n ≤ m.length) : overwrite m i (slice m i n) = m := by
  rw [overwrite, slice_length h, ← List.drop_drop, slice, List.append_assoc, List.take_append_drop,
    List.take_append_drop]

theorem encode_zero (width : Nat) : encode width 0 = List.replicate width 0 := by
  induction width with
  | zero => rfl
  | succ width ih =>
    rw [encode, Nat.zero_div, ih, List.replicate_succ]
    rfl

/-- A zero stored on zeros. -/
theorem store_zero (h : i + width ≤ m.length) (hzero : slice m i width = List.replicate width 0) :
    store m i width 0 = m := by
  rw [store, encode_zero, ← hzero, overwrite_slice h]

/-- A part of a part. -/
theorem slice_slice {k : Nat} (h : j + k ≤ n) : slice (slice m i n) j k = slice m (i + j) k := by
  simp only [slice, List.drop_take, List.drop_drop, List.take_take]
  rw [Nat.min_eq_left (by omega)]

/-- Copying into a part. -/
theorem slice_overwrite_within (hn : i + n ≤ m.length) (h : j + block.length ≤ n) :
    slice (overwrite m (i + j) block) i n = overwrite (slice m i n) j block := by
  have hlen : (slice m i n).length = n := slice_length hn
  have hcopied : (overwrite m (i + j) block).length = m.length := overwrite_length (by omega)
  apply List.ext_getElem?
  intro k
  rcases Nat.lt_or_ge k n with hk | hk
  · have hleft : (slice (overwrite m (i + j) block) i n)[k]? =
        (overwrite m (i + j) block)[i + k]? := by
      rw [slice, List.getElem?_take_of_lt hk, List.getElem?_drop]
    have hright : (slice m i n)[k]? = m[i + k]? := by
      rw [slice, List.getElem?_take_of_lt hk, List.getElem?_drop]
    rw [hleft]
    by_cases hin : j ≤ k ∧ k < j + block.length
    · -- inside the block
      have hread : ∀ (l : List UInt8) (p : Nat), p + block.length ≤ l.length →
          (overwrite l p block)[p + (k - j)]? = block[k - j]? := by
        intro l p hp
        have htake : (l.take p).length = p := by
          rw [List.length_take]
          omega
        rw [overwrite, List.append_assoc, List.getElem?_append_right (by omega), htake,
          List.getElem?_append_left (by omega)]
        congr 1
        omega
      have h₁ := hread m (i + j) (by omega)
      have h₂ := hread (slice m i n) j (by omega)
      rw [show i + j + (k - j) = i + k by omega] at h₁
      rw [show j + (k - j) = k by omega] at h₂
      rw [h₁, h₂]
    · rw [getElem?_overwrite (by omega) (by omega), getElem?_overwrite (by omega) (by omega),
        hright]
  · rw [List.getElem?_eq_none (by rw [slice, List.length_take]; omega),
      List.getElem?_eq_none (by rw [overwrite_length (by omega)]; omega)]

end Words
