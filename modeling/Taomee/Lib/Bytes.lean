import Mathlib.Algebra.Group.Int.Defs
import Mathlib.Algebra.GroupWithZero.Nat
import Mathlib.Data.List.Infix

/-!
# Byte memory

A buffer gives a byte at each position. Accesses name a position and a length; what lies outside of
a write is unchanged, and what a read returns depends on the bytes of its range only. Machine words
are stored with the low byte first.
-/

namespace Taomee

/-- A buffer that the code indexes: the byte at each position. -/
abbrev Buf := Nat → UInt8

/-- A byte property that holds of the 256 bytes holds of every byte. -/
theorem forall_byte {P : UInt8 → Prop} (h : ∀ n, n < 256 → P (UInt8.ofNat n)) (c : UInt8) : P c := by
  have := h c.toNat c.toNat_lt
  rwa [UInt8.ofNat_toNat] at this

namespace Buf

/-- `buf[k] = c`. -/
def set (buf : Buf) (k : Nat) (c : UInt8) : Buf := fun i => if i = k then c else buf i

/-- `for (j = 0; j < n; j++) buf[start + j] = c`. -/
def fill (buf : Buf) (start n : Nat) (c : UInt8) : Buf :=
  fun i => if start ≤ i ∧ i < start + n then c else buf i

/-- The bytes `buf[off..off + n)`. -/
def slice (buf : Buf) (off n : Nat) : List UInt8 := (List.range n).map fun i => buf (off + i)

/-- The bytes `buf[0..n)`. -/
def toList (buf : Buf) (n : Nat) : List UInt8 := (List.range n).map buf

/-- The bytes of `out` stored from `buf[off]` on. -/
def write (buf : Buf) (off : Nat) (out : List UInt8) : Buf :=
  fun i => if off ≤ i then out[i - off]?.getD (buf i) else buf i

/-- The bytes of a list, and zeros behind them. -/
def ofList (l : List UInt8) : Buf := fun i => l[i]?.getD 0

/-- The bytes of `out` stored from `buf[0]` on. -/
def store (buf : Buf) (out : List UInt8) : Buf := fun i => out[i]?.getD (buf i)

/-! ## Single bytes and prefixes -/

theorem set_ne (b : Buf) {k i : Nat} (c : UInt8) (h : i ≠ k) : b.set k c i = b i := if_neg h

@[simp] theorem set_self (b : Buf) (k : Nat) (c : UInt8) : b.set k c k = c := if_pos rfl

@[simp] theorem toList_length (b : Buf) (n : Nat) : (b.toList n).length = n := by
  simp [toList]

theorem getElem?_toList (b : Buf) {n i : Nat} (h : i < n) : (b.toList n)[i]? = some (b i) := by
  simp [toList, h]

theorem toList_congr {b b' : Buf} {n : Nat} (h : ∀ i, i < n → b i = b' i) :
    b.toList n = b'.toList n :=
  List.map_congr_left fun i hi => h i (List.mem_range.mp hi)

theorem toList_store (b : Buf) (out : List UInt8) : (b.store out).toList out.length = out := by
  apply List.ext_getElem?
  intro i
  by_cases hi : i < out.length
  · rw [getElem?_toList _ hi, store, List.getElem?_eq_getElem hi]
    rfl
  · rw [List.getElem?_eq_none (by simpa using hi), List.getElem?_eq_none (by simpa using hi)]

/-! ## Ranges -/

@[simp] theorem slice_length (b : Buf) (off n : Nat) : (b.slice off n).length = n := by
  simp [slice]

theorem getElem?_slice (b : Buf) (off : Nat) {n i : Nat} (h : i < n) :
    (b.slice off n)[i]? = some (b (off + i)) := by
  simp [slice, h]

theorem slice_succ (b : Buf) (off n : Nat) : b.slice off (n + 1) = b off :: b.slice (off + 1) n := by
  unfold slice
  rw [List.range_succ_eq_map, List.map_cons, List.map_map]
  refine congrArg _ (List.map_congr_left fun i _ => ?_)
  rw [Function.comp_apply, Nat.succ_eq_add_one, Nat.add_assoc, Nat.add_comm 1]

theorem slice_zero (b : Buf) (n : Nat) : b.slice 0 n = b.toList n :=
  List.map_congr_left fun i _ => by rw [Nat.zero_add]

theorem slice_congr {b b' : Buf} {off n : Nat} (h : ∀ i, off ≤ i → i < off + n → b i = b' i) :
    b.slice off n = b'.slice off n := by
  refine List.map_congr_left fun i hi => h _ (Nat.le_add_right _ _) ?_
  have := List.mem_range.mp hi
  omega

/-- A write changes nothing below its range and nothing above it. -/
theorem write_outside (b : Buf) {off i : Nat} {out : List UInt8}
    (h : i < off ∨ off + out.length ≤ i) : b.write off out i = b i := by
  unfold write
  split
  · rw [List.getElem?_eq_none (by omega)]
    rfl
  · rfl

theorem write_inside (b : Buf) (off : Nat) (out : List UInt8) {i : Nat} (h : i < out.length) :
    b.write off out (off + i) = out[i] := by
  unfold write
  rw [if_pos (Nat.le_add_right _ _), Nat.add_sub_cancel_left, List.getElem?_eq_getElem h]
  rfl

@[simp] theorem slice_write_self (b : Buf) (off : Nat) (out : List UInt8) :
    (b.write off out).slice off out.length = out := by
  apply List.ext_getElem?
  intro i
  by_cases hi : i < out.length
  · rw [getElem?_slice _ _ hi, write_inside _ _ _ hi, List.getElem?_eq_getElem hi]
  · rw [List.getElem?_eq_none (by simpa using hi), List.getElem?_eq_none (by simpa using hi)]

theorem toList_write_zero (b : Buf) (out : List UInt8) : (b.write 0 out).toList out.length = out := by
  rw [← slice_zero]
  exact slice_write_self b 0 out

/-- Two writes one behind the other. -/
theorem write_append (b : Buf) (off : Nat) (out more : List UInt8) :
    (b.write off out).write (off + out.length) more = b.write off (out ++ more) := by
  funext i
  unfold write
  by_cases hlow : off ≤ i
  · by_cases hhigh : off + out.length ≤ i
    · rw [if_pos hhigh, if_pos hlow, if_pos hlow, List.getElem?_append_right (by omega),
        List.getElem?_eq_none (l := out) (by omega), Nat.sub_sub]
      rfl
    · rw [if_neg hhigh, if_pos hlow, if_pos hlow, List.getElem?_append_left (by omega)]
  · rw [if_neg (by omega), if_neg hlow, if_neg hlow]

/-- A write over the end of another. -/
theorem write_overwrite (b : Buf) (off : Nat) (out : List UInt8) {old more : List UInt8}
    (h : old.length ≤ more.length) :
    (b.write off (out ++ old)).write (off + out.length) more = b.write off (out ++ more) := by
  rw [← write_append b off out old, ← write_append b off out more]
  funext i
  by_cases hin : off + out.length ≤ i ∧ i < off + out.length + more.length
  · obtain ⟨k, rfl⟩ := Nat.exists_eq_add_of_le hin.1
    rw [write_inside _ _ _ (by omega), write_inside _ _ _ (by omega)]
  · have hmore : i < off + out.length ∨ off + out.length + more.length ≤ i := by omega
    have hold : i < off + out.length ∨ off + out.length + old.length ≤ i := by omega
    rw [write_outside _ hmore, write_outside _ hmore, write_outside _ hold]

theorem write_nil (b : Buf) (off : Nat) : b.write off [] = b := by
  funext i
  unfold write
  split <;> rfl

theorem set_eq_write (b : Buf) (k : Nat) (c : UInt8) : b.set k c = b.write k [c] := by
  funext i
  by_cases hi : i = k
  · rw [hi, set_self]
    exact (write_inside b k [c] (i := 0) (by simp)).symm
  · rw [set_ne _ _ hi, write_outside _ (by simp; omega)]

theorem write_cons (b : Buf) (off : Nat) (c : UInt8) (out : List UInt8) :
    (b.set off c).write (off + 1) out = b.write off (c :: out) := by
  rw [set_eq_write]
  exact write_append b off [c] out

theorem write_zero_inside (b : Buf) {out : List UInt8} {i : Nat} (h : i < out.length) :
    b.write 0 out i = ofList out i := by
  unfold write ofList
  rw [if_pos (Nat.zero_le i), Nat.sub_zero, List.getElem?_eq_getElem h]
  rfl

/-! ## Machine words of 32 bits -/

/-- The four bytes of a word, the low one first. -/
def bytes32 (n : Nat) : List UInt8 :=
  [UInt8.ofNat n, UInt8.ofNat (n / 2 ^ 8), UInt8.ofNat (n / 2 ^ 16), UInt8.ofNat (n / 2 ^ 24)]

/-- `*(uint32_t*)(buf + off)`. -/
def load32 (buf : Buf) (off : Nat) : Nat :=
  (buf off).toNat + 2 ^ 8 * (buf (off + 1)).toNat + 2 ^ 16 * (buf (off + 2)).toNat +
    2 ^ 24 * (buf (off + 3)).toNat

/-- `*(uint32_t*)(buf + off) = n`. -/
def store32 (buf : Buf) (off n : Nat) : Buf := buf.write off (bytes32 n)

@[simp] theorem bytes32_length (n : Nat) : (bytes32 n).length = 4 := rfl

theorem store32_outside (b : Buf) {off i : Nat} (n : Nat) (h : i < off ∨ off + 4 ≤ i) :
    b.store32 off n i = b i :=
  write_outside b (by simpa using h)

theorem load32_congr {b b' : Buf} {off : Nat} (h : ∀ i, off ≤ i → i < off + 4 → b i = b' i) :
    b.load32 off = b'.load32 off := by
  unfold load32
  rw [h off (by omega) (by omega), h (off + 1) (by omega) (by omega),
    h (off + 2) (by omega) (by omega), h (off + 3) (by omega) (by omega)]

theorem load32_store32 (b : Buf) (off : Nat) {n : Nat} (h : n < 2 ^ 32) :
    (b.store32 off n).load32 off = n := by
  have h0 : b.store32 off n off = UInt8.ofNat n := write_inside b off (bytes32 n) (i := 0) (by simp)
  have h1 : b.store32 off n (off + 1) = UInt8.ofNat (n / 2 ^ 8) :=
    write_inside b off (bytes32 n) (by simp)
  have h2 : b.store32 off n (off + 2) = UInt8.ofNat (n / 2 ^ 16) :=
    write_inside b off (bytes32 n) (by simp)
  have h3 : b.store32 off n (off + 3) = UInt8.ofNat (n / 2 ^ 24) :=
    write_inside b off (bytes32 n) (by simp)
  unfold load32
  rw [h0, h1, h2, h3]
  simp only [UInt8.toNat_ofNat']
  omega

end Buf

end Taomee
