import Taomee.Lib.CString

/-!
# Accesses inside of a buffer

The operations on strings of C with the size of the buffer looked at: there is no result when a byte outside
would be read or written. On a string that ends inside of the buffer they agree with those that do not look.
-/

namespace Taomee

namespace Buf

/-- `buf[k]` in a buffer of `size` bytes. -/
def getIn (buf : Buf) (size k : Nat) : Option UInt8 := if k < size then some (buf k) else none

/-- `buf[k] = c` in a buffer of `size` bytes. -/
def setIn (buf : Buf) (size k : Nat) (c : UInt8) : Option Buf := if k < size then some (buf.set k c) else none

/-- The bytes of `out` stored from `buf[off]` on in a buffer of `size` bytes. -/
def writeIn (buf : Buf) (size off : Nat) : List UInt8 → Option Buf
  | [] => some buf
  | c :: out => do
      let buf ← setIn buf size off c
      writeIn buf size (off + 1) out

/-- `while (test[*line]) ++line`, with `left` bytes from `line` to the end of the buffer. -/
def scanIn (test : UInt8 → Bool) (buf : Buf) : Nat → Nat → Option Nat
  | 0, _ => none
  | left + 1, line => if test (buf line) then scanIn test buf left (line + 1) else some line

/-- `while (test[*line]) --line`, down to the beginning of the buffer. -/
def scanBackIn (test : UInt8 → Bool) (buf : Buf) : Nat → Option Nat
  | 0 => if test (buf 0) then none else some 0
  | line + 1 => if test (buf (line + 1)) then scanBackIn test buf line else some (line + 1)

/-- `strlen(buf + p)` in a buffer of `size` bytes. -/
def strlenIn (buf : Buf) (size p : Nat) : Option Nat := do
  let line ← scanIn (fun c => c ≠ 0) buf (size - p) p
  return line - p

/-- `strchr(buf + p, c)` in a buffer of `size` bytes. -/
def strchrIn (buf : Buf) (size p : Nat) (c : UInt8) : Option (Option Nat) := do
  let line ← scanIn (fun b => b ≠ 0 && b ≠ c) buf (size - p) p
  return if buf line = c then some line else none

/-- The string at `p` in a buffer of `size` bytes. -/
def cstrIn (buf : Buf) (size p : Nat) : Option (List UInt8) := do
  let n ← strlenIn buf size p
  return buf.slice p n

end Buf

variable {buf : Buf} {size p left : Nat} {s t : List UInt8} {test : UInt8 → Bool}

theorem Buf.setIn_of_lt {k : Nat} (h : k < size) (buf : Buf) (c : UInt8) : buf.setIn size k c = some (buf.set k c) :=
  if_pos h

theorem Buf.getIn_of_lt {k : Nat} (h : k < size) (buf : Buf) : buf.getIn size k = some (buf k) := if_pos h

theorem Buf.writeIn_of_le {off : Nat} {out : List UInt8} (h : off + out.length ≤ size) (buf : Buf) :
    buf.writeIn size off out = some (buf.write off out) := by
  induction out generalizing buf off with
  | nil => rw [writeIn, write_nil]
  | cons c out ih =>
      rw [List.length_cons] at h
      rw [writeIn, setIn_of_lt (by omega), Option.bind_eq_bind, Option.bind_some, ih (by omega), write_cons]

theorem Buf.writeIn_of_lt {off : Nat} {out : List UInt8} (h : size < off + out.length) (hne : out ≠ []) (buf : Buf) :
    buf.writeIn size off out = none := by
  induction out generalizing buf off with
  | nil => exact absurd rfl hne
  | cons c out ih =>
      rw [List.length_cons] at h
      rw [writeIn]
      by_cases hoff : off < size
      · rw [setIn_of_lt hoff, Option.bind_eq_bind, Option.bind_some]
        refine ih (by omega) (fun hnil => ?_) _
        rw [hnil, List.length_nil] at h
        omega
      · rw [setIn, if_neg hoff]
        rfl

/-- A scan that NUL stops does not leave the buffer. -/
theorem CStr.scanIn (h0 : test 0 = false) (h : CStr buf p s) (hf : s.length < left) {fuel : Nat} (hfuel : s.length ≤ fuel) :
    buf.scanIn test left p = some (buf.scan test fuel p) := by
  rw [h.scan h0 hfuel]
  clear hfuel
  induction s generalizing p left with
  | nil =>
      obtain ⟨left, rfl⟩ := Nat.exists_eq_succ_of_ne_zero (Nat.ne_zero_of_lt hf)
      have hp : buf p = 0 := h
      unfold Buf.scanIn
      rw [hp, h0]
      rfl
  | cons c s ih =>
      obtain ⟨left, rfl⟩ := Nat.exists_eq_succ_of_ne_zero (Nat.ne_zero_of_lt hf)
      unfold Buf.scanIn
      rw [h.1]
      by_cases hc : test c = true
      · rw [if_pos hc, List.takeWhile_cons_of_pos hc, @ih (p + 1) left h.2.2 (by simpa using hf), List.length_cons]
        congr 1
        omega
      · rw [if_neg hc, List.takeWhile_cons_of_neg hc]
        rfl

theorem CStr.strlenIn (h : CStr buf p s) (hf : p + s.length < size) : buf.strlenIn size p = some s.length := by
  unfold Buf.strlenIn
  rw [h.scanIn (by simp) (by omega) (Nat.le_refl _), h.scan (by simp) (Nat.le_refl _), takeWhile_ne_zero h.zero_notMem]
  exact congrArg some (Nat.add_sub_cancel_left _ _)

theorem CStr.strchrIn (h : CStr buf p s) (c : UInt8) (hf : p + s.length < size) {fuel : Nat} (hfuel : s.length ≤ fuel) :
    buf.strchrIn size p c = some (buf.strchr fuel p c) := by
  unfold Buf.strchrIn Buf.strchr
  rw [@CStr.scanIn _ _ (size - p) _ (fun b => b ≠ 0 && b ≠ c) (by simp) h (by omega) _ hfuel]
  rfl

theorem CStr.cstrIn (h : CStr buf p s) (hf : p + s.length < size) : buf.cstrIn size p = some s := by
  have hs := h.cstr (Nat.le_refl s.length)
  unfold Buf.cstr at hs
  rw [h.strlen (Nat.le_refl _)] at hs
  unfold Buf.cstrIn
  rw [h.strlenIn hf]
  exact congrArg some hs

/-- Going back from the last byte of a range stops in it, when some byte of it fails the test. -/
theorem Buf.scanBackIn_eq (h : ∀ i, (hi : i < s.length) → buf (p + i) = s[i]) (hex : ∃ c ∈ s, ¬ test c) :
    buf.scanBackIn test (p + s.length - 1) = some (buf.scanBack test (p + s.length - 1)) := by
  have hstop : ∀ line k, k ≤ line → ¬ test (buf k) → buf.scanBackIn test line = some (buf.scanBack test line) := by
    intro line
    induction line with
    | zero =>
        intro k hk hnot
        obtain rfl := Nat.le_zero.mp hk
        unfold scanBackIn scanBack
        exact if_neg hnot
    | succ line ih =>
        intro k hk hnot
        unfold scanBackIn scanBack
        by_cases hline : test (buf (line + 1)) = true
        · rw [if_pos hline, if_pos hline]
          refine ih k (Nat.le_of_lt_succ (Nat.lt_of_le_of_ne hk fun heq => hnot ?_)) hnot
          rw [heq]
          exact hline
        · rw [if_neg hline, if_neg hline]
  obtain ⟨c, hc, hnot⟩ := hex
  obtain ⟨i, hi, rfl⟩ := List.getElem_of_mem hc
  refine hstop _ (p + i) (by omega) ?_
  rw [h i hi]
  exact hnot

end Taomee
