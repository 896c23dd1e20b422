import Taomee.Lib.CInt
import Taomee.Lib.Within

/-!
# Messages at startup (log.c and tlog/tlog.c)

The three functions format a message, pad it to a column of the screen and append the status. They take the
length that `vsnprintf` returns, which is that of the whole message also when only a part of it was stored.
-/

namespace Taomee.Tlog

/-- `log_buf_sz` -/
def logBufSz : Nat := 8192

/-- `TLOG_BUF_SIZE` -/
def tlogBufSize : Nat := 8 * 1024

/-- `SCREEN_COLS` -/
def screenCols : Int := 80

/-- `BOOT_OK`, "\e[1m\e[32m[ ok ]\e[m" -/
def bootOk : List UInt8 :=
  [0x1B, 0x5B, 0x31, 0x6D, 0x1B, 0x5B, 0x33, 0x32, 0x6D, 0x5B, 0x20, 0x6F, 0x6B, 0x20, 0x5D, 0x1B, 0x5B, 0x6D]

/-- `BOOT_FAIL`, "\e[1m\e[31m[ failed ]\e[m" -/
def bootFail : List UInt8 :=
  [0x1B, 0x5B, 0x31, 0x6D, 0x1B, 0x5B, 0x33, 0x31, 0x6D, 0x5B, 0x20, 0x66, 0x61, 0x69, 0x6C, 0x65, 0x64, 0x20, 0x5D,
    0x1B, 0x5B, 0x6D]

/-- `ok == 0 ? BOOT_OK : BOOT_FAIL` -/
def bootStatus (ok : Int) : List UInt8 := if ok = 0 then bootOk else bootFail

/-- `vsnprintf(buf, n, fmt, ap)` for the formatted text: what is stored, and the length of the whole text. -/
def vsnprintf (buf : Buf) (n : Nat) (text : List UInt8) : Buf × Nat :=
  (buf.write 0 (text.take (n - 1) ++ [0]), text.length)

/-- `for (i = 0; i < n; i++) buf[k + i] = ' '` in a buffer of `size` bytes. -/
def padLoop (buf : Buf) (size k : Nat) : Nat → Option Buf
  | 0 => some buf
  | n + 1 => do
      let buf ← buf.setIn size k 0x20
      padLoop buf size (k + 1) n

/-- `strcat(buf, src)` in a buffer of `size` bytes. -/
def strcat (buf : Buf) (size : Nat) (src : List UInt8) : Option Buf := do
  let len ← buf.strlenIn size 0
  buf.writeIn size len (src ++ [0])

/-- What the three functions do in a buffer of `size` bytes; `cols` is what `%` is taken of. There is no result
when a byte outside of the buffer is read or written. -/
def bootMessage (size : Nat) (cols : Nat → Int) (ok : Int) (text : List UInt8) (buf : Buf) : Option Buf := do
  let buf := buf.set (size - 1) 0
  let (buf, fin) := vsnprintf buf (size - 1) text
  let pos := screenCols - 10 - (cols fin).tmod screenCols
  let buf ← padLoop buf size fin pos.toNat
  let buf ← buf.setIn size (fin + pos.toNat) 0
  strcat buf size (bootStatus ok)

/-- `boot_log(ok, dummy, fmt, ...)`, up to what is printed. -/
def bootLog (ok dummy : Int) (text : List UInt8) (logBuffer : Buf) : Option Buf :=
  bootMessage logBufSz (fun fin => toI32 (fin - dummy)) ok text logBuffer

/-- `boot_tlog(ok, dummy, fmt, ...)`, up to what is printed. -/
def bootTlog (ok dummy : Int) (text : List UInt8) (buffer : Buf) : Option Buf :=
  bootMessage tlogBufSize (fun fin => toI32 (fin - dummy)) ok text buffer

/-- `std_tlog(ok, fmt, ...)`, up to what is printed. -/
def stdTlog (ok : Int) (text : List UInt8) (buffer : Buf) : Option Buf :=
  bootMessage tlogBufSize (fun fin => fin) ok text buffer

/-! ## The stores -/

/-- The message, padded, and its terminator are inside of the buffer, and so is the status with its terminator
behind the first NUL. -/
def Fits (size pad : Nat) (status text : List UInt8) : Prop :=
  text.length + pad < size ∧
    ((text ++ List.replicate pad 0x20).takeWhile fun c => c ≠ 0).length + status.length < size

theorem padLoop_eq (buf : Buf) (size k n : Nat) : padLoop buf size k n = buf.writeIn size k (List.replicate n 0x20) := by
  induction n generalizing buf k with
  | zero => rfl
  | succ n ih =>
      rw [padLoop, List.replicate_succ, Buf.writeIn]
      simp only [ih]

/-- Appending to a string. -/
theorem strcat_isSome {buf : Buf} {size : Nat} {s : List UInt8} (h : CStr buf 0 s) (hs : s.length < size)
    (src : List UInt8) : (strcat buf size src).isSome = true ↔ s.length + src.length < size := by
  unfold strcat
  rw [h.strlenIn (by omega), Option.bind_eq_bind, Option.bind_some]
  by_cases hroom : s.length + src.length < size
  · rw [Buf.writeIn_of_le (by simp only [List.length_append, List.length_singleton]; omega)]
    exact ⟨fun _ => hroom, fun _ => rfl⟩
  · rw [Buf.writeIn_of_lt (by simp only [List.length_append, List.length_singleton]; omega) (by simp)]
    exact ⟨fun hsome => absurd hsome (by decide), fun hlt => absurd hlt hroom⟩

/-- The padding and the terminator, on what `vsnprintf` left. -/
theorem bootMessage_eq (size : Nat) (cols : Nat → Int) (ok : Int) (text : List UInt8) (buf : Buf) {pad : Nat}
    (hpad : (screenCols - 10 - (cols text.length).tmod screenCols).toNat = pad) :
    bootMessage size cols ok text buf =
      if text.length + pad < size then
        strcat (((buf.set (size - 1) 0).write 0 (text.take (size - 1 - 1) ++ [0])).write text.length
          (List.replicate pad 0x20 ++ [0])) size (bootStatus ok)
      else none := by
  unfold bootMessage vsnprintf
  simp only [hpad, padLoop_eq]
  split
  · next hroom =>
      have happend := Buf.write_append ((buf.set (size - 1) 0).write 0 (text.take (size - 1 - 1) ++ [0])) text.length
        (List.replicate pad 0x20) [0]
      rw [List.length_replicate] at happend
      rw [Buf.writeIn_of_le (by rw [List.length_replicate]; omega), Option.bind_eq_bind, Option.bind_some,
        Buf.setIn_of_lt hroom, Option.bind_some, Buf.set_eq_write, happend]
  · next hroom =>
      cases hwritten : ((buf.set (size - 1) 0).write 0 (text.take (size - 1 - 1) ++ [0])).writeIn size text.length
          (List.replicate pad 0x20) with
      | none => rfl
      | some padded =>
          rw [Option.bind_eq_bind, Option.bind_some, Buf.setIn, if_neg hroom]
          rfl

/-- All accesses of a message are inside of the buffer exactly when it fits. -/
theorem bootMessage_isSome {size : Nat} (hsize : 2 ≤ size) (cols : Nat → Int) (ok : Int) (text : List UInt8)
    (buf : Buf) {pad : Nat} (hpad : (screenCols - 10 - (cols text.length).tmod screenCols).toNat = pad) :
    (bootMessage size cols ok text buf).isSome = true ↔ Fits size pad (bootStatus ok) text := by
  have hstatus : 2 ≤ (bootStatus ok).length := by
    unfold bootStatus
    split <;> decide
  rw [bootMessage_eq size cols ok text buf hpad]
  unfold Fits
  by_cases hroom : text.length + pad < size
  · rw [if_pos hroom, and_iff_right hroom]
    have hpadded : ((text ++ List.replicate pad 0x20).takeWhile fun c => decide (c ≠ 0)).length ≤ text.length + pad := by
      have := (List.takeWhile_prefix (fun c => decide (c ≠ 0)) (l := text ++ List.replicate pad 0x20)).length_le
      rwa [List.length_append, List.length_replicate] at this
    by_cases hwhole : text.length ≤ size - 1 - 1
    · -- The whole message was stored, and the padding goes over its NUL.
      have hstored := @Buf.write_overwrite (buf.set (size - 1) 0) 0 text [0]
        (List.replicate pad 0x20 ++ [0]) (by simp)
      rw [Nat.zero_add, ← List.append_assoc] at hstored
      rw [List.take_of_length_le hwhole, hstored]
      exact strcat_isSome (CStr.of_write_takeWhile _ _ 0) (by omega) _
    · -- The message fills the buffer; its last byte was not stored, and the status goes behind what was.
      obtain rfl : pad = 0 := by omega
      have hstr : CStr (((buf.set (size - 1) 0).write 0 (text.take (size - 1 - 1) ++ [0])).write text.length
          (List.replicate 0 0x20 ++ [0])) 0 ((text.take (size - 1 - 1)).takeWhile fun c => c ≠ 0) := by
        refine (CStr.of_write_takeWhile (text.take (size - 1 - 1)) (buf.set (size - 1) 0) 0).congr fun i _ hi => ?_
        have hprefix := (List.takeWhile_prefix (fun c => decide (c ≠ 0)) (l := text.take (size - 1 - 1))).length_le
        rw [List.length_take] at hprefix
        exact Buf.write_outside _ (by omega)
      have hlen : ((text.take (size - 1 - 1)).takeWhile fun c => decide (c ≠ 0)).length =
          min (size - 1 - 1) (text.takeWhile fun c => decide (c ≠ 0)).length := by
        rw [← List.take_takeWhile, List.length_take]
      rw [strcat_isSome hstr (by omega), hlen, List.replicate_zero, List.append_nil]
      omega
  · rw [if_neg hroom]
    exact ⟨fun hsome => absurd hsome (by decide), fun hfits => absurd hfits.1 hroom⟩

/-- A message without a NUL fits when all of it does. -/
theorem fits_of_text {size pad : Nat} {status text : List UInt8} (h : 0 ∉ text) :
    Fits size pad status text ↔ text.length + pad < size ∧ text.length + pad + status.length < size := by
  have hnul : 0 ∉ text ++ List.replicate pad 0x20 := by
    intro h0
    rcases List.mem_append.mp h0 with h0 | h0
    · exact h h0
    · exact absurd (List.eq_of_mem_replicate h0) (by decide)
  unfold Fits
  rw [takeWhile_ne_zero hnul, List.length_append, List.length_replicate]

/-- The three functions stay inside of their buffers of 8192 bytes exactly when the padded message and the
status fit. -/
theorem bootMessages_inside_iff (ok dummy : Int) (text : List UInt8) (buf : Buf) :
    ((bootLog ok dummy text buf).isSome = true ↔
      Fits 8192 (70 - (toI32 (text.length - dummy)).tmod 80).toNat (bootStatus ok) text) ∧
    ((bootTlog ok dummy text buf).isSome = true ↔
      Fits 8192 (70 - (toI32 (text.length - dummy)).tmod 80).toNat (bootStatus ok) text) ∧
    ((stdTlog ok text buf).isSome = true ↔
      Fits 8192 (70 - (text.length : Int).tmod 80).toNat (bootStatus ok) text) :=
  ⟨bootMessage_isSome (by decide) _ ok text buf rfl, bootMessage_isSome (by decide) _ ok text buf rfl,
    bootMessage_isSome (by decide) _ ok text buf rfl⟩

/-- A message of 9000 letters. -/
theorem not_bootMessages_inside : ¬ ∀ (ok dummy : Int) (text : List UInt8) (buf : Buf),
    (bootLog ok dummy text buf).isSome = true ∧ (bootTlog ok dummy text buf).isSome = true ∧
      (stdTlog ok text buf).isSome = true := by
  intro h
  have hsome := (h 0 0 (List.replicate 9000 0x61) fun _ => 0).1
  have hfits := (bootMessage_isSome (show 2 ≤ logBufSz by decide) _ 0 _ _ rfl).mp hsome
  have hroom := hfits.1
  have hsize : logBufSz = 8192 := rfl
  rw [List.length_replicate] at hroom
  omega

end Taomee.Tlog
