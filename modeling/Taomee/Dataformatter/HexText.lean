import Taomee.Dataformatter.BinStr

/-!
# From bytes to text and back

`hex2str` writes two characters for a byte, `str2hex` reads two for a byte. The one counts in bytes, the
other in characters, and the digit tables are not the same; each undoes the other.
-/

namespace Taomee.Dataformatter

/-- `isxdigit` of the C locale: a hexadecimal digit in either case. -/
def isxdigit (c : UInt8) : Bool :=
  (0x30 ≤ c && c ≤ 0x39) || (0x41 ≤ c && c ≤ 0x46) || (0x61 ≤ c && c ≤ 0x66)

/-- What `str2hex` stores for the `n` pairs of characters from the pair `k` on. -/
def hexBytes (src : Buf) : Nat → Nat → List UInt8
  | _, 0 => []
  | k, n + 1 => char2hex (src (k * 2)) (src (k * 2 + 1)) :: hexBytes src (k + 1) n

theorem hexBytes_length (src : Buf) (k n : Nat) : (hexBytes src k n).length = n := by
  induction n generalizing k with
  | zero => rfl
  | succ n ih => rw [hexBytes, List.length_cons, ih]

/-! ## The digits -/

theorem char2hex_hexDigit (hex : UInt8) : char2hex (hexDigit (hex / 16)) (hexDigit (hex % 16)) = hex :=
  forall_byte (P := fun hex => char2hex (hexDigit (hex / 16)) (hexDigit (hex % 16)) = hex) (by decide +kernel) hex

theorem hexDigit_ne_zero (hex : UInt8) : hexDigit (hex / 16) ≠ 0 ∧ hexDigit (hex % 16) ≠ 0 :=
  forall_byte (P := fun hex => hexDigit (hex / 16) ≠ 0 ∧ hexDigit (hex % 16) ≠ 0) (by decide +kernel) hex

/-- A hexadecimal digit stands for a number below sixteen, and is the character of that number in capitals. -/
theorem isxdigit_digitValue {c : UInt8} (h : isxdigit c = true) :
    ∃ v : Fin 16, digitValue (toupper c) = v.val ∧ hexDigit (UInt8.ofNat v.val) = toupper c :=
  forall_byte (P := fun c => isxdigit c = true →
    ∃ v : Fin 16, digitValue (toupper c) = v.val ∧ hexDigit (UInt8.ofNat v.val) = toupper c) (by decide +kernel) c h

theorem halves_of_nibbles : ∀ v w : Fin 16,
    (UInt8.ofInt ((v.val : Int) * 16) + UInt8.ofInt (w.val : Int)) / 16 = UInt8.ofNat v.val ∧
      (UInt8.ofInt ((v.val : Int) * 16) + UInt8.ofInt (w.val : Int)) % 16 = UInt8.ofNat w.val := by
  decide +kernel

/-- The byte of two digits has these two digits, in capitals. -/
theorem twoDigits_char2hex {first second : UInt8} (h1 : isxdigit first = true) (h2 : isxdigit second = true) :
    twoDigits (char2hex first second) = [toupper first, toupper second] := by
  obtain ⟨v, hv, hv'⟩ := isxdigit_digitValue h1
  obtain ⟨w, hw, hw'⟩ := isxdigit_digitValue h2
  obtain ⟨hhigh, hlow⟩ := halves_of_nibbles v w
  unfold twoDigits char2hex
  rw [hv, hw, hhigh, hlow, hv', hw']

theorem digits_cons (hex : UInt8) (srchex : List UInt8) :
    digits (hex :: srchex) = twoDigits hex ++ digits srchex := List.flatMap_cons

theorem digits_not_zero (srchex : List UInt8) : 0 ∉ digits srchex := by
  intro h0
  obtain ⟨hex, -, hmem⟩ := List.mem_flatMap.mp h0
  obtain ⟨hhigh, hlow⟩ := hexDigit_ne_zero hex
  rcases List.mem_cons.mp hmem with h | h
  · exact hhigh h.symm
  · exact hlow (List.mem_singleton.mp h).symm

/-! ## The loops -/

theorem hex2str_cstr (srchex : List UInt8) (dest : Buf) : CStr (hex2str srchex dest) 0 (digits srchex) := by
  rw [hex2str_eq]
  exact CStr.of_write (digits_not_zero srchex) dest 0

theorem str2hexLoop_eq (src dest : Buf) (k n : Nat) {fuel : Nat} (hf : n < fuel) :
    str2hexLoop src ((k + n) * 2) fuel (k * 2) dest = some (dest.write k (hexBytes src k n)) := by
  induction n generalizing k dest fuel with
  | zero =>
      cases fuel with
      | zero => exact absurd hf (Nat.lt_irrefl 0)
      | succ fuel =>
          rw [str2hexLoop, if_pos (by omega), hexBytes, Buf.write_nil]
  | succ n ih =>
      cases fuel with
      | zero => exact absurd hf (Nat.not_lt_zero _)
      | succ fuel =>
          have hhalf : k * 2 / 2 = k := Nat.mul_div_cancel k (by decide)
          have hnext : k * 2 + 2 = (k + 1) * 2 := by omega
          have hlen : (k + (n + 1)) * 2 = (k + 1 + n) * 2 := by omega
          rw [str2hexLoop, if_neg (by omega), hhalf, hnext, hlen, ih _ _ (Nat.lt_of_succ_lt_succ hf),
            Buf.write_cons]
          rfl

theorem str2hex_eq (src dest : Buf) (n : Nat) :
    str2hex src (n * 2) dest = some (dest.write 0 (hexBytes src 0 n)) := by
  have hloop := str2hexLoop_eq src dest 0 n (show n < n * 2 + 1 by omega)
  rwa [Nat.zero_add, Nat.zero_mul] at hloop

/-- The digits of bytes are read as these bytes. -/
theorem hexBytes_digits {src : Buf} {srchex : List UInt8} {k : Nat} (h : CStr src (k * 2) (digits srchex)) :
    hexBytes src k srchex.length = srchex := by
  induction srchex generalizing k with
  | nil => rfl
  | cons hex srchex ih =>
      rw [digits_cons] at h
      obtain ⟨hfirst, -, hsecond, -, hrest⟩ := h
      have hnext : k * 2 + 1 + 1 = (k + 1) * 2 := by omega
      rw [hnext] at hrest
      rw [List.length_cons, hexBytes, hfirst, hsecond, char2hex_hexDigit, ih hrest]

/-- What is read from digits has these digits, in capitals. -/
theorem digits_hexBytes {src : Buf} {k n : Nat} (h : ∀ i, k * 2 ≤ i → i < (k + n) * 2 → isxdigit (src i) = true) :
    digits (hexBytes src k n) = (src.slice (k * 2) (n * 2)).map toupper := by
  induction n generalizing k with
  | zero => rw [Nat.zero_mul]; rfl
  | succ n ih =>
      have hfirst := h (k * 2) (by omega) (by omega)
      have hsecond := h (k * 2 + 1) (by omega) (by omega)
      have hrest := ih (k := k + 1) fun i h1 h2 => h i (by omega) (by omega)
      have hnext : (k + 1) * 2 = k * 2 + 1 + 1 := by omega
      have hlen : (n + 1) * 2 = n * 2 + 1 + 1 := by omega
      rw [hnext] at hrest
      rw [hexBytes, digits_cons, twoDigits_char2hex hfirst hsecond, hrest, hlen, Buf.slice_succ, Buf.slice_succ]
      rfl

/-- Bytes written as text are read back, and text of hexadecimal digits that is read is written in capitals. -/
theorem hexText_roundTrip :
    (∀ (x : List UInt8) (text hex : Buf),
      ∃ r, str2hex (hex2str x text) (2 * x.length) hex = some r ∧ r.toList x.length = x) ∧
    (∀ (s : Buf) (srclen : Nat) (hex text : Buf), srclen % 2 = 0 → (∀ i < srclen, isxdigit (s i) = true) →
      ∃ r, str2hex s srclen hex = some r ∧
        CStr (hex2str (r.toList (srclen / 2)) text) 0 ((s.toList srclen).map toupper)) := by
  constructor
  · intro x text hex
    have hbytes : hexBytes (hex2str x text) 0 x.length = x :=
      hexBytes_digits (k := 0) (by rw [Nat.zero_mul]; exact hex2str_cstr x text)
    refine ⟨_, by rw [Nat.mul_comm]; exact str2hex_eq _ _ _, ?_⟩
    rw [hbytes]
    exact Buf.toList_write_zero hex x
  · intro s srclen hex text heven hdigits
    obtain ⟨n, rfl⟩ : ∃ n, srclen = n * 2 := ⟨srclen / 2, by omega⟩
    have hhalf : n * 2 / 2 = n := Nat.mul_div_cancel n (by decide)
    refine ⟨_, str2hex_eq s hex n, ?_⟩
    have hstored : (hex.write 0 (hexBytes s 0 n)).toList n = hexBytes s 0 n := by
      have := Buf.toList_write_zero hex (hexBytes s 0 n)
      rwa [hexBytes_length] at this
    have htext : digits (hexBytes s 0 n) = (s.toList (n * 2)).map toupper := by
      rw [digits_hexBytes fun i _ hi => hdigits i (by omega), Nat.zero_mul, Buf.slice_zero]
    rw [hhalf, hstored, ← htext]
    exact hex2str_cstr _ _

theorem hexText_roundTrip_sample : ∃ r, str2hex (Buf.ofList [0x61, 0x42]) 2 (fun _ => 0) = some r ∧
    CStr (hex2str (r.toList 1) fun _ => 0) 0 [0x41, 0x42] := by
  have htext : ((Buf.ofList [0x61, 0x42]).toList 2).map toupper = [0x41, 0x42] := by decide
  have h := hexText_roundTrip.2 (Buf.ofList [0x61, 0x42]) 2 (fun _ => 0) (fun _ => 0) (by decide) (by decide)
  rwa [htext] at h

end Taomee.Dataformatter
