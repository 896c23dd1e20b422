import Taomee.Lib.Bytes

/-!
# Network byte order

Words in network order have the high byte first. On a machine that stores the low byte first the
conversions exchange the bytes of a word.
-/

namespace Taomee

/-- `ntohl` and `htonl`. -/
def ntohl (n : Nat) : Nat :=
  n % 2 ^ 8 * 2 ^ 24 + n / 2 ^ 8 % 2 ^ 8 * 2 ^ 16 + n / 2 ^ 16 % 2 ^ 8 * 2 ^ 8 + n / 2 ^ 24 % 2 ^ 8

/-- `ntohs` and `htons`. -/
def ntohs (n : Nat) : Nat := n % 2 ^ 8 * 2 ^ 8 + n / 2 ^ 8 % 2 ^ 8

/-- The four bytes of a word, the high one first. -/
def be32 (n : Nat) : List UInt8 :=
  [UInt8.ofNat (n / 2 ^ 24), UInt8.ofNat (n / 2 ^ 16), UInt8.ofNat (n / 2 ^ 8), UInt8.ofNat n]

namespace Buf

variable {buf buf' : Buf} {off n : Nat}

/-- The word at `off` with its high byte first. -/
def loadBe32 (buf : Buf) (off : Nat) : Nat :=
  (buf off).toNat * 2 ^ 24 + (buf (off + 1)).toNat * 2 ^ 16 + (buf (off + 2)).toNat * 2 ^ 8 +
    (buf (off + 3)).toNat

/-- `*(uint16_t*)(buf + off)`. -/
def load16 (buf : Buf) (off : Nat) : Nat := (buf off).toNat + 2 ^ 8 * (buf (off + 1)).toNat

/-- `*(uint16_t*)(buf + off) = n`. -/
def store16 (buf : Buf) (off n : Nat) : Buf := buf.write off [UInt8.ofNat n, UInt8.ofNat (n / 2 ^ 8)]

end Buf

theorem ntohl_lt (n : Nat) : ntohl n < 2 ^ 32 := by
  unfold ntohl
  omega

theorem ntohl_mk {a b c d : Nat} (ha : a < 256) (hb : b < 256) (hc : c < 256) (hd : d < 256) :
    ntohl (a * 2 ^ 24 + b * 2 ^ 16 + c * 2 ^ 8 + d) = d * 2 ^ 24 + c * 2 ^ 16 + b * 2 ^ 8 + a := by
  unfold ntohl
  omega

theorem ntohl_ntohl {n : Nat} (h : n < 2 ^ 32) : ntohl (ntohl n) = n := by
  have hmk := ntohl_mk (a := n % 2 ^ 8) (b := n / 2 ^ 8 % 2 ^ 8) (c := n / 2 ^ 16 % 2 ^ 8)
    (d := n / 2 ^ 24 % 2 ^ 8) (by omega) (by omega) (by omega) (by omega)
  have hn : n / 2 ^ 24 % 2 ^ 8 * 2 ^ 24 + n / 2 ^ 16 % 2 ^ 8 * 2 ^ 16 + n / 2 ^ 8 % 2 ^ 8 * 2 ^ 8 + n % 2 ^ 8 = n := by
    omega
  exact hmk.trans hn

theorem ntohs_mk {a b : Nat} (ha : a < 256) (hb : b < 256) : ntohs (a * 2 ^ 8 + b) = b * 2 ^ 8 + a := by
  unfold ntohs
  omega

theorem ntohs_ntohs {n : Nat} (h : n < 2 ^ 16) : ntohs (ntohs n) = n := by
  have hmk := ntohs_mk (a := n % 2 ^ 8) (b := n / 2 ^ 8 % 2 ^ 8) (by omega) (by omega)
  have hn : n / 2 ^ 8 % 2 ^ 8 * 2 ^ 8 + n % 2 ^ 8 = n := by
    omega
  exact hmk.trans hn

theorem ntohs_lt (n : Nat) : ntohs n < 2 ^ 16 := by
  unfold ntohs
  omega

namespace Buf

variable {buf buf' : Buf} {off n : Nat}

theorem loadBe32_lt (buf : Buf) (off : Nat) : buf.loadBe32 off < 2 ^ 32 := by
  have h0 := (buf off).toNat_lt
  have h1 := (buf (off + 1)).toNat_lt
  have h2 := (buf (off + 2)).toNat_lt
  have h3 := (buf (off + 3)).toNat_lt
  unfold loadBe32
  omega

/-- A word is read in network order by reading it and exchanging its bytes. -/
theorem ntohl_load32 (buf : Buf) (off : Nat) : ntohl (buf.load32 off) = buf.loadBe32 off := by
  have h0 := (buf off).toNat_lt
  have h1 := (buf (off + 1)).toNat_lt
  have h2 := (buf (off + 2)).toNat_lt
  have h3 := (buf (off + 3)).toNat_lt
  unfold ntohl load32 loadBe32
  omega

/-- A word that is stored with its bytes exchanged is read in network order. -/
theorem loadBe32_store32_ntohl (buf : Buf) (off : Nat) (h : n < 2 ^ 32) :
    (buf.store32 off (ntohl n)).loadBe32 off = n := by
  rw [← ntohl_load32, load32_store32 _ _ (ntohl_lt n), ntohl_ntohl h]

theorem loadBe32_congr (h : ∀ i, off ≤ i → i < off + 4 → buf i = buf' i) :
    buf.loadBe32 off = buf'.loadBe32 off := by
  rw [← ntohl_load32, ← ntohl_load32, load32_congr h]

/-- The bytes of a word in network order are those of its value. -/
theorem byte_of_loadBe32 (h : buf.loadBe32 off = n) {i : Nat} (hi : i < 4) :
    buf (off + i) = (be32 n)[i] := by
  have h0 := (buf off).toNat_lt
  have h1 := (buf (off + 1)).toNat_lt
  have h2 := (buf (off + 2)).toNat_lt
  have h3 := (buf (off + 3)).toNat_lt
  unfold loadBe32 at h
  apply UInt8.toNat_inj.mp
  rcases i with _ | _ | _ | _ | i
  · show (buf off).toNat = (UInt8.ofNat (n / 2 ^ 24)).toNat
    rw [UInt8.toNat_ofNat']
    omega
  · show (buf (off + 1)).toNat = (UInt8.ofNat (n / 2 ^ 16)).toNat
    rw [UInt8.toNat_ofNat']
    omega
  · show (buf (off + 2)).toNat = (UInt8.ofNat (n / 2 ^ 8)).toNat
    rw [UInt8.toNat_ofNat']
    omega
  · show (buf (off + 3)).toNat = (UInt8.ofNat n).toNat
    rw [UInt8.toNat_ofNat']
    omega
  · omega

/-- A word is known by its bytes. -/
theorem loadBe32_of_bytes (hn : n < 2 ^ 32) (h : ∀ i, (hi : i < 4) → buf (off + i) = (be32 n)[i]) :
    buf.loadBe32 off = n := by
  have h0 : buf off = UInt8.ofNat (n / 2 ^ 24) := h 0 (by omega)
  have h1 : buf (off + 1) = UInt8.ofNat (n / 2 ^ 16) := h 1 (by omega)
  have h2 : buf (off + 2) = UInt8.ofNat (n / 2 ^ 8) := h 2 (by omega)
  have h3 : buf (off + 3) = UInt8.ofNat n := h 3 (by omega)
  unfold loadBe32
  rw [h0, h1, h2, h3, UInt8.toNat_ofNat', UInt8.toNat_ofNat', UInt8.toNat_ofNat', UInt8.toNat_ofNat']
  omega

theorem load16_store16 (buf : Buf) (off : Nat) (h : n < 2 ^ 16) : (buf.store16 off n).load16 off = n := by
  have h0 : buf.store16 off n off = UInt8.ofNat n := write_inside buf off _ (i := 0) (by simp)
  have h1 : buf.store16 off n (off + 1) = UInt8.ofNat (n / 2 ^ 8) := write_inside buf off _ (i := 1) (by simp)
  unfold load16
  rw [h0, h1, UInt8.toNat_ofNat', UInt8.toNat_ofNat']
  omega

end Buf

end Taomee
