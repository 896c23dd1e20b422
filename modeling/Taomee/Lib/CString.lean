import Mathlib.Data.List.DropRight
import Mathlib.Data.List.TakeWhile
import Taomee.Lib.Bytes

/-!
# Strings that a NUL byte ends

A string in a buffer is the bytes from a position up to the first NUL. Scans over it are written as
the loops that C code runs, with the number of bytes of the buffer as a bound on their steps; on a
string that ends inside of the buffer they stop before the bound.
-/

namespace Taomee

/-- The bytes of `s` start at `p`, with a NUL behind them and none among them. -/
def CStr (buf : Buf) : Nat → List UInt8 → Prop
  | p, [] => buf p = 0
  | p, c :: s => buf p = c ∧ c ≠ 0 ∧ CStr buf (p + 1) s

namespace Buf

/-- `while (test[*line]) ++line`, for at most `fuel` steps. -/
def scan (test : UInt8 → Bool) (buf : Buf) : Nat → Nat → Nat
  | 0, line => line
  | fuel + 1, line => if test (buf line) then scan test buf fuel (line + 1) else line

/-- `while (test[*line]) --line`. -/
def scanBack (test : UInt8 → Bool) (buf : Buf) : Nat → Nat
  | 0 => 0
  | line + 1 => if test (buf (line + 1)) then scanBack test buf line else line + 1

/-- `strlen(buf + p)`. -/
def strlen (buf : Buf) (size p : Nat) : Nat := scan (fun c => c ≠ 0) buf size p - p

/-- `strchr(buf + p, c)`. -/
def strchr (buf : Buf) (size p : Nat) (c : UInt8) : Option Nat :=
  let line := scan (fun b => b ≠ 0 && b ≠ c) buf size p
  if buf line = c then some line else none

/-- The string at `p`. -/
def cstr (buf : Buf) (size p : Nat) : List UInt8 := buf.slice p (strlen buf size p)

end Buf

variable {buf buf' : Buf} {size p : Nat} {s t : List UInt8}

/-! ## Strings as lists -/

theorem CStr.zero_notMem (h : CStr buf p s) : 0 ∉ s := by
  induction s generalizing p with
  | nil => exact List.not_mem_nil
  | cons c s ih =>
      intro hmem
      rcases List.mem_cons.mp hmem with h0 | hs
      · exact h.2.1 h0.symm
      · exact ih h.2.2 hs

theorem CStr.get (h : CStr buf p s) {i : Nat} (hi : i < s.length) : buf (p + i) = s[i] := by
  induction s generalizing p i with
  | nil => exact absurd hi (Nat.not_lt_zero _)
  | cons c s ih =>
      cases i with
      | zero => exact h.1
      | succ i =>
          have := ih h.2.2 (i := i) (by simpa using hi)
          rw [Nat.add_right_comm, Nat.add_assoc] at this
          simpa using this

theorem CStr.congr (h : CStr buf p s) (hb : ∀ i, p ≤ i → i ≤ p + s.length → buf' i = buf i) :
    CStr buf' p s := by
  induction s generalizing p with
  | nil => exact (hb p (Nat.le_refl _) (Nat.le_refl _)).trans h
  | cons c s ih =>
      rw [List.length_cons] at hb
      exact ⟨(hb p (Nat.le_refl _) (by omega)).trans h.1, h.2.1,
        ih h.2.2 fun i h1 h2 => hb i (by omega) (by omega)⟩

theorem CStr.drop (h : CStr buf p (s ++ t)) : CStr buf (p + s.length) t := by
  induction s generalizing p with
  | nil => exact h
  | cons c s ih =>
      have := ih h.2.2
      rwa [List.length_cons, Nat.add_comm s.length, ← Nat.add_assoc]

/-- A NUL stored in a string ends it there. -/
theorem CStr.cut (h : CStr buf p (s ++ t)) : CStr (buf.set (p + s.length) 0) p s := by
  induction s generalizing p with
  | nil => exact Buf.set_self _ _ _
  | cons c s ih =>
      refine ⟨?_, h.2.1, ?_⟩
      · rw [Buf.set_ne _ _ (by simp only [List.length_cons]; omega)]
        exact h.1
      · have := ih h.2.2
        rwa [List.length_cons, Nat.add_comm s.length, ← Nat.add_assoc]

/-- The bytes before a stored NUL are not read behind it. -/
theorem CStr.set_of_lt (h : CStr buf p s) {k : Nat} (hk : k < p) (c : UInt8) :
    CStr (buf.set k c) p s :=
  h.congr fun i h1 _ => Buf.set_ne _ _ (by omega)

/-- A list stored with a NUL behind it is a string up to its first NUL. -/
theorem CStr.of_list {l : List UInt8} (h : ∀ i, buf (p + i) = l[i]?.getD 0) :
    CStr buf p (l.takeWhile fun c => c ≠ 0) := by
  induction l generalizing p with
  | nil => exact h 0
  | cons c l ih =>
      by_cases hc : c = 0
      · subst hc
        exact h 0
      · rw [List.takeWhile_cons_of_pos (by simpa using hc)]
        refine ⟨h 0, hc, ih fun i => ?_⟩
        have := h (i + 1)
        rwa [Nat.add_comm i, ← Nat.add_assoc, Nat.add_comm 1, List.getElem?_cons_succ] at this

theorem takeWhile_ne_zero (h : 0 ∉ s) : s.takeWhile (fun c => decide (c ≠ 0)) = s :=
  List.takeWhile_eq_self_iff.mpr fun _ hc => decide_eq_true fun h0 => h (h0 ▸ hc)

/-- Bytes stored with a NUL behind them are a string up to their first NUL. -/
theorem CStr.of_write_takeWhile (l : List UInt8) (buf : Buf) (p : Nat) :
    CStr (buf.write p (l ++ [0])) p (l.takeWhile fun c => c ≠ 0) := by
  induction l generalizing buf p with
  | nil => exact Buf.write_inside buf p [0] (i := 0) (by simp)
  | cons c l ih =>
      have hfirst : buf.write p (c :: l ++ [0]) p = c := Buf.write_inside buf p _ (i := 0) (by simp)
      by_cases hc : c = 0
      · rw [List.takeWhile_cons_of_neg (by simpa using hc)]
        exact hfirst.trans hc
      · rw [List.takeWhile_cons_of_pos (by simpa using hc)]
        refine ⟨hfirst, hc, ?_⟩
        rw [List.cons_append, ← Buf.write_cons]
        exact ih _ _

/-- Bytes without a NUL, stored with a NUL behind them. -/
theorem CStr.of_write (h : 0 ∉ s) (buf : Buf) (p : Nat) : CStr (buf.write p (s ++ [0])) p s := by
  have := CStr.of_write_takeWhile s buf p
  rwa [takeWhile_ne_zero h] at this

/-! ## Scans -/

/-- A scan whose test fails on NUL stops at the first byte of the string that fails it. -/
theorem CStr.scan {test : UInt8 → Bool} (h0 : test 0 = false) (h : CStr buf p s) {fuel : Nat}
    (hf : s.length ≤ fuel) : buf.scan test fuel p = p + (s.takeWhile test).length := by
  induction s generalizing p fuel with
  | nil =>
      cases fuel with
      | zero => rfl
      | succ fuel =>
          have hp : buf p = 0 := h
          simp [Buf.scan, hp, h0]
  | cons c s ih =>
      cases fuel with
      | zero => exact absurd hf (Nat.not_succ_le_zero _)
      | succ fuel =>
          have := @ih _ h.2.2 fuel (by simpa using hf)
          simp only [Buf.scan, h.1, List.takeWhile_cons]
          split
          · simp only [this, List.length_cons]
            omega
          · simp

theorem CStr.skip {test : UInt8 → Bool} (h0 : test 0 = false) (h : CStr buf p s) {fuel : Nat}
    (hf : s.length ≤ fuel) :
    CStr buf (buf.scan test fuel p) (s.dropWhile test) ∧ p ≤ buf.scan test fuel p ∧
      buf.scan test fuel p + (s.dropWhile test).length = p + s.length := by
  have hsplit : s.takeWhile test ++ s.dropWhile test = s := List.takeWhile_append_dropWhile
  have hlen : (s.takeWhile test).length + (s.dropWhile test).length = s.length := by
    rw [← List.length_append, hsplit]
  rw [h.scan h0 hf]
  exact ⟨(hsplit.symm ▸ h).drop, Nat.le_add_right _ _, by omega⟩

theorem CStr.strlen (h : CStr buf p s) (hf : s.length ≤ size) : buf.strlen size p = s.length := by
  unfold Buf.strlen
  rw [h.scan (by simp) hf, takeWhile_ne_zero h.zero_notMem]
  omega

theorem CStr.cstr (h : CStr buf p s) (hf : s.length ≤ size) : buf.cstr size p = s := by
  unfold Buf.cstr
  rw [h.strlen hf]
  apply List.ext_getElem?
  intro i
  by_cases hi : i < s.length
  · rw [Buf.getElem?_slice _ _ hi, h.get hi, List.getElem?_eq_getElem hi]
  · rw [List.getElem?_eq_none (by simpa using hi), List.getElem?_eq_none (by simpa using hi)]

/-- `strchr` finds the first occurrence. -/
theorem CStr.strchr_some {c : UInt8} (h : CStr buf p (s ++ c :: t)) (hs : c ∉ s)
    (hf : (s ++ c :: t).length ≤ size) : buf.strchr size p c = some (p + s.length) := by
  have htake : (s ++ c :: t).takeWhile (fun b => b ≠ 0 && b ≠ c) = s := by
    rw [List.takeWhile_append_of_pos]
    · simp
    · intro b hb
      have h0 : b ≠ 0 := fun h0 => h.zero_notMem (h0 ▸ List.mem_append_left _ hb)
      have h1 : b ≠ c := fun h1 => hs (h1 ▸ hb)
      simp [h0, h1]
  unfold Buf.strchr
  simp only [@CStr.scan _ _ _ (fun b => b ≠ 0 && b ≠ c) (by simp) h _ hf, htake]
  exact if_pos h.drop.1

theorem CStr.strchr_none {c : UInt8} (h : CStr buf p s) (hc : c ≠ 0) (hs : c ∉ s)
    (hf : s.length ≤ size) : buf.strchr size p c = none := by
  have htake : s.takeWhile (fun b => b ≠ 0 && b ≠ c) = s := by
    refine List.takeWhile_eq_self_iff.mpr fun b hb => ?_
    have h0 : b ≠ 0 := fun h0 => h.zero_notMem (h0 ▸ hb)
    have h1 : b ≠ c := fun h1 => hs (h1 ▸ hb)
    simp [h0, h1]
  unfold Buf.strchr
  simp only [@CStr.scan _ _ _ (fun b => b ≠ 0 && b ≠ c) (by simp) h _ hf, htake]
  refine if_neg fun heq => hc ?_
  rw [← heq]
  have h' : CStr buf p (s ++ []) := by rwa [List.append_nil]
  exact h'.drop

/-- Scanning back from the last byte of a range, when some byte of it fails the test. -/
theorem Buf.scanBack_eq {test : UInt8 → Bool} (h : ∀ i, (hi : i < s.length) → buf (p + i) = s[i])
    (hex : ∃ c ∈ s, ¬ test c) :
    buf.scanBack test (p + s.length - 1) + 1 = p + (s.rdropWhile test).length := by
  induction s using List.reverseRecOn with
  | nil =>
      obtain ⟨c, hc, -⟩ := hex
      exact absurd hc List.not_mem_nil
  | append_singleton s c ih =>
      have hlast : buf (p + s.length) = c := by simpa using h s.length (by simp)
      have hpos : p + (s ++ [c]).length - 1 = p + s.length := by simp
      rw [hpos]
      by_cases hc : test c
      · obtain ⟨b, hb, hbt⟩ := hex
        have hbs : b ∈ s := by
          rcases List.mem_append.mp hb with hb | hb
          · exact hb
          · exact absurd (List.mem_singleton.mp hb ▸ hc) hbt
        obtain ⟨k, hk⟩ : ∃ k, p + s.length = k + 1 :=
          ⟨p + s.length - 1, by have := List.length_pos_of_mem hbs; omega⟩
        have ih := ih (fun i hi => by
          have := h i (by simp; omega)
          rwa [List.getElem_append_left hi] at this) ⟨b, hbs, hbt⟩
        rw [List.rdropWhile_concat_pos _ _ _ hc, ← ih]
        rw [hk] at hlast ⊢
        simp [Buf.scanBack, hlast, hc]
      · rw [List.rdropWhile_concat_neg _ _ _ hc, List.length_append, List.length_singleton]
        cases hk : p + s.length with
        | zero => simp [Buf.scanBack]; omega
        | succ k =>
            rw [hk] at hlast
            simp [Buf.scanBack, hlast, hc]
            omega

/-! ## Comparing and copying -/

namespace Buf

/-- `strncmp(a + p, b + q, n) == 0`. -/
def strncmpEq (a : Buf) (p : Nat) (b : Buf) (q : Nat) : Nat → Bool
  | 0 => true
  | n + 1 => a p == b q && (a p == 0 || strncmpEq a (p + 1) b (q + 1) n)

/-- `snprintf(dst + p, n + 1, "%s", src + q)`. -/
def snprintfStr (dst : Buf) (p : Nat) (src : Buf) (q : Nat) : Nat → Buf
  | 0 => dst.set p 0
  | n + 1 => if src q = 0 then dst.set p 0 else snprintfStr (dst.set p (src q)) (p + 1) src (q + 1) n

theorem strncmpEq_congr {a b b' : Buf} {n : Nat} : ∀ {p q : Nat}, (∀ i, q ≤ i → i < q + n → b i = b' i) →
    strncmpEq a p b q n = strncmpEq a p b' q n := by
  induction n with
  | zero => exact fun _ => rfl
  | succ n ih =>
      intro p q h
      unfold strncmpEq
      rw [h q (by omega) (by omega), ih fun i h1 h2 => h i (by omega) (by omega)]

theorem snprintfStr_congr {src src' : Buf} {n : Nat} : ∀ {dst : Buf} {p q : Nat},
    (∀ i, q ≤ i → i < q + n → src i = src' i) → snprintfStr dst p src q n = snprintfStr dst p src' q n := by
  induction n with
  | zero => exact fun _ => rfl
  | succ n ih =>
      intro dst p q h
      unfold snprintfStr
      rw [h q (by omega) (by omega), ih fun i h1 h2 => h i (by omega) (by omega)]

theorem snprintfStr_below {src : Buf} {n : Nat} : ∀ {dst : Buf} {p q i : Nat}, i < p →
    snprintfStr dst p src q n i = dst i := by
  induction n with
  | zero => exact fun h => set_ne _ _ (by omega)
  | succ n ih =>
      intro dst p q i h
      unfold snprintfStr
      split
      · exact set_ne _ _ (by omega)
      · rw [ih (by omega), set_ne _ _ (by omega)]

end Buf

theorem CStr.snprintfStr {src : Buf} {n : Nat} : ∀ {s : List UInt8} {dst : Buf} {p q : Nat},
    CStr src q s → s.length ≤ n → CStr (dst.snprintfStr p src q n) p s := by
  induction n with
  | zero =>
      intro s dst p q _ hlen
      obtain rfl := List.length_eq_zero_iff.mp (Nat.le_zero.mp hlen)
      exact Buf.set_self _ _ _
  | succ n ih =>
      intro s dst p q h hlen
      unfold Buf.snprintfStr
      cases s with
      | nil =>
          have h0 : src q = 0 := h
          rw [if_pos h0]
          exact Buf.set_self _ _ _
      | cons c s =>
          obtain ⟨hc, hne, hs⟩ := h
          rw [if_neg (by rw [hc]; exact hne)]
          refine ⟨?_, hne, ih hs (by simpa using hlen)⟩
          rw [Buf.snprintfStr_below (Nat.lt_succ_self p), Buf.set_self, hc]

/-- Equal strings and no others compare as equal. -/
theorem CStr.strncmpEq {a b : Buf} {n : Nat} : ∀ {s t : List UInt8} {p q : Nat}, CStr a p s → CStr b q t →
    s.length < n → (a.strncmpEq p b q n = true ↔ s = t) := by
  induction n with
  | zero =>
      intro s t p q _ _ hlen
      exact absurd hlen (Nat.not_lt_zero _)
  | succ n ih =>
      intro s t p q ha hb hlen
      unfold Buf.strncmpEq
      cases s with
      | nil =>
          cases t with
          | nil =>
              have ha0 : a p = 0 := ha
              have hb0 : b q = 0 := hb
              simp [ha0, hb0]
          | cons d t =>
              have ha0 : a p = 0 := ha
              have hne : (0 : UInt8) ≠ d := hb.2.1.symm
              simp [ha0, hb.1, hne]
      | cons c s =>
          cases t with
          | nil =>
              have hb0 : b q = 0 := hb
              simp [ha.1, hb0, ha.2.1]
          | cons d t =>
              have hrec := ih (p := p + 1) (q := q + 1) ha.2.2 hb.2.2 (by simpa using hlen)
              simp [ha.1, hb.1, ha.2.1, hrec]

theorem CStr.snprintfStr_eq {src src' : Buf} {n : Nat} : ∀ {t : List UInt8} {dst : Buf} {p q q' : Nat},
    CStr src q t → CStr src' q' t → dst.snprintfStr p src q n = dst.snprintfStr p src' q' n := by
  induction n with
  | zero => exact fun _ _ => rfl
  | succ n ih =>
      intro t dst p q q' h h'
      unfold Buf.snprintfStr
      cases t with
      | nil =>
          have h0 : src q = 0 := h
          have h0' : src' q' = 0 := h'
          rw [if_pos h0, if_pos h0']
      | cons c t => rw [h.1, h'.1, ih h.2.2 h'.2.2]

theorem CStr.strncmpEq_eq {a src src' : Buf} {n : Nat} : ∀ {t : List UInt8} {p q q' : Nat},
    CStr src q t → CStr src' q' t → a.strncmpEq p src q n = a.strncmpEq p src' q' n := by
  induction n with
  | zero => exact fun _ _ => rfl
  | succ n ih =>
      intro t p q q' h h'
      unfold Buf.strncmpEq
      cases t with
      | nil =>
          have h0 : src q = 0 := h
          have h0' : src' q' = 0 := h'
          rw [h0, h0']
          cases a p == 0 with
          | true => rfl
          | false => rfl
      | cons c t => rw [h.1, h'.1, ih h.2.2 h'.2.2]

theorem CStr.of_strncmpEq {a b : Buf} {n : Nat} : ∀ {t : List UInt8} {p q : Nat}, CStr b q t → t.length < n →
    a.strncmpEq p b q n = true → CStr a p t := by
  induction n with
  | zero =>
      intro t p q _ hlen
      exact absurd hlen (Nat.not_lt_zero _)
  | succ n ih =>
      intro t p q hb hlen heq
      simp only [Buf.strncmpEq, Bool.and_eq_true, Bool.or_eq_true, beq_iff_eq] at heq
      obtain ⟨hbyte, hrest⟩ := heq
      cases t with
      | nil => exact hbyte.trans hb
      | cons c t =>
          have hc : a p = c := hbyte.trans hb.1
          rcases hrest with h0 | hrest
          · exact absurd (hc.symm.trans h0) hb.2.1
          · exact ⟨hc, hb.2.1, ih hb.2.2 (by simpa using hlen) hrest⟩

end Taomee
