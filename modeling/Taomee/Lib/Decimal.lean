import Mathlib.Data.Nat.Log
import Mathlib.Tactic.Ring

/-!
# Decimal numbers in texts

`printf("%0wd", n)` and what `atoi` reads. A number of at most the width has the width as its length, and
texts of one width stand in the order of their numbers.
-/

namespace Taomee

/-- The last decimal digit of `n`. -/
def lastDigit (n : Nat) : UInt8 := UInt8.ofNat (0x30 + n % 10)

/-- The last `w` decimal digits of `n`. -/
def lastDigits : Nat → Nat → List UInt8
  | 0, _ => []
  | w + 1, n => lastDigits w (n / 10) ++ [lastDigit n]

/-- `printf("%0wd", n)` for a number that is not negative. -/
def decimal (w n : Nat) : List UInt8 := lastDigits (max w (Nat.log 10 n + 1)) n

/-- `isdigit(c)` -/
def isDigit (c : UInt8) : Bool := 0x30 ≤ c && c ≤ 0x39

/-- `isspace(c)` -/
def isSpace (c : UInt8) : Bool := c = 0x20 || 0x09 ≤ c && c ≤ 0x0D

/-- The number that the digits at the start of a text stand for. -/
def digitsValue (s : List UInt8) : Nat := (s.takeWhile isDigit).foldl (fun n c => n * 10 + (c.toNat - 0x30)) 0

/-- `atoi(s)`, before it is reduced to an `int`. -/
def atoi (s : List UInt8) : Int :=
  match s.dropWhile isSpace with
  | [] => 0
  | c :: s => if c = 0x2D then -digitsValue s else if c = 0x2B then digitsValue s else digitsValue (c :: s)

/-- `strcmp(s, t) > 0` -/
def strcmpPos : List UInt8 → List UInt8 → Bool
  | [], _ => false
  | _ :: _, [] => true
  | c :: s, d :: t => if c = d then strcmpPos s t else d < c

/-! ## Digits -/

theorem lastDigit_toNat (n : Nat) : (lastDigit n).toNat = 0x30 + n % 10 := by
  unfold lastDigit
  rw [UInt8.toNat_ofNat']
  omega

theorem isDigit_lastDigit (n : Nat) : isDigit (lastDigit n) = true := by
  have h := lastDigit_toNat n
  simp only [isDigit, Bool.and_eq_true, decide_eq_true_eq, UInt8.le_iff_toNat_le]
  rw [h]
  exact ⟨by simp, by simp; omega⟩

@[simp] theorem lastDigits_length (w : Nat) : ∀ n, (lastDigits w n).length = w := by
  induction w with
  | zero => exact fun _ => rfl
  | succ w ih => simp [lastDigits, ih]

theorem isDigit_of_mem_lastDigits {w : Nat} : ∀ {n : Nat} {c : UInt8}, c ∈ lastDigits w n → isDigit c = true := by
  induction w with
  | zero => exact fun h => nomatch h
  | succ w ih =>
      intro n c h
      rcases List.mem_append.mp h with h | h
      · exact ih h
      · rw [List.mem_singleton.mp h]
        exact isDigit_lastDigit n

theorem foldl_lastDigits (w : Nat) : ∀ n, (lastDigits w n).foldl (fun n c => n * 10 + (c.toNat - 0x30)) 0 = n % 10 ^ w := by
  induction w with
  | zero => intro n; simp [lastDigits, Nat.mod_one]
  | succ w ih =>
      intro n
      simp only [lastDigits, List.foldl_append, ih, List.foldl_cons, List.foldl_nil, lastDigit_toNat]
      rw [pow_succ, Nat.mul_comm (10 ^ w) 10, Nat.mod_mul]
      omega

/-- Two texts of fixed width one after the other. -/
theorem lastDigits_append {a b m n : Nat} (hn : n < 10 ^ b) :
    lastDigits a m ++ lastDigits b n = lastDigits (a + b) (m * 10 ^ b + n) := by
  induction b generalizing n with
  | zero =>
      obtain rfl : n = 0 := by omega
      simp [lastDigits]
  | succ b ih =>
      have hdiv : n / 10 < 10 ^ b := by
        rw [pow_succ] at hn
        omega
      have hfront : (m * 10 ^ (b + 1) + n) / 10 = m * 10 ^ b + n / 10 := by
        rw [pow_succ, ← Nat.mul_assoc]
        omega
      have hlast : lastDigit (m * 10 ^ (b + 1) + n) = lastDigit n := by
        rw [lastDigit, lastDigit, pow_succ, ← Nat.mul_assoc, Nat.add_comm _ n, Nat.add_mul_mod_self_right]
      rw [← Nat.add_assoc, lastDigits, lastDigits, ← List.append_assoc, ih hdiv, hfront, hlast]

theorem decimal_eq {w n : Nat} (hn : n < 10 ^ w) (hw : 0 < w) : decimal w n = lastDigits w n := by
  have hlog : Nat.log 10 n < w := Nat.log_lt_of_lt_pow' hw.ne' hn
  unfold decimal
  rw [max_eq_left hlog]

theorem isDigit_of_mem_decimal {w n : Nat} {c : UInt8} (h : c ∈ decimal w n) : isDigit c = true :=
  isDigit_of_mem_lastDigits h

theorem decimal_length {w n : Nat} (hn : n < 10 ^ w) (hw : 0 < w) : (decimal w n).length = w := by
  rw [decimal_eq hn hw, lastDigits_length]

theorem foldl_decimal (w n : Nat) : (decimal w n).foldl (fun n c => n * 10 + (c.toNat - 0x30)) 0 = n := by
  rw [decimal, foldl_lastDigits, Nat.mod_eq_of_lt]
  calc n < 10 ^ (Nat.log 10 n + 1) := Nat.lt_pow_succ_log_self (by decide) n
    _ ≤ 10 ^ max w (Nat.log 10 n + 1) := Nat.pow_le_pow_right (by decide) (le_max_right _ _)

theorem decimal_injective (w : Nat) : Function.Injective (decimal w) := fun m n h => by
  rw [← foldl_decimal w m, h, foldl_decimal]

/-- `atoi` reads a number back, whatever follows it that is not a digit. -/
theorem atoi_decimal {w n : Nat} {rest : List UInt8} (hrest : rest.head?.all (! isDigit ·)) :
    atoi (decimal w n ++ rest) = n := by
  have htake : (decimal w n ++ rest).takeWhile isDigit = decimal w n := by
    rw [List.takeWhile_append_of_pos fun c hc => isDigit_of_mem_decimal hc]
    cases rest with
    | nil => rw [List.takeWhile_nil, List.append_nil]
    | cons c rest =>
        have hc : isDigit c = false := by simpa using hrest
        rw [List.takeWhile_cons_of_neg (by simp [hc]), List.append_nil]
  have hvalue : digitsValue (decimal w n ++ rest) = n := by rw [digitsValue, htake, foldl_decimal]
  have hpos : 0 < (decimal w n).length := by
    rw [decimal, lastDigits_length]
    omega
  obtain ⟨c, s, hcs⟩ := List.exists_cons_of_length_pos hpos
  have hdigit : isDigit c = true := isDigit_of_mem_decimal (w := w) (n := n) (by rw [hcs]; exact List.mem_cons_self)
  have hrange : 0x30 ≤ c.toNat ∧ c.toNat ≤ 0x39 := by
    simpa [isDigit, UInt8.le_iff_toNat_le] using hdigit
  have hspace : isSpace c = false := by
    simp only [isSpace, Bool.or_eq_false_iff, Bool.and_eq_false_iff, decide_eq_false_iff_not,
      UInt8.le_iff_toNat_le, UInt8.toNat_inj.symm.eq]
    exact ⟨by simp; omega, by simp; omega⟩
  have hminus : c ≠ 0x2D := fun he => by simp [he] at hrange
  have hplus : c ≠ 0x2B := fun he => by simp [he] at hrange
  unfold atoi
  rw [hcs, List.cons_append, List.dropWhile_cons_of_neg (by simp [hspace])]
  dsimp only
  rw [if_neg hminus, if_neg hplus, ← List.cons_append, ← hcs, hvalue]

/-! ## Order -/

theorem strcmpPos_append (s t u : List UInt8) : strcmpPos (s ++ t) (s ++ u) = strcmpPos t u := by
  induction s with
  | nil => rfl
  | cons c s ih => simp [strcmpPos, ih]

/-- Of two different texts of one length what follows does not matter. -/
theorem strcmpPos_append_of_ne {s t : List UInt8} (hlen : s.length = t.length) (hne : s ≠ t) (u v : List UInt8) :
    strcmpPos (s ++ u) (t ++ v) = strcmpPos s t := by
  induction s generalizing t with
  | nil =>
      cases t with
      | nil => exact absurd rfl hne
      | cons d t => simp at hlen
  | cons c s ih =>
      cases t with
      | nil => simp at hlen
      | cons d t =>
          simp only [List.cons_append, strcmpPos]
          by_cases hcd : c = d
          · subst hcd
            rw [if_pos rfl, if_pos rfl]
            exact ih (by simpa using hlen) fun he => hne (by rw [he])
          · rw [if_neg hcd, if_neg hcd]

theorem strcmpPos_lastDigits (w : Nat) : ∀ {m n : Nat}, m < 10 ^ w → n < 10 ^ w →
    (strcmpPos (lastDigits w m) (lastDigits w n) = true ↔ n < m) := by
  induction w with
  | zero => intro m n hm hn; simp [lastDigits, strcmpPos]; omega
  | succ w ih =>
      intro m n hm hn
      have hm' : m / 10 < 10 ^ w := by rw [pow_succ] at hm; omega
      have hn' : n / 10 < 10 ^ w := by rw [pow_succ] at hn; omega
      unfold lastDigits
      by_cases hhead : lastDigits w (m / 10) = lastDigits w (n / 10)
      · have hdiv : m / 10 = n / 10 := by
          have := congrArg (List.foldl (fun n c => n * 10 + (c.toNat - 0x30)) 0) hhead
          rwa [foldl_lastDigits, foldl_lastDigits, Nat.mod_eq_of_lt hm', Nat.mod_eq_of_lt hn'] at this
        rw [hhead, strcmpPos_append]
        by_cases hlast : m % 10 = n % 10
        · have : m = n := by omega
          subst this
          simp [strcmpPos]
        · have hne : lastDigit m ≠ lastDigit n := fun he => by
            have := congrArg UInt8.toNat he
            rw [lastDigit_toNat, lastDigit_toNat] at this
            omega
          simp only [strcmpPos, if_neg hne, decide_eq_true_eq, UInt8.lt_iff_toNat_lt, lastDigit_toNat]
          omega
      · rw [strcmpPos_append_of_ne (by simp) hhead, ih hm' hn']
        have hdiv : m / 10 ≠ n / 10 := fun he => hhead (by rw [he])
        omega

end Taomee
