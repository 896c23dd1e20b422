import Mathlib.Algebra.Group.Int.Defs
import Mathlib.Algebra.GroupWithZero.Nat
import Mathlib.Data.List.Basic

/-!
# Addresses in dotted form

`inet_pton` for IPv4: four decimal numbers of one to three digits, each at most 255 and without a leading
zero, with dots between.
-/

namespace Taomee

/-- The value of one to three decimal digits, at most 255. Nothing may follow a leading zero. -/
def octet (s : List UInt8) : Option Nat :=
  let n := s.foldl (fun n c => n * 10 + (c.toNat - 48)) 0
  if s ≠ [] ∧ s.length ≤ 3 ∧ (s.all fun c => 48 ≤ c && c ≤ 57) ∧ (s.length = 1 ∨ s.head? ≠ some 48) ∧ n ≤ 255 then some n
  else none

/-- `inet_pton(AF_INET, s, …)`: the address, with its first byte lowest as it is stored. -/
def inetPton (s : List UInt8) : Option Nat :=
  match (s.splitOn 46).map octet with
  | [some a, some b, some c, some d] => some (a + b * 2 ^ 8 + c * 2 ^ 16 + d * 2 ^ 24)
  | _ => none

theorem octet_some {s : List UInt8} {n : Nat} (h : octet s = some n) :
    s.length ≤ 3 ∧ ∀ c ∈ s, c ≠ 0 := by
  unfold octet at h
  dsimp only at h
  split at h
  · rename_i hs
    refine ⟨hs.2.1, fun c hc h0 => ?_⟩
    have hdigit := List.all_eq_true.mp hs.2.2.1 c hc
    rw [h0] at hdigit
    exact absurd hdigit (by decide)
  · cases h

theorem inetPton_some {s : List UInt8} {n : Nat} (h : inetPton s = some n) :
    ∃ a b c d, s.splitOn 46 = [a, b, c, d] ∧ (octet a).isSome ∧ (octet b).isSome ∧ (octet c).isSome ∧
      (octet d).isSome := by
  unfold inetPton at h
  split at h
  · rename_i a b c d hparts
    obtain ⟨sa, la, hsplit, ha, hparts⟩ := List.map_eq_cons_iff.mp hparts
    obtain ⟨sb, lb, rfl, hb, hparts⟩ := List.map_eq_cons_iff.mp hparts
    obtain ⟨sc, lc, rfl, hc, hparts⟩ := List.map_eq_cons_iff.mp hparts
    obtain ⟨sd, ld, rfl, hd, hparts⟩ := List.map_eq_cons_iff.mp hparts
    obtain rfl := List.map_eq_nil_iff.mp hparts
    exact ⟨sa, sb, sc, sd, hsplit, by rw [ha]; rfl, by rw [hb]; rfl, by rw [hc]; rfl, by rw [hd]; rfl⟩
  · cases h

/-- An address is a string that is not empty and fits into `INET_ADDRSTRLEN` bytes with its NUL. -/
theorem inetPton_string {s : List UInt8} {n : Nat} (h : inetPton s = some n) :
    s ≠ [] ∧ s.length < 16 ∧ 0 ∉ s := by
  obtain ⟨a, b, c, d, hsplit, ha, hb, hc, hd⟩ := inetPton_some h
  have hs : s = a ++ 46 :: (b ++ 46 :: (c ++ 46 :: d)) := by
    rw [← @List.intercalate_splitOn _ s _ _ 46, hsplit]
    simp [List.intercalate]
  obtain ⟨na, ha⟩ := Option.isSome_iff_exists.mp ha
  obtain ⟨nb, hb⟩ := Option.isSome_iff_exists.mp hb
  obtain ⟨nc, hc⟩ := Option.isSome_iff_exists.mp hc
  obtain ⟨nd, hd⟩ := Option.isSome_iff_exists.mp hd
  obtain ⟨hla, h0a⟩ := octet_some ha
  obtain ⟨hlb, h0b⟩ := octet_some hb
  obtain ⟨hlc, h0c⟩ := octet_some hc
  obtain ⟨hld, h0d⟩ := octet_some hd
  refine ⟨by rw [hs]; simp, ?_, ?_⟩
  · rw [hs]
    simp only [List.length_append, List.length_cons]
    omega
  · rw [hs]
    simp only [List.mem_append, List.mem_cons]
    rintro (h0 | h0 | h0 | h0 | h0 | h0 | h0)
    · exact h0a 0 h0 rfl
    · exact absurd h0 (by decide)
    · exact h0b 0 h0 rfl
    · exact absurd h0 (by decide)
    · exact h0c 0 h0 rfl
    · exact absurd h0 (by decide)
    · exact h0d 0 h0 rfl

/-- `127.0.0.1`. -/
example : inetPton [49, 50, 55, 46, 48, 46, 48, 46, 49] = some (127 + 2 ^ 24) := by decide

/-- `010.0.0.1` is none. -/
example : inetPton [48, 49, 48, 46, 48, 46, 48, 46, 49] = none := by decide

end Taomee
