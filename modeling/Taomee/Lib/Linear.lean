import Mathlib.Logic.Basic

/-!
# Words that are linear in exclusive or

A word that is computed with shifts, masks and exclusive ors is linear, and so is one put together with `|||`
from parts that have no bit in common. So the bits that a word may have are kept beside.
-/

namespace Taomee

variable {α : Type*} {op : α → α → α} {v w : Nat} {f g : α → BitVec w} {m m' : BitVec w}

/-- `f` takes `op` to exclusive or, and has no bits outside of `m`. -/
structure LinearIn (op : α → α → α) (m : BitVec w) (f : α → BitVec w) : Prop where
  map_op : ∀ a b, f (op a b) = f a ^^^ f b
  mask : ∀ a, f a &&& m = f a

theorem or_eq_xor {x y : BitVec w} (h : x &&& y = 0) : x ||| y = x ^^^ y := by
  refine BitVec.eq_of_getLsbD_eq fun i _ => ?_
  have hi := congrArg (fun z : BitVec w => z.getLsbD i) h
  simp only [BitVec.getLsbD_and, BitVec.ofNat_eq_ofNat, BitVec.getLsbD_zero] at hi
  rw [BitVec.getLsbD_or, BitVec.getLsbD_xor]
  cases hx : x.getLsbD i with
  | false => simp
  | true =>
      rw [hx, Bool.true_and] at hi
      rw [hi]
      rfl

theorem xor_and (x y c : BitVec w) : (x ^^^ y) &&& c = (x &&& c) ^^^ (y &&& c) := by
  refine BitVec.eq_of_getLsbD_eq fun i _ => ?_
  simp only [BitVec.getLsbD_and, BitVec.getLsbD_xor]
  cases c.getLsbD i <;> simp

theorem and_eq_zero_of_masks {x y : BitVec w} (hx : x &&& m = x) (hy : y &&& m' = y) (h : m &&& m' = 0) :
    x &&& y = 0 := by
  calc x &&& y = (x &&& m) &&& (m' &&& y) := by rw [hx, BitVec.and_comm m', hy]
    _ = x &&& (m &&& m') &&& y := by simp only [BitVec.and_assoc]
    _ = 0 := by simp [h]

namespace LinearIn

theorem id : LinearIn (· ^^^ ·) (BitVec.allOnes w) fun x : BitVec w => x :=
  ⟨fun _ _ => rfl, fun _ => BitVec.and_allOnes⟩

theorem zero : LinearIn op (0 : BitVec w) fun _ => 0 := ⟨fun _ _ => by simp, fun _ => by simp⟩

theorem congr (hf : LinearIn op m f) (h : ∀ a, g a = f a) : LinearIn op m g := funext h ▸ hf

theorem mono (hf : LinearIn op m f) (h : m &&& m' = m) : LinearIn op m' f := by
  refine ⟨hf.map_op, fun a => ?_⟩
  calc f a &&& m' = f a &&& (m &&& m') := by rw [← BitVec.and_assoc, hf.mask]
    _ = f a := by rw [h, hf.mask]

theorem shiftLeft (hf : LinearIn op m f) (n : Nat) : LinearIn op (m <<< n) fun a => f a <<< n := by
  refine ⟨fun a b => ?_, fun a => ?_⟩
  · rw [hf.map_op, BitVec.shiftLeft_xor_distrib]
  · rw [← BitVec.shiftLeft_and_distrib, hf.mask]

theorem shiftRight (hf : LinearIn op m f) (n : Nat) : LinearIn op (m >>> n) fun a => f a >>> n := by
  refine ⟨fun a b => ?_, fun a => ?_⟩
  · rw [hf.map_op, BitVec.ushiftRight_xor_distrib]
  · rw [← BitVec.ushiftRight_and_distrib, hf.mask]

theorem and (hf : LinearIn op m f) (c : BitVec w) : LinearIn op (m &&& c) fun a => f a &&& c := by
  refine ⟨fun a b => ?_, fun a => ?_⟩
  · rw [hf.map_op, xor_and]
  · calc f a &&& c &&& (m &&& c) = f a &&& m &&& (c &&& c) := by ac_rfl
      _ = f a &&& c := by rw [hf.mask, BitVec.and_self]

theorem xor (hf : LinearIn op m f) (hg : LinearIn op m' g) : LinearIn op (m ||| m') fun a => f a ^^^ g a := by
  refine ⟨fun a b => ?_, fun a => ?_⟩
  · rw [hf.map_op, hg.map_op]
    ac_rfl
  · refine BitVec.eq_of_getLsbD_eq fun i _ => ?_
    have hfi := congrArg (fun z : BitVec w => z.getLsbD i) (hf.mask a)
    have hgi := congrArg (fun z : BitVec w => z.getLsbD i) (hg.mask a)
    simp only [BitVec.getLsbD_and, BitVec.getLsbD_xor, BitVec.getLsbD_or] at hfi hgi ⊢
    cases hm : m.getLsbD i <;> cases hm' : m'.getLsbD i <;> simp_all

theorem or (hf : LinearIn op m f) (hg : LinearIn op m' g) (h : m &&& m' = 0) :
    LinearIn op (m ||| m') fun a => f a ||| g a := by
  have heq : (fun a => f a ||| g a) = fun a => f a ^^^ g a := by
    funext a
    exact or_eq_xor (and_eq_zero_of_masks (hf.mask a) (hg.mask a) h)
  rw [heq]
  exact hf.xor hg

/-- A table that is linear on the words that are looked up. -/
theorem lookup {table : BitVec w → BitVec v} {m' : BitVec v} (hf : LinearIn op m f)
    (hxor : ∀ x y, x &&& m = x → y &&& m = y → table (x ^^^ y) = table x ^^^ table y)
    (hmask : ∀ x, x &&& m = x → table x &&& m' = table x) : LinearIn op m' fun a => table (f a) := by
  refine ⟨fun a b => ?_, fun a => hmask _ (hf.mask a)⟩
  rw [hf.map_op]
  exact hxor _ _ (hf.mask a) (hf.mask b)

end LinearIn

end Taomee
