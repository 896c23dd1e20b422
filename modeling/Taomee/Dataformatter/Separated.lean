import Taomee.Dataformatter.HexText

/-!
# Digits with a separator between the bytes

`hex2str_s` puts each byte at a fixed stride. The NUL that `strcpy` leaves is where the next byte goes; the
last byte has none behind it, and the terminator goes one stride further.
-/

namespace Taomee.Dataformatter

/-- The digits of the bytes, with the separator between them. -/
def joined (sep srchex : List UInt8) : List UInt8 := sep.intercalate (srchex.map twoDigits)

/-- The digits of the bytes, with the separator behind each. -/
def blocks (sep srchex : List UInt8) : List UInt8 := srchex.flatMap fun hex => twoDigits hex ++ sep

theorem blocks_append (sep done : List UInt8) (hex : UInt8) :
    blocks sep (done ++ [hex]) = blocks sep done ++ (twoDigits hex ++ sep) := by
  unfold blocks
  rw [List.flatMap_append, List.flatMap_singleton]

theorem blocks_length (sep srchex : List UInt8) :
    (blocks sep srchex).length = srchex.length * (sep.length + 2) := by
  induction srchex with
  | nil => rw [List.length_nil, Nat.zero_mul]; rfl
  | cons hex srchex ih =>
      have hcons : blocks sep (hex :: srchex) = (twoDigits hex ++ sep) ++ blocks sep srchex := List.flatMap_cons
      rw [hcons, List.length_append, List.length_append, ih, twoDigits_length, List.length_cons, Nat.add_one_mul]
      omega

theorem joined_cons_cons (sep srchex : List UInt8) (hex hex' : UInt8) :
    joined sep (hex :: hex' :: srchex) = twoDigits hex ++ sep ++ joined sep (hex' :: srchex) :=
  List.intercalate_cons_cons

theorem joined_singleton (sep : List UInt8) (hex : UInt8) : joined sep [hex] = twoDigits hex :=
  List.intercalate_singleton

theorem joined_length (sep : List UInt8) {srchex : List UInt8} (h : srchex ≠ []) :
    (joined sep srchex).length = (srchex.length - 1) * (sep.length + 2) + 2 := by
  induction srchex with
  | nil => exact absurd rfl h
  | cons hex srchex ih =>
      cases srchex with
      | nil =>
          rw [joined_singleton, List.length_singleton, Nat.sub_self, Nat.zero_mul]
          rfl
      | cons hex' srchex =>
          rw [joined_cons_cons, List.length_append, List.length_append, ih (List.cons_ne_nil _ _),
            twoDigits_length]
          simp only [List.length_cons, Nat.add_sub_cancel, Nat.add_one_mul]
          omega

theorem joined_not_zero {sep : List UInt8} (hsep : 0 ∉ sep) (srchex : List UInt8) : 0 ∉ joined sep srchex := by
  induction srchex with
  | nil => exact List.not_mem_nil
  | cons hex srchex ih =>
      have hdigits : 0 ∉ twoDigits hex := by
        have := digits_not_zero [hex]
        rwa [digits_cons, digits, List.flatMap_nil, List.append_nil] at this
      cases srchex with
      | nil => rwa [joined_singleton]
      | cons hex' srchex =>
          rw [joined_cons_cons]
          intro h0
          rcases List.mem_append.mp h0 with h0 | h0
          · rcases List.mem_append.mp h0 with h0 | h0
            · exact hdigits h0
            · exact hsep h0
          · exact ih h0

/-! ## The loop -/

/-- Before the byte that follows `done`, its place is behind the blocks of `done`, and at most the NUL that
the last `strcpy` left is there. -/
def Placed (sep : List UInt8) (old dest : Buf) (done : List UInt8) : Prop :=
  ∀ more : List UInt8, 1 ≤ more.length →
    dest.write (done.length * (sep.length + 2)) more = old.write 0 (blocks sep done ++ more)

theorem Placed.start (sep : List UInt8) (old : Buf) : Placed sep old old [] := by
  intro more _
  rw [List.length_nil, Nat.zero_mul]
  rfl

/-- One byte with the separator behind it. -/
theorem Placed.next {sep done : List UInt8} {old dest : Buf} (h : Placed sep old dest done) (hex : UInt8) :
    Placed sep old (strcpy (hex2char hex dest (done.length * (sep.length + 2)))
      (done.length * (sep.length + 2) + 2) sep) (done ++ [hex]) := by
  intro more hmore
  have hstored : strcpy (hex2char hex dest (done.length * (sep.length + 2)))
      (done.length * (sep.length + 2) + 2) sep = old.write 0 (blocks sep (done ++ [hex]) ++ [0]) := by
    have happend := Buf.write_append dest (done.length * (sep.length + 2)) (twoDigits hex) (sep ++ [0])
    have hplace := h (twoDigits hex ++ (sep ++ [0])) (by simp; omega)
    unfold strcpy
    rw [hex2char_eq, blocks_append, List.append_assoc, List.append_assoc, ← hplace]
    exact happend
  have hover := @Buf.write_overwrite old 0 (blocks sep (done ++ [hex])) [0] more hmore
  rw [Nat.zero_add, blocks_length] at hover
  rw [hstored, hover]

theorem hex2strSLoop_eq {sep done srchex : List UInt8} {old dest : Buf} (h : Placed sep old dest done)
    (hne : srchex ≠ []) :
    hex2strSLoop (done.length + srchex.length) sep srchex done.length dest =
      old.write 0 (blocks sep done ++ joined sep srchex) := by
  induction srchex generalizing done dest with
  | nil => exact absurd rfl hne
  | cons hex srchex ih =>
      unfold hex2strSLoop
      cases srchex with
      | nil =>
          rw [if_neg (by simp), joined_singleton, ← h (twoDigits hex) (by simp), ← hex2char_eq]
          rfl
      | cons hex' srchex =>
          have hnext := ih (h.next hex) (List.cons_ne_nil _ _)
          have hlen : (done ++ [hex]).length = done.length + 1 := by simp
          have hsum : done.length + 1 + (hex' :: srchex).length = done.length + (hex :: hex' :: srchex).length := by
            simp only [List.length_cons]
            omega
          rw [hlen, hsum, blocks_append, List.append_assoc, ← joined_cons_cons] at hnext
          rw [if_pos (by simp only [List.length_cons]; omega)]
          exact hnext

theorem hex2strS_eq (dest : Buf) (sep : List UInt8) {srchex : List UInt8} (hne : srchex ≠ []) :
    hex2strS srchex dest sep =
      (dest.write 0 (joined sep srchex)).set (srchex.length * (sep.length + 2)) 0 := by
  have hloop := hex2strSLoop_eq (Placed.start sep dest) hne
  rw [List.length_nil, Nat.zero_add] at hloop
  unfold hex2strS
  rw [hloop]
  rfl

/-! ## The string that is left -/

/-- The string left is the joined one exactly when there is no byte, no separator, or when the byte behind the
last two digits was NUL before. -/
theorem hex2strS_joined_iff {sep : List UInt8} (hsep : 0 ∉ sep) (x : List UInt8) (dest : Buf) :
    CStr (hex2strS x dest sep) 0 (joined sep x) ↔
      x = [] ∨ sep = [] ∨ dest ((x.length - 1) * (sep.length + 2) + 2) = 0 := by
  by_cases hne : x = []
  · subst hne
    refine ⟨fun _ => .inl rfl, fun _ => ?_⟩
    change (dest.set (0 * (sep.length + 2)) 0) 0 = 0
    rw [Nat.zero_mul, Buf.set_self]
  · have hlen := joined_length sep hne
    have hbytes : 0 < x.length := List.length_pos_iff.mpr hne
    have hstride : x.length * (sep.length + 2) = (x.length - 1) * (sep.length + 2) + 2 + sep.length := by
      obtain ⟨n, hn⟩ : ∃ n, x.length = n + 1 := ⟨x.length - 1, by omega⟩
      rw [hn, Nat.add_sub_cancel, Nat.add_one_mul]
      omega
    have hend : hex2strS x dest sep (joined sep x).length = 0 ↔
        sep = [] ∨ dest ((x.length - 1) * (sep.length + 2) + 2) = 0 := by
      rw [hex2strS_eq dest sep hne, ← hlen]
      by_cases hs : sep = []
      · refine ⟨fun _ => .inl hs, fun _ => ?_⟩
        rw [hstride, ← hlen, hs, List.length_nil, Nat.add_zero, Buf.set_self]
      · have hpos : 0 < sep.length := List.length_pos_iff.mpr hs
        rw [Buf.set_ne _ _ (by omega), Buf.write_outside _ (by omega)]
        exact ⟨.inr, fun h => h.resolve_left hs⟩
    constructor
    · intro h
      have h' : CStr (hex2strS x dest sep) 0 (joined sep x ++ []) := by rwa [List.append_nil]
      have hzero := h'.drop
      rw [Nat.zero_add] at hzero
      exact .inr (hend.mp hzero)
    · intro h
      refine (CStr.of_write (joined_not_zero hsep x) dest 0).congr fun i _ hi => ?_
      rw [Nat.zero_add] at hi
      rcases Nat.lt_or_eq_of_le hi with hi | rfl
      · have hin := Buf.write_inside dest 0 (joined sep x) hi
        have hin' := Buf.write_inside dest 0 (joined sep x ++ [0]) (i := i) (by simp; omega)
        rw [Nat.zero_add] at hin hin'
        rw [hex2strS_eq dest sep hne, Buf.set_ne _ _ (by omega), hin, hin', List.getElem_append_left hi]
      · have hlast := Buf.write_inside dest 0 (joined sep x ++ [0]) (i := (joined sep x).length) (by simp)
        rw [Nat.zero_add] at hlast
        rw [hlast, List.getElem_append_right (Nat.le_refl _)]
        simpa using hend.mpr (h.resolve_left hne)

theorem hex2strS_joined_iff_sample : CStr (hex2strS [0xAB, 0xCD] (fun _ => 0) [0x7C]) 0
    [0x41, 0x42, 0x7C, 0x43, 0x44] := by
  have htext : joined [0x7C] [0xAB, 0xCD] = [0x41, 0x42, 0x7C, 0x43, 0x44] := by decide
  have h := (hex2strS_joined_iff (show (0 : UInt8) ∉ [0x7C] by decide) [0xAB, 0xCD] fun _ => 0).mpr (.inr (.inr rfl))
  rwa [htext] at h

/-- The two bytes of the source's own example, in a buffer that held letters. -/
theorem not_hex2strS_joined : ¬ ∀ (x : List UInt8) (dest : Buf) (sep : List UInt8), 0 ∉ sep →
    CStr (hex2strS x dest sep) 0 (joined sep x) := by
  intro h
  have hstr : CStr (hex2strS [0xAB, 0xCD] (fun _ => 0x41) [0x7C]) 0 (joined [0x7C] [0xAB, 0xCD] ++ []) :=
    h [0xAB, 0xCD] (fun _ => 0x41) [0x7C] (by decide)
  have hzero : hex2strS [0xAB, 0xCD] (fun _ => 0x41) [0x7C] 5 = 0 := hstr.drop
  exact absurd hzero (by decide)

end Taomee.Dataformatter
