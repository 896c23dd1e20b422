import Mathlib.Data.List.Infix

/-!
# UTF-8 byte sequences

A text is valid when it is the concatenation of encoded characters. An encoded character is one
ASCII byte, or a lead byte that gives the length and continuation bytes; so the ends of characters
can be told from the bytes.
-/

namespace Taomee.Utf8

/-- The bytes are the UTF-8 encoding of some characters. -/
def Valid (s : List UInt8) : Prop := ∃ cs : List Char, s = cs.flatMap String.utf8EncodeChar

/-- A continuation byte. -/
def isCont (c : UInt8) : Bool := 0x80 ≤ c && c < 0xC0

/-- The first byte of a character of several bytes. -/
def isLead (c : UInt8) : Bool := 0xC0 ≤ c

/-- The length of the character that a lead byte starts. -/
def charLen (c : UInt8) : Nat := if c < 0xE0 then 2 else if c < 0xF0 then 3 else 4

/-- A character of several bytes. -/
inductive Multi : List UInt8 → Prop
  | mk (l : UInt8) (es : List UInt8) : isLead l → es.length + 1 = charLen l →
      (∀ x ∈ es, isCont x) → Multi (l :: es)

theorem isCont_ofNat : ∀ n < 64, isCont (UInt8.ofNat (n + 0x80)) := by decide

theorem lead_ofNat_two : ∀ n < 32,
    isLead (UInt8.ofNat (n + 0xC0)) ∧ charLen (UInt8.ofNat (n + 0xC0)) = 2 := by decide

theorem lead_ofNat_three : ∀ n < 16,
    isLead (UInt8.ofNat (n + 0xE0)) ∧ charLen (UInt8.ofNat (n + 0xE0)) = 3 := by decide

theorem lead_ofNat_four : ∀ n < 8,
    isLead (UInt8.ofNat (n + 0xF0)) ∧ charLen (UInt8.ofNat (n + 0xF0)) = 4 := by decide

theorem ascii_ofNat : ∀ n < 128, UInt8.ofNat n < 0x80 := by decide

/-- The encoding of a character is an ASCII byte or a character of several bytes. -/
theorem utf8EncodeChar_shape (c : Char) :
    (∃ b, String.utf8EncodeChar c = [b] ∧ b < 0x80) ∨ Multi (String.utf8EncodeChar c) := by
  unfold String.utf8EncodeChar
  generalize c.val.toNat = v
  have hcont : ∀ n, isCont (UInt8.ofNat (n % 0x40 + 0x80)) :=
    fun n => isCont_ofNat _ (Nat.mod_lt _ (by decide))
  simp only
  split
  · exact .inl ⟨_, rfl, ascii_ofNat v (by omega)⟩
  split
  · obtain ⟨hl, hn⟩ := lead_ofNat_two (v / 64 % 0x20) (Nat.mod_lt _ (by decide))
    refine .inr (.mk _ _ hl hn.symm ?_)
    simp only [List.mem_cons, List.not_mem_nil, or_false, forall_eq]
    exact hcont _
  split
  · obtain ⟨hl, hn⟩ := lead_ofNat_three (v / 4096 % 0x10) (Nat.mod_lt _ (by decide))
    refine .inr (.mk _ _ hl hn.symm ?_)
    simp only [List.mem_cons, List.not_mem_nil, or_false, forall_eq_or_imp, forall_eq]
    exact ⟨hcont _, hcont _⟩
  · obtain ⟨hl, hn⟩ := lead_ofNat_four (v / 262144 % 0x08) (Nat.mod_lt _ (by decide))
    refine .inr (.mk _ _ hl hn.symm ?_)
    simp only [List.mem_cons, List.not_mem_nil, or_false, forall_eq_or_imp, forall_eq]
    exact ⟨hcont _, hcont _, hcont _⟩

theorem valid_nil : Valid [] := ⟨[], rfl⟩

theorem Valid.append {s t : List UInt8} (hs : Valid s) (ht : Valid t) : Valid (s ++ t) := by
  obtain ⟨cs, rfl⟩ := hs
  obtain ⟨ds, rfl⟩ := ht
  exact ⟨cs ++ ds, by simp⟩

theorem valid_char (c : Char) : Valid (String.utf8EncodeChar c) := ⟨[c], by simp⟩

theorem byte_ofNat_ne : (∀ n < 240, UInt8.ofNat n ≠ 0xFF) ∧ ∀ n < 8, UInt8.ofNat (n + 0xF0) ≠ 0xFF := by
  decide +kernel

/-- Byte 255 begins no character and continues none. -/
theorem notMem_utf8EncodeChar (c : Char) : 0xFF ∉ String.utf8EncodeChar c := by
  unfold String.utf8EncodeChar
  generalize c.val.toNat = v
  have hlow : ∀ {n : Nat}, n < 240 → (0xFF : UInt8) ≠ UInt8.ofNat n := fun h => (byte_ofNat_ne.1 _ h).symm
  have hcont : ∀ n, (0xFF : UInt8) ≠ UInt8.ofNat (n % 0x40 + 0x80) := fun n => hlow (by omega)
  simp only
  split
  · simp only [List.mem_cons, List.not_mem_nil, or_false]
    exact hlow (by omega)
  split
  · simp only [List.mem_cons, List.not_mem_nil, or_false, not_or]
    exact ⟨hlow (by omega), hcont _⟩
  split
  · simp only [List.mem_cons, List.not_mem_nil, or_false, not_or]
    exact ⟨hlow (by omega), hcont _, hcont _⟩
  · simp only [List.mem_cons, List.not_mem_nil, or_false, not_or]
    exact ⟨(byte_ofNat_ne.2 _ (Nat.mod_lt _ (by decide))).symm, hcont _, hcont _, hcont _⟩

theorem Valid.notMem {s : List UInt8} (h : Valid s) : 0xFF ∉ s := by
  obtain ⟨cs, rfl⟩ := h
  intro hmem
  obtain ⟨c, -, hc⟩ := List.mem_flatMap.mp hmem
  exact notMem_utf8EncodeChar c hc

/-- What follows an ASCII byte in a valid text is valid. -/
theorem Valid.of_cons {b : UInt8} {s : List UInt8} (h : Valid (b :: s)) (hb : isLead b = false) :
    Valid s := by
  obtain ⟨cs, hcs⟩ := h
  cases cs with
  | nil => exact absurd hcs (by simp)
  | cons c cs =>
      rw [List.flatMap_cons] at hcs
      rcases utf8EncodeChar_shape c with ⟨b', he, -⟩ | hm
      · rw [he, List.singleton_append] at hcs
        exact ⟨cs, (List.cons.inj hcs).2⟩
      · generalize String.utf8EncodeChar c = e at hm hcs
        obtain ⟨l, es, hl, -, -⟩ := hm
        rw [(List.cons.inj hcs).1, hl] at hb
        exact Bool.noConfusion hb

/-- What follows a lead byte in a valid text is a continuation byte. -/
theorem Valid.cont_of_lead {l x : UInt8} {s : List UInt8} (h : Valid (l :: x :: s))
    (hl : isLead l = true) : isCont x = true := by
  obtain ⟨cs, hcs⟩ := h
  cases cs with
  | nil => exact absurd hcs (by simp)
  | cons c cs =>
      rw [List.flatMap_cons] at hcs
      rcases utf8EncodeChar_shape c with ⟨b, he, hb⟩ | hm
      · rw [he, List.singleton_append] at hcs
        obtain ⟨rfl, -⟩ := List.cons.inj hcs
        unfold isLead at hl
        simp only [decide_eq_true_eq, UInt8.le_iff_toNat_le, UInt8.lt_iff_toNat_lt] at hl hb
        simp at hl hb
        omega
      · generalize String.utf8EncodeChar c = e at hm hcs
        obtain ⟨l', es, hl', hlen, hes⟩ := hm
        cases es with
        | nil =>
            unfold charLen at hlen
            split at hlen <;> simp at hlen
            split at hlen <;> simp at hlen
        | cons y es =>
            obtain ⟨-, hrest⟩ := List.cons.inj hcs
            rw [(List.cons.inj hrest).1]
            exact hes y List.mem_cons_self

theorem valid_replicate {c : Char} {b : UInt8} (h : String.utf8EncodeChar c = [b]) (n : Nat) :
    Valid (List.replicate n b) := by
  induction n with
  | zero => exact valid_nil
  | succ n ih => exact (h ▸ valid_char c).append ih

end Taomee.Utf8
