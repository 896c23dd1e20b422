import Taomee.Config.Grammar

/-!
# Cutting a line into fields

`str_split` for any number of fields. The fields are the maximal runs of non-separators, except that the last
one asked for takes the rest of the line up to its last non-separator.
-/

namespace Taomee.Config

/-- `default_ifs`: space, tab, CR, LF and `=`. -/
def defaultIfs (c : UInt8) : Bool := c = 0x20 || c = 0x09 || c = 0x0D || c = 0x0A || c = 0x3D

/-- `str_split(ifs, line, field, n)` for the line at the beginning of a buffer of `size` bytes: where the fields
start, and the buffer afterwards. There is no result when a byte outside of the buffer is read or written. -/
def strSplitIn (ifs : Option (UInt8 → Bool)) (size : Nat) (buf : Buf) (n : Nat) : Option (List Nat × Buf) :=
  strSplitLoopIn (ifs.getD defaultIfs) size (n - 1) buf 0

/-- The maximal runs of non-separators of a line. -/
def runs (sep : UInt8 → Bool) (line : List UInt8) : List (List UInt8) :=
  (line.splitOnP sep).filter fun run => !run.isEmpty

variable {sep : UInt8 → Bool} {line : List UInt8}

/-! ## Runs -/

theorem runs_cons_sep {d : UInt8} (hd : sep d = true) (line : List UInt8) : runs sep (d :: line) = runs sep line := by
  unfold runs
  rw [List.splitOnP_cons_eq_if_modifyHead, if_pos hd]
  rfl

/-- The separators in front of a line belong to no run. -/
theorem runs_dropWhile (sep : UInt8 → Bool) (line : List UInt8) : runs sep (line.dropWhile sep) = runs sep line := by
  induction line with
  | nil => rfl
  | cons d line ih =>
      by_cases hd : sep d = true
      · rw [List.dropWhile_cons_of_pos hd, ih, runs_cons_sep hd]
      · rw [List.dropWhile_cons_of_neg hd]

/-- A line that starts with a non-separator starts with a run. -/
theorem runs_cons {c : UInt8} (hc : ¬ sep c = true) (rest : List UInt8) :
    runs sep (c :: rest) =
      ((c :: rest).takeWhile fun b => !sep b) :: runs sep ((c :: rest).dropWhile fun b => !sep b) := by
  have hword : (c :: rest).takeWhile (fun b => !sep b) ++ (c :: rest).dropWhile (fun b => !sep b) = c :: rest :=
    List.takeWhile_append_dropWhile
  have hne : (c :: rest).takeWhile (fun b => !sep b) ≠ [] := by
    rw [List.takeWhile_cons_of_pos (by simpa using hc)]
    exact List.cons_ne_nil _ _
  have hnot : ∀ b ∈ (c :: rest).takeWhile (fun b => !sep b), sep b = false := by
    intro b hb
    simpa using List.mem_takeWhile_imp hb
  have hfilter : (fun run : List UInt8 => !run.isEmpty) ((c :: rest).takeWhile fun b => !sep b) = true := by
    simpa using hne
  cases htail : (c :: rest).dropWhile (fun b => !sep b) with
  | nil =>
      rw [htail, List.append_nil] at hword
      rw [hword] at hnot hfilter ⊢
      unfold runs
      rw [List.splitOnP_eq_singleton hnot, List.filter_cons_of_pos (p := fun run : List UInt8 => !run.isEmpty) hfilter]
      rfl
  | cons d tail =>
      have hd : sep d = true := by simpa using dropWhile_cons_not htail
      rw [htail] at hword
      rw [runs_cons_sep hd]
      generalize (c :: rest).takeWhile (fun b => !sep b) = word at hword hnot hfilter ⊢
      rw [← hword]
      unfold runs
      rw [List.splitOnP_append_cons_of_forall_mem hnot d hd, List.filter_cons_of_pos (p := fun run : List UInt8 => !run.isEmpty) hfilter]

/-- The fields of a line are its runs, and at the end what is left of the line from a run on. -/
theorem splitFields_eq (sep : UInt8 → Bool) (left : Nat) (line : List UInt8) :
    ∃ rest, rest <:+ line ∧ rest.dropWhile sep = rest ∧ runs sep rest = (runs sep line).drop left ∧
      splitFields sep left line = (runs sep line).take left ++ if rest = [] then [] else [rest.rdropWhile sep] := by
  induction left generalizing line with
  | zero =>
      refine ⟨line.dropWhile sep, List.dropWhile_suffix sep, List.dropWhile_idempotent sep line, runs_dropWhile sep line, ?_⟩
      unfold splitFields
      cases line.dropWhile sep with
      | nil => rfl
      | cons c rest => rfl
  | succ left ih =>
      unfold splitFields
      cases hr : line.dropWhile sep with
      | nil =>
          have hnone : runs sep line = [] := by
            rw [← runs_dropWhile, hr]
            rfl
          refine ⟨[], List.nil_suffix, rfl, ?_, ?_⟩
          · rw [hnone]
            rfl
          · rw [hnone]
            rfl
      | cons c rest =>
          obtain ⟨last, hsuffix, hstart, hruns, hfields⟩ := ih ((c :: rest).dropWhile fun b => !sep b)
          have hcons : runs sep line =
              ((c :: rest).takeWhile fun b => !sep b) :: runs sep ((c :: rest).dropWhile fun b => !sep b) := by
            rw [← runs_dropWhile, hr]
            exact runs_cons (dropWhile_cons_not hr) rest
          have hline : ((c :: rest).dropWhile fun b => !sep b) <:+ line :=
            (List.dropWhile_suffix _).trans (hr ▸ List.dropWhile_suffix sep)
          refine ⟨last, hsuffix.trans hline, hstart, ?_, ?_⟩
          · rw [hcons, hruns, List.drop_succ_cons]
          · rw [hcons, List.take_succ_cons, List.cons_append, ← hfields]

/-- Something is left of a line from a run on exactly when it has a run there. -/
theorem runs_eq_nil_iff {rest : List UInt8} (h : rest.dropWhile sep = rest) : runs sep rest = [] ↔ rest = [] := by
  constructor
  · intro hruns
    cases rest with
    | nil => rfl
    | cons c rest =>
        rw [runs_cons (dropWhile_cons_not h)] at hruns
        exact absurd hruns (List.cons_ne_nil _ _)
  · intro hnil
    rw [hnil]
    rfl

/-! ## The fields that are found -/

/-- `str_split` finds as many fields as there are runs, but not more than asked for, and stays on the line and its
terminator. The fields before the last one asked for are runs; that one is the rest of the line from its run on,
without the separators at its end. -/
theorem strSplitIn_fields {ifs : UInt8 → Bool} (h0 : ifs 0 = false) {n : Nat} (hn : 1 ≤ n) {buf : Buf}
    {line : List UInt8} (h : CStr buf 0 line) :
    ∃ fields buf', strSplitIn (some ifs) (line.length + 1) buf n = some (fields, buf') ∧
      fields.length = min n (runs ifs line).length ∧
      (∀ i q run, i + 1 < n → fields[i]? = some q → (runs ifs line)[i]? = some run → CStr buf' q run) ∧
      (fields.length = n → ∃ q rest, fields[n - 1]? = some q ∧ rest <:+ line ∧ rest.dropWhile ifs = rest ∧
        runs ifs rest = (runs ifs line).drop (n - 1) ∧ CStr buf' q (rest.rdropWhile ifs)) := by
  obtain ⟨left, rfl⟩ : ∃ left, n = left + 1 := ⟨n - 1, by omega⟩
  obtain ⟨fields, buf', hloop, hfields, -⟩ :=
    @strSplitLoop_spec _ (line.length + 1) _ _ h0 left _ h (by omega)
  obtain ⟨rest, hsuffix, hstart, hruns, hsplit⟩ := splitFields_eq ifs left line
  have hin := @strSplitLoopIn_eq (line.length + 1) _ h0 left _ _ _ h (by omega)
  have hlen := hfields.length_eq
  have hget : ∀ (i q : Nat) (f : List UInt8), fields[i]? = some q → (splitFields ifs left line)[i]? = some f →
      CStr buf' q f := by
    intro i q f hq hf
    obtain ⟨hi, rfl⟩ := List.getElem?_eq_some_iff.mp hq
    obtain ⟨hi', rfl⟩ := List.getElem?_eq_some_iff.mp hf
    exact (hfields.get hi hi').1
  have hleft : (runs ifs rest).length = (runs ifs line).length - left := by rw [hruns, List.length_drop]
  have hzero : rest = [] ↔ (runs ifs rest).length = 0 := by
    rw [List.length_eq_zero_iff]
    exact (runs_eq_nil_iff hstart).symm
  rw [hloop] at hin
  rw [hsplit] at hlen hget
  have hcount : fields.length = min (left + 1) (runs ifs line).length := by
    by_cases hnil : rest = []
    · have hnone := hzero.mp hnil
      rw [hlen, if_pos hnil, List.append_nil, List.length_take]
      omega
    · have hsome := mt hzero.mpr hnil
      rw [hlen, if_neg hnil, List.length_append, List.length_take, List.length_singleton]
      omega
  refine ⟨fields, buf', hin, hcount, ?_, ?_⟩
  · intro i q run hi hq hrun
    have hilt : i < left := by omega
    obtain ⟨hlt, -⟩ := List.getElem?_eq_some_iff.mp hrun
    refine hget i q run hq ?_
    rw [List.getElem?_append_left (by rw [List.length_take]; omega), List.getElem?_take_of_lt hilt]
    exact hrun
  · intro hall
    have hnil : ¬ rest = [] := fun hnil => by
      have := hzero.mp hnil
      omega
    obtain ⟨q, hq⟩ : ∃ q, fields[left]? = some q :=
      ⟨fields[left], List.getElem?_eq_getElem (by omega)⟩
    refine ⟨q, rest, hq, hsuffix, hstart, hruns, hget left q _ hq ?_⟩
    have htake : ((runs ifs line).take left).length = left := by
      rw [List.length_take]
      omega
    rw [if_neg hnil, List.getElem?_append_right (by omega), htake, Nat.sub_self]
    rfl

/-- The line " a b ". -/
theorem strSplitIn_fields_sample : ∃ fields buf',
    strSplitIn (some defaultIfs) 6 (Buf.ofList [0x20, 0x61, 0x20, 0x62, 0x20]) 2 = some (fields, buf') ∧
      fields.length = 2 := by
  have hline : CStr (Buf.ofList [0x20, 0x61, 0x20, 0x62, 0x20]) 0 [0x20, 0x61, 0x20, 0x62, 0x20] :=
    ⟨rfl, by decide, rfl, by decide, rfl, by decide, rfl, by decide, rfl, by decide, rfl⟩
  obtain ⟨fields, buf', heq, hlen, -⟩ := strSplitIn_fields (show defaultIfs 0 = false from rfl) (show 1 ≤ 2 by decide) hline
  have hruns : (runs defaultIfs [0x20, 0x61, 0x20, 0x62, 0x20]).length = 2 := by decide
  rw [hruns] at hlen
  exact ⟨fields, buf', heq, hlen⟩

end Taomee.Config
