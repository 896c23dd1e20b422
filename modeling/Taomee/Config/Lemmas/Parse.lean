import Mathlib.Data.List.Forall2
import Taomee.Config.Config

/-!
# What the parser reads

A line is cut into fields at maximal runs of separators; a text assigns, line by line, the first
field of the line to its rest without the separators around it. The loops on the buffer compute
exactly this.
-/

namespace Taomee.Config

variable {buf : Buf} {size p : Nat}

/-! ## Fields of a line -/

/-- The fields of a line: `left` runs of non-separators, and one more field that takes the rest of
the line up to its last non-separator. -/
def splitFields (sep : UInt8 → Bool) (left : Nat) (line : List UInt8) : List (List UInt8) :=
  match line.dropWhile sep with
  | [] => []
  | c :: rest =>
      match left with
      | 0 => [(c :: rest).rdropWhile sep]
      | left + 1 =>
          (c :: rest).takeWhile (fun b => !sep b) ::
            splitFields sep left ((c :: rest).dropWhile fun b => !sep b)

theorem splitFields_cons_sep {sep : UInt8 → Bool} {d : UInt8} (hd : sep d) (left : Nat)
    (line : List UInt8) : splitFields sep left (d :: line) = splitFields sep left line := by
  unfold splitFields
  rw [List.dropWhile_cons_of_pos hd]

theorem dropWhile_cons_not {test : UInt8 → Bool} {s t : List UInt8} {c : UInt8}
    (h : s.dropWhile test = c :: t) : ¬ test c := by
  have := List.head_dropWhile_not (p := test) (l := s) (by simp [h])
  simpa [h] using this

theorem takeWhile_ne_zero_and {s : List UInt8} (h : 0 ∉ s) (test : UInt8 → Bool) :
    s.takeWhile (fun c => c ≠ 0 && test c) = s.takeWhile test := by
  induction s with
  | nil => rfl
  | cons c s ih =>
      have hc : c ≠ 0 := fun h0 => h (h0 ▸ List.mem_cons_self)
      have := ih fun hs => h (List.mem_cons_of_mem _ hs)
      simp only [List.takeWhile_cons, this]
      simp [hc]

/-- `str_split` finds the fields of the line, each inside of the line and ended by a NUL, and writes inside of
the line. -/
theorem strSplitLoop_spec {ifs : UInt8 → Bool} (h0 : ifs 0 = false) (left : Nat) {line : List UInt8}
    (h : CStr buf p line) (hf : line.length ≤ size) :
    ∃ fields buf', strSplitLoop ifs size left buf p = (fields, buf') ∧
      List.Forall₂ (fun q f => CStr buf' q f ∧ q + f.length ≤ p + line.length) fields (splitFields ifs left line) ∧
      ∀ i, i < p ∨ p + line.length < i → buf' i = buf i := by
  induction left generalizing buf p line with
  | zero =>
      obtain ⟨hrest, hpk, hlen⟩ := h.skip h0 hf
      unfold strSplitLoop splitFields
      generalize buf.scan ifs size p = k at hrest hpk hlen
      cases hr : line.dropWhile ifs with
      | nil =>
          rw [hr] at hrest
          exact ⟨[], buf, if_pos hrest, .nil, fun _ _ => rfl⟩
      | cons c rest =>
          have hc : ¬ ifs c := dropWhile_cons_not hr
          rw [hr] at hrest hlen
          have hne : ¬ buf k = 0 := by
            rw [hrest.1]
            exact hrest.2.1
          have hpre : (c :: rest).rdropWhile ifs ++ (c :: rest).rtakeWhile ifs = c :: rest :=
            List.rdropWhile_append_rtakeWhile
          have hple : ((c :: rest).rdropWhile ifs).length ≤ (c :: rest).length :=
            (List.rdropWhile_prefix ifs (c :: rest)).length_le
          simp only [if_neg hne, @CStr.strlen _ size _ _ hrest (by omega)]
          rw [Buf.scanBack_eq (fun i hi => hrest.get hi) ⟨c, List.mem_cons_self, hc⟩]
          refine ⟨_, _, rfl, .cons ⟨(hpre.symm ▸ hrest).cut, by omega⟩ .nil, fun i hi => ?_⟩
          exact Buf.set_ne _ _ (by omega)
  | succ left ih =>
      obtain ⟨hrest, hpk, hlen⟩ := h.skip h0 hf
      unfold strSplitLoop splitFields
      generalize buf.scan ifs size p = k at hrest hpk hlen
      cases hr : line.dropWhile ifs with
      | nil =>
          rw [hr] at hrest
          exact ⟨[], buf, if_pos hrest, .nil, fun _ _ => rfl⟩
      | cons c rest =>
          rw [hr] at hrest hlen
          have hne : ¬ buf k = 0 := by
            rw [hrest.1]
            exact hrest.2.1
          have hword : (c :: rest).takeWhile (fun b => !ifs b) ++
              (c :: rest).dropWhile (fun b => !ifs b) = c :: rest := List.takeWhile_append_dropWhile
          have hwlen : ((c :: rest).takeWhile fun b => !ifs b).length +
              ((c :: rest).dropWhile fun b => !ifs b).length = (c :: rest).length := by
            rw [← List.length_append, hword]
          simp only [if_neg hne]
          rw [@CStr.scan _ _ _ (fun b => b ≠ 0 && !ifs b) (by simp) hrest _ (by omega),
            takeWhile_ne_zero_and hrest.zero_notMem]
          generalize (c :: rest).takeWhile (fun b => !ifs b) = word at hword hwlen ⊢
          cases ht : (c :: rest).dropWhile (fun b => !ifs b) with
          | nil =>
              rw [ht, List.append_nil] at hword
              have hend : buf (k + word.length) = 0 := by
                have h' : CStr buf k (word ++ []) := by rwa [List.append_nil, hword]
                exact h'.drop
              refine ⟨[k], buf, if_pos hend, ?_, fun _ _ => rfl⟩
              rw [hword]
              exact .cons ⟨hrest, Nat.le_of_eq hlen⟩ (by simp [splitFields])
          | cons d tail =>
              have hd : ifs d := by simpa using dropWhile_cons_not ht
              rw [ht] at hword hwlen
              rw [← hword] at hrest
              have hcons := hrest.drop
              have hne' : ¬ buf (k + word.length) = 0 := by
                rw [hcons.1]
                exact hcons.2.1
              rw [List.length_cons] at hwlen
              obtain ⟨fields, buf', hloop, hfields, hframe⟩ :=
                ih (hcons.2.2.set_of_lt (Nat.lt_succ_self _) 0) (by omega)
              rw [if_neg hne', hloop, splitFields_cons_sep hd]
              have hinside := List.Forall₂.imp (S := fun q f => CStr buf' q f ∧ q + f.length ≤ p + line.length)
                (fun q f hq => ⟨hq.1, by have := hq.2; omega⟩) hfields
              refine ⟨k :: fields, buf', rfl, .cons ⟨?_, by omega⟩ hinside, fun i hi => ?_⟩
              · exact hrest.cut.congr fun i h1 h2 => hframe i (.inl (by omega))
              · rw [hframe i (by omega), Buf.set_ne _ _ (by omega)]

/-! ## Assignments of a text -/

/-- What a line assigns, if it assigns anything: no comment line, and two fields. -/
def lineAssigns (line : List UInt8) : Option (List UInt8 × List UInt8) :=
  if line.head? = some 0x23 then none
  else
    match splitFields myifs 1 line with
    | [key, val] => some (key, val)
    | _ => none

/-- The assignments of a text, line by line. -/
def assignments (text : List UInt8) : List (List UInt8 × List UInt8) :=
  (text.splitOn 0x0A).filterMap lineAssigns

theorem splitFields_length_le {sep : UInt8 → Bool} (left : Nat) {line f : List UInt8}
    (h : f ∈ splitFields sep left line) : f.length ≤ line.length := by
  induction left generalizing line with
  | zero =>
      have hle : (line.dropWhile sep).length ≤ line.length := (List.dropWhile_suffix sep).length_le
      unfold splitFields at h
      split at h
      · exact absurd h List.not_mem_nil
      · rename_i c rest hr
        obtain rfl := List.mem_singleton.mp h
        rw [hr] at hle
        exact (List.rdropWhile_prefix sep (c :: rest)).length_le.trans hle
  | succ left ih =>
      have hle : (line.dropWhile sep).length ≤ line.length := (List.dropWhile_suffix sep).length_le
      unfold splitFields at h
      split at h
      · exact absurd h List.not_mem_nil
      · rename_i c rest hr
        rw [hr] at hle
        rcases List.mem_cons.mp h with rfl | h
        · exact (List.takeWhile_prefix _).length_le.trans hle
        · exact (ih h).trans ((List.dropWhile_suffix _).length_le.trans hle)

theorem parseLine_spec {line : List UInt8} (h : CStr buf p line) (hf : line.length ≤ size) :
    (parseLine size buf p).2 = lineAssigns line ∧
      ∀ i, p + line.length < i → (parseLine size buf p).1 i = buf i := by
  have hhead : buf p ≠ 0x23 ↔ ¬ line.head? = some 0x23 := by
    cases line with
    | nil =>
        have : buf p = 0 := h
        simp [this]
    | cons c line => simp [h.1]
  unfold parseLine lineAssigns
  by_cases hc : line.head? = some 0x23
  · rw [if_neg (mt hhead.mp (not_not_intro hc)), if_pos hc]
    exact ⟨rfl, fun _ _ => rfl⟩
  rw [if_pos (hhead.mpr hc), if_neg hc]
  obtain ⟨fields, buf', heq, hfields, hframe⟩ := @strSplitLoop_spec _ _ _ myifs (by decide) 1 _ h hf
  have heq : strSplit myifs size buf p 2 = (fields, buf') := heq
  have hle : ∀ f ∈ splitFields myifs 1 line, f.length ≤ size :=
    fun f hf' => (splitFields_length_le 1 hf').trans hf
  rw [heq]
  generalize splitFields myifs 1 line = fs at hfields hle
  cases hfields with
  | nil => exact ⟨rfl, fun i hi => hframe i (.inr hi)⟩
  | cons hkey hfields =>
      cases hfields with
      | nil => exact ⟨rfl, fun i hi => hframe i (.inr hi)⟩
      | cons hval hfields =>
          cases hfields with
          | cons _ _ => exact ⟨rfl, fun i hi => hframe i (.inr hi)⟩
          | nil =>
              refine ⟨?_, fun i hi => hframe i (.inr hi)⟩
              simp only [hkey.1.cstr (hle _ (by simp)), hval.1.cstr (hle _ (by simp))]

/-! ## The whole text -/

/-- The assignments made one after the other, up to the first that fails. -/
def assignAll (s : Store) : List (List UInt8 × List UInt8) → Int × Store
  | [] => (0, s)
  | (k, v) :: rest =>
      let (ret, s) := configResetOrAddValue s k v
      if ret = -1 then (-1, s) else assignAll s rest

theorem assignments_line {line : List UInt8} (h : 0x0A ∉ line) :
    assignments line = (lineAssigns line).toList := by
  unfold assignments
  rw [List.splitOn_eq_singleton h]
  cases hl : lineAssigns line <;> simp [hl]

theorem assignments_append {line : List UInt8} (h : 0x0A ∉ line) (rest : List UInt8) :
    assignments (line ++ 0x0A :: rest) = (lineAssigns line).toList ++ assignments rest := by
  unfold assignments
  rw [List.splitOn_append_cons_self_of_not_mem h]
  cases hl : lineAssigns line <;> simp [hl]

/-- The parser makes the assignments of the text. The induction is on the number of lines left; the
bytes behind the current line are still those of the text. -/
theorem parseLoop_spec {len fuel : Nat} {text : List UInt8} {s : Store} (h : CStr buf p text)
    (hlen : p + text.length = len) (hsize : text.length ≤ size) (hfuel : text.length ≤ fuel) :
    parseLoop size len fuel buf p s = assignAll s (assignments text) := by
  induction fuel generalizing buf p text s with
  | zero =>
      obtain rfl := List.length_eq_zero_iff.mp (Nat.le_zero.mp hfuel)
      rfl
  | succ fuel ih =>
      cases text with
      | nil => exact if_neg (by simp at hlen; omega)
      | cons c text' =>
          have hgt : len > p := by simp at hlen; omega
          generalize c :: text' = text at h hlen hsize hfuel
          unfold parseLoop
          rw [if_pos hgt]
          by_cases hnl : 0x0A ∈ text
          · obtain ⟨line, rest, rfl, hline⟩ := List.eq_append_cons_of_mem hnl
            have hrest := h.drop.2.2.set_of_lt (Nat.lt_succ_self _) 0
            rw [List.length_append, List.length_cons] at hlen hsize hfuel
            obtain ⟨hpair, hframe⟩ := @parseLine_spec _ size _ _ h.cut (by omega)
            rw [h.strchr_some hline (by simp; omega), assignments_append hline]
            simp only [hpair]
            have ih := fun s => ih (s := s)
              (hrest.congr fun i h1 _ => hframe i (by omega)) (by omega) (by omega) (by omega)
            cases hl : lineAssigns line with
            | none => simpa [hl] using ih s
            | some kv =>
                simp only [Option.toList_some, List.singleton_append, assignAll]
                split
                · rfl
                · exact ih _
          · obtain ⟨hpair, hframe⟩ := parseLine_spec h hsize
            rw [h.strchr_none (by decide) hnl hsize, assignments_line hnl]
            simp only [hpair]
            cases hl : lineAssigns text with
            | none => rfl
            | some kv => rfl

/-- `has_init` and the empty buckets of the first `config_init`. -/
def initStore (s : Store) : Store :=
  if s.hasInit then s else { hasInit := true, iniKeyHead := fun _ => [] }

/-- A file is read up to its first NUL. -/
theorem configInit_spec (s : Store) (file : List UInt8) :
    configInit s (some file) =
      assignAll (initStore s) (assignments (file.takeWhile fun c => c ≠ 0)) := by
  have hbuf : CStr (fun i => file[i]?.getD 0) 0 (file.takeWhile fun c => c ≠ 0) :=
    .of_list fun i => by rw [Nat.zero_add]
  have hle : (file.takeWhile fun c => c ≠ 0).length ≤ file.length + 1 :=
    (List.takeWhile_prefix _).length_le.trans (Nat.le_succ _)
  refine parseLoop_spec hbuf ?_ hle hle
  rw [Nat.zero_add, hbuf.strlen hle]

end Taomee.Config
