import Taomee.Dirty.Lemmas.Tokens
import Taomee.Dirty.FirstWord

/-!
# Letters and digits

`IS_ASCII_NUMBER` starts at `'1'`, so `'0'` is punctuation for the filter. On texts and words of letters
and digits the filter deletes the zeros and turns the rest to upper case.
-/

namespace Taomee.Dirty

open Taomee.Words Taomee.Utf8 Taomee.Brackets

/-- The byte `'0'`. -/
def zero : UInt8 := 0x30

/-- An ASCII letter or a digit from 0 to 9. -/
def isAlnum (c : UInt8) : Bool := isAsciiAlpha c || (0x30 ≤ c && c ≤ 0x39)

def AlnumText (s : List UInt8) : Prop := ∀ c ∈ s, isAlnum c = true

/-- Two texts are compared case-insensitively in upper case. -/
def upper (s : List UInt8) : List UInt8 := s.map xlatcase

def dropZeros (s : List UInt8) : List UInt8 := s.filter fun c => c ≠ zero

instance (s : List UInt8) : Decidable (AlnumText s) := inferInstanceAs (Decidable (∀ c ∈ s, isAlnum c = true))

/-! ## The filter -/

theorem alnum_kind (c : UInt8) : isAlnum c = true →
    isLead c = false ∧ (isAsciiPuncOrSymbol c = true ↔ c = zero) :=
  forall_byte (P := fun c => isAlnum c = true →
    isLead c = false ∧ (isAsciiPuncOrSymbol c = true ↔ c = zero)) (by decide +kernel) c

theorem filtered_alnum {s : List UInt8} (h : AlnumText s) : filtered s = upper (dropZeros s) := by
  rw [filtered_eq_loop]
  induction s with
  | nil => rfl
  | cons c rest ih =>
      have ih := ih fun b hb => h b (List.mem_cons_of_mem c hb)
      obtain ⟨hlead, hpunc⟩ := alnum_kind c (h c List.mem_cons_self)
      have hc : classify c rest = (false, 0, 0) := by
        rcases classify_cases c rest with h | ⟨h, -⟩
        · exact h
        · rw [hlead] at h
          exact absurd h Bool.false_ne_true
      simp only [stringFilterLoop, hc]
      rw [if_neg (by decide), if_neg Bool.false_ne_true]
      unfold dropZeros upper at ih ⊢
      by_cases hz : c = zero
      · rw [if_pos (hpunc.mpr hz), List.filter_cons_of_neg (by simp [hz]), ih]
      · rw [if_neg fun hp => hz (hpunc.mp hp), List.filter_cons_of_pos (by simp [hz]), List.map_cons, ← ih]
        rfl

/-- Nothing is dropped exactly when there is no zero. -/
theorem kept_iff {s : List UInt8} (h : AlnumText s) : filtered s = upper s ↔ zero ∉ s := by
  rw [filtered_alnum h]
  constructor
  · intro heq hz
    have hlen := congrArg List.length heq
    unfold upper dropZeros at hlen
    rw [List.length_map, List.length_map, List.length_filter_eq_length_iff] at hlen
    simpa using hlen zero hz
  · intro hz
    have hself : dropZeros s = s := List.filter_eq_self.mpr fun c hc => by
      simpa using fun h : c = zero => hz (h ▸ hc)
    rw [hself]

theorem isAlnum_tags : ∀ {c : UInt8}, isAlnum c = true → c ≠ lessThan ∧ c ≠ greaterThan := by
  intro c
  exact forall_byte (P := fun c => isAlnum c = true → c ≠ lessThan ∧ c ≠ greaterThan) (by decide +kernel) c

theorem opensBelow_of_no_tags {limit : Nat} {s : List UInt8} (h : AlnumText s) : ∀ opened,
    opensBelow limit opened s = true := by
  induction s with
  | nil => exact fun _ => rfl
  | cons c rest ih =>
      intro opened
      obtain ⟨h1, h2⟩ := isAlnum_tags (h c List.mem_cons_self)
      unfold opensBelow
      rw [if_neg h1, if_neg h2]
      exact ih (fun b hb => h b (List.mem_cons_of_mem c hb)) opened

theorem queryText_alnum {m : List UInt8} (h : AlnumText m) (tc1 : Buf) (jumpTag : Int) :
    queryText tc1 m jumpTag = m := by
  unfold queryText maskTags
  split
  · have hmasks := (replaceCharInAngleBrackets_masks m).mpr
      (opensBelow_of_no_tags (fun c hc => h c (List.dropLast_subset m hc)) 0) tc1
    rw [Int.toNat_natCast]
    refine List.ext_getElem? fun i => ?_
    rcases Nat.lt_or_ge i m.length with hi | hi
    swap
    · rw [List.getElem?_eq_none hi, List.getElem?_eq_none (by rw [Buf.toList_length]; exact hi)]
    have hno : ¬ InTag m i := by
      rintro ⟨x, b, y, hm, -, -, -⟩
      exact (isAlnum_tags (h lessThan (by rw [hm]; simp))).1 rfl
    rw [Buf.getElem?_toList _ hi, List.getElem?_eq_getElem hi, (hmasks i hi).2 hno]
  · rfl

/-! ## The first round -/

/-- Some word is a contiguous part of the message, in either case. -/
def OccursLiterally (words : List (List UInt8)) (m : List UInt8) : Prop :=
  ∃ w ∈ words, upper w <:+: upper m

/-- Some word that is not all zeros is a contiguous part of the message when the zeros of both are
deleted. -/
def OccursWithoutZeros (words : List (List UInt8)) (m : List UInt8) : Prop :=
  ∃ w ∈ words, dropZeros w ≠ [] ∧ upper (dropZeros w) <:+: upper (dropZeros m)

instance (words : List (List UInt8)) (m : List UInt8) : Decidable (OccursLiterally words m) :=
  inferInstanceAs (Decidable (∃ w ∈ words, _))

instance (words : List (List UInt8)) (m : List UInt8) : Decidable (OccursWithoutZeros words m) :=
  inferInstanceAs (Decidable (∃ w ∈ words, _ ∧ _))

/-- What the claimed result of the first round is, and that nothing was dropped on the way to it. -/
structure Literal (a : AcsmStruct) (words : List (List UInt8)) (m : List UInt8) (jumpTag : Int) : Prop where
  found : ∀ tc1, acsmSearch a tc1 m m.length jumpTag = 3 ↔ OccursLiterally words m
  message : filtered m = upper m
  words : ∀ w ∈ words, storedWord w = upper w

theorem storedWord_alnum {w : List UInt8} (h : AlnumText w) (hlen : w.length ≤ 255) :
    storedWord w = upper (dropZeros w) := by
  unfold storedWord
  rw [List.take_of_length_le hlen, filtered_alnum h]

theorem occurs_alnum {words : List (List UInt8)} (hwords : ∀ w ∈ words, AlnumText w ∧ w.length ≤ 255)
    {m : List UInt8} (hm : AlnumText m) :
    Occurs (storedWords words) (filtered m) ↔ OccursWithoutZeros words m := by
  rw [filtered_alnum hm]
  constructor
  · rintro ⟨w, hw, hinf⟩
    obtain ⟨hmem, hne⟩ := List.mem_filter.mp hw
    obtain ⟨v, hv, rfl⟩ := List.mem_map.mp hmem
    rw [storedWord_alnum (hwords v hv).1 (hwords v hv).2] at hinf hne
    refine ⟨v, hv, ?_, hinf⟩
    rintro h
    rw [h] at hne
    exact absurd hne (by decide)
  · rintro ⟨w, hw, hne, hinf⟩
    have hstored := storedWord_alnum (hwords w hw).1 (hwords w hw).2
    refine ⟨_, List.mem_filter.mpr ⟨List.mem_map_of_mem hw, ?_⟩, hstored ▸ hinf⟩
    rw [hstored]
    unfold upper
    simpa using hne

theorem verdict_three {W : List (List UInt8)} {t : List UInt8} : verdict W t = 3 ↔ Occurs W t := by
  unfold verdict
  split
  · simp [*]
  · rename_i h
    simp only [h, iff_false]
    split
    · decide
    · split
      · decide
      · decide

/-- The upper case of a letter or digit tells whether it is a zero. -/
theorem dropZeros_upper {s : List UInt8} (h : AlnumText s) : upper (dropZeros s) = dropZeros (upper s) := by
  unfold upper dropZeros
  rw [List.filter_map]
  congr 1
  refine List.filter_congr fun c hc => ?_
  exact forall_byte (P := fun c => isAlnum c = true →
    decide (c ≠ zero) = ((fun c => decide (c ≠ zero)) ∘ xlatcase) c) (by decide +kernel) c (h c hc)

/-- Messages in which words are found by deleting zeros only. -/
def OnlyAfterDeletion (words : List (List UInt8)) (m : List UInt8) : Prop :=
  OccursWithoutZeros words m ∧ ¬ OccursLiterally words m

/-- Messages in which no words are found but words of zeros, which are not stored. -/
def OnlyZeros (words : List (List UInt8)) (m : List UInt8) : Prop :=
  OccursLiterally words m ∧ ¬ OccursWithoutZeros words m

/-- A word that is part of such a message is all zeros. -/
theorem OnlyZeros.word {words : List (List UInt8)} (hwords : ∀ w ∈ words, AlnumText w) {m : List UInt8}
    (hm : AlnumText m) (h : OnlyZeros words m) {w : List UInt8} (hw : w ∈ words) (hinf : upper w <:+: upper m) :
    dropZeros w = [] := by
  by_contra hne
  refine h.2 ⟨w, hw, hne, ?_⟩
  rw [dropZeros_upper (hwords w hw), dropZeros_upper hm]
  exact hinf.filter _

instance (words : List (List UInt8)) (m : List UInt8) : Decidable (OnlyAfterDeletion words m) :=
  inferInstanceAs (Decidable (_ ∧ _))

instance (words : List (List UInt8)) (m : List UInt8) : Decidable (OnlyZeros words m) :=
  inferInstanceAs (Decidable (_ ∧ _))

/-- Words and messages of letters and digits are matched literally, and nothing of them is dropped,
exactly when there is no zero in them. The result of the first round alone is right exactly when the
message is of neither kind. -/
theorem acsmSearch_literal (a : AcsmStruct) (words : List (List UInt8)) (ha : a.totalPattern = 0)
    (hwords : words.length ≤ 81920)
    (halnum : ∀ w ∈ words, w ≠ [] ∧ AlnumText w ∧ w.length ≤ 255)
    (hsize : 1 + ((storedWords words).flatten.length : Int) ≤ maxState) :
    ∃ F, ∀ fuel, F ≤ fuel → ∃ a', acsmCompile fuel (addPatterns a words) = some (a', 0) ∧
      ∀ (m : List UInt8) (jumpTag : Int), AlnumText m → (m.length : Int) ≤ maxStrBuffer →
        (Literal a' words m jumpTag ↔ zero ∉ m ∧ ∀ w ∈ words, zero ∉ w) ∧
        ((∀ tc1, acsmSearch a' tc1 m m.length jumpTag = 3 ↔ OccursLiterally words m) ↔
          ¬ OnlyAfterDeletion words m ∧ ¬ OnlyZeros words m) := by
  obtain ⟨F, hF⟩ := compiled_of_words a words ha hwords hsize
  refine ⟨F, fun fuel hfuel => ?_⟩
  obtain ⟨a', hc, hcomp⟩ := hF fuel hfuel
  refine ⟨a', hc, fun m jumpTag hm hmax => ?_⟩
  have hsearch : ∀ tc1, acsmSearch a' tc1 m m.length jumpTag = 3 ↔ OccursWithoutZeros words m := by
    intro tc1
    rw [hcomp.search_eq tc1 jumpTag hmax, queryText_alnum hm, verdict_three,
      occurs_alnum (fun w hw => (halnum w hw).2) hm]
  simp only [hsearch]
  have hfound : (∀ _ : Buf, OccursWithoutZeros words m ↔ OccursLiterally words m) ↔
      ¬ OnlyAfterDeletion words m ∧ ¬ OnlyZeros words m := by
    unfold OnlyAfterDeletion OnlyZeros
    rw [forall_const]
    by_cases h1 : OccursWithoutZeros words m <;> by_cases h2 : OccursLiterally words m <;> simp [h1, h2]
  refine ⟨?_, hfound⟩
  constructor
  · rintro ⟨-, hmsg, hkept⟩
    refine ⟨(kept_iff hm).mp hmsg, fun w hw => ?_⟩
    have := hkept w hw
    unfold storedWord at this
    rw [List.take_of_length_le (halnum w hw).2.2] at this
    exact (kept_iff (halnum w hw).2.1).mp this
  · rintro ⟨hmz, hwz⟩
    have hself : ∀ {s : List UInt8}, zero ∉ s → dropZeros s = s := fun hz =>
      List.filter_eq_self.mpr fun c hc => by simpa using fun h : c = zero => hz (h ▸ hc)
    refine ⟨fun tc1 => ?_, (kept_iff hm).mpr hmz, fun w hw => ?_⟩
    · rw [hsearch]
      unfold OccursWithoutZeros OccursLiterally
      rw [hself hmz]
      constructor
      · rintro ⟨w, hw, -, h⟩
        rw [hself (hwz w hw)] at h
        exact ⟨w, hw, h⟩
      · rintro ⟨w, hw, h⟩
        refine ⟨w, hw, ?_⟩
        rw [hself (hwz w hw)]
        exact ⟨(halnum w hw).1, h⟩
    · rw [storedWord_alnum (halnum w hw).2.1 (halnum w hw).2.2, hself (hwz w hw)]

/-- The word "ab1" in the message "xAB12". -/
theorem acsmSearch_literal_ab1 :
    ∃ F, ∀ fuel, F ≤ fuel → ∃ a', acsmCompile fuel (addPatterns acsmNew [[0x61, 0x62, 0x31]]) = some (a', 0) ∧
      Literal a' [[0x61, 0x62, 0x31]] [0x78, 0x41, 0x42, 0x31, 0x32] 0 := by
  obtain ⟨F, hF⟩ := acsmSearch_literal acsmNew [[0x61, 0x62, 0x31]] rfl (by decide)
    (by decide +kernel) (by decide)
  refine ⟨F, fun fuel hfuel => ?_⟩
  obtain ⟨a', hc, h⟩ := hF fuel hfuel
  exact ⟨a', hc, (h [0x78, 0x41, 0x42, 0x31, 0x32] 0 (by decide +kernel) (by decide)).1.mpr (by decide)⟩

/-- Words are not always matched literally: the word "10" is found in the message "1". -/
theorem not_acsmSearch_literal :
    ¬ ∀ (a : AcsmStruct) (words : List (List UInt8)), a.totalPattern = 0 → words.length ≤ 81920 →
      (∀ w ∈ words, w ≠ [] ∧ AlnumText w ∧ w.length ≤ 255) →
      1 + ((storedWords words).flatten.length : Int) ≤ maxState →
      ∃ F, ∀ fuel, F ≤ fuel → ∀ a', acsmCompile fuel (addPatterns a words) = some (a', 0) →
      ∀ (m : List UInt8) (jumpTag : Int), AlnumText m → (m.length : Int) ≤ maxStrBuffer →
      ∀ tc1, acsmSearch a' tc1 m m.length jumpTag = 3 ↔ OccursLiterally words m := by
  intro h
  obtain ⟨F, hF⟩ := h acsmNew [[0x31, 0x30]] rfl (by decide) (by decide +kernel) (by decide)
  obtain ⟨F', hF'⟩ := compiled_of_words acsmNew [[0x31, 0x30]] rfl (by decide) (by decide)
  obtain ⟨a', hc, hcomp⟩ := hF' (max F F') (Nat.le_max_right _ _)
  have hfound := hF _ (Nat.le_max_left _ _) a' hc [0x31] 0 (by decide +kernel) (by decide) fun _ => 0
  rw [hcomp.search_eq _ 0 (by decide)] at hfound
  exact absurd (hfound.mp (by decide)) (by decide)

end Taomee.Dirty
