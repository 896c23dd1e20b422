import Taomee.Dirty.Lemmas.Matcher
import Taomee.Dirty.Lemmas.RoundAlpha
import Taomee.Dirty.Lemmas.RoundFull
import Taomee.Dirty.Lemmas.RoundOther

/-!
# Replacement and well-formed text

The replacement turns valid UTF-8 into valid UTF-8 unless one of two walks goes astray: one that
counts starred fillers as bytes of a word, and one that takes a digit's filler for a letter's.
-/

namespace Taomee.Dirty

open Taomee.Utf8 Taomee.Words

/-- `t` is `s` with some of its characters overwritten with stars, each of them in full. -/
def WholeStars (s t : List UInt8) : Prop :=
  ∃ cs : List (Char × Bool), s = cs.flatMap (fun c => String.utf8EncodeChar c.1) ∧
    t = cs.flatMap fun c =>
      if c.2 then List.replicate (String.utf8EncodeChar c.1).length star else String.utf8EncodeChar c.1

theorem WholeStars.valid {s t : List UInt8} (h : WholeStars s t) : Valid t := by
  obtain ⟨cs, -, rfl⟩ := h
  induction cs with
  | nil => exact valid_nil
  | cons c cs ih =>
      rw [List.flatMap_cons]
      refine Valid.append ?_ ih
      split
      · exact valid_replicate (c := '*') (by decide) _
      · exact valid_char c.1

/-! ## Uniform stars in a text -/

/-- The bytes that are starred, of a text and its image. -/
structure StarsOk (image : Buf) (n : Nat) (S : Nat → Bool) : Prop where
  inner : ∀ p, p + 1 < n → inner (image (p + 1)) → S (p + 1) = S p
  plus : ∀ p, p < n → S p → image p ≠ plus

variable {image : Buf} {S : Nat → Bool}

theorem StarsOk.token {k m : Nat} (h : StarsOk image (k + m) S) {tok : List UInt8} (htok : Token tok)
    (hk : image.toList k = tok) : ∀ i, i < k → S i = S 0 := by
  have hlen : tok.length = k := by
    rw [← hk]
    exact Buf.toList_length _ _
  have hget : ∀ i, (hi : i < tok.length) → image i = tok[i] := by
    intro i hi
    have := Buf.getElem?_toList image (n := k) (i := i) (by omega)
    rw [hk, List.getElem?_eq_getElem hi] at this
    exact (Option.some.inj this).symm
  have hinner : (∀ i, i + 1 < k → Dirty.inner (image (i + 1)) = true) → ∀ i, i < k → S i = S 0 := by
    intro hall i hi
    induction i with
    | zero => rfl
    | succ i ih => rw [h.inner i (by omega) (hall i hi), ih (by omega)]
  cases htok with
  | marks j =>
      have hno : ∀ i, i < k → S i = false := by
        intro i hi
        by_contra hs
        refine h.plus i (by omega) (by simpa using hs) ?_
        rw [hget i (by omega)]
        simp
      intro i hi
      rw [hno i hi, hno 0 (by omega)]
  | half b hb =>
      refine hinner fun i hi => ?_
      rw [List.length_singleton] at hlen
      omega
  | full b hb =>
      refine hinner fun i hi => ?_
      simp only [List.length_cons, List.length_nil] at hlen
      rw [hget (i + 1) (by simp; omega)]
      obtain rfl | rfl : i = 0 ∨ i = 1 := by omega
      · exact show Dirty.inner minus = true by decide
      · exact show Dirty.inner minus = true by decide
  | raw hm =>
      obtain ⟨l, es, -, -, hes⟩ := hm
      refine hinner fun i hi => ?_
      rw [hget (i + 1) (by omega)]
      simp [Dirty.inner, hes _ (List.getElem_mem _)]

theorem StarsOk.drop {k m : Nat} (h : StarsOk image (k + m) S) :
    StarsOk (fun i => image (k + i)) m (fun i => S (k + i)) where
  inner := fun p hp hin => h.inner (k + p) (by omega) hin
  plus := fun p hp hs => h.plus (k + p) (by omega) hs

theorem StarsOk.whole (cs : List Char) : ∀ {image : Buf} {n : Nat} {S : Nat → Bool},
    image.toList n = cs.flatMap charImage → StarsOk image n S →
    WholeStars (cs.flatMap String.utf8EncodeChar)
      ((cs.flatMap String.utf8EncodeChar).mapIdx fun i c => if S i then star else c) := by
  induction cs with
  | nil => exact fun _ _ => ⟨[], rfl, rfl⟩
  | cons c cs ih =>
      intro image n S hn h
      obtain ⟨htok, hlen, -⟩ := charImage_spec c
      rw [List.flatMap_cons] at hn
      have hsum := congrArg List.length hn
      rw [Buf.toList_length, List.length_append] at hsum
      obtain ⟨m, rfl⟩ : ∃ m, n = (charImage c).length + m := ⟨_, hsum⟩
      rw [toList_add] at hn
      obtain ⟨h1, h2⟩ := List.append_inj hn (by simp)
      obtain ⟨ds, hds, hds'⟩ := ih h2 h.drop
      have hsame := h.token htok h1
      rw [hlen] at hsame hds'
      refine ⟨(c, S 0) :: ds, by rw [List.flatMap_cons, List.flatMap_cons, hds], ?_⟩
      rw [List.flatMap_cons, List.mapIdx_append, List.flatMap_cons, ← hds']
      congr 1
      · apply List.ext_getElem
        · split <;> simp
        · intro i hi _
          rw [List.length_mapIdx] at hi
          rw [List.getElem_mapIdx, hsame i hi]
          split <;> simp [*]
      · simp only [Nat.add_comm]

/-! ## The three rounds together -/

variable {W : List (List UInt8)} {a : AcsmStruct}

/-- A replacement in valid text, unless a walk goes astray. -/
theorem Compiled.replace_whole (h : Compiled W a) (hplain : Plain W) (hword : ∀ w ∈ W, WordOk w)
    {m : List UInt8} (hm : Valid m) (hmax : (m.length : Int) ≤ maxStrBuffer)
    (hbridged : ¬ Bridged W (masked m)) (hbehind : ¬ LookBehind W (masked m)) (tc tc1 : Buf) :
    ∃ m' ret, acsmPatternReplace a tc tc1 m m.length 0 = some (m', ret) ∧ WholeStars m m' := by
  have hlist : (tc.store (masked m)).toList m.length = masked m := by
    have := Buf.toList_store tc (masked m)
    rwa [masked_length] at this
  have hmask : stringReplace (maskTags tc1 m m.length 0) m.length = masked m := rfl
  obtain ⟨cs, rfl⟩ := hm
  have hchars := masked_chars cs
  generalize hmm : cs.flatMap String.utf8EncodeChar = m at *
  generalize hi : tc.store (masked m) = image at hlist
  have him : ImageOk image m.length := by
    refine @imageOk_of_tokens (cs.map charImage) (fun tok htok => ?_) _ _ ?_
    · obtain ⟨c, -, rfl⟩ := List.mem_map.mp htok
      exact (charImage_spec c).1
    · rw [hlist, hchars, List.flatMap_def]
  have hstarless : ∀ i, i < m.length → image i ≠ star := by
    intro i hi heq
    refine star_notMem_masked m ?_
    rw [← hlist, ← heq]
    exact List.mem_map_of_mem (List.mem_range.mpr hi)
  rw [← hlist] at hbridged hbehind
  obtain ⟨tc0, f0, h0, hun0, hplus0⟩ := roundFull_uniform h hplain hword him hstarless hbridged 0
  obtain ⟨tc1', f1, h1, hun1, hplus1⟩ := roundAlpha_uniform h him hstarless hbehind f0
  obtain ⟨tc2, f2, h2, hun2, hplus2⟩ := roundOther_uniform h hword him hstarless f1
  unfold acsmPatternReplace
  rw [if_neg (Int.not_lt.mpr hmax)]
  simp only [hmask, hi, Int.toNat_natCast, h0, h1, h2]
  refine ⟨_, _, rfl, ?_⟩
  have hok : StarsOk image m.length fun i => decide (i < m.length ∧
      (tc0 i = star ∨ tc1' i = star ∨ tc2 i = star)) := by
    refine { inner := fun p hp hin => ?_, plus := fun p hp hs => ?_ }
    · rw [decide_eq_decide, hun0 p hp hin, hun1 p hp hin, hun2 p hp hin]
      simp [hp, Nat.lt_of_succ_lt hp]
    · rcases (of_decide_eq_true hs).2 with hs | hs | hs
      · exact hplus0 p hp hs
      · exact hplus1 p hp hs
      · exact hplus2 p hp hs
  have hwhole := StarsOk.whole cs (hlist.trans hchars) hok
  rw [hmm] at hwhole
  simpa only [mergeStars, decide_eq_true_eq] using hwhole

/-! ## Deciding the two conditions -/

theorem exists_split {r : List UInt8} {P : List UInt8 → List UInt8 → Prop} :
    (∃ u v, r = u ++ v ∧ P u v) ↔ ∃ i ≤ r.length, P (r.take i) (r.drop i) := by
  constructor
  · rintro ⟨u, v, rfl, h⟩
    exact ⟨u.length, by simp, by simpa using h⟩
  · rintro ⟨i, -, h⟩
    exact ⟨_, _, (List.take_append_drop i r).symm, h⟩

theorem forall_split {r : List UInt8} {c : UInt8} {P : List UInt8 → Prop} :
    (∀ x y, r = x ++ c :: y → P x) ↔ ∀ k < r.length, r[k]? = some c → P (r.take k) := by
  constructor
  · intro h k hk hc
    refine h _ (r.drop (k + 1)) ?_
    rw [List.getElem?_eq_getElem hk, Option.some.injEq] at hc
    rw [← hc, List.getElem_cons_drop, List.take_append_drop]
  · rintro h x y rfl
    simpa using h x.length (by simp) (by simp)

instance (W : List (List UInt8)) (r : List UInt8) : Decidable (Bridged W r) :=
  decidable_of_iff (∃ i ≤ r.length, ∃ j ≤ (r.drop i).length,
      minus ∈ (r.drop i).take j ∧ ((r.drop i).take j).head? ≠ some minus ∧
      ((r.drop i).take j).getLast? ≠ some minus ∧
      (((r.drop i).take j).filter fun c => c ≠ minus) ∈ W ∧
      ∀ k < ((r.drop i).take j).length, ((r.drop i).take j)[k]? = some minus →
        (((r.drop i).take j).take k).getLast? ≠ some minus →
          Hit W (r.take i ++ ((r.drop i).take j).take k)) <| by
    unfold Bridged
    simp only [← forall_split (P := fun x => x.getLast? ≠ some minus → Hit W _)]
    constructor
    · rintro ⟨i, -, j, -, h⟩
      exact ⟨_, _, (r.drop i).drop j, by simp, h⟩
    · rintro ⟨before, seg, after, rfl, h⟩
      refine ⟨before.length, by simp, seg.length, by simp, ?_⟩
      simpa using h

/-- `LookBehind` for the digit that follows the first byte of `s`, behind `u`. -/
def LookBehindAt (W : List (List UInt8)) (u : List UInt8) : List UInt8 → Prop
  | a :: d :: c :: v => c = minus ∧ isAsciiAlpha a = true ∧ isAsciiNumber d = true ∧
      (∃ w ∈ W, ∃ k ≤ w.length, w.take k ≠ [] ∧ w.drop k ≠ [] ∧ w.take k <:+ letters (u ++ [a]) ∧
        w.drop k <+: letters v) ∧ ¬ Hit W (letters (u ++ [a]))
  | _ => False

instance (W : List (List UInt8)) (u : List UInt8) : ∀ s, Decidable (LookBehindAt W u s)
  | _ :: _ :: _ :: _ => inferInstanceAs (Decidable (_ ∧ _))
  | [] => .isFalse id
  | [_] => .isFalse id
  | [_, _] => .isFalse id

instance (W : List (List UInt8)) (r : List UInt8) : Decidable (LookBehind W r) :=
  decidable_of_iff (∃ i ≤ r.length, LookBehindAt W (r.take i) (r.drop i)) <| by
    rw [← exists_split]
    constructor
    · rintro ⟨u, s, rfl, h⟩
      match s, h with
      | a :: d :: _ :: v, ⟨rfl, ha, hd, ⟨w, hw, k, _, hx, hy, hxu, hyv⟩, hno⟩ =>
          exact ⟨u, a, d, v, rfl, ha, hd,
            ⟨w.take k, w.drop k, by rwa [List.take_append_drop], hx, hy, hxu, hyv⟩, hno⟩
    · rintro ⟨u, a, d, v, rfl, ha, hd, ⟨x, y, hw, hx, hy, hxu, hyv⟩, hno⟩
      exact ⟨u, _, rfl, rfl, ha, hd, ⟨x ++ y, hw, x.length, by simp, by simpa using hx,
        by simpa using hy, by simpa using hxu, by simpa using hyv⟩, hno⟩

/-- Replacement keeps text well formed, unless a word is bridged or a walk looks behind a digit. -/
theorem replace_wellFormed (a : AcsmStruct) (words : List (List UInt8)) (ha : a.totalPattern = 0)
    (hwords : words.length ≤ 81920) (hvalid : ∀ w ∈ words, Valid w ∧ w.length ≤ 255)
    (hsize : 1 + ((storedWords words).flatten.length : Int) ≤ maxState) :
    ∃ F, ∀ fuel, F ≤ fuel → ∃ a', acsmCompile fuel (addPatterns a words) = some (a', 0) ∧
      ∀ m, Valid m → (m.length : Int) ≤ maxStrBuffer →
        ¬ Bridged (storedWords words) (masked m) → ¬ LookBehind (storedWords words) (masked m) →
        ∀ tc tc1, ∃ m' ret, acsmPatternReplace a' tc tc1 m m.length 0 = some (m', ret) ∧
          Valid m' ∧ WholeStars m m' := by
  obtain ⟨F, hF⟩ := compiled_of_words a words ha hwords hsize
  refine ⟨F, fun fuel hfuel => ?_⟩
  obtain ⟨a', hc, hcomp⟩ := hF fuel hfuel
  refine ⟨a', hc, fun m hm hmax hbridged hbehind tc tc1 => ?_⟩
  obtain ⟨m', ret, heq, hwhole⟩ := hcomp.replace_whole (plain_storedWords words)
    (fun w hw => wordOk_storedWords hvalid hw) hm hmax hbridged hbehind tc tc1
  exact ⟨m', ret, heq, hwhole.valid, hwhole⟩

/-- The word "ab" in the message "AＢ中1" in half-width and full-width letters. -/
theorem replace_wellFormed_ab :
    ∃ F, ∀ fuel, F ≤ fuel → ∃ a', acsmCompile fuel (addPatterns acsmNew [[0x61, 0x62]]) = some (a', 0) ∧
      ∀ tc tc1, ∃ m' ret, acsmPatternReplace a' tc tc1
        [0x41, 0xEF, 0xBC, 0xA2, 0xE4, 0xB8, 0xAD, 0x31] 8 0 = some (m', ret) ∧ Valid m' ∧
        WholeStars [0x41, 0xEF, 0xBC, 0xA2, 0xE4, 0xB8, 0xAD, 0x31] m' := by
  have hword : Valid [0x61, 0x62] := ⟨['a', 'b'], by decide⟩
  have hm : Valid [0x41, 0xEF, 0xBC, 0xA2, 0xE4, 0xB8, 0xAD, 0x31] :=
    ⟨['A', 'Ｂ', '中', '1'], by decide⟩
  obtain ⟨F, hF⟩ := replace_wellFormed acsmNew [[0x61, 0x62]] rfl (by decide)
    (fun w hw => by rw [List.mem_singleton.mp hw]; exact ⟨hword, by decide⟩) (by decide)
  refine ⟨F, fun fuel hfuel => ?_⟩
  obtain ⟨a', hc, h⟩ := hF fuel hfuel
  exact ⟨a', hc, h _ hm (by decide) (by decide +kernel) (by decide +kernel)⟩

/-- Replacement does not always keep text well formed: the word "ab" in the message "a１b". -/
theorem not_replace_wellFormed :
    ¬ ∀ (a : AcsmStruct) (words : List (List UInt8)), a.totalPattern = 0 → words.length ≤ 81920 →
      (∀ w ∈ words, Valid w ∧ w.length ≤ 255) →
      1 + ((storedWords words).flatten.length : Int) ≤ maxState →
      ∀ fuel a', acsmCompile fuel (addPatterns a words) = some (a', 0) →
      ∀ m, Valid m → (m.length : Int) ≤ maxStrBuffer →
      ∀ tc tc1 m' ret, acsmPatternReplace a' tc tc1 m m.length 0 = some (m', ret) → Valid m' := by
  intro h
  have hword : Valid [0x61, 0x62] := ⟨['a', 'b'], by decide⟩
  have hm : Valid [0x61, 0xEF, 0xBC, 0x91, 0x62] := ⟨['a', '１', 'b'], by decide⟩
  obtain ⟨F, hF⟩ := compiled_of_words acsmNew [[0x61, 0x62]] rfl (by decide) (by decide)
  obtain ⟨a', hc, hcomp⟩ := hF F (Nat.le_refl _)
  have hreplace : acsmPatternReplace a' (fun _ => 0) (fun _ => 0) [0x61, 0xEF, 0xBC, 0x91, 0x62] 5 0 =
      some ([0x2A, 0xEF, 0x2A, 0x91, 0x2A], 1) := by
    rw [hcomp.replace_eq]
    decide +kernel
  have hout := h acsmNew [[0x61, 0x62]] rfl (by decide)
    (fun w hw => by rw [List.mem_singleton.mp hw]; exact ⟨hword, by decide⟩) (by decide) F a' hc _ hm
    (by decide) _ _ _ _ hreplace
  have hcont := (hout.of_cons (by decide)).cont_of_lead (by decide)
  exact absurd hcont (by decide)

end Taomee.Dirty
