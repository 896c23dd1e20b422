import Taomee.Dirty.Agree
import Taomee.Lib.Brackets

/-!
# Masking tags

`replace_char_in_angle_brackets` scans for brackets with a stack of 65536 places, and fills what
stands between two matching brackets when it comes to the closing one. When the stack is full it
leaves, and the bytes that follow are never written.
-/

namespace Taomee.Dirty

open Taomee.Brackets

/-- Byte `k` of `s` lies between a `<` and the `>` that closes it. -/
def InTag (s : List UInt8) (k : Nat) : Prop := Inside lessThan greaterThan s k

/-- `d` holds `s`, with `+` wherever a tag is. -/
def Masks (s : List UInt8) (d : Buf) : Prop :=
  ∀ k, (hk : k < s.length) → (InTag s k → d k = plus) ∧ (¬ InTag s k → d k = s[k])

/-- What holds at the head of the loop after the bytes `u`. -/
structure Scanned (u : List UInt8) (locRecord : List Nat) (d : Buf) : Prop where
  opened : Opened lessThan greaterThan u locRecord
  masks : Masks u d

theorem lessThan_ne_greaterThan : lessThan ≠ greaterThan := by decide

theorem scanned_nil (d : Buf) : Scanned [] [] d where
  opened := opened_nil
  masks := fun _ hk => absurd hk (Nat.not_lt_zero _)

variable {u : List UInt8} {loc : List Nat} {d : Buf}

/-- Copying a byte that is no closing bracket of an open one. -/
theorem Masks.copy (h : Masks u d) {c : UInt8} (hin : ∀ k, InTag (u ++ [c]) k ↔ InTag u k) :
    Masks (u ++ [c]) (d.set u.length c) := by
  intro k hk
  rw [hin]
  rw [List.length_append, List.length_singleton] at hk
  rcases Nat.lt_or_eq_of_le (Nat.le_of_lt_succ hk) with hlt | rfl
  · rw [Buf.set_ne _ _ (Nat.ne_of_lt hlt), List.getElem_append_left hlt]
    exact h k hlt
  · rw [Buf.set_self, List.getElem_concat_length rfl]
    refine ⟨fun hin => ?_, fun _ => rfl⟩
    -- nothing behind the text is inside of it
    obtain ⟨x, b, y, hs, -, -, hle⟩ := hin
    have := congrArg List.length hs
    simp only [List.length_append, List.length_cons] at this
    omega

theorem Scanned.less (h : Scanned u loc d) :
    Scanned (u ++ [lessThan]) (u.length :: loc) (d.set u.length lessThan) where
  opened := h.opened.open
  masks := h.masks.copy fun _ => inside_concat_ne (by decide)

theorem Scanned.other (h : Scanned u loc d) {c : UInt8} (h1 : c ≠ lessThan) (h2 : c ≠ greaterThan) :
    Scanned (u ++ [c]) loc (d.set u.length c) where
  opened := h.opened.append (balanced_singleton h1 h2)
  masks := h.masks.copy fun _ => inside_concat_ne h2

theorem Scanned.greater_none (h : Scanned u [] d) :
    Scanned (u ++ [greaterThan]) [] (d.set u.length greaterThan) where
  opened := h.opened.close_none lessThan_ne_greaterThan
  masks := h.masks.copy fun _ => inside_concat_none lessThan_ne_greaterThan h.opened

theorem Scanned.greater {start : Nat} (h : Scanned u (start :: loc) d) :
    Scanned (u ++ [greaterThan]) loc (d.fill start (u.length - start + 1) plus) where
  opened := h.opened.close lessThan_ne_greaterThan
  masks := by
    have hstart := h.opened.lt start List.mem_cons_self
    intro k hk
    unfold InTag Buf.fill
    rw [inside_concat_close lessThan_ne_greaterThan h.opened]
    rw [List.length_append, List.length_singleton] at hk
    by_cases hr : start ≤ k
    · have hfill : start ≤ k ∧ k < start + (u.length - start + 1) := by omega
      rw [if_pos hfill]
      exact ⟨fun _ => rfl, fun hno => absurd (.inr ⟨hr, by omega⟩) hno⟩
    · rw [if_neg fun hx => hr hx.1, List.getElem_append_left (show k < u.length by omega)]
      have := h.masks k (by omega)
      exact ⟨fun hin => this.1 (hin.resolve_right fun hx => hr hx.1),
        fun hno => this.2 fun hin => hno (.inl hin)⟩

/-- With a place left in the stack for every `<` but the last byte, the loop masks every tag. -/
theorem bracketLoop_masks (s : List UInt8) : ∀ {u loc d}, Scanned u loc d →
    opensBelow 65536 loc.length s.dropLast = true → Masks (u ++ s) (bracketLoop s u.length loc d) := by
  induction s with
  | nil =>
      intro u loc d h _
      rw [List.append_nil]
      exact h.masks
  | cons c rest ih =>
      intro u loc d h hopen
      have hlen : u.length + 1 = (u ++ [c]).length := by simp
      have hcat : u ++ c :: rest = (u ++ [c]) ++ rest := by simp
      -- the loop goes on with the rest
      have hnext : ∀ {loc' d'}, Scanned (u ++ [c]) loc' d' → opensBelow 65536 loc'.length rest.dropLast = true →
          Masks (u ++ c :: rest) (bracketLoop rest (u.length + 1) loc' d') := by
        intro loc' d' h' ho
        rw [hcat, hlen]
        exact ih h' ho
      have htail : ∀ {k : Nat}, (rest ≠ [] → opensBelow 65536 k rest.dropLast = true) →
          opensBelow 65536 k rest.dropLast = true := by
        intro k hk
        cases rest with
        | nil => rfl
        | cons _ _ => exact hk (List.cons_ne_nil _ _)
      have hcons : rest ≠ [] → opensBelow 65536 loc.length (c :: rest.dropLast) = true := by
        intro hne
        rwa [List.dropLast_cons_of_ne_nil hne] at hopen
      unfold bracketLoop
      by_cases h1 : c = lessThan
      · subst h1
        rw [if_pos rfl]
        split
        · -- the stack is full: this is the last byte
          have hrest : rest = [] := by
            by_contra hne
            have hc := hcons hne
            unfold opensBelow at hc
            rw [if_pos rfl, Bool.and_eq_true, decide_eq_true_eq] at hc
            simp only [List.length_cons] at *
            omega
          rw [hrest]
          exact h.less.masks
        · refine hnext h.less (htail fun hne => ?_)
          have hc := hcons hne
          unfold opensBelow at hc
          rw [if_pos rfl, Bool.and_eq_true] at hc
          exact hc.2
      rw [if_neg h1]
      by_cases h2 : c = greaterThan
      · subst h2
        rw [if_neg (not_not_intro rfl)]
        have hc : rest ≠ [] → opensBelow 65536 (loc.length - 1) rest.dropLast = true := by
          intro hne
          have := hcons hne
          unfold opensBelow at this
          rwa [if_neg h1, if_pos rfl] at this
        cases loc with
        | nil => exact hnext h.greater_none (htail hc)
        | cons start loc => exact hnext h.greater (htail hc)
      · rw [if_pos h2]
        refine hnext (h.other h1 h2) (htail fun hne => ?_)
        have hc := hcons hne
        unfold opensBelow at hc
        rwa [if_neg h1, if_neg h2] at hc

/-- When the stack is full in front of the last byte, some byte is never written. -/
theorem bracketLoop_full (s : List UInt8) : ∀ {i loc}, (∀ p ∈ loc, p < i) →
    opensBelow 65536 loc.length s.dropLast = false →
    ∃ k, i ≤ k ∧ k < i + s.length ∧ ∀ d : Buf, bracketLoop s i loc d k = d k := by
  induction s with
  | nil =>
      intro i loc _ hopen
      exact absurd hopen (by simp [opensBelow])
  | cons c rest ih =>
      intro i loc hloc hopen
      have hne : rest ≠ [] := by
        rintro rfl
        simp [opensBelow] at hopen
      have hpos := List.length_pos_of_ne_nil hne
      rw [List.dropLast_cons_of_ne_nil hne] at hopen
      have hloc' : ∀ p ∈ loc, p < i + 1 := fun p hp => Nat.lt_succ_of_lt (hloc p hp)
      have hset : ∀ (d : Buf) {k : Nat}, i + 1 ≤ k → d.set i c k = d k := fun d _ hk =>
        Buf.set_ne d c (by omega)
      unfold opensBelow at hopen
      unfold bracketLoop
      by_cases h1 : c = lessThan
      · rw [if_pos h1] at hopen
        by_cases hfull : (i :: loc).length ≥ 65536
        · refine ⟨i + 1, by omega, by simp; omega, fun d => ?_⟩
          rw [if_pos h1, if_pos hfull]
          exact hset d (Nat.le_refl _)
        · rw [List.length_cons] at hfull
          rw [decide_eq_true (by omega), Bool.true_and] at hopen
          obtain ⟨k, hk1, hk2, hk⟩ := @ih (i + 1) (i :: loc) (by
            intro p hp
            rcases List.mem_cons.mp hp with rfl | hp
            · exact Nat.lt_succ_self _
            · exact hloc' p hp) hopen
          refine ⟨k, by omega, by rw [List.length_cons]; omega, fun d => ?_⟩
          rw [if_pos h1, if_neg (by rw [List.length_cons]; exact hfull), hk]
          exact hset d hk1
      rw [if_neg h1] at hopen
      by_cases h2 : c = greaterThan
      · rw [if_pos h2] at hopen
        cases loc with
        | nil =>
            obtain ⟨k, hk1, hk2, hk⟩ := @ih (i + 1) [] hloc' hopen
            refine ⟨k, by omega, by rw [List.length_cons]; omega, fun d => ?_⟩
            rw [if_neg h1, if_neg (not_not_intro h2)]
            exact (hk _).trans (hset d hk1)
        | cons start loc =>
            have hstart := hloc start List.mem_cons_self
            obtain ⟨k, hk1, hk2, hk⟩ := @ih (i + 1) loc
              (fun p hp => hloc' p (List.mem_cons_of_mem _ hp)) hopen
            refine ⟨k, by omega, by rw [List.length_cons]; omega, fun d => ?_⟩
            rw [if_neg h1, if_neg (not_not_intro h2)]
            refine (hk _).trans ?_
            unfold Buf.fill
            exact if_neg fun hx => by omega
      · rw [if_neg h2] at hopen
        obtain ⟨k, hk1, hk2, hk⟩ := @ih (i + 1) loc hloc' hopen
        refine ⟨k, by omega, by rw [List.length_cons]; omega, fun d => ?_⟩
        rw [if_neg h1, if_pos h2]
        exact (hk _).trans (hset d hk1)

/-- Every byte is written, and every tag is masked, exactly when fewer than 65536 `<` are open at any
time before the last byte. -/
theorem replaceCharInAngleBrackets_masks (s : List UInt8) :
    (∀ d, Masks s (replaceCharInAngleBrackets d s s.length)) ↔ opensBelow 65536 0 s.dropLast = true := by
  unfold replaceCharInAngleBrackets
  rw [Int.toNat_natCast, List.take_length]
  constructor
  · intro h
    by_contra hopen
    obtain ⟨k, -, hk, hd⟩ := @bracketLoop_full s 0 [] (fun p hp => absurd hp List.not_mem_nil)
      (by simpa using hopen)
    rw [Nat.zero_add] at hk
    -- the byte that is not written may be any
    have h0 := h (fun _ => 0) k hk
    have h1 := h (fun _ => 1) k hk
    rw [hd] at h0 h1
    by_cases hin : InTag s k
    · exact absurd ((h0.1 hin).trans (h1.1 hin).symm) (by decide)
    · exact absurd ((h0.2 hin).trans (h1.2 hin).symm) (by decide)
  · intro hopen d
    exact bracketLoop_masks s (scanned_nil d) hopen

theorem opensBelow_replicate (limit n : Nat) : ∀ opened, opened ≤ limit →
    (opensBelow limit opened (List.replicate n lessThan) = true ↔ n = 0 ∨ opened + n < limit) := by
  induction n with
  | zero => simp [opensBelow]
  | succ n ih =>
      intro opened hle
      rw [List.replicate_succ]
      unfold opensBelow
      rw [if_pos rfl, Bool.and_eq_true, decide_eq_true_eq]
      constructor
      · rintro ⟨h1, h2⟩
        rcases (ih (opened + 1) (by omega)).mp h2 with h | h
        · omega
        · omega
      · intro h
        exact ⟨by omega, (ih (opened + 1) (by omega)).mpr (by omega)⟩

/-- Masking is not always complete: behind 65536 open brackets nothing is written. -/
theorem not_replaceCharInAngleBrackets_masks :
    ¬ ∀ (s : List UInt8), (s.length : Int) ≤ maxStrBuffer → ∀ d,
      Masks s (replaceCharInAngleBrackets d s s.length) := by
  intro h
  have hall := h (List.replicate 65537 lessThan) (by rw [List.length_replicate]; decide)
  have hopen := (replaceCharInAngleBrackets_masks _).mp hall
  rw [List.dropLast_replicate] at hopen
  rcases (opensBelow_replicate 65536 (65537 - 1) 0 (Nat.zero_le _)).mp hopen with h | h
  · omega
  · omega

end Taomee.Dirty
