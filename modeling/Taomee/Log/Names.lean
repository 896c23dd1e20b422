import Mathlib.Data.List.Infix
import Taomee.Log.Log

/-!
# Names of log files

Level, date and number can be read back from a name, and the names of one level do not begin as those of
another.
-/

namespace Taomee.Log

/-- The parts of the date have the width that they are printed with. -/
structure Tm.Valid (tm : Tm) : Prop where
  year : tm.year < 10 ^ 4
  mon : tm.mon < 10 ^ 2
  mday : tm.mday < 10 ^ 2

/-- The same date. -/
def Tm.SameDay (tm tm' : Tm) : Prop := tm.year = tm'.year ∧ tm.mon = tm'.mon ∧ tm.mday = tm'.mday

/-- The name of a file of the level. -/
def nameOf (pre : Name) (lvl : LogLvl) (tm : Tm) (seq : Int) : Name :=
  pre ++ lognames lvl ++ dateText tm ++ seqText seq

/-- `log_init` has set the names of the files. -/
def Based (pre : Name) (g : Globals) : Prop := ∀ lvl, (g.fdsInfo lvl).baseFilename = pre ++ lognames lvl

variable {pf : Platform} {pre : Name} {g : Globals} {lvl lvl' : LogLvl} {tm tm' : Tm} {seq seq' : Int}

theorem Tm.SameDay.symm (h : tm.SameDay tm') : tm'.SameDay tm := ⟨h.1.symm, h.2.1.symm, h.2.2.symm⟩

theorem Tm.SameDay.dateText (h : tm.SameDay tm') : dateText tm = dateText tm' := by
  unfold Log.dateText
  rw [h.1, h.2.1, h.2.2]

theorem logFileName_eq (hb : (g.fdsInfo lvl).baseFilename = pre ++ lognames lvl) :
    logFileName g lvl seq tm = nameOf pre lvl tm seq := by
  unfold logFileName nameOf
  rw [hb]

/-! ## The parts of a name -/

theorem dateText_length (h : tm.Valid) : (dateText tm).length = 8 := by
  simp only [dateText, List.length_append, decimal_length h.year (by decide), decimal_length h.mon (by decide),
    decimal_length h.mday (by decide)]

theorem dateText_inj (h : tm.Valid) (h' : tm'.Valid) (he : dateText tm = dateText tm') : tm.SameDay tm' := by
  have hyear := decimal_length h.year (by decide)
  have hyear' := decimal_length h'.year (by decide)
  have hmon := decimal_length h.mon (by decide)
  have hmon' := decimal_length h'.mon (by decide)
  unfold dateText at he
  obtain ⟨hym, hd⟩ := List.append_inj he (by simp [hyear, hyear', hmon, hmon'])
  obtain ⟨hy, hm⟩ := List.append_inj hym (by rw [hyear, hyear'])
  exact ⟨decimal_injective 4 hy, decimal_injective 2 hm, decimal_injective 2 hd⟩

theorem atoi_seqText {rest : List UInt8} (hrest : rest.head?.all (! isDigit ·)) (seq : Int) :
    atoi (seqText seq ++ rest) = seq := by
  unfold seqText
  split_ifs with hneg
  · have hvalue : digitsValue (decimal 6 seq.natAbs ++ rest) = seq.natAbs := by
      rw [digitsValue, List.takeWhile_append_of_pos fun c hc => isDigit_of_mem_decimal hc]
      cases rest with
      | nil => rw [List.takeWhile_nil, List.append_nil, foldl_decimal]
      | cons c rest =>
          have hc : isDigit c = false := by simpa using hrest
          rw [List.takeWhile_cons_of_neg (by simp [hc]), List.append_nil, foldl_decimal]
    unfold atoi
    rw [List.cons_append, List.dropWhile_cons_of_neg (by decide)]
    dsimp only
    rw [if_pos rfl, hvalue]
    omega
  · rw [atoi_decimal hrest]
    omega

theorem ne_zero_of_isDigit {c : UInt8} (h : isDigit c = true) : c ≠ 0 := by
  rintro rfl
  exact absurd h (by decide)

theorem ne_zero_of_mem_seqText {c : UInt8} (h : c ∈ seqText seq) : c ≠ 0 := by
  unfold seqText at h
  split_ifs at h
  · rcases List.mem_cons.mp h with rfl | h
    · decide
    · exact ne_zero_of_isDigit (isDigit_of_mem_decimal h)
  · exact ne_zero_of_isDigit (isDigit_of_mem_decimal h)

theorem seqText_injective : Function.Injective seqText := fun seq seq' he => by
  have h : atoi (seqText seq ++ []) = seq := atoi_seqText rfl seq
  rw [he, atoi_seqText rfl] at h
  exact h.symm

/-- The number is read back, whatever lies behind the name. -/
theorem getLogfileSeqno_nameOf (hb : (g.fdsInfo lvl).baseFilename = pre ++ lognames lvl) (h : tm.Valid) :
    getLogfileSeqno pf g (nameOf pre lvl tm seq) lvl = seq := by
  have hlen : (pre ++ lognames lvl ++ dateText tm).length = (g.fdsInfo lvl).baseFilename.length + 8 := by
    rw [List.length_append, dateText_length h, hb]
  unfold getLogfileSeqno nameOf
  rw [List.append_assoc _ (seqText seq), ← hlen, List.drop_left, List.takeWhile_append_of_pos fun c hc => by
    simpa using ne_zero_of_mem_seqText hc, List.takeWhile_cons_of_neg (by simp), atoi_seqText rfl]

theorem lognames_take_inj : ∀ lvl lvl' : LogLvl, (lognames lvl).take 2 = (lognames lvl').take 2 → lvl = lvl' := by
  intro lvl lvl'
  cases lvl <;> cases lvl' <;> decide

theorem lognames_length (lvl : LogLvl) : 2 ≤ (lognames lvl).length := by
  cases lvl <;> decide

/-- The name is one of the level's. -/
def OfLevel (pre : Name) (lvl : LogLvl) (name : Name) : Prop := pre ++ lognames lvl <+: name

theorem hasBase_iff (hb : (g.fdsInfo lvl).baseFilename = pre ++ lognames lvl) {name : Name} :
    hasBase g lvl name = true ↔ OfLevel pre lvl name := by
  rw [hasBase, hb, List.isPrefixOf_iff_prefix]
  rfl

/-- Only names of the level begin as these do. -/
theorem ofLevel_nameOf : OfLevel pre lvl (nameOf pre lvl' tm seq) ↔ lvl = lvl' := by
  unfold OfLevel nameOf
  rw [List.append_assoc, List.append_assoc, List.prefix_append_right_inj]
  constructor
  · intro h
    have htake := List.prefix_iff_eq_take.mp h
    apply lognames_take_inj
    have h2 := congrArg (List.take 2) htake
    rw [List.take_take, min_eq_left (lognames_length lvl), List.take_append_of_le_length (lognames_length lvl')] at h2
    exact h2
  · rintro rfl
    exact List.prefix_append _ _

theorem nameOf_inj (h : tm.Valid) (h' : tm'.Valid) (he : nameOf pre lvl tm seq = nameOf pre lvl' tm' seq') :
    lvl = lvl' ∧ tm.SameDay tm' ∧ seq = seq' := by
  have hlvl : OfLevel pre lvl (nameOf pre lvl tm seq) := ofLevel_nameOf.mpr rfl
  rw [he] at hlvl
  obtain rfl := ofLevel_nameOf.mp hlvl
  unfold nameOf at he
  rw [List.append_assoc _ (dateText tm), List.append_assoc _ (dateText tm')] at he
  obtain ⟨hd, hs⟩ := List.append_inj (List.append_cancel_left he) (by rw [dateText_length h, dateText_length h'])
  exact ⟨rfl, dateText_inj h h' hd, seqText_injective hs⟩

theorem Tm.SameDay.nameOf (h : tm.SameDay tm') : nameOf pre lvl tm seq = nameOf pre lvl tm' seq := by
  unfold Log.nameOf
  rw [h.dateText]

end Taomee.Log
