import Taomee.Log.Recycle

/-!
# Where recycling goes on

A process that starts with recycling on goes on from the file of each level that has the last name: the names of a level
stand, in the order of strcmp, in the order of their dates and within a day of their numbers. Files of today
are written on, after files of another day comes the next number.
-/

namespace Taomee.Log

variable {pf : Platform} {pre : Name} {g : Globals} {disk : Disk} {lvl : LogLvl} {tm tm' today : Tm} {seq seq' : Int}
  {n now : Nat}

/-- Date and number as one number. -/
def stamp (tm : Tm) (seq : Int) : Nat := ((tm.year * 100 + tm.mon) * 100 + tm.mday) * maxLogCnt + seq.toNat

theorem stamp_lt (htm : tm.Valid) (hseq : InRange n seq) (hn : n ≤ maxLogCnt) : stamp tm seq < 10 ^ 15 := by
  have hyear := htm.year
  have hmon := htm.mon
  have hmday := htm.mday
  obtain ⟨h0, h1⟩ := hseq
  simp only [stamp, maxLogCnt] at hn ⊢
  omega

/-- All names of a level have one length, and end in their stamps. -/
theorem nameOf_eq (htm : tm.Valid) (hseq : InRange n seq) (hn : n ≤ maxLogCnt) :
    nameOf pre lvl tm seq = pre ++ lognames lvl ++ lastDigits 15 (stamp tm seq) := by
  obtain ⟨h0, h1⟩ := hseq
  have hseq : seq.toNat < 10 ^ 7 := by
    simp only [maxLogCnt] at hn
    omega
  have hdate : dateText tm = lastDigits 8 ((tm.year * 100 + tm.mon) * 100 + tm.mday) := by
    unfold dateText
    rw [decimal_eq htm.year (by decide), decimal_eq htm.mon (by decide), decimal_eq htm.mday (by decide),
      lastDigits_append htm.mon, lastDigits_append htm.mday]
    rfl
  have hnumber : seqText seq = lastDigits 7 seq.toNat := by
    rw [seqText, if_neg (not_lt.mpr h0), decimal_eq hseq (by decide)]
  unfold nameOf stamp
  rw [hdate, hnumber, List.append_assoc, lastDigits_append hseq]
  rfl

theorem strcmpPos_nameOf (htm : tm.Valid) (htm' : tm'.Valid) (hseq : InRange n seq) (hseq' : InRange n seq')
    (hn : n ≤ maxLogCnt) :
    strcmpPos (nameOf pre lvl tm seq) (nameOf pre lvl tm' seq') = true ↔ stamp tm' seq' < stamp tm seq := by
  rw [nameOf_eq htm hseq hn, nameOf_eq htm' hseq' hn, strcmpPos_append,
    strcmpPos_lastDigits 15 (stamp_lt htm hseq hn) (stamp_lt htm' hseq' hn)]

/-- The greatest of some names of a level, by date and number. It need not be that of the file opened last. -/
structure Greatest (pre : Name) (n : Nat) (lvl : LogLvl) (names : List Name) (tm : Tm) (seq : Int) : Prop where
  valid : tm.Valid
  range : InRange n seq
  mem : nameOf pre lvl tm seq ∈ names
  greatest : ∀ tm' seq', tm'.Valid → InRange n seq' → nameOf pre lvl tm' seq' ∈ names → stamp tm' seq' ≤ stamp tm seq

/-- The names of the level are those of files. -/
def Shaped (pre : Name) (n : Nat) (lvl : LogLvl) (names : List Name) : Prop :=
  ∀ name ∈ names, OfLevel pre lvl name → ∃ tm seq, tm.Valid ∧ InRange n seq ∧ name = nameOf pre lvl tm seq

theorem stamp_inj (htm : tm.Valid) (htm' : tm'.Valid)
    (he : nameOf pre lvl tm seq = nameOf pre lvl tm' seq') : stamp tm seq = stamp tm' seq' := by
  obtain ⟨-, ⟨hyear, hmon, hmday⟩, rfl⟩ := nameOf_inj htm htm' he
  rw [stamp, stamp, hyear, hmon, hmday]

/-- The loop over the directory comes to the greatest name, in whatever order the names are read. -/
theorem lastName_greatest (hb : (g.fdsInfo lvl).baseFilename = pre ++ lognames lvl) (hn : n ≤ maxLogCnt)
    (names : List (Name × Nat)) (hshape : Shaped pre n lvl (names.map Prod.fst)) :
    (lastName g lvl names = [] ∧ ∀ name ∈ names.map Prod.fst, ¬ OfLevel pre lvl name) ∨
      ∃ tm seq, lastName g lvl names = nameOf pre lvl tm seq ∧ Greatest pre n lvl (names.map Prod.fst) tm seq := by
  induction names using List.reverseRecOn with
  | nil => exact .inl ⟨rfl, fun _ h => absurd h List.not_mem_nil⟩
  | append_singleton names e ih =>
      rw [List.map_append, List.map_singleton] at hshape ⊢
      have ih := ih fun name hname => hshape name (List.mem_append_left _ hname)
      have hlast : lastName g lvl (names ++ [e]) =
          if hasBase g lvl e.1 && strcmpPos e.1 (lastName g lvl names) then e.1 else lastName g lvl names := by
        rw [lastName, List.foldl_append]
        rfl
      rw [hlast]
      by_cases hlvl : OfLevel pre lvl e.1
      · rw [(hasBase_iff hb).mpr hlvl, Bool.true_and]
        obtain ⟨tm, seq, htm, hseq, hname⟩ := hshape e.1 (by simp) hlvl
        rw [hname]
        refine .inr ?_
        rcases ih with ⟨hnil, hnone⟩ | ⟨tm₁, seq₁, hlast₁, hnew⟩
        · have hpos : strcmpPos (nameOf pre lvl tm seq) [] = true := by
            rw [nameOf_eq htm hseq hn]
            cases hcons : pre ++ lognames lvl ++ lastDigits 15 (stamp tm seq) with
            | nil => simpa using congrArg List.length hcons
            | cons c s => rfl
          rw [hnil, if_pos hpos]
          refine ⟨tm, seq, rfl, htm, hseq, by simp, fun tm' seq' htm' hseq' hmem => ?_⟩
          rcases List.mem_append.mp hmem with hold | hlast
          · exact absurd (ofLevel_nameOf.mpr rfl) (hnone _ hold)
          · exact (stamp_inj htm' htm (List.mem_singleton.mp hlast)).le
        · rw [hlast₁]
          have hcmp : strcmpPos (nameOf pre lvl tm seq) (nameOf pre lvl tm₁ seq₁) = true ↔
              stamp tm₁ seq₁ < stamp tm seq := strcmpPos_nameOf htm hnew.valid hseq hnew.range hn
          by_cases hlt : stamp tm₁ seq₁ < stamp tm seq
          · rw [if_pos (hcmp.mpr hlt)]
            refine ⟨tm, seq, rfl, htm, hseq, by simp, fun tm' seq' htm' hseq' hmem => ?_⟩
            rcases List.mem_append.mp hmem with hold | hlast
            · exact (hnew.greatest tm' seq' htm' hseq' hold).trans hlt.le
            · exact (stamp_inj htm' htm (List.mem_singleton.mp hlast)).le
          · rw [if_neg fun h => hlt (hcmp.mp h)]
            refine ⟨tm₁, seq₁, rfl, hnew.valid, hnew.range, List.mem_append_left _ hnew.mem,
              fun tm' seq' htm' hseq' hmem => ?_⟩
            rcases List.mem_append.mp hmem with hold | hlast
            · exact hnew.greatest tm' seq' htm' hseq' hold
            · rw [stamp_inj htm' htm (List.mem_singleton.mp hlast)]
              exact Nat.le_of_not_lt hlt
      · have hbase : hasBase g lvl e.1 = false := Bool.eq_false_iff.mpr fun h => hlvl ((hasBase_iff hb).mp h)
        rw [hbase, Bool.false_and]
        rcases ih with ⟨hnil, hnone⟩ | ⟨tm₁, seq₁, hlast₁, hnew⟩
        · refine .inl ⟨hnil, fun name hname => ?_⟩
          rcases List.mem_append.mp hname with hold | hlast
          · exact hnone name hold
          · rwa [List.mem_singleton.mp hlast]
        · refine .inr ⟨tm₁, seq₁, hlast₁, hnew.valid, hnew.range, List.mem_append_left _ hnew.mem,
            fun tm' seq' htm' hseq' hmem => ?_⟩
          rcases List.mem_append.mp hmem with hold | hlast
          · exact hnew.greatest tm' seq' htm' hseq' hold
          · exact absurd (ofLevel_nameOf.mpr rfl) (by rwa [List.mem_singleton.mp hlast])

/-- The number that a level starts with on a day: that of the greatest name if it is of the day, else the next
one, and 0 when there are no files. -/
def ResumesAt (pre : Name) (n : Nat) (names : List Name) (lvl : LogLvl) (today : Tm) (seq : Int) : Prop :=
  (∀ name ∈ names, ¬ OfLevel pre lvl name) ∧ seq = 0 ∨
    ∃ tm last, Greatest pre n lvl names tm last ∧
      (tm.SameDay today → seq = last) ∧ (¬ tm.SameDay today → seq = (last + 1) % n)

theorem ResumesAt.nonneg {names : List Name} (h : ResumesAt pre n names lvl today seq) (hn : n ≠ 0) : 0 ≤ seq := by
  rcases h with ⟨-, rfl⟩ | ⟨tm, last, hnew, hsame, hother⟩
  · exact le_rfl
  · by_cases hday : tm.SameDay today
    · rw [hsame hday]
      exact hnew.range.1
    · rw [hother hday]
      exact Int.emod_nonneg _ (Int.natCast_ne_zero.mpr hn)

theorem date_nameOf (hb : (g.fdsInfo lvl).baseFilename = pre ++ lognames lvl) (htm : tm.Valid) (rest : List UInt8) :
    ((nameOf pre lvl tm seq ++ rest).drop (g.fdsInfo lvl).baseFilename.length).take 8 = dateText tm := by
  rw [nameOf, hb, List.append_assoc, List.append_assoc (pre ++ lognames lvl), List.drop_left, ← dateText_length htm,
    List.take_left]

theorem getLogSeqRecycle_resumes (hn' : n ≤ maxLogCnt) (hmax : g.maxLogFiles = n)
    (hb : (g.fdsInfo lvl).baseFilename = pre ++ lognames lvl) (hvalid : (pf.localtime now).Valid)
    (hshape : Shaped pre n lvl disk.keys) :
    ResumesAt pre n disk.keys lvl (pf.localtime now) (getLogSeqRecycle pf g disk lvl now true) := by
  have hdid : ¬ (!true) = true := by decide
  unfold getLogSeqRecycle
  rw [if_neg hdid, hmax]
  dsimp only
  rcases lastName_greatest hb hn' disk.names hshape with ⟨hnil, hnone⟩ | ⟨tm, last, hlast, hnew⟩
  · have hname : resumeName g lvl disk.names (pf.localtime now) = nameOf pre lvl (pf.localtime now) 0 := by
      rw [resumeName, hnil]
      exact logFileName_eq hb
    refine .inl ⟨hnone, ?_⟩
    rw [hname, getLogfileSeqno_nameOf hb hvalid, date_nameOf hb hvalid, if_neg (by simp)]
    exact Int.zero_tmod _
  · have hcons : resumeName g lvl disk.names (pf.localtime now) = nameOf pre lvl tm last := by
      unfold resumeName
      rw [hlast]
      split
      · rename_i hnil
        rw [nameOf_eq hnew.valid hnew.range hn'] at hnil
        simpa using congrArg List.length hnil
      · rfl
    obtain ⟨h0, h1⟩ := hnew.range
    refine .inr ⟨tm, last, hnew, fun hday => ?_, fun hday => ?_⟩
    · rw [hcons, getLogfileSeqno_nameOf hb hnew.valid, date_nameOf hb hnew.valid, hday.dateText, if_neg (by simp),
        Int.tmod_eq_emod_of_nonneg h0, Int.emod_eq_of_lt h0 h1]
    · have hdate : dateText (pf.localtime now) ≠ dateText tm := fun he => hday (dateText_inj hnew.valid hvalid he.symm)
      rw [hcons, getLogfileSeqno_nameOf hb hnew.valid, date_nameOf hb hnew.valid, if_pos hdate,
        Int.tmod_eq_emod_of_nonneg (by omega)]

/-! ## Starting -/

variable {im : InitMet} {w w₀ : World} {p : Nat}

theorem initLoop_resumes (hn : n ≠ 0) (hn' : n ≤ maxLogCnt) (hcal : Calendar pf) (hshape : ∀ lvl, Shaped pre n lvl disk.keys)
    (hdir : ∀ lvl, im.opendir lvl = true) (h : Recycles pre n g) : (initLoop pf disk im logLvls g).2 = true ∧
      ∀ lvl, ResumesAt pre n disk.keys lvl (pf.localtime (im.time lvl)) ((initLoop pf disk im logLvls g).1.fdsInfo lvl).seq := by
  obtain ⟨hok, hlevels⟩ := initLoop_levels pf disk im (Q := Recycles pre n)
    (P := fun lvl fds => ResumesAt pre n disk.keys lvl (pf.localtime (im.time lvl)) fds.seq)
    (fun _ _ h => ⟨h.pre, h.bySize, h.max⟩)
    (fun g lvl h => by
      obtain ⟨g₁, hb, hmax, hseq⟩ := h.initLevel pf disk hn (hdir lvl)
      rw [hseq]
      exact getLogSeqRecycle_resumes hn' hmax hb (hcal.valid _) (hshape lvl))
    (fun _ _ h => h.nonneg hn) logLvls h
  exact ⟨hok, fun lvl => hlevels lvl (.inl (mem_logLvls lvl))⟩

/-- After any run in which all processes recycle `n` files, in a directory that has at most one file of each number
below `n` for each level at the start, `log_init` succeeds. Each level goes on from the greatest of its names by date
and number: with that number if the date is that of the day, else with the next one, whatever the order in which the
directory gives its names. -/
theorem logInit_resumes (hn : n ≠ 0) (hn' : n ≤ maxLogCnt) (hcal : Calendar pf) (hstart : w₀.Start)
    (hring : Ring (pre.take 31) n w₀.disk) (hr : RecycleRun pf pre n w₀ w) {level : LogLvl} {size : Nat}
    (hsize : size ≤ 2 ^ 31) (hwritable : im.writable = true) (hdir : ∀ lvl, im.opendir lvl = true) :
    (logInit pf (w.procs p) w.disk level size n (some pre) im).2 = 0 ∧
      ∀ lvl, ResumesAt (pre.take 31) n w.disk.keys lvl (pf.localtime (im.time lvl))
        ((logInit pf (w.procs p) w.disk level size n (some pre) im).1.fdsInfo lvl).seq := by
  have hshape := (hr.recycled hn hcal hstart hring).ring.shape
  have hs : BySize (w.procs p) := ((hr.run.ok hcal hstart.ok).1.procs p).bySize
  have hsize' : ¬ size > 2 ^ 31 := not_lt.mpr hsize
  have hwritable' : ¬ (!im.writable) = true := by simp [hwritable]
  obtain ⟨hok, hseqs⟩ := initLoop_resumes (g := ((w.procs p).configure level size n).setPre (some pre)) hn hn' hcal hshape hdir
    ⟨rfl, hs, rfl⟩
  unfold logInit
  rw [if_neg hsize', if_neg hwritable']
  generalize initLoop pf w.disk im logLvls (((w.procs p).configure level size n).setPre (some pre)) = inited at hok hseqs ⊢
  obtain ⟨g₂, ok⟩ := inited
  dsimp only at hok hseqs ⊢
  subst hok
  exact ⟨rfl, hseqs⟩

/-- The process 1 starts on the second day, when the process 0 has written to the files 0 and 1 on the first day and
to the files 2 and 0 on the second one. It goes on with the file 2. -/
theorem logInit_resumes_around :
    ((logInit twoDays ((filled 3).procs 1) (filled 3).disk .info 1 3 (some []) (initAt 90200)).2 = 0 ∧
      ∀ lvl, ResumesAt [] 3 (filled 3).disk.keys lvl (twoDays.localtime 90200)
        ((logInit twoDays ((filled 3).procs 1) (filled 3).disk .info 1 3 (some []) (initAt 90200)).1.fdsInfo lvl).seq) ∧
    ((logInit twoDays ((filled 3).procs 1) (filled 3).disk .info 1 3 (some []) (initAt 90200)).1.fdsInfo .error).seq = 2 :=
  ⟨logInit_resumes (by decide) (by decide) calendar_twoDays start_emptyDir (ring_emptyDir _ 3) (filledRun (.inr rfl)) (by decide) rfl
    fun _ => rfl, by decide +kernel⟩

end Taomee.Log
