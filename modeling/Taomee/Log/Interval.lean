import Taomee.Log.Today

/-!
# Files by time

After `log_init_t` the files of a level are cut by time. The time is read again for each purpose, so a call
that meets the end of an interval may use two of them. Still every line goes to a file of an interval that
the call has touched, and no file is ever removed.
-/

namespace Taomee.Log

variable {pf : Platform} {pre : Name} {g g' : Globals} {disk disk' : Disk} {lvl lvl' : LogLvl} {tm : Tm} {o : Opening}
  {m : Met} {now now' ino : Nat}

/-- The name of the file of the `k`th interval. -/
def intervalName (pf : Platform) (pre : Name) (lvl : LogLvl) (interval k : Nat) : Name :=
  let tm := pf.localtime (k * interval)
  pre ++ lognames lvl ++ dateText tm ++ decimal 2 tm.hour ++ decimal 2 tm.min

/-- Cut by time, with recycling off. -/
structure ByTime (g : Globals) : Prop where
  interval : g.logtimeInterval ≠ 0
  max : g.maxLogFiles = 0
  config : g.configMaxLogFiles = 0

/-- The number of a level is that of an interval no later than the one of its open file. -/
def IntervalOk (pf : Platform) (pre : Name) (interval now : Nat) (lvl : LogLvl) (fds : Fds) (disk : Disk) : Prop :=
  ∃ t, t ≤ now ∧ fds.seq ≤ (t / interval : Nat) ∧ ∀ ino, fds.opfd = some ino →
    (intervalName pf pre lvl interval (t / interval), ino) ∈ disk.names

theorem IntervalOk.later {interval : Nat} {fds : Fds} (h : IntervalOk pf pre interval now lvl fds disk) (hnow : now ≤ now')
    (ha : Adds disk disk') : IntervalOk pf pre interval now' lvl fds disk' := by
  obtain ⟨t, ht, hseq, hino⟩ := h
  exact ⟨t, ht.trans hnow, hseq, fun ino hopfd => ha.names _ (hino ino hopfd)⟩

theorem countOpened_byTime (lvl : LogLvl) (tm : Tm) (ino : Nat) (h : ByTime g) : ByTime (countOpened g lvl tm ino) ∧
    ((countOpened g lvl tm ino).fdsInfo lvl).seq = (g.fdsInfo lvl).seq := by
  have ht : Touches lvl g (countOpened g lvl tm ino) := touches_countOpened
  have hmax : (countDay (g.setFds lvl fun fds => { fds with opfd := some ino }) lvl tm).maxLogFiles = 0 := by
    unfold countDay
    split_ifs
    · exact h.config
    · exact h.max
  have hoff : giveUpRecycle (countDay (g.setFds lvl fun fds => { fds with opfd := some ino }) lvl tm) lvl =
      countDay (g.setFds lvl fun fds => { fds with opfd := some ino }) lvl tm := by
    unfold giveUpRecycle
    rw [if_neg fun hon => hon.1 hmax]
  refine ⟨⟨by rw [ht.interval]; exact h.interval, ?_, ht.config.trans h.config⟩, ?_⟩
  · unfold countOpened
    rw [hoff, hmax]
  · unfold countOpened
    rw [hoff]
    unfold countDay
    split_ifs <;> simp [Globals.setMax]

/-- What `open_fd` and its callers do for a level, at the time `now`. -/
structure Cuts (pf : Platform) (pre : Name) (now : Nat) (lvl : LogLvl) (g : Globals) (disk : Disk) (g' : Globals)
    (disk' : Disk) : Prop where
  touches : Touches lvl g g'
  byTime : ByTime g'
  adds : Adds disk disk'
  wf : disk.Wf → disk'.Wf
  ok : IntervalOk pf pre g.logtimeInterval now lvl (g'.fdsInfo lvl) disk'

theorem cuts_openFd (pf : Platform) (disk : Disk) (tm : Tm) (h : ByTime g) (hb : Based pre g)
    (hseq : (g.fdsInfo lvl).seq ≤ (o.time / g.logtimeInterval : Nat)) :
    Cuts pf pre o.time lvl g disk (openFd pf g disk lvl tm o).1 (openFd pf g disk lvl tm o).2 ∧
      ((openFd pf g disk lvl tm o).1.fdsInfo lvl).seq = (g.fdsInfo lvl).seq ∧
      ∀ ino, ((openFd pf g disk lvl tm o).1.fdsInfo lvl).opfd = some ino →
        (intervalName pf pre lvl g.logtimeInterval (o.time / g.logtimeInterval), ino) ∈ (openFd pf g disk lvl tm o).2.names := by
  have hname : logFilePath pf g lvl (g.fdsInfo lvl).seq tm o.time =
      intervalName pf pre lvl g.logtimeInterval (o.time / g.logtimeInterval) := by
    rw [logFilePath, if_pos h.interval, hb]
    rfl
  unfold openFd
  rw [hname]
  by_cases hopens : (!o.opens) = true
  · rw [if_pos hopens]
    have ht : Touches lvl g (g.setFds lvl fun fds => { fds with opfd := none }) := touches_setFds (by intro; rfl)
    have hself : (g.setFds lvl fun fds => { fds with opfd := none }).fdsInfo lvl = { g.fdsInfo lvl with opfd := none } :=
      setFds_self _
    refine ⟨⟨ht, ⟨h.interval, h.max, h.config⟩, .refl disk, id, o.time, le_rfl, ?_, ?_⟩, ?_, ?_⟩
    · rw [hself]
      exact hseq
    · rw [hself]
      rintro ino ⟨⟩
    · rw [hself]
    · rw [hself]
      rintro ino ⟨⟩
  · rw [if_neg hopens]
    have hop := opens_openAppend disk (intervalName pf pre lvl g.logtimeInterval (o.time / g.logtimeInterval))
    generalize disk.openAppend (intervalName pf pre lvl g.logtimeInterval (o.time / g.logtimeInterval)) = opened at hop ⊢
    obtain ⟨ino, disk₁⟩ := opened
    dsimp only at hop ⊢
    obtain ⟨hbyTime, hsame⟩ := countOpened_byTime lvl tm ino h
    rw [if_neg (not_not.mpr hbyTime.max)]
    have hmem : ∀ ino', ((countOpened g lvl tm ino).fdsInfo lvl).opfd = some ino' →
        (intervalName pf pre lvl g.logtimeInterval (o.time / g.logtimeInterval), ino') ∈ disk₁.names := fun ino' hino' => by
      rw [countOpened_opfd] at hino'
      rw [← Option.some.inj hino']
      exact hop.mem
    exact ⟨⟨touches_countOpened, hbyTime, hop.adds, hop.wf, o.time, le_rfl, by rw [hsame]; exact hseq, hmem⟩, hsame, hmem⟩

/-- The times that a call reads, one after the other. -/
structure Met.Ordered (m : Met) : Prop where
  first : m.now ≤ m.first.time
  check : m.first.time ≤ m.check
  shift : m.check ≤ m.shift
  second : m.shift ≤ m.second.time

/-- The open file is that of an interval between the check and the end of the call. -/
def Touched (pf : Platform) (pre : Name) (lvl : LogLvl) (interval : Nat) (m : Met) (fds : Fds) (disk : Disk) : Prop :=
  ∀ ino, fds.opfd = some ino → ∃ k, m.check / interval ≤ k ∧ k ≤ m.second.time / interval ∧
    (intervalName pf pre lvl interval k, ino) ∈ disk.names

theorem cuts_shiftOpened (tm : Tm) (ino : Nat) (h : ByTime g) (hb : Based pre g) (hm : m.Ordered) (hnow : now ≤ m.check)
    (hok : IntervalOk pf pre g.logtimeInterval now lvl (g.fdsInfo lvl) disk) :
    Cuts pf pre m.second.time lvl g disk (shiftOpened pf g disk lvl tm m ino).1 (shiftOpened pf g disk lvl tm m ino).2 ∧
      Touched pf pre lvl g.logtimeInterval m ((shiftOpened pf g disk lvl tm m ino).1.fdsInfo lvl)
        (shiftOpened pf g disk lvl tm m ino).2 := by
  unfold shiftOpened
  by_cases hup : upToDate g disk lvl tm m.check ino = true
  · rw [if_pos hup]
    refine ⟨⟨.refl g, h, .refl disk, id, hok.later (hnow.trans (hm.shift.trans hm.second)) (.refl disk)⟩, fun ino hino => ?_⟩
    obtain ⟨t, ht, hseq, hmem⟩ := hok
    rw [upToDate, if_pos h.interval, decide_eq_true_eq, getLogTime] at hup
    -- the file is no older than its number, which is that of the interval of the check
    have hle : m.check / g.logtimeInterval ≤ t / g.logtimeInterval := by
      rw [hup] at hseq
      exact_mod_cast hseq
    exact ⟨_, hle, Nat.div_le_div_right (ht.trans (hnow.trans (hm.shift.trans hm.second))), hmem ino hino⟩
  · rw [if_neg hup]
    have ht : Touches lvl g (g.setFds lvl fun fds => { fds with seq := nextSeq g lvl tm m.shift }) :=
      touches_setFds (by intro; rfl)
    have hnext : nextSeq g lvl tm m.shift = (m.shift / g.logtimeInterval : Nat) := by
      rw [nextSeq, if_pos h.interval, getLogTime]
    have hle : ((g.setFds lvl fun fds => { fds with seq := nextSeq g lvl tm m.shift }).fdsInfo lvl).seq ≤
        (m.second.time / g.logtimeInterval : Nat) := by
      rw [setFds_self, hnext]
      change ((m.shift / g.logtimeInterval : Nat) : Int) ≤ _
      exact_mod_cast Nat.div_le_div_right hm.second
    obtain ⟨hcuts, -, hmem⟩ := cuts_openFd pf disk tm (o := m.second)
      (g := g.setFds lvl fun fds => { fds with seq := nextSeq g lvl tm m.shift }) ⟨h.interval, h.max, h.config⟩ (ht.based hb) hle
    refine ⟨⟨ht.trans hcuts.touches, hcuts.byTime, hcuts.adds, hcuts.wf, hcuts.ok⟩, fun ino hino => ?_⟩
    exact ⟨_, Nat.div_le_div_right (hm.shift.trans hm.second), le_rfl, hmem ino hino⟩

theorem cuts_shiftFd (tm : Tm) (h : ByTime g) (hb : Based pre g) (hm : m.Ordered) (hnow : now ≤ m.now)
    (hok : IntervalOk pf pre g.logtimeInterval now lvl (g.fdsInfo lvl) disk) :
    Cuts pf pre m.second.time lvl g disk (shiftFd pf g disk lvl tm m).1 (shiftFd pf g disk lvl tm m).2 ∧
      Touched pf pre lvl g.logtimeInterval m ((shiftFd pf g disk lvl tm m).1.fdsInfo lvl)
        (shiftFd pf g disk lvl tm m).2 := by
  unfold shiftFd
  cases hopfd : (g.fdsInfo lvl).opfd with
  | some ino => exact cuts_shiftOpened tm ino h hb hm (hnow.trans (hm.first.trans hm.check)) hok
  | none =>
      have hseq : (g.fdsInfo lvl).seq ≤ (m.first.time / g.logtimeInterval : Nat) := by
        obtain ⟨t, ht, hseq, -⟩ := hok
        refine hseq.trans ?_
        exact_mod_cast Nat.div_le_div_right (ht.trans (hnow.trans hm.first))
      obtain ⟨hcuts, -, -⟩ := cuts_openFd pf disk tm h hb hseq
      generalize openFd pf g disk lvl tm m.first = opened at hcuts ⊢
      obtain ⟨g₁, disk₁⟩ := opened
      dsimp only at hcuts ⊢
      have hend := hm.check.trans (hm.shift.trans hm.second)
      cases hopfd₁ : (g₁.fdsInfo lvl).opfd with
      | none =>
          refine ⟨⟨hcuts.touches, hcuts.byTime, hcuts.adds, hcuts.wf, hcuts.ok.later hend (.refl _)⟩, fun ino hino => ?_⟩
          rw [hopfd₁] at hino
          cases hino
      | some ino =>
          have hok₁ := hcuts.ok
          rw [← hcuts.touches.interval] at hok₁
          obtain ⟨hcuts₂, htouched⟩ := cuts_shiftOpened tm ino hcuts.byTime (hcuts.touches.based hb) hm
            hm.check hok₁
          rw [hcuts.touches.interval] at htouched
          have hok₂ := hcuts₂.ok
          rw [hcuts.touches.interval] at hok₂
          exact ⟨⟨hcuts.touches.trans hcuts₂.touches, hcuts₂.byTime, hcuts.adds.trans hcuts₂.adds,
            hcuts₂.wf ∘ hcuts.wf, hok₂⟩, htouched⟩

variable {key pid : Nat} {text : List UInt8}

theorem cuts_writeLog (key pid : Nat) (text : List UInt8) (h : ByTime g) (hb : Based pre g) (hm : m.Ordered)
    (hnow : now ≤ m.now) (hok : IntervalOk pf pre g.logtimeInterval now lvl (g.fdsInfo lvl) disk) :
    Cuts pf pre m.second.time lvl g disk (writeLog pf g disk lvl key pid text m).1
      (writeLog pf g disk lvl key pid text m).2.1 ∧
      ((writeLog pf g disk lvl key pid text m).2.2 = true → ∃ k ino, m.check / g.logtimeInterval ≤ k ∧
        k ≤ m.second.time / g.logtimeInterval ∧
        (intervalName pf pre lvl g.logtimeInterval k, ino) ∈ (writeLog pf g disk lvl key pid text m).2.1.names ∧
        logLine (pf.localtime m.now) key pid text ∈ ((writeLog pf g disk lvl key pid text m).2.1.files ino).lines) := by
  have hend := hnow.trans (hm.first.trans (hm.check.trans (hm.shift.trans hm.second)))
  have hnothing : Cuts pf pre m.second.time lvl g disk g disk := ⟨.refl g, h, .refl disk, id, hok.later hend (.refl disk)⟩
  unfold writeLog
  split_ifs with hlevel hdest
  · exact ⟨hnothing, nofun⟩
  · exact ⟨hnothing, nofun⟩
  · obtain ⟨hcuts, htouched⟩ := cuts_shiftFd (pf.localtime m.now) h hb hm hnow hok
    dsimp only
    generalize shiftFd pf g disk lvl (pf.localtime m.now) m = shifted at hcuts htouched ⊢
    obtain ⟨g₁, disk₁⟩ := shifted
    dsimp only at hcuts htouched ⊢
    cases hopfd : (g₁.fdsInfo lvl).opfd with
    | none => exact ⟨hcuts, nofun⟩
    | some ino =>
        have hadds := adds_append disk₁ ino (logLine (pf.localtime m.now) key pid text)
        refine ⟨⟨hcuts.touches, hcuts.byTime, hcuts.adds.trans hadds, fun hwf => (hcuts.wf hwf).append _ _,
          hcuts.ok.later le_rfl hadds⟩, fun _ => ?_⟩
        obtain ⟨k, hle, hge, hmem⟩ := htouched ino hopfd
        refine ⟨k, ino, hle, hge, hadds.names _ hmem, ?_⟩
        simp [Disk.append]

theorem writeLog_of_terminal (h : g.destFile ≠ true) : writeLog pf g disk lvl key pid text m = (g, disk, false) := by
  have hdest : (!g.destFile) = true := by simpa using h
  unfold writeLog
  split_ifs
  · rfl
  · rfl

/-! ## Initialisation -/

variable {im : InitMet}

/-- `log_init` has closed the file of the level and given it the number of the interval. -/
def Renumbered (interval time : Nat) (fds : Fds) : Prop := fds.opfd = none ∧ fds.seq = (time / interval : Nat)

theorem initLevel_renumbered (pf : Platform) (disk : Disk) (im : InitMet) (lvl : LogLvl) (h : g.logtimeInterval ≠ 0) :
    Renumbered g.logtimeInterval (im.time lvl) ((initLevel pf g disk im lvl).fdsInfo lvl) := by
  have hset : ∀ f : Fds → Fds, (g.setFds lvl f).logtimeInterval ≠ 0 := fun _ => h
  unfold initLevel
  dsimp only
  rw [setFds_self, setFds_self, if_pos (hset _)]
  exact ⟨rfl, rfl⟩

/-- By time the loop goes through. -/
theorem initLoop_renumbered (pf : Platform) (disk : Disk) (im : InitMet) (h : g.logtimeInterval ≠ 0) :
    (initLoop pf disk im logLvls g).2 = true ∧
      ∀ lvl, Renumbered g.logtimeInterval (im.time lvl) ((initLoop pf disk im logLvls g).1.fdsInfo lvl) := by
  obtain ⟨hok, hlevels⟩ := initLoop_levels pf disk im
    (Q := fun g' => g'.logtimeInterval = g.logtimeInterval)
    (P := fun lvl fds => Renumbered g.logtimeInterval (im.time lvl) fds) (fun _ _ h => h)
    (fun g' lvl hg' => by
      rw [← hg'] at h ⊢
      exact initLevel_renumbered pf disk im lvl h)
    (fun lvl fds hfds => by
      rw [hfds.2]
      exact Int.natCast_nonneg _)
    logLvls rfl
  exact ⟨hok, fun lvl => hlevels lvl (.inl (mem_logLvls lvl))⟩

/-! ## Processes -/

/-- What holds of each process: after `log_init_t` its files are cut by time. -/
structure Timed (pf : Platform) (pre : Name) (now : Nat) (g : Globals) (disk : Disk) : Prop where
  dest : g.destFile = true → g.hasInit = true
  byTime : g.hasInit = true → ByTime g
  based : g.hasInit = true → Based pre g
  ok : g.hasInit = true → ∀ lvl, IntervalOk pf pre g.logtimeInterval now lvl (g.fdsInfo lvl) disk

theorem timed_start : Timed pf pre now .start disk := ⟨nofun, nofun, nofun, nofun⟩

theorem Timed.later (h : Timed pf pre now g disk) (hnow : now ≤ now') (ha : Adds disk disk') : Timed pf pre now' g disk' :=
  ⟨h.dest, h.byTime, h.based, fun hinit lvl => (h.ok hinit lvl).later hnow ha⟩

theorem Timed.cuts (h : Timed pf pre now g disk) (hnow : now ≤ now') (hinit : g.hasInit = true)
    (hcuts : Cuts pf pre now' lvl g disk g' disk') : Timed pf pre now' g' disk' where
  dest := fun _ => hcuts.touches.hasInit.trans hinit
  byTime := fun _ => hcuts.byTime
  based := fun _ => hcuts.touches.based (h.based hinit)
  ok := fun _ lvl' => by
    rw [hcuts.touches.interval]
    by_cases hl : lvl' = lvl
    · subst hl
      exact hcuts.ok
    · rw [hcuts.touches.others lvl' hl]
      exact (h.ok hinit lvl').later hnow hcuts.adds

/-- A process that has been initialised gives `log_init_t` another length of an interval only if the directory may
be written. -/
theorem Timed.logInitT {level : LogLvl} {logtime : Nat} (h : Timed pf (pre.take 31) now g disk) (hpos : 0 < logtime)
    (hsame : g.hasInit = true → im.writable = true ∨ g.logtimeInterval = logtime * 60) (hnow : now ≤ now')
    (htime : ∀ lvl, im.time lvl ≤ now') :
    Timed pf (pre.take 31) now' (logInitT pf g disk level (some pre) logtime im).1 disk := by
  have hset : ¬ im.writable = true →
      Timed pf (pre.take 31) now' (Globals.configure { g with logtimeInterval := logtime * 60 } level 0 0) disk := by
    refine fun hrefused => ⟨h.dest, fun _ => ⟨?_, rfl, rfl⟩, h.based, fun hinit lvl => ?_⟩
    · exact Nat.mul_ne_zero hpos.ne' (by decide)
    · have hok := (h.ok hinit lvl).later hnow (.refl disk)
      rwa [(hsame hinit).resolve_left hrefused] at hok
  have hint : (Globals.configure { g with logtimeInterval := logtime * 60 } level 0 0).logtimeInterval ≠ 0 :=
    Nat.mul_ne_zero hpos.ne' (by decide)
  have hmax : (Globals.configure { g with logtimeInterval := logtime * 60 } level 0 0).maxLogFiles = 0 ∧
      (Globals.configure { g with logtimeInterval := logtime * 60 } level 0 0).configMaxLogFiles = 0 := ⟨rfl, rfl⟩
  unfold Log.logInitT Log.logInit
  generalize Globals.configure { g with logtimeInterval := logtime * 60 } level 0 0 = g₁ at hset hint hmax ⊢
  dsimp only
  rw [if_neg (by decide)]
  by_cases hwritable : (!im.writable) = true
  · rw [if_pos hwritable]
    exact hset (by simpa using hwritable)
  · rw [if_neg hwritable]
    have hi : Inited (pre.take 31) logLvls (g₁.setPre (some pre)) (initLoop pf disk im logLvls (g₁.setPre (some pre))).1
        (initLoop pf disk im logLvls (g₁.setPre (some pre))).2 := inited_initLoop rfl
    obtain ⟨hthrough, hlevels⟩ := initLoop_renumbered pf disk im (g := g₁.setPre (some pre)) hint
    generalize initLoop pf disk im logLvls (g₁.setPre (some pre)) = inited at hi hthrough hlevels ⊢
    obtain ⟨g₂, ok⟩ := inited
    dsimp only at hi hthrough hlevels ⊢
    subst hthrough
    have hinterval : g₂.logtimeInterval = g₁.logtimeInterval := hi.interval
    change Timed pf (pre.take 31) now' { g₂ with destFile := true, hasInit := true } disk
    refine ⟨fun _ => rfl, fun _ => ⟨?_, ?_, ?_⟩, fun _ lvl => hi.based rfl lvl (mem_logLvls lvl), fun _ lvl => ?_⟩
    · exact hinterval.trans_ne hint
    · exact hi.max.trans hmax.1
    · exact hi.config.trans hmax.2
    · obtain ⟨hclosed, hseq⟩ := hlevels lvl
      refine ⟨im.time lvl, htime lvl, ?_, fun ino hino => ?_⟩
      · exact (hseq.trans (by rw [hinterval]; rfl)).le
      · rw [hclosed] at hino
        cases hino

/-- The processes, each at its own time, and the directory. -/
structure Clocked where
  procs : Nat → Globals
  disk : Disk
  clock : Nat → Nat

/-- The world after a call of `write_log`. -/
def Clocked.write (pf : Platform) (w : Clocked) (p : Nat) (lvl : LogLvl) (key pid : Nat) (text : List UInt8) (m : Met) :
    Clocked where
  procs := Function.update w.procs p (writeLog pf (w.procs p) w.disk lvl key pid text m).1
  disk := (writeLog pf (w.procs p) w.disk lvl key pid text m).2.1
  clock := Function.update w.clock p m.second.time

/-- A process calls the interface, or the directory gives its names in another order. The calls follow one another,
but the clocks of two processes may stand apart. An initialised process gives `log_init_t` another interval only where that
call gets past the check of the directory: the interval is set before the check. -/
inductive TimedStep (pf : Platform) (pre : Name) : Clocked → Clocked → Prop
  | write {w : Clocked} (p : Nat) (lvl : LogLvl) (key pid : Nat) (text : List UInt8) (m : Met) : w.clock p ≤ m.now →
      m.Ordered → TimedStep pf pre w (w.write pf p lvl key pid text m)
  | init {w : Clocked} (p : Nat) (level : LogLvl) (logtime : Nat) (im : InitMet) (time : Nat) : 0 < logtime →
      ((w.procs p).hasInit = true → im.writable = true ∨ (w.procs p).logtimeInterval = logtime * 60) →
      (∀ lvl, w.clock p ≤ im.time lvl ∧ im.time lvl ≤ time) →
      TimedStep pf pre w
        { procs := Function.update w.procs p (logInitT pf (w.procs p) w.disk level (some pre) logtime im).1
          disk := w.disk
          clock := Function.update w.clock p time }
  | fini {w : Clocked} (p : Nat) : TimedStep pf pre w { w with procs := Function.update w.procs p logFini }
  | dest {w : Clocked} (p : Nat) (destFile : Bool) : (w.procs p).hasInit = true →
      TimedStep pf pre w { w with procs := Function.update w.procs p (setLogDest (w.procs p) destFile) }
  | order {w : Clocked} (names : List (Name × Nat)) : names.Perm w.disk.names →
      TimedStep pf pre w { w with disk := { w.disk with names := names } }

/-- Some steps. -/
inductive TimedRun (pf : Platform) (pre : Name) : Clocked → Clocked → Prop
  | refl (w : Clocked) : TimedRun pf pre w w
  | tail {w w₁ w₂ : Clocked} : TimedRun pf pre w w₁ → TimedStep pf pre w₁ w₂ → TimedRun pf pre w w₂

/-- The invariant of all runs. -/
structure Clocked.Ok (pf : Platform) (pre : Name) (w : Clocked) : Prop where
  procs : ∀ p, Timed pf (pre.take 31) (w.clock p) (w.procs p) w.disk
  disk : w.disk.Wf

variable {w w₁ w₂ : Clocked} {p : Nat}

/-- A step of one process leaves the others in order. -/
theorem Clocked.Ok.update (h : w.Ok pf pre) (hnow : w.clock p ≤ now') (ha : Adds w.disk disk') (hwf : disk'.Wf)
    (hp : Timed pf (pre.take 31) now' g' disk') :
    Clocked.Ok pf pre { procs := Function.update w.procs p g', disk := disk', clock := Function.update w.clock p now' } := by
  refine ⟨fun q => ?_, hwf⟩
  dsimp only
  by_cases hq : q = p
  · subst hq
    rw [Function.update_self, Function.update_self]
    exact hp
  · rw [Function.update_of_ne hq, Function.update_of_ne hq]
    exact (h.procs q).later le_rfl ha

theorem Clocked.Ok.updateProc (h : w.Ok pf pre) (hp : Timed pf (pre.take 31) (w.clock p) g' w.disk) :
    Clocked.Ok pf pre { w with procs := Function.update w.procs p g' } := by
  have hupdate := h.update le_rfl (.refl _) h.disk hp
  rwa [Function.update_eq_self] at hupdate

theorem Timed.writeLog (lvl : LogLvl) (key pid : Nat) (text : List UInt8) (h : Timed pf pre now g disk) (hm : m.Ordered)
    (hnow : now ≤ m.now) (hwf : disk.Wf) :
    Timed pf pre m.second.time (writeLog pf g disk lvl key pid text m).1 (writeLog pf g disk lvl key pid text m).2.1 ∧
      Adds disk (Log.writeLog pf g disk lvl key pid text m).2.1 ∧ (Log.writeLog pf g disk lvl key pid text m).2.1.Wf := by
  have hend := hnow.trans (hm.first.trans (hm.check.trans (hm.shift.trans hm.second)))
  by_cases hinit : g.hasInit = true
  · obtain ⟨hcuts, -⟩ := cuts_writeLog key pid text (h.byTime hinit) (h.based hinit) hm hnow
      (h.ok hinit lvl)
    exact ⟨h.cuts hend hinit hcuts, hcuts.adds, hcuts.wf hwf⟩
  · rw [writeLog_of_terminal fun hon => hinit (h.dest hon)]
    exact ⟨h.later hend (.refl disk), .refl disk, hwf⟩

/-- The step lemma. -/
theorem TimedStep.ok (hstep : TimedStep pf pre w w₁) (h : w.Ok pf pre) : w₁.Ok pf pre ∧ Adds w.disk w₁.disk := by
  cases hstep with
  | write p lvl key pid text m hnow hm =>
      obtain ⟨htimed, hadds, hwf⟩ := (h.procs p).writeLog lvl key pid text hm hnow h.disk
      have hend := hnow.trans (hm.first.trans (hm.check.trans (hm.shift.trans hm.second)))
      exact ⟨h.update hend hadds hwf htimed, hadds⟩
  | init p level logtime im time hpos hsame htimes =>
      have hnow : w.clock p ≤ time := (htimes .info).1.trans (htimes .info).2
      exact ⟨h.update hnow (.refl _) h.disk ((h.procs p).logInitT hpos hsame hnow fun lvl => (htimes lvl).2), .refl _⟩
  | fini p => exact ⟨h.updateProc timed_start, .refl _⟩
  | dest p destFile hinit =>
      have hproc := h.procs p
      have htime := hproc.byTime hinit
      exact ⟨h.updateProc ⟨fun _ => hinit, fun _ => ⟨htime.interval, htime.max, htime.config⟩, hproc.based, hproc.ok⟩, .refl _⟩
  | order names hperm =>
      have ha : Adds w.disk { w.disk with names := names } :=
        ⟨fun _ he => hperm.mem_iff.mpr he, fun _ _ => ⟨rfl, List.prefix_rfl⟩, le_rfl⟩
      exact ⟨⟨fun p => (h.procs p).later le_rfl ha, fun e he => h.disk e (hperm.mem_iff.mp he)⟩, ha⟩

/-- The run lemma. -/
theorem TimedRun.ok (hr : TimedRun pf pre w w₁) (h : w.Ok pf pre) : w₁.Ok pf pre ∧ Adds w.disk w₁.disk := by
  induction hr with
  | refl => exact ⟨h, .refl _⟩
  | tail _ hstep ih =>
      obtain ⟨hok, hadds⟩ := hstep.ok ih.1
      exact ⟨hok, ih.2.trans hadds⟩

/-- In every run with any number of processes that cut their files by time, a line that is written is in a
file named after an interval that the call has touched, and is there for ever. A call that does not meet the
end of an interval writes to the file of its interval. -/
theorem line_in_touched_interval {w₀ : Clocked} (hstart : ∀ p, w₀.procs p = .start) (hwf : w₀.disk.Wf)
    (hr : TimedRun pf pre w₀ w) (hnow : w.clock p ≤ m.now) (hm : m.Ordered)
    (hwritten : (writeLog pf (w.procs p) w.disk lvl key pid text m).2.2 = true)
    (hr₂ : TimedRun pf pre (w.write pf p lvl key pid text m) w₂) :
    ∃ k ino, m.check / (w.procs p).logtimeInterval ≤ k ∧ k ≤ m.second.time / (w.procs p).logtimeInterval ∧
      (intervalName pf (pre.take 31) lvl (w.procs p).logtimeInterval k, ino) ∈ w₂.disk.names ∧
      logLine (pf.localtime m.now) key pid text ∈ (w₂.disk.files ino).lines := by
  obtain ⟨hok, -⟩ := hr.ok ⟨fun p => by rw [hstart]; exact timed_start, hwf⟩
  obtain ⟨hok₁, -⟩ := (TimedStep.write p lvl key pid text m hnow hm).ok hok
  obtain ⟨-, hadds⟩ := hr₂.ok hok₁
  have hproc := hok.procs p
  have hinit : (w.procs p).hasInit = true := by
    apply hproc.dest
    by_contra hoff
    rw [writeLog_of_terminal hoff] at hwritten
    cases hwritten
  obtain ⟨-, hline⟩ := cuts_writeLog key pid text (hproc.byTime hinit) (hproc.based hinit) hm hnow
    (hproc.ok hinit lvl)
  obtain ⟨k, ino, hle, hge, hmem, hlines⟩ := hline hwritten
  exact ⟨k, ino, hle, hge, hadds.names _ hmem, (hadds.files ino (hok₁.disk _ hmem).1).2.subset hlines⟩

/-- The process 0 after `log_init_t` with files of a minute. -/
def minuteFiles : Clocked where
  procs := Function.update emptyDir.procs 0
    (logInitT twoDays (emptyDir.procs 0) emptyDir.disk .info (some []) 1 (initAt 0)).1
  disk := emptyDir.disk
  clock := Function.update (fun _ => 0) 0 0

/-- A call that starts in the first minute and ends in the second one. -/
def acrossMinute : Met := ⟨59, ⟨59, true, true⟩, 60, 60, ⟨60, true, true⟩⟩

/-- The process 0 goes on with files of two minutes. -/
def twoMinuteFiles : Clocked :=
  let w := minuteFiles.write twoDays 0 .error 7 0 [0x0A] acrossMinute
  { procs := Function.update w.procs 0 (logInitT twoDays (w.procs 0) w.disk .info (some []) 2 (initAt 70)).1
    disk := w.disk
    clock := Function.update w.clock 0 70 }

/-- The file of the first minute is opened, and the line is written to that of the second one. It is still there when
the process has changed the interval and written another line. -/
theorem line_in_touched_interval_across : ∃ k ino, 60 / 60 ≤ k ∧ k ≤ 60 / 60 ∧
    (intervalName twoDays [] .error 60 k, ino) ∈
        (twoMinuteFiles.write twoDays 0 .error 7 0 [0x0A] (metAt 130)).disk.names ∧
      logLine (twoDays.localtime 59) 7 0 [0x0A] ∈
        ((twoMinuteFiles.write twoDays 0 .error 7 0 [0x0A] (metAt 130)).disk.files ino).lines := by
  have hinit : TimedRun twoDays [] ⟨emptyDir.procs, emptyDir.disk, fun _ => 0⟩ minuteFiles :=
    .tail (.refl _) (.init 0 .info 1 (initAt 0) 0 (by decide) nofun fun _ => ⟨le_rfl, le_rfl⟩)
  have hafter : TimedRun twoDays [] (minuteFiles.write twoDays 0 .error 7 0 [0x0A] acrossMinute)
      (twoMinuteFiles.write twoDays 0 .error 7 0 [0x0A] (metAt 130)) :=
    .tail (.tail (.refl _) (.init 0 .info 2 (initAt 70) 70 (by decide) (fun _ => .inl rfl)
        fun _ => ⟨(by decide : 60 ≤ 70), le_rfl⟩))
      (.write 0 .error 7 0 [0x0A] (metAt 130) (by decide) ⟨le_rfl, le_rfl, le_rfl, le_rfl⟩)
  exact line_in_touched_interval (p := 0) (m := acrossMinute) (fun _ => rfl) (fun _ he => absurd he List.not_mem_nil) hinit
    (by decide) ⟨by decide, by decide, by decide, by decide⟩ (by decide +kernel) hafter

end Taomee.Log
