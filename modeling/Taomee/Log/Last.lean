import Mathlib.Data.List.Chain
import Taomee.Log.Recycle

/-!
# The last files of a level

A process that recycles `n` files of a level gives them consecutive numbers. What it removes when it opens
a file is at least `n` files back, so the last `n` files that it has opened are in the directory, with all
that it has written to them.
-/

namespace Taomee.Log

variable {pf : Platform} {pre : Name} {g g' : Globals} {disk disk' : Disk} {lvl lvl' : LogLvl} {tm : Tm} {o : Opening}
  {m : Met} {n size ino now start : Nat} {seq : Int}

/-- What a process has written to a level's file from when it opened the file until it shifted to the next
one, and how large the file was then. -/
structure Part where
  ino : Nat
  tm : Tm
  seq : Int
  lines : List Line
  left : Nat

/-- The next file has the next number, and the one before it was full or of another day. -/
def Next (size n : Nat) (a b : Part) : Prop := b.seq = (a.seq + 1) % n ∧ (size ≤ a.left ∨ a.tm.yday ≠ b.tm.yday)

/-- The file is in the directory under its name, with what was written to it. -/
structure InDir (pre : Name) (lvl : LogLvl) (disk : Disk) (part : Part) : Prop where
  mem : (nameOf pre lvl part.tm part.seq, part.ino) ∈ disk.names
  lines : part.lines <:+: (disk.files part.ino).lines
  left : part.left ≤ disk.size part.ino

/-- The last `n` of the files that were opened are in the directory. -/
structure Window (pre : Name) (lvl : LogLvl) (size n : Nat) (disk : Disk) (parts : List Part) : Prop where
  chain : parts.IsChain (Next size n)
  range : ∀ part ∈ parts, InRange n part.seq ∧ part.tm.Valid
  held : ∀ part ∈ parts.drop (parts.length - n), InDir pre lvl disk part

/-! ## Consecutive numbers -/

variable {parts : List Part}

theorem Window.seq_add (h : Window pre lvl size n disk parts) {i : Nat} (d : Nat) (hlt : i + d < parts.length) :
    parts[i + d].seq = (parts[i].seq + d) % n := by
  induction d with
  | zero =>
      obtain ⟨⟨h0, h1⟩, -⟩ := h.range parts[i] (List.getElem_mem _)
      rw [Int.emod_eq_of_lt (by simpa using h0) (by simpa using h1)]
      simp
  | succ d ih =>
      have hnext := (List.isChain_iff_getElem.mp h.chain (i + d) (by omega)).1
      have heq : parts[i + (d + 1)].seq = (parts[i + d].seq + 1) % n := hnext
      rw [heq, ih (by omega)]
      push_cast
      rw [Int.emod_add_emod, add_assoc]

theorem add_emod_ne {s d k : Int} (h0 : 0 ≤ s) (hs : s < k) (hd0 : 0 < d) (hd : d < k) : (s + d) % k ≠ s := by
  intro he
  by_cases hlt : s + d < k
  · rw [Int.emod_eq_of_lt (by omega) hlt] at he
    omega
  · rw [← Int.sub_emod_right, Int.emod_eq_of_lt (by omega) (by omega)] at he
    omega

/-- A new file has none of the numbers of the `n - 1` before it. -/
theorem Window.seq_ne (h : Window pre lvl size n disk parts) {j d : Nat} (hd : j + d + 1 = parts.length) (hn : d + 1 < n) :
    parts[j].seq ≠ (parts[j + d].seq + 1) % n := by
  obtain ⟨⟨h0, h1⟩, -⟩ := h.range parts[j] (List.getElem_mem _)
  rw [h.seq_add d (by omega), Int.emod_add_emod, add_assoc]
  exact (add_emod_ne h0 h1 (by omega) (by omega)).symm

/-! ## What stays in the directory -/

theorem InDir.kept {part : Part} (h : InDir pre lvl disk part) (hwf : disk.Wf)
    (hfiles : ∀ ino, ino < disk.next → (disk'.files ino).name = (disk.files ino).name ∧
      (disk.files ino).lines <+: (disk'.files ino).lines)
    (hmem : (nameOf pre lvl part.tm part.seq, part.ino) ∈ disk'.names) : InDir pre lvl disk' part where
  mem := hmem
  lines := h.lines.trans (hfiles part.ino (hwf _ h.mem).1).2.isInfix
  left := by
    refine h.left.trans ?_
    obtain ⟨rest, hrest⟩ := (hfiles part.ino (hwf _ h.mem).1).2
    unfold Disk.size
    rw [← hrest]
    simp

/-- Names of other numbers and other levels stay when a file is opened and the one with its number removed. -/
theorem mem_names_rm (hb : (g.fdsInfo lvl).baseFilename = pre ++ lognames lvl) {e : Name × Nat} {tm' : Tm} {seq' : Int}
    (he : e ∈ disk.names) (hname : e.1 = nameOf pre lvl' tm' seq') (htm' : tm'.Valid) (hne : lvl' = lvl → seq' ≠ seq) :
    e ∈ (rmFilesBySeqno pf g disk lvl seq tm true).names := by
  rcases rmFilesBySeqno_cases pf g disk lvl seq tm with ⟨heq, -⟩ | ⟨gone, -, hseq, hbase, -, heq⟩
  · rwa [heq]
  · rw [heq]
    refine List.mem_filter.mpr ⟨he, ?_⟩
    rw [decide_eq_true_eq]
    rintro rfl
    rw [hname] at hseq hbase
    obtain rfl := ofLevel_nameOf.mp ((hasBase_iff hb).mp hbase)
    rw [getLogfileSeqno_nameOf hb htm'] at hseq
    exact hne rfl hseq

/-- A file is opened, and counts as the newest. -/
theorem Window.push (h : Window pre lvl size n disk parts) (hwf : disk.Wf)
    (hb : (g.fdsInfo lvl).baseFilename = pre ++ lognames lvl) (htm : tm.Valid) (hseq : InRange n seq)
    (hnext : ∀ last, parts.getLast? = some last → seq = (last.seq + 1) % n ∧ (size ≤ last.left ∨ last.tm.yday ≠ tm.yday)) :
    Window pre lvl size n
      (rmFilesBySeqno pf g (disk.openAppend (nameOf pre lvl tm seq)).2 lvl seq tm true)
      (parts ++ [⟨(disk.openAppend (nameOf pre lvl tm seq)).1, tm, seq, [], 0⟩]) where
  chain := by
    refine h.chain.append (List.isChain_singleton _) fun last hlast new hnew => ?_
    obtain rfl : ⟨_, tm, seq, [], 0⟩ = new := by simpa using hnew
    exact hnext last hlast
  range := fun part hpart => by
    rcases List.mem_append.mp hpart with hpart | hpart
    · exact h.range part hpart
    · rw [List.mem_singleton.mp hpart]
      exact ⟨hseq, htm⟩
  held := fun part hpart => by
    have hop := opens_openAppend disk (nameOf pre lvl tm seq)
    have hrm := kept_rmFilesBySeqno pf (disk.openAppend (nameOf pre lvl tm seq)).2 seq true hb htm
    rw [List.length_append, List.length_singleton, List.drop_append] at hpart
    rcases List.mem_append.mp hpart with hold | hnew
    · obtain ⟨i, hi, rfl⟩ := List.mem_iff_getElem.mp hold
      rw [List.length_drop] at hi
      rw [List.getElem_drop]
      have hlt : parts.length + 1 - n + i < parts.length := by omega
      obtain ⟨d, hd⟩ : ∃ d, parts.length + 1 - n + i + d + 1 = parts.length :=
        ⟨parts.length - 1 - (parts.length + 1 - n + i), by omega⟩
      -- it has been in the window before, and its number is another one
      have hin : InDir pre lvl disk parts[parts.length + 1 - n + i] := by
        refine h.held _ (List.mem_iff_getElem.mpr ⟨1 - (n - parts.length) + i, ?_, ?_⟩)
        · rw [List.length_drop]
          omega
        · rw [List.getElem_drop]
          congr 1
          omega
      have hlast : parts.getLast? = some parts[parts.length + 1 - n + i + d] := by
        rw [List.getLast?_eq_getElem?, List.getElem?_eq_getElem (by omega)]
        congr 2
        omega
      have hne : parts[parts.length + 1 - n + i].seq ≠ seq := by
        rw [(hnext _ hlast).1]
        exact h.seq_ne hd (by omega)
      refine (hin.kept hwf hop.adds.files (hop.adds.names _ hin.mem)).kept (hop.wf hwf) hrm.1.files ?_
      exact mem_names_rm hb (hop.adds.names _ hin.mem) rfl (h.range _ (List.getElem_mem hlt)).2 fun _ => hne
    · obtain rfl := List.mem_singleton.mp (List.mem_of_mem_drop hnew)
      refine ⟨?_, List.nil_infix, Nat.zero_le _⟩
      have hday : ∃ lvl' seq', nameOf pre lvl tm seq = nameOf pre lvl' tm seq' := ⟨lvl, seq, rfl⟩
      exact hrm.1.names _ hop.mem hday

/-- The newest part changes in what is written and in what is left. -/
theorem Window.setLast {front : List Part} {last last' : Part} (h : Window pre lvl size n disk (front ++ [last]))
    (hseq : last'.seq = last.seq) (htm : last'.tm = last.tm) (hold : ∀ part, InDir pre lvl disk part → InDir pre lvl disk' part)
    (hnew : InDir pre lvl disk' last') : Window pre lvl size n disk' (front ++ [last']) where
  chain := by
    obtain ⟨hfront, -, hlast⟩ := List.isChain_append.mp h.chain
    refine hfront.append (List.isChain_singleton _) fun x hx y hy => ?_
    obtain rfl : last' = y := by simpa using hy
    have hxlast := hlast x hx last (by simp)
    unfold Next
    rw [hseq, htm]
    exact hxlast
  range := fun part hpart => by
    rcases List.mem_append.mp hpart with hpart | hpart
    · exact h.range part (List.mem_append_left _ hpart)
    · rw [List.mem_singleton.mp hpart, hseq, htm]
      exact h.range last (by simp)
  held := fun part hpart => by
    rw [List.length_append, List.length_singleton, List.drop_append] at hpart
    have hheld := h.held
    rw [List.length_append, List.length_singleton, List.drop_append] at hheld
    rcases List.mem_append.mp hpart with hpart | hpart
    · exact hold part (hheld part (List.mem_append_left _ hpart))
    · rw [List.mem_singleton.mp (List.mem_of_mem_drop hpart)]
      exact hnew

/-! ## The process -/

/-- The newest part is that of the open file. -/
def Current (lvl : LogLvl) (g : Globals) (disk : Disk) (parts : List Part) : Prop :=
  ∃ front last, parts = front ++ [last] ∧ (g.fdsInfo lvl).opfd = some last.ino ∧ (g.fdsInfo lvl).seq = last.seq ∧
    (g.fdsInfo lvl).day = last.tm.yday ∧ last.lines <:+ (disk.files last.ino).lines

theorem Window.newest {front : List Part} {last : Part} (h : Window pre lvl size n disk (front ++ [last])) (hn : n ≠ 0) :
    InDir pre lvl disk last := by
  refine h.held last (List.mem_iff_getElem.mpr ⟨n - 1 - (n - (front.length + 1)), ?_, ?_⟩)
  · simp only [List.length_drop, List.length_append, List.length_singleton]
    omega
  · rw [List.getElem_drop, List.getElem_append_right (by simp; omega)]
    simp

/-- All that was written. -/
def Part.written (parts : List Part) : List Line := parts.flatMap Part.lines

variable {front : List Part} {last : Part} {line : Line}

theorem openFd_window (pf : Platform) (hturn : Turning n g) (hn : n ≠ 0) (hb : Based pre g) (hs : BySize g)
    (hwf : disk.Wf) (htm : tm.Valid) (hopens : o.opens = true) (hdir : o.opendir = true) (h : Window pre lvl size n disk parts)
    (hnext : ∀ last, parts.getLast? = some last →
      (g.fdsInfo lvl).seq = (last.seq + 1) % n ∧ (size ≤ last.left ∨ last.tm.yday ≠ tm.yday)) :
    Off lvl tm (openFd pf g disk lvl tm o).1 ∨ Turning n (openFd pf g disk lvl tm o).1 ∧ ∃ new : Part, new.lines = [] ∧
      Window pre lvl size n (openFd pf g disk lvl tm o).2 (parts ++ [new]) ∧
      Current lvl (openFd pf g disk lvl tm o).1 (openFd pf g disk lvl tm o).2 (parts ++ [new]) := by
  have hdid : ¬ (!o.opens) = true := by rw [hopens]; decide
  unfold openFd
  rw [logFilePath_eq hb hs, if_neg hdid]
  dsimp only
  rcases countOpened_turning lvl tm (disk.openAppend (nameOf pre lvl tm (g.fdsInfo lvl).seq)).1 hturn with hoff | ⟨hturn', hseq⟩
  · rw [if_neg (not_not.mpr hoff.1)]
    exact .inl hoff
  · have hon : (countOpened g lvl tm (disk.openAppend (nameOf pre lvl tm (g.fdsInfo lvl).seq)).1).maxLogFiles ≠ 0 := by
      rw [hturn'.max]
      exact hn
    rw [if_pos hon, hdir, hseq]
    exact .inr ⟨hturn', ⟨_, tm, (g.fdsInfo lvl).seq, [], 0⟩, rfl,
      h.push hwf (touches_countOpened.based hb lvl) htm (hturn.seqs lvl) hnext,
      parts, _, rfl, countOpened_opfd, hseq, countOpened_day, List.nil_suffix⟩

theorem shiftOpened_window (hturn : Turning n g) (hn : n ≠ 0) (hb : Based pre g) (hs : BySize g) (hwf : disk.Wf)
    (htm : tm.Valid) (hopens : m.second.opens = true) (hdir : m.second.opendir = true) (hsize : g.logSize = size)
    (h : Window pre lvl size n disk parts) (hcur : Current lvl g disk parts) (hino : (g.fdsInfo lvl).opfd = some ino) :
    (shiftOpened pf g disk lvl tm m ino).1.maxLogFiles = 0 ∨ Turning n (shiftOpened pf g disk lvl tm m ino).1 ∧
      ∃ parts', Part.written parts' = Part.written parts ∧
        Window pre lvl size n (shiftOpened pf g disk lvl tm m ino).2 parts' ∧
        Current lvl (shiftOpened pf g disk lvl tm m ino).1 (shiftOpened pf g disk lvl tm m ino).2 parts' := by
  unfold shiftOpened
  by_cases hup : upToDate g disk lvl tm m.check ino = true
  · rw [if_pos hup]
    exact .inr ⟨hturn, parts, rfl, h, hcur⟩
  · rw [if_neg hup]
    obtain ⟨front, last, rfl, hopfd, hseq, hday, hlines⟩ := hcur
    obtain rfl : last.ino = ino := Option.some.inj (hopfd.symm.trans hino)
    have hint : ¬ g.logtimeInterval ≠ 0 := not_not.mpr hs
    have hon : g.maxLogFiles ≠ 0 := by rw [hturn.max]; exact hn
    have hfull : size ≤ disk.size last.ino ∨ last.tm.yday ≠ tm.yday := by
      rw [upToDate, if_neg hint, Bool.and_eq_true, decide_eq_true_eq, decide_eq_true_eq, hsize, hday] at hup
      by_cases hlt : disk.size last.ino < size
      · exact .inr fun he => hup ⟨hlt, he⟩
      · exact .inl (Nat.le_of_not_lt hlt)
    -- the file is left as large as it is
    have hleft : Window pre lvl size n disk (front ++ [{ last with left := disk.size last.ino }]) := by
      have hin := h.newest hn
      exact h.setLast rfl rfl (fun _ h => h) ⟨hin.mem, hin.lines, le_rfl⟩
    have hwritten : ∀ new : Part, new.lines = [] →
        Part.written (front ++ [{ last with left := disk.size last.ino }] ++ [new]) = Part.written (front ++ [last]) :=
      fun new hnew => by simp [Part.written, hnew]
    have ht : Touches lvl g (g.setFds lvl fun fds => { fds with seq := nextSeq g lvl tm m.shift }) :=
      touches_setFds (by intro; rfl)
    have hnextSeq : nextSeq g lvl tm m.shift = (last.seq + 1) % n := by
      have hpos := (hturn.seqs lvl).1
      rw [nextSeq, if_neg hint, if_pos hon, hturn.max, hseq, Int.tmod_eq_emod_of_nonneg (by omega)]
    have hturn' : Turning n (g.setFds lvl fun fds => { fds with seq := nextSeq g lvl tm m.shift }) := by
      refine ⟨hturn.max, hturn.config, ht.seqs hturn.seqs ?_⟩
      rw [setFds_self, hnextSeq]
      exact ⟨Int.emod_nonneg _ (by omega), Int.emod_lt_of_pos _ (by omega)⟩
    rcases openFd_window pf hturn' hn (ht.based hb) (ht.bySize hs) hwf htm hopens hdir
      hleft (fun last' hlast' => by
        obtain rfl : { last with left := disk.size last.ino } = last' := by simpa using hlast'
        rw [setFds_self]
        exact ⟨hnextSeq, hfull⟩) with hoff | ⟨hturn'', new, hnew, hwin, hcur'⟩
    · exact .inl hoff.1
    · exact .inr ⟨hturn'', _, hwritten new hnew, hwin, hcur'⟩

/-- Nothing has been opened yet, or the newest part is that of the open file. -/
def Writes (lvl : LogLvl) (g : Globals) (disk : Disk) (parts : List Part) : Prop :=
  parts = [] ∧ (g.fdsInfo lvl).opfd = none ∨ Current lvl g disk parts

theorem shiftFd_window (now : Nat) (hcal : Calendar pf) (hturn : Turning n g) (hn : n ≠ 0) (hb : Based pre g) (hs : BySize g)
    (hwf : disk.Wf) (hopens : m.first.opens = true ∧ m.second.opens = true)
    (hdir : m.first.opendir = true ∧ m.second.opendir = true) (hsize : g.logSize = size)
    (h : Window pre lvl size n disk parts) (hcur : Writes lvl g disk parts) :
    (shiftFd pf g disk lvl (pf.localtime now) m).1.maxLogFiles = 0 ∨
      Turning n (shiftFd pf g disk lvl (pf.localtime now) m).1 ∧ ∃ parts', Part.written parts' = Part.written parts ∧
        Window pre lvl size n (shiftFd pf g disk lvl (pf.localtime now) m).2 parts' ∧
        Current lvl (shiftFd pf g disk lvl (pf.localtime now) m).1 (shiftFd pf g disk lvl (pf.localtime now) m).2 parts' := by
  unfold shiftFd
  rcases hcur with ⟨rfl, hnone⟩ | hcur
  · rw [hnone]
    have hopen := openFd_window pf (o := m.first) hturn hn hb hs hwf (hcal.valid now) hopens.1
      hdir.1 h nofun
    have hserves : Serves pf pre now now lvl g disk (openFd pf g disk lvl (pf.localtime now) m.first).1
        (openFd pf g disk lvl (pf.localtime now) m.first).2 := (serves_openFd hcal hb hs hwf le_rfl).1
    generalize openFd pf g disk lvl (pf.localtime now) m.first = opened at hopen hserves ⊢
    obtain ⟨g₁, disk₁⟩ := opened
    dsimp only at hopen hserves ⊢
    rcases hopen with hoff | ⟨hturn₁, new, hnew, hwin, hcur₁⟩
    · cases (g₁.fdsInfo lvl).opfd with
      | none => exact .inl hoff.1
      | some ino => exact .inl (shiftOpened_off hoff)
    · have hino : ∃ ino, (g₁.fdsInfo lvl).opfd = some ino := by
        obtain ⟨front, last, -, hopfd, -⟩ := hcur₁
        exact ⟨_, hopfd⟩
      obtain ⟨ino, hino⟩ := hino
      rw [hino]
      have hwritten : Part.written ([] ++ [new]) = Part.written [] := by simp [Part.written, hnew]
      rw [← hwritten]
      exact shiftOpened_window hturn₁ hn (hserves.touches.based hb) (hserves.touches.bySize hs) hserves.wf (hcal.valid now)
        hopens.2 hdir.2 (hserves.touches.size.trans hsize) hwin hcur₁ hino
  · have hino : ∃ ino, (g.fdsInfo lvl).opfd = some ino := by
      obtain ⟨front, last, -, hopfd, -⟩ := hcur
      exact ⟨_, hopfd⟩
    obtain ⟨ino, hino⟩ := hino
    rw [hino]
    exact shiftOpened_window hturn hn hb hs hwf (hcal.valid now) hopens.2 hdir.2 hsize h hcur hino

theorem append_files (disk : Disk) (i ino : Nat) (line : Line) : ((disk.append ino line).files i).lines =
    if i = ino then (disk.files ino).lines ++ [line] else (disk.files i).lines := by
  simp only [Disk.append, Function.update_apply]
  split_ifs <;> rfl

/-- A line is written to the open file. -/
theorem Window.append (h : Window pre lvl size n disk (front ++ [last])) (hn : n ≠ 0) (hwf : disk.Wf)
    (hlines : last.lines <:+ (disk.files last.ino).lines) (line : Line) :
    Window pre lvl size n (disk.append last.ino line) (front ++ [{ last with lines := last.lines ++ [line] }]) ∧
      last.lines ++ [line] <:+ ((disk.append last.ino line).files last.ino).lines := by
  have hsuffix : last.lines ++ [line] <:+ ((disk.append last.ino line).files last.ino).lines := by
    rw [append_files, if_pos rfl]
    obtain ⟨old, hold⟩ := hlines
    exact ⟨old, by rw [← hold, List.append_assoc]⟩
  have hkeep : ∀ part, InDir pre lvl disk part → InDir pre lvl (disk.append last.ino line) part :=
    fun part hin => hin.kept hwf (adds_append disk last.ino line).files hin.mem
  have hin := hkeep last (h.newest hn)
  exact ⟨h.setLast rfl rfl hkeep ⟨hin.mem, hsuffix.isInfix, hin.left⟩, hsuffix⟩

variable {key pid : Nat} {text : List UInt8}

/-- A call of `write_log` for the level. -/
theorem writeLog_window (key pid : Nat) (text : List UInt8) (hcal : Calendar pf) (hturn : Turning n g) (hn : n ≠ 0)
    (hb : Based pre g) (hs : BySize g) (hwf : disk.Wf) (hstart : start ≤ m.now)
    (hfd : FdOk pf pre start m.now lvl (g.fdsInfo lvl) disk)
    (hopens : m.first.opens = true ∧ m.second.opens = true)
    (hdir : m.first.opendir = true ∧ m.second.opendir = true) (hsize : g.logSize = size)
    (h : Window pre lvl size n disk parts) (hcur : Writes lvl g disk parts) :
    (writeLog pf g disk lvl key pid text m).1.maxLogFiles = 0 ∨ ∃ parts',
      Part.written parts' = Part.written parts ++
        (bif (writeLog pf g disk lvl key pid text m).2.2 then [logLine (pf.localtime m.now) key pid text] else []) ∧
      Window pre lvl size n (writeLog pf g disk lvl key pid text m).2.1 parts' ∧
      Writes lvl (writeLog pf g disk lvl key pid text m).1 (writeLog pf g disk lvl key pid text m).2.1 parts' := by
  unfold writeLog
  by_cases hlevel : lvl.toNat > g.logLevel.toNat
  · rw [if_pos hlevel]
    exact .inr ⟨parts, by simp, h, hcur⟩
  · rw [if_neg hlevel]
    by_cases hdest : (!g.destFile) = true
    · rw [if_pos hdest]
      exact .inr ⟨parts, by simp, h, hcur⟩
    · rw [if_neg hdest]
      have hshift := shiftFd_window m.now hcal hturn hn hb hs hwf hopens hdir hsize h hcur
      obtain ⟨hserves, -⟩ := serves_shiftFd (m := m) hcal hb hs hwf hstart hfd
      dsimp only
      rcases hshift with hoff | ⟨-, parts', hwritten, hwin, front, last, rfl, hopfd, hseq, hday, hlines⟩
      · cases ((shiftFd pf g disk lvl (pf.localtime m.now) m).1.fdsInfo lvl).opfd <;> exact .inl hoff
      · rw [hopfd]
        obtain ⟨hwin', hlines'⟩ := hwin.append hn hserves.wf hlines (logLine (pf.localtime m.now) key pid text)
        refine .inr ⟨_, ?_, hwin', .inr ⟨front, _, rfl, hopfd, hseq, hday, hlines'⟩⟩
        rw [← hwritten]
        simp [Part.written]

/-! ## Other levels -/

/-- What a call for one level leaves of the files of another. -/
structure Apart (pre : Name) (lvl : LogLvl) (disk disk' : Disk) : Prop where
  names : ∀ e ∈ disk.names, ∀ lvl' tm seq, lvl' ≠ lvl → tm.Valid → e.1 = nameOf pre lvl' tm seq → e ∈ disk'.names
  files : ∀ ino, ino < disk.next → disk'.files ino = disk.files ino
  next : disk.next ≤ disk'.next

theorem Apart.refl (disk : Disk) : Apart pre lvl disk disk := ⟨fun _ he _ _ _ _ _ _ => he, fun _ _ => rfl, le_rfl⟩

theorem Apart.trans {d₁ d₂ d₃ : Disk} (h₁ : Apart pre lvl d₁ d₂) (h₂ : Apart pre lvl d₂ d₃) : Apart pre lvl d₁ d₃ :=
  ⟨fun e he lvl' tm seq hne htm hname => h₂.names e (h₁.names e he lvl' tm seq hne htm hname) lvl' tm seq hne htm hname,
    fun ino hlt => (h₂.files ino (hlt.trans_le h₁.next)).trans (h₁.files ino hlt), h₁.next.trans h₂.next⟩

theorem apart_openAppend (disk : Disk) (name : Name) : Apart pre lvl disk (disk.openAppend name).2 := by
  have hnames := (opens_openAppend disk name).adds.names
  unfold Disk.openAppend at hnames ⊢
  cases hfind : disk.names.find? fun e => e.1 = name with
  | some _ => exact .refl disk
  | none =>
      rw [hfind] at hnames
      exact ⟨fun e he _ _ _ _ _ _ => hnames e he, fun ino hlt => Function.update_of_ne hlt.ne _ _, Nat.le_succ _⟩

theorem apart_rm (hb : (g.fdsInfo lvl).baseFilename = pre ++ lognames lvl) :
    Apart pre lvl disk (rmFilesBySeqno pf g disk lvl seq tm true) := by
  have hnames : ∀ e ∈ disk.names, ∀ lvl' tm' seq', lvl' ≠ lvl → tm'.Valid → e.1 = nameOf pre lvl' tm' seq' →
      e ∈ (rmFilesBySeqno pf g disk lvl seq tm true).names :=
    fun e he lvl' tm' seq' hne htm' hname => mem_names_rm hb he hname htm' fun h => absurd h hne
  rcases rmFilesBySeqno_cases pf g disk lvl seq tm with ⟨heq, -⟩ | ⟨_, -, -, -, -, heq⟩
  · rw [heq]
    exact .refl disk
  · rw [heq] at hnames ⊢
    exact ⟨hnames, fun _ _ => rfl, le_rfl⟩

theorem apart_openFd (hb : Based pre g) (hdir : o.opendir = true) :
    Apart pre lvl disk (openFd pf g disk lvl tm o).2 := by
  unfold openFd
  dsimp only
  split_ifs
  · exact .refl disk
  · rw [hdir]
    exact (apart_openAppend disk _).trans (apart_rm (touches_countOpened.based hb lvl))
  · exact apart_openAppend disk _

theorem apart_shiftOpened (hb : Based pre g) (hdir : m.second.opendir = true) :
    Apart pre lvl disk (shiftOpened pf g disk lvl tm m ino).2 := by
  unfold shiftOpened
  split_ifs
  · exact .refl disk
  · have ht : Touches lvl g (g.setFds lvl fun fds => { fds with seq := nextSeq g lvl tm m.shift }) :=
      touches_setFds (by intro; rfl)
    exact apart_openFd (ht.based hb) hdir

theorem apart_shiftFd (hb : Based pre g) (hdir : m.first.opendir = true ∧ m.second.opendir = true) :
    Apart pre lvl disk (shiftFd pf g disk lvl tm m).2 := by
  unfold shiftFd
  cases (g.fdsInfo lvl).opfd with
  | some ino => exact apart_shiftOpened hb hdir.2
  | none =>
      have ht : Touches lvl g (openFd pf g disk lvl tm m.first).1 := touches_openFd
      have hopen : Apart pre lvl disk (openFd pf g disk lvl tm m.first).2 := apart_openFd hb hdir.1
      generalize openFd pf g disk lvl tm m.first = opened at ht hopen ⊢
      obtain ⟨g₁, disk₁⟩ := opened
      dsimp only at ht hopen ⊢
      cases (g₁.fdsInfo lvl).opfd with
      | none => exact hopen
      | some ino => exact hopen.trans (apart_shiftOpened (ht.based hb) hdir.2)

/-- A call of `write_log` for one level leaves the parts of another. -/
theorem writeLog_other (key pid : Nat) (text : List UInt8) (hcal : Calendar pf) (hb : Based pre g) (hs : BySize g)
    (hwf : disk.Wf) (hstart : start ≤ m.now)
    (hfd : FdOk pf pre start m.now lvl' (g.fdsInfo lvl') disk) (hdir : m.first.opendir = true ∧ m.second.opendir = true)
    (hne : lvl ≠ lvl') (h : Window pre lvl size n disk parts) (hcur : Writes lvl g disk parts) (hn : n ≠ 0) :
    Window pre lvl size n (writeLog pf g disk lvl' key pid text m).2.1 parts ∧
      Writes lvl (writeLog pf g disk lvl' key pid text m).1 (writeLog pf g disk lvl' key pid text m).2.1 parts := by
  unfold writeLog
  by_cases hlevel : lvl'.toNat > g.logLevel.toNat
  · rw [if_pos hlevel]
    exact ⟨h, hcur⟩
  · rw [if_neg hlevel]
    by_cases hdest : (!g.destFile) = true
    · rw [if_pos hdest]
      exact ⟨h, hcur⟩
    · rw [if_neg hdest]
      obtain ⟨hserves, -⟩ := serves_shiftFd (m := m) hcal hb hs hwf hstart hfd
      have hapart : Apart pre lvl' disk (shiftFd pf g disk lvl' (pf.localtime m.now) m).2 := apart_shiftFd hb hdir
      dsimp only
      generalize shiftFd pf g disk lvl' (pf.localtime m.now) m = shifted at hserves hapart ⊢
      obtain ⟨g₁, disk₁⟩ := shifted
      dsimp only at hserves hapart ⊢
      have hin : ∀ part ∈ parts.drop (parts.length - n), InDir pre lvl disk₁ part := fun part hpart =>
        have hheld := h.held part hpart
        hheld.kept hwf hserves.kept.files (hapart.names _ hheld.mem lvl _ _ hne
          (h.range part (List.mem_of_mem_drop hpart)).2 rfl)
      have hwin : Window pre lvl size n disk₁ parts := ⟨h.chain, h.range, hin⟩
      have hfds : g₁.fdsInfo lvl = g.fdsInfo lvl := hserves.touches.others lvl hne
      have hcur₁ : Writes lvl g₁ disk₁ parts := by
        unfold Writes Current
        rw [hfds]
        refine hcur.imp_right fun ⟨front, last, hparts, hopfd, hseq, hday, hlines⟩ =>
          ⟨front, last, hparts, hopfd, hseq, hday, ?_⟩
        subst hparts
        rw [hapart.files last.ino (hwf _ (h.newest hn).mem).1]
        exact hlines
      cases hopfd : (g₁.fdsInfo lvl').opfd with
      | none => exact ⟨hwin, hcur₁⟩
      | some ino =>
          obtain ⟨hlt, t, seq', -, -, -, hname, -⟩ := hserves.fdOk ino hopfd
          refine ⟨⟨hwin.chain, hwin.range, fun part hpart => (hwin.held part hpart).kept hserves.wf
            (adds_append disk₁ ino _).files (hwin.held part hpart).mem⟩, ?_⟩
          refine hcur₁.imp_right fun ⟨front, last, hparts, hopfd', hseq, hday, hlines⟩ =>
            ⟨front, last, hparts, hopfd', hseq, hday, ?_⟩
          subst hparts
          -- the file that is written has a name of the other level
          have hother : last.ino ≠ ino := fun he => by
            have hlast := (hserves.wf _ (hwin.newest hn).mem).2
            rw [he, hname] at hlast
            exact hne (nameOf_inj (hcal.valid t) (hwin.range last (by simp)).2 hlast).1.symm
          rw [append_files, if_neg hother]
          exact hlines

/-! ## All calls of a process -/

/-- Some calls of the process `p` without faults, while it recycles, and the lines that they have written to
the files of `lvl`. -/
inductive Logged (pf : Platform) (n p : Nat) (lvl : LogLvl) (w : World) : World → List Line → Prop
  | refl : Logged pf n p lvl w w []
  | write {w₁ : World} {lines : List Line} (lvl' : LogLvl) (key pid : Nat) (text : List UInt8) (m : Met) :
      Logged pf n p lvl w w₁ lines → w₁.now ≤ m.now → m.first.opens = true ∧ m.second.opens = true →
      m.first.opendir = true ∧ m.second.opendir = true →
      ((w₁.write pf p lvl' key pid text m).procs p).maxLogFiles = n →
      Logged pf n p lvl w (w₁.write pf p lvl' key pid text m)
        (lines ++ bif lvl' = lvl && (writeLog pf (w₁.procs p) w₁.disk lvl' key pid text m).2.2 then
          [logLine (pf.localtime m.now) key pid text] else [])
  | order {w₁ : World} {lines : List Line} (names : List (Name × Nat)) :
      Logged pf n p lvl w w₁ lines → names.Perm w₁.disk.names →
      Logged pf n p lvl w { w₁ with disk := { w₁.disk with names := names } } lines

variable {w w₁ : World} {p : Nat} {lines : List Line}

theorem Logged.ok (hcal : Calendar pf) (h : Logged pf n p lvl w w₁ lines) (hok : w.Ok pf pre start) :
    w₁.Ok pf pre start := by
  induction h with
  | refl => exact hok
  | write lvl' key pid text m _ hnow _ _ _ ih =>
      have hstep : Step pf pre True _ _ := .write p lvl' key pid text m hnow fun hnot => absurd trivial hnot
      exact (hstep.ok hcal ih).1
  | order names _ hperm ih =>
      have hstep : Step pf pre True _ _ := .order names hperm
      exact (hstep.ok hcal ih).1

/-- What holds of the parts of the level. -/
structure Parts (pre : Name) (lvl : LogLvl) (n size p : Nat) (w : World) (lines : List Line) (parts : List Part) : Prop where
  written : Part.written parts = lines
  window : Window pre lvl size n w.disk parts
  writes : Writes lvl (w.procs p) w.disk parts
  turning : Turning n (w.procs p)
  size : (w.procs p).logSize = size
  inited : (w.procs p).hasInit = true

/-- The step lemma for calls of `write_log`. -/
theorem Parts.write {parts : List Part} (h : Parts (pre.take 31) lvl n size p w lines parts) (hn : n ≠ 0) (hcal : Calendar pf)
    (hok : w.Ok pf pre start) (hnow : w.now ≤ m.now) (hopens : m.first.opens = true ∧ m.second.opens = true)
    (hdir : m.first.opendir = true ∧ m.second.opendir = true)
    (hmax : ((w.write pf p lvl' key pid text m).procs p).maxLogFiles = n) :
    ∃ parts', Parts (pre.take 31) lvl n size p (w.write pf p lvl' key pid text m)
      (lines ++ bif lvl' = lvl && (writeLog pf (w.procs p) w.disk lvl' key pid text m).2.2 then
        [logLine (pf.localtime m.now) key pid text] else []) parts' := by
  have hproc := hok.procs p
  have hb := hproc.based h.inited
  obtain ⟨hserves, -⟩ := serves_writeLog key pid text hcal (fun _ => hb) hproc.bySize hok.disk hnow
    hok.started (hproc.fdOk lvl')
  have hself : (w.write pf p lvl' key pid text m).procs p = (writeLog pf (w.procs p) w.disk lvl' key pid text m).1 :=
    Function.update_self _ _ _
  rw [hself] at hmax
  have hturn := (writeLog_turning w.disk lvl' key pid text h.turning hn hb
    hproc.bySize (hcal.valid m.now) hdir).resolve_left fun hoff => hn (hmax.symm.trans hoff)
  have hsize : (writeLog pf (w.procs p) w.disk lvl' key pid text m).1.logSize = size := hserves.touches.size.trans h.size
  have hinit : (writeLog pf (w.procs p) w.disk lvl' key pid text m).1.hasInit = true := hserves.touches.hasInit.trans h.inited
  have hfd : FdOk pf (pre.take 31) start m.now lvl' ((w.procs p).fdsInfo lvl') w.disk :=
    (hproc.fdOk lvl').kept hcal hnow (.refl _)
  by_cases hl : lvl' = lvl
  · subst hl
    obtain ⟨parts', hwritten, hwin, hwrites⟩ := (writeLog_window key pid text hcal h.turning hn hb
      hproc.bySize hok.disk (hok.started.trans hnow) hfd hopens hdir h.size h.window h.writes).resolve_left
        fun hoff => hn (hmax.symm.trans hoff)
    refine ⟨parts', ?_, hwin, ?_, ?_, ?_, ?_⟩
    · rw [hwritten, h.written]
      simp
    all_goals rw [hself]
    · exact hwrites
    · exact hturn.1
    · exact hsize
    · exact hinit
  · obtain ⟨hwin, hwrites⟩ := writeLog_other key pid text hcal hb hproc.bySize hok.disk
      (hok.started.trans hnow) hfd hdir (Ne.symm hl) h.window h.writes hn
    refine ⟨parts, ?_, hwin, ?_, ?_, ?_, ?_⟩
    · rw [h.written]
      simp [hl]
    all_goals rw [hself]
    · exact hwrites
    · exact hturn.1
    · exact hsize
    · exact hinit

theorem Parts.order {parts : List Part} (h : Parts pre lvl n size p w lines parts) {names : List (Name × Nat)}
    (hperm : names.Perm w.disk.names) :
    Parts pre lvl n size p { w with disk := { w.disk with names := names } } lines parts :=
  ⟨h.written, ⟨h.window.chain, h.window.range, fun part hpart =>
    have hin := h.window.held part hpart
    ⟨hperm.mem_iff.mpr hin.mem, hin.lines, hin.left⟩⟩, h.writes, h.turning, h.size, h.inited⟩

theorem Logged.log {w₁ : World} {lines : List Line} (h : Logged twoDays n 0 .error w w₁ lines) {t : Nat} (hnow : w₁.now ≤ t)
    (hwritten : (writeLog twoDays (w₁.procs 0) w₁.disk .error 7 0 [0x0A] (metAt t)).2.2 = true)
    (hmax : ((w₁.log 0 t).procs 0).maxLogFiles = n) :
    Logged twoDays n 0 .error w (w₁.log 0 t) (lines ++ [logLine (twoDays.localtime t) 7 0 [0x0A]]) := by
  have hstep : Logged twoDays n 0 .error w (w₁.log 0 t) _ :=
    .write .error 7 0 [0x0A] (metAt t) h hnow ⟨rfl, rfl⟩ ⟨rfl, rfl⟩ hmax
  rwa [hwritten] at hstep

end Taomee.Log
