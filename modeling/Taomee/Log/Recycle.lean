import Mathlib.Data.List.Nodup
import Mathlib.Data.List.Perm.Subperm
import Taomee.Log.Today

/-!
# Recycling

With recycling on, a level has one file of each number at most: opening a file removes the other one that
has its number. So the directory holds no more files of a level than `max_log_files`, over days and
restarts, for any number of processes.
-/

namespace Taomee.Log

variable {pf : Platform} {pre : Name} {g g' g₁ g₂ : Globals} {disk disk' : Disk} {lvl lvl' : LogLvl} {tm tm' : Tm}
  {seq : Int} {o : Opening} {m : Met} {n ino now start : Nat}

/-- A number of a file. -/
def InRange (n : Nat) (seq : Int) : Prop := 0 ≤ seq ∧ seq < n

/-- The names in the directory. -/
def Disk.keys (disk : Disk) : List Name := disk.names.map Prod.fst

/-- The directory holds files of a level with numbers below `n` only, and of each number one at most. -/
structure Ring (pre : Name) (n : Nat) (disk : Disk) : Prop where
  keys : disk.keys.Nodup
  shape : ∀ lvl, ∀ name ∈ disk.keys, OfLevel pre lvl name →
    ∃ tm seq, tm.Valid ∧ InRange n seq ∧ name = nameOf pre lvl tm seq
  one : ∀ lvl tm tm' seq, tm.Valid → tm'.Valid → nameOf pre lvl tm seq ∈ disk.keys → nameOf pre lvl tm' seq ∈ disk.keys →
    nameOf pre lvl tm seq = nameOf pre lvl tm' seq

/-! ## Opening a file -/

theorem keys_openAppend (disk : Disk) (name : Name) :
    (disk.openAppend name).2.keys = if name ∈ disk.keys then disk.keys else disk.keys ++ [name] := by
  unfold Disk.openAppend Disk.keys
  cases hfind : disk.names.find? fun e => e.1 = name with
  | some e =>
      have hmem : name ∈ disk.names.map Prod.fst :=
        List.mem_map.mpr ⟨e, List.mem_of_find?_eq_some hfind, by simpa using List.find?_some hfind⟩
      rw [if_pos hmem]
  | none =>
      have hmem : name ∉ disk.names.map Prod.fst := fun h => by
        obtain ⟨e, he, hname⟩ := List.mem_map.mp h
        exact absurd hname (by simpa using List.find?_eq_none.mp hfind e he)
      rw [if_neg hmem]
      simp

theorem keys_remove (disk : Disk) (name : Name) : (disk.remove name).keys = disk.keys.filter (· ≠ name) := by
  simp [Disk.remove, Disk.keys, List.filter_map, Function.comp_def]

theorem mem_keys_openAppend {name x : Name} : x ∈ (disk.openAppend name).2.keys ↔ x ∈ disk.keys ∨ x = name := by
  rw [keys_openAppend]
  split_ifs with h
  · exact ⟨.inl, fun hx => hx.elim id fun he => he ▸ h⟩
  · simp

theorem nodup_keys_openAppend (h : disk.keys.Nodup) (name : Name) : (disk.openAppend name).2.keys.Nodup := by
  rw [keys_openAppend]
  split_ifs with hmem
  · exact h
  · refine List.nodup_append.mpr ⟨h, by simp, fun x hx y hy he => ?_⟩
    rw [he, List.mem_singleton.mp hy] at hx
    exact hmem hx

/-- Either nothing has the number under another name, or something that has is removed. -/
theorem rmFilesBySeqno_cases (pf : Platform) (g : Globals) (disk : Disk) (lvl : LogLvl) (seq : Int) (tm : Tm) :
    (rmFilesBySeqno pf g disk lvl seq tm true = disk ∧ ∀ x ∈ disk.keys, getLogfileSeqno pf g x lvl = seq →
      hasBase g lvl x = true → x = logFileName g lvl seq tm) ∨
    ∃ gone ∈ disk.keys, getLogfileSeqno pf g gone lvl = seq ∧ hasBase g lvl gone = true ∧
      gone ≠ logFileName g lvl seq tm ∧ rmFilesBySeqno pf g disk lvl seq tm true = disk.remove gone := by
  unfold rmFilesBySeqno
  rw [if_neg (by simp)]
  dsimp only
  cases hfind : disk.names.find? fun e => seq = getLogfileSeqno pf g e.1 lvl ∧ hasBase g lvl e.1 = true ∧
      logFileName g lvl seq tm ≠ e.1 with
  | none =>
      refine .inl ⟨rfl, fun x hx hseq hbase => ?_⟩
      obtain ⟨e, he, rfl⟩ := List.mem_map.mp hx
      by_contra hne
      exact List.find?_eq_none.mp hfind e he (by simpa using ⟨hseq.symm, hbase, fun he => hne he.symm⟩)
  | some e =>
      obtain ⟨hseq, hbase, hother⟩ : seq = getLogfileSeqno pf g e.1 lvl ∧ hasBase g lvl e.1 = true ∧
        logFileName g lvl seq tm ≠ e.1 := by simpa using List.find?_some hfind
      exact .inr ⟨e.1, List.mem_map_of_mem (List.mem_of_find?_eq_some hfind), hseq.symm, hbase, fun he => hother he.symm, rfl⟩

/-- The directory after `open_fd`: the new name, and of the others of the level those with another number. -/
theorem Ring.mem_recycled (hring : Ring pre n disk) (hb : (g.fdsInfo lvl).baseFilename = pre ++ lognames lvl)
    {x : Name}
    (hx : x ∈ (rmFilesBySeqno pf g (disk.openAppend (nameOf pre lvl tm seq)).2 lvl seq tm true).keys) :
    x = nameOf pre lvl tm seq ∨ x ∈ disk.keys ∧ (OfLevel pre lvl x →
      ∃ tm' seq', tm'.Valid ∧ InRange n seq' ∧ seq' ≠ seq ∧ x = nameOf pre lvl tm' seq') := by
  have hname : logFileName g lvl seq tm = nameOf pre lvl tm seq := logFileName_eq hb
  rw [← hname] at hx ⊢
  rcases rmFilesBySeqno_cases pf g (disk.openAppend (logFileName g lvl seq tm)).2 lvl seq tm with
    ⟨heq, hnone⟩ | ⟨gone, hgone, hseq, hbase, hother, heq⟩
  · rw [heq] at hx
    rcases mem_keys_openAppend.mp hx with hold | rfl
    · by_cases hname : x = logFileName g lvl seq tm
      · exact .inl hname
      · refine .inr ⟨hold, fun hlvl => ?_⟩
        obtain ⟨tm', seq', htm', hrange, rfl⟩ := hring.shape lvl x hold hlvl
        refine ⟨tm', seq', htm', hrange, fun hseq => hname ?_, rfl⟩
        exact hnone _ hx (by rw [getLogfileSeqno_nameOf hb htm', hseq]) ((hasBase_iff hb).mpr hlvl)
    · exact .inl rfl
  · rw [heq, keys_remove, List.mem_filter] at hx
    rcases mem_keys_openAppend.mp hx.1 with hold | rfl
    · refine .inr ⟨hold, fun hlvl => ?_⟩
      obtain ⟨tm', seq', htm', hrange, rfl⟩ := hring.shape lvl x hold hlvl
      refine ⟨tm', seq', htm', hrange, fun hsame => ?_, rfl⟩
      -- what is removed is the only one with the number
      have hgone' : gone ∈ disk.keys := (mem_keys_openAppend.mp hgone).resolve_right hother
      obtain ⟨tm'', seq'', htm'', -, rfl⟩ := hring.shape lvl gone hgone' ((hasBase_iff hb).mp hbase)
      rw [getLogfileSeqno_nameOf hb htm''] at hseq
      rw [hsame] at hold hx
      rw [hseq] at hgone' hx
      have hne : nameOf pre lvl tm' seq ≠ nameOf pre lvl tm'' seq := by simpa using hx.2
      exact hne (hring.one lvl tm' tm'' seq htm' htm'' hold hgone')
    · exact .inl rfl

theorem nodup_keys_rm (h : disk.keys.Nodup) : (rmFilesBySeqno pf g disk lvl seq tm true).keys.Nodup := by
  rcases rmFilesBySeqno_cases pf g disk lvl seq tm with ⟨heq, -⟩ | ⟨gone, -, -, -, -, heq⟩
  · rwa [heq]
  · rw [heq, keys_remove]
    exact h.filter _

/-- What `open_fd` does to the directory while recycling is on. -/
theorem Ring.recycled (hring : Ring pre n disk) (hb : (g.fdsInfo lvl).baseFilename = pre ++ lognames lvl)
    (htm : tm.Valid) (hseq : InRange n seq) :
    Ring pre n (rmFilesBySeqno pf g (disk.openAppend (nameOf pre lvl tm seq)).2 lvl seq tm true) where
  keys := nodup_keys_rm (nodup_keys_openAppend hring.keys _)
  shape := fun lvl' x hx hlvl' => by
    rcases hring.mem_recycled hb hx with rfl | ⟨hold, -⟩
    · obtain rfl := ofLevel_nameOf.mp hlvl'
      exact ⟨tm, seq, htm, hseq, rfl⟩
    · exact hring.shape lvl' x hold hlvl'
  one := fun lvl' tm₁ tm₂ seq' htm₁ htm₂ h₁ h₂ => by
    -- of the new number there is no other name
    have hmixed : ∀ {tm₁ tm₂ : Tm}, tm₁.Valid → tm₂.Valid → nameOf pre lvl' tm₁ seq' = nameOf pre lvl tm seq →
        (OfLevel pre lvl (nameOf pre lvl' tm₂ seq') → ∃ tm' seq'', tm'.Valid ∧ InRange n seq'' ∧ seq'' ≠ seq ∧
          nameOf pre lvl' tm₂ seq' = nameOf pre lvl tm' seq'') → False := fun htm₁ htm₂ he hnum => by
      obtain ⟨rfl, -, rfl⟩ := nameOf_inj htm₁ htm he
      obtain ⟨tm', seq'', htm', -, hne, he'⟩ := hnum (ofLevel_nameOf.mpr rfl)
      exact hne (nameOf_inj htm₂ htm' he').2.2.symm
    rcases hring.mem_recycled hb h₁ with he₁ | ⟨hold₁, hnum₁⟩ <;>
      rcases hring.mem_recycled hb h₂ with he₂ | ⟨hold₂, hnum₂⟩
    · rw [he₁, he₂]
    · exact (hmixed htm₁ htm₂ he₁ hnum₂).elim
    · exact (hmixed htm₂ htm₁ he₂ hnum₁).elim
    · exact hring.one lvl' tm₁ tm₂ seq' htm₁ htm₂ hold₁ hold₂

/-- There are no more files of a level than numbers. -/
theorem Ring.count (hring : Ring pre n disk) (lvl : LogLvl) :
    (disk.keys.filter (pre ++ lognames lvl).isPrefixOf).length ≤ n := by
  let g : Globals := Globals.start.setFds lvl fun fds => { fds with baseFilename := pre ++ lognames lvl }
  have hb : (g.fdsInfo lvl).baseFilename = pre ++ lognames lvl := by
    rw [setFds_self]
  let number : Name → Nat := fun x => (getLogfileSeqno ⟨fun _ => ⟨0, 0, 0, 0, 0, 0, 0⟩, fun _ => []⟩ g x lvl).toNat
  have hshape : ∀ x ∈ disk.keys.filter (pre ++ lognames lvl).isPrefixOf, ∃ tm seq, tm.Valid ∧ InRange n seq ∧
      x = nameOf pre lvl tm seq ∧ number x = seq.toNat := fun x hx => by
    obtain ⟨hmem, hlvl⟩ := List.mem_filter.mp hx
    obtain ⟨tm, seq, htm, hrange, rfl⟩ := hring.shape lvl x hmem (List.isPrefixOf_iff_prefix.mp hlvl)
    exact ⟨tm, seq, htm, hrange, rfl, by simp only [number, getLogfileSeqno_nameOf hb htm]⟩
  have hnodup : ((disk.keys.filter (pre ++ lognames lvl).isPrefixOf).map number).Nodup := by
    refine List.Nodup.map_on (fun x hx y hy he => ?_) (hring.keys.filter _)
    obtain ⟨tm, seq, htm, hrange, rfl, hnum⟩ := hshape x hx
    obtain ⟨tm', seq', htm', hrange', rfl, hnum'⟩ := hshape y hy
    have hseq : seq = seq' := by
      have := hrange.1
      have := hrange'.1
      omega
    subst hseq
    exact hring.one lvl tm tm' seq htm htm' (List.mem_filter.mp hx).1 (List.mem_filter.mp hy).1
  have hsubset : (disk.keys.filter (pre ++ lognames lvl).isPrefixOf).map number ⊆ List.range n := fun i hi => by
    obtain ⟨x, hx, rfl⟩ := List.mem_map.mp hi
    obtain ⟨tm, seq, -, hrange, -, hnum⟩ := hshape x hx
    have := hrange.1
    have := hrange.2
    rw [List.mem_range, hnum]
    omega
  simpa using (List.subperm_of_subset hnodup hsubset).length_le

/-! ## A process that recycles -/

/-- Recycling is on, and the numbers of all levels are in range. -/
structure Turning (n : Nat) (g : Globals) : Prop where
  max : g.maxLogFiles = n
  config : g.configMaxLogFiles = n
  seqs : ∀ lvl, InRange n (g.fdsInfo lvl).seq

/-- Recycling has been given up for the day. -/
def Off (lvl : LogLvl) (tm : Tm) (g : Globals) : Prop := g.maxLogFiles = 0 ∧ (g.fdsInfo lvl).day = tm.yday

theorem countOpened_off (h : Off lvl tm g) : Off lvl tm (countOpened g lvl tm ino) := by
  refine ⟨?_, countOpened_day⟩
  have hday : (countDay (g.setFds lvl fun fds => { fds with opfd := some ino }) lvl tm).maxLogFiles = 0 := by
    unfold countDay
    rw [if_neg (by simp [h.2])]
    exact h.1
  unfold countOpened giveUpRecycle
  rw [if_neg (by simp [hday])]
  exact hday

theorem Touches.seqs (ht : Touches lvl g g') (h : ∀ lvl, InRange n (g.fdsInfo lvl).seq)
    (hseq : InRange n (g'.fdsInfo lvl).seq) (lvl' : LogLvl) : InRange n (g'.fdsInfo lvl').seq := by
  by_cases hl : lvl' = lvl
  · rwa [hl]
  · rw [ht.others lvl' hl]
    exact h lvl'

theorem countOpened_turning (lvl : LogLvl) (tm : Tm) (ino : Nat) (h : Turning n g) :
    Off lvl tm (countOpened g lvl tm ino) ∨
      Turning n (countOpened g lvl tm ino) ∧ ((countOpened g lvl tm ino).fdsInfo lvl).seq = (g.fdsInfo lvl).seq := by
  have hmax : (countDay (g.setFds lvl fun fds => { fds with opfd := some ino }) lvl tm).maxLogFiles = n := by
    unfold countDay
    split_ifs
    · exact h.config
    · exact h.max
  have hseq : ((countDay (g.setFds lvl fun fds => { fds with opfd := some ino }) lvl tm).fdsInfo lvl).seq =
      (g.fdsInfo lvl).seq := by
    unfold countDay
    split_ifs <;> simp [Globals.setMax]
  have ht : Touches lvl g (countOpened g lvl tm ino) := touches_countOpened
  have hday : ((countOpened g lvl tm ino).fdsInfo lvl).day = tm.yday := countOpened_day
  revert ht hday
  unfold countOpened giveUpRecycle
  split_ifs
  · exact fun _ hday => .inl ⟨rfl, hday⟩
  · exact fun ht _ => .inr ⟨⟨hmax, ht.config.trans h.config, ht.seqs h.seqs (by rw [hseq]; exact h.seqs lvl)⟩, hseq⟩

theorem openFd_off (h : Off lvl tm g) : (openFd pf g disk lvl tm o).1.maxLogFiles = 0 := by
  unfold openFd
  dsimp only
  split_ifs with hopens
  · exact h.1
  · exact (countOpened_off h).1
  · exact (countOpened_off h).1

theorem openFd_turning (pf : Platform) (disk : Disk) (lvl : LogLvl) (h : Turning n g) (hn : n ≠ 0) (hb : Based pre g)
    (hs : BySize g) (htm : tm.Valid) (hdir : o.opendir = true) : Off lvl tm (openFd pf g disk lvl tm o).1 ∨
      Turning n (openFd pf g disk lvl tm o).1 ∧ (Ring pre n disk → Ring pre n (openFd pf g disk lvl tm o).2) := by
  unfold openFd
  rw [logFilePath_eq hb hs]
  by_cases hopens : (!o.opens) = true
  · rw [if_pos hopens]
    have ht : Touches lvl g (g.setFds lvl fun fds => { fds with opfd := none }) := touches_setFds (by intro; rfl)
    exact .inr ⟨⟨h.max, h.config, ht.seqs h.seqs (by rw [setFds_self]; exact h.seqs lvl)⟩, id⟩
  · rw [if_neg hopens]
    dsimp only
    rcases countOpened_turning lvl tm (disk.openAppend (nameOf pre lvl tm (g.fdsInfo lvl).seq)).1 h
      with hoff | ⟨hturn, hseq⟩
    · rw [if_neg (not_not.mpr hoff.1)]
      exact .inl hoff
    · have hon : (countOpened g lvl tm (disk.openAppend (nameOf pre lvl tm (g.fdsInfo lvl).seq)).1).maxLogFiles ≠ 0 := by
        rw [hturn.max]
        exact hn
      rw [if_pos hon, hdir, hseq]
      exact .inr ⟨hturn, fun hring => hring.recycled (touches_countOpened.based hb lvl) htm (h.seqs lvl)⟩

theorem inRange_tmod (hn : n ≠ 0) {z : Int} (hz : 0 ≤ z) : InRange n (z.tmod n) := by
  refine ⟨Int.tmod_nonneg _ hz, ?_⟩
  have := Int.tmod_lt_of_pos z (show (0 : Int) < n by omega)
  exact this

theorem shiftOpened_turning (h : Turning n g) (hn : n ≠ 0) (hb : Based pre g) (hs : BySize g) (htm : tm.Valid)
    (hdir : m.second.opendir = true) : (shiftOpened pf g disk lvl tm m ino).1.maxLogFiles = 0 ∨
      Turning n (shiftOpened pf g disk lvl tm m ino).1 ∧
        (Ring pre n disk → Ring pre n (shiftOpened pf g disk lvl tm m ino).2) := by
  unfold shiftOpened
  split_ifs with hup
  · exact .inr ⟨h, id⟩
  · have ht : Touches lvl g (g.setFds lvl fun fds => { fds with seq := nextSeq g lvl tm m.shift }) :=
      touches_setFds (by intro; rfl)
    have hnext : InRange n (nextSeq g lvl tm m.shift) := by
      have hint : ¬ g.logtimeInterval ≠ 0 := not_not.mpr hs
      have hon : g.maxLogFiles ≠ 0 := by rw [h.max]; exact hn
      rw [nextSeq, if_neg hint, if_pos hon, h.max]
      exact inRange_tmod hn (by have := (h.seqs lvl).1; omega)
    have hturn : Turning n (g.setFds lvl fun fds => { fds with seq := nextSeq g lvl tm m.shift }) :=
      ⟨h.max, h.config, ht.seqs h.seqs (by rw [setFds_self]; exact hnext)⟩
    exact (openFd_turning pf disk lvl hturn hn (ht.based hb) (ht.bySize hs) htm hdir).imp_left And.left

theorem shiftOpened_off (h : Off lvl tm g) : (shiftOpened pf g disk lvl tm m ino).1.maxLogFiles = 0 := by
  unfold shiftOpened
  split_ifs
  · exact h.1
  · exact openFd_off ⟨h.1, by rw [setFds_self]; exact h.2⟩

theorem shiftFd_turning (pf : Platform) (disk : Disk) (lvl : LogLvl) (h : Turning n g) (hn : n ≠ 0) (hb : Based pre g)
    (hs : BySize g) (htm : tm.Valid) (hdir : m.first.opendir = true ∧ m.second.opendir = true) :
    (shiftFd pf g disk lvl tm m).1.maxLogFiles = 0 ∨
      Turning n (shiftFd pf g disk lvl tm m).1 ∧ (Ring pre n disk → Ring pre n (shiftFd pf g disk lvl tm m).2) := by
  unfold shiftFd
  cases hopfd : (g.fdsInfo lvl).opfd with
  | some ino => exact shiftOpened_turning h hn hb hs htm hdir.2
  | none =>
      have ht : Touches lvl g (openFd pf g disk lvl tm m.first).1 := touches_openFd
      have hopen := openFd_turning pf disk lvl h hn hb hs htm hdir.1
      generalize openFd pf g disk lvl tm m.first = opened at ht hopen ⊢
      obtain ⟨g₁, disk₁⟩ := opened
      dsimp only at ht hopen ⊢
      cases hopfd₁ : (g₁.fdsInfo lvl).opfd with
      | none => exact hopen.imp_left And.left
      | some ino =>
          rcases hopen with hoff | ⟨hturn, hring₁⟩
          · exact .inl (shiftOpened_off hoff)
          · exact (shiftOpened_turning hturn hn (ht.based hb) (ht.bySize hs) htm hdir.2).imp_right
              fun ⟨hturn₂, hring₂⟩ => ⟨hturn₂, fun hring => hring₂ (hring₁ hring)⟩

variable {key pid : Nat} {text : List UInt8}

theorem ring_append (hring : Ring pre n disk) (ino : Nat) (line : Line) : Ring pre n (disk.append ino line) :=
  ⟨hring.keys, hring.shape, hring.one⟩

/-- A call of `write_log` gives recycling up, or leaves the directory with one file of each number. -/
theorem writeLog_turning (disk : Disk) (lvl : LogLvl) (key pid : Nat) (text : List UInt8) (h : Turning n g) (hn : n ≠ 0)
    (hb : Based pre g) (hs : BySize g) (htm : (pf.localtime m.now).Valid)
    (hdir : m.first.opendir = true ∧ m.second.opendir = true) :
    (writeLog pf g disk lvl key pid text m).1.maxLogFiles = 0 ∨
      Turning n (writeLog pf g disk lvl key pid text m).1 ∧
        (Ring pre n disk → Ring pre n (writeLog pf g disk lvl key pid text m).2.1) := by
  unfold writeLog
  split_ifs
  · exact .inr ⟨h, id⟩
  · exact .inr ⟨h, id⟩
  · have hshift := shiftFd_turning pf disk lvl h hn hb hs htm hdir
    dsimp only
    generalize shiftFd pf g disk lvl (pf.localtime m.now) m = shifted at hshift ⊢
    obtain ⟨g₁, disk₁⟩ := shifted
    dsimp only at hshift ⊢
    cases hopfd : (g₁.fdsInfo lvl).opfd with
    | none => exact hshift
    | some ino => exact hshift.imp_right fun ⟨hturn, hring₁⟩ => ⟨hturn, fun hring => ring_append (hring₁ hring) _ _⟩

/-! ## Where a process starts -/

theorem lastName_cases (g : Globals) (lvl : LogLvl) (names : List (Name × Nat)) :
    lastName g lvl names = [] ∨ hasBase g lvl (lastName g lvl names) = true ∧ lastName g lvl names ∈ names.map Prod.fst := by
  have hfold : ∀ (names : List (Name × Nat)) (last : Name) (P : Name → Prop), P last →
      (∀ e ∈ names, hasBase g lvl e.1 = true → P e.1) →
      P (names.foldl (fun last e => if hasBase g lvl e.1 && strcmpPos e.1 last then e.1 else last) last) := by
    intro names
    induction names with
    | nil => exact fun _ _ h _ => h
    | cons e names ih =>
        intro last P hlast hall
        refine ih _ P ?_ fun e' he' => hall e' (List.mem_cons_of_mem _ he')
        dsimp only
        split_ifs with hc
        · exact hall e List.mem_cons_self (by simpa using (Bool.and_eq_true _ _ ▸ hc : _ ∧ _).1)
        · exact hlast
  exact hfold names [] (fun x => x = [] ∨ hasBase g lvl x = true ∧ x ∈ names.map Prod.fst) (.inl rfl)
    fun e he hbase => .inr ⟨hbase, List.mem_map_of_mem he⟩

theorem resumeName_eq (hb : (g.fdsInfo lvl).baseFilename = pre ++ lognames lvl) (hvalid : tm.Valid) (hn : n ≠ 0)
    (hring : Ring pre n disk) : ∃ tm' seq, tm'.Valid ∧ InRange n seq ∧
      resumeName g lvl disk.names tm = nameOf pre lvl tm' seq := by
  unfold resumeName
  split
  · exact ⟨tm, 0, hvalid, ⟨le_rfl, by omega⟩, logFileName_eq hb⟩
  · rename_i hne
    obtain hnil | ⟨hbase, hmem⟩ := lastName_cases g lvl disk.names
    · exact absurd hnil hne
    · exact hring.shape lvl _ hmem ((hasBase_iff hb).mp hbase)

theorem getLogSeqRecycle_inRange (hn : n ≠ 0) (hmax : g.maxLogFiles = n)
    (hb : (g.fdsInfo lvl).baseFilename = pre ++ lognames lvl) (hvalid : (pf.localtime now).Valid)
    (hring : Ring pre n disk) : InRange n (getLogSeqRecycle pf g disk lvl now true) := by
  obtain ⟨tm, seq, htm, hrange, hname⟩ := resumeName_eq hb hvalid hn hring
  unfold getLogSeqRecycle
  rw [if_neg (by simp)]
  dsimp only
  rw [hmax, hname, getLogfileSeqno_nameOf hb htm]
  have := hrange.1
  split_ifs
  · exact inRange_tmod hn (by omega)
  · exact inRange_tmod hn this

variable {im : InitMet}

/-- `log_init` has set up the globals to recycle `n` files of each level. -/
structure Recycles (pre : Name) (n : Nat) (g : Globals) : Prop where
  pre : g.logPre = pre
  bySize : BySize g
  max : g.maxLogFiles = n

/-- The number that a level starts with. -/
theorem Recycles.initLevel (pf : Platform) (disk : Disk) (h : Recycles pre n g) (hn : n ≠ 0) (hdir : im.opendir lvl = true) : ∃ g₁ : Globals,
    (g₁.fdsInfo lvl).baseFilename = pre ++ lognames lvl ∧ g₁.maxLogFiles = n ∧
      ((initLevel pf g disk im lvl).fdsInfo lvl).seq = getLogSeqRecycle pf g₁ disk lvl (im.time lvl) true := by
  generalize hg₁ : g.setFds lvl (fun fds => { fds with baseFilename := g.logPre ++ lognames lvl, opfd := none }) = g₁
  have hmax₁ : g₁.maxLogFiles = n := by rw [← hg₁]; exact h.max
  have hint : ¬ g₁.logtimeInterval ≠ 0 := by rw [← hg₁]; exact not_not.mpr h.bySize
  have hon : g₁.maxLogFiles ≠ 0 := by rw [hmax₁]; exact hn
  refine ⟨g₁, by rw [← hg₁, setFds_self, h.pre], hmax₁, ?_⟩
  unfold Log.initLevel
  dsimp only
  rw [hg₁, setFds_self, if_neg hint, requestLogSeq, if_pos hon, hdir]

theorem initLoop_inRange (hn : n ≠ 0) (hcal : Calendar pf) (hring : Ring pre n disk) (hdir : ∀ lvl, im.opendir lvl = true)
    (h : Recycles pre n g) : (initLoop pf disk im logLvls g).2 = true ∧
      ∀ lvl, InRange n ((initLoop pf disk im logLvls g).1.fdsInfo lvl).seq := by
  obtain ⟨hok, hlevels⟩ := initLoop_levels pf disk im (Q := Recycles pre n) (P := fun _ fds => InRange n fds.seq)
    (fun _ _ h => ⟨h.pre, h.bySize, h.max⟩)
    (fun g lvl h => by
      obtain ⟨g₁, hb, hmax, hseq⟩ := h.initLevel pf disk hn (hdir lvl)
      rw [hseq]
      exact getLogSeqRecycle_inRange hn hmax hb (hcal.valid _) hring)
    (fun _ _ h => h.1) logLvls h
  exact ⟨hok, fun lvl => hlevels lvl (.inl (mem_logLvls lvl))⟩

/-- `log_init` with recycling. -/
theorem logInit_turning {level : LogLvl} {size maxfiles : Nat} (hn : n ≠ 0) (hcal : Calendar pf) (hs : BySize g)
    (hring : Ring (pre.take 31) n disk) (hdir : ∀ lvl, im.opendir lvl = true) (h : g.hasInit = true → Turning n g)
    (hmax : (logInit pf g disk level size maxfiles (some pre) im).1.maxLogFiles = n)
    (hinit : (logInit pf g disk level size maxfiles (some pre) im).1.hasInit = true) :
    Turning n (logInit pf g disk level size maxfiles (some pre) im).1 := by
  unfold logInit at hmax hinit ⊢
  by_cases hsize : size > 2 ^ 31
  · rw [if_pos hsize] at hmax hinit ⊢
    exact ⟨hmax, hmax, (h hinit).seqs⟩
  · rw [if_neg hsize] at hmax hinit ⊢
    by_cases hwritable : (!im.writable) = true
    · rw [if_pos hwritable] at hmax hinit ⊢
      exact ⟨hmax, hmax, (h hinit).seqs⟩
    · rw [if_neg hwritable] at hmax hinit ⊢
      generalize hg₁ : (g.configure level size maxfiles).setPre (some pre) = g₁ at hmax hinit ⊢
      have hi : Inited (pre.take 31) logLvls g₁ (initLoop pf disk im logLvls g₁).1 (initLoop pf disk im logLvls g₁).2 :=
        inited_initLoop (by rw [← hg₁]; rfl)
      have hpre₁ : g₁.logPre = pre.take 31 := by rw [← hg₁]; rfl
      have hs₁ : BySize g₁ := by rw [← hg₁]; exact hs
      have hmax₁ : g₁.maxLogFiles = maxfiles := by rw [← hg₁]; rfl
      have hconfig₁ : g₁.configMaxLogFiles = maxfiles := by rw [← hg₁]; rfl
      have hloop : g₁.maxLogFiles = n → _ := fun hn₁ => initLoop_inRange hn hcal hring hdir ⟨hpre₁, hs₁, hn₁⟩
      generalize initLoop pf disk im logLvls g₁ = inited at hi hloop hmax hinit ⊢
      obtain ⟨g₂, ok⟩ := inited
      have hn₂ : g₂.maxLogFiles = n := by
        cases ok <;> exact hmax
      have hn₁ : g₁.maxLogFiles = n := hi.max.symm.trans hn₂
      obtain ⟨rfl, hseqs⟩ := hloop hn₁
      exact ⟨hn₂, hi.config.trans (hconfig₁.trans (hmax₁.symm.trans hn₁)), hseqs⟩

/-! ## All processes -/

/-- Every process that has called `log_init` recycles `n` files. -/
def Recycling (n : Nat) (w : World) : Prop := ∀ p, (w.procs p).hasInit = true → (w.procs p).maxLogFiles = n

/-- Some steps without faults, while all processes recycle. -/
inductive RecycleRun (pf : Platform) (pre : Name) (n : Nat) : World → World → Prop
  | refl (w : World) : RecycleRun pf pre n w w
  | tail {w w₁ w₂ : World} : RecycleRun pf pre n w w₁ → Step pf pre False w₁ w₂ → Recycling n w₂ →
      RecycleRun pf pre n w w₂

variable {w w₁ w₂ : World}

theorem RecycleRun.run (hr : RecycleRun pf pre n w w₁) : Run pf pre False w w₁ := by
  induction hr with
  | refl => exact .refl _
  | tail _ hstep _ ih => exact ih.tail hstep

/-- The invariant of recycling. -/
structure Recycled (pre : Name) (n : Nat) (w : World) : Prop where
  ring : Ring pre n w.disk
  procs : ∀ p, (w.procs p).hasInit = true → Turning n (w.procs p)

theorem Recycled.update (h : Recycled pre n w) {p : Nat} (hring : Ring pre n disk')
    (hp : g'.hasInit = true → Turning n g') :
    Recycled pre n { procs := Function.update w.procs p g', disk := disk', now := now } := by
  refine ⟨hring, fun q => ?_⟩
  by_cases hq : q = p
  · subst hq
    simpa using hp
  · have hother : Function.update w.procs p g' q = w.procs q := Function.update_of_ne hq _ _
    dsimp only
    rw [hother]
    exact h.procs q

theorem ring_perm {names : List (Name × Nat)} (hring : Ring pre n disk) (hperm : names.Perm disk.names) :
    Ring pre n { disk with names := names } := by
  have hkeys : ∀ x, x ∈ Disk.keys { disk with names := names } ↔ x ∈ disk.keys := fun x => (hperm.map Prod.fst).mem_iff
  exact ⟨(hperm.map Prod.fst).nodup_iff.mpr hring.keys, fun lvl x hx => hring.shape lvl x ((hkeys x).mp hx),
    fun lvl tm tm' seq htm htm' h₁ h₂ => hring.one lvl tm tm' seq htm htm' ((hkeys _).mp h₁) ((hkeys _).mp h₂)⟩

/-- The step lemma. -/
theorem Step.recycled (hn : n ≠ 0) (hcal : Calendar pf) (hstep : Step pf pre False w w₁) (hok : w.Ok pf pre start)
    (h : Recycled (pre.take 31) n w) (hon : Recycling n w₁) : Recycled (pre.take 31) n w₁ := by
  cases hstep with
  | write p lvl key pid text m hnow hdir =>
      have hproc := hok.procs p
      have hsame : (writeLog pf (w.procs p) w.disk lvl key pid text m).1.hasInit = (w.procs p).hasInit :=
        (serves_writeLog key pid text hcal (fun hd => hproc.based (hproc.dest hd))
          hproc.bySize hok.disk hnow hok.started (hproc.fdOk lvl)).1.touches.hasInit
      by_cases hinit : (w.procs p).hasInit = true
      · have hmax := hon p (by simpa [hsame] using hinit)
        simp only [Function.update_self] at hmax
        rcases writeLog_turning w.disk lvl key pid text (h.procs p hinit) hn
          (hproc.based hinit) hproc.bySize (hcal.valid m.now) (hdir id) with hoff | ⟨hturn, hring⟩
        · exact absurd (hmax.symm.trans hoff) hn
        · exact h.update (hring h.ring) fun _ => hturn
      · have hdest : (w.procs p).destFile = false := Bool.eq_false_iff.mpr fun hd => hinit (hproc.dest hd)
        have hnothing : writeLog pf (w.procs p) w.disk lvl key pid text m = (w.procs p, w.disk, false) := by
          unfold writeLog
          split_ifs with _ hd
          · rfl
          · rfl
          · rw [hdest] at hd
            exact absurd rfl hd
        rw [hnothing]
        exact h.update h.ring fun hi => absurd hi hinit
  | init p level size maxfiles im hdir =>
      refine h.update h.ring fun hinit => ?_
      have hmax := hon p (by simpa using hinit)
      simp only [Function.update_self] at hmax
      exact logInit_turning hn hcal (hok.procs p).bySize h.ring (hdir id) (h.procs p) hmax hinit
  | fini p => exact h.update h.ring nofun
  | dest p destFile hinit =>
      have hturn := h.procs p hinit
      exact h.update h.ring fun _ => ⟨hturn.max, hturn.config, hturn.seqs⟩
  | order names hperm => exact ⟨ring_perm h.ring hperm, h.procs⟩
  | time now _ => exact ⟨h.ring, h.procs⟩

/-- The run lemma. -/
theorem RecycleRun.recycled (hn : n ≠ 0) (hcal : Calendar pf) {w₀ : World} (hstart : w₀.Start)
    (hring : Ring (pre.take 31) n w₀.disk) (hr : RecycleRun pf pre n w₀ w) : Recycled (pre.take 31) n w := by
  induction hr with
  | refl => exact ⟨hring, fun p hinit => by rw [hstart.procs] at hinit; cases hinit⟩
  | tail hr hstep hon ih => exact hstep.recycled hn hcal (hr.run.ok hcal hstart.ok).1 ih hon

/-- In every run in which all processes recycle `n` files, their calls following one another: if the directory has at most one file of each
number below `n` for each level at the start, and no others of the level, it is so at the end. There are
never more than `n` files of a level. -/
theorem recycled_files (hn : n ≠ 0) (hcal : Calendar pf) {w₀ : World} (hstart : w₀.Start)
    (hring : Ring (pre.take 31) n w₀.disk) (hr : RecycleRun pf pre n w₀ w) :
    Ring (pre.take 31) n w.disk ∧ ∀ lvl, (w.disk.keys.filter (pre.take 31 ++ lognames lvl).isPrefixOf).length ≤ n :=
  have h := hr.recycled hn hcal hstart hring
  ⟨h.ring, h.ring.count⟩

/-! ### A process that goes around -/

theorem ring_emptyDir (pre : Name) (n : Nat) : Ring pre n emptyDir.disk :=
  ⟨List.nodup_nil, fun _ _ h => absurd h List.not_mem_nil, fun _ _ _ _ _ _ h => absurd h List.not_mem_nil⟩

/-- Only the process 0 has called anything, and it recycles `n` files. -/
structure Alone (n : Nat) (w : World) : Prop where
  max : (w.procs 0).maxLogFiles = n
  others : ∀ p, p ≠ 0 → w.procs p = .start

theorem Alone.recycling {w : World} (h : Alone n w) : Recycling n w := by
  intro p hinit
  by_cases hp : p = 0
  · rw [hp, h.max]
  · rw [h.others p hp] at hinit
    cases hinit

theorem alone_init (hmax : ((emptyDir.init 0 n 0).procs 0).maxLogFiles = n) : Alone n (emptyDir.init 0 n 0) :=
  ⟨hmax, fun _ hp => Function.update_of_ne hp _ _⟩

theorem Alone.log {w : World} (h : Alone n w) {t : Nat} (hmax : ((w.log 0 t).procs 0).maxLogFiles = n) :
    Alone n (w.log 0 t) :=
  ⟨hmax, fun p hp => (Function.update_of_ne hp _ _).trans (h.others p hp)⟩

theorem RecycleRun.log {w₀ w : World} (h : RecycleRun twoDays [] n w₀ w) {t : Nat} (hnow : w.now ≤ t)
    (ha : Alone n (w.log 0 t)) : RecycleRun twoDays [] n w₀ (w.log 0 t) :=
  h.tail (.write 0 .error 7 0 [0x0A] (metAt t) hnow fun _ => ⟨rfl, rfl⟩) ha.recycling

theorem recycleRun_init (ha : Alone n (emptyDir.init 0 n 0)) : RecycleRun twoDays [] n emptyDir (emptyDir.init 0 n 0) :=
  .tail (.refl emptyDir) (.init 0 .info 1 n (initAt 0) fun _ _ => rfl) ha.recycling

/-- The process 0 recycles `n` files of a line, and has written two lines on one day and two on the next day. -/
def filled (n : Nat) : World := ((((emptyDir.init 0 n 0).log 0 80000).log 0 80100).log 0 90000).log 0 90100

theorem filledRun : ∀ {n : Nat}, n = 2 ∨ n = 3 → RecycleRun twoDays [] n emptyDir (filled n) := by
  intro n hn
  have hinit : Alone n (emptyDir.init 0 n 0) := alone_init (by rcases hn with rfl | rfl <;> decide +kernel)
  have hfirst : Alone n ((emptyDir.init 0 n 0).log 0 80000) := hinit.log (by rcases hn with rfl | rfl <;> decide +kernel)
  have hsecond : Alone n (((emptyDir.init 0 n 0).log 0 80000).log 0 80100) :=
    hfirst.log (by rcases hn with rfl | rfl <;> decide +kernel)
  have hthird : Alone n ((((emptyDir.init 0 n 0).log 0 80000).log 0 80100).log 0 90000) :=
    hsecond.log (by rcases hn with rfl | rfl <;> decide +kernel)
  have hfourth : Alone n (filled n) := hthird.log (by rcases hn with rfl | rfl <;> decide +kernel)
  exact ((((recycleRun_init hinit).log (Nat.zero_le _) hfirst).log (by decide : 80000 ≤ 80100) hsecond).log
    (by decide : 80100 ≤ 90000) hthird).log (by decide : 90000 ≤ 90100) hfourth

/-- The files of the second day have taken the numbers of those of the first day. -/
theorem recycled_files_around : Ring [] 2 (filled 2).disk ∧
    ∀ lvl, ((filled 2).disk.keys.filter ([] ++ lognames lvl).isPrefixOf).length ≤ 2 :=
  recycled_files (by decide) calendar_twoDays start_emptyDir (ring_emptyDir _ 2) (filledRun (.inl rfl))

end Taomee.Log
