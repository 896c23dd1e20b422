import Taomee.Lib.Fuel
import Taomee.Timer.Lemmas.Runs

/-!
# Scans come to their end

The lists behind `vec[0]` do not get longer while they are scanned. The loop over `vec[0]` comes to its end when its
callbacks add only so many timers whose time has come: with each callback there is one due timer less to come, or
a new timer has been issued.
-/

namespace Taomee.Timer

variable {s s' s'' s₀ : Timers} {L L' : Fin 5 → List Nat} {t : Nat} {todo kept : List Nat} {cb : Timers.Callback}
variable {d d' : Prop} {idx : Fin 5} {m now : Int}

/-! ## What callbacks add -/

/-- The call adds a timer whose time has come. -/
def TimerOp.addsDue (now : Int) : Timers.TimerOp → Prop
  | .addEvent _ _ _ _ expire _ => expire ≤ now
  | _ => False

/-- No callback that the loop from `s₀` calls adds a timer whose time has come once `n` timers have been issued. -/
def DueEnds (cb : Timers.Callback) (s₀ : Timers) (n : Nat) : Prop :=
  ∀ s t, Calls cb s₀ s t → n ≤ s.fresh → ∀ op ∈ (cb s t).1, ¬ TimerOp.addsDue s.now op

/-- The callbacks that the loop from `s₀` calls use timers that are there. -/
def Succeeds (cb : Timers.Callback) (s₀ : Timers) : Prop :=
  ∀ s t, Calls cb s₀ s t → ∃ s', (called cb s t).runOps (cb s t).1 = .ok s'

/-- Timers are added and removed. New ones may be due if `d` holds. -/
structure Adds (d : Prop) (s s' : Timers) : Prop where
  now : s'.now = s.now
  fresh : s.fresh ≤ s'.fresh
  log : ∃ ev, s'.log = s.log ++ ev ∧ ∀ t ∈ linked ev, s.fresh ≤ t ∧ t < s'.fresh
  dues : ∀ t, Due s' t → Due s t ∨ (d ∧ s.fresh ≤ t)

theorem Adds.refl (d : Prop) (s : Timers) : Adds d s s :=
  ⟨rfl, Nat.le_refl _, ⟨[], (List.append_nil _).symm, fun _ h => absurd h List.not_mem_nil⟩, fun _ hd => .inl hd⟩

theorem Adds.trans (h : Adds d s s') (h' : Adds d' s' s'') : Adds (d ∨ d') s s'' := by
  obtain ⟨ev, hlog, hev⟩ := h.log
  obtain ⟨ev', hlog', hev'⟩ := h'.log
  refine ⟨h'.now.trans h.now, h.fresh.trans h'.fresh, ⟨ev ++ ev', ?_, fun t ht => ?_⟩, fun t hd => ?_⟩
  · rw [hlog', hlog, List.append_assoc]
  · rw [linked_append] at ht
    rcases List.mem_append.mp ht with ht | ht
    · exact ⟨(hev t ht).1, (hev t ht).2.trans_le h'.fresh⟩
    · exact ⟨h.fresh.trans (hev' t ht).1, (hev' t ht).2⟩
  · rcases h'.dues t hd with hd | ⟨hd, hle⟩
    · exact (h.dues t hd).imp_right fun ⟨hd, hle⟩ => ⟨.inl hd, hle⟩
    · exact .inr ⟨.inr hd, h.fresh.trans hle⟩

theorem Adds.mono (h : Adds d s s') (himp : d → d') : Adds d' s s' :=
  ⟨h.now, h.fresh, h.log, fun t hd => (h.dues t hd).imp_right fun ⟨hd, hle⟩ => ⟨himp hd, hle⟩⟩

/-- An event that links no timer. -/
theorem adds_emit (s : Timers) {e : Event} (he : linked [e] = []) : Adds d s (s.emit e) where
  now := rfl
  fresh := Nat.le_refl _
  log := ⟨[e], rfl, fun t ht => by rw [he] at ht; exact absurd ht List.not_mem_nil⟩
  dues := fun _ hd => .inl hd

theorem adds_free (s : Timers) (t : Nat) : Adds d s (s.doRemoveTimer t true) where
  now := rfl
  fresh := Nat.le_refl _
  log := ⟨[], (List.append_nil _).symm, fun _ h => absurd h List.not_mem_nil⟩
  dues := fun _ hd => .inl (Due.of_live (show s.now = (s.doRemoveTimer t true).now from rfl) (fun _ => free_live) hd)

theorem newTimer_adds (s : Timers) (head function owner data : Nat) (expire : Int) :
    Adds (expire ≤ s.now) s (s.newTimer head function owner data expire).1 := by
  obtain ⟨htimers, hfresh, hnow, hlog⟩ : (s.newTimer head function owner data expire).1.timers =
      Function.update s.timers s.fresh (some ⟨expire, owner, data, some function, 0⟩) ∧
      (s.newTimer head function owner data expire).1.fresh = s.fresh + 1 ∧
      (s.newTimer head function owner data expire).1.now = s.now ∧
      ∃ i, (s.newTimer head function owner data expire).1.log = s.log ++ [.arm s.fresh expire s.now i] := by
    refine ⟨?_, ?_, ?_, s.vecIdx (toI32 (expire - s.now)), ?_⟩
    · exact (setMinExptm_other _ _ _).1
    · exact (setMinExptm_other _ _ _).2.1
    · exact (setMinExptm_other _ _ _).2.2.1
    · exact congrArg (· ++ [_]) (setMinExptm_other _ _ _).2.2.2
  generalize (s.newTimer head function owner data expire).1 = s' at *
  obtain ⟨i, hlog⟩ := hlog
  refine ⟨hnow, by omega, ⟨_, hlog, fun t ht => ?_⟩, fun t hd => ?_⟩
  · obtain rfl : t = s.fresh := by
      unfold linked at ht
      obtain ⟨e, he, hsome⟩ := List.mem_filterMap.mp ht
      obtain rfl := List.mem_singleton.mp he
      dsimp only at hsome
      split at hsome
      · exact (Option.some.inj hsome).symm
      · cases hsome
    omega
  · obtain ⟨e, hl, hle⟩ := hd
    rw [hnow] at hle
    rcases live_update htimers hl with ⟨rfl, -, rfl⟩ | ⟨-, hl⟩
    · exact .inr ⟨hle, Nat.le_refl _⟩
    · exact .inl ⟨e, hl, hle⟩

theorem runOp_adds {op : Timers.TimerOp} (hc : TimerOp.changes s op = none) (hrun : s.runOp op = .ok s') :
    Adds (TimerOp.addsDue s.now op) s s' := by
  cases op with
  | addEvent head function owner data expire flag =>
      obtain rfl := Except.ok.inj hrun
      cases flag with
      | timerAddNewTimer => exact newTimer_adds s head function owner data expire
      | timerReplaceTimer =>
          have hf : s.findEvent head function = none := hc
          simp only [Timers.addEvent, hf]
          exact newTimer_adds s head function owner data expire
  | modExpireTime t e => cases hc
  | removeTimer t =>
      simp only [Timers.runOp] at hrun
      split at hrun
      · rename_i ht
        obtain rfl := Except.ok.inj hrun
        obtain ⟨ts, hts⟩ := Option.isSome_iff_exists.mp ht
        have htimers : ((s.doRemoveTimer t false).emit (.remove t)).timers =
            Function.update s.timers t (some { ts with function := none, funcIndx := 0 }) := by
          simp [Timers.emit, Timers.doRemoveTimer, Timers.setTimer, hts]
        refine ⟨rfl, Nat.le_refl _, ⟨[.remove t], rfl, fun _ h => absurd h List.not_mem_nil⟩, fun t' hd => .inl ?_⟩
        obtain ⟨e, hl, hle⟩ := hd
        rcases live_update htimers hl with ⟨-, hf, -⟩ | ⟨-, hl⟩
        · exact absurd rfl hf
        · exact ⟨e, hl, hle⟩
      · cases hrun

theorem runOps_adds : ∀ {ops : List Timers.TimerOp} {s s' : Timers}, (∀ op ∈ ops, ∀ s, TimerOp.changes s op = none) →
    s.runOps ops = .ok s' → Adds (∃ op ∈ ops, TimerOp.addsDue s.now op) s s'
  | [], s, s', _, hrun => by
      obtain rfl := Except.ok.inj hrun
      exact Adds.refl _ s
  | op :: ops, s, s', hc, hrun => by
      obtain ⟨s1, hop, hrest⟩ := bind_ok.mp hrun
      have h1 := runOp_adds (hc op List.mem_cons_self s) hop
      have h2 := runOps_adds (fun op hm => hc op (List.mem_cons_of_mem _ hm)) hrest
      refine (h1.trans h2).mono ?_
      rw [h1.now]
      rintro (hd | ⟨op', hm, hd⟩)
      · exact ⟨op, List.mem_cons_self, hd⟩
      · exact ⟨op', List.mem_cons_of_mem _ hm, hd⟩

/-- A turn of the loop adds timers only when it comes to one that is due. -/
theorem handleTimer_adds {ts : TimerStruct} (hcb : AddsAndRemoves cb) (ht : s.timers t = some ts)
    (hrun : s.handleTimer cb t ts = .ok s') :
    Adds (∃ op ∈ (cb s t).1, TimerOp.addsDue s.now op) s s' ∧ (¬ Due s t → s'.fresh = s.fresh) := by
  unfold Timers.handleTimer at hrun
  split at hrun
  · obtain rfl := Except.ok.inj hrun
    exact ⟨adds_free s t, fun _ => rfl⟩
  rename_i hf
  split at hrun
  · rename_i hdue
    obtain ⟨s1, hops, hend⟩ := bind_ok.mp hrun
    have h1 : Adds (∃ op ∈ (cb s t).1, TimerOp.addsDue s.now op) s s1 :=
      ((adds_emit (d := False) s rfl).trans (runOps_adds (hcb s t) hops)).mono fun h => h.resolve_left id
    refine ⟨?_, fun hnot => absurd ⟨ts.expire, ⟨ts, ht, hf, rfl⟩, hdue⟩ hnot⟩
    split at hend
    · obtain rfl := Except.ok.inj hend
      exact (h1.trans (adds_free (d := False) s1 t)).mono fun h => h.resolve_right id
    · obtain rfl := Except.ok.inj hend
      exact h1
  · obtain rfl := Except.ok.inj hrun
    exact ⟨Adds.refl _ s, fun _ => rfl⟩

/-! ## The loop over vec[0] -/

theorem Shape.lt_of_due (h : Shape s L) (hd : Due s t) : t < s.fresh := by
  obtain ⟨e, ⟨ts, hts, -⟩, -⟩ := hd
  exact h.fresh t (by rw [hts]; exact Option.some_ne_none ts)

/-- A turn of the loop issues a timer while there are fewer than `n`, or no due timer has come to those that follow,
and `t` was due or the loop has one timer less to come to. -/
theorem At.lowers {n : Nat} {ts : TimerStruct} (h : At cb s₀ s L (t :: todo)) (hcb : AddsAndRemoves cb)
    (hn : DueEnds cb s₀ n) (ht : s.timers t = some ts)
    (hrun : (s.emit (.visit t)).handleTimer cb t ts = .ok s') :
    ∃ L' todo', At cb s₀ s' L' todo' ∧ ptrAt 0 todo' = ptrAt 0 todo ∧ s.fresh ≤ s'.fresh ∧
      ((s.fresh < s'.fresh ∧ s.fresh < n) ∨
        (∀ y ∈ todo', Due s' y → y ∈ todo ∧ Due s y) ∧ (Due s t ∨ todo'.length ≤ todo.length)) := by
  obtain ⟨ts', ht', -, hturn⟩ := h.turn (hcb.guarded s₀)
  obtain rfl := Option.some.inj (ht'.symm.trans ht)
  obtain ⟨L', ev, todo', hat, hptr, hl, -, hlen, -, hsub⟩ := hturn s' hrun
  obtain ⟨hadds, hidle⟩ := handleTimer_adds hcb (show (s.emit (.visit t)).timers t = some ts' from ht) hrun
  have hall := (adds_emit (d := False) s (show linked [.visit t] = [] from rfl)).trans hadds
  obtain ⟨ev', hlog, hev⟩ := hall.log
  obtain rfl := List.append_cancel_left (hl.keeps.log.symm.trans hlog)
  -- a due timer to come that was issued before stood behind `t`
  have hold : ∀ y ∈ todo', Due s y → y ∈ todo := fun y hy hd =>
    (List.mem_append.mp (hsub hy)).resolve_left fun hm => absurd (hev y hm).1 (Nat.not_le.mpr (h.shape.lt_of_due hd))
  refine ⟨L', todo', hat, hptr, hall.fresh, ?_⟩
  by_cases hdue : Due s t
  · by_cases hnew : s.fresh < s'.fresh ∧ s.fresh < n
    · exact .inl hnew
    refine .inr ⟨fun y hy hd => ?_, .inl hdue⟩
    rcases hall.dues y hd with hd | ⟨hadd, hle⟩
    · exact ⟨hold y hy hd, hd⟩
    · -- the callback adds a due timer, so there are fewer than `n`
      obtain ⟨op, hm, hop⟩ := hadd.resolve_left id
      obtain ⟨e, ⟨ts, hts, hf, rfl⟩, hle'⟩ := hdue
      have hlt : s.fresh < n := by
        by_contra hge
        exact hn _ t ⟨s, _, ts, h.turns, hts, hf, hle', rfl⟩ (Nat.not_lt.mp hge) op hm hop
      exact absurd ⟨Nat.lt_of_le_of_lt hle (hat.shape.lt_of_due hd), hlt⟩ hnew
  · have heq : s'.fresh = s.fresh := hidle hdue
    have hnil : linked ev = [] := List.eq_nil_iff_forall_not_mem.mpr fun y hm => by
      have := hev y hm
      omega
    refine .inr ⟨fun y hy hd => ?_, .inr (by simpa [hnil] using hlen)⟩
    rcases hall.dues y hd with hd | ⟨-, hle⟩
    · exact ⟨hold y hy hd, hd⟩
    · have := hat.shape.lt_of_due hd
      omega

theorem scanLoop_turn {ts : TimerStruct} {p : Ptr} (ht : s.timers t = some ts) (fuel : Nat) :
    Timers.scanLoop cb (fuel + 1) s (.entry t) p =
      ((s.emit (.visit t)).handleTimer cb t ts >>= fun s => Timers.scanLoop cb fuel s p (s.links.next p)) := by
  conv_lhs => unfold Timers.scanLoop
  simp only [reduceCtorEq, ↓reduceIte, ht]

/-- The loop comes to its end. The induction is on the timers that may still be issued, within it on the due timers
still to come, and within it on the timers still to come. -/
theorem scanLoop_ends (hcb : AddsAndRemoves cb) {n : Nat} (hn : DueEnds cb s₀ n) (hsucc : Succeeds cb s₀)
    {c d k : Nat} {dues : List Nat} :
    At cb s₀ s L todo → n - s.fresh = c → (∀ y ∈ todo, Due s y → y ∈ dues) → dues.length = d → todo.length = k →
    Ends fun fuel => Timers.scanLoop cb fuel s (ptrAt 0 todo) (s.links.next (ptrAt 0 todo)) := by
  induction c using Nat.strong_induction_on generalizing s L todo d k dues with | _ c ihc
  induction d using Nat.strong_induction_on generalizing s L todo k dues with | _ d ihd
  induction k using Nat.strong_induction_on generalizing s L todo dues with | _ k ihk
  intro h hc hdues hd hk
  cases todo with
  | nil => exact .succ (fun _ => rfl) (.const ⟨s, rfl⟩)
  | cons t todo =>
      obtain ⟨ts, ht, hnext, -⟩ := h.turn (hcb.guarded s₀)
      have hhandle := @handleTimer_ok (s.emit (.visit t)) t cb ts fun hf hdue =>
        hsucc _ t ⟨s, _, ts, h.turns, ht, hf, hdue, rfl⟩
      obtain ⟨done, h0⟩ := h.split
      change Ends fun fuel => Timers.scanLoop cb fuel s (.entry t) (s.links.next (.entry t))
      rw [hnext]
      refine .succ (scanLoop_turn ht) (.bind (.const hhandle) fun s1 hs1 => ?_)
      obtain ⟨-, hs1⟩ := hs1.exists_eq
      obtain ⟨L1, todo1, hat, hptr, hfresh, hor⟩ := h.lowers hcb hn ht hs1
      rw [← hptr]
      by_cases hlt : n - s1.fresh < c
      · exact ihc _ hlt hat rfl (fun y hy _ => hy) rfl rfl
      have hc1 : n - s1.fresh = c := by omega
      obtain ⟨hold, hor⟩ := hor.resolve_left fun hnew => by omega
      rcases hor with hdue | hlen
      · -- `t` was due, and does not come again
        have ht' : t ∉ todo := by
          have hnd := h.shape.nodup 0
          rw [h0, List.nodup_append] at hnd
          exact (List.nodup_cons.mp hnd.2.1).1
        have hmem : t ∈ dues := hdues t List.mem_cons_self hdue
        have hpos := List.length_pos_of_mem hmem
        refine @ihd (d - 1) (by omega) _ _ _ _ (dues.erase t) hat hc1 (fun y hy hdy => ?_) ?_ rfl
        · obtain ⟨hy, hdy⟩ := hold y hy hdy
          have hne : y ≠ t := fun he => ht' (he ▸ hy)
          exact (List.mem_erase_of_ne hne).mpr (hdues y (List.mem_cons_of_mem _ hy) hdy)
        · rw [List.length_erase_of_mem hmem, hd]
      · refine ihk todo1.length ?_ hat hc1 (fun y hy hdy => ?_) hd rfl
        · rw [← hk, List.length_cons]
          omega
        · obtain ⟨hy, hdy⟩ := hold y hy hdy
          exact hdues y (List.mem_cons_of_mem _ hy) hdy

/-! ## The lists behind vec[0] -/

theorem sortLoop_turn {ts : TimerStruct} {p : Ptr} (ht : s.timers t = some ts) (fuel : Nat) :
    Timers.sortLoop idx (fuel + 1) s (.entry t) p m =
      Timers.sortLoop idx fuel (s.sortTimer idx t ts m).1 p ((s.sortTimer idx t ts m).1.links.next p)
        (s.sortTimer idx t ts m).2 := by
  conv_lhs => unfold Timers.sortLoop
  simp only [reduceCtorEq, ↓reduceIte, ht]

/-- The loop over another list comes to each of its timers once. -/
theorem sortLoop_ends (h : Sorting idx s L kept todo m) : Ends fun fuel =>
    Timers.sortLoop idx fuel s (ptrAt idx todo) (s.links.next (ptrAt idx todo)) m := by
  induction todo generalizing s L kept m with
  | nil => exact .succ (y := fun _ => .ok (s, m)) (fun _ => by simp [Timers.sortLoop, ptrAt]) (.const ⟨_, rfl⟩)
  | cons t todo ih =>
      have hthere : s.timers t ≠ none := (h.shape.alloc t).mpr ⟨idx, by rw [h.split]; simp⟩
      obtain ⟨ts, ht⟩ := Option.ne_none_iff_exists'.mp hthere
      obtain ⟨L1, kept1, h1, -⟩ := sortTimer_sorting h ht
      have hnext : s.links.next (ptrAt idx (t :: todo)) = ptrAt idx todo := next_entry h.shape h.split
      refine .succ (fun fuel => ?_) (ih h1)
      rw [hnext]
      exact sortLoop_turn ht fuel

theorem scanTimerList_ends (h : Good none s L) (idx : Fin 5) :
    Ends fun fuel => s.scanTimerList fuel idx := by
  have hstart : Sorting idx s L [] (L idx) 0 :=
    ⟨h.shape, h.history, rfl, fun hpos => ⟨fun i hi _ => h.minima hpos i hi,
      fun _ ht => absurd ht List.not_mem_nil⟩⟩
  unfold Timers.scanTimerList
  simp only [next_head h.shape idx]
  exact (sortLoop_ends hstart).bind fun _ _ => .const ⟨_, rfl⟩

theorem scanLists_ends : ∀ {is : List (Fin 5)} {s : Timers} {L : Fin 5 → List Nat}, Good none s L →
    Ends fun fuel => s.scanLists fuel is
  | [], s, _, _ => .const ⟨s, rfl⟩
  | idx :: is, s, L, h => by
      unfold Timers.scanLists
      by_cases hmin : s.minExpiringTime idx - s.now < 2
      · simp only [if_pos hmin]
        refine (scanTimerList_ends h idx).bind fun s1 h1 => ?_
        obtain ⟨fuel, h1⟩ := h1.exists_eq
        obtain ⟨L1, hg1, -⟩ := (scanTimerList_good h).2 s1 h1
        exact scanLists_ends hg1
      · simp only [if_neg hmin]
        exact scanLists_ends h

/-! ## Scans -/

theorem scanSecondsTimer_ends (hcb : AddsAndRemoves cb) {n : Nat} (hn : DueEnds cb (s.emit (.scan s.now)) n)
    (hsucc : Succeeds cb (s.emit (.scan s.now))) (h : Good none s L) :
    Ends fun fuel => s.scanSecondsTimer fuel cb := by
  have hstart := good_scan h (.inl rfl)
  have hnext : (s.emit (.scan s.now)).links.next (.head 0) = ptrAt 0 (L 0) := next_head h.shape 0
  have hat := @at_start _ L cb hstart.shape
  unfold Timers.scanSecondsTimer
  simp only [hnext]
  refine (scanLoop_ends hcb hn hsucc hat rfl (fun y hy _ => hy) rfl rfl).bind fun s1 h1 => ?_
  obtain ⟨fuel, h1⟩ := h1.exists_eq
  obtain ⟨L1, ev, hl1, -⟩ := (scanLoop_leads (hcb.guarded _) fuel hat rfl).2 s1 h1
  exact (scanLists_ends (hl1.good hstart)).bind fun _ _ => .const ⟨_, rfl⟩

/-! ## Runs -/

/-- The action, with so many turns for the loops of a scan. -/
def withTurns (turns : Nat) : Timers.Action → Timers.Action
  | .scan _ cb => .scan turns cb
  | a => a

/-- Every action of the run finds a state that meets `P`, as far as the run gets with any number of turns. -/
def Along (P : Timers → Timers.Action → Prop) : Timers → List Timers.Action → Prop
  | _, [] => True
  | s, a :: actions => P s a ∧ ∀ turns s', s.runAction (withTurns turns a) = .ok s' → Along P s' actions

/-- The callbacks of a scan add only so many timers whose time has come. -/
def FewDueAction (s : Timers) : Timers.Action → Prop
  | .scan _ cb => ∃ n, DueEnds cb (s.emit (.scan s.now)) n
  | _ => True

/-- The action, and the callbacks of a scan, use timers that are there. -/
def SucceedsAction (s : Timers) : Timers.Action → Prop
  | .op op => ∃ s', s.runOp op = .ok s'
  | .scan _ cb => Succeeds cb (s.emit (.scan s.now))
  | .renewNow _ => True

theorem plainAction_withTurns {a : Timers.Action} {turns : Nat} (h : PlainAction a) :
    PlainAction (withTurns turns a) := by
  cases a <;> exact h

theorem along_of_forall {P : Timers → Timers.Action → Prop} {actions : List Timers.Action}
    (h : ∀ a ∈ actions, ∀ s, P s a) (s : Timers) : Along P s actions := by
  induction actions generalizing s with
  | nil => trivial
  | cons a actions ih =>
      exact ⟨h a List.mem_cons_self s, fun _ s' _ => ih (fun a ha => h a (List.mem_cons_of_mem _ ha)) s'⟩

theorem runAction_ends {a : Timers.Action} (h : Good none s L) (hplain : PlainAction a) (hfew : FewDueAction s a)
    (hsucc : SucceedsAction s a) : Ends fun turns => s.runAction (withTurns turns a) := by
  cases a with
  | renewNow now => exact .const ⟨_, rfl⟩
  | op op => exact .const hsucc
  | scan fuel cb =>
      obtain ⟨n, hn⟩ := hfew
      exact scanSecondsTimer_ends hplain hn hsucc h

/-- With enough turns for each loop the run comes to its end. -/
theorem run_ends : ∀ {actions : List Timers.Action} {s : Timers} {L : Fin 5 → List Nat}, Good none s L →
    (∀ a ∈ actions, PlainAction a) → Along FewDueAction s actions → Along SucceedsAction s actions →
    Ends fun turns => s.run (actions.map (withTurns turns))
  | [], s, _, _, _, _, _ => .const ⟨s, rfl⟩
  | a :: actions, s, L, h, hplain, hfew, hsucc => by
      have ha := hplain a List.mem_cons_self
      refine (runAction_ends h ha hfew.1 hsucc.1).bind fun s1 h1 => ?_
      obtain ⟨turns, h1⟩ := h1.exists_eq
      obtain ⟨L1, ev, hg1, -⟩ := runAction_good h (plainAction_withTurns ha) h1
      exact run_ends hg1 (fun a hm => hplain a (List.mem_cons_of_mem _ hm)) (hfew.2 turns s1 h1) (hsucc.2 turns s1 h1)

end Taomee.Timer
