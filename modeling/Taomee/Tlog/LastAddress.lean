import Taomee.Tlog.Handoff

/-!
# Sends after the last change

A change of the address reaches the logging thread unless its flag is set while that thread is about to
clear the flag of an earlier change. Then the address is lost for all later sends.
-/

namespace Taomee.Tlog

/-! ## The sink -/

variable {a : Addr} {sink : UdpSink} {s : Handoff} {sched : List Thread} {reqs : List Addr}

/-- The address is the one that is set. -/
def UdpSink.Shows (sink : UdpSink) (a : Addr) : Prop := CStr sink.ip 0 a.ip ∧ sink.port = a.port

theorem Addr.copied (a : Addr) (dst : Buf) : CStr (dst.snprintfStr 0 a.buf 0 (inetAddrstrlen - 1)) 0 a.ip := by
  have hlen := (inetPton_string a.valid).2.1
  exact a.cstr.snprintfStr (by unfold inetAddrstrlen; omega)

theorem UdpSink.Shows.toaddr (h : sink.Shows a) : (updateUdpSinkSockaddr sink).1.toaddr = a.sockaddr := by
  obtain ⟨hip, hport⟩ := h
  have hlen := (inetPton_string a.valid).2.1
  unfold updateUdpSinkSockaddr
  dsimp only
  rw [hip.cstr (by unfold inetAddrstrlen; omega), a.valid, hport]
  rfl

theorem UdpSink.Shows.current_iff (h : sink.Shows a) : sink.Current ↔ sink.toaddr = a.sockaddr := by
  unfold UdpSink.Current
  rw [h.toaddr]
  exact eq_comm

theorem current_addrChanged (sink : UdpSink) (n : Int) :
    ({ sink with addrChanged := n } : UdpSink).Current ↔ sink.Current := by
  unfold UdpSink.Current updateUdpSinkSockaddr
  dsimp only
  cases inetPton (sink.ip.cstr inetAddrstrlen 0) with
  | some addr => exact Iff.rfl
  | none => exact Iff.rfl

theorem current_updateUdpSinkSockaddr (sink : UdpSink) : (updateUdpSinkSockaddr sink).1.Current := by
  unfold UdpSink.Current updateUdpSinkSockaddr
  dsimp only
  cases h : inetPton (sink.ip.cstr inetAddrstrlen 0) with
  | some addr =>
      dsimp only
      rw [h]
  | none =>
      dsimp only
      rw [h]

/-! ## The control thread -/

/-- What holds between the steps: the requests done so far are in the sink, as far as the current one
has been written, and the flag is set while the logging thread copies. -/
structure Handoff.Inv (reqs : List Addr) (s : Handoff) : Prop where
  done : ∃ done, reqs = done ++ s.requests ∧ (s.control = .test → ∀ a, done.getLast? = some a → s.sink.Shows a)
  idle : s.requests = [] → s.control = .test
  ip : s.control = .writePort → ∀ a rest, s.requests = a :: rest → CStr s.sink.ip 0 a.ip
  shows : s.control = .setChanged → ∀ a rest, s.requests = a :: rest → s.sink.Shows a
  flag : s.logging = .copy ∨ s.logging = .clear → s.sink.addrChanged ≠ 0

namespace Handoff

/-- A request for the address that is set changes nothing, since the strings are equal. -/
theorem shows_of_same (h : sink.port = a.port ∧ sink.ip.strncmpEq 0 a.buf 0 inetAddrstrlen = true) : sink.Shows a := by
  have hlen := (inetPton_string a.valid).2.1
  exact ⟨a.cstr.of_strncmpEq hlen h.2, h.1⟩

theorem inv_start (reqs : List Addr) : Inv reqs (start reqs) where
  done := ⟨[], rfl, fun _ _ h => nomatch h⟩
  idle := fun _ => rfl
  ip := fun h => nomatch h
  shows := fun h => nomatch h
  flag := fun h => h.elim (fun h => nomatch h) (fun h => nomatch h)

theorem stepControl_inv (h : Inv reqs s) : Inv reqs s.stepControl := by
  obtain ⟨⟨done, hreqs, hdone⟩, hidle, hip, hshows, hflag⟩ := h
  obtain ⟨sink, requests, control, logging⟩ := s
  dsimp only at hreqs hdone hidle hip hshows hflag
  cases requests with
  | nil => exact ⟨⟨done, hreqs, hdone⟩, hidle, hip, hshows, hflag⟩
  | cons a rest =>
      have hnext : reqs = (done ++ [a]) ++ rest := by
        rw [hreqs, List.append_assoc]
        rfl
      have hlast : ∀ b, (done ++ [a]).getLast? = some b → a = b := by
        intro b hb
        rw [List.getLast?_concat] at hb
        exact Option.some.inj hb
      cases control with
      | test =>
          unfold stepControl
          dsimp only
          split
          · rename_i hsame
            exact ⟨⟨done ++ [a], hnext, fun _ b hb => hlast b hb ▸ shows_of_same hsame⟩, fun _ => rfl,
              fun h => (nomatch h), fun h => (nomatch h), hflag⟩
          · exact ⟨⟨done, hreqs, fun h => (nomatch h)⟩, fun h => (nomatch h), fun h => (nomatch h), fun h => (nomatch h),
              hflag⟩
      | writeIp =>
          refine ⟨⟨done, hreqs, fun h => (nomatch h)⟩, fun h => (nomatch h), fun _ b rest' hb => ?_,
            fun h => (nomatch h), hflag⟩
          obtain ⟨rfl, -⟩ := List.cons.inj hb
          exact a.copied sink.ip
      | writePort =>
          refine ⟨⟨done, hreqs, fun h => (nomatch h)⟩, fun h => (nomatch h), fun h => (nomatch h),
            fun _ b rest' hb => ?_, hflag⟩
          obtain ⟨rfl, -⟩ := List.cons.inj hb
          exact ⟨hip rfl a rest rfl, rfl⟩
      | setChanged =>
          exact ⟨⟨done ++ [a], hnext, fun _ b hb => hlast b hb ▸ hshows rfl a rest rfl⟩, fun _ => rfl,
            fun h => (nomatch h), fun h => (nomatch h), fun _ => Int.one_ne_zero⟩

/-! ## The logging thread -/

/-- The logging thread leaves the address that is set, and what the control thread does. -/
structure SameControl (s s' : Handoff) : Prop where
  ip : s'.sink.ip = s.sink.ip
  port : s'.sink.port = s.sink.port
  requests : s'.requests = s.requests
  control : s'.control = s.control

theorem stepLogging_same (s : Handoff) : SameControl s s.stepLogging := by
  unfold stepLogging
  cases s.logging with
  | test =>
      dsimp only
      split
      · exact ⟨rfl, rfl, rfl, rfl⟩
      · exact ⟨rfl, rfl, rfl, rfl⟩
  | copy =>
      obtain ⟨toaddr, heq⟩ := updateUdpSinkSockaddr_eq s.sink
      dsimp only
      rw [heq]
      exact ⟨rfl, rfl, rfl, rfl⟩
  | clear => exact ⟨rfl, rfl, rfl, rfl⟩
  | send => exact ⟨rfl, rfl, rfl, rfl⟩

theorem SameControl.shows {s' : Handoff} (h : SameControl s s') : s'.sink.Shows a ↔ s.sink.Shows a := by
  unfold UdpSink.Shows
  rw [h.ip, h.port]

theorem stepLogging_flag (h : s.logging = .copy ∨ s.logging = .clear → s.sink.addrChanged ≠ 0) :
    s.stepLogging.logging = .copy ∨ s.stepLogging.logging = .clear → s.stepLogging.sink.addrChanged ≠ 0 := by
  unfold stepLogging
  cases hl : s.logging with
  | test =>
      dsimp only
      split
      · rename_i hset
        exact fun _ => hset
      · exact fun h => h.elim (fun h => nomatch h) (fun h => nomatch h)
  | copy =>
      obtain ⟨toaddr, heq⟩ := updateUdpSinkSockaddr_eq s.sink
      dsimp only
      rw [heq]
      exact fun _ => h (.inl hl)
  | clear => exact fun h => h.elim (fun h => nomatch h) (fun h => nomatch h)
  | send => exact fun h => h.elim (fun h => nomatch h) (fun h => nomatch h)

theorem step_inv (t : Thread) (h : Inv reqs s) : Inv reqs (step t s) := by
  cases t with
  | control => exact stepControl_inv h
  | logging =>
      have hsame := stepLogging_same s
      obtain ⟨done, hreqs, hdone⟩ := h.done
      refine ⟨⟨done, ?_, fun hc b hb => ?_⟩, fun hr => ?_, fun hc b rest hr => ?_, fun hc b rest hr => ?_,
        stepLogging_flag h.flag⟩
      · exact hreqs.trans (by rw [← hsame.requests]; rfl)
      · exact hsame.shows.mpr (hdone (hsame.control.symm.trans hc) b hb)
      · exact hsame.control.trans (h.idle (hsame.requests.symm.trans hr))
      · exact hsame.ip.symm ▸ h.ip (hsame.control.symm.trans hc) b rest (hsame.requests.symm.trans hr)
      · exact hsame.shows.mpr (h.shows (hsame.control.symm.trans hc) b rest (hsame.requests.symm.trans hr))

theorem run_inv (sched : List Thread) (h : Inv reqs s) : Inv reqs (run sched s) := by
  induction sched generalizing s with
  | nil => exact h
  | cons t sched ih => exact ih (step_inv t h)

/-- The logging thread keeps the state good or not. -/
theorem stepLogging_good (hflag : s.logging = .copy ∨ s.logging = .clear → s.sink.addrChanged ≠ 0) :
    Good s.stepLogging ↔ Good s := by
  unfold stepLogging Good
  cases hl : s.logging with
  | test =>
      dsimp only
      split
      · simp
      · rename_i hclear
        simp [hclear]
  | copy =>
      have hset := hflag (.inl hl)
      simp [current_updateUdpSinkSockaddr, hset]
  | clear =>
      simp [current_addrChanged]
  | send => simp

/-! ## The last change -/

/-- Between requests the control thread leaves the sink. -/
theorem stepControl_test (h : s.control = .test) :
    s.stepControl.sink = s.sink ∧ s.stepControl.logging = s.logging := by
  unfold stepControl
  cases hr : s.requests with
  | nil => exact ⟨rfl, rfl⟩
  | cons a rest =>
      rw [h]
      dsimp only
      split
      · exact ⟨rfl, rfl⟩
      · exact ⟨rfl, rfl⟩

theorem no_change_cons {t : Thread} (h : lastChange (t :: sched) s = none) :
    lastChange sched (step t s) = none ∧ ¬ (t = .control ∧ s.control = .setChanged) := by
  unfold lastChange at h
  obtain ⟨hlater, hthis⟩ := Option.or_eq_none_iff.mp h
  refine ⟨hlater, fun hset => ?_⟩
  rw [if_pos hset] at hthis
  cases hthis

theorem change_cons {t : Thread} {s₀ : Handoff} (h : lastChange (t :: sched) s = some s₀) :
    lastChange sched (step t s) = some s₀ ∨
      (lastChange sched (step t s) = none ∧ t = .control ∧ s.control = .setChanged ∧ s₀ = s) := by
  unfold lastChange at h
  cases hlater : lastChange sched (step t s) with
  | some s' =>
      rw [hlater] at h
      exact .inl h
  | none =>
      rw [hlater, Option.none_or] at h
      split at h
      · rename_i hset
        exact .inr ⟨rfl, hset.1, hset.2, (Option.some.inj h).symm⟩
      · cases h

/-- A control thread that comes to its end without setting the flag is between requests. -/
theorem test_of_no_change (hinv : Inv reqs s) (hfin : (run sched s).requests = [])
    (hnone : lastChange sched s = none) : s.control = .test := by
  induction sched generalizing s with
  | nil => exact hinv.idle hfin
  | cons t sched ih =>
      obtain ⟨hlater, hset⟩ := no_change_cons hnone
      have htest : (step t s).control = .test := ih (step_inv t hinv) hfin hlater
      cases t with
      | logging => exact (stepLogging_same s).control.symm.trans htest
      | control =>
          replace htest : s.stepControl.control = .test := htest
          unfold stepControl at htest
          cases hr : s.requests with
          | nil => exact hinv.idle hr
          | cons a rest =>
              rw [hr] at htest
              cases hc : s.control with
              | test => rfl
              | writeIp =>
                  rw [hc] at htest
                  cases htest
              | writePort =>
                  rw [hc] at htest
                  cases htest
              | setChanged => exact absurd ⟨rfl, hc⟩ hset

theorem run_of_no_change (hinv : Inv reqs s) (hfin : (run sched s).requests = [])
    (hnone : lastChange sched s = none) : (Good (run sched s) ↔ Good s) ∧ (run sched s).sink.port = s.sink.port := by
  induction sched generalizing s with
  | nil => exact ⟨Iff.rfl, rfl⟩
  | cons t sched ih =>
      obtain ⟨hlater, -⟩ := no_change_cons hnone
      obtain ⟨hgood, hport⟩ := ih (step_inv t hinv) hfin hlater
      cases t with
      | logging =>
          exact ⟨hgood.trans (stepLogging_good hinv.flag), hport.trans (stepLogging_same s).port⟩
      | control =>
          obtain ⟨hsink, hlog⟩ := stepControl_test (test_of_no_change hinv hfin hnone)
          refine ⟨hgood.trans ?_, hport.trans (congrArg UdpSink.port hsink)⟩
          unfold Good
          rw [show (step .control s).sink = s.sink from hsink, show (step .control s).logging = s.logging from hlog]

/-- The state at the end is good if the last change has not been overtaken. -/
theorem good_iff_not_overtaken {s₀ : Handoff} (hinv : Inv reqs s) (hfin : (run sched s).requests = [])
    (hlast : lastChange sched s = some s₀) : Good (run sched s) ↔ ¬ Overtaken s₀ := by
  induction sched generalizing s with
  | nil => cases hlast
  | cons t sched ih =>
      rcases change_cons hlast with hlater | ⟨hnone, rfl, hset, rfl⟩
      · exact ih (step_inv t hinv) hfin hlater
      · refine (run_of_no_change (step_inv .control hinv) hfin hnone).1.trans ?_
        have hreq : s₀.requests ≠ [] := by
          intro hr
          have htest := hinv.idle hr
          rw [hset] at htest
          cases htest
        obtain ⟨a, rest, hr⟩ := List.exists_cons_of_ne_nil hreq
        have hstep : step .control s₀ =
            { s₀ with sink := { s₀.sink with addrChanged := 1 }, control := .test, requests := rest } := by
          show s₀.stepControl = _
          unfold stepControl
          rw [hr, hset]
        rw [hstep]
        unfold Good Overtaken
        dsimp only
        rw [current_addrChanged, not_and, not_not]
        constructor
        · rintro (hcur | ⟨-, hclear⟩) hclear'
          · exact hcur
          · exact absurd hclear' hclear
        · intro hcur
          by_cases hclear : s₀.logging = .clear
          · exact .inl (hcur hclear)
          · exact .inr ⟨Int.one_ne_zero, hclear⟩

/-! ## Sends -/

/-- The control thread has come to its end with this address. -/
structure Settled (a : Addr) (s : Handoff) : Prop where
  requests : s.requests = []
  shows : s.sink.Shows a
  flag : s.logging = .copy ∨ s.logging = .clear → s.sink.addrChanged ≠ 0

theorem Settled.stepControl (h : Settled a s) : s.stepControl = s := by
  unfold Handoff.stepControl
  rw [h.requests]

theorem Settled.step (h : Settled a s) (t : Thread) : Settled a (step t s) := by
  cases t with
  | control =>
      show Settled a s.stepControl
      rw [h.stepControl]
      exact h
  | logging =>
      have hsame := stepLogging_same s
      exact ⟨hsame.requests.trans h.requests, hsame.shows.mpr h.shows, stepLogging_flag h.flag⟩

theorem Settled.run (h : Settled a s) (sched : List Thread) : Settled a (run sched s) := by
  induction sched generalizing s with
  | nil => exact h
  | cons t sched ih => exact ih (h.step t)

theorem Settled.run_good (h : Settled a s) (hgood : Good s) (sched : List Thread) :
    Good (Handoff.run sched s) := by
  induction sched generalizing s with
  | nil => exact hgood
  | cons t sched ih =>
      refine ih (h.step t) ?_
      cases t with
      | control =>
          show Good s.stepControl
          rw [h.stepControl]
          exact hgood
      | logging => exact (stepLogging_good h.flag).mpr hgood

/-- The send of the present call goes to the address that is set. -/
def Coming (s : Handoff) : Prop :=
  s.sink.Current ∨ (s.sink.addrChanged ≠ 0 ∧ (s.logging = .test ∨ s.logging = .copy))

theorem stepLogging_coming (h : Coming s) : Coming s.stepLogging := by
  unfold stepLogging Coming
  cases hl : s.logging with
  | test =>
      dsimp only
      rcases h with hcur | ⟨hset, -⟩
      · split
        · exact .inl hcur
        · exact .inl hcur
      · rw [if_pos hset]
        exact .inr ⟨hset, .inr rfl⟩
  | copy => exact .inl (current_updateUdpSinkSockaddr _)
  | clear =>
      rcases h with hcur | ⟨-, htest | hcopy⟩
      · exact .inl ((current_addrChanged _ _).mpr hcur)
      · rw [hl] at htest
        cases htest
      · rw [hl] at hcopy
        cases hcopy
  | send =>
      rcases h with hcur | ⟨hset, -⟩
      · exact .inl hcur
      · exact .inr ⟨hset, .inl rfl⟩

theorem Settled.run_coming (h : Settled a s) (hcoming : Coming s) (sched : List Thread) :
    Coming (Handoff.run sched s) := by
  induction sched generalizing s with
  | nil => exact hcoming
  | cons t sched ih =>
      refine ih (h.step t) ?_
      cases t with
      | control =>
          show Coming s.stepControl
          rw [h.stepControl]
          exact hcoming
      | logging => exact stepLogging_coming hcoming

/-- Once the address has been lost, the next call sends to another one. -/
theorem exists_wrong_send (h : Settled a s) (hbad : ¬ Good s) :
    ∃ later later', (Handoff.run later s).logging = .test ∧
      (Handoff.run later' (Handoff.run later s)).logging = .send ∧
      (Handoff.run later' (Handoff.run later s)).sink.toaddr ≠ a.sockaddr := by
  obtain ⟨hcur, hflag⟩ := not_or.mp hbad
  have haddr : s.sink.toaddr ≠ a.sockaddr := fun heq => hcur (h.shows.current_iff.mpr heq)
  have hclear : s.logging ≠ .clear → s.sink.addrChanged = 0 := fun hl =>
    Decidable.not_not.mp fun hset => hflag ⟨hset, hl⟩
  obtain ⟨sink, requests, control, logging⟩ := s
  have hstep : sink.addrChanged = 0 →
      stepLogging ⟨sink, requests, control, .test⟩ = ⟨sink, requests, control, .send⟩ :=
    fun hzero => if_neg (not_not.mpr hzero)
  cases logging with
  | test =>
      refine ⟨[], [.logging], rfl, ?_⟩
      show (stepLogging ⟨sink, requests, control, .test⟩).logging = .send ∧
        (stepLogging ⟨sink, requests, control, .test⟩).sink.toaddr ≠ _
      rw [hstep (hclear fun h => nomatch h)]
      exact ⟨rfl, haddr⟩
  | copy => exact absurd (hclear fun h => nomatch h) (h.flag (.inl rfl))
  | clear => exact ⟨[.logging, .logging], [.logging], rfl, rfl, haddr⟩
  | send =>
      refine ⟨[.logging], [.logging], rfl, ?_⟩
      show (stepLogging ⟨sink, requests, control, .test⟩).logging = .send ∧
        (stepLogging ⟨sink, requests, control, .test⟩).sink.toaddr ≠ _
      rw [hstep (hclear fun h => nomatch h)]
      exact ⟨rfl, haddr⟩

theorem sendsTo_iff_good (h : Settled a s) : SendsTo a s ↔ Good s := by
  constructor
  · intro hsends
    by_contra hbad
    obtain ⟨later, later', htest, hsend, hne⟩ := exists_wrong_send h hbad
    exact hne (hsends later later' htest hsend)
  · intro hgood later later' htest hsend
    have hsettled := h.run later
    have hcoming : Coming (Handoff.run later s) := by
      rcases h.run_good hgood later with hcur | ⟨hset, -⟩
      · exact .inl hcur
      · exact .inr ⟨hset, .inl htest⟩
    rcases hsettled.run_coming hcoming later' with hcur | ⟨-, htest' | hcopy⟩
    · exact (hsettled.run later').shows.current_iff.mp hcur
    · rw [hsend] at htest'
      cases htest'
    · rw [hsend] at hcopy
      cases hcopy

theorem settled_run_start (hlast : reqs.getLast? = some a) (hfin : (run sched (start reqs)).requests = []) :
    Settled a (run sched (start reqs)) := by
  have hinv := run_inv sched (inv_start reqs)
  obtain ⟨done, hreqs, hdone⟩ := hinv.done
  rw [hfin, List.append_nil] at hreqs
  exact ⟨hfin, hdone (hinv.idle hfin) a (hreqs ▸ hlast), hinv.flag⟩

/-- Once the control thread has finished, all sends that start afterwards go to the last address if and
only if the flag was not set for the last time while the logging thread was about to clear it with
another address copied. -/
theorem sendsTo_iff_not_overtaken (reqs : List Addr) (sched : List Thread) (last : Addr)
    (hlast : reqs.getLast? = some last) (hfin : (run sched (start reqs)).requests = []) :
    SendsTo last (run sched (start reqs)) ↔
      ∀ s, lastChange sched (start reqs) = some s → ¬ Overtaken s := by
  have hsettled := settled_run_start hlast hfin
  rw [sendsTo_iff_good hsettled]
  cases hchange : lastChange sched (start reqs) with
  | none =>
      have hport := (run_of_no_change (inv_start reqs) hfin hchange).2
      rw [hsettled.shows.2] at hport
      exact absurd hport (Nat.pos_iff_ne_zero.mp last.port_pos)
  | some s =>
      rw [good_iff_not_overtaken (inv_start reqs) hfin hchange]
      simp

/-! ## A lost address -/

/-- `10.0.0.1`, port 1. -/
def firstAddr : Addr where
  ip := [49, 48, 46, 48, 46, 48, 46, 49]
  port := 1
  sinAddr := 10 + 2 ^ 24
  valid := by decide
  port_pos := by decide
  port_lt := by decide

/-- `10.0.0.1`, port 2. -/
def secondAddr : Addr := { firstAddr with port := 2, port_pos := by decide, port_lt := by decide }

theorem sendsTo_firstAddr : SendsTo firstAddr (run (List.replicate 4 .control) (start [firstAddr])) :=
  (sendsTo_iff_not_overtaken [firstAddr] (List.replicate 4 .control) firstAddr rfl rfl).mpr (by
    intro s hs
    obtain rfl := Option.some.inj hs
    exact fun hover => nomatch hover.1)

/-- The second address is set after the first one has been copied, and before the flag is cleared. -/
def lostUpdate : List Thread :=
  List.replicate 4 .control ++ [.logging, .logging] ++ List.replicate 4 .control ++ [.logging]

theorem not_sendsTo : ¬ ∀ (reqs : List Addr) (sched : List Thread) (last : Addr), reqs.getLast? = some last →
    (run sched (start reqs)).requests = [] → SendsTo last (run sched (start reqs)) := by
  intro h
  have hsends := h [firstAddr, secondAddr] lostUpdate secondAddr rfl rfl [.logging] [.logging] rfl rfl
  exact absurd (congrArg SockaddrIn.sinPort hsends) (by decide)

end Handoff

end Taomee.Tlog
