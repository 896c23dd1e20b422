import Taomee.Tlog.Sendlog

/-!
# Bytes per second

The tokens left in a second and the bytes sent in it add up to the limit in force at most, and one
notice is sent at most. Both follow from what a call takes from the tokens and from the notices left.
-/

namespace Taomee.Tlog

/-! ## Seconds of a run -/

/-- The time of a send. -/
def Call.now? : Call → Option Int
  | .setRateLimit _ => none
  | .sendlog now _ _ _ => some now

/-- The bytes of the log that have been sent. -/
def Outcome.bytes : Outcome → Int
  | .log ret => if ret = -1 then 0 else ret
  | .noSocket | .notice | .dropped => 0

def Outcome.notices : Outcome → Nat
  | .notice => 1
  | .noSocket | .log _ | .dropped => 0

/-- The bytes of logs that the calls send at the time `t`. -/
def bytesIn (t : Int) : Sender → List Call → Int
  | _, [] => 0
  | s, call :: calls =>
      (if call.now? = some t then (s.step call).2.elim 0 Outcome.bytes else 0) +
        bytesIn t (s.step call).1 calls

/-- How many notices the calls send at the time `t`. -/
def noticesIn (t : Int) : Sender → List Call → Nat
  | _, [] => 0
  | s, call :: calls =>
      (if call.now? = some t then (s.step call).2.elim 0 Outcome.notices else 0) +
        noticesIn t (s.step call).1 calls

/-- Time does not go back, and `sendto` returns -1 or how much of a log it has sent. -/
structure Timely (calls : List Call) : Prop where
  times : (calls.filterMap Call.now?).Pairwise (· ≤ ·)
  sends : ∀ now len sock ret, .sendlog now len sock ret ∈ calls → -1 ≤ ret ∧ ret ≤ len

theorem bytesIn_cons (t : Int) (s : Sender) (call : Call) (calls : List Call) :
    bytesIn t s (call :: calls) =
      (if call.now? = some t then (s.step call).2.elim 0 Outcome.bytes else 0) +
        bytesIn t (s.step call).1 calls := rfl

theorem noticesIn_cons (t : Int) (s : Sender) (call : Call) (calls : List Call) :
    noticesIn t s (call :: calls) =
      (if call.now? = some t then (s.step call).2.elim 0 Outcome.notices else 0) +
        noticesIn t (s.step call).1 calls := rfl

/-- The tokens are between 0 and the limit. -/
structure RateLimit.Ok (rate : RateLimit) : Prop where
  nonneg : 0 ≤ rate.token
  le : rate.token ≤ rate.limit
  parked : 0 ≤ rate.chgLimit

/-- What the rate control promises of a run. -/
structure Bounded (s : Sender) (calls : List Call) : Prop where
  token : ∀ before after, calls = before ++ after →
    0 ≤ (s.run before).sink.rateLimit.token ∧
      (s.run before).sink.rateLimit.token ≤ (s.run before).sink.rateLimit.limit
  /-- The limit in force in a second is the one after any of its sends that has got a socket. -/
  bytes : ∀ before now len sock ret after, calls = before ++ .sendlog now len sock ret :: after →
    ¬ (s.run before).Blocked now sock →
      bytesIn now s calls ≤ (s.run (before ++ [.sendlog now len sock ret])).sink.rateLimit.limit
  idle : ∀ t, (∀ before len sock ret after, calls = before ++ .sendlog t len sock ret :: after →
    (s.run before).Blocked t sock) → bytesIn t s calls = 0
  notices : ∀ t, noticesIn t s calls ≤ 1

/-! ## One call -/

variable {s : Sender} {now len sock ret : Int} {call : Call} {calls : List Call}

/-- How many notices may still be sent in a second. -/
def Sender.quota (s : Sender) : Nat := if s.isSendOverflow = 0 then 1 else 0

theorem Sender.quota_le (s : Sender) : s.quota ≤ 1 := by
  unfold Sender.quota
  split <;> omega

theorem RateLimit.Ok.control (h : s.sink.rateLimit.Ok) (now : Int) : (s.control now).sink.rateLimit.Ok := by
  obtain ⟨hnonneg, hle, hparked⟩ := h
  unfold Sender.control RateLimit.control
  dsimp only
  by_cases hnow : now ≠ s.sink.rateLimit.lastRateTime
  · rw [if_pos hnow]
    by_cases hchg : s.sink.rateLimit.chgLimit ≠ 0
    · rw [if_pos hchg]
      exact ⟨hparked, Int.le_refl _, Int.le_refl _⟩
    · rw [if_neg hchg]
      exact ⟨Int.le_trans hnonneg hle, Int.le_refl _, hparked⟩
  · rw [if_neg hnow]
    exact ⟨hnonneg, hle, hparked⟩

theorem control_lastRateTime (s : Sender) (now : Int) : (s.control now).sink.rateLimit.lastRateTime = now := by
  unfold Sender.control RateLimit.control
  dsimp only
  by_cases hnow : now ≠ s.sink.rateLimit.lastRateTime
  · rw [if_pos hnow]
  · rw [if_neg hnow]
    exact (not_not.mp hnow).symm

theorem control_of_eq (h : now = s.sink.rateLimit.lastRateTime) : s.control now = s := by
  unfold Sender.control RateLimit.control
  rw [if_neg (not_not_intro h), if_neg (not_not_intro h)]

/-- What a send has taken from the tokens and the notices, if it was not turned back. -/
structure Passed (now : Int) (s s' : Sender) (outcome : Outcome) : Prop where
  ok : s'.sink.rateLimit.Ok
  time : s'.sink.rateLimit.lastRateTime = now
  limit : s'.sink.rateLimit.limit = (s.control now).sink.rateLimit.limit
  tokens : outcome.bytes + s'.sink.rateLimit.token = (s.control now).sink.rateLimit.token
  notices : outcome.notices + s'.quota ≤ (s.control now).quota

/-- A send that leaves the rate control as it was renewed. -/
theorem Passed.of_rate {s' : Sender} {outcome : Outcome} (hok : s.sink.rateLimit.Ok)
    (hrate : s'.sink.rateLimit = (s.control now).sink.rateLimit) (hbytes : outcome.bytes = 0)
    (hnotices : outcome.notices + s'.quota ≤ (s.control now).quota) : Passed now s s' outcome := by
  refine ⟨hrate ▸ hok.control now, ?_, congrArg _ hrate, ?_, hnotices⟩
  · rw [hrate]
    exact control_lastRateTime s now
  · rw [hrate, hbytes, Int.zero_add]

theorem quota_congr {s s' : Sender} (h : s'.isSendOverflow = s.isSendOverflow) : s'.quota = s.quota := by
  unfold Sender.quota
  rw [h]

theorem sendlog_passed (hok : s.sink.rateLimit.Ok) (hret : -1 ≤ ret) (hle : ret ≤ len)
    (hgo : ¬ s.Blocked now sock) :
    Passed now s (sendlogToUdpSink now len sock ret s).1 (sendlogToUdpSink now len sock ret s).2 := by
  have hsends := sendlogToUdpSink_sends now len sock ret s
  generalize (sendlogToUdpSink now len sock ret s).1 = s' at hsends
  generalize (sendlogToUdpSink now len sock ret s).2 = outcome at hsends
  cases hsends with
  | noSocket hblocked => exact absurd hblocked hgo
  | notice _ _ hfirst hrate hflag =>
      refine .of_rate hok hrate rfl ?_
      have hused : s'.quota = 0 := by
        unfold Sender.quota
        rw [hflag]
        rfl
      have hleft : (s.control now).quota = 1 := if_pos hfirst
      rw [hused, hleft]
      exact Nat.le_refl _
  | dropped _ _ hrate hflag =>
      refine .of_rate hok hrate rfl ?_
      rw [quota_congr hflag]
      exact Nat.le_of_eq (Nat.zero_add _)
  | failed _ hminus hrate hflag =>
      refine .of_rate hok hrate (if_pos hminus) ?_
      rw [quota_congr hflag]
      exact Nat.le_of_eq (Nat.zero_add _)
  | log _ hlen hne hrate hflag =>
      obtain ⟨hnonneg, htoken, hparked⟩ := hok.control now
      have htime := control_lastRateTime s now
      have hbytes : (Outcome.log ret).bytes = ret := if_neg hne
      refine ⟨?_, ?_, ?_, ?_, ?_⟩
      · rw [hrate]
        refine ⟨?_, ?_, hparked⟩
        · dsimp only
          omega
        · dsimp only
          omega
      · rw [hrate]
        exact htime
      · rw [hrate]
      · rw [hrate, hbytes]
        dsimp only
        omega
      · rw [quota_congr hflag]
        exact Nat.le_of_eq (Nat.zero_add _)

/-- What a call keeps that is a request, or a send that is turned back. -/
structure Kept (s s' : Sender) (sent : Option Outcome) : Prop where
  bytes : sent.elim 0 Outcome.bytes = 0
  notices : sent.elim 0 Outcome.notices = 0
  quota : s'.quota = s.quota
  token : s'.sink.rateLimit.token = s.sink.rateLimit.token
  limit : s'.sink.rateLimit.limit = s.sink.rateLimit.limit
  time : s'.sink.rateLimit.lastRateTime = s.sink.rateLimit.lastRateTime
  parked : 0 ≤ s.sink.rateLimit.chgLimit → 0 ≤ s'.sink.rateLimit.chgLimit

theorem Kept.ok {s' : Sender} {sent : Option Outcome} (h : Kept s s' sent) (hok : s.sink.rateLimit.Ok) :
    s'.sink.rateLimit.Ok := by
  refine ⟨?_, ?_, h.parked hok.parked⟩
  · rw [h.token]
    exact hok.nonneg
  · rw [h.token, h.limit]
    exact hok.le

theorem sendlog_kept (hblocked : s.Blocked now sock) :
    Kept s (s.step (.sendlog now len sock ret)).1 (s.step (.sendlog now len sock ret)).2 := by
  have hsends := sendlogToUdpSink_sends now len sock ret s
  change Kept s (sendlogToUdpSink now len sock ret s).1 (some (sendlogToUdpSink now len sock ret s).2)
  generalize (sendlogToUdpSink now len sock ret s).1 = s' at hsends
  generalize (sendlogToUdpSink now len sock ret s).2 = outcome at hsends
  cases hsends with
  | noSocket _ hrate hflag =>
      exact ⟨rfl, rfl, quota_congr hflag, by rw [hrate], by rw [hrate], by rw [hrate], fun h => by rw [hrate]; exact h⟩
  | notice hgo => exact absurd hblocked hgo
  | dropped hgo => exact absurd hblocked hgo
  | failed hgo => exact absurd hblocked hgo
  | log hgo => exact absurd hblocked hgo

theorem setRateLimit_kept (s : Sender) (recvbuf : Buf) :
    Kept s (s.step (.setRateLimit recvbuf)).1 (s.step (.setRateLimit recvbuf)).2 := by
  obtain ⟨hflag, hrate⟩ := step_setRateLimit s recvbuf
  have hsent : (s.step (.setRateLimit recvbuf)).2 = none := rfl
  rw [hsent]
  generalize (s.step (.setRateLimit recvbuf)).1 = s' at hflag hrate ⊢
  generalize requestedLimit recvbuf = limit at hrate
  by_cases hreq : InRange limit ∧ limit ≠ s.sink.rateLimit.limit
  · rw [if_pos hreq] at hrate
    refine ⟨rfl, rfl, quota_congr hflag, by rw [hrate], by rw [hrate], by rw [hrate], fun _ => ?_⟩
    have hmin := hreq.1.1
    unfold minRateLimit at hmin
    rw [hrate]
    dsimp only
    omega
  · rw [if_neg hreq] at hrate
    exact ⟨rfl, rfl, quota_congr hflag, by rw [hrate], by rw [hrate], by rw [hrate], fun h => by rw [hrate]; exact h⟩

/-! ## Runs within a second -/

theorem Timely.tail (h : Timely (call :: calls)) : Timely calls := by
  refine ⟨h.times.sublist ?_, fun now len sock ret hmem => h.sends now len sock ret (List.mem_cons_of_mem _ hmem)⟩
  exact (List.sublist_cons_self call calls).filterMap _

/-- Later sends are not earlier in time. -/
theorem Timely.le (h : Timely (.sendlog now len sock ret :: calls)) :
    ∀ t ∈ calls.filterMap Call.now?, now ≤ t := by
  have htimes : (now :: calls.filterMap Call.now?).Pairwise (· ≤ ·) := h.times
  exact fun t ht => List.rel_of_pairwise_cons htimes ht

/-- A call keeps the rate control, or takes from it what it sends. -/
theorem step_cases (hok : s.sink.rateLimit.Ok) (h : Timely (call :: calls)) :
    (Kept s (s.step call).1 (s.step call).2 ∧
      ∀ now len sock ret, call = .sendlog now len sock ret → s.Blocked now sock) ∨
    ∃ now len sock ret outcome, call = .sendlog now len sock ret ∧ ¬ s.Blocked now sock ∧
      (s.step call).2 = some outcome ∧ Passed now s (s.step call).1 outcome := by
  cases call with
  | setRateLimit recvbuf =>
      refine .inl ⟨setRateLimit_kept s recvbuf, fun now len sock ret heq => ?_⟩
      cases heq
  | sendlog now len sock ret =>
      obtain ⟨hret, hle⟩ := h.sends now len sock ret List.mem_cons_self
      by_cases hblocked : s.Blocked now sock
      · refine .inl ⟨sendlog_kept hblocked, fun now' len' sock' ret' heq => ?_⟩
        cases heq
        exact hblocked
      · exact .inr ⟨now, len, sock, ret, _, rfl, hblocked, rfl, sendlog_passed hok hret hle hblocked⟩

theorem step_ok (hok : s.sink.rateLimit.Ok) (h : Timely (call :: calls)) :
    (s.step call).1.sink.rateLimit.Ok := by
  rcases step_cases hok h with ⟨hkept, -⟩ | ⟨now, len, sock, ret, outcome, -, -, -, hpassed⟩
  · exact hkept.ok hok
  · exact hpassed.ok

theorem run_ok (hok : s.sink.rateLimit.Ok) {after : List Call} (h : Timely (calls ++ after)) :
    (s.run calls).sink.rateLimit.Ok := by
  induction calls generalizing s with
  | nil => exact hok
  | cons call calls ih => exact ih (step_ok hok h) h.tail

/-- Nothing is sent at a time of no send. -/
theorem sent_eq_zero {t : Int} (s : Sender) (h : t ∉ calls.filterMap Call.now?) :
    bytesIn t s calls = 0 ∧ noticesIn t s calls = 0 := by
  induction calls generalizing s with
  | nil => exact ⟨rfl, rfl⟩
  | cons call calls ih =>
      have hother : call.now? ≠ some t := fun heq => h (List.mem_filterMap.mpr ⟨call, List.mem_cons_self, heq⟩)
      have hrest : t ∉ calls.filterMap Call.now? := by
        intro hmem
        obtain ⟨call', hmem', heq⟩ := List.mem_filterMap.mp hmem
        exact h (List.mem_filterMap.mpr ⟨call', List.mem_cons_of_mem _ hmem', heq⟩)
      obtain ⟨hbytes, hnotices⟩ := ih (s.step call).1 hrest
      rw [bytesIn_cons, noticesIn_cons, if_neg hother, if_neg hother, hbytes, hnotices]
      exact ⟨rfl, rfl⟩

/-- A call that keeps the rate control sends nothing that counts. -/
theorem Kept.sent {t : Int} (h : Kept s (s.step call).1 (s.step call).2) :
    bytesIn t s (call :: calls) = bytesIn t (s.step call).1 calls ∧
      noticesIn t s (call :: calls) = noticesIn t (s.step call).1 calls := by
  rw [bytesIn_cons, noticesIn_cons, h.bytes, h.notices, ite_self, ite_self, Int.zero_add, Nat.zero_add]
  exact ⟨rfl, rfl⟩

theorem mem_times {t : Int} (h : t ∈ calls.filterMap Call.now?) : t ∈ (call :: calls).filterMap Call.now? :=
  ((List.sublist_cons_self call calls).filterMap _).subset h

theorem now_mem (before after : List Call) (now len sock ret : Int) :
    now ∈ (before ++ .sendlog now len sock ret :: after).filterMap Call.now? :=
  List.mem_filterMap.mpr ⟨.sendlog now len sock ret, List.mem_append_right _ List.mem_cons_self, rfl⟩

/-- The rest of a second takes at most the tokens and the notices that are left, and the limit stays. -/
theorem same_second {t : Int} (hok : s.sink.rateLimit.Ok) (h : Timely calls)
    (htime : s.sink.rateLimit.lastRateTime = t) (hle : ∀ t' ∈ calls.filterMap Call.now?, t ≤ t') :
    bytesIn t s calls ≤ s.sink.rateLimit.token ∧ noticesIn t s calls ≤ s.quota ∧
      ∀ before len sock ret after, calls = before ++ .sendlog t len sock ret :: after →
        (s.run (before ++ [.sendlog t len sock ret])).sink.rateLimit.limit = s.sink.rateLimit.limit := by
  induction calls generalizing s with
  | nil =>
      refine ⟨hok.nonneg, Nat.zero_le _, fun before len sock ret after heq => ?_⟩
      cases before <;> cases heq
  | cons call calls ih =>
      have hok' := step_ok hok h
      have hle' : ∀ t' ∈ calls.filterMap Call.now?, t ≤ t' := fun t' ht' => hle t' (mem_times ht')
      rcases step_cases hok h with ⟨hkept, -⟩ | ⟨now, len, sock, ret, outcome, rfl, hgo, hsent, hpassed⟩
      · obtain ⟨hbytes, hnotices, hlimit⟩ := ih hok' h.tail (hkept.time.trans htime) hle'
        rw [hkept.sent.1, hkept.sent.2]
        refine ⟨hkept.token ▸ hbytes, hkept.quota ▸ hnotices, fun before len sock ret after heq => ?_⟩
        cases before with
        | nil =>
            obtain ⟨rfl, rfl⟩ := List.cons.inj heq
            exact hkept.limit
        | cons first before =>
            obtain ⟨rfl, rfl⟩ := List.cons.inj heq
            exact (hlimit before len sock ret after rfl).trans hkept.limit
      · have htnow : t ≤ now := hle now (now_mem [] calls now len sock ret)
        have hnow : Call.now? (.sendlog now len sock ret) = some now := rfl
        rw [bytesIn_cons, noticesIn_cons, hsent, hnow]
        by_cases heq : now = t
        · have hctrl := control_of_eq (heq.trans htime.symm)
          obtain ⟨-, htime', hlimit', htokens, hquota⟩ := hpassed
          rw [hctrl] at hlimit' htokens hquota
          obtain ⟨hbytes, hnotices, hlimit⟩ := ih hok' h.tail (htime'.trans heq) hle'
          rw [if_pos (congrArg some heq), if_pos (congrArg some heq)]
          refine ⟨?_, ?_, fun before len sock ret after hsplit => ?_⟩
          · rw [← htokens]
            exact Int.add_le_add_left hbytes _
          · exact Nat.le_trans (Nat.add_le_add_left hnotices _) hquota
          · cases before with
            | nil =>
                obtain ⟨hcall, rfl⟩ := List.cons.inj hsplit
                rw [List.nil_append, ← hcall]
                exact hlimit'
            | cons first before =>
                obtain ⟨rfl, rfl⟩ := List.cons.inj hsplit
                exact (hlimit before len sock ret after rfl).trans hlimit'
        · have hlater : t ∉ calls.filterMap Call.now? := by
            intro hmem
            have hback := h.le t hmem
            omega
          obtain ⟨hbytes, hnotices⟩ := sent_eq_zero (s.step (.sendlog now len sock ret)).1 hlater
          have hne : some now ≠ some t := fun hs => heq (Option.some.inj hs)
          rw [if_neg hne, if_neg hne, hbytes, hnotices]
          refine ⟨hok.nonneg, Nat.zero_le _, fun before len sock ret after hsplit => ?_⟩
          cases before with
          | nil =>
              obtain ⟨hcall, -⟩ := List.cons.inj hsplit
              exact absurd (Call.sendlog.inj hcall).1 heq
          | cons first before =>
              obtain ⟨-, rfl⟩ := List.cons.inj hsplit
              exact absurd (now_mem before after t len sock ret) hlater

/-! ## Runs -/

/-- The first send of a second that gets a socket has the whole second before it. -/
theorem first_send {outcome : Outcome} (hok : s.sink.rateLimit.Ok) (h : Timely (.sendlog now len sock ret :: calls))
    (hsent : (s.step (.sendlog now len sock ret)).2 = some outcome)
    (hpassed : Passed now s (s.step (.sendlog now len sock ret)).1 outcome) :
    let s' := (s.step (.sendlog now len sock ret)).1
    bytesIn now s (.sendlog now len sock ret :: calls) ≤ s'.sink.rateLimit.limit ∧
      noticesIn now s (.sendlog now len sock ret :: calls) ≤ 1 ∧
      ∀ before len' sock' ret' after, calls = before ++ .sendlog now len' sock' ret' :: after →
        (s'.run (before ++ [.sendlog now len' sock' ret'])).sink.rateLimit.limit = s'.sink.rateLimit.limit := by
  intro s'
  obtain ⟨hbytes, hnotices, hlimit⟩ := same_second hpassed.ok h.tail hpassed.time h.le
  have hnow : Call.now? (.sendlog now len sock ret) = some now := rfl
  refine ⟨?_, ?_, hlimit⟩
  · rw [bytesIn_cons, hsent, hnow, if_pos rfl]
    calc outcome.bytes + bytesIn now s' calls ≤ outcome.bytes + s'.sink.rateLimit.token :=
          Int.add_le_add_left hbytes _
      _ = (s.control now).sink.rateLimit.token := hpassed.tokens
      _ ≤ (s.control now).sink.rateLimit.limit := (hok.control now).le
      _ = s'.sink.rateLimit.limit := hpassed.limit.symm
  · rw [noticesIn_cons, hsent, hnow, if_pos rfl]
    calc outcome.notices + noticesIn now s' calls ≤ outcome.notices + s'.quota :=
          Nat.add_le_add_left hnotices _
      _ ≤ (s.control now).quota := hpassed.notices
      _ ≤ 1 := (s.control now).quota_le

theorem other_second {t : Int} (h : now ≠ t) :
    let s' := (s.step (.sendlog now len sock ret)).1
    bytesIn t s (.sendlog now len sock ret :: calls) = bytesIn t s' calls ∧
      noticesIn t s (.sendlog now len sock ret :: calls) = noticesIn t s' calls := by
  have hother : Call.now? (.sendlog now len sock ret) ≠ some t := fun hs => h (Option.some.inj hs)
  rw [bytesIn_cons, noticesIn_cons, if_neg hother, if_neg hother, Int.zero_add, Nat.zero_add]
  exact ⟨rfl, rfl⟩

theorem noticesIn_le (hok : s.sink.rateLimit.Ok) (h : Timely calls) (t : Int) : noticesIn t s calls ≤ 1 := by
  induction calls generalizing s with
  | nil => exact Nat.zero_le _
  | cons call calls ih =>
      have hrest := ih (step_ok hok h) h.tail
      rcases step_cases hok h with ⟨hkept, -⟩ | ⟨now, len, sock, ret, outcome, rfl, hgo, hsent, hpassed⟩
      · rw [hkept.sent.2]
        exact hrest
      · by_cases heq : now = t
        · rw [← heq]
          exact (first_send hok h hsent hpassed).2.1
        · rw [(other_second heq).2]
          exact hrest

theorem bytesIn_idle {t : Int} (hok : s.sink.rateLimit.Ok) (h : Timely calls)
    (hblocked : ∀ before len sock ret after, calls = before ++ .sendlog t len sock ret :: after →
      (s.run before).Blocked t sock) : bytesIn t s calls = 0 := by
  induction calls generalizing s with
  | nil => rfl
  | cons call calls ih =>
      have hrest := ih (step_ok hok h) h.tail fun before len sock ret after heq =>
        hblocked (call :: before) len sock ret after (by rw [heq, List.cons_append])
      rcases step_cases hok h with ⟨hkept, -⟩ | ⟨now, len, sock, ret, outcome, rfl, hgo, -, -⟩
      · rw [hkept.sent.1]
        exact hrest
      · have heq : now ≠ t := by
          rintro rfl
          exact hgo (hblocked [] len sock ret calls rfl)
        rw [(other_second heq).1]
        exact hrest

theorem bytesIn_le {before after : List Call} (hok : s.sink.rateLimit.Ok)
    (h : Timely (before ++ .sendlog now len sock ret :: after)) (hgo : ¬ (s.run before).Blocked now sock) :
    bytesIn now s (before ++ .sendlog now len sock ret :: after) ≤
      (s.run (before ++ [.sendlog now len sock ret])).sink.rateLimit.limit := by
  induction before generalizing s with
  | nil =>
      rcases step_cases hok h with ⟨-, hblocked⟩ | ⟨now', len', sock', ret', outcome, heq, -, hsent, hpassed⟩
      · exact absurd (hblocked now len sock ret rfl) hgo
      · cases heq
        exact (first_send hok h hsent hpassed).1
  | cons call before ih =>
      have hrest := ih (step_ok hok h) h.tail hgo
      rw [List.cons_append] at h ⊢
      rcases step_cases hok h with ⟨hkept, -⟩ | ⟨now', len', sock', ret', outcome, rfl, -, hsent, hpassed⟩
      · rw [hkept.sent.1]
        exact hrest
      · by_cases heq : now' = now
        · subst heq
          obtain ⟨hbytes, -, hlimit⟩ := first_send hok h hsent hpassed
          have hsame := hlimit before len sock ret after rfl
          exact Int.le_trans hbytes (Int.le_of_eq hsame.symm)
        · rw [(other_second heq).1]
          exact hrest

/-- In every run whose tokens are between 0 and the limit at first, they stay there, the log data sent
in a second is at most the limit in force, and one notice is sent in a second at most. -/
theorem run_bounded (s : Sender) (calls : List Call) (hok : s.sink.rateLimit.Ok) (h : Timely calls) :
    Bounded s calls := by
  refine ⟨fun before after heq => ?_, fun before now len sock ret after heq hgo => ?_,
    fun t hblocked => bytesIn_idle hok h hblocked, noticesIn_le hok h⟩
  · have hrun : (s.run before).sink.rateLimit.Ok := run_ok hok (heq ▸ h)
    exact ⟨hrun.nonneg, hrun.le⟩
  · subst heq
    exact bytesIn_le hok h hgo

/-- Two logs in one second, the second of which is too long for the tokens that are left. -/
theorem run_bounded_sample :
    Bounded startSender [.sendlog 1000 131000 3 131000, .sendlog 1000 131000 3 131000] :=
  run_bounded _ _ ⟨by decide, by decide, by decide⟩
    ⟨by decide, fun now len sock ret hmem => by
      simp only [List.mem_cons, Call.sendlog.injEq, List.not_mem_nil, or_false, or_self] at hmem
      omega⟩

end Taomee.Tlog
