import Taomee.Tlog.Sendlog
import Mathlib.Data.List.Induction

/-!
# The last requested limit

A request is parked until the next second, unless it asks for the limit that is in force. Such a request
is ignored even when another value is parked, which then comes into force instead of it.
-/

namespace Taomee.Tlog

/-! ## Requests and seconds -/

/-- The limit that a call requests, when it is accepted. -/
def Call.request? : Call → Option Int
  | .setRateLimit recvbuf => if InRange (requestedLimit recvbuf) then some (requestedLimit recvbuf) else none
  | .sendlog _ _ _ _ => none

/-- The last limit that was requested, or else the one from before. -/
def wantedLimit (limit : Int) (calls : List Call) : Int := (calls.filterMap Call.request?).getLast?.getD limit

/-- A send finds that another second has come. -/
def Sender.NewSecond (now sock : Int) (s : Sender) : Prop :=
  ¬ s.Blocked now sock ∧ now ≠ s.sink.rateLimit.lastRateTime

/-- At the first send of each second, the last requested limit is put in force. -/
def LastWins (s : Sender) (calls : List Call) : Prop :=
  ∀ before now len sock ret after, calls = before ++ .sendlog now len sock ret :: after →
    (s.run before).NewSecond now sock →
      (sendlogToUdpSink now len sock ret (s.run before)).1.sink.rateLimit.limit =
        wantedLimit s.sink.rateLimit.limit before

/-- A value is parked, and the last request asked for the limit in force. -/
def Sender.Ignored (wanted : Int) (s : Sender) : Prop :=
  s.sink.rateLimit.chgLimit ≠ 0 ∧ wanted = s.sink.rateLimit.limit

/-- At the first send of each second, the last request has not been ignored. -/
def Heeded (s : Sender) (calls : List Call) : Prop :=
  ∀ before now len sock ret after, calls = before ++ .sendlog now len sock ret :: after →
    (s.run before).NewSecond now sock → ¬ (s.run before).Ignored (wantedLimit s.sink.rateLimit.limit before)

/-! ## One call -/

variable {s : Sender} {now len sock ret : Int}

theorem control_second (h : now ≠ s.sink.rateLimit.lastRateTime) (hchg : s.sink.rateLimit.chgLimit ≠ 0) :
    (s.control now).sink.rateLimit.limit = s.sink.rateLimit.chgLimit ∧
      (s.control now).sink.rateLimit.chgLimit = 0 := by
  unfold Sender.control RateLimit.control
  simp only [if_pos h, if_pos hchg, and_self]

theorem control_same (h : now = s.sink.rateLimit.lastRateTime ∨ s.sink.rateLimit.chgLimit = 0) :
    (s.control now).sink.rateLimit.limit = s.sink.rateLimit.limit ∧
      (s.control now).sink.rateLimit.chgLimit = s.sink.rateLimit.chgLimit := by
  unfold Sender.control RateLimit.control
  by_cases hnow : now ≠ s.sink.rateLimit.lastRateTime
  · have hchg := h.resolve_left hnow
    simp only [if_pos hnow, hchg, ne_eq, not_true_eq_false, if_false, and_self]
  · simp only [if_neg hnow, and_self]

/-- A call that is not turned back leaves the limits as the rate control has set them. -/
theorem sendlog_limits (hgo : ¬ s.Blocked now sock) :
    let r := (sendlogToUdpSink now len sock ret s).1.sink.rateLimit
    r.limit = (s.control now).sink.rateLimit.limit ∧ r.chgLimit = (s.control now).sink.rateLimit.chgLimit := by
  intro r
  have hsends := sendlogToUdpSink_sends now len sock ret s
  generalize (sendlogToUdpSink now len sock ret s).2 = outcome at hsends
  cases hsends with
  | noSocket hblocked => exact absurd hblocked hgo
  | notice hgo hlen hfirst hrate => exact ⟨congrArg _ hrate, congrArg _ hrate⟩
  | dropped hgo hlen hrate => exact ⟨congrArg _ hrate, congrArg _ hrate⟩
  | failed hgo hret hrate => exact ⟨congrArg _ hrate, congrArg _ hrate⟩
  | log hgo hlen hret hrate => exact ⟨(congrArg RateLimit.limit hrate :), (congrArg RateLimit.chgLimit hrate :)⟩

/-- A send that finds no new second, or nothing parked, leaves both limits. -/
theorem sendlog_same (h : ¬ s.NewSecond now sock ∨ s.sink.rateLimit.chgLimit = 0) :
    let r := (sendlogToUdpSink now len sock ret s).1.sink.rateLimit
    r.limit = s.sink.rateLimit.limit ∧ r.chgLimit = s.sink.rateLimit.chgLimit := by
  intro r
  by_cases hgo : s.Blocked now sock
  · have hsends := sendlogToUdpSink_sends now len sock ret s
    generalize (sendlogToUdpSink now len sock ret s).2 = outcome at hsends
    cases hsends with
    | noSocket hblocked hrate => exact ⟨congrArg _ hrate, congrArg _ hrate⟩
    | notice hgo' => exact absurd hgo hgo'
    | dropped hgo' => exact absurd hgo hgo'
    | failed hgo' => exact absurd hgo hgo'
    | log hgo' => exact absurd hgo hgo'
  · obtain ⟨hlimit, hchg⟩ := @sendlog_limits s now len sock ret hgo
    obtain ⟨hlimit', hchg'⟩ := @control_same s now (h.imp (fun hn => not_not.mp fun hne => hn ⟨hgo, hne⟩) id)
    exact ⟨hlimit.trans hlimit', hchg.trans hchg'⟩

/-- The first send of a second puts a parked value in force. -/
theorem sendlog_second (h : s.NewSecond now sock) (hchg : s.sink.rateLimit.chgLimit ≠ 0) :
    let r := (sendlogToUdpSink now len sock ret s).1.sink.rateLimit
    r.limit = s.sink.rateLimit.chgLimit ∧ r.chgLimit = 0 := by
  intro r
  obtain ⟨hlimit, hzero⟩ := @sendlog_limits s now len sock ret h.1
  obtain ⟨hlimit', hzero'⟩ := control_second h.2 hchg
  exact ⟨hlimit.trans hlimit', hzero.trans hzero'⟩

/-! ## Runs -/

theorem run_concat (s : Sender) (calls : List Call) (call : Call) :
    s.run (calls ++ [call]) = ((s.run calls).step call).1 := by
  unfold Sender.run
  rw [List.foldl_append]
  rfl

theorem wantedLimit_concat (limit : Int) (calls : List Call) (call : Call) :
    wantedLimit limit (calls ++ [call]) = call.request?.getD (wantedLimit limit calls) := by
  unfold wantedLimit
  rw [List.filterMap_append]
  cases h : call.request? with
  | none => simp [h]
  | some limit => simp [h]

variable {calls : List Call} {call : Call}

theorem Heeded.of_concat (h : Heeded s (calls ++ [call])) : Heeded s calls := by
  intro before now len sock ret after heq
  exact h before now len sock ret (after ++ [call]) (by rw [heq, List.append_assoc, List.cons_append])

/-- A parked value differs from the limit in force, and from no packet that has been heeded. -/
structure Parked (wanted : Int) (rate : RateLimit) : Prop where
  ne : rate.chgLimit ≠ 0 → rate.chgLimit ≠ rate.limit
  parked : rate.chgLimit ≠ 0 → rate.chgLimit = wanted ∨ wanted = rate.limit
  idle : rate.chgLimit = 0 → rate.limit = wanted

theorem InRange.ne_zero {limit : Int} (h : InRange limit) : limit ≠ 0 := by
  unfold InRange minRateLimit at h
  omega

/-- What one call keeps, when it does not put in force what an ignored request has left. -/
theorem Parked.step {wanted : Int} (h : Parked wanted s.sink.rateLimit)
    (hheeded : ∀ now len sock ret, call = .sendlog now len sock ret → s.NewSecond now sock →
      ¬ s.Ignored wanted) :
    Parked (call.request?.getD wanted) (s.step call).1.sink.rateLimit := by
  cases call with
  | setRateLimit recvbuf =>
      have hreq : Call.request? (.setRateLimit recvbuf) =
          if InRange (requestedLimit recvbuf) then some (requestedLimit recvbuf) else none := rfl
      rw [hreq, (step_setRateLimit s recvbuf).2]
      generalize requestedLimit recvbuf = limit
      by_cases hin : InRange limit
      · rw [if_pos hin, Option.getD_some]
        by_cases hne : limit ≠ s.sink.rateLimit.limit
        · rw [if_pos ⟨hin, hne⟩]
          exact ⟨fun _ => hne, fun _ => .inl rfl, fun hzero => absurd hzero hin.ne_zero⟩
        · rw [if_neg fun hboth => hne hboth.2]
          have heq := not_not.mp hne
          exact ⟨h.ne, fun _ => .inr heq, fun _ => heq.symm⟩
      · rw [if_neg hin, if_neg fun hboth => hin hboth.1]
        exact h
  | sendlog now len sock ret =>
      change Parked wanted (sendlogToUdpSink now len sock ret s).1.sink.rateLimit
      by_cases hchg : s.NewSecond now sock ∧ s.sink.rateLimit.chgLimit ≠ 0
      · obtain ⟨hlimit, hzero⟩ := @sendlog_second s now len sock ret hchg.1 hchg.2
        have hne := hheeded now len sock ret rfl hchg.1
        have hwanted : s.sink.rateLimit.chgLimit = wanted :=
          (h.parked hchg.2).resolve_right fun heq => hne ⟨hchg.2, heq⟩
        exact ⟨fun hn => absurd hzero hn, fun hn => absurd hzero hn, fun _ => hlimit.trans hwanted⟩
      · obtain ⟨hlimit, hsame⟩ := @sendlog_same s now len sock ret
          (not_and_or.mp hchg |>.imp id not_not.mp)
        exact ⟨by rw [hlimit, hsame]; exact h.ne, by rw [hlimit, hsame]; exact h.parked,
          by rw [hlimit, hsame]; exact h.idle⟩

theorem Parked.run (hchg : s.sink.rateLimit.chgLimit = 0) (h : Heeded s calls) :
    Parked (wantedLimit s.sink.rateLimit.limit calls) (s.run calls).sink.rateLimit := by
  induction calls using List.reverseRecOn with
  | nil => exact ⟨fun hne => absurd hchg hne, fun hne => absurd hchg hne, fun _ => rfl⟩
  | append_singleton calls call ih =>
      rw [run_concat, wantedLimit_concat]
      refine (ih h.of_concat).step fun now len sock ret hcall hnew => ?_
      exact h calls now len sock ret [] (by rw [hcall]) hnew

/-- Whatever is parked differs from the limit in force. -/
theorem run_chgLimit_ne (hchg : s.sink.rateLimit.chgLimit = 0) (calls : List Call) :
    (s.run calls).sink.rateLimit.chgLimit ≠ 0 →
      (s.run calls).sink.rateLimit.chgLimit ≠ (s.run calls).sink.rateLimit.limit := by
  induction calls using List.reverseRecOn with
  | nil => exact fun hne => absurd hchg hne
  | append_singleton calls call ih =>
      rw [run_concat]
      generalize s.run calls = t at ih
      cases call with
      | setRateLimit recvbuf =>
          rw [(step_setRateLimit t recvbuf).2]
          generalize requestedLimit recvbuf = limit
          by_cases hreq : InRange limit ∧ limit ≠ t.sink.rateLimit.limit
          · rw [if_pos hreq]
            exact fun _ => hreq.2
          · rw [if_neg hreq]
            exact ih
      | sendlog now len sock ret =>
          change (sendlogToUdpSink now len sock ret t).1.sink.rateLimit.chgLimit ≠ 0 → _
          by_cases hboth : t.NewSecond now sock ∧ t.sink.rateLimit.chgLimit ≠ 0
          · intro hne
            exact absurd (@sendlog_second t now len sock ret hboth.1 hboth.2).2 hne
          · obtain ⟨hlimit, hsame⟩ := @sendlog_same t now len sock ret
              (not_and_or.mp hboth |>.imp id not_not.mp)
            change _ → (sendlogToUdpSink now len sock ret t).1.sink.rateLimit.chgLimit ≠
              (sendlogToUdpSink now len sock ret t).1.sink.rateLimit.limit
            rw [hlimit, hsame]
            exact ih

/-- In every run, the last requested limit is put in force at the first send of each second exactly
when at none of these sends a value is parked while the last request asked for the limit in force. -/
theorem lastWins_iff (s : Sender) (calls : List Call) (hchg : s.sink.rateLimit.chgLimit = 0) :
    LastWins s calls ↔ Heeded s calls := by
  constructor
  · intro h before now len sock ret after heq hnew hignored
    have hlimit := h before now len sock ret after heq hnew
    rw [(sendlog_second hnew hignored.1).1, hignored.2] at hlimit
    exact run_chgLimit_ne hchg before hignored.1 hlimit
  · intro h before now len sock ret after heq hnew
    have hparked : Parked (wantedLimit s.sink.rateLimit.limit before) (s.run before).sink.rateLimit := by
      refine .run hchg fun before' now len sock ret after' heq' => ?_
      exact h before' now len sock ret (after' ++ _) (by rw [heq, heq', List.append_assoc, List.cons_append])
    have hne := h before now len sock ret after heq hnew
    by_cases hzero : (s.run before).sink.rateLimit.chgLimit = 0
    · rw [(sendlog_same (.inr hzero)).1]
      exact hparked.idle hzero
    · rw [(sendlog_second hnew hzero).1]
      exact (hparked.parked hzero).resolve_right fun heq => hne ⟨hzero, heq⟩

/-- A packet that asks for 2048 bytes a second. -/
def askFor2048 : Call := .setRateLimit fun i => if i = 22 then 8 else 0

/-- A packet that asks for 131072 bytes a second. -/
def askForDefault : Call := .setRateLimit fun i => if i = 21 then 2 else 0

theorem lastWins_iff_sample : LastWins startSender [askFor2048, .sendlog 1000 100 3 100] ↔
    Heeded startSender [askFor2048, .sendlog 1000 100 3 100] := lastWins_iff _ _ rfl

/-- The last request does not always win: after 2048 and 131072 have been asked for in one second, in
which 131072 is in force, the next second has 2048. -/
theorem not_lastWins : ¬ ∀ (s : Sender) (calls : List Call), s.sink.rateLimit.chgLimit = 0 →
    LastWins s calls := by
  intro h
  have hlimit := h startSender [askFor2048, askForDefault, .sendlog 1000 100 3 100] rfl
    [askFor2048, askForDefault] 1000 100 3 100 [] rfl
    ⟨fun hblocked => absurd hblocked.2.2 (by decide), by decide +kernel⟩
  exact absurd hlimit (by decide +kernel)

end Taomee.Tlog
