import Taomee.Tlog.Lemmas.Packet

/-!
# Sending logs to the network (tlog/netutils.c)

`sendlog_to_udp_sink` with the rate control, and the calls that change it: a requested limit is parked,
and put in force at the next second. What `socket` and `sendto` return is given with the call.
-/

namespace Taomee.Tlog

def minWaitUdpSinkTime : Int := 2
def defRateLimit : Int := 128 * 1024

/-! ## netutils.c -/

/-- The network sink, with the static variables of `sendlog_to_udp_sink`. -/
structure Sender where
  sink : UdpSink
  isSendOverflow : Int
  lastInitTime : Int

/-- The sender of a logger that has just been started: `udp_sink_server` sets the limit. -/
def startSender : Sender where
  sink := { initUdpSink with rateLimit := { initUdpSink.rateLimit with limit := defRateLimit } }
  isSendOverflow := 0
  lastInitTime := 0

/-- What a call has sent: nothing for lack of a socket, the log, with what `sendto` returned, the notice
that the log is too heavy, or nothing when that has been sent before. -/
inductive Outcome where
  | noSocket
  | log (ret : Int)
  | notice
  | dropped
  deriving DecidableEq

/-- `init_logger_udp_sink_sendfd`, when `socket` returns `sock`. -/
def initLoggerUdpSinkSendfd (sock : Int) (sink : UdpSink) : UdpSink × Int :=
  ({ sink with sendfd := sock }, if sock = -1 then -1 else 0)

/-- The rate control of `sendlog_to_udp_sink`: a parked limit is put in force, and the tokens are
renewed, once in a second. -/
def RateLimit.control (now : Int) (rate : RateLimit) : RateLimit :=
  if now ≠ rate.lastRateTime then
    let rate := if rate.chgLimit ≠ 0 then { rate with limit := rate.chgLimit, chgLimit := 0 } else rate
    { rate with token := rate.limit, lastRateTime := now }
  else rate

def Sender.control (now : Int) (s : Sender) : Sender :=
  { s with
    sink := { s.sink with rateLimit := s.sink.rateLimit.control now }
    isSendOverflow := if now ≠ s.sink.rateLimit.lastRateTime then 0 else s.isSendOverflow }

/-- The end of `sendlog_to_udp_sink`, with a new token. -/
def Sender.transmit (len ret : Int) (s : Sender) : Sender × Outcome :=
  if len > s.sink.rateLimit.token then
    if s.isSendOverflow = 0 then ({ s with isSendOverflow := 1 }, .notice) else (s, .dropped)
  else if ret = -1 then ({ s with sink := { s.sink with sendfd := -1 } }, .log ret)
  else
    let rate := { s.sink.rateLimit with token := s.sink.rateLimit.token - ret }
    ({ s with sink := { s.sink with rateLimit := rate } }, .log ret)

/-- `sendlog_to_udp_sink(buffer, len)` at the time `now`. The results of `socket` and of `sendto` for
the log are `sock` and `ret`. -/
def sendlogToUdpSink (now len sock ret : Int) (s : Sender) : Sender × Outcome :=
  let s :=
    if s.sink.addrChanged ≠ 0 then
      { s with sink := { (updateUdpSinkSockaddr s.sink).1 with addrChanged := 0 } }
    else s
  if s.sink.sendfd = -1 ∧ now - s.lastInitTime ≥ minWaitUdpSinkTime then
    let init := initLoggerUdpSinkSendfd sock s.sink
    let s := { s with sink := init.1, lastInitTime := now }
    if init.2 < 0 then (s, .noSocket) else (s.control now).transmit len ret
  else (s.control now).transmit len ret

/-! ## Calls -/

/-- A packet with a requested limit, and a log to send. -/
inductive Call where
  | setRateLimit (recvbuf : Buf)
  | sendlog (now len sock ret : Int)

/-- One call, and what it has sent. -/
def Sender.step (s : Sender) : Call → Sender × Option Outcome
  | .setRateLimit recvbuf => ({ s with sink := (doSetRateLimit { s.sink with recvbuf := recvbuf }).1 }, none)
  | .sendlog now len sock ret =>
      ((sendlogToUdpSink now len sock ret s).1, some (sendlogToUdpSink now len sock ret s).2)

def Sender.run (s : Sender) (calls : List Call) : Sender := calls.foldl (fun s call => (s.step call).1) s

/-! ## Requests -/

/-- The limit in a packet. -/
def requestedLimit (recvbuf : Buf) : Int := toI32 (recvbuf.loadBe32 20)

/-- The limits that are accepted. -/
def InRange (limit : Int) : Prop := minRateLimit ≤ limit ∧ limit ≤ maxRateLimit

instance (limit : Int) : Decidable (InRange limit) := inferInstanceAs (Decidable (_ ∧ _))

/-- Only an asked for limit that is new and in range is taken. -/
theorem changed_requestedLimit (r : RateLimit) (recvbuf : Buf) :
    r.changed (toI32 (recvbuf.loadBe32 20)) =
      if InRange (requestedLimit recvbuf) ∧ requestedLimit recvbuf ≠ r.limit then
        { r with chgLimit := requestedLimit recvbuf }
      else r := by
  unfold RateLimit.changed InRange requestedLimit
  split
  · rw [if_neg (by omega)]
  · rw [if_pos (by omega)]

theorem step_setRateLimit (s : Sender) (recvbuf : Buf) :
    (s.step (.setRateLimit recvbuf)).1.isSendOverflow = s.isSendOverflow ∧
    (s.step (.setRateLimit recvbuf)).1.sink.rateLimit =
      if InRange (requestedLimit recvbuf) ∧ requestedLimit recvbuf ≠ s.sink.rateLimit.limit then
        { s.sink.rateLimit with chgLimit := requestedLimit recvbuf }
      else s.sink.rateLimit := by
  -- the sink is kept abstract, so that nothing is evaluated
  have hproj : ∀ sink : UdpSink, ({ s with sink := sink } : Sender).sink.rateLimit = sink.rateLimit :=
    fun _ => rfl
  have hstep : (s.step (.setRateLimit recvbuf)).1 =
      { s with sink := (doSetRateLimit { s.sink with recvbuf := recvbuf }).1 } := rfl
  rw [hstep, hproj, doSetRateLimit_rateLimit, changed_requestedLimit]
  exact ⟨rfl, rfl⟩

/-! ## What a call can do -/

/-- The call is turned back: it needs a socket, and `socket` fails. -/
def Sender.Blocked (now sock : Int) (s : Sender) : Prop :=
  s.sink.sendfd = -1 ∧ now - s.lastInitTime ≥ minWaitUdpSinkTime ∧ sock = -1

/-- What a call of `sendlog_to_udp_sink` does to the rate control, by what it sends. -/
inductive Sends (now len sock ret : Int) (s s' : Sender) : Outcome → Prop
  | noSocket (hblocked : s.Blocked now sock) (hrate : s'.sink.rateLimit = s.sink.rateLimit)
      (hflag : s'.isSendOverflow = s.isSendOverflow) : Sends now len sock ret s s' .noSocket
  | notice (hgo : ¬ s.Blocked now sock) (hlen : len > (s.control now).sink.rateLimit.token)
      (hfirst : (s.control now).isSendOverflow = 0)
      (hrate : s'.sink.rateLimit = (s.control now).sink.rateLimit) (hflag : s'.isSendOverflow = 1) :
      Sends now len sock ret s s' .notice
  | dropped (hgo : ¬ s.Blocked now sock) (hlen : len > (s.control now).sink.rateLimit.token)
      (hrate : s'.sink.rateLimit = (s.control now).sink.rateLimit)
      (hflag : s'.isSendOverflow = (s.control now).isSendOverflow) : Sends now len sock ret s s' .dropped
  | failed (hgo : ¬ s.Blocked now sock) (hret : ret = -1)
      (hrate : s'.sink.rateLimit = (s.control now).sink.rateLimit)
      (hflag : s'.isSendOverflow = (s.control now).isSendOverflow) : Sends now len sock ret s s' (.log ret)
  | log (hgo : ¬ s.Blocked now sock) (hlen : len ≤ (s.control now).sink.rateLimit.token) (hret : ret ≠ -1)
      (hrate : s'.sink.rateLimit = { (s.control now).sink.rateLimit with
        token := (s.control now).sink.rateLimit.token - ret })
      (hflag : s'.isSendOverflow = (s.control now).isSendOverflow) : Sends now len sock ret s s' (.log ret)

theorem transmit_sends {now len sock ret : Int} {s t : Sender} (hgo : ¬ s.Blocked now sock)
    (hrate : t.sink.rateLimit = s.sink.rateLimit) (hflag : t.isSendOverflow = s.isSendOverflow) :
    Sends now len sock ret s ((t.control now).transmit len ret).1 ((t.control now).transmit len ret).2 := by
  have hctrl : (t.control now).sink.rateLimit = (s.control now).sink.rateLimit :=
    congrArg (RateLimit.control now) hrate
  have hover : (t.control now).isSendOverflow = (s.control now).isSendOverflow := by
    unfold Sender.control
    rw [hrate, hflag]
  unfold Sender.transmit
  by_cases hlen : len > (t.control now).sink.rateLimit.token
  · rw [if_pos hlen]
    by_cases hfirst : (t.control now).isSendOverflow = 0
    · rw [if_pos hfirst]
      exact .notice hgo (hctrl ▸ hlen) (hover ▸ hfirst) hctrl rfl
    · rw [if_neg hfirst]
      exact .dropped hgo (hctrl ▸ hlen) hctrl hover
  · rw [if_neg hlen]
    by_cases hret : ret = -1
    · rw [if_pos hret]
      exact .failed hgo hret hctrl hover
    · rw [if_neg hret]
      exact .log hgo (hctrl ▸ Int.not_lt.mp hlen) hret (by rw [← hctrl]) hover

theorem sendlogToUdpSink_sends (now len sock ret : Int) (s : Sender) :
    Sends now len sock ret s (sendlogToUdpSink now len sock ret s).1 (sendlogToUdpSink now len sock ret s).2 := by
  unfold sendlogToUdpSink
  -- a changed address leaves all that the rate control and the socket depend on
  obtain ⟨t, ht, hrate, hflag, hfd, hinit⟩ : ∃ t : Sender,
      (if s.sink.addrChanged ≠ 0 then
        { s with sink := { (updateUdpSinkSockaddr s.sink).1 with addrChanged := 0 } }
      else s) = t ∧ t.sink.rateLimit = s.sink.rateLimit ∧ t.isSendOverflow = s.isSendOverflow ∧
        t.sink.sendfd = s.sink.sendfd ∧ t.lastInitTime = s.lastInitTime := by
    obtain ⟨toaddr, heq⟩ := updateUdpSinkSockaddr_eq s.sink
    by_cases hchanged : s.sink.addrChanged ≠ 0
    · rw [if_pos hchanged, heq]
      exact ⟨_, rfl, rfl, rfl, rfl, rfl⟩
    · rw [if_neg hchanged]
      exact ⟨_, rfl, rfl, rfl, rfl, rfl⟩
  simp only [ht, hfd, hinit]
  by_cases hwait : s.sink.sendfd = -1 ∧ now - s.lastInitTime ≥ minWaitUdpSinkTime
  · rw [if_pos hwait]
    unfold initLoggerUdpSinkSendfd
    by_cases hsock : sock = -1
    · rw [if_pos hsock]
      exact .noSocket ⟨hwait.1, hwait.2, hsock⟩ hrate hflag
    · rw [if_neg hsock]
      exact transmit_sends (fun h => hsock h.2.2) hrate hflag
  · rw [if_neg hwait]
    exact transmit_sends (fun h => hwait ⟨h.1, h.2.1⟩) hrate hflag

end Taomee.Tlog
