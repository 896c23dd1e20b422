import Taomee.Tlog.Netutils
import Taomee.Tlog.Lemmas.Packet

/-!
# Changes of the address while records are sent

The control thread writes an address and sets a flag; the logging thread tests the flag, copies the
address and clears the flag. A flag that is set between the copy and the clearing is cleared with it.
-/

namespace Taomee.Tlog

/-! ## The two threads -/

/-- An address that can be asked for. -/
structure Addr where
  ip : List UInt8
  port : Nat
  sinAddr : Nat
  valid : inetPton ip = some sinAddr
  port_pos : 0 < port
  port_lt : port < 2 ^ 16

/-- The bytes of the dotted form. -/
def Addr.buf (a : Addr) : Buf := Buf.store (fun _ => 0) a.ip

/-- The address as `sendto` takes it. -/
def Addr.sockaddr (a : Addr) : SockaddrIn where
  sinFamily := afInet
  sinPort := ntohs a.port
  sinAddr := a.sinAddr

/-- What `do_set_trace_addr` does next. -/
inductive Control
  | test
  | writeIp
  | writePort
  | setChanged
  deriving DecidableEq

/-- What `sendlog_to_udp_sink` does next. -/
inductive Logging
  | test
  | copy
  | clear
  | send

/-- Both threads, with the addresses that are still to be set. -/
structure Handoff where
  sink : UdpSink
  requests : List Addr
  control : Control
  logging : Logging

/-- The address that sends go to is the one that is set. -/
def UdpSink.Current (sink : UdpSink) : Prop := (updateUdpSinkSockaddr sink).1.toaddr = sink.toaddr

namespace Handoff

/-- A step of `do_set_trace_addr`. -/
def stepControl (s : Handoff) : Handoff :=
  match s.requests, s.control with
  | [], _ => s
  | a :: rest, .test =>
      if s.sink.port = a.port ∧ s.sink.ip.strncmpEq 0 a.buf 0 inetAddrstrlen = true then { s with requests := rest }
      else { s with control := .writeIp }
  | a :: _, .writeIp =>
      { s with
        sink := { s.sink with ip := s.sink.ip.snprintfStr 0 a.buf 0 (inetAddrstrlen - 1) }
        control := .writePort }
  | a :: _, .writePort => { s with sink := { s.sink with port := a.port }, control := .setChanged }
  | _ :: rest, .setChanged =>
      { s with sink := { s.sink with addrChanged := 1 }, control := .test, requests := rest }

/-- A step of `sendlog_to_udp_sink`. -/
def stepLogging (s : Handoff) : Handoff :=
  match s.logging with
  | .test => if s.sink.addrChanged ≠ 0 then { s with logging := .copy } else { s with logging := .send }
  | .copy => { s with sink := (updateUdpSinkSockaddr s.sink).1, logging := .clear }
  | .clear => { s with sink := { s.sink with addrChanged := 0 }, logging := .send }
  | .send => { s with logging := .test }

end Handoff

inductive Thread
  | control
  | logging
  deriving DecidableEq

namespace Handoff

def step : Thread → Handoff → Handoff
  | .control, s => s.stepControl
  | .logging, s => s.stepLogging

/-- The threads take their steps in the order of the schedule. -/
def run : List Thread → Handoff → Handoff
  | [], s => s
  | t :: sched, s => run sched (step t s)

/-- Nothing has been asked for yet. -/
def start (requests : List Addr) : Handoff where
  sink := initUdpSink
  requests := requests
  control := .test
  logging := .test

/-- Every send that starts from here on goes to the address: wherever a call begins later, all sends
after that. -/
def SendsTo (a : Addr) (s : Handoff) : Prop :=
  ∀ later later', (run later s).logging = .test → (run later' (run later s)).logging = .send →
    (run later' (run later s)).sink.toaddr = a.sockaddr

/-! ## The last change -/

/-- The state in which the flag is set for the last time. -/
def lastChange : List Thread → Handoff → Option Handoff
  | [], _ => none
  | t :: sched, s =>
      (lastChange sched (step t s)).or (if t = .control ∧ s.control = .setChanged then some s else none)

/-- The logging thread has copied another address and is about to clear the flag. -/
def Overtaken (s : Handoff) : Prop := s.logging = .clear ∧ ¬ s.sink.Current

/-- Sends go to the address that is set, or will do so because the flag is set and stays. -/
def Good (s : Handoff) : Prop := s.sink.Current ∨ (s.sink.addrChanged ≠ 0 ∧ s.logging ≠ .clear)

end Handoff

/-! ## The steps and the calls -/

variable {a : Addr} {rest : List Addr} {buf : Buf} {s : Handoff}

theorem Addr.cstr (a : Addr) : CStr a.buf 0 a.ip := by
  have h := @CStr.of_list a.buf 0 a.ip fun i => by
    rw [Nat.zero_add]
    rfl
  rwa [takeWhile_ne_zero (inetPton_string a.valid).2.2] at h

/-- The steps for a request, one after the other, are `do_set_trace_addr` on the packet with its address. -/
theorem Handoff.stepControl_doSetTraceAddr (hs : s.requests = a :: rest) (htest : s.control = .test)
    (hip : CStr buf 20 a.ip) (hport : buf.load16 36 = ntohs a.port) : ∃ n,
      (run (List.replicate n .control) s).sink.rest = (doSetTraceAddr { s.sink with recvbuf := buf }).1.rest ∧
        (run (List.replicate n .control) s).requests = rest ∧
        (run (List.replicate n .control) s).control = .test := by
  have hback : ntohs (ntohs a.port) = a.port := ntohs_ntohs a.port_lt
  have hport0 : ntohs a.port ≠ 0 := by
    intro h0
    rw [h0] at hback
    exact absurd (hback.symm.trans (by decide)) (Nat.pos_iff_ne_zero.mp a.port_pos)
  have hip0 : buf 20 ≠ 0 := by
    obtain ⟨hne, -, -⟩ := inetPton_string a.valid
    cases hlist : a.ip with
    | nil => exact absurd hlist hne
    | cons c ip =>
        rw [hlist] at hip
        rw [hip.1]
        exact hip.2.1
  obtain ⟨sink, requests, control, logging⟩ := s
  dsimp only at hs htest
  subst hs htest
  unfold doSetTraceAddr
  dsimp only
  rw [hport, hback, if_neg (not_or.mpr ⟨hport0, hip0⟩), hip.strncmpEq_eq a.cstr, hip.snprintfStr_eq a.cstr]
  by_cases hsame : sink.port = a.port ∧ sink.ip.strncmpEq 0 a.buf 0 inetAddrstrlen = true
  · refine ⟨1, ?_⟩
    have hstep : run (List.replicate 1 .control) ⟨sink, a :: rest, .test, logging⟩ = ⟨sink, rest, .test, logging⟩ :=
      if_pos hsame
    rw [hstep, if_pos hsame]
    exact ⟨rfl, rfl, rfl⟩
  · refine ⟨4, ?_⟩
    have hstep : stepControl ⟨sink, a :: rest, .test, logging⟩ = ⟨sink, a :: rest, .writeIp, logging⟩ := if_neg hsame
    have hrun : run (List.replicate 4 .control) ⟨sink, a :: rest, .test, logging⟩ =
      run (List.replicate 3 .control) (stepControl ⟨sink, a :: rest, .test, logging⟩) := rfl
    rw [if_neg hsame, hrun, hstep]
    exact ⟨rfl, rfl, rfl⟩

end Taomee.Tlog
