import Taomee.Tlog.Lemmas.Packet

/-!
# Packets and their own bytes

The receive buffer keeps the bytes of earlier datagrams behind those of the last one. A packet with
users is refused unless its length is that of its elements; the other two commands do not look at the
length, and a short one takes the rest of its body from an earlier datagram.
-/

namespace Taomee.Tlog

variable {now : Int} {sink : UdpSink} {d bytes : List UInt8} {buf buf' : Buf} {off n : Nat}

/-! ## Datagrams in a buffer -/

/-- The datagram is at the front of the buffer. -/
def Holds (buf : Buf) (d : List UInt8) : Prop := ∀ i c, d[i]? = some c → buf i = c

/-- As far as the datagram reaches, its bytes from `off` on are those given. -/
def Agrees (d : List UInt8) (off : Nat) (bytes : List UInt8) : Prop :=
  ∀ i c b, d[off + i]? = some c → bytes[i]? = some b → c = b

theorem Holds.store (buf : Buf) (d : List UInt8) : Holds (buf.store d) d := by
  intro i c hi
  rw [Buf.store, hi]
  rfl

theorem Holds.eq (h : Holds buf d) (h' : Holds buf' d) {i : Nat} (hi : i < d.length) : buf i = buf' i :=
  (h i _ (List.getElem?_eq_getElem hi)).trans (h' i _ (List.getElem?_eq_getElem hi)).symm

theorem Holds.loadBe32 (h : Holds buf d) (h' : Holds buf' d) (hlen : off + 4 ≤ d.length) :
    buf.loadBe32 off = buf'.loadBe32 off :=
  Buf.loadBe32_congr fun _ _ hi => h.eq h' (by omega)

theorem store_behind (buf : Buf) {i : Nat} (hi : d.length ≤ i) : buf.store d i = buf i := by
  rw [Buf.store, List.getElem?_eq_none hi]
  rfl

theorem Holds.agrees (h : Holds buf d) (hn : buf.loadBe32 off = n) : Agrees d off (be32 n) := by
  intro i c b hc hb
  obtain ⟨hi, hbi⟩ := List.getElem?_eq_some_iff.mp hb
  rw [← h (off + i) c hc, Buf.byte_of_loadBe32 hn hi, hbi]

/-- A word that agrees with the datagram is still read after the datagram has arrived. -/
theorem Agrees.loadBe32 (ha : Agrees d off (be32 n)) (hn : n < 2 ^ 32) (hbuf : buf.loadBe32 off = n) :
    (buf.store d).loadBe32 off = n := by
  refine Buf.loadBe32_of_bytes hn fun i hi => ?_
  by_cases hlen : off + i < d.length
  · have hd : d[off + i]? = some d[off + i] := List.getElem?_eq_getElem hlen
    rw [Holds.store buf d _ _ hd]
    exact ha i _ _ hd (List.getElem?_eq_getElem hi)
  · rw [store_behind _ (Nat.le_of_not_lt hlen)]
    exact Buf.byte_of_loadBe32 hbuf hi

/-! ## The condition -/

/-- The datagram has all that is read of it: if it can be a packet of its own length then its command
is not one with an address, or the address is there or empty, and it is not one with a limit, or the
limit is there or all limits it can be the start of change nothing. -/
def Covered (sink : UdpSink) (d : List UInt8) : Prop :=
  Agrees d 0 (be32 d.length) →
    (Agrees d 8 (be32 lcSetTraceAddr) → 38 ≤ d.length ∨ d[20]? = some 0) ∧
    (Agrees d 8 (be32 lcSetRateLimit) → 24 ≤ d.length ∨
      ∀ limit : Nat, minRateLimit ≤ limit → limit ≤ maxRateLimit → Agrees d 20 (be32 limit) →
        limit = sink.rateLimit.limit ∨ limit = sink.rateLimit.chgLimit)

/-- The sink apart from its receive buffer, after the packet in `buf`. -/
def after (now : Int) (sink : UdpSink) (len : Nat) (buf : Buf) : UdpSink :=
  (procLoggerPkg now len { sink with recvbuf := buf }).rest

theorem after_eq (now : Int) (sink : UdpSink) (len : Nat) (buf : Buf) :
    after now sink len buf = (pkgEffect now len { sink with recvbuf := buf }).rest :=
  procLoggerPkg_rest now len _

/-! ## Covered packets -/

theorem tracedUids_short (now : Int) {len : Nat} (hlen : len < 32) (buf : Buf) (l : List TraceUid) :
    tracedUids now len buf l = l := by
  unfold tracedUids
  generalize buf.loadBe32 20 = count
  split
  · rfl
  · rename_i hcount
    refine if_pos fun heq => hcount (.inl ?_)
    unfold sizeofCtrlPkg sizeofSetTraceUid sizeofPkgTraceUid at heq
    omega

theorem doSetTraceAddr_empty (h : sink.recvbuf 20 = 0) : (doSetTraceAddr sink).1 = sink := by
  unfold doSetTraceAddr
  dsimp only
  rw [if_pos (.inr h)]

theorem changed_chgLimit (r : RateLimit) (limit : Int) :
    (r.changed limit).chgLimit = r.chgLimit ∨ (r.changed limit).chgLimit = limit := by
  unfold RateLimit.changed
  split
  · exact .inl rfl
  · exact .inr rfl

theorem changed_eq_self {r : RateLimit}
    (h : minRateLimit ≤ (n : Int) → (n : Int) ≤ maxRateLimit → n = r.limit ∨ n = r.chgLimit) (hn : n < 2 ^ 32) :
    r.changed (toI32 n) = r := by
  unfold RateLimit.changed
  by_cases hrange : toI32 n < minRateLimit ∨ toI32 n > maxRateLimit
  · exact if_pos (hrange.imp_right .inl)
  · have hlow : n < 2 ^ 31 := by
      unfold minRateLimit toI32 at hrange
      rw [Int.bmod_def] at hrange
      split at hrange <;> omega
    have hval : toI32 n = n := toI32_of_lt (by omega) (by omega)
    rw [hval] at hrange ⊢
    obtain ⟨hmin, hmax⟩ := not_or.mp hrange
    rcases h (Int.not_lt.mp hmin) (Int.not_lt.mp hmax) with heq | heq
    · exact if_pos (.inr (.inr heq))
    · split
      · rfl
      · cases r
        rw [heq]

theorem Covered.after_short (hc : Covered sink d) (hlen : d.length < 24) (h : Holds buf d) :
    after now sink d.length buf = sink.rest := by
  rw [after_eq]
  unfold pkgEffect
  dsimp only
  split
  · rfl
  rename_i hown
  obtain ⟨haddr, hlimit⟩ := hc (h.agrees (Decidable.not_not.mp hown))
  split
  · rw [tracedUids_short now (by omega)]
    rfl
  split
  · rename_i hcmd
    rcases haddr (h.agrees hcmd) with hfull | hempty
    · omega
    · rw [doSetTraceAddr_empty (h 20 0 hempty)]
      rfl
  split
  · rename_i hcmd
    rcases hlimit (h.agrees hcmd) with hfull | hsame
    · omega
    · rw [changed_eq_self (fun h1 h2 => hsame _ h1 h2 (h.agrees rfl)) (Buf.loadBe32_lt _ _)]
      rfl
  · rfl

theorem traced_congr (hlen : 24 ≤ d.length) (h : Holds buf d) (h' : Holds buf' d) (l : List TraceUid) :
    tracedUids now d.length buf l = tracedUids now d.length buf' l := by
  unfold tracedUids
  rw [@Holds.loadBe32 _ _ _ 20 h h' hlen]
  split
  · rfl
  split
  · rfl
  · rename_i hexplen
    refine traceAll_congr _ fun i _ hi => h.eq h' ?_
    unfold sizeofCtrlPkg sizeofSetTraceUid at hexplen
    omega

/-- A longer packet that is covered is read inside of its datagram. -/
theorem Covered.after_eq (hc : Covered sink d) (hlen : 24 ≤ d.length) (h : Holds buf d) (h' : Holds buf' d) :
    after now sink d.length buf = after now sink d.length buf' := by
  rw [Tlog.after_eq, Tlog.after_eq]
  unfold pkgEffect
  dsimp only
  rw [@Holds.loadBe32 _ _ _ 0 h h' (by omega), @Holds.loadBe32 _ _ _ 8 h h' (by omega),
    @Holds.loadBe32 _ _ _ 20 h h' (by omega)]
  split
  · rfl
  rename_i hown
  obtain ⟨haddr, -⟩ := hc (h'.agrees (Decidable.not_not.mp hown))
  split
  · rw [traced_congr hlen h h']
    rfl
  split
  · rename_i hcmd
    rcases haddr (h'.agrees hcmd) with hfull | hempty
    · exact doSetTraceAddr_congr rfl fun i _ hi => h.eq h' (by omega)
    · rw [doSetTraceAddr_empty (h 20 0 hempty), doSetTraceAddr_empty (h' 20 0 hempty)]
      rfl
  split
  · rfl
  · rfl

/-! ## Packets that are not covered -/

/-- A buffer with the head of a packet. -/
def headBuf (len cmd : Nat) : Buf := (Buf.store32 (fun _ => 0) 0 (ntohl len)).store32 8 (ntohl cmd)

/-- Changes of the body leave the head. -/
structure Headed (buf : Buf) (len cmd : Nat) : Prop where
  len : buf.loadBe32 0 = len
  cmd : buf.loadBe32 8 = cmd

theorem headed_headBuf {len cmd : Nat} (hlen : len < 2 ^ 32) (hcmd : cmd < 2 ^ 32) :
    Headed (headBuf len cmd) len cmd := by
  constructor
  · rw [headBuf, Buf.loadBe32_congr fun i _ hi => Buf.store32_outside _ _ (by omega),
      Buf.loadBe32_store32_ntohl _ _ hlen]
  · exact Buf.loadBe32_store32_ntohl _ _ hcmd

theorem Headed.congr {len cmd : Nat} (h : Headed buf len cmd) (heq : ∀ i, i < 20 → buf' i = buf i) :
    Headed buf' len cmd := by
  constructor
  · rw [Buf.loadBe32_congr fun i _ hi => heq i (by omega)]
    exact h.len
  · rw [Buf.loadBe32_congr fun i _ hi => heq i (by omega)]
    exact h.cmd

theorem Headed.store {len cmd : Nat} (h : Headed buf len cmd) (hlen : len < 2 ^ 32) (hcmd : cmd < 2 ^ 32)
    (halen : Agrees d 0 (be32 len)) (hacmd : Agrees d 8 (be32 cmd)) : Headed (buf.store d) len cmd :=
  ⟨halen.loadBe32 hlen h.len, hacmd.loadBe32 hcmd h.cmd⟩

theorem Headed.after_addr {len : Nat} (h : Headed buf len lcSetTraceAddr) (hip : buf 20 ≠ 0)
    (hport : buf.load16 36 ≠ 0) : (after now sink len buf).port = ntohs (buf.load16 36) := by
  have hrest : after now sink len buf = (doSetTraceAddr { sink with recvbuf := buf }).1.rest := by
    rw [Tlog.after_eq]
    unfold pkgEffect
    dsimp only
    rw [h.len, h.cmd, if_neg (fun hne => hne rfl), if_neg (by decide), if_pos rfl]
  rw [hrest]
  unfold doSetTraceAddr
  dsimp only
  rw [if_neg (not_or.mpr ⟨hport, hip⟩)]
  split
  · rename_i hsame
    exact hsame.1
  · rfl

theorem Headed.after_limit {len : Nat} (h : Headed buf len lcSetRateLimit) :
    (after now sink len buf).rateLimit = sink.rateLimit.changed (toI32 (buf.loadBe32 20)) := by
  rw [Tlog.after_eq]
  unfold pkgEffect
  dsimp only
  rw [h.len, h.cmd, if_neg (fun hne => hne rfl), if_neg (by decide), if_neg (by decide), if_pos rfl]
  generalize toI32 (buf.loadBe32 20) = limit
  rfl

/-- A short packet with an address has its port from another datagram. -/
theorem exists_after_addr_ne (now : Int) (sink : UdpSink) (hd : d.length < 38) (hempty : d[20]? ≠ some 0)
    (halen : Agrees d 0 (be32 d.length)) (hacmd : Agrees d 8 (be32 lcSetTraceAddr)) :
    ∃ buf buf', Holds buf d ∧ Holds buf' d ∧ after now sink d.length buf ≠ after now sink d.length buf' := by
  have hcase : ∀ p : UInt8, p ≠ 0 → ∃ buf, Holds buf d ∧ (after now sink d.length buf).port % 2 ^ 8 = p.toNat := by
    intro p hp
    let start : Buf := ((headBuf d.length lcSetTraceAddr).set 20 1).set 37 p
    have hstart : Headed start d.length lcSetTraceAddr :=
      (headed_headBuf (by omega) (by decide)).congr fun i hi =>
        (Buf.set_ne _ _ (by omega)).trans (Buf.set_ne _ _ (by omega))
    have hhead : Headed (start.store d) d.length lcSetTraceAddr :=
      hstart.store (by omega) (by decide) halen hacmd
    have hip : start.store d 20 ≠ 0 := by
      by_cases hlen : 20 < d.length
      · have hd20 : d[20]? = some d[20] := List.getElem?_eq_getElem hlen
        rw [Holds.store start d 20 _ hd20]
        intro h0
        exact hempty (by rw [hd20, h0])
      · have h20 : start 20 = 1 := (Buf.set_ne _ _ (by decide)).trans (Buf.set_self _ _ _)
        rw [store_behind _ (by omega), h20]
        decide
    have hlow : start.store d 37 = p := by
      rw [store_behind _ (by omega)]
      exact Buf.set_self _ _ _
    have hp0 : p.toNat ≠ 0 := fun h0 => hp (UInt8.toNat_inj.mp h0)
    have hport : (start.store d).load16 36 = (start.store d 36).toNat + 2 ^ 8 * p.toNat := by
      unfold Buf.load16
      rw [hlow]
    refine ⟨start.store d, Holds.store _ _, ?_⟩
    rw [hhead.after_addr hip (by rw [hport]; omega), hport, Nat.add_comm, Nat.mul_comm, ntohs_mk p.toNat_lt (UInt8.toNat_lt _)]
    have h37 := p.toNat_lt
    omega
  obtain ⟨buf, hbuf, h1⟩ := hcase 1 (by decide)
  obtain ⟨buf', hbuf', h2⟩ := hcase 2 (by decide)
  refine ⟨buf, buf', hbuf, hbuf', fun heq => ?_⟩
  rw [heq, h2] at h1
  exact absurd h1 (by decide)

/-- A short packet with a limit has the end of it from another datagram. -/
theorem exists_after_limit_ne (now : Int) (sink : UdpSink) (hd : d.length < 24) {limit : Nat}
    (hmin : minRateLimit ≤ limit) (hmax : limit ≤ maxRateLimit) (hne : limit ≠ sink.rateLimit.limit)
    (hchg : limit ≠ sink.rateLimit.chgLimit) (halen : Agrees d 0 (be32 d.length))
    (hacmd : Agrees d 8 (be32 lcSetRateLimit)) (halimit : Agrees d 20 (be32 limit)) :
    ∃ buf buf', Holds buf d ∧ Holds buf' d ∧ after now sink d.length buf ≠ after now sink d.length buf' := by
  have hlt : limit < 2 ^ 31 := by
    unfold maxRateLimit at hmax
    omega
  let start : Buf := (headBuf d.length lcSetRateLimit).store32 20 (ntohl limit)
  let other : Buf := start.set 23 (start 23 + 1)
  have hstart : Headed start d.length lcSetRateLimit :=
    (headed_headBuf (by omega) (by decide)).congr fun i hi => Buf.store32_outside _ _ (by omega)
  have hother : Headed other d.length lcSetRateLimit := hstart.congr fun i hi => Buf.set_ne _ _ (by omega)
  have hread : (start.store d).loadBe32 20 = limit :=
    halimit.loadBe32 (by omega) (Buf.loadBe32_store32_ntohl _ _ (by omega))
  have hread' : (other.store d).loadBe32 20 ≠ limit := by
    intro heq
    have hbyte := Buf.byte_of_loadBe32 heq (i := 3) (by omega)
    rw [← Buf.byte_of_loadBe32 hread (i := 3) (by omega), store_behind _ (by omega), store_behind _ (by omega)] at hbyte
    have hsucc : start 23 + 1 = start 23 := (Buf.set_self start 23 _).symm.trans hbyte
    exact absurd hsucc (by simp)
  refine ⟨start.store d, other.store d, Holds.store _ _, Holds.store _ _, fun heq => ?_⟩
  have hrate := congrArg (fun s => s.rateLimit.chgLimit) heq
  rw [(hstart.store (by omega) (by decide) halen hacmd).after_limit,
    (hother.store (by omega) (by decide) halen hacmd).after_limit, hread, toI32_of_lt (by omega) (by omega)] at hrate
  have hthis : (sink.rateLimit.changed limit).chgLimit = limit := by
    unfold RateLimit.changed
    rw [if_neg (by rintro (h | h | h) <;> omega)]
  rw [hthis] at hrate
  rcases changed_chgLimit sink.rateLimit (toI32 ((other.store d).loadBe32 20)) with hold | hnew
  · exact hchg (hrate.trans hold)
  · have hval := (hrate.trans hnew).symm
    have hlt' := Buf.loadBe32_lt (other.store d) 20
    unfold toI32 at hval
    rw [Int.bmod_def] at hval
    split at hval <;> omega

/-! ## The theorem -/

/-- What a packet does depends on the bytes of its datagram alone if and only if the datagram is covered. -/
theorem procLoggerPkg_ownBytes_iff (now : Int) (sink : UdpSink) (d : List UInt8) :
    (∀ buf buf', Holds buf d → Holds buf' d →
      (procLoggerPkg now d.length { sink with recvbuf := buf }).rest =
        (procLoggerPkg now d.length { sink with recvbuf := buf' }).rest) ↔ Covered sink d := by
  constructor
  · intro hsame halen
    constructor
    · intro hacmd
      by_contra hno
      push Not at hno
      obtain ⟨buf, buf', h, h', hne⟩ := exists_after_addr_ne now sink hno.1 hno.2 halen hacmd
      exact hne (hsame buf buf' h h')
    · intro hacmd
      by_contra hno
      push Not at hno
      obtain ⟨hshort, limit, hmin, hmax, halimit, hne, hchg⟩ := hno
      obtain ⟨buf, buf', h, h', hdiff⟩ :=
        exists_after_limit_ne now sink hshort hmin hmax hne hchg halen hacmd halimit
      exact hdiff (hsame buf buf' h h')
  · intro hc buf buf' h h'
    by_cases hlen : d.length < 24
    · exact (hc.after_short hlen h).trans (hc.after_short hlen h').symm
    · exact hc.after_eq (Nat.le_of_not_lt hlen) h h'

/-- The head of a packet with an address, and no address. -/
def headOnly : List UInt8 := (headBuf 20 lcSetTraceAddr).toList 20

theorem not_procLoggerPkg_ownBytes : ¬ ∀ (now : Int) (sink : UdpSink) (d : List UInt8),
    1 ≤ d.length → d.length ≤ 8192 → ∀ buf buf', Holds buf d → Holds buf' d →
      (procLoggerPkg now d.length { sink with recvbuf := buf }).rest =
        (procLoggerPkg now d.length { sink with recvbuf := buf' }).rest := by
  intro h
  have hholds : Holds (headBuf 20 lcSetTraceAddr) headOnly := by
    intro i c hc
    obtain ⟨hi, -⟩ := List.getElem?_eq_some_iff.mp hc
    rw [headOnly, Buf.getElem?_toList _ (by simpa [headOnly] using hi)] at hc
    exact Option.some.inj hc
  have hhead : Headed (headBuf 20 lcSetTraceAddr) 20 lcSetTraceAddr := headed_headBuf (by decide) (by decide)
  obtain ⟨buf, buf', hbuf, hbuf', hne⟩ := exists_after_addr_ne 0 initUdpSink (d := headOnly) (by decide)
    (by decide) (hholds.agrees hhead.len) (hholds.agrees hhead.cmd)
  exact hne (h 0 initUdpSink headOnly (by decide) (by decide) buf buf' hbuf hbuf')

end Taomee.Tlog
