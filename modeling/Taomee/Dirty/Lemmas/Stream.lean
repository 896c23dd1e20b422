import Taomee.Dirty.Lemmas.Packets

/-!
# The stream of a connection

What a receive takes from the stream does not depend on the buffer that it fills. A packet is made of the
bytes of its head and of those that the head announces; behind them the buffer keeps what it held.
-/

namespace Taomee.Dirty

variable {turns rest total fuel : Nat} {canCreate : Bool} {r : RecvFile} {p : Packet} {net net' : List Net}
  {got bytes : List UInt8} {ret : Int} {ok : Bool}

/-! ## safe_tcp_recv_n -/

/-- The bytes received are never more than asked for; a positive return value counts them. -/
theorem safeTcpRecvN_count (net : List Net) : ∀ {got : List UInt8}, got.length ≤ total →
    (safeTcpRecvN total got net).1.length ≤ total ∧
      (0 < (safeTcpRecvN total got net).2.1 →
        (safeTcpRecvN total got net).2.1 = (safeTcpRecvN total got net).1.length) := by
  induction net with
  | nil =>
      intro got hle
      unfold safeTcpRecvN
      refine ⟨hle, fun hpos => ?_⟩
      dsimp only at hpos ⊢
      split at hpos
      · omega
      · rename_i hge
        rw [if_neg hge]
  | cons e net ih =>
      intro got hle
      unfold safeTcpRecvN
      by_cases hlt : got.length < total
      · rw [if_pos hlt]
        cases e with
        | byte c => exact ih (by rw [List.length_append]; exact hlt)
        | intr => exact ih hle
        | again => exact ⟨hle, fun _ => rfl⟩
        | error => exact ⟨hle, fun hpos : (0 : Int) < -1 => absurd hpos (by decide)⟩
      · rw [if_neg hlt]
        exact ⟨hle, fun _ => rfl⟩

theorem safeTcpRecvN_length (h : safeTcpRecvN total [] net = (got, ret, net')) (hpos : 0 < ret) :
    ret = got.length ∧ got.length ≤ total := by
  obtain ⟨hle, hcount⟩ := @safeTcpRecvN_count total net [] (Nat.zero_le total)
  rw [h] at hle hcount
  exact ⟨hcount hpos, hle⟩

/-! ## The rest of a packet -/

/-- `recvRest` without the buffer: the bytes, and whether all of them have arrived. -/
def recvBytes : Nat → Nat → List Net → List UInt8 × Bool × List Net
  | 0, _, net => ([], false, net)
  | turns + 1, rest, net =>
      let (got, cur, net) := safeTcpRecvN rest [] net
      if cur = rest then (got, true, net)
      else if 0 < cur then
        let (more, ok, net) := recvBytes turns (rest - cur.toNat) net
        (got ++ more, ok, net)
      else (got, false, net)

theorem recvRest_eq (turns : Nat) : ∀ (buf : Buf) (p rest : Nat) (net : List Net),
    recvRest turns buf p rest net =
      (buf.write p (recvBytes turns rest net).1, (recvBytes turns rest net).2.1, (recvBytes turns rest net).2.2) := by
  induction turns with
  | zero =>
      intro buf p rest net
      have hnil : buf.write p [] = buf := by
        funext i
        unfold Buf.write
        split <;> rfl
      unfold recvRest recvBytes
      rw [hnil]
  | succ turns ih =>
      intro buf p rest net
      unfold recvRest recvBytes recvInto
      rcases hrecv : safeTcpRecvN rest [] net with ⟨got, cur, net'⟩
      dsimp only
      by_cases hall : cur = rest
      · rw [if_pos hall, if_pos hall]
      rw [if_neg hall, if_neg hall]
      by_cases hpos : 0 < cur
      · rw [if_pos hpos, if_pos hpos, ih]
        obtain ⟨hcur, -⟩ := safeTcpRecvN_length hrecv hpos
        rw [hcur, Int.toNat_natCast, Buf.write_append]
      · rw [if_neg hpos, if_neg hpos]

theorem recvBytes_length (turns : Nat) : ∀ {rest : Nat} {net net' : List Net} {bytes : List UInt8}, 0 < rest →
    recvBytes turns rest net = (bytes, true, net') → bytes.length = rest := by
  induction turns with
  | zero =>
      intro rest net net' bytes _ h
      cases h
  | succ turns ih =>
      intro rest net net' bytes hrest h
      unfold recvBytes at h
      rcases hrecv : safeTcpRecvN rest [] net with ⟨got, cur, net''⟩
      rw [hrecv] at h
      dsimp only at h
      split at h
      · rename_i hall
        obtain ⟨rfl, -⟩ := Prod.mk.inj h
        obtain ⟨hcur, -⟩ := safeTcpRecvN_length hrecv (by omega)
        omega
      split at h
      · rename_i hall hpos
        obtain ⟨hcur, hle⟩ := safeTcpRecvN_length hrecv hpos
        rcases hmore : recvBytes turns (rest - cur.toNat) net'' with ⟨more, ok, net₂⟩
        rw [hmore] at h
        obtain ⟨rfl, hok⟩ := Prod.mk.inj h
        obtain ⟨rfl, rfl⟩ := Prod.mk.inj hok
        have := ih (by omega) hmore
        rw [List.length_append, this]
        omega
      · cases h

/-! ## Packets -/

/-- The bytes of the next packet, if its head is right and all of it arrives. -/
def nextPacket (net : List Net) : Option (List UInt8 × List Net) :=
  let (head, n, net) := safeTcpRecvN protoHeadLen [] net
  if n < protoHeadLen then none
  else
    let packetLen := (Buf.ofList head).load32 0
    if (Buf.ofList head).load16 8 ≠ protoDirtyGetFile ∨ packetLen > dirtyFilePacketMaxLen then none
    else if packetLen ≤ protoHeadLen then some (head, net)
    else
      let (body, ok, net) := recvBytes packetLen (packetLen - protoHeadLen) net
      if ok then some (head ++ body, net) else none

theorem load32_write {bytes : List UInt8} {off : Nat} (buf : Buf) (h : off + 4 ≤ bytes.length) :
    (buf.write 0 bytes).load32 off = (Buf.ofList bytes).load32 off :=
  Buf.load32_congr fun i _ hi => Buf.write_zero_inside buf (by omega)

theorem load16_write {bytes : List UInt8} {off : Nat} (buf : Buf) (h : off + 2 ≤ bytes.length) :
    (buf.write 0 bytes).load16 off = (Buf.ofList bytes).load16 off := by
  unfold Buf.load16
  rw [Buf.write_zero_inside buf (by omega), Buf.write_zero_inside buf (by omega)]

theorem load32_ofList_append {bytes more : List UInt8} {off : Nat} (h : off + 4 ≤ bytes.length) :
    (Buf.ofList (bytes ++ more)).load32 off = (Buf.ofList bytes).load32 off := by
  refine Buf.load32_congr fun i _ hi => ?_
  unfold Buf.ofList
  rw [List.getElem?_append_left (by omega)]

/-- The length of a packet is the announced one, or that of the head when this is longer. -/
theorem nextPacket_length (h : nextPacket net = some (bytes, net')) :
    bytes.length = max protoHeadLen ((Buf.ofList bytes).load32 0) := by
  unfold nextPacket at h
  rcases hrecv : safeTcpRecvN protoHeadLen [] net with ⟨head, n, net₁⟩
  rw [hrecv] at h
  dsimp only at h
  split at h
  · cases h
  rename_i hn
  obtain ⟨hcount, hle⟩ := safeTcpRecvN_length hrecv (by unfold protoHeadLen at hn; omega)
  have hhead : head.length = protoHeadLen := by omega
  split at h
  · cases h
  split at h
  · rename_i hshort
    obtain ⟨rfl, -⟩ := Prod.mk.inj (Option.some.inj h)
    omega
  · rename_i hlong
    rcases hbody : recvBytes ((Buf.ofList head).load32 0) ((Buf.ofList head).load32 0 - protoHeadLen) net₁ with
      ⟨body, ok, net₂⟩
    rw [hbody] at h
    dsimp only at h
    split at h
    · rename_i hok
      subst hok
      obtain ⟨rfl, -⟩ := Prod.mk.inj (Option.some.inj h)
      rw [load32_ofList_append (by unfold protoHeadLen at hhead; omega), List.length_append,
        recvBytes_length _ (by omega) hbody]
      omega
    · cases h

/-- Between two packets the next one is read off the stream alone. -/
theorem packet_eq (h : r.curRecvLen = 0) : r.packet = (nextPacket r.net).map fun b =>
    { packetLen := (Buf.ofList b.1).load32 0, buf := r.buf.write 0 b.1, net := b.2
      totalRecvLen := b.1.length } := by
  unfold RecvFile.packet nextPacket recvHead recvInto
  rw [h, if_neg (by decide)]
  dsimp only
  rw [show (((protoHeadLen : Nat) : Int) - 0).toNat = protoHeadLen from rfl, show (0 : Int).toNat = 0 from rfl]
  rcases hrecv : safeTcpRecvN protoHeadLen [] r.net with ⟨head, n, net⟩
  dsimp only
  by_cases hn : n < protoHeadLen
  · rw [if_pos hn, show decide ((0 : Int) + n ≥ ((protoHeadLen : Nat) : Int) - 0) = false by simpa using hn]
    rfl
  rw [if_neg hn, show decide ((0 : Int) + n ≥ ((protoHeadLen : Nat) : Int) - 0) = true by simpa using hn]
  dsimp only
  obtain ⟨hcount, hle⟩ := safeTcpRecvN_length hrecv (by unfold protoHeadLen at hn; omega)
  have hhead : head.length = protoHeadLen := by omega
  rw [load32_write r.buf (by rw [hhead]; decide), load16_write r.buf (by rw [hhead]; decide)]
  split
  · rfl
  have hn : (0 : Int) + n = protoHeadLen := by omega
  rw [hn]
  by_cases hshort : (Buf.ofList head).load32 0 ≤ protoHeadLen
  · have hlt : ¬ ((protoHeadLen : Nat) : Int) < ((Buf.ofList head).load32 0 : Nat) := by omega
    simp only [if_neg hlt, if_pos hshort, if_true, Option.map_some, hhead]
  · have hlt : ((protoHeadLen : Nat) : Int) < ((Buf.ofList head).load32 0 : Nat) := by omega
    simp only [if_pos hlt, if_neg hshort, recvRest_eq, Int.toNat_natCast]
    rcases hbody : recvBytes ((Buf.ofList head).load32 0) ((Buf.ofList head).load32 0 - protoHeadLen) net with
      ⟨body, ok, net'⟩
    cases ok with
    | false => rfl
    | true =>
        have hbuf : (r.buf.write 0 head).write protoHeadLen body = r.buf.write 0 (head ++ body) := by
          rw [← Buf.write_append, hhead, Nat.zero_add]
        have hlen : (head ++ body).length = (Buf.ofList head).load32 0 := by
          rw [List.length_append, recvBytes_length _ (by omega) hbody]
          omega
        simp only [if_true, Option.map_some]
        rw [hbuf, hlen, load32_ofList_append (by rw [hhead]; decide)]

/-- The packet that is taken from the stream between two packets. -/
def RecvFile.packetOf (r : RecvFile) (bytes : List UInt8) (net : List Net) : Packet where
  packetLen := (Buf.ofList bytes).load32 0
  buf := r.buf.write 0 bytes
  net := net
  totalRecvLen := bytes.length

theorem packet_of_next (h0 : r.curRecvLen = 0) (h : nextPacket r.net = some (bytes, net')) :
    r.packet = some (r.packetOf bytes net') := by
  rw [packet_eq h0, h]
  rfl

theorem packet_of_none (h0 : r.curRecvLen = 0) (h : nextPacket r.net = none) : r.packet = none := by
  rw [packet_eq h0, h]
  rfl

/-! ## The fields of a packet -/

theorem ofList_drop {bytes : List UInt8} {off n : Nat} (h : bytes.length = off + n) :
    (Buf.ofList bytes).slice off n = bytes.drop off := by
  apply List.ext_getElem?
  intro i
  by_cases hi : i < n
  · rw [Buf.getElem?_slice _ _ hi, List.getElem?_drop]
    unfold Buf.ofList
    rw [List.getElem?_eq_getElem (by omega)]
    rfl
  · rw [List.getElem?_eq_none (by simpa using hi), List.getElem?_eq_none (by rw [List.length_drop]; omega)]

/-- The fields of a packet that has them all are those of its bytes. -/
theorem packetOf_fields (r : RecvFile) (net : List Net) (h : dirtyFilePacketFixLen ≤ bytes.length) :
    (r.packetOf bytes net).totallen = (Buf.ofList bytes).load32 34 ∧
      (r.packetOf bytes net).endable = (Buf.ofList bytes).load32 38 ∧
      (r.packetOf bytes net).blockLen = (Buf.ofList bytes).load32 74 ∧
      (r.packetOf bytes net).buf.slice 18 16 = (Buf.ofList bytes).slice 18 16 := by
  unfold dirtyFilePacketFixLen at h
  refine ⟨load32_write r.buf (by omega), load32_write r.buf (by omega), load32_write r.buf (by omega), ?_⟩
  exact Buf.slice_congr fun i _ hi => Buf.write_zero_inside r.buf (by omega)

/-- The block of a packet whose length is right is the rest of its bytes. -/
theorem packetOf_block (r : RecvFile) (net : List Net)
    (h : bytes.length = dirtyFilePacketFixLen + (Buf.ofList bytes).load32 74) :
    (r.packetOf bytes net).block = bytes.drop dirtyFilePacketFixLen := by
  obtain ⟨-, -, hlen, -⟩ := packetOf_fields r net (Nat.le.intro h.symm)
  unfold Packet.block
  rw [hlen, ← ofList_drop h]
  exact Buf.slice_congr fun i _ hi => Buf.write_zero_inside r.buf (by omega)

/-- Behind a packet whose length is right nothing has been read too much. -/
theorem afterPacket_packetOf (r : RecvFile) (net : List Net) (h : bytes.length = (Buf.ofList bytes).load32 0) :
    r.afterPacket (r.packetOf bytes net) =
      { buf := r.buf.write 0 bytes, net := net, curRecvLen := 0, fileLen := (r.packetOf bytes net).totallen
        newFile := some (r.newFile.getD [] ++ (r.packetOf bytes net).block)
        servrMd5 := some (r.servrMd5.getD ((r.packetOf bytes net).buf.slice 18 16)) } := by
  have hzero : (r.packetOf bytes net).totalRecvLen - (r.packetOf bytes net).packetLen = 0 := by
    show (bytes.length : Int) - ((Buf.ofList bytes).load32 0 : Nat) = 0
    omega
  have hbuf : (fun i => if ((i : Nat) : Int) < 0 then
      (r.packetOf bytes net).buf (dirtyFilePacketFixLen + (r.packetOf bytes net).blockLen + i)
      else (r.packetOf bytes net).buf i) = r.buf.write 0 bytes := by
    funext i
    exact if_neg (by omega)
  unfold RecvFile.afterPacket
  rw [hzero, hbuf]
  rfl

instance (canCreate : Bool) (r : RecvFile) (p : Packet) : Decidable (r.Accepts canCreate p) :=
  inferInstanceAs (Decidable (_ ∧ _ ∧ _ ∧ _))

/-- What the loop does with a packet, as one equation. -/
theorem recvFile_packet (fuel : Nat) (hp : r.packet = some p) : recvFile canCreate (fuel + 1) r =
    if ¬ (p.endable = 0 ∨ p.endable = 1) then some (.failed r.newFile)
    else if p.totallen = 0 then some (.nothingNew r.newFile)
    else if ¬ r.Accepts canCreate p then some (.failed r.newFile)
    else if p.endable = 1 then
      some (.complete (r.newFile.getD [] ++ p.block) (r.servrMd5.getD (p.buf.slice 18 16)))
    else recvFile canCreate fuel (r.afterPacket p) := by
  rcases recvFile_succ canCreate fuel r with ⟨hnone, -⟩ | ⟨p', hp', hr⟩
  · rw [hp] at hnone
    cases hnone
  obtain rfl := Option.some.inj (hp.symm.trans hp')
  generalize recvFile canCreate (fuel + 1) r = reply at hr ⊢
  cases hr with
  | nothingNew hend htotal => rw [if_neg (not_not_intro hend), if_pos htotal]
  | refused hno =>
      rcases hno with hno | ⟨htotal, hno⟩
      · rw [if_pos hno]
      · by_cases hend : p.endable = 0 ∨ p.endable = 1
        · rw [if_neg (not_not_intro hend), if_neg htotal, if_pos hno]
        · rw [if_pos hend]
  | last haccept hend =>
      rw [if_neg (not_not_intro (.inr hend)), if_neg haccept.1, if_neg (not_not_intro haccept), if_pos hend]
  | next haccept hend =>
      rw [if_neg (not_not_intro (.inl hend)), if_neg haccept.1, if_neg (not_not_intro haccept),
        if_neg (by rw [hend]; decide)]

theorem recvFile_noPacket (fuel : Nat) (hp : r.packet = none) :
    recvFile canCreate (fuel + 1) r = some (.failed r.newFile) := by
  rcases recvFile_succ canCreate fuel r with ⟨-, hr⟩ | ⟨p', hp', -⟩
  · exact hr
  · rw [hp] at hp'
    cases hp'

end Taomee.Dirty
