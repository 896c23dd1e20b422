import Taomee.Dirty.Update

/-!
# The packets of a file

The receive loop takes one packet after the other. Whether it ends with a packet that announces an empty
file is read off the packets, without the loop.
-/

namespace Taomee.Dirty

variable {fuel : Nat} {canCreate : Bool} {r : RecvFile} {c : Cycle} {localMd5Dgst : List UInt8}

/-- A packet that has arrived whole. -/
structure Packet where
  packetLen : Nat
  buf : Buf
  net : List Net
  totalRecvLen : Int

def Packet.totallen (p : Packet) : Nat := p.buf.load32 34
def Packet.endable (p : Packet) : Nat := p.buf.load32 38
def Packet.blockLen (p : Packet) : Nat := p.buf.load32 74
def Packet.block (p : Packet) : List UInt8 := p.buf.slice dirtyFilePacketFixLen p.blockLen

/-- The next packet, if its head is right and all of it arrives. -/
def RecvFile.packet (r : RecvFile) : Option Packet :=
  match recvHead r with
  | (_, _, _, false) => none
  | (buf, curRecvLen, net, true) =>
      let packetLen := buf.load32 0
      if buf.load16 8 ≠ protoDirtyGetFile ∨ packetLen > dirtyFilePacketMaxLen then none
      else
        let (buf, ok, net) :=
          if curRecvLen < packetLen then
            recvRest packetLen buf curRecvLen.toNat (packetLen - curRecvLen.toNat) net
          else (buf, true, net)
        if ok then
          some { packetLen := packetLen, buf := buf, net := net
                 totalRecvLen := if curRecvLen < packetLen then (packetLen : Int) else curRecvLen }
        else none

/-- The packet holds a block of the file, and the block can be written. -/
def RecvFile.Accepts (canCreate : Bool) (r : RecvFile) (p : Packet) : Prop :=
  p.totallen ≠ 0 ∧ (r.fileLen = 0 ∨ r.fileLen = p.totallen) ∧ p.packetLen = dirtyFilePacketFixLen + p.blockLen ∧
    (r.newFile ≠ none ∨ canCreate = true)

/-- The locals after a packet that is not the last. -/
def RecvFile.afterPacket (r : RecvFile) (p : Packet) : RecvFile where
  buf := fun i =>
    if (i : Int) < p.totalRecvLen - p.packetLen then p.buf (dirtyFilePacketFixLen + p.blockLen + i) else p.buf i
  net := p.net
  curRecvLen := p.totalRecvLen - p.packetLen
  fileLen := p.totallen
  newFile := some (r.newFile.getD [] ++ p.block)
  servrMd5 := some (r.servrMd5.getD (p.buf.slice 18 16))

/-- What the loop does with a packet. -/
inductive PacketResult (canCreate : Bool) (fuel : Nat) (r : RecvFile) (p : Packet) : Option Reply → Prop
  | nothingNew : p.endable = 0 ∨ p.endable = 1 → p.totallen = 0 →
      PacketResult canCreate fuel r p (some (.nothingNew r.newFile))
  | refused : ¬ (p.endable = 0 ∨ p.endable = 1) ∨ p.totallen ≠ 0 ∧ ¬ r.Accepts canCreate p →
      PacketResult canCreate fuel r p (some (.failed r.newFile))
  | last : r.Accepts canCreate p → p.endable = 1 →
      PacketResult canCreate fuel r p
        (some (.complete (r.newFile.getD [] ++ p.block) (r.servrMd5.getD (p.buf.slice 18 16))))
  | next : r.Accepts canCreate p → p.endable = 0 →
      PacketResult canCreate fuel r p (recvFile canCreate fuel (r.afterPacket p))

theorem recvFile_succ (canCreate : Bool) (fuel : Nat) (r : RecvFile) :
    (r.packet = none ∧ recvFile canCreate (fuel + 1) r = some (.failed r.newFile)) ∨
      ∃ p, r.packet = some p ∧ PacketResult canCreate fuel r p (recvFile canCreate (fuel + 1) r) := by
  unfold RecvFile.packet
  rw [recvFile]
  rcases recvHead r with ⟨buf, curRecvLen, net, ok⟩
  cases ok with
  | false => exact .inl ⟨rfl, rfl⟩
  | true =>
      dsimp only
      by_cases hhead : buf.load16 8 ≠ protoDirtyGetFile ∨ buf.load32 0 > dirtyFilePacketMaxLen
      · rw [if_pos hhead, if_pos hhead]
        exact .inl ⟨rfl, rfl⟩
      rw [if_neg hhead, if_neg hhead]
      generalize (if curRecvLen < ((buf.load32 0 : Nat) : Int) then
        recvRest (buf.load32 0) buf curRecvLen.toNat (buf.load32 0 - curRecvLen.toNat) net
        else (buf, true, net)) = rest
      generalize (if curRecvLen < ((buf.load32 0 : Nat) : Int) then ((buf.load32 0 : Nat) : Int) else curRecvLen) = total
      generalize buf.load32 0 = packetLen
      obtain ⟨buf, ok, net⟩ := rest
      dsimp only
      cases ok with
      | false => exact .inl ⟨rfl, rfl⟩
      | true =>
          refine .inr ⟨_, rfl, ?_⟩
          rw [if_neg (by decide)]
          generalize hp : (⟨packetLen, buf, net, total⟩ : Packet) = p
          have hend : buf.load32 38 = p.endable := by rw [← hp]; rfl
          have htotal : buf.load32 34 = p.totallen := by rw [← hp]; rfl
          have hblock : buf.load32 74 = p.blockLen := by rw [← hp]; rfl
          rw [hend, htotal, hblock]
          by_cases h1 : p.endable ≠ 0 ∧ p.endable ≠ 1
          · rw [if_pos h1]
            exact .refused (.inl (by omega))
          rw [if_neg h1]
          by_cases h2 : p.totallen = 0
          · rw [if_pos h2]
            exact .nothingNew (by omega) h2
          rw [if_neg h2]
          by_cases h3 : r.fileLen ≠ 0 ∧ r.fileLen ≠ p.totallen
          · rw [if_pos h3]
            refine .refused (.inr ⟨h2, fun h => ?_⟩)
            rcases h.2.1 with h | h
            · exact h3.1 h
            · exact h3.2 h
          rw [if_neg h3]
          by_cases h4 : packetLen ≠ dirtyFilePacketFixLen + p.blockLen
          · rw [if_pos h4]
            refine .refused (.inr ⟨h2, fun h => h4 ?_⟩)
            rw [← h.2.2.1, ← hp]
          rw [if_neg h4]
          by_cases h5 : r.newFile = none ∧ canCreate = false
          · rw [if_pos h5]
            refine .refused (.inr ⟨h2, fun h => ?_⟩)
            rcases h.2.2.2 with h | h
            · exact h h5.1
            · rw [h5.2] at h
              cases h
          rw [if_neg h5]
          have haccept : r.Accepts canCreate p := by
            refine ⟨h2, by omega, ?_, ?_⟩
            · rw [← Decidable.not_not.1 h4, ← hp]
            · by_cases hn : r.newFile = none
              · right
                cases canCreate with
                | true => rfl
                | false => exact absurd ⟨hn, rfl⟩ h5
              · exact .inl hn
          by_cases h6 : p.endable = 1
          · rw [if_pos h6]
            have := @PacketResult.last canCreate fuel r p haccept h6
            rw [← hp] at this ⊢
            exact this
          · rw [if_neg h6]
            have := @PacketResult.next canCreate fuel r p haccept (by omega)
            rw [← hp] at this ⊢
            exact this

/-! ## A packet with an empty file -/

/-- Behind blocks that can be written comes a packet that announces an empty file. -/
inductive AnnouncesNothing (canCreate : Bool) : RecvFile → Prop
  | here {r : RecvFile} {p : Packet} : r.packet = some p → p.endable = 0 ∨ p.endable = 1 → p.totallen = 0 →
      AnnouncesNothing canCreate r
  | behind {r : RecvFile} {p : Packet} : r.packet = some p → r.Accepts canCreate p → p.endable = 0 →
      AnnouncesNothing canCreate (r.afterPacket p) → AnnouncesNothing canCreate r

theorem recvFile_nothingNew {fuel : Nat} {newFile : Option (List UInt8)} : ∀ {r : RecvFile},
    recvFile canCreate fuel r = some (.nothingNew newFile) → AnnouncesNothing canCreate r := by
  induction fuel with
  | zero =>
      intro r h
      cases h
  | succ fuel ih =>
      intro r h
      rcases recvFile_succ canCreate fuel r with ⟨-, hr⟩ | ⟨p, hp, hr⟩
      · rw [h] at hr
        cases hr
      · generalize recvFile canCreate (fuel + 1) r = reply at h hr
        cases hr with
        | nothingNew hend htotal => exact .here hp hend htotal
        | refused => cases h
        | last => cases h
        | next haccept hend => exact .behind hp haccept hend (ih h)

theorem AnnouncesNothing.recvFile (h : AnnouncesNothing canCreate r) :
    ∃ fuel newFile, recvFile canCreate fuel r = some (.nothingNew newFile) := by
  induction h with
  | @here r p hp hend htotal =>
      refine ⟨1, r.newFile, ?_⟩
      rcases recvFile_succ canCreate 0 r with ⟨hnone, -⟩ | ⟨p', hp', hr⟩
      · rw [hp] at hnone
        cases hnone
      obtain rfl := Option.some.inj (hp.symm.trans hp')
      generalize Dirty.recvFile canCreate (0 + 1) r = reply at hr ⊢
      cases hr with
      | nothingNew => rfl
      | refused hno => exact absurd hno (by omega)
      | last haccept => exact absurd htotal haccept.1
      | next haccept => exact absurd htotal haccept.1
  | @behind r p hp haccept hend _ ih =>
      obtain ⟨fuel, newFile, hfuel⟩ := ih
      refine ⟨fuel + 1, newFile, ?_⟩
      rcases recvFile_succ canCreate fuel r with ⟨hnone, -⟩ | ⟨p', hp', hr⟩
      · rw [hp] at hnone
        cases hnone
      obtain rfl := Option.some.inj (hp.symm.trans hp')
      generalize Dirty.recvFile canCreate (fuel + 1) r = reply at hr ⊢
      cases hr with
      | nothingNew _ htotal => exact absurd htotal haccept.1
      | refused hno =>
          rcases hno with hno | hno
          · exact absurd (Or.inl hend) hno
          · exact absurd haccept hno.2
      | last _ hlast => omega
      | next => exact hfuel

/-! ## Asking for the file -/

/-- The locals of the receive loop at its start, if the server has announced another digest and the file
has been asked for. -/
def asksForFile (c : Cycle) (localMd5Dgst : List UInt8) : Option RecvFile :=
  let totalRecvLen := protoHeadLen + 16
  let (buf, n, net) := recvInto (tmDirtyInitProtoHead c.buf protoHeadLen protoDirtyCmpMd5) 0 totalRecvLen c.net
  if c.sendMd5Ok = true ∧ n ≥ totalRecvLen ∧ buf.load16 8 = protoDirtyCmpMd5 ∧ buf.load32 0 = totalRecvLen ∧
      localMd5Dgst ≠ buf.slice protoHeadLen 16 ∧ c.sendFileOk = true then
    some
      { buf := tmDirtyInitProtoHead buf (protoHeadLen + 48) protoDirtyGetFile, net := net, curRecvLen := 0
        fileLen := 0, newFile := none, servrMd5 := none }
  else none

/-- The talk with the server ends before the loop, or as the loop does. -/
theorem exchange_cases (fuel : Nat) (c : Cycle) (localMd5Dgst : List UInt8) :
    (asksForFile c localMd5Dgst = none ∧
        (exchange fuel c localMd5Dgst = some (.failed none) ∨ exchange fuel c localMd5Dgst = some (.upToDate localMd5Dgst))) ∨
      ∃ r, asksForFile c localMd5Dgst = some r ∧ exchange fuel c localMd5Dgst = recvFile c.canCreate fuel r := by
  unfold exchange asksForFile
  dsimp only
  rcases recvInto (tmDirtyInitProtoHead c.buf protoHeadLen protoDirtyCmpMd5) 0 (protoHeadLen + 16) c.net with
    ⟨buf, n, net⟩
  dsimp only
  by_cases h1 : c.sendMd5Ok = false
  · rw [if_pos h1, if_neg fun h => by rw [h1] at h; exact absurd h.1 (by decide)]
    exact .inl ⟨rfl, .inl rfl⟩
  rw [if_neg h1]
  by_cases h2 : n < ((protoHeadLen + 16 : Nat) : Int)
  · rw [if_pos h2, if_neg fun h => absurd h2 (Int.not_lt.2 h.2.1)]
    exact .inl ⟨rfl, .inl rfl⟩
  rw [if_neg h2]
  by_cases h3 : buf.load16 8 ≠ protoDirtyCmpMd5 ∨ buf.load32 0 ≠ protoHeadLen + 16
  · rw [if_pos h3, if_neg fun h => h3.elim (fun hc => hc h.2.2.1) fun hl => hl h.2.2.2.1]
    exact .inl ⟨rfl, .inl rfl⟩
  rw [if_neg h3]
  by_cases h4 : localMd5Dgst = buf.slice protoHeadLen 16
  · rw [if_pos h4, if_neg fun h => h.2.2.2.2.1 h4]
    exact .inl ⟨rfl, .inr rfl⟩
  rw [if_neg h4]
  by_cases h5 : c.sendFileOk = false
  · rw [if_pos h5, if_neg fun h => by rw [h5] at h; exact absurd h.2.2.2.2.2 (by decide)]
    exact .inl ⟨rfl, .inl rfl⟩
  rw [if_neg h5, if_pos]
  · exact .inr ⟨_, rfl, rfl⟩
  · exact ⟨eq_true_of_ne_false h1, Int.not_lt.1 h2, Decidable.not_not.1 fun h => h3 (.inl h),
      Decidable.not_not.1 fun h => h3 (.inr h), h4, eq_true_of_ne_false h5⟩

end Taomee.Dirty
