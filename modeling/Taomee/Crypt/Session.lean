import Taomee.Crypt.RoundTrip

/-!
# Login sessions (project/utilities.h)

A session is 16 encrypted bytes that name the address, the time and the user. `time_t` is a signed
integer of 64 bits, and the times are those of `time(0)`.
-/

namespace Taomee.Crypt

/-! ## utilities.h -/

/-- `LOGIN_DES_KEY`, with and without `TW_VER`. -/
def loginDesKey (twVer : Bool) : Buf :=
  if twVer then fun i => [0x2C, 0x2E, 0x74, 0x61, 0x30, 0x6D, 0x65, 0x3E].getD i 0
  else fun i => [0x21, 0x74, 0x41, 0x3A, 0x6D, 0x45, 0x76, 0x2C].getD i 0

/-- A `time_t` stored in a `uint32_t`. -/
def time32 (time : Int) : Nat := (time % 2 ^ 32).toNat

/-- `inbuf` of `encrypt_login_session` as it is filled. -/
def loginInbuf (mem : Buf) (inbuf : Nat) (uid ip : UInt32) (time : Int) : Buf :=
  let mem := mem.store32 inbuf ip.toNat
  let mem := mem.store32 (inbuf + 4) (time32 time)
  let mem := mem.store32 (inbuf + 8) uid.toNat
  mem.store32 (inbuf + 12) (mem.load32 (inbuf + 4))

/-- `encrypt_login_session` at a time, with its array at `inbuf`: the memory and the return value. -/
def encryptLoginSession (twVer : Bool) (mem : Buf) (inbuf buf : Nat) (uid ip : UInt32) (time : Int) :
    Buf × Int :=
  (desEncryptN (loginDesKey twVer) (loginInbuf mem inbuf uid ip time) inbuf buf 2, 16)

/-- `verify_login_session` at a time, with its array at `outbuf`. -/
def verifyLoginSession (twVer : Bool) (mem : Buf) (outbuf : Nat) (uid : UInt32) (sess : Nat) (time : Int) :
    Int :=
  let mem := desDecryptN (loginDesKey twVer) mem sess outbuf 2
  let diff := time - mem.load32 (outbuf + 4)
  if mem.load32 (outbuf + 8) ≠ uid.toNat ∨ mem.load32 (outbuf + 4) ≠ mem.load32 (outbuf + 12) ∨
      diff > 1800 ∨ diff < -1800 then -1
  else 0

/-! ## The window -/

/-- The two arrays of 16 bytes have no byte in common. -/
def Apart (a b : Nat) : Prop := a + 16 ≤ b ∨ b + 16 ≤ a

theorem Apart.sameOrApart {a b : Nat} (h : Apart a b) : SameOrApart a b 2 := .inr h

variable {mem : Buf} {inbuf : Nat} {uid ip : UInt32} {time : Int}

theorem time32_lt (time : Int) : time32 time < 2 ^ 32 := by
  unfold time32
  omega

theorem time32_of_range (h0 : 0 ≤ time) (h1 : time < 2 ^ 32) : (time32 time : Int) = time := by
  unfold time32
  omega

theorem load32_skip (mem : Buf) {a b : Nat} (n : Nat) (h : a + 4 ≤ b ∨ b + 4 ≤ a) :
    (mem.store32 b n).load32 a = mem.load32 a :=
  Buf.load32_congr fun _ _ _ => Buf.store32_outside _ _ (by omega)

theorem loginInbuf_words (mem : Buf) (inbuf : Nat) (uid ip : UInt32) (time : Int) :
    (loginInbuf mem inbuf uid ip time).load32 (inbuf + 4) = time32 time ∧
      (loginInbuf mem inbuf uid ip time).load32 (inbuf + 8) = uid.toNat ∧
      (loginInbuf mem inbuf uid ip time).load32 (inbuf + 12) = time32 time := by
  have ht := time32_lt time
  have hu : uid.toNat < 2 ^ 32 := uid.toNat_lt
  unfold loginInbuf
  dsimp only
  have hread : (((mem.store32 inbuf ip.toNat).store32 (inbuf + 4) (time32 time)).store32 (inbuf + 8)
      uid.toNat).load32 (inbuf + 4) = time32 time := by
    rw [load32_skip _ _ (by omega), Buf.load32_store32 _ _ ht]
  refine ⟨?_, ?_, ?_⟩
  · rw [load32_skip _ _ (by omega), hread]
  · rw [load32_skip _ _ (by omega), Buf.load32_store32 _ _ hu]
  · rw [hread, Buf.load32_store32 _ _ ht]

/-- A session is accepted for its own user only, half an hour around its time. -/
theorem verifyLoginSession_iff (twVer : Bool) (mem mem' : Buf) (inbuf buf outbuf sess : Nat)
    (uid uid' ip : UInt32) (t1 t2 : Int) (ht1 : 0 ≤ t1 ∧ t1 < 2 ^ 32)
    (hbuf : Apart inbuf buf) (hout : Apart sess outbuf)
    (hsess : ∀ i, i < 16 → mem' (sess + i) = (encryptLoginSession twVer mem inbuf buf uid ip t1).1 (buf + i)) :
    verifyLoginSession twVer mem' outbuf uid' sess t2 = 0 ↔
      uid' = uid ∧ -1800 ≤ t2 - t1 ∧ t2 - t1 ≤ 1800 := by
  have hbyte : ∀ i, i < 16 → desDecryptN (loginDesKey twVer) mem' sess outbuf 2 (outbuf + i) =
      loginInbuf mem inbuf uid ip t1 (inbuf + i) := fun i hi =>
    desLoop_copy _ true _ _ hbuf.sameOrApart hout.sameOrApart hsess hi
  have hword : ∀ k, k ≤ 12 → (desDecryptN (loginDesKey twVer) mem' sess outbuf 2).load32 (outbuf + k) =
      (loginInbuf mem inbuf uid ip t1).load32 (inbuf + k) := by
    intro k hk
    unfold Buf.load32
    simp only [Nat.add_assoc]
    rw [hbyte k (by omega), hbyte (k + 1) (by omega), hbyte (k + 2) (by omega), hbyte (k + 3) (by omega)]
  obtain ⟨hw4, hw8, hw12⟩ := loginInbuf_words mem inbuf uid ip t1
  unfold verifyLoginSession
  dsimp only
  rw [hword 4 (by omega), hword 8 (by omega), hword 12 (by omega), hw4, hw8, hw12,
    time32_of_range ht1.1 ht1.2]
  have huid : uid.toNat ≠ uid'.toNat ↔ uid' ≠ uid := by
    rw [ne_comm, ne_eq, ne_eq, UInt32.toNat_inj]
  split
  · rename_i hbad
    rw [huid] at hbad
    constructor
    · intro h
      cases h
    · rintro ⟨rfl, hlow, hhigh⟩
      rcases hbad with h | h | h | h
      · exact absurd rfl h
      · exact absurd rfl h
      · omega
      · omega
  · rename_i hgood
    rw [huid] at hgood
    obtain ⟨huid, hgood⟩ := not_or.mp hgood
    obtain ⟨-, hgood⟩ := not_or.mp hgood
    obtain ⟨hhigh, hlow⟩ := not_or.mp hgood
    exact ⟨fun _ => ⟨not_not.mp huid, Int.not_lt.mp hlow, Int.not_lt.mp hhigh⟩, fun _ => rfl⟩

/-- A session of user 50000 made at time 1000, checked in place half an hour later. -/
theorem verifyLoginSession_iff_halfHour :
    verifyLoginSession false (encryptLoginSession false UInt8.ofNat 0 16 50000 0 1000).1 32 50000 16 2800 = 0 ↔
      (50000 : UInt32) = 50000 ∧ (-1800 : Int) ≤ 2800 - 1000 ∧ (2800 : Int) - 1000 ≤ 1800 :=
  verifyLoginSession_iff false UInt8.ofNat _ 0 16 32 16 50000 50000 0 1000 2800 (by omega)
    (.inl (by omega)) (.inl (by omega)) fun _ _ => rfl

end Taomee.Crypt
