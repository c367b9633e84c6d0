import Mathlib.Data.Nat.Bitwise
import Mathlib.Tactic.Ring

/-!
# Completion tags and payloads

Every submission carries a `UserData`: an operation tag, the slot of the connection it works for,
and a payload whose meaning depends on the tag.  A completion hands the same `UserData` back, and
its handler has nothing else to tell which operation, and which occupant of the slot, it belongs
to.

The send payloads pack a pool slot with as much of the connection's generation as fits beside it:
16 bits for `sendPayload`, 15 for `sendPolloutPayload`, which also carries a flag.
-/

set_option autoImplicit false

namespace Ringline.Uring

/-- `OpTag`, restricted to the operations of TCP connections. -/
inductive OpTag where
  | recvMulti | send | sendMsgZc | close | shutdown | tlsSend | connect | timeout | cancel
  | sendRecvBuf | sendPollOut | sendMsgCoalesced | sendMsgCoalescedPollOut
  | sendRecvBufsCoalesced | sendRecvBufsCoalescedPollOut | recvFallback | forwardWrite
  | forwardWritePollOut | parkInstall
deriving DecidableEq, Repr

/-- `UserData`, with its three bit fields kept apart. -/
structure UserData where
  tag : OpTag
  connIndex : Nat
  payload : Nat
deriving DecidableEq, Repr

namespace UserData

/-- Pool slot in the low 16 bits, the low 16 bits of the generation above them. -/
def sendPayload (slot generation : Nat) : Nat := slot ||| ((generation &&& 0xFFFF) <<< 16)

variable (payload : Nat)

def sendPayloadSlot : Nat := payload &&& 0xFFFF

def sendPayloadGen : Nat := (payload >>> 16) &&& 0xFFFF

/-- Pool slot, the TLS flag in bit 16, the low 15 bits of the generation above it. -/
def sendPolloutPayload (slot : Nat) (isTls : Bool) (generation : Nat) : Nat :=
  slot ||| (isTls.toNat <<< 16) ||| ((generation &&& 0x7FFF) <<< 17)

def sendPolloutIsTls : Bool := (payload >>> 16) &&& 1 == 1

def sendPolloutGen : Nat := (payload >>> 17) &&& 0x7FFF

/-! ## What the two packings keep -/

theorem and_mask_sixteen (n : Nat) : n &&& 0xFFFF = n % 65536 := Nat.and_two_pow_sub_one_eq_mod n 16

theorem and_mask_fifteen (n : Nat) : n &&& 0x7FFF = n % 32768 := Nat.and_two_pow_sub_one_eq_mod n 15

variable {slot : Nat}

section

variable (h : slot < 65536)

include h

theorem sendPayload_eq (generation : Nat) :
    sendPayload slot generation = (generation % 65536) * 65536 + slot := by
  rw [sendPayload, and_mask_sixteen, Nat.or_comm,
    ← Nat.shiftLeft_add_eq_or_of_lt (i := 16) (by simpa using h), Nat.shiftLeft_eq]

theorem sendPolloutPayload_eq (isTls : Bool) (generation : Nat) :
    sendPolloutPayload slot isTls generation =
      (generation % 32768) * 131072 + isTls.toNat * 65536 + slot := by
  have hlow : slot ||| isTls.toNat <<< 16 = isTls.toNat * 65536 + slot := by
    rw [Nat.or_comm, ← Nat.shiftLeft_add_eq_or_of_lt (i := 16) (by simpa using h),
      Nat.shiftLeft_eq]
  have hlt : isTls.toNat * 65536 + slot < 2 ^ 17 := by
    have : isTls.toNat ≤ 1 := Bool.toNat_le isTls
    omega
  rw [sendPolloutPayload, hlow, and_mask_fifteen, Nat.or_comm,
    ← Nat.shiftLeft_add_eq_or_of_lt hlt, Nat.shiftLeft_eq]
  omega

@[simp] theorem sendPayloadSlot_sendPayload (generation : Nat) :
    sendPayloadSlot (sendPayload slot generation) = slot := by
  rw [sendPayloadSlot, and_mask_sixteen, sendPayload_eq h]
  omega

@[simp] theorem sendPayloadGen_sendPayload (generation : Nat) :
    sendPayloadGen (sendPayload slot generation) = generation % 65536 := by
  rw [sendPayloadGen, and_mask_sixteen, sendPayload_eq h, Nat.shiftRight_eq_div_pow]
  omega

@[simp] theorem sendPayloadSlot_sendPolloutPayload (isTls : Bool) (generation : Nat) :
    sendPayloadSlot (sendPolloutPayload slot isTls generation) = slot := by
  rw [sendPayloadSlot, and_mask_sixteen, sendPolloutPayload_eq h]
  omega

@[simp] theorem sendPolloutGen_sendPolloutPayload (isTls : Bool) (generation : Nat) :
    sendPolloutGen (sendPolloutPayload slot isTls generation) = generation % 32768 := by
  have : isTls.toNat ≤ 1 := Bool.toNat_le isTls
  rw [sendPolloutGen, and_mask_fifteen, sendPolloutPayload_eq h, Nat.shiftRight_eq_div_pow]
  omega

end

end UserData
end Ringline.Uring
