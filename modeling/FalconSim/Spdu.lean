import Mathlib

/-!
# The SPDU fragment: the unit the simulator puts on the wire

Model of the data declared in `src/falcon-sim/Vehicle.h` and of the two helpers at the top of
`src/falcon-sim/src/Vehicle.cpp` that every later module reads: `make_message_key`
(`Vehicle.cpp:31-33`) and `clamp_fragment_size` (`Vehicle.cpp:35-40`).

* `SpduFragment` is `Vehicle::spdu_fragment` with the fields some modelled function reads or
  writes. The C++ field types are kept: `uint8_t`, `uint16_t`, `uint32_t` and `unsigned int`
  (32 bits on the hosts the simulator targets) are `UInt8`, `UInt16`, `UInt32`. The
  `std::array<uint8_t, 512>` payload is `FragmentArray`, a byte list that carries its length.
* `ieee1609dot2data_ecdsa_explicit` and `bsm` come from headers that are not in the sources
  (`ieee16092.h`, `bsm.h`). `Ieee1609Dot2Data` keeps what the core touches: the tbsData (the BSM
  and the header's microsecond timestamp), the certificate's byte image and the certificate
  signature. The timestamp is assigned from the `timestamp` alias of `Vehicle.cpp:29`, a
  `time_point` whose count is an `int64_t`: a `BitVec 64`, read signed. A BSM's five `float`s
  are carried as their IEEE-754 bit patterns: the core only copies, hashes and signs them.
* The LLC/WSMP framing fields are constants that no function reads; they are left out.

Results:
* `makeMessageKey_toNat`, `makeMessageKey_inj`: the 64-bit key is `2^32 * vehicle_id +
  sequence_number`, so two fragments share a reassembly entry exactly when they agree on both.
* `clampFragmentSize_pos`, `clampFragmentSize_le`: the clamped fragment size is in `[1, maximum]`
  for every requested `size_t`.
-/

namespace FalconSim

/-- `MAX_SIGNATURE_FRAGMENT_SIZE`. -/
def maxSignatureFragmentSize : Nat := 512

/-- `MAX_SIGNATURE_TOTAL_SIZE`. -/
def maxSignatureTotalSize : Nat := 1536

/-- `enum class signature_scheme`. -/
inductive SignatureScheme where
  | ecdsa
  | falcon
  deriving DecidableEq, Repr, Inhabited

/-- `static_cast<uint8_t>(scheme)`: `ECDSA = 0`, `FALCON = 1`. -/
def SignatureScheme.toUInt8 : SignatureScheme → UInt8
  | .ecdsa => 0
  | .falcon => 1

/-- `pqc_options` with its default member initializers. `compression` is read by no function of
the core and is left out. -/
structure PqcOptions where
  scheme : SignatureScheme := .ecdsa
  falconFragmentSize : Nat := 256
  deriving DecidableEq, Repr

/-- `bsm`: latitude, longitude, elevation, speed and heading, as `float` bit patterns. -/
structure Bsm where
  latitude : UInt32
  longitude : UInt32
  elevation : UInt32
  speed : UInt32
  heading : UInt32
  deriving DecidableEq, Repr, Inhabited

/-- `tbsData`: the BSM and `headerInfo.timestamp`, the `int64_t` count of microseconds since the
epoch that `generate_spdu` stores from a `time_point<system_clock, microseconds>`. -/
structure TbsData where
  message : Bsm
  timestamp : BitVec 64
  deriving DecidableEq, Repr, Inhabited

/-- `ieee1609dot2data_ecdsa_explicit` as the core reads it. -/
structure Ieee1609Dot2Data where
  tbsData : TbsData
  cert : List UInt8
  certificateSignature : List UInt8
  deriving DecidableEq, Repr, Inhabited

/-- `std::array<uint8_t, MAX_SIGNATURE_FRAGMENT_SIZE>`. -/
structure FragmentArray where
  bytes : List UInt8
  length_eq : bytes.length = maxSignatureFragmentSize
  deriving DecidableEq, Repr

/-- `signature_fragment.fill(0)` followed by a copy of `l` to its start. Every caller copies at
most `MAX_SIGNATURE_FRAGMENT_SIZE` bytes, so the `take` never cuts. -/
def FragmentArray.ofPrefix (l : List UInt8) : FragmentArray :=
  ⟨(l ++ List.replicate maxSignatureFragmentSize 0).take maxSignatureFragmentSize, by simp⟩

/-- A value-initialised array: all zeros. -/
def FragmentArray.zero : FragmentArray := FragmentArray.ofPrefix []

instance : Inhabited FragmentArray := ⟨FragmentArray.zero⟩

/-- `Vehicle::spdu_fragment`, with its default member initializers. -/
structure SpduFragment where
  vehicleId : UInt8 := 0
  sequenceNumber : UInt32 := 0
  signatureScheme : UInt8 := 0
  fragmentIndex : UInt16 := 0
  fragmentCount : UInt16 := 1
  signatureBufferLength : UInt32 := 0
  fragmentLength : UInt32 := 0
  signatureOffset : UInt32 := 0
  certificateSignatureBufferLength : UInt32 := 0
  data : Ieee1609Dot2Data := default
  signatureFragment : FragmentArray := FragmentArray.zero
  deriving DecidableEq, Repr

instance : Inhabited SpduFragment := ⟨{}⟩

/-! ## `make_message_key` -/

/-- `make_message_key`: `(vehicle_id << 32) | sequence_number` in 64 bits. -/
def makeMessageKey (vehicleId : UInt8) (sequenceNumber : UInt32) : UInt64 :=
  (vehicleId.toUInt64 <<< 32) ||| sequenceNumber.toUInt64

/-- The reassembly key of a fragment. -/
def SpduFragment.key (f : SpduFragment) : UInt64 :=
  makeMessageKey f.vehicleId f.sequenceNumber

theorem makeMessageKey_toNat (vehicleId : UInt8) (sequenceNumber : UInt32) :
    (makeMessageKey vehicleId sequenceNumber).toNat =
      2 ^ 32 * vehicleId.toNat + sequenceNumber.toNat := by
  have hv := vehicleId.toNat_lt_size
  have hs := sequenceNumber.toNat_lt_size
  simp only [UInt8.size, UInt32.size] at hv hs
  rw [Nat.mul_add_lt_is_or (by omega)]
  show ((vehicleId.toUInt64.toBitVec <<< (UInt64.mod 32 64).toBitVec) |||
    sequenceNumber.toUInt64.toBitVec).toNat = _
  simp [BitVec.toNat_shiftLeft, UInt8.toUInt64, UInt32.toUInt64, Nat.shiftLeft_eq, UInt64.mod,
    Nat.mul_comm]
  rw [Nat.mod_eq_of_lt (by omega)]

/-- **No key collision.** The shift leaves the 32 bits of the sequence number free, and a
`uint8_t` identity fits above them. -/
theorem makeMessageKey_inj {v v' : UInt8} {s s' : UInt32} :
    makeMessageKey v s = makeMessageKey v' s' ↔ v = v' ∧ s = s' := by
  refine ⟨fun h => ?_, fun ⟨hv, hs⟩ => hv ▸ hs ▸ rfl⟩
  have h' := congrArg UInt64.toNat h
  rw [makeMessageKey_toNat, makeMessageKey_toNat] at h'
  have := s.toNat_lt_size
  have := s'.toNat_lt_size
  simp only [UInt32.size] at *
  exact ⟨UInt8.toNat.inj (by omega), UInt32.toNat.inj (by omega)⟩

/-! ## `clamp_fragment_size` -/

/-- `clamp_fragment_size(requested, maximum)`: `0` asks for the maximum. -/
def clampFragmentSize (requested maximum : Nat) : Nat :=
  if requested = 0 then maximum else min requested maximum

theorem clampFragmentSize_le (requested maximum : Nat) :
    clampFragmentSize requested maximum ≤ maximum := by
  unfold clampFragmentSize
  split <;> omega

theorem clampFragmentSize_pos (requested : Nat) {maximum : Nat} (h : 0 < maximum) :
    0 < clampFragmentSize requested maximum := by
  unfold clampFragmentSize
  split <;> omega

/-! ## Machine integers and `Except` -/

theorem u8_le_iff {a b : UInt8} : a ≤ b ↔ a.toNat ≤ b.toNat := Iff.rfl

theorem u8_eq_iff {a b : UInt8} : a = b ↔ a.toNat = b.toNat := ⟨congrArg _, UInt8.toNat.inj⟩

theorem u8_add_toNat (a b : UInt8) : (a + b).toNat = (a.toNat + b.toNat) % 256 :=
  BitVec.toNat_add ..

theorem u8_sub_toNat (a b : UInt8) (h : b.toNat ≤ a.toNat) : (a - b).toNat = a.toNat - b.toNat :=
  UInt8.toNat_sub_of_le a b h

theorem bind_eq_ok {ε α β : Type} {x : Except ε α} {f : α → Except ε β} {b : β} :
    x >>= f = .ok b ↔ ∃ a, x = .ok a ∧ f a = .ok b := by
  cases x <;> simp [bind, Except.bind]

end FalconSim
