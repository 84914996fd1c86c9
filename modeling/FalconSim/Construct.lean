import FalconSim.Keys
import FalconSim.Transmit

/-!
# Building a vehicle: the constructor and the signer's fatal errors

Model of the constructor `Vehicle(number, pqc_opts)` (`Vehicle.h:95-105`), as far as the
signing path reads what it builds, and of the fatal errors of the two signers
(`Vehicle.cpp:86-97, 457-523`).

* `load_key` and `load_trace` are opaque here: what they load is the certificate, `ECDSA_size` of
  the signing key and the trace `generate_bsm` reads (`Trace.lean` models `load_trace` and the
  samples, `Transmitter.lean` the BSMs they give). Each of their failures ends the process
  before the constructor returns.
* With the Falcon scheme the constructor calls `load_falcon_private_key(number)`, which ends the
  process on any failure (`Keys.lean`); with ECDSA the Falcon key stays empty. The constructor's
  `int number` is stored in a `uint8_t`; `main` passes `i < num_vehicles ≤ 255`, where the two
  agree, so the key file is named by the stored number.
* The liboqs secret-key length `secretKeyLength` is a parameter, positive for every Falcon
  parameter set.

Results:
* `prepareSignedFragments_eq_error`: the two fatal errors of signing, and when each is raised.
* `prepareSignedFragments_error_of_create`: a constructed vehicle's signer fails only when the
  scheme is ECDSA and `ECDSA_size` exceeds 512, with the message of `sign_message_ecdsa`. The key
  check of `sign_message_falcon` never fires: the constructor has loaded a key of the expected,
  positive length. `Transmitter.lean` lifts this to the whole transmitter.
-/

namespace FalconSim

/-- The constructor `Vehicle(number, pqc_opts)`, once `load_key` and `load_trace` have returned:
with the Falcon scheme it loads the secret key from its file, ending the process on failure. -/
def Vehicle.create (number : UInt8) (pqc : PqcOptions) (vehicleCertificateEcdsa : List UInt8)
    (ecdsaSize secretKeyLength : Nat) (keyFile : Option (List UInt8)) : Except String Vehicle :=
  match pqc.scheme with
  | .falcon => (loadFalconPrivateKey secretKeyLength number.toNat keyFile).map fun key =>
      ⟨number, pqc, vehicleCertificateEcdsa, ecdsaSize, key⟩
  | .ecdsa => .ok ⟨number, pqc, vehicleCertificateEcdsa, ecdsaSize, []⟩

/-- What a constructed vehicle holds: its options, its `ECDSA_size`, and with the Falcon scheme a
secret key of the expected length. -/
theorem Vehicle.create_spec {number : UInt8} {pqc : PqcOptions} {certificate : List UInt8}
    {ecdsaSize secretKeyLength : Nat} {keyFile : Option (List UInt8)} {v : Vehicle}
    (h : Vehicle.create number pqc certificate ecdsaSize secretKeyLength keyFile = .ok v) :
    v.pqc = pqc ∧ v.ecdsaSize = ecdsaSize ∧
      (pqc.scheme = .falcon → v.falconPrivateKey.length = secretKeyLength) := by
  unfold Vehicle.create at h
  split at h
  · rename_i hs
    cases hk : loadFalconPrivateKey secretKeyLength number.toNat keyFile with
    | error e => simp [hk, Except.map] at h
    | ok key =>
      simp only [hk, Except.map, Except.ok.injEq] at h
      subst h
      exact ⟨rfl, rfl, fun _ => loadKeyFile_length hk⟩
  · rename_i hs
    cases h
    exact ⟨rfl, rfl, fun h => by simp [hs] at h⟩

variable {v : Vehicle} {p : Primitives}

/-- **The fatal errors of signing**: an `ECDSA_size` above 512 under ECDSA, an empty Falcon key
under Falcon, each with the message the code prints. -/
theorem prepareSignedFragments_eq_error {sequenceNumber : UInt32} {timestep : Nat} {e : String} :
    prepareSignedFragments v p sequenceNumber timestep = .error e ↔
      (v.pqc.scheme = .ecdsa ∧ maxSignatureFragmentSize < v.ecdsaSize ∧
        e = "ECDSA signature exceeds maximum fragment size") ∨
      (v.pqc.scheme = .falcon ∧ v.falconPrivateKey = [] ∧
        e = "Falcon private key not loaded") := by
  unfold prepareSignedFragments
  cases hs : v.pqc.scheme with
  | ecdsa =>
    unfold signMessageEcdsa
    by_cases hz : v.ecdsaSize > maxSignatureFragmentSize
    · simp [hz, bind, Except.bind, eq_comm]
    · simp [hz, bind, Except.bind, pure, Except.pure]
  | falcon =>
    unfold signMessageFalcon
    by_cases hk : v.falconPrivateKey = []
    · simp [hk, eq_comm]
    · simp [hk, List.isEmpty_iff]

/-- **A constructed vehicle's signer fails only on an oversized ECDSA key** (`Vehicle.h:95-105`,
`Vehicle.cpp:86-97, 457-523`), whatever the primitives and whichever the message, and then with
the message of `sign_message_ecdsa`. The key check of `sign_message_falcon` never fires: the
constructor either loaded a key of the positive liboqs length or ended the process. -/
theorem prepareSignedFragments_error_of_create {number : UInt8} {pqc : PqcOptions}
    {certificate : List UInt8} {ecdsaSize secretKeyLength : Nat} {keyFile : Option (List UInt8)}
    (hk : 0 < secretKeyLength)
    (hv : Vehicle.create number pqc certificate ecdsaSize secretKeyLength keyFile = .ok v)
    (p : Primitives) (i : Nat) (e : String) :
    prepareSignedFragments v p (UInt32.ofNat i) i = .error e ↔
      pqc.scheme = .ecdsa ∧ maxSignatureFragmentSize < ecdsaSize ∧
        e = "ECDSA signature exceeds maximum fragment size" := by
  obtain ⟨rfl, rfl, hkey⟩ := Vehicle.create_spec hv
  rw [prepareSignedFragments_eq_error]
  refine or_iff_left fun hf => ?_
  have hlen := hkey hf.1
  rw [hf.2.1, List.length_nil] at hlen
  omega

end FalconSim
