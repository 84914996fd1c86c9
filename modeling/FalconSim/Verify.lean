import FalconSim.Keys
import FalconSim.Receive
import FalconSim.Sign

/-!
# The hand-off: verifying a completed entry

Model of `Vehicle::verify_message` (`Vehicle.cpp:525-578`), which the receive loop calls on each
completed entry with the receive time and `incoming.vehicle_id` (lines 316-319).

* `ecdsa_verify`, `falcon_verify` and `sha256sum` come from headers and libraries that are not in
  the sources. `Verifiers` gives what the verifications return for what they are passed; every
  theorem quantifies over it.
* `load_key` (`Vehicle.cpp:583-609`) opens `keys/<id>/p256.key`, then `cert_keys/<id>/p256.key`,
  and ends the process when a file is missing or holds no EC private key. Parsing PEM is
  OpenSSL's, outside the sources: `Verifiers.loadKey` gives, for each path, whether the call
  returns or the message the process ends with.
* The ECDSA branch passes `assembled_signature.data()` with `&spdu.signature_buffer_length`: the
  primitive reads that many bytes of the buffer. The Falcon branch passes the buffer with its own
  size. `signatureRead` is the byte string each branch hands over; it is `none` (undefined
  behaviour) when the ECDSA length runs past the buffer.
* The Falcon branch loads the sender's public key through the cache of `load_falcon_public_key`
  (`Keys.lean`); a failed load ends the process, `.error` with its message.
* `recent` (lines 574-576): `received_time - timestamp` subtracts two `int64_t` microsecond
  counts; a difference outside `int64_t` is signed overflow, undefined behaviour. The difference,
  as a `double` count of milliseconds, is then compared with `30000`, which holds exactly when it
  is below `30 000 000` µs. The receive time is the clock's reading, an `Int` here.
* The calls run in the source's order, so an earlier exit hides a later undefined operation: the
  key loads, the signature read, the Falcon public key, then the subtraction.

Results:
* `handoff_lengths_differ`: two datagrams of one key that disagree on `signature_buffer_length`
  complete an entry whose template records 20 bytes over a 10-byte buffer, and the ECDSA branch
  reads past it. The buffer and the bitmap are sized by an entry's first fragment, the template's
  lengths by its last.
* `handoff_lengths_consistent`: when the datagrams of each key agree on `signature_buffer_length`
  and `fragment_count` (as an honest sender's do), every entry `receive` hands on has a buffer of
  the template's length and a bitmap of its count, and both branches verify the whole buffer.
-/

namespace FalconSim

/-- What the external functions return. -/
structure Verifiers where
  /-- `ecdsa_verify` of the certificate's digest against `certificate_signature` and its length,
  under the certificate key of the vehicle. -/
  certificateValid : Ieee1609Dot2Data → UInt32 → UInt8 → Bool
  /-- `ecdsa_verify` of the tbsData's digest against the signature bytes, under the vehicle's
  key. -/
  ecdsaValid : TbsData → List UInt8 → UInt8 → Bool
  /-- `falcon_verify` of the tbsData's bytes against the signature and the public key. -/
  falconValid : TbsData → List UInt8 → List UInt8 → Bool
  /-- `load_key` on a key file: it returns, or the process ends with the message it prints. -/
  loadKey : String → Except String Unit

/-- The file `load_key(number, certificate, key)` opens (lines 584-585). -/
def keyPath (number : Nat) (certificate : Bool) : String :=
  (if certificate then "cert_keys/" else "keys/") ++ toString number ++ "/p256.key"

/-- Lines 530-531: the vehicle's signing key, then its certificate key. -/
def Verifiers.loadKeys (vf : Verifiers) (number : Nat) : Except String Unit := do
  vf.loadKey (keyPath number false)
  vf.loadKey (keyPath number true)

/-- The first `length` bytes of `buffer`, read through a pointer to its data. -/
def readN (buffer : List UInt8) (length : Nat) : Option (List UInt8) :=
  if length ≤ buffer.length then some (buffer.take length) else none

/-- The signature bytes lines 552-567 hand to the scheme's verification: `signature_buffer_length`
bytes for ECDSA, the whole buffer for Falcon (any tag but `ECDSA`). -/
def signatureRead (spdu : SpduFragment) (assembledSignature : List UInt8) : Option (List UInt8) :=
  if spdu.signatureScheme = SignatureScheme.ecdsa.toUInt8 then
    readN assembledSignature spdu.signatureBufferLength.toNat
  else some assembledSignature

/-- Lines 574-576: `elapsed_time.count() < 30000` milliseconds, `none` when the `int64_t`
subtraction overflows. -/
def recent (receivedTime : Int) (timestamp : BitVec 64) : Option Bool :=
  let elapsed := receivedTime - timestamp.toInt
  if -2 ^ 63 ≤ elapsed ∧ elapsed < 2 ^ 63 then some (decide (elapsed < 30000000)) else none

/-- `Vehicle::verify_message`, with the public-key cache it threads. -/
def verifyMessage (vf : Verifiers) (publicKeyLength : Nat) (files : Nat → Option (List UInt8))
    (cache : KeyCache) (spdu : SpduFragment) (assembledSignature : List UInt8)
    (receivedTime : Int) (vehicleId : UInt8) : Option (Except String (Bool × KeyCache)) :=
  match vf.loadKeys vehicleId.toNat with
  | .error e => some (.error e)
  | .ok () => do
    let certResult := vf.certificateValid spdu.data spdu.certificateSignatureBufferLength vehicleId
    let signature ← signatureRead spdu assembledSignature
    if spdu.signatureScheme = SignatureScheme.ecdsa.toUInt8 then
      let isRecent ← recent receivedTime spdu.data.tbsData.timestamp
      pure (.ok (certResult && vf.ecdsaValid spdu.data.tbsData signature vehicleId && isRecent,
        cache))
    else
      match loadFalconPublicKey publicKeyLength files cache vehicleId.toNat with
      | .error e => pure (.error e)
      | .ok loaded => do
        let isRecent ← recent receivedTime spdu.data.tbsData.timestamp
        pure (.ok (certResult && vf.falconValid spdu.data.tbsData signature loaded.1 && isRecent,
          loaded.2))

/-- `verify_message` on a completion. -/
def Completion.verify (c : Completion) (vf : Verifiers) (publicKeyLength : Nat)
    (files : Nat → Option (List UInt8)) (cache : KeyCache) :
    Option (Except String (Bool × KeyCache)) :=
  verifyMessage vf publicKeyLength files cache c.entry.templateFragment c.entry.signatureBuffer
    c.receivedTime c.vehicleId

/-- An entry sized as its template says is read whole by either branch. -/
theorem signatureRead_of_sized {e : PendingMessage} (h : EntrySized e.templateFragment.sizes e) :
    signatureRead e.templateFragment e.signatureBuffer = some e.signatureBuffer := by
  have hl : e.templateFragment.signatureBufferLength.toNat = e.signatureBuffer.length :=
    h.buffer.symm
  unfold signatureRead readN
  split
  · rw [if_pos hl.le, hl, List.take_length]
  · rfl

/-! ## Sizes at the hand-off -/

/-- Fragment 0 of 2 of a key, announcing a 10-byte signature and carrying its 10 bytes. -/
def announcesTenBytes : SpduFragment :=
  { signatureBufferLength := 10, fragmentCount := 2, fragmentLength := 10 }

/-- Fragment 1 of 2 of the same key, announcing 20 bytes and carrying none. -/
def announcesTwentyBytes : SpduFragment :=
  { signatureBufferLength := 20, fragmentCount := 2, fragmentIndex := 1 }

/-- The first fragment sizes the buffer at 10 bytes; the second completes the entry and writes
20 into the template. `verify_message`'s ECDSA branch then reads 20 bytes of a 10-byte buffer. -/
theorem handoff_lengths_differ :
    ∃ s c, receive 1 Receiver.init [(announcesTenBytes, 0), (announcesTwentyBytes, 0)] =
      some (s, [none, some c], []) ∧
      c.entry.templateFragment.signatureBufferLength.toNat = 20 ∧
      c.entry.signatureBuffer.length = 10 ∧
      signatureRead c.entry.templateFragment c.entry.signatureBuffer = none := by
  let buf := announcesTenBytes.signatureFragment.bytes.take 10
  have hbuf : buf.length = 10 := by
    simp [buf, announcesTenBytes.signatureFragment.length_eq, maxSignatureFragmentSize]
  let e₁ := updateTemplate { initEntry announcesTenBytes 0 with
    signatureBuffer := buf, fragmentsReceived := [true, false] } announcesTenBytes
  have h₁ : updateEntry (Receiver.init.pendingMessages announcesTenBytes.key) announcesTenBytes 0 =
      some e₁ := by
    rw [updateEntry, Receiver.init, lookupEntry_none, storeFragment_of_fresh
      (e := initEntry announcesTenBytes 0) (d := announcesTenBytes) rfl
      (by simp [initEntry, announcesTenBytes]) (by decide)]
    rfl
  let s₁ : Receiver := { Receiver.init.markFirst 0 with
    pendingMessages :=
      Function.update Receiver.init.pendingMessages announcesTenBytes.key (some e₁) }
  let e₂ := updateTemplate { e₁ with fragmentsReceived := [true, true] } announcesTwentyBytes
  have h₂ : updateEntry (s₁.pendingMessages announcesTwentyBytes.key) announcesTwentyBytes 0 =
      some e₂ := by
    have hk : announcesTwentyBytes.key = announcesTenBytes.key := rfl
    have hne : e₁.signatureBuffer ≠ [] := by
      rw [← List.length_pos]; show 0 < buf.length; omega
    rw [updateEntry, hk, show s₁.pendingMessages announcesTenBytes.key = some e₁ by simp [s₁],
      lookupEntry_some hne, storeFragment_of_fresh (e := e₁) (d := announcesTwentyBytes) rfl
        (by show 0 + 0 ≤ buf.length; omega) (by decide)]
    rfl
  let c : Completion := ⟨e₂, 0, announcesTwentyBytes.vehicleId⟩
  let s₂ : Receiver := { s₁.markFirst 0 with
    pendingMessages := Function.update s₁.pendingMessages announcesTwentyBytes.key none
    completedMessages := s₁.completedMessages + 1
    lastCompletionTime := 0 }
  have hrun : receive 1 Receiver.init [(announcesTenBytes, 0), (announcesTwentyBytes, 0)] =
      some (s₂, [none, some c], []) := by
    rw [receive_cons_of_lt (r := (s₁, none)) (by decide)
        (by rw [receiveFragment_of_updateEntry h₁]; rfl),
      receive_cons_of_lt (r := (s₂, some c)) (by decide)
        (by rw [receiveFragment_of_updateEntry h₂]; rfl)]
    rfl
  have hb : e₁.signatureBuffer.length = 10 := hbuf
  exact ⟨s₂, c, hrun, rfl, hbuf, by
    simp [signatureRead, readN, c, e₂, updateTemplate, announcesTwentyBytes, hb, UInt32.size,
      SignatureScheme.toUInt8]⟩

/-- The sizes the first datagram of each key announces. -/
def firstSizes (ds : List Datagram) (k : UInt64) : UInt32 × UInt16 :=
  ((ds.find? fun d => d.1.key = k).map fun d => d.1.sizes).getD (0, 0)

theorem firstSizes_eq {ds : List Datagram}
    (hagree : ∀ d ∈ ds, ∀ d' ∈ ds, d.1.key = d'.1.key →
      d.1.signatureBufferLength = d'.1.signatureBufferLength ∧
        d.1.fragmentCount = d'.1.fragmentCount)
    {d : Datagram} (hd : d ∈ ds) : d.1.sizes = firstSizes ds d.1.key := by
  unfold firstSizes
  cases hf : ds.find? fun d' => d'.1.key = d.1.key with
  | none => exact absurd (List.find?_eq_none.mp hf d hd) (by simp)
  | some d' =>
    have hk : d'.1.key = d.1.key := by simpa using List.find?_some hf
    obtain ⟨h₁, h₂⟩ := hagree d hd d' (List.mem_of_find?_eq_some hf) hk.symm
    simp [SpduFragment.sizes, h₁, h₂]

/-- **The hand-off is self-consistent when each key's datagrams agree on their sizes.** For any
datagrams whose fragments of one key announce one `signature_buffer_length` and one
`fragment_count`, every entry `receive` hands to `verify_message` has a buffer of the template's
`signature_buffer_length` bytes and a bitmap of its `fragment_count` entries, and both branches
of `verify_message` hand the whole buffer to their verification. -/
theorem handoff_lengths_consistent (numMsgs : Nat) (ds : List Datagram)
    (hagree : ∀ d ∈ ds, ∀ d' ∈ ds, d.1.key = d'.1.key →
      d.1.signatureBufferLength = d'.1.signatureBufferLength ∧
        d.1.fragmentCount = d'.1.fragmentCount)
    {s : Receiver} {outs : List (Option Completion)} {rest : List Datagram}
    (h : receive numMsgs Receiver.init ds = some (s, outs, rest)) :
    ∀ o ∈ outs, ∀ c ∈ o,
      c.entry.signatureBuffer.length = c.entry.templateFragment.signatureBufferLength.toNat ∧
      c.entry.fragmentsReceived.length = c.entry.templateFragment.fragmentCount.toNat ∧
      signatureRead c.entry.templateFragment c.entry.signatureBuffer =
        some c.entry.signatureBuffer := by
  obtain ⟨pre, rfl, hrun, -⟩ := receive_eq_some h
  have hd : ∀ d ∈ pre, d.1.sizes = firstSizes (pre ++ rest) d.1.key :=
    fun d hd => firstSizes_eq hagree (List.mem_append_left rest hd)
  have hsized := (runBody_sizesAgree hd (fun _ _ h => by cases h) hrun).2
  intro o ho c hc
  have hc' := hsized o ho c hc
  exact ⟨hc'.buffer, hc'.bitmap, signatureRead_of_sized hc'⟩

/-- The three fragments of the Falcon sample signature, delivered in order: every entry handed
on has the buffer and the bitmap its template announces, and is read whole. -/
theorem handoff_lengths_consistent_falcon :
    (∀ d ∈ ((prepareSignedFragments falconSampleVehicle falconSamplePrimitives 0 0).toOption.getD
        []).map (·, (0 : Int)), ∀ d' ∈ ((prepareSignedFragments falconSampleVehicle
          falconSamplePrimitives 0 0).toOption.getD []).map (·, (0 : Int)),
      d.1.key = d'.1.key → d.1.signatureBufferLength = d'.1.signatureBufferLength ∧
        d.1.fragmentCount = d'.1.fragmentCount) ∧
    ∃ s outs rest, receive 1 Receiver.init (((prepareSignedFragments falconSampleVehicle
        falconSamplePrimitives 0 0).toOption.getD []).map (·, (0 : Int))) = some (s, outs, rest) ∧
      ∀ o ∈ outs, ∀ c ∈ o,
        c.entry.signatureBuffer.length = c.entry.templateFragment.signatureBufferLength.toNat ∧
        c.entry.fragmentsReceived.length = c.entry.templateFragment.fragmentCount.toNat ∧
        signatureRead c.entry.templateFragment c.entry.signatureBuffer =
          some c.entry.signatureBuffer := by
  set L := ((prepareSignedFragments falconSampleVehicle falconSamplePrimitives 0 0).toOption.getD
    []).map (·, (0 : Int))
  -- every fragment announces three bytes in three fragments, and carries one byte
  have hsizes : ∀ d ∈ L, d.1.signatureBufferLength = 3 ∧ d.1.fragmentCount = 3 ∧
      d.1.fragmentLength = 1 := by
    have hmap : L.map (fun d => (d.1.signatureBufferLength, d.1.fragmentCount,
        d.1.fragmentLength)) = [(3, 3, 1), (3, 3, 1), (3, 3, 1)] := rfl
    intro d hd
    have := List.mem_map_of_mem (fun d : Datagram => (d.1.signatureBufferLength,
      d.1.fragmentCount, d.1.fragmentLength)) hd
    rw [hmap] at this
    simpa using this
  have hagree : ∀ d ∈ L, ∀ d' ∈ L, d.1.key = d'.1.key →
      d.1.signatureBufferLength = d'.1.signatureBufferLength ∧
        d.1.fragmentCount = d'.1.fragmentCount := fun d hd d' hd' _ =>
    ⟨(hsizes d hd).1.trans (hsizes d' hd').1.symm,
      (hsizes d hd).2.1.trans (hsizes d' hd').2.1.symm⟩
  obtain ⟨s, outs, rest, h⟩ :=
    receive_exists (fun d hd => by rw [(hsizes d hd).2.2]; decide) 1 Receiver.init
  exact ⟨hagree, s, outs, rest, h, handoff_lengths_consistent 1 _ hagree h⟩

end FalconSim
