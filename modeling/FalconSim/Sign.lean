import FalconSim.Spdu

/-!
# Signing: one SPDU, one or more fragments

Model of `Vehicle::generate_spdu` (`Vehicle.cpp:388-409`), `Vehicle::sign_message_ecdsa`
(`Vehicle.cpp:457-477`), `Vehicle::sign_message_falcon` (`Vehicle.cpp:479-523`) and
`Vehicle::prepare_signed_fragments` (`Vehicle.cpp:86-97`).

* `Vehicle` holds what these functions read of a `Vehicle` object: its number, its options, its
  certificate, `ECDSA_size` of its signing key and its Falcon secret key.
* The cryptographic primitives and the clock are opaque. `Primitives` gives what they return to
  one vehicle: the BSM of a timestep, and for a sequence number the timestamp (the clock's
  `int64_t` microsecond count) and the two signatures. Every theorem quantifies over them. The
  BSM is what `generate_bsm` returns for a timestep within the vehicle's trace (`Trace.lean`);
  `Transmitter.lean` builds it from the loaded trace and shows where the trace runs out.
* `sign_message_ecdsa` signs into a zeroed vector of `ECDSA_size` bytes and copies the whole
  vector into the zeroed 512-byte array; the signature length it records is the primitive's.
* The loop of `sign_message_falcon` is a `map` over `[0, fragment_count)` of `falconFragment`.
  Its `size_t` subtraction never wraps: `idx < fragment_count` puts the offset below the length.
* A fatal error (`exit(EXIT_FAILURE)`) is `.error` with the message printed.

Results:
* `Fragmentation`: the partition of spec §3 ("Invariants"), as a structure of properties.
* `signMessageFalcon_fragmentation`, `signMessageEcdsa_fragmentation`: each signer's output is
  the partition of its signature, with `⌈|s| / f⌉` fragments of `f = clamp(r, 512)` bytes for
  Falcon and one fragment of `|s|` bytes for ECDSA.
* `prepareSignedFragments_partition`: the fragmentation of §4.3 for every signature length, every
  requested fragment size (`0` and sizes above `512` included) and both schemes, with the
  slices pairwise disjoint and covering `[0, |s|)`.
-/

namespace FalconSim

/-- What the signing path reads of a `Vehicle`. -/
structure Vehicle where
  number : UInt8
  pqc : PqcOptions
  vehicleCertificateEcdsa : List UInt8
  ecdsaSize : Nat
  falconPrivateKey : List UInt8

/-- What `generate_bsm`, the clock, `ecdsa_sign` and `falcon_sign` return to one vehicle:
by timestep for the BSM, by sequence number for the rest. -/
structure Primitives where
  bsm : Nat → Bsm
  clock : Nat → BitVec 64
  certificateSignature : Nat → List UInt8
  ecdsaSignature : Nat → List UInt8
  falconSignature : Nat → List UInt8

/-- `Vehicle::generate_spdu`: a fresh template, the BSM and timestamp, the certificate and the
certificate signature, computed once per SPDU. -/
def generateSpdu (v : Vehicle) (p : Primitives) (sequenceNumber : UInt32) (timestep : Nat) :
    SpduFragment :=
  let certificateSignature := p.certificateSignature sequenceNumber.toNat
  { vehicleId := v.number
    sequenceNumber := sequenceNumber
    certificateSignatureBufferLength := UInt32.ofNat certificateSignature.length
    data :=
      { tbsData := { message := p.bsm timestep, timestamp := p.clock sequenceNumber.toNat }
        cert := v.vehicleCertificateEcdsa
        certificateSignature := certificateSignature } }

/-- `Vehicle::sign_message_ecdsa`. -/
def signMessageEcdsa (v : Vehicle) (p : Primitives) (spdu : SpduFragment) :
    Except String SpduFragment :=
  if v.ecdsaSize > maxSignatureFragmentSize then
    .error "ECDSA signature exceeds maximum fragment size"
  else
    let signature := p.ecdsaSignature spdu.sequenceNumber.toNat
    .ok { spdu with
      signatureBufferLength := UInt32.ofNat signature.length
      fragmentCount := 1
      fragmentIndex := 0
      fragmentLength := UInt32.ofNat signature.length
      signatureOffset := 0
      signatureFragment :=
        FragmentArray.ofPrefix (signature ++ List.replicate (v.ecdsaSize - signature.length) 0) }

/-- The body of the loop of `sign_message_falcon`, at index `idx`. -/
def falconFragment (spdu : SpduFragment) (signature : List UInt8) (fragmentSize fragmentCount : Nat)
    (idx : Nat) : SpduFragment :=
  let signatureOffset := UInt32.ofNat (idx * fragmentSize)
  let remaining := signature.length - signatureOffset.toNat
  let bytesThisFragment := min fragmentSize remaining
  { spdu with
    signatureScheme := SignatureScheme.falcon.toUInt8
    fragmentCount := UInt16.ofNat fragmentCount
    fragmentIndex := UInt16.ofNat idx
    signatureBufferLength := UInt32.ofNat signature.length
    signatureOffset := signatureOffset
    fragmentLength := UInt32.ofNat bytesThisFragment
    signatureFragment :=
      FragmentArray.ofPrefix ((signature.drop signatureOffset.toNat).take bytesThisFragment) }

/-- `Vehicle::sign_message_falcon`. -/
def signMessageFalcon (v : Vehicle) (p : Primitives) (spdu : SpduFragment) :
    Except String (List SpduFragment) :=
  if v.falconPrivateKey.isEmpty then .error "Falcon private key not loaded"
  else
    let signature := p.falconSignature spdu.sequenceNumber.toNat
    let fragmentSize := clampFragmentSize v.pqc.falconFragmentSize maxSignatureFragmentSize
    let fragmentCount := (signature.length + fragmentSize - 1) / fragmentSize
    .ok ((List.range fragmentCount).map (falconFragment spdu signature fragmentSize fragmentCount))

/-- The template `prepare_signed_fragments` signs: `generate_spdu`, then the scheme tag. -/
def baseFragment (v : Vehicle) (p : Primitives) (sequenceNumber : UInt32) (timestep : Nat) :
    SpduFragment :=
  { generateSpdu v p sequenceNumber timestep with signatureScheme := v.pqc.scheme.toUInt8 }

/-- `Vehicle::prepare_signed_fragments`. -/
def prepareSignedFragments (v : Vehicle) (p : Primitives) (sequenceNumber : UInt32)
    (timestep : Nat) : Except String (List SpduFragment) :=
  let base := baseFragment v p sequenceNumber timestep
  match v.pqc.scheme with
  | .ecdsa => do
    let fragment ← signMessageEcdsa v p base
    pure [fragment]
  | .falcon => signMessageFalcon v p base

/-! ## The partition -/

/-- A fragment's slice of the signature:
`[signature_offset, signature_offset + fragment_length)`. -/
def SpduFragment.slice (g : SpduFragment) : Nat × Nat :=
  (g.signatureOffset.toNat, g.signatureOffset.toNat + g.fragmentLength.toNat)

/-- **The partition of spec §3**: `frags` cut `s` into `n` slices of `f` bytes, the last one
possibly shorter, each fragment a copy of `base` but for its fragmentation fields. -/
structure Fragmentation (base : SpduFragment) (s : List UInt8) (f n : Nat)
    (frags : List SpduFragment) : Prop where
  /-- `n` fragments, the `uint16_t` count and indices exact. -/
  length_eq : frags.length = n
  count_lt : n < 2 ^ 16
  index : ∀ i (hi : i < frags.length), frags[i].fragmentIndex.toNat = i
  count : ∀ g ∈ frags, g.fragmentCount.toNat = n
  bufferLength : ∀ g ∈ frags, g.signatureBufferLength.toNat = s.length
  /-- Slice `i` starts at `i * f` and has `min f (|s| - i * f)` bytes. -/
  offset : ∀ i (hi : i < frags.length), frags[i].signatureOffset.toNat = i * f
  fragmentLength : ∀ i (hi : i < frags.length),
    frags[i].fragmentLength.toNat = min f (s.length - i * f)
  /-- The payload is the slice's bytes, zero-padded to 512. -/
  payload : ∀ g ∈ frags, g.signatureFragment.bytes =
    (s.drop g.signatureOffset.toNat).take g.fragmentLength.toNat ++
      List.replicate (maxSignatureFragmentSize - g.fragmentLength.toNat) 0
  /-- The shared fields are the template's. -/
  shared : ∀ g ∈ frags, g.vehicleId = base.vehicleId ∧ g.sequenceNumber = base.sequenceNumber ∧
    g.signatureScheme = base.signatureScheme ∧ g.data = base.data ∧
    g.certificateSignatureBufferLength = base.certificateSignatureBufferLength

theorem ofPrefix_bytes {l : List UInt8} (h : l.length ≤ maxSignatureFragmentSize) :
    (FragmentArray.ofPrefix l).bytes =
      l ++ List.replicate (maxSignatureFragmentSize - l.length) 0 := by
  simp only [FragmentArray.ofPrefix, List.take_append_eq_append_take, List.take_of_length_le h,
    List.take_replicate, List.append_cancel_left_eq]
  congr 1
  omega

namespace Fragmentation

variable {base : SpduFragment} {s : List UInt8} {f n : Nat} {frags : List SpduFragment}

/-- Every slice lies in `[0, |s|)`, and with `|s| ≤ n * f` the slices reach every byte. -/
theorem slices_cover (hF : Fragmentation base s f n frags) (hn : s.length ≤ n * f) (j : Nat) :
    j < s.length ↔ ∃ g ∈ frags, g.slice.1 ≤ j ∧ j < g.slice.2 := by
  constructor
  · intro hj
    have hf : 0 < f := Nat.pos_of_ne_zero fun h => by subst h; rw [Nat.mul_zero] at hn; omega
    have hi : j / f < frags.length := by
      rw [hF.length_eq, Nat.div_lt_iff_lt_mul hf]
      omega
    refine ⟨_, List.getElem_mem hi, ?_⟩
    simp only [SpduFragment.slice, hF.offset _ hi, hF.fragmentLength _ hi]
    have := Nat.div_mul_le_self j f
    have := Nat.lt_div_mul_add (a := j) hf
    omega
  · rintro ⟨g, hg, h₁, h₂⟩
    obtain ⟨i, hi, rfl⟩ := List.mem_iff_getElem.mp hg
    simp only [SpduFragment.slice, hF.offset _ hi, hF.fragmentLength _ hi] at h₁ h₂
    omega

/-- Two slices of distinct indices do not overlap. -/
theorem slices_disjoint (hF : Fragmentation base s f n frags) {i i' : Nat}
    (hi : i < frags.length) (hi' : i' < frags.length) (hne : i ≠ i') :
    frags[i].slice.2 ≤ frags[i'].slice.1 ∨ frags[i'].slice.2 ≤ frags[i].slice.1 := by
  simp only [SpduFragment.slice, hF.offset _ hi, hF.offset _ hi', hF.fragmentLength _ hi,
    hF.fragmentLength _ hi']
  rcases Nat.lt_or_gt_of_ne hne with h | h
  · have := Nat.mul_le_mul_right f (Nat.succ_le_of_lt h)
    rw [Nat.succ_mul] at this
    omega
  · have := Nat.mul_le_mul_right f (Nat.succ_le_of_lt h)
    rw [Nat.succ_mul] at this
    omega

end Fragmentation

theorem length_take_drop_min {s : List UInt8} {off f : Nat} :
    ((s.drop off).take (min f (s.length - off))).length = min f (s.length - off) := by
  simp only [List.length_take, List.length_drop]
  omega

section Falcon

variable {s : List UInt8} {f n : Nat}

/-- The fields of the `idx`-th fragment, as numbers, when every cast is exact. -/
theorem falconFragment_fields (spdu : SpduFragment) (hs : s.length < 2 ^ 16) (hf : f ≤ 512)
    (hn : n < 2 ^ 16) {idx : Nat} (hidx : idx < 2 ^ 16) (hoff : idx * f < 2 ^ 32) :
    let g := falconFragment spdu s f n idx
    g.fragmentIndex.toNat = idx ∧ g.fragmentCount.toNat = n ∧
    g.signatureBufferLength.toNat = s.length ∧ g.signatureOffset.toNat = idx * f ∧
    g.fragmentLength.toNat = min f (s.length - idx * f) ∧
    g.signatureFragment.bytes = (s.drop (idx * f)).take (min f (s.length - idx * f)) ++
      List.replicate (maxSignatureFragmentSize - min f (s.length - idx * f)) 0 := by
  have hoff' : (UInt32.ofNat (idx * f)).toNat = idx * f := UInt32.toNat_ofNat_of_lt hoff
  simp only [falconFragment, hoff']
  refine ⟨UInt16.toNat_ofNat_of_lt hidx, UInt16.toNat_ofNat_of_lt hn,
    UInt32.toNat_ofNat_of_lt (by simp [UInt32.size]; omega),
    trivial, UInt32.toNat_ofNat_of_lt (by simp [UInt32.size]; omega), ?_⟩
  rw [ofPrefix_bytes (by rw [length_take_drop_min]; unfold maxSignatureFragmentSize; omega),
    length_take_drop_min]

/-- Index `i` of `⌈|s| / f⌉` starts inside the signature. -/
theorem mul_lt_of_lt_ceilDiv (hf : 0 < f) {i : Nat} (hi : i < s.length ⌈/⌉ f) :
    i * f < s.length := by
  rw [Nat.ceilDiv_eq_add_pred_div] at hi
  have := (Nat.le_div_iff_mul_le hf).mp hi
  rw [Nat.succ_mul] at this
  omega

theorem ceilDiv_le_length (hf : 0 < f) : s.length ⌈/⌉ f ≤ s.length := by
  rw [Nat.ceilDiv_eq_add_pred_div, ← Nat.lt_succ_iff, Nat.div_lt_iff_lt_mul hf, Nat.succ_mul]
  have := Nat.le_mul_of_pos_right s.length hf
  omega

/-- **`sign_message_falcon` cuts its signature into the partition** of `⌈|s| / f⌉` fragments of
`f = clamp(r, 512)` bytes. -/
theorem signMessageFalcon_fragmentation {v : Vehicle} {p : Primitives} {spdu : SpduFragment}
    {frags : List SpduFragment} (h : signMessageFalcon v p spdu = .ok frags)
    (hsch : spdu.signatureScheme = SignatureScheme.falcon.toUInt8)
    (hs : (p.falconSignature spdu.sequenceNumber.toNat).length ≤ maxSignatureTotalSize) :
    Fragmentation spdu (p.falconSignature spdu.sequenceNumber.toNat)
      (clampFragmentSize v.pqc.falconFragmentSize maxSignatureFragmentSize)
      ((p.falconSignature spdu.sequenceNumber.toNat).length ⌈/⌉
        clampFragmentSize v.pqc.falconFragmentSize maxSignatureFragmentSize) frags := by
  unfold signMessageFalcon at h
  split at h
  · cases h
  injection h with h
  subst h
  generalize p.falconSignature spdu.sequenceNumber.toNat = s at hs ⊢
  generalize hf : clampFragmentSize v.pqc.falconFragmentSize maxSignatureFragmentSize = f
  have hf1 : 0 < f := hf ▸ clampFragmentSize_pos _ (by decide)
  have hf2 : f ≤ 512 := hf ▸ clampFragmentSize_le _ _
  unfold maxSignatureTotalSize at hs
  have hn := ceilDiv_le_length (s := s) hf1
  rw [← Nat.ceilDiv_eq_add_pred_div]
  have fields := fun i (hi : i < s.length ⌈/⌉ f) =>
    falconFragment_fields (s := s) (n := s.length ⌈/⌉ f) spdu (by omega) hf2 (by omega) (by omega)
      (show i * f < 2 ^ 32 by have := mul_lt_of_lt_ceilDiv hf1 hi; omega)
  refine ⟨by simp, by omega, fun i hi => ?_, ?_, ?_, fun i hi => ?_, fun i hi => ?_, ?_, ?_⟩
  · simp only [List.length_map, List.length_range] at hi
    simpa using (fields i hi).1
  · simp only [List.mem_map, List.mem_range]
    rintro g ⟨i, hi, rfl⟩
    exact (fields i hi).2.1
  · simp only [List.mem_map, List.mem_range]
    rintro g ⟨i, hi, rfl⟩
    exact (fields i hi).2.2.1
  · simp only [List.length_map, List.length_range] at hi
    simpa using (fields i hi).2.2.2.1
  · simp only [List.length_map, List.length_range] at hi
    simpa using (fields i hi).2.2.2.2.1
  · simp only [List.mem_map, List.mem_range]
    rintro g ⟨i, hi, rfl⟩
    obtain ⟨-, -, -, ho, hl, hp⟩ := fields i hi
    rw [ho, hl, hp]
  · simp only [List.mem_map, List.mem_range]
    rintro g ⟨i, hi, rfl⟩
    exact ⟨rfl, rfl, hsch.symm, rfl, rfl⟩

end Falcon

/-- **`sign_message_ecdsa` emits the one-slice partition**: one fragment carrying all of `|s|`. -/
theorem signMessageEcdsa_fragmentation {v : Vehicle} {p : Primitives} {spdu g : SpduFragment}
    (h : signMessageEcdsa v p spdu = .ok g)
    (hs : (p.ecdsaSignature spdu.sequenceNumber.toNat).length ≤ maxSignatureFragmentSize) :
    Fragmentation spdu (p.ecdsaSignature spdu.sequenceNumber.toNat)
      (p.ecdsaSignature spdu.sequenceNumber.toNat).length 1 [g] := by
  unfold signMessageEcdsa at h
  split at h
  · cases h
  rename_i he
  injection h with h
  subst h
  generalize p.ecdsaSignature spdu.sequenceNumber.toNat = s at hs ⊢
  unfold maxSignatureFragmentSize at hs he
  have hlen : (UInt32.ofNat s.length).toNat = s.length :=
    UInt32.toNat_ofNat_of_lt (by simp [UInt32.size]; omega)
  have hpad :
      (s ++ List.replicate (v.ecdsaSize - s.length) 0).length ≤ maxSignatureFragmentSize := by
    simp only [List.length_append, List.length_replicate, maxSignatureFragmentSize]
    omega
  refine ⟨rfl, by decide, fun i hi => ?_, ?_, ?_, fun i hi => ?_, fun i hi => ?_, ?_, ?_⟩
  · obtain rfl : i = 0 := by simpa using hi
    rfl
  · simp
  · simpa using hlen
  · obtain rfl : i = 0 := by simpa using hi
    simp
  · obtain rfl : i = 0 := by simpa using hi
    simpa using hlen
  · simp only [List.mem_singleton, forall_eq]
    rw [ofPrefix_bytes hpad, hlen]
    simp only [UInt32.toNat_zero, List.drop_zero, List.take_length, List.append_assoc,
      List.append_replicate_replicate,
      List.length_append, List.length_replicate, maxSignatureFragmentSize]
    congr 2
    omega
  · simp

/-! ## `prepare_signed_fragments` -/

/-- The signature `prepare_signed_fragments` obtains for `sequenceNumber` under the vehicle's
scheme. -/
def signatureFor (v : Vehicle) (p : Primitives) (sequenceNumber : UInt32) : List UInt8 :=
  match v.pqc.scheme with
  | .ecdsa => p.ecdsaSignature sequenceNumber.toNat
  | .falcon => p.falconSignature sequenceNumber.toNat

/-- The signer's output within the bounds of spec §4.3, and the two fatal checks passing: an
`ECDSA_size` of at most 512, and a loaded Falcon key (the constructor loads one of the length
liboqs expects). -/
def SignsWithin (v : Vehicle) (p : Primitives) (sequenceNumber : UInt32) : Prop :=
  match v.pqc.scheme with
  | .ecdsa => v.ecdsaSize ≤ maxSignatureFragmentSize ∧
      (p.ecdsaSignature sequenceNumber.toNat).length ≤ maxSignatureFragmentSize
  | .falcon => v.falconPrivateKey ≠ [] ∧ 1 ≤ (p.falconSignature sequenceNumber.toNat).length ∧
      (p.falconSignature sequenceNumber.toNat).length ≤ maxSignatureTotalSize

theorem signMessageEcdsa_ok {v : Vehicle} (p : Primitives) (spdu : SpduFragment)
    (h : v.ecdsaSize ≤ maxSignatureFragmentSize) : ∃ g, signMessageEcdsa v p spdu = .ok g := by
  simp [signMessageEcdsa, Nat.not_lt.mpr h]

theorem signMessageFalcon_ok {v : Vehicle} (p : Primitives) (spdu : SpduFragment)
    (h : v.falconPrivateKey ≠ []) : ∃ frags, signMessageFalcon v p spdu = .ok frags := by
  simp [signMessageFalcon, List.isEmpty_iff, h]

theorem le_ceilDiv_mul (s : List UInt8) {f : Nat} (hf : 0 < f) : s.length ≤ s.length ⌈/⌉ f * f := by
  rw [Nat.ceilDiv_eq_add_pred_div]
  have := Nat.lt_div_mul_add (a := s.length + f - 1) hf
  omega

/-! ## What the receiver relies on -/

/-- The slice size `prepare_signed_fragments` cuts at: `clamp(r, 512)` for Falcon, the whole
signature for ECDSA. -/
def fragmentSizeFor (v : Vehicle) (p : Primitives) (sequenceNumber : UInt32) : Nat :=
  match v.pqc.scheme with
  | .ecdsa => (signatureFor v p sequenceNumber).length
  | .falcon => clampFragmentSize v.pqc.falconFragmentSize maxSignatureFragmentSize

/-- The number of fragments: one for ECDSA, `⌈|s| / f⌉` for Falcon. -/
def fragmentCountFor (v : Vehicle) (p : Primitives) (sequenceNumber : UInt32) : Nat :=
  match v.pqc.scheme with
  | .ecdsa => 1
  | .falcon => (signatureFor v p sequenceNumber).length ⌈/⌉
      clampFragmentSize v.pqc.falconFragmentSize maxSignatureFragmentSize

/-- The partition as the receiver relies on it: at least one fragment, slices of at most one
array, starting inside the signature and reaching its end. -/
structure Partition (base : SpduFragment) (s : List UInt8) (f n : Nat)
    (frags : List SpduFragment) extends Fragmentation base s f n frags : Prop where
  count_pos : 0 < n
  size_le : f ≤ maxSignatureFragmentSize
  covers : s.length ≤ n * f
  /-- The last slice, hence every slice, starts inside the signature. -/
  inside : n = 1 ∨ (n - 1) * f < s.length

theorem signMessageEcdsa_partition {v : Vehicle} {p : Primitives} {spdu g : SpduFragment}
    (h : signMessageEcdsa v p spdu = .ok g)
    (hs : (p.ecdsaSignature spdu.sequenceNumber.toNat).length ≤ maxSignatureFragmentSize) :
    Partition spdu (p.ecdsaSignature spdu.sequenceNumber.toNat)
      (p.ecdsaSignature spdu.sequenceNumber.toNat).length 1 [g] :=
  ⟨signMessageEcdsa_fragmentation h hs, Nat.one_pos, hs, by simp, .inl rfl⟩

theorem signMessageFalcon_partition {v : Vehicle} {p : Primitives} {spdu : SpduFragment}
    {frags : List SpduFragment} (h : signMessageFalcon v p spdu = .ok frags)
    (hsch : spdu.signatureScheme = SignatureScheme.falcon.toUInt8)
    (hs₁ : 1 ≤ (p.falconSignature spdu.sequenceNumber.toNat).length)
    (hs : (p.falconSignature spdu.sequenceNumber.toNat).length ≤ maxSignatureTotalSize) :
    Partition spdu (p.falconSignature spdu.sequenceNumber.toNat)
      (clampFragmentSize v.pqc.falconFragmentSize maxSignatureFragmentSize)
      ((p.falconSignature spdu.sequenceNumber.toNat).length ⌈/⌉
        clampFragmentSize v.pqc.falconFragmentSize maxSignatureFragmentSize) frags := by
  have hf := clampFragmentSize_pos v.pqc.falconFragmentSize (show 0 < 512 by decide)
  have hcount : 0 < (p.falconSignature spdu.sequenceNumber.toNat).length ⌈/⌉
      clampFragmentSize v.pqc.falconFragmentSize maxSignatureFragmentSize := by
    rw [Nat.ceilDiv_eq_add_pred_div]
    exact Nat.div_pos (by omega) hf
  exact ⟨signMessageFalcon_fragmentation h hsch hs, hcount, clampFragmentSize_le _ _,
    le_ceilDiv_mul _ hf, .inr (mul_lt_of_lt_ceilDiv hf (Nat.sub_lt hcount Nat.one_pos))⟩

/-- **`prepare_signed_fragments` returns the partition** of the vehicle's signature, with
`fragmentSizeFor` and `fragmentCountFor`, whenever the signer stays within §4.3's bounds. -/
theorem prepareSignedFragments_spec {v : Vehicle} {p : Primitives} {sequenceNumber : UInt32}
    (timestep : Nat) (h : SignsWithin v p sequenceNumber) :
    ∃ frags, prepareSignedFragments v p sequenceNumber timestep = .ok frags ∧
      Partition (baseFragment v p sequenceNumber timestep) (signatureFor v p sequenceNumber)
        (fragmentSizeFor v p sequenceNumber) (fragmentCountFor v p sequenceNumber) frags := by
  unfold SignsWithin at h
  unfold fragmentSizeFor fragmentCountFor signatureFor prepareSignedFragments
  cases hsch : v.pqc.scheme with
  | ecdsa =>
    rw [hsch] at h
    obtain ⟨g, hg⟩ := signMessageEcdsa_ok p (baseFragment v p sequenceNumber timestep) h.1
    exact ⟨[g], by simp [hg, bind, Except.bind, pure, Except.pure],
      signMessageEcdsa_partition hg h.2⟩
  | falcon =>
    rw [hsch] at h
    obtain ⟨hkey, hs₁, hs⟩ := h
    obtain ⟨frags, hfr⟩ := signMessageFalcon_ok p (baseFragment v p sequenceNumber timestep) hkey
    exact ⟨frags, hfr, signMessageFalcon_partition hfr (by simp [baseFragment, hsch]) hs₁ hs⟩

namespace Partition

variable {base : SpduFragment} {s : List UInt8} {f n : Nat} {frags : List SpduFragment}

/-- Slice `i` starts inside the signature, or is the only one. -/
theorem mul_le_length (hP : Partition base s f n frags) {i : Nat} (hi : i < n) :
    i * f ≤ s.length := by
  rcases hP.inside with rfl | h
  · obtain rfl : i = 0 := by omega
    simp
  · have := Nat.mul_le_mul_right f (show i ≤ n - 1 by omega)
    omega

/-- Slice `i` lies in the signature. -/
theorem slice_le_length (hP : Partition base s f n frags) {i : Nat} (hi : i < n) :
    i * f + min f (s.length - i * f) ≤ s.length := by
  have := hP.mul_le_length hi
  omega

/-- Every fragment carries at most one array's bytes. -/
theorem fragmentLength_le (hP : Partition base s f n frags) {i : Nat} (hi : i < frags.length) :
    frags[i].fragmentLength.toNat ≤ maxSignatureFragmentSize := by
  rw [hP.fragmentLength _ hi]
  have := hP.size_le
  omega

/-- Every fragment of a nonempty signature carries at least one byte. -/
theorem fragmentLength_pos (hP : Partition base s f n frags) (hf : 0 < f) (hs : 0 < s.length)
    {i : Nat} (hi : i < frags.length) : 1 ≤ frags[i].fragmentLength.toNat := by
  rw [hP.fragmentLength _ hi]
  have hin : i * f < s.length := by
    rcases hP.inside with h | h
    · obtain rfl : i = 0 := by rw [hP.length_eq] at hi; omega
      simpa using hs
    · have := Nat.mul_le_mul_right f (show i ≤ n - 1 by rw [hP.length_eq] at hi; omega)
      omega
  omega

end Partition

/-- **`prepare_signed_fragments` partitions the signature** (§3, §4.3), for both schemes, every
signature the signer may return and every requested fragment size `r`: `f = clamp(r, 512)` is in
`[1, 512]`; Falcon gives `⌈|s| / f⌉` fragments of `f` bytes, each carrying `1` to `512` bytes,
and ECDSA one fragment of `|s|` bytes; the slices are pairwise disjoint and cover `[0, |s|)`. -/
theorem prepareSignedFragments_partition (v : Vehicle) (p : Primitives) (sequenceNumber : UInt32)
    (timestep : Nat) (h : SignsWithin v p sequenceNumber) :
    1 ≤ clampFragmentSize v.pqc.falconFragmentSize maxSignatureFragmentSize ∧
    clampFragmentSize v.pqc.falconFragmentSize maxSignatureFragmentSize ≤ maxSignatureFragmentSize ∧
    ∃ frags, prepareSignedFragments v p sequenceNumber timestep = .ok frags ∧
      (match v.pqc.scheme with
       | .falcon =>
         Fragmentation (baseFragment v p sequenceNumber timestep) (signatureFor v p sequenceNumber)
           (clampFragmentSize v.pqc.falconFragmentSize maxSignatureFragmentSize)
           ((signatureFor v p sequenceNumber).length ⌈/⌉
             clampFragmentSize v.pqc.falconFragmentSize maxSignatureFragmentSize) frags ∧
         ∀ g ∈ frags, 1 ≤ g.fragmentLength.toNat ∧ g.fragmentLength.toNat ≤ maxSignatureFragmentSize
       | .ecdsa =>
         Fragmentation (baseFragment v p sequenceNumber timestep) (signatureFor v p sequenceNumber)
           (signatureFor v p sequenceNumber).length 1 frags) ∧
      (∀ j, j < (signatureFor v p sequenceNumber).length ↔
        ∃ g ∈ frags, g.slice.1 ≤ j ∧ j < g.slice.2) ∧
      ∀ i i' (hi : i < frags.length) (hi' : i' < frags.length), i ≠ i' →
        frags[i].slice.2 ≤ frags[i'].slice.1 ∨ frags[i'].slice.2 ≤ frags[i].slice.1 := by
  have hf1 := clampFragmentSize_pos v.pqc.falconFragmentSize (show 0 < 512 by decide)
  obtain ⟨frags, hfr, hP⟩ := prepareSignedFragments_spec timestep h
  refine ⟨hf1, clampFragmentSize_le _ _, frags, hfr, ?_, hP.slices_cover hP.covers,
    fun i i' hi hi' hne => hP.slices_disjoint hi hi' hne⟩
  unfold SignsWithin at h
  unfold fragmentSizeFor fragmentCountFor at hP
  cases hsch : v.pqc.scheme with
  | ecdsa => rw [hsch] at hP; exact hP.toFragmentation
  | falcon =>
    rw [hsch] at hP h
    refine ⟨hP.toFragmentation, fun g hg => ?_⟩
    obtain ⟨i, hi, rfl⟩ := List.mem_iff_getElem.mp hg
    exact ⟨hP.fragmentLength_pos hf1 (by unfold signatureFor; rw [hsch]; exact h.2.1) hi,
      hP.fragmentLength_le hi⟩

/-- A Falcon vehicle asking for 2-byte fragments, whose signer returns 3 bytes, sends 2. -/
theorem prepareSignedFragments_partition_three_bytes :
    SignsWithin ⟨0, { scheme := .falcon, falconFragmentSize := 2 }, [], 72, [1]⟩
      ⟨fun _ => default, fun _ => 0, fun _ => [], fun _ => [], fun _ => [1, 2, 3]⟩ 0 ∧
    ∃ frags, prepareSignedFragments ⟨0, { scheme := .falcon, falconFragmentSize := 2 }, [], 72, [1]⟩
      ⟨fun _ => default, fun _ => 0, fun _ => [], fun _ => [], fun _ => [1, 2, 3]⟩ 0 0 = .ok frags ∧
      frags.length = 2 := by
  have h : SignsWithin ⟨0, { scheme := .falcon, falconFragmentSize := 2 }, [], 72, [1]⟩
      ⟨fun _ => default, fun _ => 0, fun _ => [], fun _ => [], fun _ => [1, 2, 3]⟩ 0 :=
    ⟨by simp, by decide, by decide⟩
  obtain ⟨-, -, frags, hfr, hF, -⟩ := prepareSignedFragments_partition _ _ 0 0 h
  exact ⟨h, frags, hfr, hF.1.length_eq⟩

/-- A Falcon vehicle that cuts its signatures into one-byte slices. -/
def falconSampleVehicle : Vehicle :=
  ⟨0, { scheme := .falcon, falconFragmentSize := 1 }, [], 72, [1]⟩

/-- A signer whose Falcon signatures are three bytes long. -/
def falconSamplePrimitives : Primitives :=
  ⟨fun _ => default, fun _ => 0, fun _ => [], fun _ => [], fun _ => [1, 2, 3]⟩

end FalconSim
