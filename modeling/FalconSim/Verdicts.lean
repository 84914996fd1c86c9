import FalconSim.Invariant
import FalconSim.Verify

/-!
# Verdicts over a run: the public-key cache, and honest SPDUs amid any traffic

The receive loop calls `verify_message` on each completed entry in turn (`Vehicle.cpp:316-319`),
and `load_falcon_public_key` keeps its function-static `cache` (lines 633-662) from one call to
the next for as long as the process lives. A failed key load ends the process, so the run's
verdicts stop at the first one. What a verdict is computed on is the entry the loop assembled;
for an honest SPDU it is what the signer sent, whatever else the network carries.

* `verifyCompletions`: the verdicts of a run's completions, in order, with the cache carried
  from call to call: the code's path.
* `Completion.verdict`: the plain path, one completion verified with its key read from its file
  (an empty cache). A run of them is `List.mapM` in `ExceptT String Option`: it stops at the first
  fatal error, and undefined behaviour anywhere makes the whole run undefined.

Results:
* `verifyMessage_cached`: one call from a sound cache returns what the uncached call returns,
  and leaves a sound cache.
* **`verdicts_independent_of_cache`**: from any sound cache, in particular the empty one the
  process starts with, the cached run gives exactly the verdicts of the plain path, each
  completion verified on its own, and stops at the same first fatal error.
* `verifyMessage_congr`: `verify_message` reads four fields of the SPDU it is given.
* **`completion_amid_traffic`**: an honest SPDU's completions hand `verify_message` its
  signature and shared fields even when datagrams of any other keys, honest or forged, are
  interleaved with its fragments, so its verdict is the one on the completing datagram as sent,
  with the whole signature (`Isolation.lean` and `Reassembly.lean` give the two halves).
-/

namespace FalconSim

section Cache

variable (vf : Verifiers) (publicKeyLength : Nat) (files : Nat → Option (List UInt8))

/-- The verdicts `verify_message` returns on `completions`, in order, from `cache`: the static
cache of `load_falcon_public_key` is carried from one call to the next, a failed key load ends
the process with its message, and undefined behaviour in a call is `none`. -/
def verifyCompletions : KeyCache → List Completion → Option (Except String (List Bool))
  | _, [] => some (.ok [])
  | cache, c :: cs =>
    match c.verify vf publicKeyLength files cache with
    | none => none
    | some (.error e) => some (.error e)
    | some (.ok (valid, cache')) =>
      (verifyCompletions cache' cs).map fun rest => rest.map (valid :: ·)

/-- The plain path: `verify_message` on one completion, with the key read from its file. -/
def Completion.verdict (c : Completion) : ExceptT String Option Bool :=
  ExceptT.mk ((c.verify vf publicKeyLength files fun _ => none).map (Except.map Prod.fst))

variable {vf publicKeyLength files}

/-- **Step lemma.** From a sound cache, `verify_message` returns the verdict or the error of the
uncached call, and leaves a sound cache. -/
theorem verifyMessage_cached {cache : KeyCache} (hc : CacheSound publicKeyLength files cache)
    (spdu : SpduFragment) (signature : List UInt8) (t : Int) (vehicleId : UInt8) :
    (verifyMessage vf publicKeyLength files cache spdu signature t vehicleId).map
        (Except.map Prod.fst) =
      (verifyMessage vf publicKeyLength files (fun _ => none) spdu signature t vehicleId).map
        (Except.map Prod.fst) ∧
    ∀ valid cache', verifyMessage vf publicKeyLength files cache spdu signature t vehicleId =
      some (.ok (valid, cache')) → CacheSound publicKeyLength files cache' := by
  unfold verifyMessage
  cases vf.loadKeys vehicleId.toNat with
  | error e => exact ⟨rfl, fun _ _ h => nomatch h⟩
  | ok u =>
  cases signatureRead spdu signature with
  | none => exact ⟨rfl, fun _ _ h => nomatch h⟩
  | some read =>
    simp only [bind, Option.bind, pure]
    split
    · -- the ECDSA branch neither reads nor changes the cache
      cases hr : recent t spdu.data.tbsData.timestamp <;> refine ⟨rfl, fun _ _ h => ?_⟩ <;>
        simp [hr] at h
      exact h.2 ▸ hc
    · -- the Falcon branch: both loads return the file's key, or the same error
      obtain ⟨h₁, h₂⟩ := loadFalconPublicKey_cached hc vehicleId.toNat
      rw [← (loadFalconPublicKey_cached (cacheSound_empty publicKeyLength files)
        vehicleId.toNat).1] at h₁
      refine ⟨?_, fun valid cache' h => ?_⟩
      · cases hl : loadFalconPublicKey publicKeyLength files cache vehicleId.toNat <;>
          cases hl' : loadFalconPublicKey publicKeyLength files (fun _ => none) vehicleId.toNat <;>
          cases recent t spdu.data.tbsData.timestamp <;> simp_all [Except.map, Functor.map]
      · cases hl : loadFalconPublicKey publicKeyLength files cache vehicleId.toNat with
        | error e => simp [hl] at h
        | ok r =>
          cases hr : recent t spdu.data.tbsData.timestamp <;> simp [hl, hr] at h
          exact h₂ _ _ (by rw [hl, ← h.2])

/-- The step lemma on a completion: the verdict of the plain path, and a sound cache after. -/
theorem Completion.verify_cached {cache : KeyCache} (hc : CacheSound publicKeyLength files cache)
    (c : Completion) :
    (c.verify vf publicKeyLength files cache).map (Except.map Prod.fst) =
      (c.verdict vf publicKeyLength files).run ∧
    ∀ valid cache', c.verify vf publicKeyLength files cache = some (.ok (valid, cache')) →
      CacheSound publicKeyLength files cache' :=
  verifyMessage_cached hc _ _ _ _

/-- **The key cache is transparent over a run** (lines 316-319 and 633-662). From any cache
that holds only keys read and decoded from their files, in particular the empty cache the
process starts with, the verdicts `verify_message` returns on a run's completions, the cache
carried from call to call, are those of verifying each completion on its own with its key read
from its file; the run stops at the same first fatal error, with the same message, and is
undefined exactly when that is. -/
theorem verdicts_independent_of_cache {cache : KeyCache}
    (hc : CacheSound publicKeyLength files cache) (cs : List Completion) :
    verifyCompletions vf publicKeyLength files cache cs =
      (cs.mapM (Completion.verdict vf publicKeyLength files)).run := by
  induction cs generalizing cache with
  | nil => rfl
  | cons c cs ih =>
    obtain ⟨heq, hsound⟩ := Completion.verify_cached hc c
    rw [List.mapM_cons, ExceptT.run_bind, ← heq, verifyCompletions]
    cases h : c.verify vf publicKeyLength files cache with
    | none => rfl
    | some r =>
      rcases r with e | ⟨valid, cache'⟩
      · rfl
      · show (verifyCompletions vf publicKeyLength files cache' cs).map _ =
          (do let bs ← cs.mapM (Completion.verdict vf publicKeyLength files)
              pure (valid :: bs) : ExceptT String Option _).run
        rw [ih (hsound _ _ h), ExceptT.run_bind]
        rcases (cs.mapM (Completion.verdict vf publicKeyLength files)).run with _ | _ | _ <;> rfl

/-- Vehicle `0`'s public key file: the one byte `0xab`, in hex. -/
def oneByteKeyFile (n : Nat) : Option (List UInt8) :=
  if n = 0 then some ['a'.toUInt8, 'b'.toUInt8] else none

/-- Verifiers that accept every signature, with every EC key file present. -/
def acceptAll : Verifiers :=
  ⟨fun _ _ _ => true, fun _ _ _ => true, fun _ _ _ => true, fun _ => .ok ()⟩

/-- Two Falcon completions from vehicle `0`. -/
def twoFalconCompletions : List Completion :=
  [⟨{ templateFragment := { signatureScheme := 1 } }, 0, 0⟩,
    ⟨{ templateFragment := { signatureScheme := 1, sequenceNumber := 1 } }, 1, 0⟩]

/-- From the empty cache the process starts with, the first completion reads vehicle `0`'s key
from its file and caches it; the second finds it in the cache. Both are accepted. -/
theorem verdicts_independent_of_cache_hit :
    CacheSound 1 oneByteKeyFile (fun _ => none) ∧
    verifyCompletions acceptAll 1 oneByteKeyFile (fun _ => none) twoFalconCompletions =
      (twoFalconCompletions.mapM (Completion.verdict acceptAll 1 oneByteKeyFile)).run ∧
    verifyCompletions acceptAll 1 oneByteKeyFile (fun _ => none) twoFalconCompletions =
      some (.ok [true, true]) :=
  ⟨cacheSound_empty 1 _,
    verdicts_independent_of_cache (cacheSound_empty 1 _) twoFalconCompletions, rfl⟩

end Cache

/-! ## An honest SPDU amid any other traffic -/

/-- `verify_message` reads of the SPDU it is given only the data, the certificate signature
length, the scheme and the signature length. -/
theorem verifyMessage_congr {vf : Verifiers} {publicKeyLength : Nat}
    {files : Nat → Option (List UInt8)} {spdu spdu' : SpduFragment}
    (hd : spdu'.data = spdu.data)
    (hc : spdu'.certificateSignatureBufferLength = spdu.certificateSignatureBufferLength)
    (hs : spdu'.signatureScheme = spdu.signatureScheme)
    (hl : spdu'.signatureBufferLength = spdu.signatureBufferLength)
    (cache : KeyCache) (signature : List UInt8) (t : Int) (vehicleId : UInt8) :
    verifyMessage vf publicKeyLength files cache spdu' signature t vehicleId =
      verifyMessage vf publicKeyLength files cache spdu signature t vehicleId := by
  simp only [verifyMessage, signatureRead, hd, hc, hs, hl]

/-- Two templates carrying one SPDU are verified alike. -/
theorem Carries.verifyMessage_eq {base t t' : SpduFragment} {s : List UInt8} {n : Nat}
    (h : Carries base s n t) (h' : Carries base s n t') (vf : Verifiers) (publicKeyLength : Nat)
    (files : Nat → Option (List UInt8)) (cache : KeyCache) (signature : List UInt8) (time : Int)
    (vehicleId : UInt8) :
    verifyMessage vf publicKeyLength files cache t signature time vehicleId =
      verifyMessage vf publicKeyLength files cache t' signature time vehicleId :=
  verifyMessage_congr (h.data.trans h'.data.symm)
    (h.certificateSignatureBufferLength.trans h'.certificateSignatureBufferLength.symm)
    (h.signatureScheme.trans h'.signatureScheme.symm)
    (UInt32.toNat.inj (h.signatureBufferLength.trans h'.signatureBufferLength.symm)) _ _ _ _

/-- The datagrams of a run's pairs on key `k` are the run's datagrams of key `k`. -/
theorem map_fst_filter_zip {ds : List Datagram} {outs : List (Option Completion)}
    (hlen : outs.length = ds.length) (k : UInt64) :
    ((ds.zip outs).filter fun p => p.1.1.key = k).map Prod.fst =
      ds.filter fun d => d.1.key = k := by
  rw [show (fun p : Datagram × Option Completion => decide (p.1.1.key = k)) =
      (fun d : Datagram => decide (d.1.key = k)) ∘ Prod.fst from rfl, ← List.filter_map,
    List.map_fst_zip _ _ (by omega)]

/-- **An honest SPDU amid any other traffic, and its verdict** (lines 254-350 and 525-581). Take
an SPDU produced honestly, and any run from a fresh receiver in which every datagram of its key
is one of its fragments, each possibly repeated or missing; the datagrams of other keys, honest
or forged, any number, in any interleaving, are arbitrary. Every completion of its key hands
`verify_message` its signature, byte for byte, and a template carrying its signed data, scheme
tag, signature length and other shared fields; so whatever the verifiers, the key files and the
cache, `verify_message` decides exactly as it would on the completing datagram as it was sent,
with the whole signature and the datagram's receive time. -/
theorem completion_amid_traffic (x : SentSpdu) (ds : List Datagram)
    (hx : ∀ d ∈ ds, d.1.key = x.key → d.1 ∈ x.fragments) {s : Receiver}
    {outs : List (Option Completion)} (h : runBody Receiver.init ds = some (s, outs)) :
    ∀ d c, (d, some c) ∈ ds.zip outs → d.1.key = x.key →
      c.entry.signatureBuffer = x.signature ∧
      Carries x.template x.signature x.count c.entry.templateFragment ∧
      ∀ (vf : Verifiers) (publicKeyLength : Nat) (files : Nat → Option (List UInt8))
        (cache : KeyCache), c.verify vf publicKeyLength files cache =
          verifyMessage vf publicKeyLength files cache d.1 x.signature d.2 d.1.vehicleId := by
  intro d c hdc hdk
  set pairs := (ds.zip outs).filter fun p => p.1.1.key = x.key with hpairs
  have hfst := map_fst_filter_zip (runBody_counts h).1 x.key
  rw [← hpairs] at hfst
  -- the run over `x`'s datagrams alone hands on what the run does at them
  have hL : ∀ d ∈ pairs.map Prod.fst, d.1.key = x.key := fun d hd => by
    rw [hfst] at hd
    simpa using (List.mem_filter.mp hd).2
  obtain ⟨s'', hrun'', -⟩ := runBody_of_keyRun hL (by rw [hfst]; exact runBody_keyRun h x.key)
  have hfrag : ∀ d ∈ pairs.map Prod.fst, ∃ y ∈ [x], d.1 ∈ y.fragments := fun d hd =>
    ⟨x, List.mem_singleton_self x, hx d (by rw [hfst] at hd; exact (List.mem_filter.mp hd).1)
      (hL d hd)⟩
  have hkeys : ([x].map SentSpdu.key).Nodup := List.nodup_singleton _
  obtain ⟨s₁, outs₁, hrun₁, -, -, hout₁⟩ := runBody_simulates hkeys hfrag _ le_rfl
  rw [List.take_length, hrun'', Option.some.injEq, Prod.mk.injEq] at hrun₁
  obtain ⟨-, rfl⟩ := hrun₁
  -- read off the simulation at `d`'s place among them
  have hmem : (d, some c) ∈ pairs := List.mem_filter.mpr ⟨hdc, by simpa using hdk⟩
  obtain ⟨j, hj⟩ := List.mem_iff_getElem?.mp hmem
  have hdj : (pairs.map Prod.fst)[j]? = some d := by rw [List.getElem?_map, hj]; rfl
  have hcj : (pairs.map Prod.snd)[j]? = some (some c) := by rw [List.getElem?_map, hj]; rfl
  obtain ⟨hjl, hc⟩ := List.getElem?_eq_some_iff.mp hcj
  have hd : d.1 ∈ x.fragments := hx d (List.of_mem_zip hdc).1 hdk
  obtain ⟨hbuf, hcar⟩ := (hout₁ j hjl).2 c hc x (List.mem_singleton_self x) d hdj hd
  -- the verdict: the receive time and `incoming.vehicle_id` are the datagram's
  obtain ⟨-, ht, hv⟩ := (runBody_tableInv tableInv_init h).2 d c hdc
  refine ⟨hbuf, hcar, fun vf publicKeyLength files cache => ?_⟩
  rw [Completion.verify, hbuf, ht, hv]
  exact hcar.verifyMessage_eq (x.partition.carries hd) _ _ _ _ _ _ _

/-- The Falcon sample SPDU `0` of `interleavedRun`, amid SPDU `1`'s fragments. -/
theorem completion_amid_traffic_interleavedRun :
    (∀ d ∈ interleavedRun, d.1.key = (falconSampleSpdu 0).key →
      d.1 ∈ (falconSampleSpdu 0).fragments) ∧
    ∃ (s : Receiver) (outs : List (Option Completion)),
      runBody Receiver.init interleavedRun = some (s, outs) ∧
      ∀ d c, (d, some c) ∈ interleavedRun.zip outs → d.1.key = (falconSampleSpdu 0).key →
        c.entry.signatureBuffer = (falconSampleSpdu 0).signature := by
  have hx : ∀ d ∈ interleavedRun,
      d.1.key = (falconSampleSpdu 0).key → d.1 ∈ (falconSampleSpdu 0).fragments := fun d hd hk =>
    (mem_interleavedRun hd).resolve_right fun h =>
      falconSampleSpdu_key_ne (hk.symm.trans (SentSpdu.key_of_mem h))
  obtain ⟨s, outs, h⟩ := interleavedRun_isSome
  exact ⟨hx, s, outs, h, fun d c hdc hk =>
    (completion_amid_traffic (falconSampleSpdu 0) interleavedRun hx h d c hdc hk).1⟩

end FalconSim
