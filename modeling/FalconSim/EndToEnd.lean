import FalconSim.Counting
import FalconSim.Transmit

/-!
# End to end: every message of every vehicle is verified once, over a reordering network

A run of `main.cpp:80-133`: `num_vehicles` transmitter threads, vehicle `i` numbered `i`, each
running `Vehicle::transmit(num_msgs)` (`Transmit.lean`), and one receiver running
`Vehicle::receive(num_msgs * num_vehicles)` (`Receive.lean`) over the datagrams they sent.

* `Scenario`: the vehicles, their signers and the two counts. Its fields are what the program
  guarantees itself (the numbering `Vehicle(i, pqc_opts)`, a `uint16_t` message count) and the
  signer bounds of §4.3. Vehicles may differ in scheme, keys and fragment size.
* The network delivers every sent datagram once, in any order and at any time: the datagrams
  read by the receiver are a permutation of those sent. `Loss.lean` shows what a fragment lost
  for good does, and `Counting.lean` what duplication does.

Results:
* `sent_perm`: the transmitters together send every fragment of every SPDU once.
* `spdus_keys_nodup`, `fragments_nodup`: the run's SPDUs have distinct keys, so no fragment is
  sent twice.
* `delivery`: over any permutation of the fragments of honest SPDUs with distinct keys,
  `receive` with one target per SPDU reads every datagram and stops; each key completes exactly
  once, at the arrival of its last fragment, with its signature and shared fields.
* **`end_to_end_delivery`**: the same for a whole run.
-/

namespace FalconSim

/-! ## Every fragment delivered once -/

/-- The fragments of an SPDU are distinct: each carries its own index. -/
theorem SentSpdu.fragments_nodup (x : SentSpdu) : x.fragments.Nodup := by
  have h : x.fragments.map (fun g => g.fragmentIndex.toNat) = List.range x.fragments.length :=
    List.ext_getElem (by simp) fun j h₁ h₂ => by
      simpa using x.partition.index j (by simpa using h₁)
  exact List.Nodup.of_map _ (h ▸ List.nodup_range _)

/-- SPDUs with distinct keys share no fragment, so their fragments together are distinct. -/
theorem SentSpdu.flatMap_fragments_nodup {xs : List SentSpdu}
    (hkeys : (xs.map SentSpdu.key).Nodup) : (xs.flatMap SentSpdu.fragments).Nodup :=
  List.nodup_flatMap.mpr ⟨fun x _ => x.fragments_nodup,
    (List.Nodup.of_map _ hkeys).imp_of_mem fun hx hy hne _ hgx hgy => hne <|
      SentSpdu.eq_of_key hkeys hx hy
        ((SentSpdu.key_of_mem hgx).symm.trans (SentSpdu.key_of_mem hgy))⟩

/-- The datagram at position `i` is not among those before it, when none is delivered twice. -/
theorem getElem_not_mem_take {ds : List Datagram} (hnodup : (ds.map Prod.fst).Nodup) {i : Nat}
    (hi : i < ds.length) : ds[i].1 ∉ (ds.take i).map Prod.fst := by
  rw [← List.take_append_drop i ds, List.map_append] at hnodup
  intro hmem
  refine List.disjoint_of_nodup_append hnodup hmem (List.mem_map_of_mem Prod.fst ?_)
  exact List.mem_iff_getElem?.mpr
    ⟨0, by rw [List.getElem?_drop, Nat.add_zero, List.getElem?_eq_getElem hi]⟩

section Delivery

variable {xs : List SentSpdu} (hkeys : (xs.map SentSpdu.key).Nodup) {ds : List Datagram}
  (hds : ∀ d ∈ ds, ∃ x ∈ xs, d.1 ∈ x.fragments) (hnodup : (ds.map Prod.fst).Nodup)
  (hall : ∀ x ∈ xs, ∀ g ∈ x.fragments, g ∈ ds.map Prod.fst)
  {s : Receiver} {outs : List (Option Completion)}
  (hrun : runBody Receiver.init ds = some (s, outs))

include hkeys hds hnodup hall hrun in
/-- Every SPDU completes exactly once. -/
theorem completesAt_exactly_once {x : SentSpdu} (hx : x ∈ xs) :
    ∃ step, ∀ j, CompletesAt ds outs x.key j ↔ j = step := by
  obtain ⟨hlen, hout⟩ := run_outputs hkeys hds hrun
  obtain ⟨step, -, -, hc⟩ := completesAt_within hkeys hds hlen hout hx (a := 0) (b := ds.length)
    fun g hg => by
      obtain ⟨d, hd, rfl⟩ := List.mem_map.mp (hall x hx g hg)
      obtain ⟨j, hj⟩ := List.mem_iff_getElem?.mp hd
      exact ⟨j, Nat.zero_le _, (List.getElem?_eq_some_iff.mp hj).1.le, by rw [hj]; rfl⟩
  exact ⟨step, fun j =>
    ⟨fun h => completesAt_unique hkeys hds (noLateCopy_of_nodup hnodup) hrun hx h hc,
      fun h => h ▸ hc⟩⟩

include hkeys hds hnodup hall hrun in
/-- Every SPDU counts once: the run completes as many messages as there are SPDUs. -/
theorem completedMessages_eq_spdus : s.completedMessages = xs.length := by
  have hperm : (completedKeys ds outs).Perm (xs.map SentSpdu.key) :=
    (List.perm_ext_iff_of_nodup
      (completedKeys_nodup hkeys hds (noLateCopy_of_nodup hnodup) hrun) hkeys).mpr fun k => by
      rw [mem_completedKeys]
      constructor
      · rintro ⟨i, hc⟩
        obtain ⟨x, hx, rfl⟩ := completesAt_spdu hds hc
        exact List.mem_map_of_mem _ hx
      · intro hk
        obtain ⟨x, hx, rfl⟩ := List.mem_map.mp hk
        obtain ⟨step, h⟩ := completesAt_exactly_once hkeys hds hnodup hall hrun hx
        exact ⟨step, (h step).mpr rfl⟩
  rw [completedMessages_eq_length hrun, hperm.length_eq, List.length_map]

include hkeys hds hnodup in
/-- Before the last datagram is read, some SPDU is still incomplete: the one whose fragment comes
next has not all arrived. -/
theorem completedMessages_take_lt {i : Nat} (hi : i < ds.length)
    {r : Receiver × List (Option Completion)} (h : runBody Receiver.init (ds.take i) = some r) :
    r.1.completedMessages < xs.length := by
  have hle := completedMessages_le_arrived hkeys (fun d hd => hds d (List.mem_of_mem_take hd))
    (noLateCopy_of_nodup (hnodup.sublist ((List.take_sublist i ds).map _))) h
  obtain ⟨y, hy, hdy⟩ := hds ds[i] (List.getElem_mem hi)
  refine lt_of_le_of_lt hle (List.length_filter_lt_length_iff_exists.mpr ⟨y, hy, ?_⟩)
  simp only [List.all_eq_true, decide_eq_true_eq, not_forall]
  exact ⟨ds[i].1, hdy, getElem_not_mem_take hnodup hi⟩

end Delivery

/-- **Delivery of honest SPDUs over a reordering network.** Take SPDUs produced honestly, with
distinct keys, and their fragments in any order, each delivered once. Then `receive` with one
target per SPDU reads every datagram and stops, with one completion per SPDU; each SPDU's key
completes exactly once, at the step that reads its last fragment, and hands `verify_message` its
signature and shared fields. -/
theorem delivery {xs : List SentSpdu} (hkeys : (xs.map SentSpdu.key).Nodup) {ds : List Datagram}
    (hperm : (ds.map Prod.fst).Perm (xs.flatMap SentSpdu.fragments)) :
    ∃ (s : Receiver) (outs : List (Option Completion)),
      receive xs.length Receiver.init ds = some (s, outs, []) ∧
      s.completedMessages = xs.length ∧
      ∀ x ∈ xs, ∃ (step : Nat) (c : Completion),
        (∀ j, CompletesAt ds outs x.key j ↔ j = step) ∧
        (∀ g ∈ x.fragments, ∃ j ≤ step, ds[j]?.map Prod.fst = some g) ∧
        (∃ g ∈ x.fragments, ds[step]?.map Prod.fst = some g) ∧
        outs[step]? = some (some c) ∧ c.entry.signatureBuffer = x.signature ∧
        Carries x.template x.signature x.count c.entry.templateFragment := by
  have hds : ∀ d ∈ ds, ∃ x ∈ xs, d.1 ∈ x.fragments := fun d hd =>
    List.mem_flatMap.mp (hperm.subset (List.mem_map_of_mem Prod.fst hd))
  have hnodup : (ds.map Prod.fst).Nodup :=
    hperm.nodup_iff.mpr (SentSpdu.flatMap_fragments_nodup hkeys)
  have hall : ∀ x ∈ xs, ∀ g ∈ x.fragments, g ∈ ds.map Prod.fst := fun x hx g hg =>
    hperm.symm.subset (List.mem_flatMap.mpr ⟨x, hx, hg⟩)
  obtain ⟨s, outs, hrun, -⟩ := runBody_simulates hkeys hds ds.length le_rfl
  rw [List.take_length] at hrun
  obtain ⟨hlen, hout⟩ := run_outputs hkeys hds hrun
  refine ⟨s, outs, receive_of_runBody hrun fun i hi r h =>
      completedMessages_take_lt hkeys hds hnodup hi h,
    completedMessages_eq_spdus hkeys hds hnodup hall hrun, fun x hx => ?_⟩
  obtain ⟨step, hstep⟩ := completesAt_exactly_once hkeys hds hnodup hall hrun hx
  have hc := (hstep step).mpr rfl
  obtain ⟨c, hco⟩ := hc.2
  obtain ⟨hsig, hcar⟩ := completion_is_signature hkeys hds hlen hout hx hco hc.1
  obtain ⟨d, hd, hdk⟩ := Option.map_eq_some'.mp hc.1
  obtain ⟨y, hy, hdy⟩ := hds d (List.mem_iff_getElem?.mpr ⟨step, hd⟩)
  obtain rfl := SentSpdu.eq_of_key hkeys hy hx ((SentSpdu.key_of_mem hdy).symm.trans hdk)
  refine ⟨step, c, hstep, fun g hg => ?_, ⟨d.1, hdy, by rw [hd]; rfl⟩, hco, hsig, hcar⟩
  obtain ⟨j, hj, hg', -⟩ := completesAt_all_arrived hkeys hds hlen hout hy hc g hg
  exact ⟨j, hj, hg'⟩

/-! ## A run of the simulator -/

/-- A run of the simulator (`main.cpp:80-133`): `numVehicles` transmitters, vehicle `i` numbered
`i`, each sending `numMsgs` messages from a signer within the bounds of §4.3. -/
structure Scenario where
  numVehicles : Nat
  numMsgs : Nat
  vehicle : Fin numVehicles → Vehicle
  primitives : Fin numVehicles → Primitives
  /-- `vehicles.emplace_back(Vehicle(i, pqc_opts))`. -/
  number_eq : ∀ i, (vehicle i).number.toNat = i
  /-- `num_msgs` is a `uint16_t`, so the sequence numbers `static_cast<uint32_t>(i)` differ. -/
  numMsgs_le : numMsgs ≤ 2 ^ 32
  signsWithin : ∀ i (m : Fin numMsgs), SignsWithin (vehicle i) (primitives i) (UInt32.ofNat m)

namespace Scenario

variable (sc : Scenario)

/-- What `prepare_signed_fragments(m, m)` returns to vehicle `i`. -/
def fragments (i : Fin sc.numVehicles) (m : Nat) : List SpduFragment :=
  (prepareSignedFragments (sc.vehicle i) (sc.primitives i) (UInt32.ofNat m) m).toOption.getD []

theorem prepare_eq (i : Fin sc.numVehicles) (m : Fin sc.numMsgs) :
    prepareSignedFragments (sc.vehicle i) (sc.primitives i) (UInt32.ofNat m) m =
      .ok (sc.fragments i m) := by
  obtain ⟨frags, h, -⟩ := prepareSignedFragments_spec m (sc.signsWithin i m)
  rw [fragments, h]
  rfl

/-- Message `m` of vehicle `i`, as the vehicle hands it to the network. -/
def spdu (i : Fin sc.numVehicles) (m : Fin sc.numMsgs) : SentSpdu where
  vehicle := sc.vehicle i
  primitives := sc.primitives i
  sequenceNumber := UInt32.ofNat m
  timestep := m
  fragments := sc.fragments i m
  signsWithin := sc.signsWithin i m
  prepared := sc.prepare_eq i m

/-- Every SPDU of the run, vehicle by vehicle. -/
def spdus : List SentSpdu :=
  (List.finRange sc.numVehicles ×ˢ List.finRange sc.numMsgs).map fun p => sc.spdu p.1 p.2

/-- What vehicle `i`'s `transmit` sends under the draws `dropped i` (`transmit_eq`). -/
def sent (dropped : Fin sc.numVehicles → Nat → Nat → Bool) (i : Fin sc.numVehicles) :
    List SpduFragment :=
  sentUpTo (dropped i) (sc.fragments i) sc.numMsgs

theorem length_spdus : sc.spdus.length = sc.numMsgs * sc.numVehicles := by
  simp [spdus, List.length_product, Nat.mul_comm]

theorem spdu_key_inj {i i' : Fin sc.numVehicles} {m m' : Fin sc.numMsgs}
    (h : (sc.spdu i m).key = (sc.spdu i' m').key) : i = i' ∧ m = m' := by
  obtain ⟨hv, hs⟩ := makeMessageKey_inj.mp h
  have hm := congrArg UInt32.toNat hs
  have hsize := sc.numMsgs_le
  rw [spdu, spdu, UInt32.toNat_ofNat_of_lt (by have := m.2; simp only [UInt32.size]; omega),
    UInt32.toNat_ofNat_of_lt (by have := m'.2; simp only [UInt32.size]; omega)] at hm
  have hi := congrArg UInt8.toNat hv
  simp only [spdu, sc.number_eq] at hi
  exact ⟨Fin.ext hi, Fin.ext hm⟩

theorem spdus_keys_nodup : (sc.spdus.map SentSpdu.key).Nodup := by
  rw [spdus, List.map_map]
  exact ((List.nodup_finRange _).product (List.nodup_finRange _)).map_on
    fun p _ q _ h => Prod.ext (sc.spdu_key_inj h).1 (sc.spdu_key_inj h).2

/-- The transmitters together send every fragment of every SPDU, each once. -/
theorem sent_perm (dropped : Fin sc.numVehicles → Nat → Nat → Bool) :
    ((List.finRange sc.numVehicles).flatMap (sc.sent dropped)).Perm
      (sc.spdus.flatMap SentSpdu.fragments) := by
  have hspdus : sc.spdus.flatMap SentSpdu.fragments =
      (List.finRange sc.numVehicles).flatMap fun i =>
        (List.range sc.numMsgs).flatMap (sc.fragments i) := by
    show (((List.finRange _).flatMap fun i => (List.finRange _).map (Prod.mk i)).map _).flatMap _ =
      _
    rw [List.flatMap_map, List.flatMap_assoc]
    congr 1
    funext i
    rw [List.flatMap_map, ← List.map_coe_finRange, List.flatMap_map]
    rfl
  rw [hspdus]
  exact List.Perm.flatMap_left _ fun i _ =>
    List.Perm.flatMap_left _ fun m _ => sendOrder_perm (dropped i m) (sc.fragments i m)

end Scenario

/-- **End-to-end delivery over a reordering network** (§4.6). Take any run of the simulator:
any number of vehicles and messages, any schemes, fragment sizes and signatures within §4.3, and
any outcome of the transmitters' drop draws. Every transmit loop returns. Whatever order the
receiver reads the sent datagrams in, with none lost or duplicated, `receive` with
`num_msgs * num_vehicles` reads them all and stops with that many completions; and each message
`m` of each vehicle `i` completes exactly once, at the step that reads its last fragment, handing
`verify_message` the sender's signature, byte for byte, and a template carrying the SPDU's
identity, signed data, scheme tag and lengths. -/
theorem end_to_end_delivery (sc : Scenario) (dropped : Fin sc.numVehicles → Nat → Nat → Bool) :
    ∃ sent : Fin sc.numVehicles → TransmitState,
      (∀ i, transmit (sc.vehicle i) (sc.primitives i) (dropped i) sc.numMsgs = .ok (sent i)) ∧
      ∀ ds : List Datagram,
        (ds.map Prod.fst).Perm ((List.finRange sc.numVehicles).flatMap fun i => (sent i).sent) →
        ∃ (s : Receiver) (outs : List (Option Completion)),
          receive (sc.numMsgs * sc.numVehicles) Receiver.init ds = some (s, outs, []) ∧
          s.completedMessages = sc.numMsgs * sc.numVehicles ∧
          ∀ (i : Fin sc.numVehicles) (m : Fin sc.numMsgs), ∃ (step : Nat) (c : Completion),
            (∀ j, CompletesAt ds outs (sc.spdu i m).key j ↔ j = step) ∧
            (∀ g ∈ (sc.spdu i m).fragments, ∃ j ≤ step, ds[j]?.map Prod.fst = some g) ∧
            (∃ g ∈ (sc.spdu i m).fragments, ds[step]?.map Prod.fst = some g) ∧
            outs[step]? = some (some c) ∧
            c.entry.signatureBuffer = (sc.spdu i m).signature ∧
            Carries (sc.spdu i m).template (sc.spdu i m).signature (sc.spdu i m).count
              c.entry.templateFragment := by
  refine ⟨fun i => ⟨sc.sent dropped i, droppedUpTo (dropped i) (sc.fragments i) sc.numMsgs,
      droppedUpTo (dropped i) (sc.fragments i) sc.numMsgs⟩,
    fun i => transmit_eq (dropped i) fun m hm => sc.prepare_eq i ⟨m, hm⟩, fun ds hperm => ?_⟩
  obtain ⟨s, outs, hrecv, hcount, hx⟩ :=
    delivery sc.spdus_keys_nodup (hperm.trans (sc.sent_perm dropped))
  rw [sc.length_spdus] at hrecv hcount
  exact ⟨s, outs, hrecv, hcount, fun i m =>
    hx _ (List.mem_map.mpr ⟨(i, m), List.mem_product.mpr
      ⟨List.mem_finRange i, List.mem_finRange m⟩, rfl⟩)⟩

/-- Two Falcon vehicles, each sending two messages whose three-byte signatures are cut into three
one-byte fragments. -/
def sampleScenario : Scenario where
  numVehicles := 2
  numMsgs := 2
  vehicle := fun i => { falconSampleVehicle with number := UInt8.ofNat i }
  primitives := fun _ => falconSamplePrimitives
  number_eq := fun i => by fin_cases i <;> rfl
  numMsgs_le := by decide
  signsWithin := fun _ _ => ⟨List.cons_ne_nil _ _, by simp [falconSamplePrimitives],
    by simp [falconSamplePrimitives, maxSignatureTotalSize]⟩

/-- Its transmit loops return, whatever the draws; here every fragment is dropped once and
resent. The receiver, reading the twelve datagrams sent in reverse order, counts the four
SPDUs. -/
theorem end_to_end_delivery_sample :
    ∃ sent : Fin 2 → TransmitState,
      (∀ i, transmit (sampleScenario.vehicle i) falconSamplePrimitives (fun _ _ => true) 2 =
        .ok (sent i)) ∧
      ∃ (s : Receiver) (outs : List (Option Completion)),
        receive 4 Receiver.init
            (((List.finRange 2).flatMap fun i => (sent i).sent).reverse.map (·, (0 : Int))) =
          some (s, outs, []) ∧ s.completedMessages = 4 := by
  obtain ⟨sent, hsent, h⟩ := end_to_end_delivery sampleScenario fun _ _ _ => true
  obtain ⟨s, outs, hrec, hcount, -⟩ :=
    h (((List.finRange 2).flatMap fun i => (sent i).sent).reverse.map (·, (0 : Int)))
      (by rw [List.map_map]; exact (List.map_id _).symm ▸ List.reverse_perm _)
  exact ⟨sent, hsent, s, outs, hrec, hcount⟩

end FalconSim
