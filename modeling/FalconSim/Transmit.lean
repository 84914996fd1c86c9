import FalconSim.Sign

/-!
# The transmit loop: simulated loss and the single retry burst

Model of the message loop of `Vehicle::transmit` (`Vehicle.cpp:138-176`).

* The socket set-up, the sleeps and the final report are left out; every `sendto` is taken to
  succeed (a failure ends the process). A datagram is the `spdu_fragment` value itself, and
  `TransmitState.sent` lists them in the order of the `sendto` calls.
* The random draws are not modelled: `dropped i j` is the outcome of
  `drop_rate > 0.0 && dist(rng) < drop_rate` for the `j`-th fragment of message `i`. The
  theorems hold for every outcome, hence for every rate and every generator state.
* Message `i` is built by `prepare_signed_fragments(i, i)`: the sequence number and the timestep
  coincide.

Results:
* `firstPass_eq`, `resendPass_eq`: the first pass sends the kept fragments in index order and
  queues the dropped ones in index order; the burst sends the queue.
* `transmit_eq`: the whole run, message after message.
* `transmit_sends_each_once`: every fragment of every message is sent exactly once, the kept ones
  first, message `i` entirely before message `i + 1`, and the two counters end equal.
-/

namespace FalconSim

/-- The datagrams `Vehicle::transmit` has sent, in order, and its two counters. -/
structure TransmitState where
  sent : List SpduFragment := []
  droppedFragments : Nat := 0
  resentFragments : Nat := 0

/-- The first pass over `fragments`: a dropped fragment is counted and queued, any other one
sent. `j` is the fragment's index. -/
def firstPass (dropped : Nat → Bool) :
    Nat → TransmitState × List SpduFragment → List SpduFragment → TransmitState × List SpduFragment
  | _, acc, [] => acc
  | j, (st, resendQueue), fragment :: rest =>
    if dropped j then
      firstPass dropped (j + 1)
        ({ st with droppedFragments := st.droppedFragments + 1 }, resendQueue ++ [fragment]) rest
    else
      firstPass dropped (j + 1) ({ st with sent := st.sent ++ [fragment] }, resendQueue) rest

/-- The retry burst: each queued fragment sent once and counted. -/
def resendPass (st : TransmitState) (resendQueue : List SpduFragment) : TransmitState :=
  resendQueue.foldl (fun st fragment =>
    { st with sent := st.sent ++ [fragment], resentFragments := st.resentFragments + 1 }) st

/-- One iteration of the loop of `Vehicle::transmit`, for message `i`. -/
def transmitMessage (v : Vehicle) (p : Primitives) (dropped : Nat → Nat → Bool)
    (st : TransmitState) (i : Nat) : Except String TransmitState := do
  let fragments ← prepareSignedFragments v p (UInt32.ofNat i) i
  let (st, resendQueue) := firstPass (dropped i) 0 (st, []) fragments
  pure (resendPass st resendQueue)

/-- `Vehicle::transmit(num_msgs, ...)`: the loop over `i ∈ [0, num_msgs)`. -/
def transmit (v : Vehicle) (p : Primitives) (dropped : Nat → Nat → Bool) (numMsgs : Nat) :
    Except String TransmitState :=
  (List.range numMsgs).foldlM (transmitMessage v p dropped) {}

/-! ## One message -/

/-- The fragments of `fs` (the first at index `j`) whose draw came out `b`, in index order. -/
def drawn (dropped : Nat → Bool) (b : Bool) (j : Nat) (fs : List SpduFragment) :
    List SpduFragment :=
  ((fs.enumFrom j).filter fun e => dropped e.1 = b).map Prod.snd

/-- The order the spec gives for one message: the kept fragments, then the dropped ones. -/
def sendOrder (dropped : Nat → Bool) (fs : List SpduFragment) : List SpduFragment :=
  drawn dropped false 0 fs ++ drawn dropped true 0 fs

theorem firstPass_eq (dropped : Nat → Bool) (fs : List SpduFragment) (j : Nat)
    (st : TransmitState) (q : List SpduFragment) :
    firstPass dropped j (st, q) fs =
      ({ st with sent := st.sent ++ drawn dropped false j fs,
                 droppedFragments := st.droppedFragments + (drawn dropped true j fs).length },
       q ++ drawn dropped true j fs) := by
  induction fs generalizing j st q with
  | nil => simp [firstPass, drawn]
  | cons f fs ih =>
    cases hd : dropped j <;> simp [firstPass, hd, ih, drawn, List.filter_cons]
    omega

theorem resendPass_eq (st : TransmitState) (q : List SpduFragment) :
    resendPass st q =
      { st with sent := st.sent ++ q, resentFragments := st.resentFragments + q.length } := by
  induction q generalizing st with
  | nil => simp [resendPass]
  | cons f q ih =>
    simp only [resendPass, List.foldl_cons] at ih ⊢
    rw [ih]
    simp only [List.append_assoc, List.singleton_append, List.length_cons]
    congr 1
    omega

/-- One message's datagrams are its fragments, each once. -/
theorem sendOrder_perm (dropped : Nat → Bool) (fs : List SpduFragment) :
    (sendOrder dropped fs).Perm fs := by
  unfold sendOrder drawn
  rw [← List.map_append]
  have hp : (fun e : Nat × SpduFragment => decide (dropped e.1 = true)) =
      fun e => !decide (dropped e.1 = false) := by
    funext e
    cases dropped e.1 <;> rfl
  rw [hp]
  simpa [List.enumFrom_map_snd] using
    (List.filter_append_perm (fun e : Nat × SpduFragment => decide (dropped e.1 = false))
      (fs.enumFrom 0)).map Prod.snd

/-- **One message.** From state `st`, message `i` appends its fragments in `sendOrder` and adds
the number of dropped fragments to both counters. -/
theorem transmitMessage_eq {v : Vehicle} {p : Primitives} (dropped : Nat → Nat → Bool)
    (st : TransmitState) {i : Nat} {fs : List SpduFragment}
    (h : prepareSignedFragments v p (UInt32.ofNat i) i = .ok fs) :
    transmitMessage v p dropped st i = .ok
      { sent := st.sent ++ sendOrder (dropped i) fs
        droppedFragments := st.droppedFragments + (drawn (dropped i) true 0 fs).length
        resentFragments := st.resentFragments + (drawn (dropped i) true 0 fs).length } := by
  simp [transmitMessage, h, bind, Except.bind, pure, Except.pure, firstPass_eq, resendPass_eq,
    sendOrder]

/-! ## The whole run -/

/-- The datagrams of messages `0 .. n - 1` in the spec's order. -/
def sentUpTo (dropped : Nat → Nat → Bool) (frags : Nat → List SpduFragment) (n : Nat) :
    List SpduFragment :=
  (List.range n).flatMap fun i => sendOrder (dropped i) (frags i)

/-- The number of fragments of messages `0 .. n - 1` that the first pass dropped. -/
def droppedUpTo (dropped : Nat → Nat → Bool) (frags : Nat → List SpduFragment) (n : Nat) : Nat :=
  ((List.range n).map fun i => (drawn (dropped i) true 0 (frags i)).length).sum

/-- **The whole run**, when every message is prepared. -/
theorem transmit_eq {v : Vehicle} {p : Primitives} (dropped : Nat → Nat → Bool) {numMsgs : Nat}
    {frags : Nat → List SpduFragment}
    (h : ∀ i < numMsgs, prepareSignedFragments v p (UInt32.ofNat i) i = .ok (frags i)) :
    transmit v p dropped numMsgs = .ok
      { sent := sentUpTo dropped frags numMsgs
        droppedFragments := droppedUpTo dropped frags numMsgs
        resentFragments := droppedUpTo dropped frags numMsgs } := by
  induction numMsgs with
  | zero => rfl
  | succ n ih =>
    rw [transmit, List.range_succ, List.foldlM_append, ← transmit, ih fun i hi => h i (by omega)]
    simp [transmitMessage_eq dropped _ (h n (by omega)), sentUpTo, droppedUpTo, List.range_succ,
      bind, Except.bind, pure, Except.pure]

/-- **Simulated loss never loses or duplicates a fragment** (§4.4). Whatever the draws, when
every message is prepared, `transmit` returns; for each `i` in increasing order it sends the
fragments of `prepare_signed_fragments(i, i)` kept by the draws, in index order, then the dropped
ones, in index order; all of them, each once, message `i` before message `i + 1`; and
`dropped_fragments = resent_fragments`. -/
theorem transmit_sends_each_once (v : Vehicle) (p : Primitives) (dropped : Nat → Nat → Bool)
    (numMsgs : Nat) (frags : Nat → List SpduFragment)
    (h : ∀ i < numMsgs, prepareSignedFragments v p (UInt32.ofNat i) i = .ok (frags i)) :
    ∃ st, transmit v p dropped numMsgs = .ok st ∧
      st.sent = (List.range numMsgs).flatMap (fun i =>
        drawn (dropped i) false 0 (frags i) ++ drawn (dropped i) true 0 (frags i)) ∧
      st.sent.Perm ((List.range numMsgs).flatMap frags) ∧
      st.droppedFragments = st.resentFragments :=
  ⟨_, transmit_eq dropped h, rfl,
    List.Perm.flatMap_left _ fun i _ => sendOrder_perm (dropped i) (frags i), rfl⟩

/-- `falconSampleVehicle`'s one message is cut into three fragments; the middle one is dropped,
and sent once, after the other two. -/
theorem transmit_sends_each_once_middle_dropped :
    (∀ i < 1, prepareSignedFragments falconSampleVehicle falconSamplePrimitives (UInt32.ofNat i) i =
      .ok ((prepareSignedFragments falconSampleVehicle falconSamplePrimitives
        (UInt32.ofNat i) i).toOption.getD [])) ∧
    ∃ g₀ g₁ g₂,
      (prepareSignedFragments falconSampleVehicle falconSamplePrimitives 0 0).toOption.getD [] =
        [g₀, g₁, g₂] ∧
      ∃ st, transmit falconSampleVehicle falconSamplePrimitives (fun _ j => j == 1) 1 = .ok st ∧
        st.sent = [g₀, g₂, g₁] ∧ st.droppedFragments = st.resentFragments := by
  have h : ∀ i < 1, prepareSignedFragments falconSampleVehicle falconSamplePrimitives
      (UInt32.ofNat i) i = .ok ((prepareSignedFragments falconSampleVehicle falconSamplePrimitives
        (UInt32.ofNat i) i).toOption.getD []) := by
    intro i hi
    obtain rfl : i = 0 := by omega
    rfl
  obtain ⟨g₀, g₁, g₂, hfs⟩ : ∃ g₀ g₁ g₂, (prepareSignedFragments falconSampleVehicle
      falconSamplePrimitives 0 0).toOption.getD [] = [g₀, g₁, g₂] := ⟨_, _, _, rfl⟩
  obtain ⟨st, hst, hsent, -, hc⟩ := transmit_sends_each_once _ _ (fun _ j => j == 1) 1 _ h
  refine ⟨h, g₀, g₁, g₂, hfs, st, hst, ?_, hc⟩
  rw [hsent, show List.range 1 = [0] from rfl, List.flatMap_singleton]
  show drawn _ false 0 ((prepareSignedFragments falconSampleVehicle falconSamplePrimitives 0 0
    ).toOption.getD []) ++ drawn _ true 0 ((prepareSignedFragments falconSampleVehicle
      falconSamplePrimitives 0 0).toOption.getD []) = _
  rw [hfs]
  rfl

end FalconSim
