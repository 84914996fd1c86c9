import FalconSim.Construct
import FalconSim.Ports
import FalconSim.Trace

/-!
# The whole transmitter: sockets, the trace and every `sendto`

Model of `Vehicle::transmit` (`Vehicle.cpp:99-185`) as a whole: the socket and its option, the
destination port, the BSM `generate_bsm` reads from the loaded trace for each message, and every
`sendto` with its exit. The message loop `transmit` of `Transmit.lean` is what this computes when
every call succeeds.

* What the socket calls return is a parameter (`SocketCalls`): whether `socket` and `setsockopt`
  succeed, and whether the `n`-th `sendto` of the run does. Each failure prints its `perror` line
  and calls `exit(EXIT_FAILURE)`: `.error` with the line's text. The number of the next call is
  the number of datagrams sent so far, since a failed call ends the process.
* The BSM of message `i` is `generate_bsm(i)` over the trace `load_trace` read when the vehicle
  was built (`Trace.lean`): `Primitives.withTrace`. Where `generate_bsm` reads past the trace the
  run is undefined (`none`); it reads before it signs.
* The destination is `transmitPort test V2X_TEST_PORT` (`Ports.lean`), the same for every call.
* The drop rate (`V2X_PACKET_LOSS_RATE` through `strtod`), the random draws, the sleeps and the
  final report are as in `Transmit.lean`: the draws are the parameter `dropped`.

Results:
* `firstPassSending_eq`, `resendPassSending_eq` (one pass) and `transmitMessageSending_eq` (one
  message): a pass sends what `firstPass` and `resendPass` send until its first failing call,
  and ends there with that call's message.
* `transmitLoop_eq` (the run): over prepared messages, the loop computes `transmit`'s run unless
  a `sendto` fails first, and then ends with the message of the first failing call
  (`firstFailure` over `callFlags`).
* `transmitLoop_range`: for a vehicle built by the constructor, the loop over `num_msgs` messages
  either stops at the first with the signer's error (an oversized ECDSA key) or is that run.
* **`transmitter_exits`**: for a vehicle built by the constructor and a trace that covers
  `num_msgs`, whatever the options, files, socket outcomes and draws, the transmitter is defined;
  it ends the process exactly at a failed `socket`, a failed `setsockopt`, an oversized ECDSA key
  with a message to send, or a failed `sendto`, each with its message; otherwise it returns the
  destination port and what `transmit` sends.
-/

namespace FalconSim

/-- What the socket calls of one run of `Vehicle::transmit` return: `socket(AF_INET,
SOCK_DGRAM, 0) ≥ 0`, `setsockopt(sockfd, SOL_SOCKET, SO_REUSEADDR, ...) ≥ 0`, and, for the
`n`-th `sendto` of the run counted from `0`, a nonnegative result. -/
structure SocketCalls where
  socketOk : Bool
  setsockoptOk : Bool
  sendtoOk : Nat → Bool

/-- The signer's primitives with `generate_bsm` reading the loaded trace (`Vehicle.cpp:411-431`):
the BSM of timestep `t` is `generateBsm k samples t`, where that is defined. -/
def Primitives.withTrace (p : Primitives) (k : Kinematics) (samples : List (List UInt32)) :
    Primitives :=
  { p with bsm := fun t => (generateBsm k samples t).getD default }

/-- The `perror` line of a failed `sendto`: the first pass's (line 153) or the resend burst's
(line 168). -/
def sendtoError (resend : Bool) : String :=
  if resend then "resend sendto failed" else "sendto failed"

/-- The message of the first failing `sendto` among calls `n, n + 1, …`, flagged `true` for a
resend; `none` when they all succeed. -/
def firstFailure (ok : Nat → Bool) (n : Nat) : List Bool → Option String
  | [] => none
  | resend :: calls => if ok n then firstFailure ok (n + 1) calls else some (sendtoError resend)

/-- The calls of one message, in order: the kept fragments, then the dropped ones resent. -/
def messageFlags (dropped : Nat → Bool) (fs : List SpduFragment) : List Bool :=
  (drawn dropped false 0 fs).map (fun _ => false) ++ (drawn dropped true 0 fs).map fun _ => true

/-- The calls of messages `0 .. n - 1`, in order. -/
def callFlags (dropped : Nat → Nat → Bool) (frags : Nat → List SpduFragment) (n : Nat) :
    List Bool :=
  (List.range n).flatMap fun i => messageFlags (dropped i) (frags i)

/-- What `prepare_signed_fragments(i, i)` returns to `v`, when it returns. -/
def preparedFragments (v : Vehicle) (p : Primitives) (i : Nat) : List SpduFragment :=
  (prepareSignedFragments v p (UInt32.ofNat i) i).toOption.getD []

/-- A run that ends with the message of a failed call, when there is one, and as `r` otherwise. -/
def orFail {α : Type} (failure : Option String) (r : Except String α) : Except String α :=
  match failure with
  | some e => .error e
  | none => r

section Loop

variable (v : Vehicle) (p : Primitives) (k : Kinematics) (samples : List (List UInt32))
  (sock : SocketCalls) (dropped : Nat → Nat → Bool)

/-- One `sendto` of `fragment` (lines 147-156, 162-171); the call's number is the number of
datagrams sent so far. A failure prints `message` and exits. -/
def sendFragment (message : String) (st : TransmitState) (fragment : SpduFragment) :
    Except String TransmitState :=
  if sock.sendtoOk st.sent.length then .ok { st with sent := st.sent ++ [fragment] }
  else .error message

/-- The first pass over the fragments of a message (lines 141-157): a dropped fragment is counted
and queued, any other one sent. `j` is the fragment's index. -/
def firstPassSending (dropped : Nat → Bool) :
    Nat → TransmitState × List SpduFragment → List SpduFragment →
      Except String (TransmitState × List SpduFragment)
  | _, acc, [] => .ok acc
  | j, (st, resendQueue), fragment :: rest =>
    if dropped j then
      firstPassSending dropped (j + 1)
        ({ st with droppedFragments := st.droppedFragments + 1 }, resendQueue ++ [fragment]) rest
    else do
      let st ← sendFragment sock (sendtoError false) st fragment
      firstPassSending dropped (j + 1) (st, resendQueue) rest

/-- The retry burst (lines 159-174): each queued fragment sent, then counted. -/
def resendPassSending (st : TransmitState) (resendQueue : List SpduFragment) :
    Except String TransmitState :=
  resendQueue.foldlM (fun st fragment => do
    let st ← sendFragment sock (sendtoError true) st fragment
    pure { st with resentFragments := st.resentFragments + 1 }) st

/-- One iteration of the loop (lines 138-176), for message `i`: `generate_bsm(i)` reads the
trace, then the message is signed, cut and sent. -/
def transmitMessageSending (st : TransmitState) (i : Nat) : Option (Except String TransmitState) :=
  if (generateBsm k samples i).isSome then
    some do
      let fragments ← prepareSignedFragments v (p.withTrace k samples) (UInt32.ofNat i) i
      let (st, resendQueue) ← firstPassSending sock (dropped i) 0 (st, []) fragments
      resendPassSending sock st resendQueue
  else none

/-- The loop over the messages `is`. -/
def transmitLoop : List Nat → TransmitState → Option (Except String TransmitState)
  | [], st => some (.ok st)
  | i :: is, st =>
    match transmitMessageSending v p k samples sock dropped st i with
    | some (.ok st') => transmitLoop is st'
    | r => r

/-- `Vehicle::transmit(num_msgs, test)`: the socket and its option, the destination
`transmitPort test V2X_TEST_PORT`, then the loop. It returns the destination and the datagrams
sent, with the two counters. -/
def transmitter (test : Bool) (portEnv : Option (List UInt8)) (numMsgs : Nat) :
    Option (Except String (UInt16 × TransmitState)) :=
  if !sock.socketOk then some (.error "socket creation failed")
  else if !sock.setsockoptOk then some (.error "setsockopt SO_REUSEADDR failed")
  else (transmitLoop v p k samples sock dropped (List.range numMsgs) {}).map
    (Except.map fun st => (transmitPort test portEnv, st))

end Loop

/-! ## The calls of a run -/

theorem drawn_cons (dropped : Nat → Bool) (b : Bool) (j : Nat) (f : SpduFragment)
    (fs : List SpduFragment) :
    drawn dropped b j (f :: fs) =
      if dropped j = b then f :: drawn dropped b (j + 1) fs else drawn dropped b (j + 1) fs := by
  unfold drawn
  rw [List.enumFrom_cons, List.filter_cons]
  split <;> simp_all

theorem firstFailure_append (ok : Nat → Bool) (n : Nat) (a b : List Bool) :
    firstFailure ok n (a ++ b) = (firstFailure ok n a).or (firstFailure ok (n + a.length) b) := by
  induction a generalizing n with
  | nil => rfl
  | cons c a ih =>
    show firstFailure ok n (c :: (a ++ b)) = _
    simp only [firstFailure, List.length_cons]
    split
    · rw [ih, Nat.add_assoc, Nat.add_comm 1]
    · rfl

@[simp] theorem orFail_none {α : Type} (r : Except String α) : orFail none r = r := rfl

theorem orFail_or {α : Type} (a b : Option String) (r : Except String α) :
    orFail (a.or b) r = orFail a (orFail b r) := by
  cases a <;> rfl

theorem length_messageFlags (dropped : Nat → Bool) (fs : List SpduFragment) :
    (messageFlags dropped fs).length = (sendOrder dropped fs).length := by
  simp [messageFlags, sendOrder]

variable {sock : SocketCalls}

/-- **One pass.** The first pass sends the kept fragments until a call fails. -/
theorem firstPassSending_eq (dropped : Nat → Bool) (fs : List SpduFragment) (j : Nat)
    (st : TransmitState) (q : List SpduFragment) :
    firstPassSending sock dropped j (st, q) fs =
      orFail
        (firstFailure sock.sendtoOk st.sent.length ((drawn dropped false j fs).map fun _ => false))
        (.ok (firstPass dropped j (st, q) fs)) := by
  induction fs generalizing j st q with
  | nil => rfl
  | cons f fs ih =>
    rw [drawn_cons]
    by_cases hd : dropped j
    · simp only [firstPassSending, firstPass, hd, if_true, ih]
      rfl
    · have hd' : dropped j = false := by simpa using hd
      simp only [firstPassSending, firstPass, hd', if_true, Bool.false_eq_true, if_false,
        List.map_cons, firstFailure, sendFragment]
      split
      · simp only [bind, Except.bind, ih, List.length_append, List.length_singleton]
      · rfl

/-- **One pass.** The burst resends the queue until a call fails. -/
theorem resendPassSending_eq (st : TransmitState) (q : List SpduFragment) :
    resendPassSending sock st q =
      orFail (firstFailure sock.sendtoOk st.sent.length (q.map fun _ => true))
        (.ok (resendPass st q)) := by
  induction q generalizing st with
  | nil => rfl
  | cons f q ih =>
    simp only [resendPassSending, List.foldlM_cons, List.map_cons, firstFailure, sendFragment]
    split
    · simp only [bind, Except.bind, pure, Except.pure]
      exact (ih _).trans (by simp only [List.length_append, List.length_singleton]; rfl)
    · rfl

variable {v : Vehicle} {p : Primitives} {k : Kinematics} {samples : List (List UInt32)}
  {dropped : Nat → Nat → Bool}

/-- **One message.** A message whose BSM is defined and which is prepared sends its fragments as
`transmitMessage` does, until a call fails. -/
theorem transmitMessageSending_eq {st : TransmitState} {i : Nat} {fs : List SpduFragment}
    (hb : (generateBsm k samples i).isSome)
    (h : prepareSignedFragments v (p.withTrace k samples) (UInt32.ofNat i) i = .ok fs) :
    transmitMessageSending v p k samples sock dropped st i =
      some (orFail (firstFailure sock.sendtoOk st.sent.length (messageFlags (dropped i) fs))
        (transmitMessage v (p.withTrace k samples) dropped st i)) := by
  rw [transmitMessageSending, if_pos hb, transmitMessage_eq dropped st h, messageFlags,
    firstFailure_append, orFail_or]
  simp only [h, bind, Except.bind, firstPassSending_eq, firstPass_eq]
  cases firstFailure sock.sendtoOk st.sent.length
      ((drawn (dropped i) false 0 fs).map fun _ => false) with
  | some e => rfl
  | none =>
    simp only [orFail, resendPassSending_eq, resendPass_eq, List.length_append,
      List.length_map, List.nil_append, List.length_nil, Nat.zero_add, sendOrder,
      List.append_assoc]

/-- A message whose BSM is defined but which cannot be prepared ends the run with the signer's
error, before any call. -/
theorem transmitLoop_of_prepare_error {st : TransmitState} {i : Nat} {is : List Nat} {e : String}
    (hb : (generateBsm k samples i).isSome)
    (h : prepareSignedFragments v (p.withTrace k samples) (UInt32.ofNat i) i = .error e) :
    transmitLoop v p k samples sock dropped (i :: is) st = some (.error e) := by
  simp [transmitLoop, transmitMessageSending, hb, h, bind, Except.bind]

/-- **The run.** Over messages whose BSMs are defined and which are all prepared, the loop
computes `transmit`'s run unless a `sendto` fails first, and then ends with that call's
message. -/
theorem transmitLoop_eq {frags : Nat → List SpduFragment} :
    ∀ {is : List Nat} {st : TransmitState}, (∀ i ∈ is, (generateBsm k samples i).isSome ∧
      prepareSignedFragments v (p.withTrace k samples) (UInt32.ofNat i) i = .ok (frags i)) →
    transmitLoop v p k samples sock dropped is st =
      some (orFail (firstFailure sock.sendtoOk st.sent.length
          (is.flatMap fun i => messageFlags (dropped i) (frags i)))
        (is.foldlM (transmitMessage v (p.withTrace k samples) dropped) st))
  | [], _, _ => rfl
  | i :: is, st, h => by
    obtain ⟨hb, hp⟩ := h i (List.mem_cons_self _ _)
    rw [transmitLoop, transmitMessageSending_eq hb hp, List.flatMap_cons, firstFailure_append,
      orFail_or, List.foldlM_cons, transmitMessage_eq dropped st hp]
    cases firstFailure sock.sendtoOk st.sent.length (messageFlags (dropped i) (frags i)) with
    | some e => rfl
    | none =>
      simp only [orFail_none]
      rw [transmitLoop_eq fun i' hi' => h i' (List.mem_cons_of_mem _ hi')]
      simp only [bind, Except.bind, List.length_append, length_messageFlags]

/-- A trace of at least `n` rows of three samples defines `generate_bsm` at every message. -/
theorem generateBsm_isSome_of_rows {samples : List (List UInt32)} {n : Nat}
    (hrows : ∀ t < n, 3 ≤ (samples.getD t []).length) {i : Nat} (hi : i < n) :
    (generateBsm k samples i).isSome := by
  refine (generateBsm_isSome_iff k samples i).mpr ⟨hrows i hi, ?_⟩
  rcases i with _ | i
  · exact .inl rfl
  · exact .inr (le_trans (by norm_num) (hrows i (by omega)))

section Constructed

variable {number : UInt8} {pqc : PqcOptions} {certificate : List UInt8}
  {ecdsaSize secretKeyLength : Nat} {keyFile : Option (List UInt8)}
  (hk : 0 < secretKeyLength)
  (hv : Vehicle.create number pqc certificate ecdsaSize secretKeyLength keyFile = .ok v)

include hk hv in
/-- A vehicle built by the constructor, unless it is ECDSA with an oversized key, prepares every
message. -/
theorem prepareSignedFragments_of_create
    (hgood : ¬(pqc.scheme = .ecdsa ∧ maxSignatureFragmentSize < ecdsaSize)) (p : Primitives)
    (i : Nat) : prepareSignedFragments v p (UInt32.ofNat i) i = .ok (preparedFragments v p i) := by
  cases hpi : prepareSignedFragments v p (UInt32.ofNat i) i with
  | error e =>
    have h := (prepareSignedFragments_error_of_create hk hv p i e).mp hpi
    exact absurd ⟨h.1, h.2.1⟩ hgood
  | ok fs => rw [preparedFragments, hpi]; rfl

include hk hv in
/-- **The message loop of a constructed vehicle.** Over a trace that covers `num_msgs`, the loop
ends at the first message with the signer's error when the key is an oversized ECDSA one, and
otherwise computes `transmit`'s run until the first failing `sendto`. -/
theorem transmitLoop_range (htrace : ∀ t < numMsgs, 3 ≤ (samples.getD t []).length) :
    transmitLoop v p k samples sock dropped (List.range numMsgs) {} =
      if 0 < numMsgs ∧ pqc.scheme = .ecdsa ∧ maxSignatureFragmentSize < ecdsaSize then
        some (.error "ECDSA signature exceeds maximum fragment size")
      else some (orFail (firstFailure sock.sendtoOk 0
          (callFlags dropped (preparedFragments v (p.withTrace k samples)) numMsgs))
        (transmit v (p.withTrace k samples) dropped numMsgs)) := by
  split_ifs with hbad
  · -- the first message's signer ends the process
    obtain ⟨n, rfl⟩ : ∃ n, numMsgs = n + 1 := ⟨numMsgs - 1, by omega⟩
    rw [List.range_succ_eq_map]
    exact transmitLoop_of_prepare_error (generateBsm_isSome_of_rows htrace hbad.1)
      ((prepareSignedFragments_error_of_create hk hv _ 0 _).mpr ⟨hbad.2.1, hbad.2.2, rfl⟩)
  · -- every message is prepared
    exact transmitLoop_eq fun i hi => ⟨generateBsm_isSome_of_rows htrace (List.mem_range.mp hi),
      prepareSignedFragments_of_create hk hv (fun h => hbad ⟨by simp_all, h⟩) _ i⟩

end Constructed

/-- **Every exit of the transmitter** (`Vehicle.cpp:99-185`, `Vehicle.h:95-105`). Take a vehicle
built by the constructor, whatever its options and key files, a trace of at least `num_msgs`
rows of three samples, as `generate_bsm` reads for `num_msgs` messages, and any outcome of the
socket calls and of the drop draws. The transmitter is defined. It ends the process exactly
when `socket` fails, or else `setsockopt` fails, or else there is a message to send and the
scheme is ECDSA with an `ECDSA_size` above 512, or else a `sendto` fails; each time with the
`perror` line or the signer's message, for a `sendto` that of the first failing call. Otherwise
it returns the destination port, `transmitPort test V2X_TEST_PORT`, and what `transmit` sends
over the BSMs of the trace. -/
theorem transmitter_exits {number : UInt8} {pqc : PqcOptions} {certificate : List UInt8}
    {ecdsaSize secretKeyLength : Nat} {keyFile : Option (List UInt8)} {v : Vehicle}
    (hk : 0 < secretKeyLength)
    (hv : Vehicle.create number pqc certificate ecdsaSize secretKeyLength keyFile = .ok v)
    (p : Primitives) (k : Kinematics) {samples : List (List UInt32)} {numMsgs : Nat}
    (htrace : numMsgs ≤ samples.length ∧ ∀ t < numMsgs, 3 ≤ (samples.getD t []).length)
    (sock : SocketCalls) (dropped : Nat → Nat → Bool) (test : Bool)
    (portEnv : Option (List UInt8)) :
    ∃ r, transmitter v p k samples sock dropped test portEnv numMsgs = some r ∧
      (∀ e, r = .error e ↔
        (sock.socketOk = false ∧ e = "socket creation failed") ∨
        (sock.socketOk = true ∧ sock.setsockoptOk = false ∧
          e = "setsockopt SO_REUSEADDR failed") ∨
        (sock.socketOk = true ∧ sock.setsockoptOk = true ∧
          ((0 < numMsgs ∧ pqc.scheme = .ecdsa ∧ maxSignatureFragmentSize < ecdsaSize ∧
              e = "ECDSA signature exceeds maximum fragment size") ∨
            (¬(0 < numMsgs ∧ pqc.scheme = .ecdsa ∧ maxSignatureFragmentSize < ecdsaSize) ∧
              firstFailure sock.sendtoOk 0
                (callFlags dropped (preparedFragments v (p.withTrace k samples)) numMsgs) =
                some e)))) ∧
      ∀ port st, r = .ok (port, st) →
        port = transmitPort test portEnv ∧
          transmit v (p.withTrace k samples) dropped numMsgs = .ok st := by
  rw [transmitter, transmitLoop_range hk hv htrace.2]
  cases hs : sock.socketOk
  · refine ⟨_, rfl, fun e => ?_, fun _ _ h => nomatch h⟩
    simpa using eq_comm
  cases ho : sock.setsockoptOk
  · refine ⟨_, rfl, fun e => ?_, fun _ _ h => nomatch h⟩
    simpa using eq_comm
  by_cases hbad : 0 < numMsgs ∧ pqc.scheme = .ecdsa ∧ maxSignatureFragmentSize < ecdsaSize
  · simp only [if_pos hbad, Option.map_some', Except.map]
    refine ⟨_, rfl, fun e => ?_, fun _ _ h => nomatch h⟩
    simpa [hbad] using eq_comm
  · -- `transmit` runs to the end, so only a `sendto` can fail
    have hsize : 0 < numMsgs → pqc.scheme = .ecdsa → ¬maxSignatureFragmentSize < ecdsaSize :=
      fun h₁ h₂ h₃ => hbad ⟨h₁, h₂, h₃⟩
    obtain ⟨st, hst⟩ : ∃ st, transmit v (p.withTrace k samples) dropped numMsgs = .ok st :=
      ⟨_, transmit_eq dropped fun i hi => prepareSignedFragments_of_create hk hv
        (fun h => hbad ⟨by omega, h⟩) _ i⟩
    rw [if_neg hbad, hst]
    cases hf : firstFailure sock.sendtoOk 0
        (callFlags dropped (preparedFragments v (p.withTrace k samples)) numMsgs) with
    | some e' =>
      exact ⟨_, rfl, fun e => by simp +contextual [orFail, Except.map, hsize],
        fun _ _ h => nomatch h⟩
    | none =>
      refine ⟨_, rfl, fun e => by simp +contextual [Except.map, hsize], fun port st' h => ?_⟩
      obtain ⟨rfl, rfl⟩ := Prod.mk.inj (Except.ok.inj h)
      exact ⟨rfl, rfl⟩

/-- The Falcon sample vehicle, built from the hex key file `01`, sends its one message, cut into
three fragments, over a one-row trace. The middle fragment is dropped, and the third call, its
resend, fails: the process ends with the resend burst's `perror` line. -/
theorem transmitter_exits_resend_failed :
    0 < 1 ∧
    Vehicle.create 0 { scheme := .falcon, falconFragmentSize := 1 } [] 72 1
        (some ['0'.toUInt8, '1'.toUInt8]) = .ok falconSampleVehicle ∧
    (1 ≤ [[(0 : UInt32), 0, 0]].length ∧ ∀ t < 1, 3 ≤ ([[(0 : UInt32), 0, 0]].getD t []).length) ∧
    transmitter falconSampleVehicle falconSamplePrimitives ⟨fun _ _ _ _ _ => 0, fun _ _ _ _ => 0⟩
        [[0, 0, 0]] ⟨true, true, fun n => decide (n < 2)⟩ (fun _ j => j == 1) false none 1 =
      some (.error "resend sendto failed") := by
  have hv : Vehicle.create 0 { scheme := .falcon, falconFragmentSize := 1 } [] 72 1
      (some ['0'.toUInt8, '1'.toUInt8]) = .ok falconSampleVehicle := rfl
  have htrace : 1 ≤ [[(0 : UInt32), 0, 0]].length ∧
      ∀ t < 1, 3 ≤ ([[(0 : UInt32), 0, 0]].getD t []).length := ⟨le_rfl, by decide⟩
  obtain ⟨r, hr, hexit, -⟩ := transmitter_exits Nat.one_pos hv falconSamplePrimitives
    ⟨fun _ _ _ _ _ => 0, fun _ _ _ _ => 0⟩ htrace ⟨true, true, fun n => decide (n < 2)⟩
    (fun _ j => j == 1) false none
  refine ⟨Nat.one_pos, hv, htrace, hr.trans (congrArg some ((hexit _).mpr ?_))⟩
  exact .inr (.inr ⟨rfl, rfl, .inr ⟨by decide, rfl⟩⟩)

end FalconSim
