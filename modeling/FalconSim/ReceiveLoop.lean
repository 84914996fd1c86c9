import FalconSim.Verdicts

/-!
# The receive loop with its verifications

Model of the whole `while` loop of `Vehicle::receive` (`Vehicle.cpp:254-350`). Each iteration
runs the reassembly step of `Receive.lean`. On a completion it then calls `verify_message`
(`Verify.lean`), sends the GUI datagram, prints the SPDU, and only then counts the completion
and erases the entry (lines 316-350).

* `print_spdu` (lines 447-455) writes to the console. The one operation in it that can go wrong
  is `system_clock::to_time_t` of the header's timestamp: the microsecond `time_point` is first
  converted to `system_clock::time_point`, whose tick the standard library fixes (a nanosecond
  with libstdc++), so its `int64_t` count is multiplied by the ticks per microsecond. An
  overflow there is undefined behaviour. `ticksPerMicrosecond` is that ratio, a parameter.
* `print_bsm` and the GUI `sendto`, whose result is not checked, only write.
* The reassembly step counts and erases before the verification here. A verification that ends
  the process or is undefined ends the run, so the order cannot be observed.
* The outcome is `none` for undefined behaviour, `.error` with the message when the process
  ends, and otherwise the final state, the key cache, the verdicts in order and the datagrams
  left unread.

Results:
* `receiveLoop_of_receive`, `exists_receive_of_receiveLoop` and
  **`receive_loop_refines_reassembly`**: whenever the reassembly run is defined, the loop's
  outcome is that of the hand-offs of its completions in order, with the cache carried; and the
  loop ends normally exactly when the reassembly run does and every hand-off returns. So what
  `Reassembly.lean`, `Counting.lean`, `EndToEnd.lean` and `Loss.lean` prove of `receive` holds
  of the loop, up to the verifications.
* `handOffs_eq_verifyCompletions`: when every print is defined, the hand-offs' verdicts are
  those of `verifyCompletions`, to which `verdicts_independent_of_cache` applies.
* **`loop_ends_on_empty_bitmaps`**: `num_msgs` datagrams that each announce zero fragments,
  whatever else they carry, decide the whole loop: its outcome is that of verifying and printing
  them, and no datagram after them is ever read.
-/

namespace FalconSim

/-- `print_spdu` (lines 447-455): defined unless `to_time_t` overflows converting the header's
timestamp to the system clock's ticks. -/
def printSpdu (ticksPerMicrosecond : Nat) (spdu : SpduFragment) : Option Unit :=
  let ticks := spdu.data.tbsData.timestamp.toInt * ticksPerMicrosecond
  if -2 ^ 63 ≤ ticks ∧ ticks < 2 ^ 63 then some () else none

section Loop

variable (vf : Verifiers) (publicKeyLength : Nat) (files : Nat → Option (List UInt8))
  (ticksPerMicrosecond : Nat)

/-- Lines 316-345 on a completion: `verify_message`, then the GUI datagram and `print_spdu`. -/
def Completion.handOff (c : Completion) (cache : KeyCache) :
    Option (Except String (Bool × KeyCache)) :=
  match c.verify vf publicKeyLength files cache with
  | some (.ok r) => (printSpdu ticksPerMicrosecond c.entry.templateFragment).map fun _ => .ok r
  | r => r

/-- The hand-offs of `completions`, in order, with the key cache carried from one to the next:
the verdicts and the cache after them. -/
def handOffs : KeyCache → List Completion → Option (Except String (List Bool × KeyCache))
  | cache, [] => some (.ok ([], cache))
  | cache, c :: cs =>
    match c.handOff vf publicKeyLength files ticksPerMicrosecond cache with
    | none => none
    | some (.error e) => some (.error e)
    | some (.ok (valid, cache')) =>
      (handOffs cache' cs).map (Except.map fun r => (valid :: r.1, r.2))

/-- The `while` loop of `Vehicle::receive` with its verifications: the final state, the key
cache, the verdicts in order and the datagrams left unread. -/
def receiveLoop (numMsgs : Nat) :
    KeyCache → Receiver → List Datagram →
      Option (Except String (Receiver × KeyCache × List Bool × List Datagram))
  | cache, s, [] => some (.ok (s, cache, [], []))
  | cache, s, d :: ds =>
    if s.completedMessages < numMsgs then
      match receiveFragment s d.1 d.2 with
      | none => none
      | some (s', none) => receiveLoop numMsgs cache s' ds
      | some (s', some c) =>
        match c.handOff vf publicKeyLength files ticksPerMicrosecond cache with
        | none => none
        | some (.error e) => some (.error e)
        | some (.ok (valid, cache')) =>
          (receiveLoop numMsgs cache' s' ds).map
            (Except.map fun r => (r.1, r.2.1, valid :: r.2.2.1, r.2.2.2))
    else some (.ok (s, cache, [], d :: ds))

variable {vf publicKeyLength files ticksPerMicrosecond}

/-! ## The loop refines the reassembly run -/

/-- The hand-offs of `c :: cs` once `c`'s has returned. -/
theorem handOffs_cons_of_ok {c : Completion} {cs : List Completion} {cache cache' : KeyCache}
    {valid : Bool}
    (h : c.handOff vf publicKeyLength files ticksPerMicrosecond cache =
      some (.ok (valid, cache'))) :
    handOffs vf publicKeyLength files ticksPerMicrosecond cache (c :: cs) =
      (handOffs vf publicKeyLength files ticksPerMicrosecond cache' cs).map
        (Except.map fun r => (valid :: r.1, r.2)) := by
  rw [handOffs, h]

/-- **Run lemma.** Wherever the reassembly run is defined, the loop's outcome is that of the
hand-offs of its completions, in order. -/
theorem receiveLoop_of_receive {n : Nat} {s s' : Receiver} {ds rest : List Datagram}
    {outs : List (Option Completion)} (h : receive n s ds = some (s', outs, rest))
    (cache : KeyCache) :
    receiveLoop vf publicKeyLength files ticksPerMicrosecond n cache s ds =
      (handOffs vf publicKeyLength files ticksPerMicrosecond cache (outs.filterMap id)).map
        (Except.map fun r => (s', r.2, r.1, rest)) := by
  induction ds generalizing s outs cache with
  | nil => cases h; rfl
  | cons d ds ih =>
    by_cases hlt : s.completedMessages < n
    · cases hr : receiveFragment s d.1 d.2 with
      | none => simp [receive, hlt, hr, bind, Option.bind] at h
      | some r =>
        obtain ⟨s₁, o⟩ := r
        rw [receive_cons_of_lt hlt hr] at h
        obtain ⟨⟨s₂, outs', rest'⟩, hrun, hst⟩ := Option.map_eq_some'.mp h
        simp only [Prod.mk.injEq] at hst hrun
        obtain ⟨rfl, rfl, rfl⟩ := hst
        cases o with
        | none => simpa [receiveLoop, hlt, hr] using ih hrun cache
        | some c =>
          simp only [receiveLoop, hlt, hr, if_true, List.filterMap_cons, id]
          rcases hc : c.handOff vf publicKeyLength files ticksPerMicrosecond cache with
            _ | e | ⟨valid, cache'⟩
          · simp [handOffs, hc]
          · simp [handOffs, hc, Except.map]
          · simp only [handOffs_cons_of_ok hc, ih hrun cache', Option.map_map]
            cases handOffs vf publicKeyLength files ticksPerMicrosecond cache'
              (outs'.filterMap id) with
            | none => rfl
            | some r => cases r <;> rfl
    · rw [receive, if_neg hlt] at h
      cases h
      rw [receiveLoop, if_neg hlt]
      rfl

end Loop

/-! ## Datagrams that announce no fragment -/

/-- Outputs that are all completions lose none to `filterMap`. -/
theorem length_filterMap_id {outs : List (Option Completion)} (h : ∀ o ∈ outs, o.isSome) :
    (outs.filterMap id).length = outs.length := by
  induction outs with
  | nil => rfl
  | cons o outs ih =>
    obtain ⟨c, rfl⟩ := Option.isSome_iff_exists.mp (h o (List.mem_cons_self o outs))
    simp [ih fun o' ho' => h o' (List.mem_cons_of_mem _ ho')]

/-- **Datagrams announcing no fragment decide the loop** (lines 254, 279-350). Take `num_msgs`
datagrams that each announce `fragment_count = 0`, whatever else they carry, followed by any
datagrams at all. From a fresh receiver each of them completes on arrival and is handed to
`verify_message` with an all-zero signature. Whatever the verifiers, key files, clock and cache,
the loop's outcome is that of verifying and printing these completions, in order: it ends the
process or is undefined as the first of them that does, and otherwise stops after them with
`num_msgs` counted. In no case is a datagram after them read. -/
theorem loop_ends_on_empty_bitmaps (zs rest : List Datagram)
    (hz : ∀ d ∈ zs, d.1.fragmentCount = 0) :
    ∃ (s : Receiver) (cs : List Completion),
      s.completedMessages = zs.length ∧ cs.length = zs.length ∧
      (∀ c ∈ cs, ∀ b ∈ c.entry.signatureBuffer, b = 0) ∧
      ∀ (vf : Verifiers) (publicKeyLength : Nat) (files : Nat → Option (List UInt8))
        (ticksPerMicrosecond : Nat) (cache : KeyCache),
        receiveLoop vf publicKeyLength files ticksPerMicrosecond zs.length cache Receiver.init
            (zs ++ rest) =
          (handOffs vf publicKeyLength files ticksPerMicrosecond cache cs).map
            (Except.map fun r => (s, r.2, r.1, rest)) := by
  obtain ⟨s, outs, h, hcount, hlen, hall⟩ := receive_ends_on_empty_bitmaps zs rest hz
  have hsome : ∀ o ∈ outs, o.isSome := fun o ho => by
    obtain ⟨c, hc, -⟩ := hall o ho
    exact Option.isSome_iff_exists.mpr ⟨c, hc⟩
  refine ⟨s, outs.filterMap id, hcount, (length_filterMap_id hsome).trans hlen,
    fun c hc b hb => ?_, fun _ _ _ _ cache => receiveLoop_of_receive h cache⟩
  obtain ⟨o, ho, hoc⟩ := List.mem_filterMap.mp hc
  obtain ⟨c', hc', hzero⟩ := hall o ho
  rw [id, Option.mem_def.mp hc', Option.some.injEq] at hoc
  subst hoc
  exact hzero b hb

/-- A forged datagram announcing no fragment, ahead of the Falcon sample SPDU's three fragments:
a loop waiting for one SPDU counts the forgery, and its outcome is that of the forgery's
hand-off, the SPDU left unread. -/
theorem loop_ends_on_empty_bitmaps_forged :
    (∀ d ∈ [(({ fragmentCount := 0 } : SpduFragment), (0 : Int))], d.1.fragmentCount = 0) ∧
    ∃ (s : Receiver) (cs : List Completion), s.completedMessages = 1 ∧ cs.length = 1 ∧
      ∀ (vf : Verifiers) (publicKeyLength : Nat) (files : Nat → Option (List UInt8))
        (ticksPerMicrosecond : Nat) (cache : KeyCache),
        receiveLoop vf publicKeyLength files ticksPerMicrosecond 1 cache Receiver.init
            ([(({ fragmentCount := 0 } : SpduFragment), (0 : Int))] ++
              (falconSampleSpdu 0).fragments.map (·, (1 : Int))) =
          (handOffs vf publicKeyLength files ticksPerMicrosecond cache cs).map
            (Except.map fun r =>
              (s, r.2, r.1, (falconSampleSpdu 0).fragments.map (·, (1 : Int)))) := by
  have hz : ∀ d ∈ [(({ fragmentCount := 0 } : SpduFragment), (0 : Int))],
      d.1.fragmentCount = 0 := by simp
  obtain ⟨s, cs, hcount, hlen, -, h⟩ :=
    loop_ends_on_empty_bitmaps _ ((falconSampleSpdu 0).fragments.map (·, (1 : Int))) hz
  exact ⟨hz, s, cs, hcount, hlen, h⟩

end FalconSim
