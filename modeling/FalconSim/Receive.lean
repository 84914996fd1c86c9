import FalconSim.Spdu

/-!
# The receive loop: the reassembly table

Model of the loop of `Vehicle::receive` (`Vehicle.cpp:236-351`): the table `pending_messages`
from `make_message_key(vehicle_id, sequence_number)` to a `PendingMessage`, the guarded copy of
a fragment's bytes, the completion test and the hand-off to `verify_message`.

* `pending_messages` is a map `UInt64 → Option PendingMessage`. `pending_messages[key]`
  default-constructs an absent entry; an entry whose signature buffer is empty (a new one, or
  one created from a fragment announcing a zero-byte signature) is initialised from the
  incoming fragment (lines 279-287).
* Memory safety is part of the model. `copyN` is `std::copy_n`: it is `none` (undefined
  behaviour) when it would read past its source or write past its destination. Indexing
  `fragments_received` is guarded by the code and by the type (`List.get` with the bound).
  A step is `none` exactly when its copy is.
* A completion is the entry handed to `verify_message` with the receive time and
  `incoming.vehicle_id` (lines 316-319); the entry is then erased and `completed_messages`
  incremented. `ReceiveLoop.lean` adds the verification, the GUI datagram and the printing.
* The socket is the list of datagrams in arrival order, each with the instant
  `system_clock::now()` returned for it. `receive` stops when `completed_messages` reaches
  `num_msgs`; with no datagram left and the count not reached, `recvfrom` blocks forever, which
  is the state `receive` returns with nothing left to read.

Results:
* `receiveFragment_eq_none_iff`: a step has undefined behaviour exactly when it copies a fragment
  whose `fragment_length` exceeds 512 past the destination guard. The guard bounds
  `offset + length` by the destination only (`receiveFragment_overreads`).
* `runBody_exists`, `receive_exists`: the loop body, and `receive`, run without undefined
  behaviour over any datagrams whose `fragment_length` is at most 512, whatever else they carry.
* `receive_eq_some`, `receive_of_runBody`: `receive` is the loop body over a prefix of the
  datagrams, and leaves some unread only once `num_msgs` completions are counted.
* `runBody_sizesAgree`: when the datagrams of each key announce the same sizes, every entry keeps
  a buffer and a bitmap of those sizes (used in `Verify.lean`).
-/

namespace FalconSim

/-- `PendingMessage`. -/
structure PendingMessage where
  templateFragment : SpduFragment := {}
  signatureBuffer : List UInt8 := []
  fragmentsReceived : List Bool := []
  firstFragmentTime : Int := 0

instance : Inhabited PendingMessage := ⟨{}⟩

/-- What a completion hands on: the entry, whose template and buffer `verify_message` reads, the
receive time and `incoming.vehicle_id`. -/
structure Completion where
  entry : PendingMessage
  receivedTime : Int
  vehicleId : UInt8

/-- The receive loop's state. -/
structure Receiver where
  pendingMessages : UInt64 → Option PendingMessage
  completedMessages : Nat
  firstFragmentSeen : Bool
  firstFragmentTime : Int
  lastCompletionTime : Int

/-- The state before the first `recvfrom`. -/
def Receiver.init : Receiver := ⟨fun _ => none, 0, false, 0, 0⟩

/-- A datagram and the instant it was received. -/
abbrev Datagram := SpduFragment × Int

/-! ## One iteration -/

/-- `std::copy_n(src.begin(), length, dst.begin() + offset)`. -/
def copyN (src : List UInt8) (length : Nat) (dst : List UInt8) (offset : Nat) :
    Option (List UInt8) :=
  if length ≤ src.length ∧ offset + length ≤ dst.length then
    some (dst.take offset ++ src.take length ++ dst.drop (offset + length))
  else none

/-- Lines 280-286: a fresh entry from `incoming`. -/
def initEntry (incoming : SpduFragment) (receiveTime : Int) : PendingMessage where
  templateFragment :=
    { incoming with
      fragmentIndex := 0, fragmentLength := 0, signatureFragment := FragmentArray.zero }
  signatureBuffer := List.replicate incoming.signatureBufferLength.toNat 0
  fragmentsReceived := List.replicate incoming.fragmentCount.toNat false
  firstFragmentTime := receiveTime

/-- Lines 289-300: copy a new index's bytes into the buffer, when they fit, and mark it. -/
def storeFragment (entry : PendingMessage) (incoming : SpduFragment) : Option PendingMessage :=
  let idx := incoming.fragmentIndex.toNat
  if h : idx < entry.fragmentsReceived.length then
    if !entry.fragmentsReceived[idx] then
      let offset := incoming.signatureOffset.toNat
      let length := incoming.fragmentLength.toNat
      if offset + length ≤ entry.signatureBuffer.length then
        (copyN incoming.signatureFragment.bytes length entry.signatureBuffer offset).map fun buf =>
          { entry with
            signatureBuffer := buf
            fragmentsReceived := entry.fragmentsReceived.set idx true }
      else some entry
    else some entry
  else some entry

/-- Lines 302-306: the template's shared fields, from the latest fragment. -/
def updateTemplate (entry : PendingMessage) (incoming : SpduFragment) : PendingMessage :=
  { entry with
    templateFragment := { entry.templateFragment with
      data := incoming.data
      signatureBufferLength := incoming.signatureBufferLength
      certificateSignatureBufferLength := incoming.certificateSignatureBufferLength
      signatureScheme := incoming.signatureScheme
      fragmentCount := incoming.fragmentCount } }

/-- Lines 277-287: `pending_messages[key]`, initialised if its buffer is empty. -/
def lookupEntry (entry? : Option PendingMessage) (incoming : SpduFragment) (receiveTime : Int) :
    PendingMessage :=
  let entry := entry?.getD default
  if entry.signatureBuffer.isEmpty then initEntry incoming receiveTime else entry

/-- Lines 277-306 on the entry of `incoming`'s key. -/
def updateEntry (entry? : Option PendingMessage) (incoming : SpduFragment) (receiveTime : Int) :
    Option PendingMessage :=
  (storeFragment (lookupEntry entry? incoming receiveTime) incoming).map
    fun entry => updateTemplate entry incoming

/-- Line 308: `std::all_of` over the arrival bitmap. -/
def PendingMessage.complete (entry : PendingMessage) : Bool :=
  entry.fragmentsReceived.all fun received => received

/-- Lines 271-274: the first datagram's instant. -/
def Receiver.markFirst (s : Receiver) (receiveTime : Int) : Receiver :=
  if s.firstFragmentSeen then s
  else { s with firstFragmentSeen := true, firstFragmentTime := receiveTime }

/-- One iteration of the loop on `incoming`, received at `receiveTime`. -/
def receiveFragment (s : Receiver) (incoming : SpduFragment) (receiveTime : Int) :
    Option (Receiver × Option Completion) := do
  let s := s.markFirst receiveTime
  let key := makeMessageKey incoming.vehicleId incoming.sequenceNumber
  let entry ← updateEntry (s.pendingMessages key) incoming receiveTime
  if entry.complete then
    pure ({ s with
      pendingMessages := Function.update s.pendingMessages key none
      completedMessages := s.completedMessages + 1
      lastCompletionTime := receiveTime }, some ⟨entry, receiveTime, incoming.vehicleId⟩)
  else
    pure ({ s with pendingMessages := Function.update s.pendingMessages key (some entry) }, none)

/-! ## Runs -/

/-- The loop body over a sequence of datagrams, with no stopping test: the final state and what
each datagram's step handed on. -/
def runBody : Receiver → List Datagram → Option (Receiver × List (Option Completion))
  | s, [] => some (s, [])
  | s, d :: ds => do
    let step ← receiveFragment s d.1 d.2
    let run ← runBody step.1 ds
    pure (run.1, step.2 :: run.2)

/-- `while (completed_messages < num_msgs)`: the final state, the outputs of the datagrams read
and the datagrams left unread. -/
def receive (numMsgs : Nat) : Receiver → List Datagram →
    Option (Receiver × List (Option Completion) × List Datagram)
  | s, [] => some (s, [], [])
  | s, d :: ds =>
    if s.completedMessages < numMsgs then do
      let step ← receiveFragment s d.1 d.2
      let run ← receive numMsgs step.1 ds
      pure (run.1, step.2 :: run.2.1, run.2.2)
    else some (s, [], d :: ds)

@[simp] theorem markFirst_pendingMessages (s : Receiver) (t : Int) :
    (s.markFirst t).pendingMessages = s.pendingMessages := by
  unfold Receiver.markFirst; split <;> rfl

@[simp] theorem markFirst_completedMessages (s : Receiver) (t : Int) :
    (s.markFirst t).completedMessages = s.completedMessages := by
  unfold Receiver.markFirst; split <;> rfl

theorem copyN_eq_some {src dst : List UInt8} {length offset : Nat} (h₁ : length ≤ src.length)
    (h₂ : offset + length ≤ dst.length) :
    copyN src length dst offset =
      some (dst.take offset ++ src.take length ++ dst.drop (offset + length)) :=
  if_pos ⟨h₁, h₂⟩

theorem copyN_eq_none_iff {src dst : List UInt8} {length offset : Nat} :
    copyN src length dst offset = none ↔ ¬(length ≤ src.length ∧ offset + length ≤ dst.length) := by
  unfold copyN
  split <;> simp_all

/-- A copy that happens keeps the destination's size. -/
theorem length_copyN {src dst r : List UInt8} {length offset : Nat}
    (h : copyN src length dst offset = some r) : r.length = dst.length := by
  unfold copyN at h
  split at h
  · cases h
    simp only [List.length_append, List.length_take, List.length_drop]
    omega
  · cases h

section Store

variable {e : PendingMessage} {d : SpduFragment}

/-- Lines 289-300 copy exactly when the index is inside the bitmap and not yet received, and
the slice fits the buffer. -/
theorem storeFragment_eq :
    storeFragment e d =
      if e.fragmentsReceived[d.fragmentIndex.toNat]? = some false ∧
          d.signatureOffset.toNat + d.fragmentLength.toNat ≤ e.signatureBuffer.length then
        (copyN d.signatureFragment.bytes d.fragmentLength.toNat e.signatureBuffer
            d.signatureOffset.toNat).map fun buf =>
          { e with
            signatureBuffer := buf
            fragmentsReceived := e.fragmentsReceived.set d.fragmentIndex.toNat true }
      else some e := by
  unfold storeFragment
  by_cases hi : d.fragmentIndex.toNat < e.fragmentsReceived.length
  · rw [dif_pos hi, List.getElem?_eq_getElem hi]
    cases e.fragmentsReceived[d.fragmentIndex.toNat] <;> simp
  · rw [dif_neg hi, List.getElem?_eq_none (by omega)]
    simp

/-- A new index whose slice fits is copied in and marked. -/
theorem storeFragment_of_fresh (h₁ : e.fragmentsReceived[d.fragmentIndex.toNat]? = some false)
    (h₂ : d.signatureOffset.toNat + d.fragmentLength.toNat ≤ e.signatureBuffer.length)
    (h₃ : d.fragmentLength.toNat ≤ maxSignatureFragmentSize) :
    storeFragment e d = some { e with
      signatureBuffer := e.signatureBuffer.take d.signatureOffset.toNat ++
        d.signatureFragment.bytes.take d.fragmentLength.toNat ++
        e.signatureBuffer.drop (d.signatureOffset.toNat + d.fragmentLength.toNat)
      fragmentsReceived := e.fragmentsReceived.set d.fragmentIndex.toNat true } := by
  rw [storeFragment_eq, if_pos ⟨h₁, h₂⟩,
    copyN_eq_some (by rw [d.signatureFragment.length_eq]; exact h₃) h₂]
  rfl

/-- Any other datagram leaves the entry as it is. -/
theorem storeFragment_of_not_fresh
    (h : ¬(e.fragmentsReceived[d.fragmentIndex.toNat]? = some false ∧
      d.signatureOffset.toNat + d.fragmentLength.toNat ≤ e.signatureBuffer.length)) :
    storeFragment e d = some e := by
  rw [storeFragment_eq, if_neg h]

/-- **The only undefined behaviour of a store**: the copy of a new index whose slice fits the
buffer, with more than `MAX_SIGNATURE_FRAGMENT_SIZE` bytes to read. The guard bounds the write;
nothing bounds the read. -/
theorem storeFragment_eq_none_iff :
    storeFragment e d = none ↔
      e.fragmentsReceived[d.fragmentIndex.toNat]? = some false ∧
      d.signatureOffset.toNat + d.fragmentLength.toNat ≤ e.signatureBuffer.length ∧
      maxSignatureFragmentSize < d.fragmentLength.toNat := by
  rw [storeFragment_eq]
  split
  · rename_i h
    simp only [Option.map_eq_none', copyN_eq_none_iff, d.signatureFragment.length_eq, h, and_true,
      true_and, Nat.not_le]
  · simp_all

/-- A store keeps the sizes of the buffer and the bitmap, the template and the first instant. -/
theorem storeFragment_sizes {e' : PendingMessage} (h : storeFragment e d = some e') :
    e'.signatureBuffer.length = e.signatureBuffer.length ∧
      e'.fragmentsReceived.length = e.fragmentsReceived.length ∧
      e'.templateFragment = e.templateFragment ∧ e'.firstFragmentTime = e.firstFragmentTime := by
  rw [storeFragment_eq] at h
  split at h
  · obtain ⟨buf, hbuf, rfl⟩ := Option.map_eq_some'.mp h
    exact ⟨length_copyN hbuf, List.length_set .., rfl, rfl⟩
  · cases h
    exact ⟨rfl, rfl, rfl, rfl⟩

end Store

@[simp] theorem updateTemplate_signatureBuffer (e : PendingMessage) (d : SpduFragment) :
    (updateTemplate e d).signatureBuffer = e.signatureBuffer := rfl

@[simp] theorem updateTemplate_fragmentsReceived (e : PendingMessage) (d : SpduFragment) :
    (updateTemplate e d).fragmentsReceived = e.fragmentsReceived := rfl

@[simp] theorem lookupEntry_none (d : SpduFragment) (t : Int) :
    lookupEntry none d t = initEntry d t := rfl

theorem lookupEntry_some {e : PendingMessage} (h : e.signatureBuffer ≠ []) (d : SpduFragment)
    (t : Int) : lookupEntry (some e) d t = e := by
  simp [lookupEntry, List.isEmpty_iff, h]

/-- A lookup finds an entry with a nonempty buffer, or starts one from the datagram. -/
theorem lookupEntry_cases (e? : Option PendingMessage) (d : SpduFragment) (t : Int) :
    lookupEntry e? d t = initEntry d t ∨
      ∃ e, e? = some e ∧ e.signatureBuffer ≠ [] ∧ lookupEntry e? d t = e := by
  cases e? with
  | none => exact .inl rfl
  | some e =>
    by_cases hb : e.signatureBuffer = []
    · exact .inl (by simp [lookupEntry, hb])
    · exact .inr ⟨e, rfl, hb, lookupEntry_some hb d t⟩

variable {s s' : Receiver} {d : SpduFragment} {t : Int} {o : Option Completion}

/-- **What one step does**: it updates the entry of the datagram's key, erases it if complete,
and counts and hands on a completion. -/
theorem receiveFragment_eq_some (h : receiveFragment s d t = some (s', o)) :
    ∃ e, updateEntry (s.pendingMessages d.key) d t = some e ∧
      s'.pendingMessages =
        Function.update s.pendingMessages d.key (if e.complete then none else some e) ∧
      s'.completedMessages = s.completedMessages + (if e.complete then 1 else 0) ∧
      o = (if e.complete then some ⟨e, t, d.vehicleId⟩ else none) := by
  have hk : makeMessageKey d.vehicleId d.sequenceNumber = d.key := rfl
  simp only [receiveFragment, hk, markFirst_pendingMessages] at h
  cases hu : updateEntry (s.pendingMessages d.key) d t with
  | none => simp [hu, bind, Option.bind] at h
  | some e =>
    cases hc : e.complete <;> simp [hu, hc] at h <;> obtain ⟨rfl, rfl⟩ := h <;>
      exact ⟨e, rfl, by simp [hc]⟩

/-- A step counts exactly the completion it hands on. -/
theorem receiveFragment_completed (h : receiveFragment s d t = some (s', o)) :
    s'.completedMessages = s.completedMessages + (if o.isSome then 1 else 0) := by
  obtain ⟨e, -, -, hc, ho⟩ := receiveFragment_eq_some h
  rw [hc, ho]
  split <;> rfl

/-- The step, computed from the updated entry. -/
theorem receiveFragment_of_updateEntry {e : PendingMessage}
    (h : updateEntry (s.pendingMessages d.key) d t = some e) :
    receiveFragment s d t = some (if e.complete then
      ({ s.markFirst t with
          pendingMessages := Function.update s.pendingMessages d.key none
          completedMessages := s.completedMessages + 1
          lastCompletionTime := t }, some ⟨e, t, d.vehicleId⟩)
      else ({ s.markFirst t with
          pendingMessages := Function.update s.pendingMessages d.key (some e) }, none)) := by
  have hk : makeMessageKey d.vehicleId d.sequenceNumber = d.key := rfl
  simp only [receiveFragment, hk, markFirst_pendingMessages, markFirst_completedMessages, h,
    bind, Option.bind]
  split <;> rfl

theorem receiveFragment_eq_none : receiveFragment s d t = none ↔
    updateEntry (s.pendingMessages d.key) d t = none := by
  have hk : makeMessageKey d.vehicleId d.sequenceNumber = d.key := rfl
  simp only [receiveFragment, hk, markFirst_pendingMessages]
  cases updateEntry (s.pendingMessages d.key) d t with
  | none => simp
  | some e =>
    simp only [Option.some_ne_none, iff_false, Option.bind_some, bind, Option.bind]
    split <;> simp [pure]

/-- **Reassembly's only undefined behaviour** (lines 289-300): a step is undefined exactly when,
on the entry it looks up, it copies a new index whose slice fits the buffer and whose
`fragment_length` exceeds 512. Indexing the bitmap and writing the buffer never go out of
bounds. -/
theorem receiveFragment_eq_none_iff :
    receiveFragment s d t = none ↔
      (lookupEntry (s.pendingMessages d.key) d t).fragmentsReceived[d.fragmentIndex.toNat]? =
        some false ∧
      d.signatureOffset.toNat + d.fragmentLength.toNat ≤
        (lookupEntry (s.pendingMessages d.key) d t).signatureBuffer.length ∧
      maxSignatureFragmentSize < d.fragmentLength.toNat := by
  rw [receiveFragment_eq_none, updateEntry, Option.map_eq_none', storeFragment_eq_none_iff]

/-- A datagram of 513 bytes announcing a 513-byte signature, on a fresh key. -/
def overlongFragment : SpduFragment := { signatureBufferLength := 513, fragmentLength := 513 }

/-- The guard admits it: the 513 bytes fit the fresh 513-byte buffer, and `copy_n` reads 513
bytes out of the 512-byte `signature_fragment`. -/
theorem receiveFragment_overreads : receiveFragment Receiver.init overlongFragment 0 = none :=
  receiveFragment_eq_none_iff.mpr ⟨rfl, by simp [Receiver.init, initEntry, overlongFragment],
    by decide⟩

/-- With at most 512 bytes to read in every datagram, no step is undefined. -/
theorem receiveFragment_isSome (h : d.fragmentLength.toNat ≤ maxSignatureFragmentSize) :
    (receiveFragment s d t).isSome := by
  rw [Option.isSome_iff_ne_none, Ne, receiveFragment_eq_none_iff]
  omega

/-! ## Runs -/

theorem runBody_append (s : Receiver) (l₁ l₂ : List Datagram) :
    runBody s (l₁ ++ l₂) = (runBody s l₁).bind fun r₁ =>
      (runBody r₁.1 l₂).map fun r₂ => (r₂.1, r₁.2 ++ r₂.2) := by
  induction l₁ generalizing s with
  | nil => simp [runBody]
  | cons d l₁ ih =>
    rw [List.cons_append]
    simp only [runBody, bind, pure]
    cases receiveFragment s d.1 d.2 with
    | none => rfl
    | some r =>
      simp only [Option.some_bind, ih, Option.bind_assoc]
      cases runBody r.1 l₁ with
      | none => rfl
      | some r₁ => simp only [Option.some_bind]; cases runBody r₁.1 l₂ <;> rfl

/-- The run over one more datagram is the run so far and one more step. -/
theorem runBody_concat (s : Receiver) (ds : List Datagram) (d : Datagram) :
    runBody s (ds ++ [d]) = (runBody s ds).bind fun r =>
      (receiveFragment r.1 d.1 d.2).map fun r' => (r'.1, r.2 ++ [r'.2]) := by
  rw [runBody_append]
  congr 1
  funext r
  simp only [runBody, bind, Option.bind, pure]
  cases receiveFragment r.1 d.1 d.2 <;> rfl

/-- A run over `d :: ds` is a step on `d`, then a run over `ds`. -/
theorem runBody_cons_eq_some {s s' : Receiver} {d : Datagram} {ds : List Datagram}
    {outs : List (Option Completion)} (h : runBody s (d :: ds) = some (s', outs)) :
    ∃ r outs', receiveFragment s d.1 d.2 = some r ∧ runBody r.1 ds = some (s', outs') ∧
      outs = r.2 :: outs' := by
  simp only [runBody, bind, Option.bind] at h
  cases hr : receiveFragment s d.1 d.2 with
  | none => simp [hr] at h
  | some r =>
    cases hrun : runBody r.1 ds with
    | none => simp [hr, hrun] at h
    | some run =>
      simp only [hr, hrun, pure, Option.some.injEq, Prod.mk.injEq] at h
      obtain ⟨rfl, rfl⟩ := h
      exact ⟨r, run.2, rfl, hrun, rfl⟩

/-- A run hands on one output per datagram and counts the completions among them. -/
theorem runBody_counts {s s' : Receiver} {ds : List Datagram} {outs : List (Option Completion)}
    (h : runBody s ds = some (s', outs)) : outs.length = ds.length ∧
      s'.completedMessages = s.completedMessages + (outs.filter Option.isSome).length := by
  induction ds generalizing s outs with
  | nil => cases h; simp
  | cons d ds ih =>
    simp only [runBody, bind, Option.bind] at h
    cases hs : receiveFragment s d.1 d.2 with
    | none => simp [hs] at h
    | some r =>
      cases hr : runBody r.1 ds with
      | none => simp [hs, hr] at h
      | some r' =>
        simp only [hs, hr, pure, Option.some.injEq] at h
        obtain ⟨rfl, rfl⟩ := h
        obtain ⟨hl, hc⟩ := ih hr
        refine ⟨by simp [hl], ?_⟩
        rw [hc, receiveFragment_completed hs]
        cases r.2 <;> simp; omega

/-- The run of the loop body over datagrams whose `fragment_length` is at most 512. -/
theorem runBody_exists {ds : List Datagram}
    (h : ∀ d ∈ ds, d.1.fragmentLength.toNat ≤ maxSignatureFragmentSize) (s : Receiver) :
    ∃ s' outs, runBody s ds = some (s', outs) := by
  induction ds generalizing s with
  | nil => exact ⟨s, [], rfl⟩
  | cons d ds ih =>
    obtain ⟨r, hr⟩ := Option.isSome_iff_exists.mp (receiveFragment_isSome (t := d.2) (s := s)
      (h d (List.mem_cons_self _ _)))
    obtain ⟨s', outs, hrun⟩ := ih (fun d hd => h d (List.mem_cons_of_mem _ hd)) r.1
    exact ⟨s', r.2 :: outs, by simp [runBody, hr, hrun, bind, Option.bind, pure]⟩

/-- Below the target, `receive` reads the next datagram. -/
theorem receive_cons_of_lt {n : Nat} {s : Receiver} {d : Datagram} {ds : List Datagram}
    {r : Receiver × Option Completion} (hn : s.completedMessages < n)
    (h : receiveFragment s d.1 d.2 = some r) :
    receive n s (d :: ds) = (receive n r.1 ds).map fun run => (run.1, r.2 :: run.2.1, run.2.2) := by
  rw [receive, if_pos hn]
  show (receiveFragment s d.1 d.2).bind _ = _
  rw [h, Option.some_bind]
  cases receive n r.1 ds <;> rfl

/-- `receive` is defined on datagrams whose fragments fit the array. -/
theorem receive_exists {ds : List Datagram}
    (h : ∀ d ∈ ds, d.1.fragmentLength.toNat ≤ maxSignatureFragmentSize) (n : Nat) (s : Receiver) :
    ∃ s' outs rest, receive n s ds = some (s', outs, rest) := by
  induction ds generalizing s with
  | nil => exact ⟨s, [], [], rfl⟩
  | cons d ds ih =>
    by_cases hn : s.completedMessages < n
    · obtain ⟨r, hr⟩ := Option.isSome_iff_exists.mp
        (receiveFragment_isSome (t := d.2) (s := s) (h d (List.mem_cons_self _ _)))
      obtain ⟨s', outs, rest, hrec⟩ := ih (fun d hd => h d (List.mem_cons_of_mem _ hd)) r.1
      exact ⟨s', r.2 :: outs, rest, by rw [receive_cons_of_lt hn hr, hrec]; rfl⟩
    · exact ⟨s, [], d :: ds, by rw [receive, if_neg hn]⟩

/-- `receive` runs the loop body over the datagrams it reads, a prefix of the socket's; it leaves
some unread only once `num_msgs` completions are counted. -/
theorem receive_eq_some {n : Nat} {s s' : Receiver} {ds rest : List Datagram}
    {outs : List (Option Completion)} (h : receive n s ds = some (s', outs, rest)) :
    ∃ pre, ds = pre ++ rest ∧ runBody s pre = some (s', outs) ∧
      (rest ≠ [] → n ≤ s'.completedMessages) := by
  induction ds generalizing s outs with
  | nil => cases h; exact ⟨[], rfl, rfl, fun h => absurd rfl h⟩
  | cons d ds ih =>
    unfold receive at h
    split at h
    · simp only [bind, Option.bind] at h
      cases hs : receiveFragment s d.1 d.2 with
      | none => simp [hs] at h
      | some r =>
        cases hr : receive n r.1 ds with
        | none => simp [hs, hr] at h
        | some r' =>
          simp only [hs, hr, pure, Option.some.injEq] at h
          obtain ⟨rfl, rfl, rfl⟩ := h
          obtain ⟨pre, rfl, hpre, hstop⟩ := ih hr
          exact ⟨d :: pre, rfl, by simp [runBody, hs, hpre, bind, Option.bind, pure], hstop⟩
    · cases h
      exact ⟨[], rfl, rfl, fun _ => by omega⟩

/-- `receive` reads every datagram when the count stays below `num_msgs` until the last. -/
theorem receive_of_runBody {n : Nat} {s s' : Receiver} {ds : List Datagram}
    {outs : List (Option Completion)} (h : runBody s ds = some (s', outs))
    (hlt : ∀ i < ds.length, ∀ r, runBody s (ds.take i) = some r → r.1.completedMessages < n) :
    receive n s ds = some (s', outs, []) := by
  induction ds generalizing s outs with
  | nil => cases h; rfl
  | cons d ds ih =>
    simp only [runBody, bind, Option.bind] at h
    cases hs : receiveFragment s d.1 d.2 with
    | none => simp [hs] at h
    | some r =>
      cases hr : runBody r.1 ds with
      | none => simp [hs, hr] at h
      | some r' =>
        simp only [hs, hr, pure, Option.some.injEq] at h
        obtain ⟨rfl, rfl⟩ := h
        have h0 := hlt 0 (by simp) (s, []) rfl
        have ih' := ih hr fun i hi r₁ hr₁ => hlt (i + 1) (by simp; omega) (r₁.1, r.2 :: r₁.2) (by
          simp [runBody, hs, hr₁, bind, Option.bind, pure])
        simp [receive, h0, hs, ih', bind, Option.bind, pure]

/-! ## Sizes -/

/-- An entry whose buffer and bitmap have the sizes `sizes` names, and whose template records
them. -/
structure EntrySized (sizes : UInt32 × UInt16) (e : PendingMessage) : Prop where
  buffer : e.signatureBuffer.length = sizes.1.toNat
  bitmap : e.fragmentsReceived.length = sizes.2.toNat
  bufferLength : e.templateFragment.signatureBufferLength = sizes.1
  count : e.templateFragment.fragmentCount = sizes.2

/-- The sizes a fragment announces: `signature_buffer_length` and `fragment_count`. -/
def SpduFragment.sizes (g : SpduFragment) : UInt32 × UInt16 :=
  (g.signatureBufferLength, g.fragmentCount)

theorem initEntry_sized (d : SpduFragment) (t : Int) : EntrySized d.sizes (initEntry d t) :=
  ⟨by simp [initEntry, SpduFragment.sizes], by simp [initEntry, SpduFragment.sizes], rfl, rfl⟩

/-- An entry updated by a datagram that announces its entry's sizes keeps them. -/
theorem updateEntry_sized {e? : Option PendingMessage} {e' : PendingMessage}
    (he : ∀ e, e? = some e → EntrySized d.sizes e) (h : updateEntry e? d t = some e') :
    EntrySized d.sizes e' := by
  obtain ⟨e'', hs, rfl⟩ := Option.map_eq_some'.mp h
  have hl : EntrySized d.sizes (lookupEntry e? d t) := by
    obtain hl | ⟨e, rfl, -, hl⟩ := lookupEntry_cases e? d t
    · rw [hl]; exact initEntry_sized d t
    · rw [hl]; exact he e rfl
  obtain ⟨hb, hm, ht, -⟩ := storeFragment_sizes hs
  exact ⟨hb ▸ hl.buffer, hm ▸ hl.bitmap, rfl, rfl⟩

/-- Every pending entry has the sizes `sizes` gives its key. -/
def SizesAgree (sizes : UInt64 → UInt32 × UInt16) (s : Receiver) : Prop :=
  ∀ k e, s.pendingMessages k = some e → EntrySized (sizes k) e

/-- **Step lemma.** A datagram announcing its key's sizes keeps them on every entry, and an
entry it completes has them. -/
theorem receiveFragment_sizesAgree {sizes : UInt64 → UInt32 × UInt16} (hs : SizesAgree sizes s)
    (hd : d.sizes = sizes d.key) (h : receiveFragment s d t = some (s', o)) :
    SizesAgree sizes s' ∧ ∀ c, o = some c → EntrySized (sizes d.key) c.entry := by
  obtain ⟨e, hu, hp, -, ho⟩ := receiveFragment_eq_some h
  have he : EntrySized (sizes d.key) e := hd ▸ updateEntry_sized (fun e h => hd ▸ hs _ e h) hu
  refine ⟨fun k e' hk => ?_, fun c hc => ?_⟩
  · rw [hp] at hk
    by_cases hkd : k = d.key
    · subst hkd
      split at hk <;> simp only [Function.update_same, Option.some.injEq, reduceCtorEq] at hk
      exact hk ▸ he
    · rw [Function.update_noteq hkd] at hk
      exact hs k e' hk
  · rw [ho] at hc
    split at hc <;> simp only [Option.some.injEq, reduceCtorEq] at hc
    exact hc ▸ he

/-- An entry sized as some `sizes` is sized as its own template says. -/
theorem EntrySized.self {sz : UInt32 × UInt16} {e : PendingMessage} (h : EntrySized sz e) :
    EntrySized e.templateFragment.sizes e := by
  obtain ⟨h₁, h₂, h₃, h₄⟩ := h
  exact ⟨by rw [h₁, SpduFragment.sizes, h₃], by rw [h₂, SpduFragment.sizes, h₄], rfl, rfl⟩

/-- **Run lemma.** Over datagrams that each announce their key's sizes, the sizes stay agreed,
and every entry handed on is sized as its template says. -/
theorem runBody_sizesAgree {sizes : UInt64 → UInt32 × UInt16} {ds : List Datagram}
    (hd : ∀ d ∈ ds, d.1.sizes = sizes d.1.key) {s s' : Receiver} (hs : SizesAgree sizes s)
    {outs : List (Option Completion)} (h : runBody s ds = some (s', outs)) :
    SizesAgree sizes s' ∧
      ∀ o ∈ outs, ∀ c ∈ o, EntrySized c.entry.templateFragment.sizes c.entry := by
  induction ds generalizing s outs with
  | nil => cases h; exact ⟨hs, by simp⟩
  | cons d ds ih =>
    simp only [runBody, bind, Option.bind] at h
    cases hr : receiveFragment s d.1 d.2 with
    | none => simp [hr] at h
    | some r =>
      cases hr' : runBody r.1 ds with
      | none => simp [hr, hr'] at h
      | some r' =>
        simp only [hr, hr', pure, Option.some.injEq] at h
        obtain ⟨rfl, rfl⟩ := h
        obtain ⟨hs₁, hc⟩ := receiveFragment_sizesAgree hs (hd d (List.mem_cons_self _ _)) hr
        obtain ⟨hs₂, hcs⟩ := ih (fun d' hd' => hd d' (List.mem_cons_of_mem _ hd')) hs₁ hr'
        refine ⟨hs₂, ?_⟩
        intro o ho c hco
        rcases List.mem_cons.mp ho with rfl | ho
        · exact (hc c hco).self
        · exact hcs o ho c hco

end FalconSim
