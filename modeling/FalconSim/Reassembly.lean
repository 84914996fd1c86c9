import FalconSim.Arrivals
import FalconSim.Receive
import FalconSim.Sign

/-!
# Reassembly of honest SPDUs: the receive loop refines the arrival sets

The loop body of `Vehicle::receive` (`Receive.lean`) against the abstract model of
`Arrivals.lean`, on datagrams drawn from SPDUs that vehicles produced honestly: any order, any
multiplicity, any datagram missing.

* `SentSpdu` is an SPDU as a vehicle hands it to the network: the fragments
  `prepare_signed_fragments` returned for one sequence number and timestep, from a signer within
  the bounds of §4.3. Its fragments are the partition of its signature (`Sign.lean`).
* `assembled s f R` is the buffer of an entry that holds the slices of `R`: byte `b`, of slice
  `b / f`, is the signature's when that index is in `R` and zero otherwise. `Holds` says an entry
  is that buffer, the bitmap of `R`, and a template carrying the SPDU's shared fields.
* `Simulates xs A s`: on the key of every SPDU of `xs`, the receiver's table has no entry while
  the key's arrival set is empty, and otherwise an entry holding exactly that set's slices.

Premises the receiver does not check: the SPDUs have distinct keys, and every datagram is one of
their fragments. Nothing else about the datagrams is assumed.

Results:
* `receiveFragment_simulates`, `runBody_simulates`: one step, and every prefix of a run, keeps the
  simulation; each step hands on a completion exactly when the abstract step completes, and then
  with the SPDU's signature and shared fields.
* `receiveFragment_repeat`: a fragment whose index is already in its key's set changes neither the
  buffer nor the bitmap of the entry.
* **`reassembly_order_insensitive`**: the reassembly properties of §4.5 of the specification, over
  every arrival sequence.
-/

namespace FalconSim

/-! ## Honest SPDUs -/

/-- An SPDU as a vehicle sends it: the fragments `prepare_signed_fragments` returned for a
sequence number and a timestep, from a signer within the bounds of §4.3. -/
structure SentSpdu where
  vehicle : Vehicle
  primitives : Primitives
  sequenceNumber : UInt32
  timestep : Nat
  fragments : List SpduFragment
  signsWithin : SignsWithin vehicle primitives sequenceNumber
  prepared : prepareSignedFragments vehicle primitives sequenceNumber timestep = .ok fragments

namespace SentSpdu

variable (x : SentSpdu)

/-- The reassembly key of its fragments. -/
def key : UInt64 := makeMessageKey x.vehicle.number x.sequenceNumber

/-- The signature the signer returned. -/
def signature : List UInt8 := signatureFor x.vehicle x.primitives x.sequenceNumber

/-- The template its fragments copy. -/
def template : SpduFragment := baseFragment x.vehicle x.primitives x.sequenceNumber x.timestep

/-- Its slice size. -/
def fragmentSize : Nat := fragmentSizeFor x.vehicle x.primitives x.sequenceNumber

/-- Its number of fragments. -/
def count : Nat := fragmentCountFor x.vehicle x.primitives x.sequenceNumber

theorem partition : Partition x.template x.signature x.fragmentSize x.count x.fragments := by
  obtain ⟨frags, h, hP⟩ := prepareSignedFragments_spec x.timestep x.signsWithin
  rw [x.prepared] at h
  cases h
  exact hP

variable {x}

theorem key_of_mem {g : SpduFragment} (hg : g ∈ x.fragments) : g.key = x.key := by
  obtain ⟨hv, hs, -⟩ := x.partition.shared g hg
  rw [SpduFragment.key, hv, hs]
  rfl

/-- A fragment is the one at its own index. -/
theorem getElem_index {g : SpduFragment} (hg : g ∈ x.fragments) :
    ∃ h : g.fragmentIndex.toNat < x.fragments.length, x.fragments[g.fragmentIndex.toNat] = g := by
  obtain ⟨i, hi, rfl⟩ := List.getElem_of_mem hg
  have := x.partition.index i hi
  refine ⟨by omega, ?_⟩
  simp only [this]

theorem length_fragments : x.fragments.length = x.count := x.partition.length_eq

end SentSpdu

/-! ## The buffer of a partly reassembled signature -/

/-- The buffer of an entry holding the slices of the indices `R` of a signature `s` cut every
`f` bytes. -/
def assembled (s : List UInt8) (f : Nat) (R : Finset Nat) : List UInt8 :=
  (List.range s.length).map fun b => if b / f ∈ R then s.getD b 0 else 0

section Assembled

variable {s : List UInt8} {f : Nat} {R : Finset Nat}

@[simp] theorem length_assembled : (assembled s f R).length = s.length := by
  simp [assembled]

theorem getElem?_assembled (b : Nat) :
    (assembled s f R)[b]? =
      if b < s.length then some (if b / f ∈ R then s.getD b 0 else 0) else none := by
  unfold assembled
  split <;> simp_all [List.getElem?_range]

theorem assembled_empty : assembled s f ∅ = List.replicate s.length 0 := by
  simp [assembled]

/-- With every slice in, the buffer is the signature. -/
theorem assembled_of_covers (h : ∀ b < s.length, b / f ∈ R) : assembled s f R = s := by
  apply List.ext_getElem?
  intro b
  rw [getElem?_assembled]
  split
  · rename_i hb
    rw [if_pos (h b hb), List.getD_eq_getElem _ _ hb, List.getElem?_eq_getElem hb]
  · rw [List.getElem?_eq_none (by omega)]

/-- **Copying slice `j` in** (lines 293-297) adds `j` to the slices held. -/
theorem assembled_insert (hf : 0 < f ∨ s.length = 0) {j : Nat} (hj : j * f ≤ s.length) :
    (assembled s f R).take (j * f) ++ (s.drop (j * f)).take (min f (s.length - j * f)) ++
      (assembled s f R).drop (j * f + min f (s.length - j * f)) = assembled s f (insert j R) := by
  rcases hf with hf | hs
  · set o := j * f with ho
    set L := min f (s.length - o) with hL
    have htake : ((assembled s f R).take o).length = o := by
      rw [List.length_take, length_assembled]; omega
    have hmid : ((s.drop o).take L).length = L := by
      rw [List.length_take, List.length_drop]; omega
    apply List.ext_getElem?
    intro b
    rw [getElem?_assembled, List.append_assoc]
    by_cases h₁ : b < o
    · -- before the slice
      have hdiv : b / f ≠ j := ((Nat.div_lt_iff_lt_mul hf).mpr h₁).ne
      rw [List.getElem?_append_left (by omega), List.getElem?_take_of_lt h₁, getElem?_assembled]
      simp only [Finset.mem_insert, hdiv, false_or]
    · rw [List.getElem?_append_right (by omega), htake]
      by_cases h₂ : b < o + L
      · -- inside the slice
        have hdiv : b / f = j := Nat.div_eq_of_lt_le (by omega) (by rw [Nat.add_mul]; omega)
        rw [List.getElem?_append_left (by omega), List.getElem?_take_of_lt (by omega),
          List.getElem?_drop, Nat.add_sub_cancel' (by omega), if_pos (by omega),
          if_pos (by simp [hdiv]), List.getD_eq_getElem _ _ (by omega),
          List.getElem?_eq_getElem (by omega)]
      · -- after the slice
        rw [List.getElem?_append_right (by omega), hmid, List.getElem?_drop, getElem?_assembled,
          show o + L + (b - o - L) = b by omega]
        by_cases hb : b < s.length
        · have hdiv : b / f ≠ j := by
            have : j + 1 ≤ b / f := (Nat.le_div_iff_mul_le hf).mpr (by rw [Nat.add_mul]; omega)
            omega
          simp only [hb, if_true, Finset.mem_insert, hdiv, false_or]
        · simp [hb]
  · obtain rfl : s = [] := List.eq_nil_of_length_eq_zero hs
    simp [assembled]

end Assembled

/-! ## Entries that hold a set of slices -/

/-- What a template carries of an SPDU: the fields its fragments share. -/
structure Carries (base : SpduFragment) (s : List UInt8) (n : Nat) (t : SpduFragment) : Prop where
  vehicleId : t.vehicleId = base.vehicleId
  sequenceNumber : t.sequenceNumber = base.sequenceNumber
  signatureScheme : t.signatureScheme = base.signatureScheme
  data : t.data = base.data
  certificateSignatureBufferLength :
    t.certificateSignatureBufferLength = base.certificateSignatureBufferLength
  signatureBufferLength : t.signatureBufferLength.toNat = s.length
  fragmentCount : t.fragmentCount.toNat = n

/-- An entry holding exactly the slices `R` of the partition of `s` into `n` slices of `f`
bytes over `base`. -/
structure Holds (base : SpduFragment) (s : List UInt8) (f n : Nat) (R : Finset Nat)
    (e : PendingMessage) : Prop where
  buffer : e.signatureBuffer = assembled s f R
  bitmap : e.fragmentsReceived = (List.range n).map fun i => decide (i ∈ R)
  template : Carries base s n e.templateFragment

/-- The entry of an SPDU's key against the indices `R` received since its last completion:
absent while `R` is empty, else holding exactly `R`, with a buffer the lookup keeps. -/
def EntryRel (base : SpduFragment) (s : List UInt8) (f n : Nat) (R : Finset Nat) :
    Option PendingMessage → Prop
  | none => R = ∅
  | some e => Holds base s f n R e ∧ e.signatureBuffer ≠ []

section Holds

variable {base : SpduFragment} {s : List UInt8} {f n : Nat} {frags : List SpduFragment}
  {R : Finset Nat} {e : PendingMessage}

theorem Partition.carries (hP : Partition base s f n frags) {g : SpduFragment} (hg : g ∈ frags) :
    Carries base s n g :=
  let ⟨hv, hs, hsc, hd, hc⟩ := hP.shared g hg
  ⟨hv, hs, hsc, hd, hc, hP.bufferLength g hg, hP.count g hg⟩

/-- Lines 279-287 start an entry holding nothing. -/
theorem holds_initEntry (hP : Partition base s f n frags) {g : SpduFragment} (hg : g ∈ frags)
    (t : Int) : Holds base s f n ∅ (initEntry g t) := by
  have hc := hP.carries hg
  refine ⟨?_, ?_, ⟨hc.1, hc.2, hc.3, hc.4, hc.5, hc.6, hc.7⟩⟩
  · rw [initEntry, hc.signatureBufferLength, assembled_empty]
  · simp [initEntry, hc.fragmentCount]

theorem Holds.updateTemplate (h : Holds base s f n R e) {g : SpduFragment}
    (hg : Carries base s n g) : Holds base s f n R (updateTemplate e g) :=
  ⟨h.buffer, h.bitmap, ⟨h.template.1, h.template.2, hg.3, hg.4, hg.5, hg.6, hg.7⟩⟩

theorem Holds.complete_iff (h : Holds base s f n R e) :
    e.complete = true ↔ Finset.range n ⊆ R := by
  rw [PendingMessage.complete, h.bitmap]
  simp [List.all_eq_true, Finset.subset_iff]

/-- With every index in, the buffer is the signature. -/
theorem Holds.buffer_eq (h : Holds base s f n R e) (hP : Partition base s f n frags)
    (hfull : Finset.range n ⊆ R) : e.signatureBuffer = s := by
  rw [h.buffer]
  apply assembled_of_covers
  intro b hb
  have hcov := hP.covers
  rcases Nat.eq_zero_or_pos f with rfl | hf
  · rw [Nat.mul_zero] at hcov; omega
  · exact hfull (Finset.mem_range.mpr ((Nat.div_lt_iff_lt_mul hf).mpr (by omega)))

theorem bitmap_set {j : Nat} :
    ((List.range n).map fun i => decide (i ∈ R)).set j true =
      (List.range n).map fun i => decide (i ∈ insert j R) := by
  apply List.ext_getElem?
  intro b
  rw [List.getElem?_set]
  by_cases hb : b < n
  · by_cases hj : j = b
    · subst hj; simp [hb]
    · simp [hj, Ne.symm hj, List.getElem?_range hb]
  · simp [List.getElem?_eq_none (by simpa using hb : ((List.range n).map _).length ≤ b)]
    omega

/-- **Storing fragment `i`** adds `i` to the slices an entry holds: a new index is copied in and
marked, a repeated one changes nothing. -/
theorem storeFragment_holds (hP : Partition base s f n frags) {i : Nat} (hi : i < frags.length)
    (h : Holds base s f n R e) :
    ∃ e', storeFragment e frags[i] = some e' ∧ Holds base s f n (insert i R) e' := by
  have hidx : frags[i].fragmentIndex.toNat = i := hP.index i hi
  have hin : i < n := hP.length_eq ▸ hi
  have hbit : e.fragmentsReceived[i]? = some (decide (i ∈ R)) := by
    rw [h.bitmap, List.getElem?_map, List.getElem?_range hin]; rfl
  by_cases hR : i ∈ R
  · refine ⟨e, storeFragment_of_not_fresh ?_, by rwa [Finset.insert_eq_of_mem hR]⟩
    rw [hidx, hbit]
    simp [hR]
  · have hoff := hP.offset i hi
    have hlen := hP.fragmentLength i hi
    have hfit : frags[i].signatureOffset.toNat + frags[i].fragmentLength.toNat ≤
        e.signatureBuffer.length := by
      rw [hoff, hlen, h.buffer, length_assembled]
      exact hP.slice_le_length hin
    refine ⟨_, storeFragment_of_fresh (by rw [hidx, hbit]; simp [hR]) hfit
      (hP.fragmentLength_le hi), ?_, ?_, h.template⟩
    · have hpay := hP.payload _ (List.getElem_mem hi)
      have hslice : ((s.drop (i * f)).take (min f (s.length - i * f))).length =
          min f (s.length - i * f) := by
        rw [List.length_take, List.length_drop]; omega
      simp only [hpay, hoff, hlen, h.buffer]
      rw [List.take_append_of_le_length hslice.ge, List.take_of_length_le hslice.le]
      exact assembled_insert (by
        rcases Nat.eq_zero_or_pos f with rfl | hf
        · exact .inr (by have := hP.covers; rw [Nat.mul_zero] at this; omega)
        · exact .inl hf) (hP.mul_le_length hin)
    · simp only [hidx, h.bitmap, bitmap_set]

/-- **Lines 277-306 on an honest fragment**: from an entry related to `R`, the updated entry holds
`insert i R`. -/
theorem updateEntry_holds (hP : Partition base s f n frags) {i : Nat} (hi : i < frags.length)
    {e? : Option PendingMessage} (hrel : EntryRel base s f n R e?) (t : Int) :
    ∃ e', updateEntry e? frags[i] t = some e' ∧ Holds base s f n (insert i R) e' := by
  have hl : Holds base s f n R (lookupEntry e? frags[i] t) := by
    cases e? with
    | none => cases hrel; exact holds_initEntry hP (List.getElem_mem hi) t
    | some e => rw [lookupEntry_some hrel.2]; exact hrel.1
  obtain ⟨e', hs, he'⟩ := storeFragment_holds hP hi hl
  exact ⟨_, by rw [updateEntry, hs]; rfl, he'.updateTemplate (hP.carries (List.getElem_mem hi))⟩

/-- An entry short of an index has a nonempty buffer: at least two slices, so a nonempty
signature. -/
theorem Holds.entryRel (hP : Partition base s f n frags) (h : Holds base s f n R e) {i : Nat}
    (hi : i < n) (hmem : i ∈ R) (hnf : ¬Finset.range n ⊆ R) : EntryRel base s f n R (some e) := by
  refine ⟨h, fun hnil => hnf ?_⟩
  have hs : s.length = 0 := by rw [← length_assembled (f := f) (R := R), ← h.buffer, hnil]; rfl
  intro b hb
  rw [Finset.mem_range] at hb
  rcases hP.inside with rfl | hlt
  · obtain rfl : b = 0 := by omega
    obtain rfl : i = 0 := by omega
    exact hmem
  · exact absurd hlt (by rw [hs]; omega)

end Holds

/-! ## The simulation -/

/-- The number of fragments of the SPDU of key `k` among `xs`. -/
def countOf (xs : List SentSpdu) (k : UInt64) : Nat :=
  ((xs.find? fun x => x.key = k).map SentSpdu.count).getD 0

/-- A run's datagrams as abstract events: the key and the index of each. -/
def events (ds : List Datagram) : List (UInt64 × Nat) :=
  ds.map fun d => (d.1.key, d.1.fragmentIndex.toNat)

/-- On the key of each SPDU of `xs`, the receiver's entry against the key's arrival set. -/
def Simulates (xs : List SentSpdu) (A : Arrivals) (s : Receiver) : Prop :=
  ∀ x ∈ xs,
    EntryRel x.template x.signature x.fragmentSize x.count (A x.key) (s.pendingMessages x.key)

section Simulation

variable {xs : List SentSpdu} (hkeys : (xs.map SentSpdu.key).Nodup)
include hkeys

theorem SentSpdu.eq_of_key {x y : SentSpdu} (hx : x ∈ xs) (hy : y ∈ xs) (h : x.key = y.key) :
    x = y :=
  List.inj_on_of_nodup_map hkeys hx hy h

theorem countOf_eq {x : SentSpdu} (hx : x ∈ xs) : countOf xs x.key = x.count := by
  unfold countOf
  cases hf : xs.find? fun y => y.key = x.key with
  | none => exact absurd (List.find?_eq_none.mp hf x hx) (by simp)
  | some y =>
    have hy := List.mem_of_find?_eq_some hf
    have hk : y.key = x.key := by simpa using List.find?_some hf
    rw [SentSpdu.eq_of_key hkeys hy hx hk]
    rfl

/-- **Step lemma.** A fragment of an SPDU of `xs` moves the simulation along the abstract arrival
of its index; it hands on a completion exactly when the abstract step completes, and then with
the SPDU's signature, byte for byte, and its shared fields. -/
theorem receiveFragment_simulates {A : Arrivals} {s : Receiver} (hsim : Simulates xs A s)
    {x : SentSpdu} (hx : x ∈ xs) {d : SpduFragment} (hd : d ∈ x.fragments) (t : Int) :
    ∃ s' o, receiveFragment s d t = some (s', o) ∧
      Simulates xs (arrive x.count A x.key d.fragmentIndex.toNat).1 s' ∧
      o.isSome = (arrive x.count A x.key d.fragmentIndex.toNat).2 ∧
      ∀ c, o = some c → c.entry.signatureBuffer = x.signature ∧
        Carries x.template x.signature x.count c.entry.templateFragment := by
  obtain ⟨hi, hdi⟩ := SentSpdu.getElem_index hd
  have hk : d.key = x.key := SentSpdu.key_of_mem hd
  obtain ⟨e, hu, he⟩ := updateEntry_holds x.partition hi (hsim x hx) t
  rw [hdi, ← hk] at hu
  have hstep := receiveFragment_of_updateEntry hu
  rw [hk] at hstep
  -- the other SPDUs' entries and sets are untouched
  have hother : ∀ (v : Option PendingMessage) (R : Finset Nat),
      EntryRel x.template x.signature x.fragmentSize x.count R v →
      Simulates xs (Function.update A x.key R)
        { s.markFirst t with pendingMessages := Function.update s.pendingMessages x.key v } := by
    intro v R hv y hy
    by_cases hyx : y.key = x.key
    · obtain rfl := SentSpdu.eq_of_key hkeys hy hx hyx
      simpa using hv
    · simpa [Function.update_noteq hyx] using hsim y hy
  by_cases hfull : Finset.range x.count ⊆ insert d.fragmentIndex.toNat (A x.key)
  · have hc : e.complete = true := he.complete_iff.mpr hfull
    rw [if_pos hc] at hstep
    refine ⟨_, _, hstep, ?_, by simp [arrive, hfull], ?_⟩
    · simpa [arrive, hfull] using hother none ∅ rfl
    · rintro c ⟨⟩
      exact ⟨he.buffer_eq x.partition hfull, he.template⟩
  · have hc : e.complete = false := Bool.eq_false_iff.mpr fun h => hfull (he.complete_iff.mp h)
    rw [if_neg (by simp [hc])] at hstep
    refine ⟨_, _, hstep, ?_, by simp [arrive, hfull], by simp⟩
    have hin : d.fragmentIndex.toNat < x.count := x.length_fragments ▸ hi
    simpa [arrive, hfull] using hother (some e) _
      (he.entryRel x.partition hin (Finset.mem_insert_self _ _) hfull)

omit hkeys in
/-- **A repeated index changes nothing that is reassembled.** A fragment whose index is already
in its key's set leaves the entry's buffer and bitmap as they were. -/
theorem receiveFragment_repeat {A : Arrivals} {s s' : Receiver} {o : Option Completion}
    (hsim : Simulates xs A s) {x : SentSpdu} (hx : x ∈ xs) {d : SpduFragment}
    (hd : d ∈ x.fragments) (hj : d.fragmentIndex.toNat ∈ A x.key)
    (hnf : ¬Finset.range x.count ⊆ A x.key) {t : Int} (h : receiveFragment s d t = some (s', o)) :
    ∃ e e', s.pendingMessages x.key = some e ∧ s'.pendingMessages x.key = some e' ∧
      e'.signatureBuffer = e.signatureBuffer ∧ e'.fragmentsReceived = e.fragmentsReceived := by
  have hk : d.key = x.key := SentSpdu.key_of_mem hd
  have hrel := hsim x hx
  cases he : s.pendingMessages x.key with
  | none =>
    rw [he] at hrel
    rw [show A x.key = ∅ from hrel] at hj
    exact absurd hj (Finset.not_mem_empty _)
  | some e =>
    rw [he] at hrel
    obtain ⟨hholds, hne⟩ := hrel
    have hstore : storeFragment e d = some e := by
      obtain ⟨hi, -⟩ := SentSpdu.getElem_index hd
      refine storeFragment_of_not_fresh fun hb => ?_
      have hb := hb.1
      rw [hholds.bitmap, List.getElem?_map, List.getElem?_range (x.length_fragments ▸ hi)] at hb
      simp [hj] at hb
    obtain ⟨e₀, hu, hp, -, -⟩ := receiveFragment_eq_some h
    rw [hk, he, updateEntry, lookupEntry_some hne, hstore] at hu
    cases hu
    have hc : (updateTemplate e d).complete = false := Bool.eq_false_iff.mpr fun h =>
      hnf ((hholds.updateTemplate (x.partition.carries hd)).complete_iff.mp h)
    refine ⟨e, updateTemplate e d, rfl, ?_, rfl, rfl⟩
    rw [hp, hc, hk]
    simp

/-- What step `i` of a run over `ds` hands on, against the abstract run: a completion exactly
when the abstract step completes, and then the signature and shared fields of the datagram's
SPDU. -/
def OutputMatches (xs : List SentSpdu) (ds : List Datagram) (i : Nat) (o : Option Completion) :
    Prop :=
  o.isSome = completes (countOf xs) (events ds) i ∧
    ∀ c, o = some c → ∀ x ∈ xs, ∀ d, ds[i]? = some d → d.1 ∈ x.fragments →
      c.entry.signatureBuffer = x.signature ∧
        Carries x.template x.signature x.count c.entry.templateFragment

/-- **Run lemma.** Over datagrams drawn from the SPDUs of `xs`, every prefix of the run is
defined, keeps the simulation, and hands on at each step what the abstract run says. -/
theorem runBody_simulates {ds : List Datagram} (hds : ∀ d ∈ ds, ∃ x ∈ xs, d.1 ∈ x.fragments) :
    ∀ i ≤ ds.length, ∃ s outs, runBody Receiver.init (ds.take i) = some (s, outs) ∧
      Simulates xs (arrivals (countOf xs) ((events ds).take i)) s ∧ outs.length = i ∧
      ∀ i' (h : i' < outs.length), OutputMatches xs ds i' outs[i'] := by
  intro i
  induction i with
  | zero => exact fun _ => ⟨_, [], rfl, fun x _ => rfl, rfl, fun _ h => absurd h (by simp)⟩
  | succ i ih =>
    intro hi
    obtain ⟨s, outs, hrun, hsim, hlen, hout⟩ := ih (by omega)
    have hi' : i < ds.length := hi
    obtain ⟨x, hx, hd⟩ := hds ds[i] (List.getElem_mem hi')
    obtain ⟨s', o, hstep, hsim', ho, hc⟩ := receiveFragment_simulates hkeys hsim hx hd ds[i].2
    have hie : i < (events ds).length := by simpa [events] using hi'
    have hev : (events ds)[i] = (x.key, ds[i].1.fragmentIndex.toNat) := by
      simp [events, SentSpdu.key_of_mem hd]
    have hcount : countOf xs x.key = x.count := countOf_eq hkeys hx
    refine ⟨s', outs ++ [o], ?_, ?_, by simp [hlen], fun i' h => ?_⟩
    · rw [List.take_succ, List.getElem?_eq_getElem hi', Option.toList_some, runBody_concat, hrun]
      simp [hstep]
    · rw [arrivals_take_succ hie, hev]
      simpa [hcount] using hsim'
    · rw [List.length_append, List.length_singleton] at h
      rcases Nat.lt_succ_iff_lt_or_eq.mp (hlen ▸ h) with h' | rfl
      · rw [List.getElem_append_left (by omega)]
        exact hout i' (by omega)
      · rw [List.getElem_append_right (by omega)]
        simp only [hlen, Nat.sub_self, List.getElem_singleton]
        refine ⟨?_, fun c hco y hy d hdy hdm => ?_⟩
        · rw [ho, completes, List.getElem?_eq_getElem hie, hev]
          simp [hcount]
        · rw [List.getElem?_eq_getElem hi', Option.some.injEq] at hdy
          subst hdy
          obtain rfl := SentSpdu.eq_of_key hkeys hy hx
            ((SentSpdu.key_of_mem hdm).symm.trans (SentSpdu.key_of_mem hd))
          exact hc c hco

end Simulation

/-! ## Reassembly is insensitive to order and duplication -/

/-- Step `i` of a run over `ds` completed key `k`: it read a datagram of `k` and handed on a
completion (counted, verified and erased). -/
def CompletesAt (ds : List Datagram) (outs : List (Option Completion)) (k : UInt64) (i : Nat) :
    Prop :=
  (ds[i]?.map fun d => d.1.key) = some k ∧ ∃ c, outs[i]? = some (some c)

section Order

variable {xs : List SentSpdu} (hkeys : (xs.map SentSpdu.key).Nodup) {ds : List Datagram}
  (hds : ∀ d ∈ ds, ∃ x ∈ xs, d.1 ∈ x.fragments) {outs : List (Option Completion)}
  (hlen : outs.length = ds.length)
  (hout : ∀ i (h : i < outs.length), OutputMatches xs ds i outs[i])

include hlen hout in
/-- A concrete completion is an abstract one. -/
theorem completesAt_iff {k : UInt64} {i : Nat} :
    CompletesAt ds outs k i ↔ CompletesKey (countOf xs) (events ds) k i := by
  have hkey : (events ds)[i]?.map Prod.fst = ds[i]?.map fun d => d.1.key := by
    simp [events, Option.map_map, Function.comp_def]
  unfold CompletesAt CompletesKey
  rw [hkey]
  refine and_congr Iff.rfl ?_
  by_cases hi : i < outs.length
  · rw [List.getElem?_eq_getElem hi, ← (hout i hi).1]
    cases outs[i] <;> simp
  · have hev : (events ds)[i]? = none := List.getElem?_eq_none (by simp [events]; omega)
    simp [List.getElem?_eq_none (by omega : outs.length ≤ i), completes, hev]

include hkeys hds in
/-- An abstract arrival of `(x.key, j)` is the arrival of `x`'s fragment `j`. -/
theorem arrival_iff {x : SentSpdu} (hx : x ∈ xs) {i j : Nat} (hj : j < x.fragments.length) :
    (events ds)[i]? = some (x.key, j) ↔ ds[i]?.map Prod.fst = some x.fragments[j] := by
  simp only [events, List.getElem?_map]
  cases hdi : ds[i]? with
  | none => simp
  | some d =>
    obtain ⟨y, hy, hdy⟩ := hds d (List.mem_iff_getElem?.mpr ⟨i, hdi⟩)
    obtain ⟨hk, hdk⟩ := SentSpdu.getElem_index hdy
    simp only [Option.map_some', Option.some.injEq, Prod.ext_iff]
    constructor
    · rintro ⟨hkey, rfl⟩
      obtain rfl := SentSpdu.eq_of_key hkeys hy hx ((SentSpdu.key_of_mem hdy).symm.trans hkey)
      exact hdk.symm
    · intro h
      rw [h]
      obtain ⟨hj', hjj⟩ := SentSpdu.getElem_index (List.getElem_mem hj)
      exact ⟨SentSpdu.key_of_mem (List.getElem_mem hj), by
        have := x.partition.index j hj
        exact this⟩

include hkeys hds hlen hout in
/-- **(a)** A completion of `x`'s key hands on `x`'s signature and shared fields. -/
theorem completion_is_signature {x : SentSpdu} (hx : x ∈ xs) {i : Nat} {c : Completion}
    (hc : outs[i]? = some (some c)) (hk : (ds[i]?.map fun d => d.1.key) = some x.key) :
    c.entry.signatureBuffer = x.signature ∧
      Carries x.template x.signature x.count c.entry.templateFragment := by
  have hi : i < outs.length := (List.getElem?_eq_some_iff.mp hc).1
  rw [List.getElem?_eq_getElem hi, Option.some.injEq] at hc
  have hdi : ds[i]? = some ds[i] := List.getElem?_eq_getElem (by omega)
  obtain ⟨y, hy, hdy⟩ := hds ds[i] (List.getElem_mem (by omega))
  rw [hdi, Option.map_some', Option.some.injEq] at hk
  obtain rfl := SentSpdu.eq_of_key hkeys hy hx ((SentSpdu.key_of_mem hdy).symm.trans hk)
  exact (hout i hi).2 c hc y hy ds[i] hdi hdy

include hkeys hds hlen hout in
/-- **(b)** A key completes only once each of its fragments has arrived since its previous
completion. -/
theorem completesAt_all_arrived {x : SentSpdu} (hx : x ∈ xs) {i : Nat}
    (h : CompletesAt ds outs x.key i) :
    ∀ g ∈ x.fragments, ∃ i' ≤ i, ds[i']?.map Prod.fst = some g ∧
      ∀ i'', i' ≤ i'' → i'' < i → ¬CompletesAt ds outs x.key i'' := by
  intro g hg
  obtain ⟨hj, hgj⟩ := SentSpdu.getElem_index hg
  obtain ⟨i', hi', he, hn⟩ := completes_all_arrived ((completesAt_iff hlen hout).mp h)
    g.fragmentIndex.toNat (by rw [countOf_eq hkeys hx, ← x.length_fragments]; exact hj)
  refine ⟨i', hi', ?_, fun i'' h₁ h₂ hc => hn i'' h₁ h₂ ((completesAt_iff hlen hout).mp hc)⟩
  rw [(arrival_iff hkeys hds hx hj).mp he, hgj]

include hkeys hds hlen hout in
/-- **(c)** A key completes no later than the arrival of the last of its missing fragments. -/
theorem completesAt_within {x : SentSpdu} (hx : x ∈ xs) {a b : Nat}
    (hwin : ∀ g ∈ x.fragments, ∃ i', a ≤ i' ∧ i' ≤ b ∧ ds[i']?.map Prod.fst = some g) :
    ∃ i, a ≤ i ∧ i ≤ b ∧ CompletesAt ds outs x.key i := by
  have hcount := countOf_eq hkeys hx
  have hpos : 0 < countOf xs x.key := by rw [hcount]; exact x.partition.count_pos
  obtain ⟨i, ha, hb, hc⟩ : ∃ i, a ≤ i ∧ i ≤ b ∧ CompletesKey (countOf xs) (events ds) x.key i :=
    completes_within hpos fun j hj => by
      rw [hcount, ← x.length_fragments] at hj
      obtain ⟨i', ha, hb, he⟩ := hwin _ (List.getElem_mem hj)
      exact ⟨i', ha, hb, (arrival_iff hkeys hds hx hj).mpr he⟩
  exact ⟨i, ha, hb, (completesAt_iff hlen hout).mpr hc⟩

include hkeys hds hlen hout in
/-- **(d)** A fragment repeated before its key completes changes neither the buffer nor the
bitmap of the key's entry. -/
theorem repeat_keeps_entry {x : SentSpdu} (hx : x ∈ xs) {i i' : Nat} (hlt : i' < i)
    (hsame : ds[i']?.map Prod.fst = ds[i]?.map Prod.fst)
    (hk : (ds[i]?.map fun d => d.1.key) = some x.key)
    (hn : ∀ i'', i' ≤ i'' → i'' < i → ¬CompletesAt ds outs x.key i'')
    {r₁ r₂ : Receiver × List (Option Completion)}
    (h₁ : runBody Receiver.init (ds.take i) = some r₁)
    (h₂ : runBody Receiver.init (ds.take (i + 1)) = some r₂) :
    ∃ e₁ e₂, r₁.1.pendingMessages x.key = some e₁ ∧ r₂.1.pendingMessages x.key = some e₂ ∧
      e₂.signatureBuffer = e₁.signatureBuffer ∧ e₂.fragmentsReceived = e₁.fragmentsReceived := by
  have hi : i < ds.length := by
    by_contra h
    rw [List.getElem?_eq_none (by omega)] at hk
    cases hk
  obtain ⟨s, outs', hrun, hsim, -, -⟩ := runBody_simulates hkeys hds i hi.le
  rw [hrun, Option.some.injEq] at h₁
  subst h₁
  rw [List.take_succ, List.getElem?_eq_getElem hi, Option.toList_some, runBody_concat, hrun,
    Option.some_bind] at h₂
  obtain ⟨⟨s', o⟩, hr, rfl⟩ := Option.map_eq_some'.mp h₂
  -- the datagram is a fragment of `x`, whose index is already in `x`'s set
  obtain ⟨y, hy, hdy⟩ := hds ds[i] (List.getElem_mem hi)
  have hk' : ds[i].1.key = x.key := by simpa [List.getElem?_eq_getElem hi] using hk
  obtain rfl := SentSpdu.eq_of_key hkeys hy hx ((SentSpdu.key_of_mem hdy).symm.trans hk')
  have hev : (events ds)[i']? = some (y.key, ds[i].1.fragmentIndex.toNat) := by
    have hi' : i' < ds.length := by omega
    have : ds[i'].1 = ds[i].1 := by
      simpa [List.getElem?_eq_getElem hi, List.getElem?_eq_getElem hi'] using hsame
    simp [events, List.getElem?_eq_getElem hi', this, hk']
  have hj : ds[i].1.fragmentIndex.toNat ∈ arrivals (countOf xs) ((events ds).take i) y.key :=
    mem_arrivals_iff.mpr ⟨i', hlt, hev, fun i'' h₁ h₂ hc =>
      hn i'' h₁ h₂ ((completesAt_iff hlen hout).mpr hc)⟩
  have hnf : ¬Finset.range y.count ⊆ arrivals (countOf xs) ((events ds).take i) y.key := by
    rw [← countOf_eq hkeys hy]
    rcases @arrivals_not_full (countOf xs) (events ds) i y.key with h | h
    · exact h
    · rw [h] at hj
      exact absurd hj (Finset.not_mem_empty _)
  exact receiveFragment_repeat hsim hy hdy hj hnf hr

end Order

/-- **Reassembly is insensitive to arrival order and duplication** (§4.5). Take SPDUs produced
honestly, with distinct keys, and any sequence of datagrams drawn from their fragments, in any
order and with any multiplicity, some perhaps never delivered. The loop body runs over the whole
sequence, and for every SPDU `x`:
(a) a completion of `x`'s key hands `verify_message` `x`'s signature, byte for byte, and a
template carrying `x`'s signed data, scheme tag, signature length and other shared fields;
(b) it comes only once every fragment of `x` has arrived since the key's previous completion, or
since the start;
(c) it comes no later than the step at which the last missing fragment first arrives: every
window of steps in which each fragment of `x` arrives holds a completion of `x`'s key;
(d) a fragment repeated before the key completes changes neither the buffer nor the bitmap of the
key's entry. -/
theorem reassembly_order_insensitive (xs : List SentSpdu) (hkeys : (xs.map SentSpdu.key).Nodup)
    (ds : List Datagram) (hds : ∀ d ∈ ds, ∃ x ∈ xs, d.1 ∈ x.fragments) :
    ∃ (s : Receiver) (outs : List (Option Completion)),
      runBody Receiver.init ds = some (s, outs) ∧ ∀ x ∈ xs,
      (∀ (i : Nat) (c : Completion), outs[i]? = some (some c) →
        (ds[i]?.map fun d => d.1.key) = some x.key →
        c.entry.signatureBuffer = x.signature ∧
          Carries x.template x.signature x.count c.entry.templateFragment) ∧
      (∀ i : Nat, CompletesAt ds outs x.key i → ∀ g ∈ x.fragments, ∃ i' ≤ i,
        ds[i']?.map Prod.fst = some g ∧
          ∀ i'', i' ≤ i'' → i'' < i → ¬CompletesAt ds outs x.key i'') ∧
      (∀ a b : Nat, (∀ g ∈ x.fragments, ∃ i', a ≤ i' ∧ i' ≤ b ∧ ds[i']?.map Prod.fst = some g) →
        ∃ i, a ≤ i ∧ i ≤ b ∧ CompletesAt ds outs x.key i) ∧
      (∀ i i' : Nat, i' < i → ds[i']?.map Prod.fst = ds[i]?.map Prod.fst →
        (ds[i]?.map fun d => d.1.key) = some x.key →
        (∀ i'', i' ≤ i'' → i'' < i → ¬CompletesAt ds outs x.key i'') →
        ∀ r₁ r₂, runBody Receiver.init (ds.take i) = some r₁ →
          runBody Receiver.init (ds.take (i + 1)) = some r₂ →
          ∃ e₁ e₂, r₁.1.pendingMessages x.key = some e₁ ∧ r₂.1.pendingMessages x.key = some e₂ ∧
            e₂.signatureBuffer = e₁.signatureBuffer ∧
              e₂.fragmentsReceived = e₁.fragmentsReceived) := by
  obtain ⟨s, outs, hrun, -, hlen, hout⟩ := runBody_simulates hkeys hds ds.length le_rfl
  rw [List.take_length] at hrun
  exact ⟨s, outs, hrun, fun x hx =>
    ⟨fun _ _ hc hk => completion_is_signature hkeys hds hlen hout hx hc hk,
     fun _ h => completesAt_all_arrived hkeys hds hlen hout hx h,
     fun _ _ hwin => completesAt_within hkeys hds hlen hout hx hwin,
     fun _ _ hlt hsame hk hn _ _ h₁ h₂ =>
       repeat_keeps_entry hkeys hds hlen hout hx hlt hsame hk hn h₁ h₂⟩⟩

/-- An ECDSA vehicle's SPDU of a sequence number, sent at the timestep of that number, with a
one-byte signature. -/
def sampleSpdu (sequenceNumber : UInt32) : SentSpdu where
  vehicle := ⟨0, {}, [], 72, []⟩
  primitives := ⟨fun _ => default, fun _ => 0, fun _ => [], fun _ => [7], fun _ => []⟩
  sequenceNumber := sequenceNumber
  timestep := sequenceNumber.toNat
  fragments := (prepareSignedFragments ⟨0, {}, [], 72, []⟩
    ⟨fun _ => default, fun _ => 0, fun _ => [], fun _ => [7], fun _ => []⟩ sequenceNumber
    sequenceNumber.toNat).toOption.getD []
  signsWithin := ⟨by decide, by simp [maxSignatureFragmentSize]⟩
  prepared := rfl

/-- A Falcon vehicle's SPDU of a sequence number, sent at the timestep of that number: its
three-byte signature in three one-byte fragments. -/
def falconSampleSpdu (sequenceNumber : UInt32) : SentSpdu where
  vehicle := falconSampleVehicle
  primitives := falconSamplePrimitives
  sequenceNumber := sequenceNumber
  timestep := sequenceNumber.toNat
  fragments := (prepareSignedFragments falconSampleVehicle falconSamplePrimitives sequenceNumber
    sequenceNumber.toNat).toOption.getD []
  signsWithin := ⟨List.cons_ne_nil _ _, by simp [falconSamplePrimitives],
    by simp [falconSamplePrimitives, maxSignatureTotalSize]⟩
  prepared := rfl

/-- Its three fragments, delivered in reverse order and then again in order. -/
theorem reassembly_order_insensitive_reversed_twice :
    (falconSampleSpdu 0).fragments.length = 3 ∧ ([falconSampleSpdu 0].map SentSpdu.key).Nodup ∧
    (∀ d ∈ (falconSampleSpdu 0).fragments.reverse.map (·, (0 : Int)) ++
        (falconSampleSpdu 0).fragments.map (·, (1 : Int)),
      ∃ x ∈ [falconSampleSpdu 0], d.1 ∈ x.fragments) ∧
    ∃ s outs, runBody Receiver.init ((falconSampleSpdu 0).fragments.reverse.map (·, (0 : Int)) ++
        (falconSampleSpdu 0).fragments.map (·, (1 : Int))) = some (s, outs) := by
  have hkeys : ([falconSampleSpdu 0].map SentSpdu.key).Nodup := List.nodup_singleton _
  have hds : ∀ d ∈ (falconSampleSpdu 0).fragments.reverse.map (·, (0 : Int)) ++
      (falconSampleSpdu 0).fragments.map (·, (1 : Int)),
      ∃ x ∈ [falconSampleSpdu 0], d.1 ∈ x.fragments := by
    intro d hd
    refine ⟨falconSampleSpdu 0, List.mem_singleton_self _, ?_⟩
    simp only [List.mem_append, List.mem_map, List.mem_reverse] at hd
    rcases hd with ⟨g, hg, rfl⟩ | ⟨g, hg, rfl⟩ <;> exact hg
  obtain ⟨s, outs, hrun, -⟩ := reassembly_order_insensitive [falconSampleSpdu 0] hkeys _ hds
  exact ⟨by decide, hkeys, hds, s, outs, hrun⟩

end FalconSim
