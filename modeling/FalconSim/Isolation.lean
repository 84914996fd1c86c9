import FalconSim.Counting

/-!
# Reassembly entries are isolated from each other

The loop of `Vehicle::receive` (`Vehicle.cpp:276-350`) touches, for each datagram, only the
entry `pending_messages[key]` of the datagram's own key: it looks it up, stores the fragment,
overwrites the template, tests completion, and erases it. What a key's entry becomes, and what
its datagrams hand to `verify_message`, is therefore decided by that key's datagrams alone.
Datagrams of other keys, honest or forged, in any interleaving, change nothing about it.

* `entryStep`: lines 277-350 seen from one key, as a function of that key's entry.
* `keyRun`: the entry of one key over a sequence of datagrams, all read as that key's.

Results:
* `receiveFragment_entryStep`, `receiveFragment_pending_ne`: a step is `entryStep` on its own
  key and leaves every other key's entry as it was.
* `runBody_keyRun`: the run over any interleaving, read on one key, is `keyRun` over that key's
  datagrams.
* **`reassembly_isolated`**: the run over any interleaving agrees, on one key, with the run over
  that key's datagrams alone: the same entry at the end, the same hand-offs at those datagrams.
  `Verdicts.lean` reads it on an honest SPDU amid any other traffic.
-/

namespace FalconSim

/-! ## One key's machine -/

/-- Lines 277-350 on the entry of `incoming`'s key: the entry left in the table (`none` once
erased) and the completion handed on, if any. -/
def entryStep (entry? : Option PendingMessage) (incoming : SpduFragment) (receiveTime : Int) :
    Option (Option PendingMessage × Option Completion) :=
  (updateEntry entry? incoming receiveTime).map fun entry =>
    if entry.complete then (none, some ⟨entry, receiveTime, incoming.vehicleId⟩)
    else (some entry, none)

/-- The entry of one key over a sequence of datagrams, each read as that key's. -/
def keyRun : Option PendingMessage → List Datagram →
    Option (Option PendingMessage × List (Option Completion))
  | entry?, [] => some (entry?, [])
  | entry?, d :: ds => do
    let step ← entryStep entry? d.1 d.2
    let run ← keyRun step.1 ds
    pure (run.1, step.2 :: run.2)

theorem keyRun_cons {e? : Option PendingMessage} {d : Datagram} {ds : List Datagram}
    {r : Option PendingMessage × Option Completion} (h : entryStep e? d.1 d.2 = some r) :
    keyRun e? (d :: ds) = (keyRun r.1 ds).map fun run => (run.1, r.2 :: run.2) := by
  simp only [keyRun, bind, Option.bind, h, pure]
  cases keyRun r.1 ds <;> rfl

/-- A run over `d :: ds` is a step on `d`, then a run over `ds`. -/
theorem keyRun_cons_eq_some {e? : Option PendingMessage} {d : Datagram} {ds : List Datagram}
    {r : Option PendingMessage × List (Option Completion)} (h : keyRun e? (d :: ds) = some r) :
    ∃ step run, entryStep e? d.1 d.2 = some step ∧ keyRun step.1 ds = some run ∧
      r = (run.1, step.2 :: run.2) := by
  cases hs : entryStep e? d.1 d.2 with
  | none => simp [keyRun, hs, bind, Option.bind] at h
  | some step =>
    rw [keyRun_cons hs] at h
    obtain ⟨run, hrun, rfl⟩ := Option.map_eq_some'.mp h
    exact ⟨step, run, rfl, hrun, rfl⟩

variable {s s' : Receiver} {d : SpduFragment} {t : Int} {o : Option Completion}

/-- A step is `entryStep` on the entry of its datagram's key. -/
theorem receiveFragment_entryStep (h : receiveFragment s d t = some (s', o)) :
    entryStep (s.pendingMessages d.key) d t = some (s'.pendingMessages d.key, o) := by
  obtain ⟨e, hu, hp, -, ho⟩ := receiveFragment_eq_some h
  rw [entryStep, hu, Option.map_some', hp, ho, Function.update_same]
  split <;> rfl

/-- A step leaves the entry of every other key as it was. -/
theorem receiveFragment_pending_ne (h : receiveFragment s d t = some (s', o)) {k : UInt64}
    (hk : k ≠ d.key) : s'.pendingMessages k = s.pendingMessages k := by
  obtain ⟨e, -, hp, -⟩ := receiveFragment_eq_some h
  rw [hp, Function.update_noteq hk]

/-- Conversely, a defined `entryStep` is a defined step. -/
theorem receiveFragment_of_entryStep {r : Option PendingMessage × Option Completion}
    (h : entryStep (s.pendingMessages d.key) d t = some r) :
    ∃ s', receiveFragment s d t = some (s', r.2) ∧ s'.pendingMessages d.key = r.1 := by
  obtain ⟨e, hu, rfl⟩ := Option.map_eq_some'.mp h
  rw [receiveFragment_of_updateEntry hu]
  split <;> exact ⟨_, rfl, Function.update_same _ _ _⟩

/-! ## Runs, read on one key -/

/-- **Run lemma.** The run over any sequence, read on key `k`, is `keyRun` over `k`'s datagrams:
its final entry is the run's, and its outputs are the run's at those datagrams. -/
theorem runBody_keyRun {ds : List Datagram} {outs : List (Option Completion)}
    (h : runBody s ds = some (s', outs)) (k : UInt64) :
    keyRun (s.pendingMessages k) (ds.filter fun d => d.1.key = k) =
      some (s'.pendingMessages k,
        ((ds.zip outs).filter fun p => p.1.1.key = k).map Prod.snd) := by
  induction ds generalizing s outs with
  | nil => cases h; rfl
  | cons d ds ih =>
    obtain ⟨r, outs', hr, hrun, rfl⟩ := runBody_cons_eq_some h
    by_cases hk : d.1.key = k
    · subst hk
      rw [List.filter_cons_of_pos (by simp), List.zip_cons_cons,
        List.filter_cons_of_pos (by simp), List.map_cons,
        keyRun_cons (receiveFragment_entryStep hr), ih hrun]
      rfl
    · rw [List.filter_cons_of_neg (by simpa using hk), List.zip_cons_cons,
        List.filter_cons_of_neg (by simpa using hk),
        ← receiveFragment_pending_ne hr (Ne.symm hk), ih hrun]

/-- Over datagrams all of key `k`, a defined `keyRun` is a defined run. -/
theorem runBody_of_keyRun {k : UInt64} {ds : List Datagram} (hk : ∀ d ∈ ds, d.1.key = k)
    {e? : Option PendingMessage} {outs : List (Option Completion)}
    (h : keyRun (s.pendingMessages k) ds = some (e?, outs)) :
    ∃ s', runBody s ds = some (s', outs) ∧ s'.pendingMessages k = e? := by
  induction ds generalizing s outs with
  | nil => cases h; exact ⟨s, rfl, rfl⟩
  | cons d ds ih =>
    obtain rfl := hk d (List.mem_cons_self _ _)
    obtain ⟨step, run, hr, hrun, hst⟩ := keyRun_cons_eq_some h
    obtain ⟨rfl, rfl⟩ := Prod.mk.inj hst
    obtain ⟨s₁, hs₁, hp⟩ := receiveFragment_of_entryStep hr
    obtain ⟨s₂, hs₂, hp₂⟩ :=
      ih (s := s₁) (fun d' hd' => hk d' (List.mem_cons_of_mem _ hd')) (by rw [hp]; exact hrun)
    exact ⟨s₂, by simp [runBody, hs₁, hs₂, bind, Option.bind, pure], hp₂⟩

/-- **Entries are isolated** (lines 276-350). Whatever other keys' datagrams, honest or forged,
are interleaved with those of key `k`, the run agrees on `k` with the run, from the same state,
over `k`'s datagrams alone: the same entry for `k` at the end, and the same hand-offs to
`verify_message` at `k`'s datagrams. -/
theorem reassembly_isolated (s : Receiver) (ds : List Datagram) (k : UInt64) {s' : Receiver}
    {outs : List (Option Completion)} (h : runBody s ds = some (s', outs)) :
    ∃ s'' : Receiver,
      runBody s (ds.filter fun d => d.1.key = k) =
        some (s'', ((ds.zip outs).filter fun p => p.1.1.key = k).map Prod.snd) ∧
      s''.pendingMessages k = s'.pendingMessages k :=
  runBody_of_keyRun (fun d hd => by simpa using (List.mem_filter.mp hd).2) (runBody_keyRun h k)

/-- An honest fragment's length is at most 512. -/
theorem SentSpdu.fragmentLength_le {x : SentSpdu} {g : SpduFragment} (hg : g ∈ x.fragments) :
    g.fragmentLength.toNat ≤ maxSignatureFragmentSize := by
  obtain ⟨i, hi, rfl⟩ := List.getElem_of_mem hg
  exact x.partition.fragmentLength_le hi

theorem falconSampleSpdu_key_ne : (falconSampleSpdu 0).key ≠ (falconSampleSpdu 1).key := fun h =>
  absurd (makeMessageKey_inj.mp h).2 (by decide)

/-- The Falcon sample SPDUs `0` and `1` of vehicle `0`, their fragments interleaved, with an early
copy of SPDU `0`'s first fragment. -/
def interleavedRun : List Datagram :=
  ((falconSampleSpdu 0).fragments.take 1).map (·, (0 : Int)) ++
    ((falconSampleSpdu 0).fragments.zip (falconSampleSpdu 1).fragments).flatMap
      fun p => [(p.1, (1 : Int)), (p.2, (2 : Int))]

/-- Each of its datagrams is a fragment of one of the two SPDUs. -/
theorem mem_interleavedRun {d : Datagram} (hd : d ∈ interleavedRun) :
    d.1 ∈ (falconSampleSpdu 0).fragments ∨ d.1 ∈ (falconSampleSpdu 1).fragments := by
  simp only [interleavedRun, List.mem_append, List.mem_map, List.mem_flatMap, List.mem_cons,
    List.mem_singleton, List.not_mem_nil, or_false] at hd
  rcases hd with ⟨g, hg, rfl⟩ | ⟨p, hp, rfl | rfl⟩
  · exact .inl (List.mem_of_mem_take hg)
  · exact .inl (List.of_mem_zip hp).1
  · exact .inr (List.of_mem_zip hp).2

/-- The loop body runs over `interleavedRun`: its fragments are honest. -/
theorem interleavedRun_isSome :
    ∃ (s' : Receiver) (outs : List (Option Completion)),
      runBody Receiver.init interleavedRun = some (s', outs) :=
  runBody_exists (fun _ hd => (mem_interleavedRun hd).elim SentSpdu.fragmentLength_le
    SentSpdu.fragmentLength_le) Receiver.init

/-- `interleavedRun`, read on SPDU `0`'s key, is the run over SPDU `0`'s four datagrams. -/
theorem reassembly_isolated_interleavedRun :
    ∃ (s' : Receiver) (outs : List (Option Completion)),
      runBody Receiver.init interleavedRun = some (s', outs) ∧
      ∃ s'' : Receiver,
        runBody Receiver.init (interleavedRun.filter fun d => d.1.key = (falconSampleSpdu 0).key) =
          some (s'', ((interleavedRun.zip outs).filter fun p =>
            p.1.1.key = (falconSampleSpdu 0).key).map Prod.snd) ∧
        s''.pendingMessages (falconSampleSpdu 0).key =
          s'.pendingMessages (falconSampleSpdu 0).key :=
  let ⟨s', outs, h⟩ := interleavedRun_isSome
  ⟨s', outs, h, reassembly_isolated Receiver.init interleavedRun (falconSampleSpdu 0).key h⟩

end FalconSim
