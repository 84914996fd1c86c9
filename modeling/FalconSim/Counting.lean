import FalconSim.Reassembly

/-!
# Counting completions: each SPDU once, unless a copy arrives late

`Vehicle::receive` counts each completion in `completed_messages`, erases the key's entry
(lines 316-350) and stops once the count reaches `num_msgs` (line 258). An absent entry is taken
for a new one (line 279), so a copy of a fragment that arrives after its key was completed and
erased opens the entry again.

* `completedKeys ds outs`: the keys a run over `ds` completed, in the order of their completions.
* `allArrived xs ds`: the SPDUs of `xs` all of whose fragments are among the datagrams `ds`.

Results:
* `spdu_counted_twice`: the copy of a one-fragment SPDU's datagram, arriving after the SPDU
  completed, completes it a second time; with a target of two the loop then stops before the
  vehicle's next SPDU, which is never completed.
* `NoLateCopy`: no datagram of an SPDU arrives once all of its fragments have.
* `completesAt_unique`: without late copies a key completes at most once, so `completedKeys` has
  no duplicates (`completedKeys_nodup`).
* `completedMessages_le_arrived`: the count never exceeds the number of SPDUs whose fragments have
  all arrived.
* `completesAt_of_length_le`: once the count reaches the number of SPDUs, each has completed.
* `noLateCopy_of_nodup`: a sequence without duplicates has no late copy.
* **`spdu_counted_once`**: the three, over every arrival order in which no copy of a fragment
  arrives after its key completed.
-/

namespace FalconSim

/-! ## A late copy is counted again -/

/-- A fragment of the one-fragment SPDU `sampleSpdu q`, on a receiver with no entry for its key,
completes it and leaves no entry. -/
theorem sampleSpdu_completes (q : UInt32) {s : Receiver}
    (hs : Simulates [sampleSpdu q] (fun _ => ∅) s) {g : SpduFragment}
    (hg : g ∈ (sampleSpdu q).fragments) (t : Int) :
    ∃ s' c, receiveFragment s g t = some (s', some c) ∧
      Simulates [sampleSpdu q] (fun _ => ∅) s' := by
  have hkeys : ([sampleSpdu q].map SentSpdu.key).Nodup := List.nodup_singleton _
  obtain ⟨s', o, h, hsim, ho, -⟩ :=
    receiveFragment_simulates hkeys hs (List.mem_singleton_self _) hg t
  have hj : g.fragmentIndex.toNat = 0 := by
    have := (SentSpdu.getElem_index hg).1
    rw [SentSpdu.length_fragments] at this
    exact Nat.lt_one_iff.mp this
  have harr :
      arrive (sampleSpdu q).count (fun _ => ∅) (sampleSpdu q).key 0 = (fun _ => ∅, true) := by
    have hone : Finset.range (sampleSpdu q).count = {0} := Finset.range_one
    rw [arrive, if_pos (hone ▸ Finset.singleton_subset_iff.mpr (Finset.mem_insert_self _ _))]
    exact congrArg (·, true) (Function.update_eq_self _ _)
  rw [hj, harr] at hsim ho
  obtain ⟨c, rfl⟩ := Option.isSome_iff_exists.mp ho
  exact ⟨s', c, h, hsim⟩

theorem sampleSpdu_key_ne : (sampleSpdu 0).key ≠ (sampleSpdu 1).key := fun h =>
  absurd (makeMessageKey_inj.mp h).2 (by decide)

/-- Vehicle `0` sends its SPDUs `0` and `1`, and the datagram of SPDU `0` reaches the receiver
twice, the copy ahead of SPDU `1`. -/
def duplicatedRun : List Datagram :=
  (sampleSpdu 0).fragments.map (·, (0 : Int)) ++ (sampleSpdu 0).fragments.map (·, (1 : Int)) ++
    (sampleSpdu 1).fragments.map (·, (2 : Int))

/-- **A late copy is counted again.** Over `duplicatedRun` with `num_msgs = 2`, both copies of
SPDU `0`'s datagram complete its key: `completed_messages` reaches `2` though one SPDU has
arrived, and the loop stops with SPDU `1` unread and never completed. -/
theorem spdu_counted_twice :
    ∃ (s : Receiver) (c₀ c₁ : Completion),
      receive 2 Receiver.init duplicatedRun =
        some (s, [some c₀, some c₁], (sampleSpdu 1).fragments.map (·, (2 : Int))) ∧
      s.completedMessages = 2 ∧
      CompletesAt duplicatedRun [some c₀, some c₁] (sampleSpdu 0).key 0 ∧
      CompletesAt duplicatedRun [some c₀, some c₁] (sampleSpdu 0).key 1 ∧
      ∀ i, ¬CompletesAt duplicatedRun [some c₀, some c₁] (sampleSpdu 1).key i := by
  obtain ⟨g, hg⟩ : ∃ g, (sampleSpdu 0).fragments = [g] := ⟨_, rfl⟩
  obtain ⟨g', hg'⟩ : ∃ g, (sampleSpdu 1).fragments = [g] := ⟨_, rfl⟩
  have hmem : g ∈ (sampleSpdu 0).fragments := hg ▸ List.mem_singleton_self g
  have hkey : g.key = (sampleSpdu 0).key := SentSpdu.key_of_mem hmem
  obtain ⟨s₁, c₀, h₁, hs₁⟩ := sampleSpdu_completes 0 (s := Receiver.init) (fun _ _ => rfl) hmem 0
  obtain ⟨s₂, c₁, h₂, -⟩ := sampleSpdu_completes 0 hs₁ hmem 1
  have hc₁ : s₁.completedMessages = 1 := by rw [receiveFragment_completed h₁]; rfl
  have hc₂ : s₂.completedMessages = 2 := by rw [receiveFragment_completed h₂, hc₁]; rfl
  have hrun : duplicatedRun = [(g, 0), (g, 1), (g', 2)] := by simp [duplicatedRun, hg, hg']
  refine ⟨s₂, c₀, c₁, ?_, hc₂, ⟨by simp [hrun, hkey], c₀, rfl⟩, ⟨by simp [hrun, hkey], c₁, rfl⟩,
    ?_⟩
  · rw [hrun, hg', receive_cons_of_lt (d := (g, 0)) (r := (s₁, some c₀)) (by decide) h₁,
      receive_cons_of_lt (d := (g, 1)) (r := (s₂, some c₁)) (by rw [hc₁]; decide) h₂, receive,
      if_neg (by rw [hc₂]; decide)]
    rfl
  · rintro i ⟨hk, c, hc⟩
    have hi : i < 2 := (List.getElem?_eq_some_iff.mp hc).1
    rw [hrun] at hk
    match i, hi with
    | 0, _ | 1, _ => exact sampleSpdu_key_ne (by simpa [hkey] using hk)

/-! ## The keys a run completes -/

/-- The key step `i` of a run completed, if it completed one. -/
def completedKey (ds : List Datagram) (outs : List (Option Completion)) (i : Nat) :
    Option UInt64 :=
  if (outs[i]?.bind id).isSome then ds[i]?.map fun d => d.1.key else none

/-- The keys a run over `ds` completed, in the order of their completions. -/
def completedKeys (ds : List Datagram) (outs : List (Option Completion)) : List UInt64 :=
  (List.range outs.length).filterMap (completedKey ds outs)

/-- The SPDUs of `xs` all of whose fragments are among the datagrams `ds`. -/
def allArrived (xs : List SentSpdu) (ds : List Datagram) : List SentSpdu :=
  xs.filter fun x => x.fragments.all fun g => g ∈ ds.map Prod.fst

/-- No datagram of an SPDU of `xs` arrives once all of that SPDU's fragments have arrived: its
key completes when the last of them arrives, so no copy of a fragment arrives after its key was
completed. Copies arriving before, which line 290 discards, are allowed. -/
def NoLateCopy (xs : List SentSpdu) (ds : List Datagram) : Prop :=
  ∀ x ∈ xs, ∀ i j : Nat, i < j →
    (∀ g ∈ x.fragments, ∃ i' ≤ i, ds[i']?.map Prod.fst = some g) →
    ∀ d : Datagram, ds[j]? = some d → d.1 ∉ x.fragments

section Late

variable {xs : List SentSpdu} {ds : List Datagram}

/-- A sequence without duplicates has no late copy. -/
theorem noLateCopy_of_nodup (hnodup : (ds.map Prod.fst).Nodup) : NoLateCopy xs ds := by
  intro x _ i j hij hall d hd hdx
  obtain ⟨i', hi', hg⟩ := hall d.1 hdx
  exact List.nodup_iff_getElem?_ne_getElem?.mp hnodup i' j (by omega)
    (by simpa using (List.getElem?_eq_some_iff.mp hd).1)
    (by rw [List.getElem?_map, List.getElem?_map, hd, hg]; rfl)

/-- Neither has any prefix of a sequence without late copies. -/
theorem NoLateCopy.take (h : NoLateCopy xs ds) (n : Nat) : NoLateCopy xs (ds.take n) := by
  intro x hx i j hij hall d hd
  have hj : j < n := by
    by_contra hn
    rw [List.getElem?_take, if_neg hn] at hd
    cases hd
  refine h x hx i j hij (fun g hg => ?_) d (by rwa [List.getElem?_take_of_lt hj] at hd)
  obtain ⟨i', hi', hg'⟩ := hall g hg
  exact ⟨i', hi', by rwa [List.getElem?_take_of_lt (by omega)] at hg'⟩

end Late

section Keys

variable {ds : List Datagram} {outs : List (Option Completion)} {k : UInt64} {i : Nat}

theorem completedKey_eq_some : completedKey ds outs i = some k ↔ CompletesAt ds outs k i := by
  unfold completedKey CompletesAt
  cases outs[i]? with
  | none => simp
  | some o => cases o <;> simp

theorem mem_completedKeys : k ∈ completedKeys ds outs ↔ ∃ i, CompletesAt ds outs k i := by
  simp only [completedKeys, List.mem_filterMap, List.mem_range, completedKey_eq_some]
  exact ⟨fun ⟨i, _, h⟩ => ⟨i, h⟩,
    fun ⟨i, h⟩ => ⟨i, (List.getElem?_eq_some_iff.mp h.2.choose_spec).1, h⟩⟩

theorem completedKeys_cons (d : Datagram) (o : Option Completion) (ds : List Datagram)
    (outs : List (Option Completion)) :
    completedKeys (d :: ds) (o :: outs) =
      (if o.isSome then [d.1.key] else []) ++ completedKeys ds outs := by
  have hshift : completedKey (d :: ds) (o :: outs) ∘ Nat.succ = completedKey ds outs :=
    funext fun i => by simp [completedKey]
  simp only [completedKeys, List.length_cons, List.range_succ_eq_map, List.filterMap_cons,
    List.filterMap_map, hshift]
  cases o <;> simp [completedKey]

theorem length_completedKeys :
    ∀ {ds : List Datagram} {outs : List (Option Completion)}, outs.length = ds.length →
      (completedKeys ds outs).length = (outs.filter Option.isSome).length
  | [], [], _ => rfl
  | d :: ds, o :: outs, h => by
    rw [completedKeys_cons, List.length_append, length_completedKeys (by simpa using h)]
    cases o <;> simp [Nat.add_comm]

/-- A completion read off a prefix of the datagrams is one of the whole sequence. -/
theorem CompletesAt.append_right {rest : List Datagram} (h : CompletesAt ds outs k i) :
    CompletesAt (ds ++ rest) outs k i := by
  obtain ⟨d, hd, -⟩ := Option.map_eq_some'.mp h.1
  rw [CompletesAt, List.getElem?_append_left (List.getElem?_eq_some_iff.mp hd).1]
  exact h

/-- `completed_messages` counts the completed keys, with their repetitions. -/
theorem completedMessages_eq_length {s : Receiver}
    (hrun : runBody Receiver.init ds = some (s, outs)) :
    s.completedMessages = (completedKeys ds outs).length := by
  obtain ⟨hlen, hc⟩ := runBody_counts hrun
  rw [hc, length_completedKeys hlen]
  exact Nat.zero_add _

end Keys

/-! ## Without duplicates, each key completes at most once -/

section Count

variable {xs : List SentSpdu} (hkeys : (xs.map SentSpdu.key).Nodup) {ds : List Datagram}
  (hds : ∀ d ∈ ds, ∃ x ∈ xs, d.1 ∈ x.fragments) (hlate : NoLateCopy xs ds)
  {s : Receiver} {outs : List (Option Completion)}
  (hrun : runBody Receiver.init ds = some (s, outs))

include hkeys hds hrun in
theorem run_outputs :
    outs.length = ds.length ∧ ∀ i (h : i < outs.length), OutputMatches xs ds i outs[i] := by
  obtain ⟨s', outs', h, -, hlen, hout⟩ := runBody_simulates hkeys hds ds.length le_rfl
  rw [List.take_length, hrun, Option.some.injEq, Prod.mk.injEq] at h
  obtain ⟨-, rfl⟩ := h
  exact ⟨hlen, hout⟩

include hds in
/-- A completed key is the key of one of the SPDUs. -/
theorem completesAt_spdu {k : UInt64} {i : Nat} (h : CompletesAt ds outs k i) :
    ∃ x ∈ xs, x.key = k := by
  obtain ⟨d, hd, hk⟩ := Option.map_eq_some'.mp h.1
  obtain ⟨x, hx, hdx⟩ := hds d (List.mem_iff_getElem?.mpr ⟨i, hd⟩)
  exact ⟨x, hx, (SentSpdu.key_of_mem hdx).symm.trans hk⟩

include hkeys hds hlate hrun in
/-- **At most once.** A second completion of a key needs its fragment `0` to arrive again after
the first (`completes_twice`), when all of the SPDU's fragments have arrived: a late copy. -/
theorem completesAt_unique {x : SentSpdu} (hx : x ∈ xs) {i₁ i₂ : Nat}
    (h₁ : CompletesAt ds outs x.key i₁) (h₂ : CompletesAt ds outs x.key i₂) : i₁ = i₂ := by
  obtain ⟨hlen, hout⟩ := run_outputs hkeys hds hrun
  have hpos : 0 < x.fragments.length := x.length_fragments ▸ x.partition.count_pos
  have once : ∀ {i₁ i₂ : Nat}, CompletesAt ds outs x.key i₁ → CompletesAt ds outs x.key i₂ →
      ¬i₁ < i₂ := by
    intro i₁ i₂ h₁ h₂ hlt
    obtain ⟨-, i'', -, h', -, -, he''⟩ := completes_twice
      (countOf_eq hkeys hx ▸ x.partition.count_pos) ((completesAt_iff hlen hout).mp h₁)
      ((completesAt_iff hlen hout).mp h₂) hlt
    rw [arrival_iff hkeys hds hx hpos] at he''
    obtain ⟨d, hd, hd₀⟩ := Option.map_eq_some'.mp he''
    refine hlate x hx i₁ i'' h' (fun g hg => ?_) d hd (hd₀ ▸ List.getElem_mem hpos)
    obtain ⟨i', hi', hg', -⟩ := completesAt_all_arrived hkeys hds hlen hout hx h₁ g hg
    exact ⟨i', hi', hg'⟩
  rcases lt_trichotomy i₁ i₂ with h | h | h
  · exact absurd h (once h₁ h₂)
  · exact h
  · exact absurd h (once h₂ h₁)

include hkeys hds hlate hrun in
theorem completedKeys_nodup : (completedKeys ds outs).Nodup :=
  (List.nodup_range _).filterMap fun i i' k h h' => by
    have hc := completedKey_eq_some.mp h
    obtain ⟨x, hx, rfl⟩ := completesAt_spdu hds hc
    exact completesAt_unique hkeys hds hlate hrun hx hc (completedKey_eq_some.mp h')

include hkeys hds hlate hrun in
/-- `completed_messages` never exceeds the number of SPDUs whose fragments have all arrived. -/
theorem completedMessages_le_arrived : s.completedMessages ≤ (allArrived xs ds).length := by
  obtain ⟨hlen, hout⟩ := run_outputs hkeys hds hrun
  have hsub : completedKeys ds outs ⊆ (allArrived xs ds).map SentSpdu.key := fun k hk => by
    obtain ⟨i, hc⟩ := mem_completedKeys.mp hk
    obtain ⟨x, hx, rfl⟩ := completesAt_spdu hds hc
    refine List.mem_map_of_mem _ (List.mem_filter.mpr ⟨hx, List.all_eq_true.mpr fun g hg => ?_⟩)
    obtain ⟨i', -, hg', -⟩ := completesAt_all_arrived hkeys hds hlen hout hx hc g hg
    obtain ⟨d, hd, rfl⟩ := Option.map_eq_some'.mp hg'
    exact decide_eq_true (List.mem_map_of_mem _ (List.mem_iff_getElem?.mpr ⟨i', hd⟩))
  calc s.completedMessages = (completedKeys ds outs).length := completedMessages_eq_length hrun
    _ ≤ ((allArrived xs ds).map SentSpdu.key).length :=
      ((completedKeys_nodup hkeys hds hlate hrun).subperm hsub).length_le
    _ = (allArrived xs ds).length := List.length_map _ _

include hkeys hds hlate hrun in
/-- Once `completed_messages` reaches the number of SPDUs, every SPDU has completed. -/
theorem completesAt_of_length_le (hle : xs.length ≤ s.completedMessages) :
    ∀ x ∈ xs, ∃ i, CompletesAt ds outs x.key i := by
  have hsub : completedKeys ds outs ⊆ xs.map SentSpdu.key := fun k hk => by
    obtain ⟨i, hc⟩ := mem_completedKeys.mp hk
    obtain ⟨x, hx, rfl⟩ := completesAt_spdu hds hc
    exact List.mem_map_of_mem _ hx
  have hperm := ((completedKeys_nodup hkeys hds hlate hrun).subperm hsub).perm_of_length_le
    (by rw [List.length_map, ← completedMessages_eq_length hrun]; exact hle)
  exact fun x hx => mem_completedKeys.mp (hperm.mem_iff.mpr (List.mem_map_of_mem _ hx))

end Count

/-- **No SPDU is counted twice, when no copy arrives late** (§4.5). Take SPDUs produced honestly,
with distinct keys, and a sequence of their fragments in any order and with any multiplicity,
some perhaps never delivered, in which no datagram of an SPDU arrives once all of its fragments
have: no copy of a fragment arrives after its key was completed, while copies arriving before
are discarded at line 290. The loop body runs over the whole sequence, and: each key completes at
most once; on every prefix, `completed_messages` is at most the number of SPDUs whose fragments
have all arrived; and `receive` with one target per SPDU stops before the end of the sequence
only once every SPDU has completed. -/
theorem spdu_counted_once (xs : List SentSpdu) (hkeys : (xs.map SentSpdu.key).Nodup)
    (ds : List Datagram) (hds : ∀ d ∈ ds, ∃ x ∈ xs, d.1 ∈ x.fragments)
    (hlate : NoLateCopy xs ds) :
    ∃ (s : Receiver) (outs : List (Option Completion)),
      runBody Receiver.init ds = some (s, outs) ∧
      (∀ x ∈ xs, ∀ i₁ i₂ : Nat, CompletesAt ds outs x.key i₁ → CompletesAt ds outs x.key i₂ →
        i₁ = i₂) ∧
      (∀ (i : Nat) (r : Receiver × List (Option Completion)),
        runBody Receiver.init (ds.take i) = some r →
          r.1.completedMessages ≤ (allArrived xs (ds.take i)).length) ∧
      ∀ (s' : Receiver) (outs' : List (Option Completion)) (rest : List Datagram),
        receive xs.length Receiver.init ds = some (s', outs', rest) → rest ≠ [] →
          ∀ x ∈ xs, ∃ i, CompletesAt ds outs' x.key i := by
  obtain ⟨s, outs, hrun, -⟩ := runBody_simulates hkeys hds ds.length le_rfl
  rw [List.take_length] at hrun
  refine ⟨s, outs, hrun, fun x hx _ _ => completesAt_unique hkeys hds hlate hrun hx,
    fun i r h => ?_, fun s' outs' rest h hne x hx => ?_⟩
  · exact completedMessages_le_arrived hkeys (fun d hd => hds d (List.mem_of_mem_take hd))
      (hlate.take i) h
  · obtain ⟨pre, rfl, hpre, hstop⟩ := receive_eq_some h
    obtain ⟨i, hc⟩ := completesAt_of_length_le hkeys
      (fun d hd => hds d (List.mem_append_left _ hd))
      (by simpa using hlate.take pre.length) hpre (hstop hne) x hx
    exact ⟨i, hc.append_right⟩

/-- The Falcon sample SPDU, its middle fragment delivered twice before the others: the copy is
discarded at line 290, and the SPDU completes once. -/
theorem spdu_counted_once_early_copy :
    ∃ g₀ g₁ g₂, (falconSampleSpdu 0).fragments = [g₀, g₁, g₂] ∧
      ([falconSampleSpdu 0].map SentSpdu.key).Nodup ∧
      (∀ d ∈ [(g₁, (0 : Int)), (g₁, 1), (g₀, 2), (g₂, 3)],
        ∃ x ∈ [falconSampleSpdu 0], d.1 ∈ x.fragments) ∧
      NoLateCopy [falconSampleSpdu 0] [(g₁, (0 : Int)), (g₁, 1), (g₀, 2), (g₂, 3)] ∧
      ∃ s outs, runBody Receiver.init [(g₁, (0 : Int)), (g₁, 1), (g₀, 2), (g₂, 3)] =
        some (s, outs) ∧ ∀ i₁ i₂, CompletesAt [(g₁, 0), (g₁, 1), (g₀, 2), (g₂, 3)] outs
          (falconSampleSpdu 0).key i₁ →
          CompletesAt [(g₁, 0), (g₁, 1), (g₀, 2), (g₂, 3)] outs (falconSampleSpdu 0).key i₂ →
          i₁ = i₂ := by
  obtain ⟨g₀, g₁, g₂, hfr⟩ : ∃ g₀ g₁ g₂, (falconSampleSpdu 0).fragments = [g₀, g₁, g₂] :=
    ⟨_, _, _, rfl⟩
  -- the three fragments carry the indices `0`, `1` and `2`
  have hidx : (falconSampleSpdu 0).fragments.map SpduFragment.fragmentIndex = [0, 1, 2] := rfl
  simp only [hfr, List.map_cons, List.map_nil, List.cons.injEq, and_true] at hidx
  have h₀₂ : g₀ ≠ g₂ := fun h => absurd (hidx.1.symm.trans (h ▸ hidx.2.2)) (by decide)
  have h₁₂ : g₁ ≠ g₂ := fun h => absurd (hidx.2.1.symm.trans (h ▸ hidx.2.2)) (by decide)
  have hkeys : ([falconSampleSpdu 0].map SentSpdu.key).Nodup := List.nodup_singleton _
  have hds : ∀ d ∈ [(g₁, (0 : Int)), (g₁, 1), (g₀, 2), (g₂, 3)],
      ∃ x ∈ [falconSampleSpdu 0], d.1 ∈ x.fragments := fun d hd =>
    ⟨_, List.mem_singleton_self _, by
      rw [hfr]; simp at hd; rcases hd with rfl | rfl | rfl | rfl <;> simp⟩
  -- all three have arrived only at the last step, after which nothing arrives
  have hlate : NoLateCopy [falconSampleSpdu 0] [(g₁, (0 : Int)), (g₁, 1), (g₀, 2), (g₂, 3)] := by
    intro x hx i j hij hall d hd _
    obtain rfl := List.mem_singleton.mp hx
    obtain ⟨i', hi', h₂⟩ := hall g₂ (by simp [hfr])
    have h3 : 3 ≤ i' := by
      rcases i' with _ | _ | _ | i' <;> simp [h₀₂, h₁₂] at h₂ ⊢
    rw [List.getElem?_eq_none (by simp; omega)] at hd
    cases hd
  obtain ⟨s, outs, hrun, huniq, -⟩ := spdu_counted_once _ hkeys _ hds hlate
  exact ⟨g₀, g₁, g₂, hfr, hkeys, hds, hlate, s, outs, hrun, huniq _ (List.mem_singleton_self _)⟩

end FalconSim
