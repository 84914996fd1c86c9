import Mathlib

/-!
# What reassembly is for: the arrivals since each key's last completion

An abstract model of the receive loop's reassembly, with no buffer, bitmap or template: for each
key, the set of fragment indices that have arrived since the key was last completed. An arrival
inserts its index; once the set holds every index of `[0, count)` the key completes and its set
starts over empty (the loop erases the entry, line 350). `Reassembly.lean` shows that the receive
loop of `Vehicle::receive` refines this model on honestly produced datagrams.

A run is a list of events `(key, index)`; step `i` of it is `evs[i]`. Positions, not states, are
what the results speak of, since the reassembly properties of §4.5 of the specification do.

Results:
* `mem_arrivals_iff`: before step `i`, index `j` is in key `k`'s set exactly when `(k, j)`
  arrived at a step `i' < i` and `k` did not complete in `[i', i)`.
* `arrivals_not_full`: a key's set never holds all of its indices.
* `completes_all_arrived`: a key completes at step `i` only if every one of its indices arrived
  at a step `i' ≤ i` after its previous completion.
* `completes_within`: every window of steps in which each index of a key arrives holds a
  completion of that key.
* `completes_twice`: between two completions of a key, index `0` arrives again.
-/

namespace FalconSim

/-- For each key, the indices received since its last completion. -/
abbrev Arrivals := UInt64 → Finset Nat

/-- The arrival of index `j` of key `k`, a key of `count` fragments: the new sets, and whether
`k` completes. -/
def arrive (count : Nat) (A : Arrivals) (k : UInt64) (j : Nat) : Arrivals × Bool :=
  if Finset.range count ⊆ insert j (A k) then (Function.update A k ∅, true)
  else (Function.update A k (insert j (A k)), false)

theorem arrive_fst_apply (count : Nat) (A : Arrivals) (k : UInt64) (j : Nat) (k' : UInt64) :
    (arrive count A k j).1 k' =
      if k' = k then (if Finset.range count ⊆ insert j (A k) then ∅ else insert j (A k))
      else A k' := by
  unfold arrive
  by_cases hk : k' = k
  · subst hk; split <;> simp_all
  · split <;> simp [hk]

theorem arrive_snd (count : Nat) (A : Arrivals) (k : UInt64) (j : Nat) :
    (arrive count A k j).2 = decide (Finset.range count ⊆ insert j (A k)) := by
  unfold arrive
  split <;> simp_all

section Run

variable (count : UInt64 → Nat) (evs : List (UInt64 × Nat))

/-- The sets after the events `evs`, from nothing received. -/
def arrivals (evs : List (UInt64 × Nat)) : Arrivals :=
  evs.foldl (fun A ev => (arrive (count ev.1) A ev.1 ev.2).1) fun _ => ∅

/-- Whether step `i` completes its key. -/
def completes (i : Nat) : Bool :=
  match evs[i]? with
  | some ev => (arrive (count ev.1) (arrivals count (evs.take i)) ev.1 ev.2).2
  | none => false

/-- Step `i` completes key `k`. -/
def CompletesKey (k : UInt64) (i : Nat) : Prop :=
  evs[i]?.map Prod.fst = some k ∧ completes count evs i = true

instance (k : UInt64) (i : Nat) : Decidable (CompletesKey count evs k i) :=
  inferInstanceAs (Decidable (_ ∧ _))

variable {count evs}

theorem arrivals_take_succ {i : Nat} (hi : i < evs.length) :
    arrivals count (evs.take (i + 1)) =
      (arrive (count evs[i].1) (arrivals count (evs.take i)) evs[i].1 evs[i].2).1 := by
  rw [List.take_succ, List.getElem?_eq_getElem hi]
  simp only [arrivals, List.foldl_append, Option.toList_some, List.foldl_cons, List.foldl_nil]

theorem completes_eq {i : Nat} (hi : i < evs.length) :
    completes count evs i =
      decide (Finset.range (count evs[i].1) ⊆
        insert evs[i].2 (arrivals count (evs.take i) evs[i].1)) := by
  simp [completes, List.getElem?_eq_getElem hi, arrive_snd]

theorem completesKey_iff {k : UInt64} {i : Nat} (hi : i < evs.length) :
    CompletesKey count evs k i ↔
      evs[i].1 = k ∧ Finset.range (count k) ⊆ insert evs[i].2 (arrivals count (evs.take i) k) := by
  unfold CompletesKey
  rw [completes_eq hi, List.getElem?_eq_getElem hi]
  constructor
  · rintro ⟨hk, hc⟩
    simp only [Option.map_some', Option.some.injEq] at hk
    subst hk
    exact ⟨rfl, of_decide_eq_true hc⟩
  · rintro ⟨rfl, hc⟩
    exact ⟨rfl, decide_eq_true hc⟩

/-- The sets after step `i`: the step's key is reset if it completes and grows otherwise; every
other key is untouched. -/
theorem arrivals_take_succ_apply {i : Nat} (hi : i < evs.length) (k : UInt64) :
    arrivals count (evs.take (i + 1)) k =
      if CompletesKey count evs k i then ∅
      else if evs[i].1 = k then insert evs[i].2 (arrivals count (evs.take i) k)
      else arrivals count (evs.take i) k := by
  rw [arrivals_take_succ hi, arrive_fst_apply]
  by_cases hk : evs[i].1 = k
  · subst hk
    simp only [completesKey_iff hi, true_and, if_true]
  · have : ¬CompletesKey count evs k i := fun h => hk ((completesKey_iff hi).mp h).1
    simp [this, hk, Ne.symm hk]

theorem arrivals_take_succ_of_le {i : Nat} (hi : evs.length ≤ i) :
    arrivals count (evs.take (i + 1)) = arrivals count (evs.take i) := by
  rw [List.take_of_length_le hi, List.take_of_length_le (by omega)]

theorem not_completesKey_of_le {k : UInt64} {i : Nat} (hi : evs.length ≤ i) :
    ¬CompletesKey count evs k i := by
  simp [CompletesKey, List.getElem?_eq_none hi]

/-- **The sets are the arrivals since each key's last completion.** -/
theorem mem_arrivals_iff {i : Nat} {k : UInt64} {j : Nat} :
    j ∈ arrivals count (evs.take i) k ↔
      ∃ i' < i, evs[i']? = some (k, j) ∧
        ∀ i'', i' ≤ i'' → i'' < i → ¬CompletesKey count evs k i'' := by
  induction i with
  | zero => simp [arrivals]
  | succ i ih =>
    -- the right side at `i + 1`: an arrival at step `i`, or one before it that step `i` keeps
    have hsplit : (∃ i' < i + 1, evs[i']? = some (k, j) ∧
          ∀ i'', i' ≤ i'' → i'' < i + 1 → ¬CompletesKey count evs k i'') ↔
        ¬CompletesKey count evs k i ∧ (evs[i]? = some (k, j) ∨ ∃ i' < i, evs[i']? = some (k, j) ∧
          ∀ i'', i' ≤ i'' → i'' < i → ¬CompletesKey count evs k i'') := by
      constructor
      · rintro ⟨i', hi', he, hn⟩
        refine ⟨hn i (by omega) (Nat.lt_succ_self i), ?_⟩
        rcases Nat.lt_succ_iff_lt_or_eq.mp hi' with h | rfl
        · exact .inr ⟨i', h, he, fun i'' h₁ h₂ => hn i'' h₁ (by omega)⟩
        · exact .inl he
      · rintro ⟨hc, he | ⟨i', hi', he, hn⟩⟩
        · exact ⟨i, Nat.lt_succ_self i, he, fun i'' h₁ h₂ => by
            obtain rfl : i'' = i := by omega
            exact hc⟩
        · refine ⟨i', by omega, he, fun i'' h₁ h₂ => ?_⟩
          rcases Nat.lt_succ_iff_lt_or_eq.mp h₂ with h | rfl
          · exact hn i'' h₁ h
          · exact hc
    rw [hsplit, ← ih]
    by_cases hi : i < evs.length
    · rw [arrivals_take_succ_apply hi k, List.getElem?_eq_getElem hi, Option.some.injEq]
      by_cases hc : CompletesKey count evs k i
      · simp [hc]
      · rw [if_neg hc]
        by_cases hk : evs[i].1 = k
        · rw [if_pos hk, Finset.mem_insert, Prod.ext_iff, hk]
          simp only [true_and, eq_comm, hc, not_false_eq_true]
        · rw [if_neg hk]
          simp [Prod.ext_iff, hk, hc]
    · rw [arrivals_take_succ_of_le (by omega), List.getElem?_eq_none (by omega)]
      simp [not_completesKey_of_le (by omega : evs.length ≤ i)]

/-- A key's set never holds all of its indices: it completes first. -/
theorem arrivals_not_full (i : Nat) (k : UInt64) :
    ¬Finset.range (count k) ⊆ arrivals count (evs.take i) k ∨
      arrivals count (evs.take i) k = ∅ := by
  induction i with
  | zero => exact .inr rfl
  | succ i ih =>
    by_cases hi : i < evs.length
    · rw [arrivals_take_succ_apply hi k]
      by_cases hc : CompletesKey count evs k i
      · exact .inr (if_pos hc)
      · rw [if_neg hc]
        by_cases hk : evs[i].1 = k
        · rw [if_pos hk]
          exact .inl fun hs => hc ((completesKey_iff hi).mpr ⟨hk, hs⟩)
        · rw [if_neg hk]; exact ih
    · rwa [arrivals_take_succ_of_le (by omega)]

/-- **Completion needs every index since the last one.** -/
theorem completes_all_arrived {k : UInt64} {i : Nat} (h : CompletesKey count evs k i) :
    ∀ j < count k, ∃ i' ≤ i, evs[i']? = some (k, j) ∧
      ∀ i'', i' ≤ i'' → i'' < i → ¬CompletesKey count evs k i'' := by
  have hi : i < evs.length := by
    by_contra hi
    exact not_completesKey_of_le (by omega) h
  obtain ⟨hk, hsub⟩ := (completesKey_iff hi).mp h
  intro j hj
  rcases Finset.mem_insert.mp (hsub (Finset.mem_range.mpr hj)) with rfl | hmem
  · exact ⟨i, le_rfl, by rw [List.getElem?_eq_getElem hi, ← hk],
      fun _ h₁ h₂ => absurd h₂ (by omega)⟩
  · obtain ⟨i', hi', he, hn⟩ := mem_arrivals_iff.mp hmem
    exact ⟨i', hi'.le, he, hn⟩

/-- **No index goes unnoticed.** If each index of `k` arrives in the window `[a, b]`, `k`
completes in it. -/
theorem completes_within {k : UInt64} (hpos : 0 < count k) {a b : Nat}
    (hwin : ∀ j < count k, ∃ i', a ≤ i' ∧ i' ≤ b ∧ evs[i']? = some (k, j)) :
    ∃ i, a ≤ i ∧ i ≤ b ∧ CompletesKey count evs k i := by
  by_contra hno
  push_neg at hno
  have hab : a ≤ b := by
    obtain ⟨i', ha, hb, -⟩ := hwin 0 hpos
    omega
  -- with no completion in the window, every index is in the set at `b` or arrives at `b`
  have hin : ∀ j < count k, j ∈ arrivals count (evs.take b) k ∨ evs[b]? = some (k, j) := by
    intro j hj
    obtain ⟨i', ha, hib, he⟩ := hwin j hj
    rcases Nat.lt_or_eq_of_le hib with h | rfl
    · exact .inl (mem_arrivals_iff.mpr ⟨i', h, he, fun i'' h₁ h₂ => hno i'' (by omega) (by omega)⟩)
    · exact .inr he
  by_cases hbk : ∃ j, evs[b]? = some (k, j)
  · obtain ⟨jb, hjb⟩ := hbk
    have hb : b < evs.length := (List.getElem?_eq_some_iff.mp hjb).1
    have he : evs[b] = (k, jb) := by simpa [List.getElem?_eq_getElem hb] using hjb
    refine hno b hab le_rfl ((completesKey_iff hb).mpr ⟨by rw [he], fun j hj => ?_⟩)
    rcases hin j (Finset.mem_range.mp hj) with h | h
    · exact Finset.mem_insert_of_mem h
    · rw [hjb, Option.some.injEq, Prod.ext_iff] at h
      rw [he, h.2]
      exact Finset.mem_insert_self _ _
  · push_neg at hbk
    have hall : Finset.range (count k) ⊆ arrivals count (evs.take b) k := fun j hj =>
      (hin j (Finset.mem_range.mp hj)).resolve_right (hbk j)
    rcases arrivals_not_full b k with h | h
    · exact h hall
    · simpa [h] using hall (Finset.mem_range.mpr hpos)

/-- Between two completions of a key, its index `0` arrives once before the first and again
after it. -/
theorem completes_twice {k : UInt64} (hpos : 0 < count k) {i₁ i₂ : Nat}
    (h₁ : CompletesKey count evs k i₁) (h₂ : CompletesKey count evs k i₂) (hlt : i₁ < i₂) :
    ∃ i' i'', i' ≤ i₁ ∧ i₁ < i'' ∧ i'' ≤ i₂ ∧ evs[i']? = some (k, 0) ∧ evs[i'']? = some (k, 0) := by
  obtain ⟨i', hi', he', -⟩ := completes_all_arrived h₁ 0 hpos
  obtain ⟨i'', hi'', he'', hn⟩ := completes_all_arrived h₂ 0 hpos
  refine ⟨i', i'', hi', ?_, hi'', he', he''⟩
  by_contra hle
  exact hn i₁ (by omega) hlt h₁

end Run

end FalconSim
