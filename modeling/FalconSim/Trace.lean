import FalconSim.Spdu

/-!
# The trace: `load_trace` and the samples `generate_bsm` reads

Model of `Vehicle::load_trace` (`Vehicle.cpp:663-680`), which reads `trace_files/<n>.csv` into
`timestep`, a row of `float` samples per line, and of the samples `Vehicle::generate_bsm`
(`Vehicle.cpp:411-431`) reads from it: `lat`, `lon` and `elev` of row `t`, and for `t > 0` `lat`
and `lon` of row `t - 1`. `Vehicle::transmit` generates the BSM of message `i` at timestep `i`
(`Sign.lean`), so a run of `num_msgs` messages reads rows `0` to `num_msgs - 1`.

* A file's contents are bytes, `none` when it cannot be opened (`perror`, then
  `exit(EXIT_FAILURE)`). `std::getline(in, s, delim)` called until it fails yields the segments
  between delimiters; a final delimiter ends the last segment and opens no other (`getlines`).
* `std::stof`, `calculate_speed_kph` and `calculate_heading` are opaque (`float` arithmetic, and
  `bsm.h` is not among the sources); floats are bit patterns. `stof` returns `none` where
  `std::stof` throws, which ends the process (`.error "stof"`, the exception's text).
* `std::vector::operator[]` does not check its index: `generateBsm` is `none` (undefined
  behaviour) when a row or a sample it reads is missing. The console output is left out.
* The writer's side of the format is stated on its own (`renderTrace`): each row's words joined
  by commas, each line ended by a newline.

Results:
* `getlines_renderLines`, `getlines_intercalate` and **`loadTrace_renderTrace`**: reading back a
  rendered trace gives its words, row by row, read by `std::stof`; `load_trace` returns a trace
  exactly when `std::stof` reads every word.
* `generateBsm_isSome_iff` (one timestep) and **`generateBsm_defined_upto`**: `generate_bsm` is
  defined at every timestep below `n` exactly when the trace has at least `n` rows, each of at
  least three samples. The code checks neither: a shorter trace, or a blank line, makes the
  transmitter read past a vector.
-/

namespace FalconSim

/-! ## Reading the file -/

/-- `std::getline(in, segment, delim)` called until it fails. -/
def getlines (delim : UInt8) (text : List UInt8) : List (List UInt8) :=
  let segments := text.splitOn delim
  if segments.getLast? = some [] then segments.dropLast else segments

/-- `load_trace(number)` on the contents of `trace_files/<number>.csv`. -/
def loadTrace (stof : List UInt8 → Option UInt32) (number : Nat) (file : Option (List UInt8)) :
    Except String (List (List UInt32)) :=
  match file with
  | none => .error ("Error opening trace file for vehicle " ++ toString number)
  | some text =>
    match (getlines '\n'.toUInt8 text).mapM
        fun line => (getlines ','.toUInt8 line).mapM stof with
    | some rows => .ok rows
    | none => .error "stof"

/-- A trace file as a writer lays it out: each row's words joined by commas, each line ended by
a newline. -/
def renderTrace (rows : List (List (List UInt8))) : List UInt8 :=
  (rows.map fun words => [','.toUInt8].intercalate words ++ ['\n'.toUInt8]).flatten

/-- A byte of words joined by `sep` is `sep` or a byte of one of the words. -/
theorem mem_intercalate {sep c : UInt8} :
    ∀ (words : List (List UInt8)), c ∈ [sep].intercalate words →
      c = sep ∨ ∃ w ∈ words, c ∈ w
  | [], h => by simp [List.intercalate] at h
  | [w], h => .inr ⟨w, List.mem_singleton_self w, by simpa [List.intercalate] using h⟩
  | w :: w' :: ws, h => by
    simp only [List.intercalate, List.intersperse_cons_cons, List.flatten_cons,
      List.mem_append, List.mem_singleton] at h
    rcases h with h | h | h
    · exact .inr ⟨w, List.mem_cons_self w _, h⟩
    · exact .inl h
    · rcases mem_intercalate (w' :: ws) h with h | ⟨v, hv, hc⟩
      · exact .inl h
      · exact .inr ⟨v, List.mem_cons_of_mem w hv, hc⟩

/-- Lines each ended by the delimiter split into those lines and an empty last segment. -/
theorem splitOn_renderLines {delim : UInt8} {lines : List (List UInt8)}
    (h : ∀ line ∈ lines, delim ∉ line) :
    ((lines.map (· ++ [delim])).flatten).splitOn delim = lines ++ [[]] := by
  induction lines with
  | nil => rfl
  | cons line lines ih =>
    have hline : ∀ c ∈ line, ¬(c == delim) = true := fun c hc hd => by
      rw [beq_iff_eq] at hd
      exact h line (List.mem_cons_self line lines) (hd ▸ hc)
    rw [List.map_cons, List.flatten_cons, List.append_assoc, List.singleton_append, List.splitOn,
      List.splitOnP_first _ _ hline delim (beq_self_eq_true delim), ← List.splitOn,
      ih fun l hl => h l (List.mem_cons_of_mem line hl), List.cons_append]

/-- Lines each ended by the delimiter read back as those lines. -/
theorem getlines_renderLines {delim : UInt8} {lines : List (List UInt8)}
    (h : ∀ line ∈ lines, delim ∉ line) :
    getlines delim (lines.map (· ++ [delim])).flatten = lines := by
  simp [getlines, splitOn_renderLines h]

/-- The words of a line joined by the delimiter read back as those words, when none is empty. -/
theorem getlines_intercalate {delim : UInt8} {words : List (List UInt8)}
    (h : ∀ w ∈ words, w ≠ [] ∧ delim ∉ w) :
    getlines delim ([delim].intercalate words) = words := by
  rcases List.eq_nil_or_concat words with rfl | ⟨init, last, rfl⟩
  · rfl
  · rw [getlines, List.splitOn_intercalate _ delim (fun w hw => (h w hw).2) (by simp)]
    simp [(h last (by simp)).1]

/-- **Reading a trace back** (`Vehicle.cpp:663-680`). Lay out rows of words in the trace format,
none empty and none holding a comma or a newline: `load_trace` returns a trace exactly when
`std::stof` reads every word, and the trace is then those values, row by row and word by word. -/
theorem loadTrace_renderTrace (stof : List UInt8 → Option UInt32) (number : Nat)
    {rows : List (List (List UInt8))}
    (hw : ∀ r ∈ rows, ∀ w ∈ r, w ≠ [] ∧ ','.toUInt8 ∉ w ∧ '\n'.toUInt8 ∉ w)
    (samples : List (List UInt32)) :
    loadTrace stof number (some (renderTrace rows)) = .ok samples ↔
      rows.mapM (fun words => words.mapM stof) = some samples := by
  -- each line reads back as its row's words
  have hrows : (rows.map fun words => [','.toUInt8].intercalate words).mapM
      (fun line => (getlines ','.toUInt8 line).mapM stof) =
        rows.mapM (fun words => words.mapM stof) := by
    induction rows with
    | nil => rfl
    | cons r rows ih =>
      have hr := hw r (List.mem_cons_self r rows)
      rw [List.map_cons, List.mapM_cons, List.mapM_cons,
        getlines_intercalate fun w hw' => ⟨(hr w hw').1, (hr w hw').2.1⟩,
        ih fun r' hr' => hw r' (List.mem_cons_of_mem r hr')]
  -- the lines are the rows' words joined by commas
  have hlines : getlines '\n'.toUInt8 (renderTrace rows) =
      rows.map fun words => [','.toUInt8].intercalate words := by
    have hrender : renderTrace rows = ((rows.map fun words => [','.toUInt8].intercalate words).map
        (· ++ ['\n'.toUInt8])).flatten := by
      rw [renderTrace, List.map_map]
      rfl
    rw [hrender]
    refine getlines_renderLines fun line hline hnl => ?_
    obtain ⟨r, hr, rfl⟩ := List.mem_map.mp hline
    rcases mem_intercalate r hnl with h | ⟨w, hw', hc⟩
    · exact absurd h (by decide)
    · exact (hw r hr w hw').2.2 hc
  rw [loadTrace, hlines, hrows]
  cases rows.mapM (fun words => words.mapM stof) <;> simp

/-- The line `1,2,3`, with a `std::stof` that reads every word as `0`. -/
theorem loadTrace_renderTrace_oneRow :
    (∀ r ∈ [[[49], [50], [51]]], ∀ w ∈ r, w ≠ [] ∧ ','.toUInt8 ∉ w ∧ '\n'.toUInt8 ∉ w) ∧
    (loadTrace (fun _ => some 0) 0 (some (renderTrace [[[49], [50], [51]]])) =
        .ok [[0, 0, 0]] ↔
      [[[49], [50], [51]]].mapM (fun words => words.mapM fun _ => some 0) =
        some [[(0 : UInt32), 0, 0]]) :=
  ⟨by decide, loadTrace_renderTrace _ 0 (by decide) _⟩

/-! ## The samples of a BSM -/

/-- `calculate_speed_kph` and `calculate_heading`, on `float` bit patterns. -/
structure Kinematics where
  speedKph : UInt32 → UInt32 → UInt32 → UInt32 → Nat → UInt32
  heading : UInt32 → UInt32 → UInt32 → UInt32 → UInt32

/-- `generate_bsm(timestep)`: the BSM of the samples at `t`, with the speed and heading from the
samples at `t - 1` when `t > 0`. -/
def generateBsm (k : Kinematics) (samples : List (List UInt32)) (t : Nat) : Option Bsm := do
  let row ← samples[t]?
  let latitude ← row[0]?
  let longitude ← row[1]?
  let elevation ← row[2]?
  if t = 0 then pure ⟨latitude, longitude, elevation, 0, 0⟩
  else
    let previous ← samples[t - 1]?
    let previousLatitude ← previous[0]?
    let previousLongitude ← previous[1]?
    pure ⟨latitude, longitude, elevation,
      k.speedKph previousLatitude latitude previousLongitude longitude 100,
      k.heading previousLatitude latitude previousLongitude longitude⟩

/-- One timestep: `generate_bsm(t)` is defined exactly when row `t` holds three samples and,
unless `t` is `0`, row `t - 1` holds two. -/
theorem generateBsm_isSome_iff (k : Kinematics) (samples : List (List UInt32)) (t : Nat) :
    (generateBsm k samples t).isSome ↔
      3 ≤ (samples.getD t []).length ∧ (t = 0 ∨ 2 ≤ (samples.getD (t - 1) []).length) := by
  simp only [generateBsm, List.getD_eq_getElem?_getD, Option.bind_eq_bind]
  cases samples[t]? with
  | none => simp only [Option.none_bind, Option.isSome_none, Option.getD_none, List.length_nil,
      Nat.reduceLeDiff, false_and, Bool.false_eq_true]
  | some row =>
    simp only [Option.some_bind, Option.getD_some]
    -- the three samples of row `t`
    rcases row with _ | ⟨a, _ | ⟨b, _ | ⟨c, rest⟩⟩⟩ <;>
      simp only [List.getElem?_cons_zero, List.getElem?_cons_succ, List.getElem?_nil,
        Option.some_bind, Option.none_bind, Option.isSome_none, List.length_cons, List.length_nil,
        Nat.reduceAdd, Nat.reduceLeDiff, false_and, Bool.false_eq_true, le_add_iff_nonneg_left,
        zero_le, true_and]
    split_ifs with ht
    · simp only [ht, Option.pure_def, Option.isSome_some, true_or]
    · -- the two samples of row `t - 1`
      cases samples[t - 1]? with
      | none => simp only [ht, Option.none_bind, Option.isSome_none, Option.getD_none,
          List.length_nil, Nat.reduceLeDiff, false_or, Bool.false_eq_true]
      | some prev =>
        rcases prev with _ | ⟨a', _ | ⟨b', rest'⟩⟩ <;>
          simp only [ht, List.getElem?_cons_zero, List.getElem?_cons_succ, List.getElem?_nil,
            Option.some_bind, Option.none_bind, Option.getD_some, Option.isSome_none,
            Option.pure_def, Option.isSome_some, List.length_cons, List.length_nil, Nat.reduceAdd,
            Nat.reduceLeDiff, false_or, Bool.false_eq_true, le_add_iff_nonneg_left, zero_le]

/-- A row that holds three samples is a row of the trace. -/
theorem lt_length_of_three_le {samples : List (List UInt32)} {t : Nat}
    (h : 3 ≤ (samples.getD t []).length) : t < samples.length := by
  by_contra hge
  rw [List.getD_eq_default _ _ (by omega)] at h
  simp at h

/-- **The trace `generate_bsm` needs** (`Vehicle.cpp:411-431`). For any trace, with any speed and
heading functions, `generate_bsm` is defined at every timestep below `n`, the timesteps a run of
`n` messages reads, exactly when the trace has at least `n` rows and each of them holds at least
three samples. -/
theorem generateBsm_defined_upto (k : Kinematics) (samples : List (List UInt32)) (n : Nat) :
    (∀ t < n, (generateBsm k samples t).isSome) ↔
      n ≤ samples.length ∧ ∀ t < n, 3 ≤ (samples.getD t []).length := by
  constructor
  · intro h
    have hrows : ∀ t < n, 3 ≤ (samples.getD t []).length := fun t ht =>
      ((generateBsm_isSome_iff k samples t).mp (h t ht)).1
    refine ⟨?_, hrows⟩
    rcases Nat.eq_zero_or_pos n with rfl | hn
    · exact Nat.zero_le _
    · have hlast := lt_length_of_three_le (hrows (n - 1) (by omega))
      omega
  · rintro ⟨-, hrows⟩ t ht
    refine (generateBsm_isSome_iff k samples t).mpr ⟨hrows t ht, ?_⟩
    rcases Nat.eq_zero_or_pos t with rfl | htpos
    · exact .inl rfl
    · exact .inr (le_trans (by norm_num) (hrows (t - 1) (by omega)))

end FalconSim
