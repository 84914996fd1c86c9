import FalconSim.Spdu

/-!
# The sockets: `V2X_TEST_PORT` and the ports of the two sides

Model of `get_test_port` (`Vehicle.cpp:69-79`), which reads `V2X_TEST_PORT` with `strtol`, and of
the ports `Vehicle::transmit` sends to and `Vehicle::receive` binds (`Vehicle.cpp:116-117,
206-207`): the test port under `--test`, else `52001` for the transmitter and `4444` for the
receiver.

* An environment variable is `none` when unset, else the bytes of its value. `strtol` is the C
  library's (C11 7.22.1.4) for base 10 in the "C" locale with a 64-bit `long`: it skips white
  space, reads an optional sign and a run of digits, clamps the value to `long`, and reports how
  far it read (`end - nptr`), `0` when there is no digit to read.
* The text a port is written in is stated independently of `strtol`: white space, an optional
  `'+'`, a run of digits whose value in positional notation (`Nat.ofDigits`) is the port, and
  then anything that does not start with a digit (`NamesPort`).
* `transmitPort` and `receivePort` are the ports of the two sides; the transmitter of
  `Transmitter.lean` sends every datagram to the first.

Results:
* `strtol_append`: on white space, a sign, digits and a rest, `strtol` reads exactly the digits.
* **`getTestPort_eq_iff`**: `get_test_port` returns `p` exactly when `V2X_TEST_PORT` is set and
  names `p`, a port in `(0, 65536)`, or when `p` is `6666` and the variable is unset or names no
  such port.
-/

namespace FalconSim

/-! ## `strtol` -/

/-- `isspace` in the "C" locale: `' '`, and `'\t'`, `'\n'`, `'\v'`, `'\f'`, `'\r'` (9 to 13). -/
def isSpace (c : UInt8) : Bool := c.toNat = 32 || (9 ≤ c.toNat && c.toNat ≤ 13)

/-- `isdigit`: `'0'` to `'9'`. -/
def isDigit (c : UInt8) : Bool := 48 ≤ c.toNat && c.toNat ≤ 57

/-- The optional sign of `strtol`'s subject sequence: whether it is `'-'`, and what follows it. -/
def splitSign : List UInt8 → Bool × List UInt8
  | c :: rest =>
    if c.toNat = 45 then (true, rest)
    else if c.toNat = 43 then (false, rest)
    else (false, c :: rest)
  | [] => (false, [])

/-- The value of a run of digits, most significant first: `strtol` multiplies by ten and adds
each digit. -/
def digitsValue (digits : List UInt8) : Nat :=
  digits.foldl (fun n c => 10 * n + (c.toNat - 48)) 0

/-- A value out of the range of a 64-bit `long` is `LONG_MIN` or `LONG_MAX`. -/
def clampLong (v : Int) : Int := max (-2 ^ 63) (min (2 ^ 63 - 1) v)

/-- `strtol(nptr, &end, 10)`: the value, and `end - nptr`. -/
def strtol (s : List UInt8) : Int × Nat :=
  let signed := splitSign (s.dropWhile isSpace)
  let digits := signed.2.takeWhile isDigit
  if digits = [] then (0, 0)
  else
    (clampLong (if signed.1 then -(digitsValue digits : Int) else digitsValue digits),
      s.length - (signed.2.dropWhile isDigit).length)

/-- `get_test_port`: the port `V2X_TEST_PORT` names when `strtol` reads one in `(0, 65536)`,
else `6666`. -/
def getTestPort (env : Option (List UInt8)) : UInt16 :=
  match env with
  | some s =>
    let r := strtol s
    if r.2 ≠ 0 ∧ 0 < r.1 ∧ r.1 < 65536 then UInt16.ofNat r.1.toNat else 6666
  | none => 6666

/-! ## The text of a port -/

/-- The value of a run of digits in positional notation. -/
def decimalValue (digits : List UInt8) : Nat :=
  Nat.ofDigits 10 (digits.reverse.map fun c => c.toNat - 48)

/-- `s` names the port `p`: white space, an optional `'+'`, a run of digits of value `p`, and
then anything that does not start with a digit. -/
def NamesPort (p : Nat) (s : List UInt8) : Prop :=
  ∃ ws plus digits rest, s = ws ++ plus ++ digits ++ rest ∧ (∀ c ∈ ws, isSpace c) ∧
    (plus = [] ∨ plus = ['+'.toUInt8]) ∧ digits ≠ [] ∧ (∀ c ∈ digits, isDigit c) ∧
    (∀ c ∈ rest.head?, isDigit c = false) ∧ decimalValue digits = p

/-- `n` in decimal, most significant digit first (no digit for `0`). -/
def decimal (n : Nat) : List UInt8 :=
  (Nat.digits 10 n).reverse.map fun d => UInt8.ofNat (48 + d)

theorem digitsValue_eq_decimalValue (digits : List UInt8) :
    digitsValue digits = decimalValue digits := by
  induction digits using List.reverseRecOn with
  | nil => rfl
  | append_singleton digits c ih =>
    rw [decimalValue, List.reverse_append, List.map_append, List.reverse_singleton,
      List.map_singleton, List.singleton_append, Nat.ofDigits_cons, ← decimalValue, ← ih,
      digitsValue, List.foldl_append, ← digitsValue]
    simp only [List.foldl_cons, List.foldl_nil]
    omega

theorem isSpace_eq_false_of_isDigit {c : UInt8} (h : isDigit c) : isSpace c = false := by
  simp only [isDigit, isSpace, Bool.and_eq_true, decide_eq_true_eq] at h
  simp only [isSpace, Bool.or_eq_false_iff, decide_eq_false_iff_not, Bool.and_eq_false_iff]
  omega

/-- A run of `p`-characters followed by a list that does not start with one. -/
theorem takeWhile_dropWhile_append {p : UInt8 → Bool} {xs rest : List UInt8}
    (hxs : ∀ c ∈ xs, p c) (hrest : ∀ c ∈ rest.head?, p c = false) :
    (xs ++ rest).takeWhile p = xs ∧ (xs ++ rest).dropWhile p = rest := by
  rw [List.takeWhile_append_of_pos hxs, List.dropWhile_append_of_pos hxs]
  cases rest with
  | nil => simp
  | cons c rest =>
    have hc : ¬p c := by simpa using hrest c rfl
    simp [List.takeWhile_cons_of_neg hc, List.dropWhile_cons_of_neg hc]

/-- After white space and a sign, `splitSign` reports the sign and hands on the digits and
what follows them. -/
theorem splitSign_dropWhile_append {ws sign digits rest : List UInt8} (hws : ∀ c ∈ ws, isSpace c)
    (hsign : sign = [] ∨ sign = ['+'.toUInt8] ∨ sign = ['-'.toUInt8]) (hd : digits ≠ [])
    (hdigits : ∀ c ∈ digits, isDigit c) :
    splitSign ((ws ++ sign ++ digits ++ rest).dropWhile isSpace) =
      (decide (sign = ['-'.toUInt8]), digits ++ rest) := by
  obtain ⟨c, cs, rfl⟩ := List.exists_cons_of_ne_nil hd
  have hc : isDigit c := hdigits c (List.mem_cons_self c cs)
  -- the white space ends where the sign or the first digit starts
  have hsub : (ws ++ sign ++ (c :: cs) ++ rest).dropWhile isSpace = sign ++ (c :: cs) ++ rest := by
    rw [List.append_assoc, List.append_assoc, List.dropWhile_append_of_pos hws,
      ← List.append_assoc]
    rcases hsign with rfl | rfl | rfl
    · simp [isSpace_eq_false_of_isDigit hc]
    all_goals exact List.dropWhile_cons_of_neg (by decide)
  rw [hsub]
  simp only [isDigit, Bool.and_eq_true, decide_eq_true_eq] at hc
  rcases hsign with rfl | rfl | rfl
  · simp [splitSign, show c.toNat ≠ 45 by omega, show c.toNat ≠ 43 by omega]
  all_goals rfl

/-- **`strtol` on a number**: after white space, a sign and a run of digits, it reads exactly
the digits, with the sign. -/
theorem strtol_append {ws sign digits rest : List UInt8} (hws : ∀ c ∈ ws, isSpace c)
    (hsign : sign = [] ∨ sign = ['+'.toUInt8] ∨ sign = ['-'.toUInt8]) (hd : digits ≠ [])
    (hdigits : ∀ c ∈ digits, isDigit c) (hrest : ∀ c ∈ rest.head?, isDigit c = false) :
    strtol (ws ++ sign ++ digits ++ rest) =
      (clampLong (if sign = ['-'.toUInt8] then -(digitsValue digits : Int) else digitsValue digits),
        ws.length + sign.length + digits.length) := by
  have hrun := takeWhile_dropWhile_append hdigits hrest
  simp only [strtol, splitSign_dropWhile_append hws hsign hd hdigits, hrun.1, hrun.2, hd,
    List.length_append, decide_eq_true_eq, if_false, Prod.mk.injEq, true_and]
  omega

/-- What follows a run of `p`-characters does not start with one. -/
theorem head?_dropWhile_false (p : UInt8 → Bool) (xs : List UInt8) :
    ∀ c ∈ (xs.dropWhile p).head?, p c = false := fun c hc => by
  have h := List.head?_dropWhile_not p xs
  rwa [Option.mem_def.mp hc] at h

/-- The sign `splitSign` strips: none, a `'+'` or a `'-'`, the last one exactly when it reports
a negative number. -/
theorem splitSign_spec (xs : List UInt8) :
    ∃ sign, xs = sign ++ (splitSign xs).2 ∧
      (sign = [] ∨ sign = ['+'.toUInt8] ∨ sign = ['-'.toUInt8]) ∧
      (splitSign xs).1 = decide (sign = ['-'.toUInt8]) := by
  cases xs with
  | nil => exact ⟨[], rfl, .inl rfl, rfl⟩
  | cons c rest =>
    simp only [splitSign]
    split_ifs with h45 h43
    · obtain rfl : c = '-'.toUInt8 := UInt8.toNat.inj h45
      exact ⟨['-'.toUInt8], rfl, .inr (.inr rfl), rfl⟩
    · obtain rfl : c = '+'.toUInt8 := UInt8.toNat.inj h43
      exact ⟨['+'.toUInt8], rfl, .inr (.inl rfl), rfl⟩
    · exact ⟨[], rfl, .inl rfl, rfl⟩

/-- Every text `strtol` reads a number from is white space, a sign, a run of digits and a rest
that does not start with a digit. -/
theorem strtol_decompose {s : List UInt8} (h : (strtol s).2 ≠ 0) :
    ∃ ws sign digits rest, s = ws ++ sign ++ digits ++ rest ∧ (∀ c ∈ ws, isSpace c) ∧
      (sign = [] ∨ sign = ['+'.toUInt8] ∨ sign = ['-'.toUInt8]) ∧ digits ≠ [] ∧
      (∀ c ∈ digits, isDigit c) ∧ (∀ c ∈ rest.head?, isDigit c = false) := by
  obtain ⟨sign, hsign, hs, -⟩ := splitSign_spec (s.dropWhile isSpace)
  refine ⟨s.takeWhile isSpace, sign, (splitSign (s.dropWhile isSpace)).2.takeWhile isDigit,
    (splitSign (s.dropWhile isSpace)).2.dropWhile isDigit, ?_, fun _ => List.mem_takeWhile_imp,
    hs, fun hd => h ?_, fun _ => List.mem_takeWhile_imp, head?_dropWhile_false _ _⟩
  · rw [List.append_assoc, List.takeWhile_append_dropWhile, List.append_assoc, ← hsign,
      List.takeWhile_append_dropWhile]
  · simp [strtol, hd]

/-- `strtol` reads a port `q` in `(0, 65536)` from `s` exactly when `s` names it. -/
theorem strtol_port_iff {s : List UInt8} {q : Nat} (hq0 : 0 < q) (hq : q < 65536) :
    ((strtol s).2 ≠ 0 ∧ (strtol s).1 = q) ↔ NamesPort q s := by
  constructor
  · rintro ⟨hend, hval⟩
    obtain ⟨ws, sign, digits, rest, rfl, hws, hsign, hd, hdigits, hrest⟩ :=
      strtol_decompose hend
    rw [strtol_append hws hsign hd hdigits hrest, digitsValue_eq_decimalValue] at hval
    simp only [clampLong] at hval
    refine ⟨ws, sign, digits, rest, rfl, hws, ?_, hd, hdigits, hrest, ?_⟩
    · rcases hsign with h | h | rfl
      · exact .inl h
      · exact .inr h
      · simp only [if_true] at hval; omega
    · split_ifs at hval <;> omega
  · rintro ⟨ws, plus, digits, rest, rfl, hws, hplus, hd, hdigits, hrest, hval⟩
    have hminus : plus ≠ ['-'.toUInt8] := by rcases hplus with rfl | rfl <;> decide
    rw [strtol_append hws (hplus.elim .inl (.inr ∘ .inl)) hd hdigits hrest, if_neg hminus,
      digitsValue_eq_decimalValue, hval]
    have := List.length_pos.mpr hd
    simp only [clampLong]
    constructor <;> omega

/-- A text that names a port in `(0, 65536)` sets the test port to it. -/
theorem getTestPort_of_namesPort {s : List UInt8} {q : Nat} (hq0 : 0 < q) (hq : q < 65536)
    (h : NamesPort q s) : getTestPort (some s) = UInt16.ofNat q := by
  obtain ⟨hend, hval⟩ := (strtol_port_iff hq0 hq).mpr h
  simp only [getTestPort]
  rw [if_pos ⟨hend, by omega, by omega⟩, hval, Int.toNat_ofNat]

/-- A text that names no port in `(0, 65536)` leaves the test port at `6666`. -/
theorem getTestPort_of_not_namesPort {s : List UInt8}
    (h : ∀ q, 0 < q → q < 65536 → ¬NamesPort q s) : getTestPort (some s) = 6666 := by
  simp only [getTestPort]
  refine if_neg fun ⟨hend, hpos, hlt⟩ => h (strtol s).1.toNat (by omega) (by omega) ?_
  exact (strtol_port_iff (by omega) (by omega)).mp ⟨hend, by omega⟩

/-- A set variable: the port it names, or `6666`. -/
theorem getTestPort_some_eq_iff (s : List UInt8) (p : UInt16) :
    getTestPort (some s) = p ↔ (p ≠ 0 ∧ NamesPort p.toNat s) ∨
      (p = 6666 ∧ ∀ q, 0 < q → q < 65536 → ¬NamesPort q s) := by
  have hp : p.toNat < 65536 := p.toNat_lt_size
  have hp0 : p ≠ 0 ↔ 0 < p.toNat :=
    ⟨fun h => Nat.pos_of_ne_zero fun h0 => h (UInt16.toNat.inj h0), by rintro h rfl; cases h⟩
  by_cases hc : ∃ q, 0 < q ∧ q < 65536 ∧ NamesPort q s
  · obtain ⟨q, hq0, hq, hn⟩ := hc
    have hread := (strtol_port_iff hq0 hq).mpr hn
    rw [getTestPort_of_namesPort hq0 hq hn]
    constructor
    · rintro rfl
      rw [UInt16.toNat_ofNat_of_lt hq] at hp0 ⊢
      exact .inl ⟨hp0.mpr hq0, hn⟩
    · rintro (⟨hne, hpn⟩ | ⟨-, hno⟩)
      · have hread' := (strtol_port_iff (hp0.mp hne) hp).mpr hpn
        have hqp : q = p.toNat := by omega
        exact UInt16.toNat.inj (hqp ▸ UInt16.toNat_ofNat_of_lt hq)
      · exact absurd hn (hno q hq0 hq)
  · push_neg at hc
    rw [getTestPort_of_not_namesPort fun q hq0 hq => hc q hq0 hq]
    constructor
    · rintro rfl
      exact .inr ⟨rfl, fun q hq0 hq => hc q hq0 hq⟩
    · rintro (⟨hne, hpn⟩ | ⟨rfl, -⟩)
      · exact absurd hpn (hc _ (hp0.mp hne) hp)
      · rfl

/-- **What `get_test_port` accepts** (`Vehicle.cpp:69-79`). It returns `p` exactly when
`V2X_TEST_PORT` is set and names `p`, a port other than `0`, or when `p` is the default `6666`
and the variable is unset or names no port in `(0, 65536)`: a negative number, `0`, a number
past `65535` (or past `LONG_MAX`), or a text with no digit after the white space and the sign. -/
theorem getTestPort_eq_iff (env : Option (List UInt8)) (p : UInt16) :
    getTestPort env = p ↔ (∃ s, env = some s ∧ p ≠ 0 ∧ NamesPort p.toNat s) ∨
      (p = 6666 ∧ ∀ s, env = some s → ∀ q, 0 < q → q < 65536 → ¬NamesPort q s) := by
  cases env with
  | none => simp [getTestPort, eq_comm]
  | some s => simpa using getTestPort_some_eq_iff s p

/-- A positive number written in decimal, followed by anything but a digit, names itself. -/
theorem namesPort_decimal {n : Nat} (hn : 0 < n) {rest : List UInt8}
    (hrest : ∀ c ∈ rest.head?, isDigit c = false) : NamesPort n (decimal n ++ rest) := by
  have hdigit : ∀ d ∈ Nat.digits 10 n, (UInt8.ofNat (48 + d)).toNat = 48 + d := fun d hd =>
    UInt8.toNat_ofNat_of_lt (by
      have := Nat.digits_lt_base (by norm_num) hd
      simp only [UInt8.size]; omega)
  refine ⟨[], [], decimal n, rest, rfl, by simp, .inl rfl, ?_, ?_, hrest, ?_⟩
  · simpa [decimal, Nat.digits_eq_nil_iff_eq_zero] using hn.ne'
  · simp only [decimal, List.mem_map, List.mem_reverse]
    rintro c ⟨d, hd, rfl⟩
    have := Nat.digits_lt_base (by norm_num) hd
    simp only [isDigit, hdigit d hd, Bool.and_eq_true, decide_eq_true_eq]
    omega
  · rw [decimalValue, decimal, ← List.map_reverse, List.reverse_reverse, List.map_map]
    conv_rhs => rw [← Nat.ofDigits_digits 10 n]
    congr 1
    refine (List.map_congr_left fun d hd => ?_).trans (List.map_id _)
    simp [hdigit d hd]

/-! ## The two sockets -/

/-- The port `Vehicle::transmit` sends every datagram to (`Vehicle.cpp:116-117`). -/
def transmitPort (test : Bool) (env : Option (List UInt8)) : UInt16 :=
  if test then getTestPort env else 52001

/-- The port `Vehicle::receive` binds its socket to (`Vehicle.cpp:206-207`). -/
def receivePort (test : Bool) (env : Option (List UInt8)) : UInt16 :=
  if test then getTestPort env else 4444

end FalconSim
