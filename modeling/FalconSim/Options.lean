import FalconSim.Ports
import FalconSim.Arguments

/-!
# The options `main` gives every vehicle

Model of how `main` fills the `pqc_options` it passes to every `Vehicle(i, pqc_opts)`
(`main.cpp:83-109`), and of `strtoul`, which reads `V2X_FALCON_FRAGMENT_BYTES`.

* The configuration file is read by Boost's JSON parser, which is left out: what `tree.get`
  returns is a parameter, `none` when the path is absent (then `get` returns its default).
  `scenario.falcon.fragmentBytes` is read as an `int`, a `BitVec 32`, and `static_cast` to
  `size_t`: sign-extended to 64 bits.
* `V2X_FALCON_FRAGMENT_BYTES`, when set, replaces that value by
  `strtoul(fragment_env, nullptr, 10)`.
* The scheme is `schemeOfText` of `schemeText` (`Arguments.lean`). `compression` is read by no
  function of the sources and is left out.
* `sign_message_falcon` cuts the signature at `clamp_fragment_size(falcon_fragment_size, 512)`
  (`Vehicle.cpp:497`, `Sign.lean`): `0` stands for `512`.

Results:
* `strtoul_of_namesPort`, `strtoul_of_not_isDigit`: `strtoul` reads the number a text names, up
  to `ULONG_MAX`, and `0` from a text with no digit.
* **`falcon_fragment_size_choice`**: the slice size of every Falcon vehicle. It is `256` by
  default, the configuration's value clamped to `512` when that value is positive, and `512`
  when it is zero or negative (the cast wraps a negative `int` to a huge `size_t`). When the
  variable is set the configuration is ignored: a decimal `n > 0` gives `min n 512`, and a text
  with no digit gives `512`.
-/

namespace FalconSim

/-! ## `strtoul` -/

/-- `strtoul(nptr, nullptr, 10)`: after white space and an optional sign, the run of digits; a
value past `ULONG_MAX` is `ULONG_MAX`, and a `'-'` negates modulo `2^64`. With no digit it
reads `0`. -/
def strtoul (s : List UInt8) : Nat :=
  let signed := splitSign (s.dropWhile isSpace)
  let value := digitsValue (signed.2.takeWhile isDigit)
  if 2 ^ 64 ≤ value then 2 ^ 64 - 1
  else if signed.1 then (2 ^ 64 - value) % 2 ^ 64 else value

/-- `strtoul` reads the number a text names, up to `ULONG_MAX`. -/
theorem strtoul_of_namesPort {n : Nat} {s : List UInt8} (h : NamesPort n s) :
    strtoul s = min n (2 ^ 64 - 1) := by
  obtain ⟨ws, plus, digits, rest, rfl, hws, hplus, hd, hdigits, hrest, hval⟩ := h
  have hminus : plus ≠ ['-'.toUInt8] := by rcases hplus with rfl | rfl <;> decide
  simp only [strtoul, splitSign_dropWhile_append hws (hplus.elim .inl (.inr ∘ .inl)) hd hdigits,
    (takeWhile_dropWhile_append hdigits hrest).1, hminus, decide_False, Bool.false_eq_true,
    if_false, digitsValue_eq_decimalValue, hval]
  split <;> omega

/-- With no digit in the text, `strtoul` reads `0`. -/
theorem strtoul_of_not_isDigit {s : List UInt8} (h : ∀ c ∈ s, isDigit c = false) :
    strtoul s = 0 := by
  obtain ⟨sign, hsign, -, -⟩ := splitSign_spec (s.dropWhile isSpace)
  -- what follows the sign is a suffix of `s`, so it starts with no digit
  have hnil : (splitSign (s.dropWhile isSpace)).2.takeWhile isDigit = [] := by
    cases hrest : (splitSign (s.dropWhile isSpace)).2 with
    | nil => rfl
    | cons c cs =>
      have hc : c ∈ s.dropWhile isSpace := by
        rw [hsign, hrest]
        exact List.mem_append_right sign (List.mem_cons_self c cs)
      exact List.takeWhile_cons_of_neg
        (by simp [h c ((List.dropWhile_suffix isSpace).subset hc)])
  simp [strtoul, hnil, digitsValue]

/-! ## `pqc_options` -/

/-- `pqc_opts.falcon_fragment_size` as `main` sets it: `scenario.falcon.fragmentBytes`, an `int`
that defaults to the option's `256`, cast to `size_t`; then `V2X_FALCON_FRAGMENT_BYTES`, when
set, replaces it by its `strtoul`. -/
def configuredFragmentSize (configFragment : Option (BitVec 32))
    (fragmentEnv : Option (List UInt8)) : Nat :=
  let fragmentFromConfig :=
    configFragment.getD (BitVec.ofNat 32 ({} : PqcOptions).falconFragmentSize)
  match fragmentEnv with
  | some s => strtoul s
  | none => (fragmentFromConfig.signExtend 64).toNat

/-- The `pqc_options` `main` passes to every vehicle (`main.cpp:83-109`). -/
def pqcOptions (schemeEnv configScheme : Option (List UInt8)) (configFragment : Option (BitVec 32))
    (fragmentEnv : Option (List UInt8)) : PqcOptions where
  scheme := schemeOfText (schemeText schemeEnv configScheme)
  falconFragmentSize := configuredFragmentSize configFragment fragmentEnv

/-- `static_cast<std::size_t>` of an `int`: the value itself when it is not negative, else the
value wrapped past `2^64`. -/
theorem toNat_signExtend (c : BitVec 32) :
    (c.signExtend 64).toNat = if 0 ≤ c.toInt then c.toInt.toNat else (c.toInt + 2 ^ 64).toNat := by
  have h := BitVec.toInt_eq_toNat_cond c
  have hlt := c.isLt
  rw [BitVec.signExtend, BitVec.toNat_ofInt]
  split_ifs at h ⊢ <;> omega

/-- **The Falcon slice size `main` configures** (`main.cpp:98-103`, clamped at
`Vehicle.cpp:497`), whatever the scheme options. Without `V2X_FALCON_FRAGMENT_BYTES` it is `256`
when the configuration is silent, the configuration's value clamped to `512` when that value is
positive, and `512` when it is zero or negative. With the variable set the configuration no
longer counts: a decimal `n > 0`, followed by anything but a digit, gives `min n 512`, and a text
with no digit at all gives `512`. -/
theorem falcon_fragment_size_choice (schemeEnv configScheme : Option (List UInt8))
    (configFragment : Option (BitVec 32)) :
    clampFragmentSize (pqcOptions schemeEnv configScheme configFragment none).falconFragmentSize
        maxSignatureFragmentSize =
      (match configFragment with
        | none => 256
        | some c => if 0 < c.toInt then min c.toInt.toNat 512 else 512) ∧
    (∀ n, 0 < n → ∀ rest : List UInt8, (∀ c ∈ rest.head?, isDigit c = false) →
      clampFragmentSize (pqcOptions schemeEnv configScheme configFragment
          (some (decimal n ++ rest))).falconFragmentSize maxSignatureFragmentSize = min n 512) ∧
    ∀ s : List UInt8, (∀ c ∈ s, isDigit c = false) →
      clampFragmentSize (pqcOptions schemeEnv configScheme configFragment
          (some s)).falconFragmentSize maxSignatureFragmentSize = 512 := by
  refine ⟨?_, fun n hn rest hrest => ?_, fun s hs => ?_⟩
  · -- the configuration's `int`, through the cast
    cases configFragment with
    | none => rfl
    | some c =>
      have h := BitVec.toInt_eq_toNat_cond c
      have hlt := c.isLt
      simp only [pqcOptions, configuredFragmentSize, Option.getD_some, toNat_signExtend,
        clampFragmentSize, maxSignatureFragmentSize]
      split_ifs at h ⊢ <;> omega
  · simp only [pqcOptions, configuredFragmentSize,
      strtoul_of_namesPort (namesPort_decimal hn hrest), clampFragmentSize,
      maxSignatureFragmentSize]
    split_ifs <;> omega
  · simp only [pqcOptions, configuredFragmentSize, strtoul_of_not_isDigit hs]
    rfl

end FalconSim
