import FalconSim.Spdu

/-!
# Falcon key files: hex decoding and the public-key cache

Model of `decode_hex_char` and `hex_to_bytes` (`Vehicle.cpp:42-67`) and of the two Falcon key
loaders that call them, `Vehicle::load_falcon_private_key` and `Vehicle::load_falcon_public_key`
(`Vehicle.cpp:611-662`), from the moment the file has been read into a string.

* A C++ `char` is a byte here. The three ranges `decode_hex_char` tests lie below `0x80`, so a
  signed `char` and an unsigned byte give the same answers.
* A thrown `std::runtime_error` is `.error` with its message. The loop of `hex_to_bytes` is
  `decodePairs`, two characters per byte. At an odd end it would read the terminating `'\0'`,
  which `decode_hex_char` rejects; the length check before the loop makes that case unreachable.
* The key lengths are liboqs constants (`OQS_SIG_falcon_512_length_secret_key`, `..._public_key`),
  parameters here. A key file that cannot be opened is `none`.
* The function-static `cache` of `load_falcon_public_key` is an explicit argument and result.

The hex grammar is stated independently of the decoder: `hexDigit u n` is the `n`-th character
of `0123456789abcdef` (or its upper-case form when `u`), and `hexEncode` writes each byte as two
such digits, the case of every character chosen freely.

Results:
* `hexToBytes_eq_ok`: `hex_to_bytes` returns `bs` exactly when its input is an encoding of `bs`.
* `hexToBytes_accepts_hex`: it accepts exactly the even-length strings of hex digits, returns
  `16 * value(h[2k]) + value(h[2k+1])` for byte `k`, and inverts every encoding.
* `keyFile_round_trip`: each loader returns a key exactly when its file holds the hex encoding
  of a key of the expected length and nothing else; a file ending in a newline is rejected.
* `loadFalconPublicKey_cached`: with a cache that only holds decoded keys, a lookup returns what
  loading the file returns and the cache still only holds decoded keys.
-/

namespace FalconSim

/-! ## The decoder -/

/-- `decode_hex_char`. -/
def decodeHexChar (c : UInt8) : Except String UInt8 :=
  if '0'.toUInt8 ≤ c ∧ c ≤ '9'.toUInt8 then .ok (c - '0'.toUInt8)
  else if 'a'.toUInt8 ≤ c ∧ c ≤ 'f'.toUInt8 then .ok (c - 'a'.toUInt8 + 10)
  else if 'A'.toUInt8 ≤ c ∧ c ≤ 'F'.toUInt8 then .ok (c - 'A'.toUInt8 + 10)
  else .error "Invalid hex character"

/-- The loop of `hex_to_bytes`: most significant nibble first. -/
def decodePairs : List UInt8 → Except String (List UInt8)
  | [] => .ok []
  | [c] => do
    let _ ← decodeHexChar c
    let _ ← decodeHexChar 0
    pure []
  | c₁ :: c₂ :: rest => do
    let msn ← decodeHexChar c₁
    let lsn ← decodeHexChar c₂
    let bytes ← decodePairs rest
    pure (((msn <<< 4) ||| lsn) :: bytes)

/-- `hex_to_bytes`. -/
def hexToBytes (hex : List UInt8) : Except String (List UInt8) :=
  if hex.length % 2 ≠ 0 then .error "Hex string length must be even" else decodePairs hex

/-! ## The grammar -/

/-- The sixteen digits, upper case when `upper`. -/
def hexDigits (upper : Bool) : List UInt8 :=
  (if upper then "0123456789ABCDEF" else "0123456789abcdef").toList.map Char.toUInt8

/-- The digit of value `n`. -/
def hexDigit (upper : Bool) (n : Nat) : UInt8 := (hexDigits upper).getD n 0

/-- `c` is in `[0-9a-fA-F]`. -/
def IsHexDigit (c : UInt8) : Prop := ∃ upper, ∃ n < 16, c = hexDigit upper n

/-- The value of a digit: its position among the digits of its case. -/
def hexDigitValue (c : UInt8) : Nat :=
  if c ∈ hexDigits false then (hexDigits false).indexOf c else (hexDigits true).indexOf c

/-- The hex encoding of a byte string; `upper i` is the case of the `i`-th character. -/
def hexEncode (upper : Nat → Bool) : List UInt8 → List UInt8
  | [] => []
  | b :: bs => hexDigit (upper 0) (b.toNat / 16) :: hexDigit (upper 1) (b.toNat % 16) ::
      hexEncode (fun i => upper (i + 2)) bs

theorem hexDigit_false_toNat : ∀ n < 16,
    (hexDigit false n).toNat = if n < 10 then 48 + n else 87 + n := by
  decide

theorem hexDigit_true_toNat : ∀ n < 16,
    (hexDigit true n).toNat = if n < 10 then 48 + n else 55 + n := by
  decide

theorem hexDigitValue_hexDigit : ∀ (upper : Bool), ∀ n < 16,
    hexDigitValue (hexDigit upper n) = n := by
  decide

theorem length_hexEncode (upper : Nat → Bool) (bs : List UInt8) :
    (hexEncode upper bs).length = 2 * bs.length := by
  induction bs generalizing upper with
  | nil => rfl
  | cons b bs ih => simp only [hexEncode, List.length_cons, ih]; omega

theorem getD_hexEncode (upper : Nat → Bool) {bs : List UInt8} {k : Nat} (hk : k < bs.length) :
    (hexEncode upper bs).getD (2 * k) 0 = hexDigit (upper (2 * k)) (bs[k].toNat / 16) ∧
    (hexEncode upper bs).getD (2 * k + 1) 0 = hexDigit (upper (2 * k + 1)) (bs[k].toNat % 16) := by
  induction bs generalizing upper k with
  | nil => cases hk
  | cons b bs ih =>
    cases k with
    | zero => exact ⟨rfl, rfl⟩
    | succ k =>
      simp only [hexEncode, List.getD_cons_succ, List.getElem_cons_succ,
        show 2 * (k + 1) = 2 * k + 2 by omega]
      exact ih (fun i => upper (i + 2)) (by simpa using hk)

theorem isHexDigit_of_mem_hexEncode {upper : Nat → Bool} {bs : List UInt8} {c : UInt8}
    (h : c ∈ hexEncode upper bs) : IsHexDigit c := by
  induction bs generalizing upper with
  | nil => cases h
  | cons b bs ih =>
    have hb := b.toNat_lt_size
    simp only [UInt8.size] at hb
    simp only [hexEncode, List.mem_cons] at h
    rcases h with rfl | rfl | h
    · exact ⟨_, _, by omega, rfl⟩
    · exact ⟨_, _, by omega, rfl⟩
    · exact ih h

/-! ## One character, one byte -/

theorem decodeHexChar_ok_iff {c v : UInt8} :
    decodeHexChar c = .ok v ↔
      (48 ≤ c.toNat ∧ c.toNat ≤ 57 ∧ v.toNat + 48 = c.toNat) ∨
      (97 ≤ c.toNat ∧ c.toNat ≤ 102 ∧ v.toNat + 87 = c.toNat) ∨
      (65 ≤ c.toNat ∧ c.toNat ≤ 70 ∧ v.toNat + 55 = c.toNat) := by
  have := v.toNat_lt_size
  have := c.toNat_lt_size
  simp only [UInt8.size] at *
  simp only [decodeHexChar, u8_le_iff, show '0'.toUInt8.toNat = 48 from rfl,
    show '9'.toUInt8.toNat = 57 from rfl, show 'a'.toUInt8.toNat = 97 from rfl,
    show 'f'.toUInt8.toNat = 102 from rfl, show 'A'.toUInt8.toNat = 65 from rfl,
    show 'F'.toUInt8.toNat = 70 from rfl]
  split_ifs with h1 h2 h3
  · rw [Except.ok.injEq, u8_eq_iff, u8_sub_toNat c '0'.toUInt8 h1.1]
    show c.toNat - 48 = v.toNat ↔ _
    omega
  · rw [Except.ok.injEq, u8_eq_iff, u8_add_toNat, u8_sub_toNat c 'a'.toUInt8 h2.1]
    show (c.toNat - 97 + 10) % 256 = v.toNat ↔ _
    omega
  · rw [Except.ok.injEq, u8_eq_iff, u8_add_toNat, u8_sub_toNat c 'A'.toUInt8 h3.1]
    show (c.toNat - 65 + 10) % 256 = v.toNat ↔ _
    omega
  · simp only [reduceCtorEq, false_iff]
    omega

/-- `decode_hex_char` returns `v` exactly on the digits of value `v`, in either case. -/
theorem decodeHexChar_eq_ok {c v : UInt8} :
    decodeHexChar c = .ok v ↔ v.toNat < 16 ∧ ∃ u, c = hexDigit u v.toNat := by
  rw [decodeHexChar_ok_iff]
  constructor
  · intro h
    have hv : v.toNat < 16 := by omega
    refine ⟨hv, ?_⟩
    rcases h with h | h | h
    · exact ⟨false, u8_eq_iff.mpr (by rw [hexDigit_false_toNat _ hv]; split <;> omega)⟩
    · exact ⟨false, u8_eq_iff.mpr (by rw [hexDigit_false_toNat _ hv]; split <;> omega)⟩
    · exact ⟨true, u8_eq_iff.mpr (by rw [hexDigit_true_toNat _ hv]; split <;> omega)⟩
  · rintro ⟨hv, u, rfl⟩
    cases u
    · rw [hexDigit_false_toNat _ hv]; split <;> omega
    · rw [hexDigit_true_toNat _ hv]; split <;> omega

theorem decodeHexChar_hexDigit (u : Bool) {n : Nat} (hn : n < 16) :
    decodeHexChar (hexDigit u n) = .ok (UInt8.ofNat n) := by
  have : (UInt8.ofNat n).toNat = n := UInt8.toNat_ofNat_of_lt (by simp [UInt8.size]; omega)
  exact decodeHexChar_eq_ok.mpr ⟨by omega, u, by rw [this]⟩

theorem decodeHexChar_zero_ne_ok (v : UInt8) : decodeHexChar 0 ≠ .ok v := by
  rw [Ne, decodeHexChar_ok_iff]
  simp

/-- `static_cast<uint8_t>((msn << 4) | lsn)` on two nibbles. -/
theorem shift_or_toNat {msn lsn : UInt8} (hm : msn.toNat < 16) (hl : lsn.toNat < 16) :
    ((msn <<< 4) ||| lsn).toNat = 16 * msn.toNat + lsn.toNat := by
  rw [Nat.mul_add_lt_is_or (show lsn.toNat < 2 ^ 4 from hl)]
  have hm' : msn.toBitVec.toNat < 16 := hm
  show ((msn.toBitVec <<< (UInt8.mod 4 8).toBitVec) ||| lsn.toBitVec).toNat = _
  simp [BitVec.toNat_shiftLeft, Nat.shiftLeft_eq, UInt8.mod]
  rw [Nat.mod_eq_of_lt (by omega), Nat.mul_comm]
  rfl

/-! ## The whole string -/

theorem decodePairs_eq_ok {h bs : List UInt8} :
    decodePairs h = .ok bs ↔ ∃ upper, h = hexEncode upper bs := by
  induction h using decodePairs.induct generalizing bs with
  | case1 => cases bs <;> simp [decodePairs, hexEncode]
  | case2 c =>
    constructor
    · intro h
      simp only [decodePairs, bind_eq_ok] at h
      obtain ⟨_, _, v, h0, _⟩ := h
      exact absurd h0 (decodeHexChar_zero_ne_ok v)
    · rintro ⟨upper, h⟩
      have := congrArg List.length h
      rw [length_hexEncode] at this
      simp at this
      omega
  | case3 c₁ c₂ rest ih =>
    constructor
    · intro h
      simp only [decodePairs, bind_eq_ok] at h
      obtain ⟨msn, h₁, lsn, h₂, bytes, hr, hbs⟩ := h
      obtain ⟨hm, u₁, rfl⟩ := decodeHexChar_eq_ok.mp h₁
      obtain ⟨hl, u₂, rfl⟩ := decodeHexChar_eq_ok.mp h₂
      obtain ⟨upper, rfl⟩ := ih.mp hr
      cases hbs
      refine ⟨fun i => match i with | 0 => u₁ | 1 => u₂ | i + 2 => upper i, ?_⟩
      have e₁ : (16 * msn.toNat + lsn.toNat) / 16 = msn.toNat := by omega
      have e₂ : (16 * msn.toNat + lsn.toNat) % 16 = lsn.toNat := by omega
      simp only [hexEncode, shift_or_toNat hm hl, e₁, e₂]
    · rintro ⟨upper, h⟩
      cases bs with
      | nil => cases h
      | cons b bs =>
        simp only [hexEncode, List.cons.injEq] at h
        obtain ⟨rfl, rfl, rfl⟩ := h
        have hb := b.toNat_lt_size
        simp only [UInt8.size] at hb
        have hm : (UInt8.ofNat (b.toNat / 16)).toNat = b.toNat / 16 :=
          UInt8.toNat_ofNat_of_lt (by simp [UInt8.size]; omega)
        have hl : (UInt8.ofNat (b.toNat % 16)).toNat = b.toNat % 16 :=
          UInt8.toNat_ofNat_of_lt (by simp [UInt8.size]; omega)
        have hbyte : (UInt8.ofNat (b.toNat / 16) <<< 4 ||| UInt8.ofNat (b.toNat % 16)) = b := by
          rw [u8_eq_iff, shift_or_toNat (by omega) (by omega), hm, hl]
          omega
        simp only [decodePairs, decodeHexChar_hexDigit _ (show b.toNat / 16 < 16 by omega),
          decodeHexChar_hexDigit _ (show b.toNat % 16 < 16 by omega), ih.mpr ⟨_, rfl⟩,
          bind, Except.bind, pure, Except.pure, hbyte]

/-- `hex_to_bytes` returns `bs` exactly on the encodings of `bs`. -/
theorem hexToBytes_eq_ok {h bs : List UInt8} :
    hexToBytes h = .ok bs ↔ ∃ upper, h = hexEncode upper bs := by
  unfold hexToBytes
  split
  · simp only [reduceCtorEq, false_iff, not_exists]
    rintro upper rfl
    rw [length_hexEncode] at *
    omega
  · exact decodePairs_eq_ok

theorem exists_hexEncode {h : List UInt8} (he : h.length % 2 = 0) (hd : ∀ c ∈ h, IsHexDigit c) :
    ∃ upper bs, h = hexEncode upper bs := by
  induction h using decodePairs.induct with
  | case1 => exact ⟨fun _ => false, [], rfl⟩
  | case2 c => simp at he
  | case3 c₁ c₂ rest ih =>
    obtain ⟨upper, bs, rfl⟩ := ih (by simp at he; omega) fun c hc => hd c (by simp [hc])
    obtain ⟨u₁, n₁, h₁, rfl⟩ := hd c₁ (by simp)
    obtain ⟨u₂, n₂, h₂, rfl⟩ := hd c₂ (by simp)
    have hb : (UInt8.ofNat (16 * n₁ + n₂)).toNat = 16 * n₁ + n₂ :=
      UInt8.toNat_ofNat_of_lt (by simp [UInt8.size]; omega)
    refine ⟨fun i => match i with | 0 => u₁ | 1 => u₂ | i + 2 => upper i,
      UInt8.ofNat (16 * n₁ + n₂) :: bs, ?_⟩
    have e₁ : (16 * n₁ + n₂) / 16 = n₁ := by omega
    have e₂ : (16 * n₁ + n₂) % 16 = n₂ := by omega
    simp only [hexEncode, hb, e₁, e₂]

/-- **`hex_to_bytes` accepts exactly its grammar**: it returns without throwing iff the string
has even length and only hex digits; byte `k` is then `16 * value(h[2k]) + value(h[2k+1])`; and
every encoding of a byte string, in any mix of cases, decodes back to it. -/
theorem hexToBytes_accepts_hex :
    (∀ h : List UInt8,
      (∃ bs, hexToBytes h = .ok bs) ↔ h.length % 2 = 0 ∧ ∀ c ∈ h, IsHexDigit c) ∧
    (∀ h bs : List UInt8, hexToBytes h = .ok bs → bs.length = h.length / 2 ∧
      ∀ k (hk : k < bs.length), bs[k].toNat =
        16 * hexDigitValue (h.getD (2 * k) 0) + hexDigitValue (h.getD (2 * k + 1) 0)) ∧
    (∀ (upper : Nat → Bool) (b : List UInt8), hexToBytes (hexEncode upper b) = .ok b) := by
  refine ⟨fun h => ⟨?_, fun ⟨he, hd⟩ => ?_⟩, fun h bs hok => ?_,
    fun upper b => hexToBytes_eq_ok.mpr ⟨upper, rfl⟩⟩
  · rintro ⟨bs, hok⟩
    obtain ⟨upper, rfl⟩ := hexToBytes_eq_ok.mp hok
    exact ⟨by rw [length_hexEncode]; omega, fun c hc => isHexDigit_of_mem_hexEncode hc⟩
  · obtain ⟨upper, bs, rfl⟩ := exists_hexEncode he hd
    exact ⟨bs, hexToBytes_eq_ok.mpr ⟨upper, rfl⟩⟩
  · obtain ⟨upper, rfl⟩ := hexToBytes_eq_ok.mp hok
    refine ⟨by rw [length_hexEncode]; omega, fun k hk => ?_⟩
    have hb := bs[k].toNat_lt_size
    simp only [UInt8.size] at hb
    obtain ⟨h₁, h₂⟩ := getD_hexEncode upper hk
    rw [h₁, h₂, hexDigitValue_hexDigit _ _ (by omega), hexDigitValue_hexDigit _ _ (by omega)]
    omega

/-! ## The key loaders -/

/-- The body the two loaders share once the file is open or not: decode, then check the length.
`kind` is `"private"` or `"public"`; every error ends the process with its message. -/
def loadKeyFile (kind path : String) (expectedLength : Nat) (file : Option (List UInt8)) :
    Except String (List UInt8) :=
  match file with
  | none => .error ("Unable to open Falcon " ++ kind ++ " key: " ++ path)
  | some hexKey =>
    match hexToBytes hexKey with
    | .error e => .error ("Failed to decode Falcon " ++ kind ++ " key: " ++ e)
    | .ok key =>
      if key.length ≠ expectedLength then
        .error ("Unexpected Falcon " ++ kind ++ " key length: " ++ toString key.length ++
          " (expected " ++ toString expectedLength ++ ")")
      else .ok key

/-- `Vehicle::load_falcon_private_key`. -/
def loadFalconPrivateKey (secretKeyLength number : Nat) (file : Option (List UInt8)) :
    Except String (List UInt8) :=
  loadKeyFile "private" ("falcon_keys/" ++ toString number ++ "/falcon.key") secretKeyLength file

/-- The file half of `Vehicle::load_falcon_public_key`. -/
def readFalconPublicKey (publicKeyLength number : Nat) (file : Option (List UInt8)) :
    Except String (List UInt8) :=
  loadKeyFile "public" ("falcon_keys/" ++ toString number ++ "/falcon.pub") publicKeyLength file

/-- The function-static `cache` of `load_falcon_public_key`, by vehicle number. -/
abbrev KeyCache := Nat → Option (List UInt8)

/-- `Vehicle::load_falcon_public_key`: a cached key, else the file's key, which is then cached. -/
def loadFalconPublicKey (publicKeyLength : Nat) (files : Nat → Option (List UInt8))
    (cache : KeyCache) (number : Nat) : Except String (List UInt8 × KeyCache) :=
  match cache number with
  | some key => .ok (key, cache)
  | none => do
    let buffer ← readFalconPublicKey publicKeyLength number (files number)
    pure (buffer, Function.update cache number (some buffer))

/-- A loaded key has the expected length. -/
theorem loadKeyFile_length {kind path : String} {n : Nat} {file : Option (List UInt8)}
    {key : List UInt8} (h : loadKeyFile kind path n file = .ok key) : key.length = n := by
  unfold loadKeyFile at h
  split at h
  · cases h
  · split at h
    · cases h
    · split at h
      · cases h
      · cases h; omega

/-- A loader returns `key` exactly when its file holds an encoding of `key` of the expected
length. -/
theorem loadKeyFile_eq_ok {kind path : String} {n : Nat} {file : Option (List UInt8)}
    {key : List UInt8} :
    loadKeyFile kind path n file = .ok key ↔
      key.length = n ∧ ∃ upper, file = some (hexEncode upper key) := by
  unfold loadKeyFile
  cases file with
  | none => simp
  | some hexKey =>
    simp only [Option.some.injEq, ← hexToBytes_eq_ok]
    cases hexToBytes hexKey with
    | error e => simp
    | ok bs =>
      simp only [ne_eq, ite_not]
      split
      · rw [Except.ok.injEq]
        exact ⟨fun h => ⟨h ▸ ‹_›, h⟩, fun h => h.2⟩
      · simp only [reduceCtorEq, false_iff, not_and]
        rintro hl ⟨⟩
        contradiction

/-- A newline is not a hex digit, so a file that ends in one is never loaded. -/
theorem loadKeyFile_newline (kind path : String) (n : Nat) (hexKey key : List UInt8) :
    loadKeyFile kind path n (some (hexKey ++ [10])) ≠ .ok key := by
  intro h
  obtain ⟨-, upper, he⟩ := loadKeyFile_eq_ok.mp h
  have hd : IsHexDigit 10 := isHexDigit_of_mem_hexEncode
    (Option.some.inj he ▸ List.mem_append_right _ (List.mem_singleton_self _))
  revert hd
  unfold IsHexDigit
  decide

/-- **The key file format** (lines 56-67 and 611-662). Each Falcon key loader returns `key`
exactly when its file opens and holds the hex encoding of `key`, two digits a byte in any mix of
cases and nothing else, and `key` has the liboqs length of its kind; every other file ends the
process. In particular a file that ends in a newline is rejected, whatever precedes it. -/
theorem keyFile_round_trip (secretKeyLength publicKeyLength number : Nat)
    (file : Option (List UInt8)) (key : List UInt8) :
    (loadFalconPrivateKey secretKeyLength number file = .ok key ↔
      key.length = secretKeyLength ∧ ∃ upper, file = some (hexEncode upper key)) ∧
    (readFalconPublicKey publicKeyLength number file = .ok key ↔
      key.length = publicKeyLength ∧ ∃ upper, file = some (hexEncode upper key)) ∧
    ∀ hexKey : List UInt8,
      loadFalconPrivateKey secretKeyLength number (some (hexKey ++ [10])) ≠ .ok key ∧
      readFalconPublicKey publicKeyLength number (some (hexKey ++ [10])) ≠ .ok key :=
  ⟨loadKeyFile_eq_ok, loadKeyFile_eq_ok, fun hexKey =>
    ⟨loadKeyFile_newline _ _ _ hexKey key, loadKeyFile_newline _ _ _ hexKey key⟩⟩

section Cache

variable (publicKeyLength : Nat) (files : Nat → Option (List UInt8))

/-- Every cached key is the key its file holds. -/
def CacheSound (cache : KeyCache) : Prop :=
  ∀ n key, cache n = some key → readFalconPublicKey publicKeyLength n (files n) = .ok key

theorem cacheSound_empty : CacheSound publicKeyLength files fun _ => none := by
  intro n key h
  cases h

variable {publicKeyLength files}

/-- **The cache is transparent.** From a sound cache, a lookup returns what reading the file
returns, and leaves a sound cache. -/
theorem loadFalconPublicKey_cached {cache : KeyCache} (hc : CacheSound publicKeyLength files cache)
    (number : Nat) :
    Prod.fst <$> loadFalconPublicKey publicKeyLength files cache number =
      readFalconPublicKey publicKeyLength number (files number) ∧
    ∀ key cache', loadFalconPublicKey publicKeyLength files cache number = .ok (key, cache') →
      CacheSound publicKeyLength files cache' := by
  unfold loadFalconPublicKey
  split
  · rename_i key hk
    exact ⟨(hc number key hk).symm, fun _ _ h => by cases h; exact hc⟩
  · cases hr : readFalconPublicKey publicKeyLength number (files number) with
    | error e => exact ⟨rfl, fun _ _ h => by cases h⟩
    | ok buffer =>
      refine ⟨rfl, fun key cache' h => ?_⟩
      cases h
      intro n key hn
      by_cases hnum : n = number
      · subst hnum
        simp only [Function.update_same, Option.some.injEq] at hn
        exact hn ▸ hr
      · rw [Function.update_noteq hnum] at hn
        exact hc n key hn

end Cache

end FalconSim
