import FalconSim.Spdu

/-!
# The command line of `main`, and its choice of signature scheme

Model of the checks `main` makes on its command line (`main.cpp:22-73`), against the usage line
`print_usage` prints: `v2verifer {dsrc | cv2x} {transmitter | receiver} {tkgui | webgui | nogui}
[--test]`; and of how it chooses the signature scheme (`main.cpp:84-97`).

* `argv` is a list of words, `argv[0]` the program's name; `argc` is its length. The C++
  standard makes `argv[argc]` the null pointer, and `std::string(argv[i])` on it is undefined
  behaviour (`none`). Every word `main` reads has an index at most `argc`.
* `program_arguments` is declared in `arguments.h`, which is not among the sources: its fields
  are the five `main` assigns, and the value `program_arguments args;` starts from is a
  parameter, `init`. Every theorem holds for every `init`.
* A failed check prints its error line, if any, then the usage, and calls
  `exit(EXIT_FAILURE)`: `.error line`.
* `args.tkgui, args.webgui = false;` is a comma expression: it evaluates `args.tkgui` and assigns
  `false` to `args.webgui` alone.
* The scheme is chosen from a text: `V2X_SIGNATURE_SCHEME` when set, else the configuration's
  `scenario.signatureScheme`, else `ecdsa`. Reading the configuration file (Boost's JSON parser)
  is left out: its value is a parameter, `none` when absent. `std::tolower` is the "C" locale's.

Results:
* `parseArguments_usageWords`, `exists_usageWords_of_parseArguments` and
  **`parseArguments_accepts_usage`**: `main` gets past its checks exactly on a program name and
  the words of the usage line, each argument with the effect its word names (`nogui` leaves
  `tkgui` as it was): a round trip between the usage line and the arguments.
* `toLower_eq_iff`, `map_toLower_eq_iff` and **`scheme_falcon_iff`**: Falcon is chosen exactly when
  the chosen text is `falcon` in any mix of cases; any other text, a misspelling included,
  chooses ECDSA.
-/

namespace FalconSim

/-! ## The checks -/

/-- `tech_choice`: `DSRC` or `CV2X`. -/
inductive TechChoice where
  | dsrc
  | cv2x
  deriving DecidableEq, Repr

/-- `sim_mode`: `TRANSMITTER` or `RECEIVER`. -/
inductive SimMode where
  | transmitter
  | receiver
  deriving DecidableEq, Repr

/-- `program_arguments`, with the fields `main` assigns. -/
structure ProgramArguments where
  techChoice : TechChoice
  simMode : SimMode
  tkgui : Bool
  webgui : Bool
  test : Bool
  deriving DecidableEq, Repr

/-- The checks of the command line: `none` is undefined behaviour, `.error line` the exit after
printing `line` (if any) and the usage. -/
abbrev ArgCheck := ExceptT (Option String) Option

/-- `std::string(argv[i])`, undefined on `argv[argc]`. -/
def argString (argv : List String) (i : Nat) : ArgCheck String := ExceptT.lift argv[i]?

/-- The first argument (`main.cpp:29-37`). -/
def parseTechChoice (arg : String) : ArgCheck TechChoice :=
  if arg = "dsrc" then pure .dsrc
  else if arg = "cv2x" then pure .cv2x
  else throw (some "Error: first argument must be DSRC or C_V2X")

/-- The second argument (`main.cpp:39-48`). -/
def parseSimMode (arg : String) : ArgCheck SimMode :=
  if arg = "transmitter" then pure .transmitter
  else if arg = "receiver" then pure .receiver
  else throw (some "Error: second argument must be \"transmitter\" or \"receiver\"")

/-- The third argument (`main.cpp:50-60`); `nogui` assigns `webgui` only. -/
def parseGui (args : ProgramArguments) (arg : String) : ArgCheck ProgramArguments :=
  if arg = "tkgui" then pure { args with tkgui := true }
  else if arg = "webgui" then pure { args with webgui := true }
  else if arg = "nogui" then pure { args with webgui := false }
  else throw (some "Error: third argument must be \"tkgui, webgui, or nogui\"")

/-- The fourth argument (`main.cpp:64-70`). -/
def parseTest (args : ProgramArguments) (arg : String) : ArgCheck ProgramArguments :=
  if arg = "--test" then pure { args with test := true }
  else throw (some "Error: optional third argument can only be \"--test\"")

/-- The checks of `main.cpp:22-73`, from `program_arguments args` holding `init`. -/
def parseArguments (init : ProgramArguments) (argv : List String) :
    ArgCheck ProgramArguments := do
  if argv.length < 3 ∨ 5 < argv.length then throw none
  let techChoice ← parseTechChoice (← argString argv 1)
  let simMode ← parseSimMode (← argString argv 2)
  let args ← parseGui { init with techChoice, simMode } (← argString argv 3)
  if 4 ≤ argv.length ∧ argv.length = 5 then parseTest args (← argString argv 4) else pure args

/-! ## The usage line -/

/-- The word of a radio technology on the usage line. -/
def TechChoice.word : TechChoice → String
  | .dsrc => "dsrc"
  | .cv2x => "cv2x"

/-- The word of a side on the usage line. -/
def SimMode.word : SimMode → String
  | .transmitter => "transmitter"
  | .receiver => "receiver"

/-- The third argument of the usage line. -/
inductive Gui where
  | tkgui
  | webgui
  | nogui
  deriving DecidableEq, Repr

/-- Its word. -/
def Gui.word : Gui → String
  | .tkgui => "tkgui"
  | .webgui => "webgui"
  | .nogui => "nogui"

/-- The arguments of a command line that follows the usage line. -/
def usageWords (t : TechChoice) (m : SimMode) (g : Gui) (test : Bool) : List String :=
  [t.word, m.word, g.word] ++ if test then ["--test"] else []

/-- What the arguments of a usage line make of `init`: each word sets its field, except that
`nogui` clears `webgui` alone. -/
def usageArguments (init : ProgramArguments) (t : TechChoice) (m : SimMode) (g : Gui)
    (test : Bool) : ProgramArguments :=
  { init with
    techChoice := t
    simMode := m
    tkgui := decide (g = .tkgui) || init.tkgui
    webgui := decide (g = .webgui) || (decide (g ≠ .nogui) && init.webgui)
    test := test || init.test }

/-! ## One step at a time -/

section Steps

variable {α β : Type}

theorem ArgCheck.run_bind_eq_ok {x : ArgCheck α} {f : α → ArgCheck β} {b : β} :
    (x >>= f).run = some (.ok b) ↔ ∃ a, x.run = some (.ok a) ∧ (f a).run = some (.ok b) := by
  rw [ExceptT.run_bind]
  rcases x.run with _ | _ | a <;> simp

@[simp] theorem argString_run (argv : List String) (i : Nat) :
    (argString argv i).run = argv[i]?.map .ok := rfl

@[simp] theorem ArgCheck.run_pure (a : α) : (pure a : ArgCheck α).run = some (.ok a) := rfl

@[simp] theorem ArgCheck.run_throw (e : Option String) :
    (throw e : ArgCheck α).run = some (.error e) := rfl

end Steps

theorem parseTechChoice_run_eq_ok {arg : String} {t : TechChoice} :
    (parseTechChoice arg).run = some (.ok t) ↔ arg = t.word := by
  unfold parseTechChoice
  split_ifs <;> cases t <;> simp_all [TechChoice.word]

theorem parseSimMode_run_eq_ok {arg : String} {m : SimMode} :
    (parseSimMode arg).run = some (.ok m) ↔ arg = m.word := by
  unfold parseSimMode
  split_ifs <;> cases m <;> simp_all [SimMode.word]

theorem parseGui_run_eq_ok {args a : ProgramArguments} {arg : String} :
    (parseGui args arg).run = some (.ok a) ↔
      (arg = Gui.tkgui.word ∧ a = { args with tkgui := true }) ∨
      (arg = Gui.webgui.word ∧ a = { args with webgui := true }) ∨
      (arg = Gui.nogui.word ∧ a = { args with webgui := false }) := by
  unfold parseGui
  split_ifs <;> simp_all [Gui.word, eq_comm]

theorem parseTest_run_eq_ok {args a : ProgramArguments} {arg : String} :
    (parseTest args arg).run = some (.ok a) ↔
      arg = "--test" ∧ a = { args with test := true } := by
  unfold parseTest
  split_ifs <;> simp_all [eq_comm]

/-! ## What `main` accepts -/

/-- The words of a usage line pass the checks, with the effect `usageArguments` gives. -/
theorem parseArguments_usageWords (init : ProgramArguments) (prog : String) (t : TechChoice)
    (m : SimMode) (g : Gui) (test : Bool) :
    (parseArguments init (prog :: usageWords t m g test)).run =
      some (.ok (usageArguments init t m g test)) := by
  cases t <;> cases m <;> cases g <;> cases test <;> rfl

/-- A command line of fewer than three or more than five words fails the count check. -/
theorem parseArguments_run_of_count {init : ProgramArguments} {argv : List String}
    (h : argv.length < 3 ∨ 5 < argv.length) :
    (parseArguments init argv).run = some (.error none) := by
  rw [parseArguments, if_pos h]
  rfl

/-- A command line that passes the checks is the words of a usage line. -/
theorem exists_usageWords_of_parseArguments {init a : ProgramArguments} {argv : List String}
    (h : (parseArguments init argv).run = some (.ok a)) :
    ∃ prog t m g test, argv = prog :: usageWords t m g test ∧
      a = usageArguments init t m g test := by
  have hcount : 3 ≤ argv.length ∧ argv.length ≤ 5 := by
    by_contra hc
    rw [parseArguments_run_of_count (by omega)] at h
    cases h
  rcases argv with
    _ | ⟨prog, _ | ⟨w1, _ | ⟨w2, _ | ⟨w3, _ | ⟨w4, _ | ⟨w5, rest⟩⟩⟩⟩⟩⟩ <;>
    simp only [List.length_cons, List.length_nil] at hcount <;> try omega
  all_goals simp only [parseArguments, List.length_cons, List.length_nil, Nat.reduceAdd,
    Nat.reduceLT, Nat.reduceLeDiff, Nat.reduceEqDiff, or_self, and_self, true_and, ite_true,
    ite_false, pure_bind, ArgCheck.run_pure, ArgCheck.run_bind_eq_ok, argString_run,
    List.getElem?_cons_succ, List.getElem?_cons_zero, List.getElem?_nil, Option.map_some',
    Option.map_none', Option.some.injEq, Except.ok.injEq, reduceCtorEq, exists_eq_left',
    false_and, exists_false, and_false, parseTechChoice_run_eq_ok, parseSimMode_run_eq_ok,
    parseGui_run_eq_ok, parseTest_run_eq_ok] at h
  · -- four words
    obtain ⟨t, rfl, m, rfl, args, ⟨rfl, rfl⟩ | ⟨rfl, rfl⟩ | ⟨rfl, rfl⟩, rfl⟩ := h
    exacts [⟨prog, t, m, .tkgui, false, rfl, rfl⟩, ⟨prog, t, m, .webgui, false, rfl, rfl⟩,
      ⟨prog, t, m, .nogui, false, rfl, rfl⟩]
  · -- five words
    obtain ⟨t, rfl, m, rfl, args, ⟨rfl, rfl⟩ | ⟨rfl, rfl⟩ | ⟨rfl, rfl⟩, rfl, rfl⟩ :=
      h
    exacts [⟨prog, t, m, .tkgui, true, rfl, rfl⟩, ⟨prog, t, m, .webgui, true, rfl, rfl⟩,
      ⟨prog, t, m, .nogui, true, rfl, rfl⟩]

/-- **`main` accepts exactly its usage line** (`main.cpp:16-73`). For every command line and
every initial `program_arguments`, the checks pass, with result `a`, exactly when the command
line is a program name followed by the words of the usage line, and `a` is what those words make
of the initial value. -/
theorem parseArguments_accepts_usage (init a : ProgramArguments) (argv : List String) :
    (parseArguments init argv).run = some (.ok a) ↔
      ∃ prog t m g test, argv = prog :: usageWords t m g test ∧
        a = usageArguments init t m g test :=
  ⟨exists_usageWords_of_parseArguments, fun ⟨prog, t, m, g, test, hargv, ha⟩ =>
    hargv ▸ ha ▸ parseArguments_usageWords init prog t m g test⟩

/-! ## The signature scheme -/

/-- `std::tolower` in the "C" locale: `'A'` to `'Z'` become `'a'` to `'z'`. -/
def toLower (c : UInt8) : UInt8 :=
  if 65 ≤ c.toNat ∧ c.toNat ≤ 90 then UInt8.ofNat (c.toNat + 32) else c

/-- The bytes of a string literal. -/
def bytesOf (text : String) : List UInt8 := text.toList.map Char.toUInt8

/-- The scheme `main` reads from the text of its option (`main.cpp:91-97`). -/
def schemeOfText (text : List UInt8) : SignatureScheme :=
  if text.map toLower = bytesOf "falcon" then .falcon else .ecdsa

/-- The text of the option: `V2X_SIGNATURE_SCHEME` when set, else `scenario.signatureScheme`,
else `ecdsa` (`main.cpp:84-90`). -/
def schemeText (schemeEnv configScheme : Option (List UInt8)) : List UInt8 :=
  schemeEnv.getD (configScheme.getD (bytesOf "ecdsa"))

/-- `word`, a list of lower-case letters, with the `i`-th in upper case when `upper i`. -/
def anyCase (upper : Nat → Bool) : List UInt8 → List UInt8
  | [] => []
  | c :: cs =>
    (if upper 0 then UInt8.ofNat (c.toNat - 32) else c) :: anyCase (upper ∘ (· + 1)) cs

/-- `std::tolower` returns a lower-case letter `c` exactly on `c` and on its upper case. -/
theorem toLower_eq_iff {c : UInt8} (hc : 97 ≤ c.toNat ∧ c.toNat ≤ 122) (x : UInt8) :
    toLower x = c ↔ x = c ∨ x = UInt8.ofNat (c.toNat - 32) := by
  have hx := x.toNat_lt_size
  have hup : (UInt8.ofNat (c.toNat - 32)).toNat = c.toNat - 32 :=
    UInt8.toNat_ofNat_of_lt (by simp only [UInt8.size]; omega)
  unfold toLower
  split_ifs with h
  · have hlow : (UInt8.ofNat (x.toNat + 32)).toNat = x.toNat + 32 :=
      UInt8.toNat_ofNat_of_lt (by simp only [UInt8.size]; omega)
    constructor
    · intro heq
      exact .inr (UInt8.toNat.inj (by rw [hup, ← heq, hlow]; omega))
    · rintro (rfl | rfl)
      · omega
      · exact UInt8.toNat.inj (by rw [hlow, hup]; omega)
  · constructor
    · exact .inl
    · rintro (rfl | rfl)
      · rfl
      · rw [hup] at h; omega

/-- Lower-casing gives a word of lower-case letters exactly on that word in any mix of cases. -/
theorem map_toLower_eq_iff {word : List UInt8}
    (hword : ∀ c ∈ word, 97 ≤ c.toNat ∧ c.toNat ≤ 122)
    (text : List UInt8) : text.map toLower = word ↔ ∃ upper, text = anyCase upper word := by
  induction word generalizing text with
  | nil => simp [anyCase]
  | cons c word ih =>
    have hc := hword c (List.mem_cons_self c word)
    have ih' := ih fun d hd => hword d (List.mem_cons_of_mem c hd)
    cases text with
    | nil => simp [anyCase]
    | cons x text =>
      simp only [List.map_cons, List.cons.injEq, toLower_eq_iff hc, ih', anyCase]
      constructor
      · rintro ⟨hx, upper, rfl⟩
        refine ⟨fun i => if i = 0 then decide (x ≠ c) else upper (i - 1), ?_, rfl⟩
        rcases hx with rfl | rfl
        · simp
        · have hne : UInt8.ofNat (c.toNat - 32) ≠ c := fun h => by
            have h' := congrArg UInt8.toNat h
            rw [UInt8.toNat_ofNat_of_lt (by simp only [UInt8.size]; omega)] at h'
            omega
          simp [hne]
      · rintro ⟨upper, rfl, rfl⟩
        exact ⟨by split_ifs <;> simp, _, rfl⟩

/-- **The scheme `main` chooses** (`main.cpp:84-97`). Whatever `V2X_SIGNATURE_SCHEME` and the
configuration hold, Falcon is chosen exactly when the text in force (the variable when set, else
the configuration's value, else `ecdsa`) is `falcon` in any mix of cases; every other text, a
misspelling included, chooses ECDSA without a message. -/
theorem scheme_falcon_iff (schemeEnv configScheme : Option (List UInt8)) :
    schemeOfText (schemeText schemeEnv configScheme) = .falcon ↔
      ∃ upper, schemeText schemeEnv configScheme = anyCase upper (bytesOf "falcon") := by
  rw [schemeOfText, ← map_toLower_eq_iff (by decide)]
  split_ifs with h <;> simp [h]

end FalconSim
