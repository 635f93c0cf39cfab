import Mathlib.Data.List.Infix

/-! `validate.c` and `ValidateOptions` of `interactive.c`: the gate the interactive service puts on
the options of a user outside the administrator groups. The argument vector is what
`CommandLineToArgvW` returns, `none` when it fails; it is an input of the model, as the Windows
parser is not modelled. Wide strings are lists of characters without their terminating NUL.
`PathIsRelativeW` is taken as: a path is absolute when it starts with a backslash or has a colon
after its first character. `swprintf` into the `MAX_PATH` buffer truncates. The two tests of
`CheckConfigPath` are a string prefix and a substring search, and the gate is characterised in
those terms (`validate_options_gate`); a prefix of characters is not a directory prefix. -/

namespace OpenVpn

/-- `white_list`. -/
def whiteList : List (List Char) :=
  ["auth-retry", "config", "log", "log-append", "management", "management-forget-disconnect",
    "management-hold", "management-query-passwords", "management-query-proxy",
    "management-signal", "management-up-down", "mute", "setenv", "service", "verb",
    "pull-filter", "script-security"].map String.toList

/-- `L"--config"`. -/
def configOption : List Char := "--config".toList

-- `MAX_PATH`
def maxPath : Nat := 260

/-- The service settings the gate and its messages read. -/
structure Settings where
  configDir : List Char
  ovpnAdminGroup : List Char
  deriving DecidableEq

/-- `PathIsRelativeW`. -/
def pathIsRelative (path : List Char) : Bool :=
  !(path.head? == some '\\' || (path.drop 1).head? == some ':')

/-- The full path `CheckConfigPath` builds: `workdir\fname` in a `MAX_PATH` buffer for a relative
`fname`, `fname` itself otherwise. -/
def configFile (workdir fname : List Char) : List Char :=
  if pathIsRelative fname then (workdir ++ '\\' :: fname).take (maxPath - 1) else fname

/-- `CheckConfigPath(workdir, fname, s)`: the `wcsncmp` over `wcslen(config_dir)` characters is a
prefix test, and `wcsstr` looks for `..` in the rest. -/
def checkConfigPath (workdir fname : List Char) (s : Settings) : Bool :=
  s.configDir.isPrefixOf (configFile workdir fname) &&
    !decide (['.', '.'] <:+: (configFile workdir fname).drop s.configDir.length)

/-- `OptionLookup(name, white_list)`: the index of `name`, or `-1`. -/
def optionLookup (name : List Char) (whiteList : List (List Char)) : Int :=
  match whiteList.idxOf? name with
  | some i => i
  | none => -1

/-- `IsOption(o)`: `wcsncmp(o, L"--", 2) == 0`. -/
def isOption (o : List Char) : Bool :=
  o.take 2 == ['-', '-']

/-- `CheckOption(workdir, argc, argv, s)` on the `argc` strings of `argv`. The caller passes at
least one; with none the model refuses. -/
def checkOption (workdir : List Char) : List (List Char) → Settings → Bool
  | [], _ => false
  | option :: rest, s =>
      if option = configOption ∧ rest.head?.any (fun fname => !checkConfigPath workdir fname s) then
        false
      else optionLookup (option.drop 2) whiteList != -1

/-- The messages `ValidateOptions` writes into `errmsg`. -/
inductive ValidateError where
  /-- `"Cannot validate options: CommandLineToArgvW failed with error = 0x%08x"`. -/
  | commandLineToArgvFailed
  /-- `msg1`, `"You have specified a config file location (%ls relative to %ls) that requires
  admin approval. ..."`, with the file, the working directory and `ovpn_admin_group`. -/
  | configLocation (fname workdir ovpnAdminGroup : List Char)
  /-- `msg2`, `"You have specified an option (%ls) that may be used only with admin approval.
  ..."`, with the option and `ovpn_admin_group`. -/
  | option (option ovpnAdminGroup : List Char)
  deriving DecidableEq

/-- The loop of `ValidateOptions` over `argv[i..]`: strings that are no option are skipped, and the
first option `CheckOption` refuses ends the loop with its message. -/
def validateOptionsLoop (workdir : List Char) (s : Settings) :
    List (List Char) → Bool × Option ValidateError
  | [] => (true, none)
  | arg :: rest =>
      if !isOption arg then validateOptionsLoop workdir s rest
      else if !checkOption workdir (arg :: rest) s then
        (false, some (match rest with
          | fname :: _ =>
              if arg = configOption then .configLocation fname workdir s.ovpnAdminGroup
              else .option arg s.ovpnAdminGroup
          | [] => .option arg s.ovpnAdminGroup))
      else validateOptionsLoop workdir s rest

/-- `ValidateOptions(pipe, workdir, options, errmsg, capacity)` with `argv` the result of
`CommandLineToArgvW(options, &argc)`: the return value and the message written, if any. A single
argument is checked as a config file, but only for the message: `ret` stays `FALSE`. -/
def validateOptions (workdir : List Char) (argv : Option (List (List Char))) (s : Settings) :
    Bool × Option ValidateError :=
  match argv with
  | none => (false, some .commandLineToArgvFailed)
  | some argv =>
      if argv.length < 1 then (true, none)
      else if argv.length = 1 then
        (false, if checkOption workdir [configOption, argv.headD []] s then none
          else some (.configLocation (argv.headD []) workdir s.ovpnAdminGroup))
      else validateOptionsLoop workdir s argv

/-- What the gate is meant to enforce for a config file: `path` is `dir`, a backslash and a path
none of whose components is `..`. -/
def pathInside (dir path : List Char) : Bool :=
  (dir ++ ['\\']).isPrefixOf path &&
    !((path.drop (dir.length + 1)).splitOn '\\').contains ['.', '.']

/-! ### The checks -/

theorem optionLookup_ne_iff {name : List Char} {names : List (List Char)} :
    optionLookup name names ≠ -1 ↔ name ∈ names := by
  unfold optionLookup
  cases h : names.idxOf? name with
  | none => simpa using List.idxOf?_eq_none_iff.mp h
  | some i =>
      have hmem : name ∈ names := List.isSome_idxOf?.mp (by simp [h])
      simp only [ne_eq, hmem, iff_true]
      omega

theorem checkConfigPath_iff {workdir fname : List Char} {s : Settings} :
    checkConfigPath workdir fname s = true ↔
      s.configDir <+: configFile workdir fname ∧
        ¬['.', '.'] <:+: (configFile workdir fname).drop s.configDir.length := by
  simp [checkConfigPath]

/-- `CheckOption` accepts an option of the white list, and `--config` only with a file that passes
`CheckConfigPath`. -/
theorem checkOption_cons_iff {workdir option : List Char} {rest : List (List Char)}
    {s : Settings} :
    checkOption workdir (option :: rest) s = true ↔
      option.drop 2 ∈ whiteList ∧
        (option = configOption → ∀ fname ∈ rest.head?, checkConfigPath workdir fname s = true) := by
  rw [checkOption]
  by_cases hconfig : option = configOption ∧
      rest.head?.any (fun fname => !checkConfigPath workdir fname s) = true
  · obtain ⟨hopt, hany⟩ := hconfig
    simp only [hopt, hany, and_self, if_true, Bool.false_eq_true, false_iff, not_and]
    intro _ hpath
    obtain ⟨fname, hfname, hbad⟩ := (Option.any_eq_true _ _).mp hany
    simp [hpath trivial fname hfname] at hbad
  · rw [if_neg hconfig, bne_iff_ne, ne_eq, ← ne_eq, optionLookup_ne_iff]
    refine ⟨fun hmem => ⟨hmem, fun hopt fname hfname => ?_⟩, fun h => h.1⟩
    by_contra hbad
    exact hconfig ⟨hopt, (Option.any_eq_true _ _).mpr ⟨fname, hfname, by simpa using hbad⟩⟩

/-! ### The gate -/

/-- The loop passes exactly when every option in `argv`, with the strings after it, passes
`CheckOption`. -/
theorem validateOptionsLoop_fst_iff (workdir : List Char) (s : Settings) :
    ∀ argv : List (List Char), (validateOptionsLoop workdir s argv).1 = true ↔
      ∀ arg rest, arg :: rest <:+ argv → isOption arg = true →
        checkOption workdir (arg :: rest) s = true
  | [] => by simp [validateOptionsLoop]
  | arg :: argv => by
      have ih := validateOptionsLoop_fst_iff workdir s argv
      simp only [List.suffix_cons_iff]
      by_cases hopt : isOption arg = true
      · by_cases hcheck : checkOption workdir (arg :: argv) s = true
        · simp only [validateOptionsLoop, hopt, hcheck, Bool.not_true, Bool.false_eq_true,
            if_false, ih]
          constructor
          · rintro h a r (heq | hr) ha
            · obtain ⟨rfl, rfl⟩ := List.cons.inj heq
              exact hcheck
            · exact h a r hr ha
          · exact fun h a r hr ha => h a r (Or.inr hr) ha
        · simp only [validateOptionsLoop, hopt, hcheck, Bool.not_true, Bool.false_eq_true,
            if_false, Bool.not_false, if_true, false_iff]
          exact fun h => hcheck (h arg argv (Or.inl rfl) hopt)
      · simp only [validateOptionsLoop, hopt, Bool.not_false, if_true, ih]
        constructor
        · rintro h a r (heq | hr) ha
          · obtain ⟨rfl, rfl⟩ := List.cons.inj heq
            exact absurd ha hopt
          · exact h a r hr ha
        · exact fun h a r hr ha => h a r (Or.inr hr) ha

/-- What `ValidateOptions` accepts: no options at all, or at least two strings of which every
option is on the white list, and every `--config` followed by a file is followed by one whose full
path starts with the characters of `config_dir` and has no `..` after them. A single string is
always refused. -/
theorem validate_options_gate (workdir : List Char) (argv : List (List Char)) (s : Settings) :
    (validateOptions workdir (some argv) s).1 = true ↔
      argv = [] ∨ 2 ≤ argv.length ∧ ∀ arg rest, arg :: rest <:+ argv → isOption arg = true →
        arg.drop 2 ∈ whiteList ∧ (arg = configOption → ∀ fname ∈ rest.head?,
          s.configDir <+: configFile workdir fname ∧
            ¬['.', '.'] <:+: (configFile workdir fname).drop s.configDir.length) := by
  simp only [validateOptions]
  by_cases h0 : argv.length < 1
  · have : argv = [] := List.eq_nil_of_length_eq_zero (by omega)
    simp [this]
  · have hne : argv ≠ [] := fun h => h0 (by simp [h])
    by_cases h1 : argv.length = 1
    · simp [h1, hne]
    · rw [if_neg h0, if_neg h1, validateOptionsLoop_fst_iff]
      simp only [hne, false_or, checkOption_cons_iff, checkConfigPath_iff]
      exact ⟨fun h => ⟨by omega, h⟩, fun h => h.2⟩

/-- With `config_dir` `C:\X\config`, the option `--config C:\X\config-auto\a.ovpn` passes the
gate, while the file lies in a sibling directory. -/
theorem validate_options_gate_sibling_dir :
    (validateOptions "C:\\Users\\u".toList
        (some [configOption, "C:\\X\\config-auto\\a.ovpn".toList])
        ⟨"C:\\X\\config".toList, "OpenVPN Administrators".toList⟩).1 = true ∧
      pathInside "C:\\X\\config".toList "C:\\X\\config-auto\\a.ovpn".toList = false := by
  refine ⟨(validate_options_gate _ _ _).mpr (Or.inr ⟨by decide, ?_⟩), by decide⟩
  intro arg rest hsuffix hopt
  simp only [List.suffix_cons_iff, List.suffix_nil, reduceCtorEq, or_false] at hsuffix
  rcases hsuffix with heq | heq <;> obtain ⟨rfl, rfl⟩ := List.cons.inj heq
  · decide
  · exact absurd hopt (by decide)

end OpenVpn
