import Mathlib.Data.List.Basic

/-! `parse_line` of `options.c`, the tokenizer of configuration lines, pushed options and
management commands. It runs a character automaton over the line and its `NUL`: a parameter is
unquoted, in double quotes or in single quotes, a backslash escapes the next character outside
single quotes, and a `#` or `;` where a parameter could start begins a comment. It stops with `0`
after a message on a bad escape, a parameter past `OPTION_PARM_SIZE`, an open quote and a line
ending within an unquoted parameter; `Except.error` stands for those returns, each with the
message it prints. The loop body is `parseLineStep`, folded over a list of characters by
`parseLineSteps`, and the loop stops after the `NUL` (`parseLineLoop_append_nul`).

A parameter written in double quotes with `\` before each `\` and `"`, in single quotes, or
unquoted with `\` before each `\`, `"` and space is read back (`parseLine_joinParms`). An escaped
space where a parameter would start is dropped with its backslash (`parseLine_escaped_space`). -/

namespace OpenVpn

-- `OPTION_PARM_SIZE`, the size of `parm`
def optionParmSize : Nat := 256

/-- `isspace` in the C locale: space, `\t`, `\n`, `\v`, `\f` and `\r`. -/
def isCSpace (c : UInt8) : Bool := c == 32 || (9 ≤ c && c ≤ 13)

/-- `space(c)`: `NUL` or `isspace`. -/
def space (c : UInt8) : Bool := c == 0 || isCSpace c

/-- The states of `parse_line`. `STATE_DONE` is left in the step that enters it, so it is no state
between two characters. -/
inductive ParseState
  | initial
  | readingQuotedParm
  | readingUnquotedParm
  | readingSquotedParm
  deriving DecidableEq, Repr

/-- The messages after which `parse_line` returns `0`. -/
inductive ParseLineError
  /-- "Options warning: Bad backslash ('\\') usage in %s:%d" -/
  | badBackslash
  /-- "Options error: Parameter at %s:%d is too long (%d chars max): %s" -/
  | parmTooLong
  /-- "Options error: No closing quotation (\") in %s:%d" -/
  | noClosingQuotation
  /-- "Options error: No closing single quotation (\') in %s:%d" -/
  | noClosingSingleQuotation
  /-- "Options error: Residual parse state (%d) in %s:%d" -/
  | residualParseState
  deriving DecidableEq, Repr

/-- The locals of `parse_line` between two characters: `state`, `backslash`, `parm[0..parm_len)`
and `p[0..ret)`. -/
structure ParseLineState where
  state : ParseState
  backslash : Bool
  parm : List UInt8
  ret : List (List UInt8)
  deriving DecidableEq, Repr

/-- The state before the first character. -/
def parseLineInit : ParseLineState := ⟨.initial, false, [], []⟩

/-- How one turn of the loop ends: on to the next character, `break`, or `return 0`. -/
inductive ParseStep
  | cont (s : ParseLineState)
  | brk (s : ParseLineState)
  | err (e : ParseLineError)
  deriving DecidableEq, Repr

/-- The state transition of `in` in `state`: the state after it, whether it is `STATE_DONE`, and
`out`, the character to store (`0` for none); `none` is the `break` of a comment. -/
def parseTransition (state : ParseState) (backslash : Bool) (c : UInt8) :
    Option (ParseState × Bool × UInt8) :=
  match state with
  | .initial =>
      if !space c then
        if c = 59 ∨ c = 35 then none
        else if !backslash ∧ c = 34 then some (.readingQuotedParm, false, 0)
        else if !backslash ∧ c = 39 then some (.readingSquotedParm, false, 0)
        else some (.readingUnquotedParm, false, c)
      else some (.initial, false, 0)
  | .readingUnquotedParm =>
      if !backslash ∧ space c then some (.initial, true, 0) else some (.readingUnquotedParm, false, c)
  | .readingQuotedParm =>
      if !backslash ∧ c = 34 then some (.initial, true, 0) else some (.readingQuotedParm, false, c)
  | .readingSquotedParm =>
      if c = 39 then some (.initial, true, 0) else some (.readingSquotedParm, false, c)

/-- The test at the end of a turn: `break` once `ret >= n`. -/
def parseLineNext (n : Nat) (s : ParseLineState) : ParseStep :=
  if n ≤ s.ret.length then .brk s else .cont s

/-- The end of a turn: store `out` in `parm` unless it is full, then `break` once `ret >= n`. -/
def parseLineStore (n : Nat) (s : ParseLineState) (out : UInt8) : ParseStep :=
  if out ≠ 0 ∧ optionParmSize ≤ s.parm.length then .err .parmTooLong
  else parseLineNext n (if out ≠ 0 then { s with parm := s.parm ++ [out] } else s)

/-- One turn of the `do … while` loop of `parse_line` on the character `in`. -/
def parseLineStep (n : Nat) (s : ParseLineState) (c : UInt8) : ParseStep :=
  if !s.backslash ∧ c = 92 ∧ s.state ≠ .readingSquotedParm then
    parseLineStore n { s with backslash := true } 0
  else
    match parseTransition s.state s.backslash c with
    | none => .brk s
    | some (state, done, out) =>
        -- `STATE_DONE` copies `parm` to `p[ret]` and starts over in `STATE_INITIAL`
        let s' := if done then { s with state := .initial, parm := [], ret := s.ret ++ [s.parm] }
          else { s with state := state }
        if s.backslash ∧ out ≠ 0 ∧ !(out = 92 ∨ out = 34 ∨ space out) then .err .badBackslash
        else parseLineStore n { s' with backslash := false } out

/-- The loop `do { … } while (*c++ != '\0')` over the characters from `c` on. -/
def parseLineLoop (n : Nat) : List UInt8 → ParseLineState → Except ParseLineError ParseLineState
  | [], s => .ok s
  | c :: cs, s =>
      match parseLineStep n s c with
      | .err e => .error e
      | .brk s => .ok s
      | .cont s => if c = 0 then .ok s else parseLineLoop n cs s

/-- `parse_line(line, p, n, …)`: `p[0..ret)`, or the message of a `return 0`. A C string is the
list of its bytes before its `NUL`. -/
def parseLine (line : List UInt8) (n : Nat) : Except ParseLineError (List (List UInt8)) :=
  match parseLineLoop n (line ++ [0]) parseLineInit with
  | .error e => .error e
  | .ok s =>
      match s.state with
      | .readingQuotedParm => .error .noClosingQuotation
      | .readingSquotedParm => .error .noClosingSingleQuotation
      | .readingUnquotedParm => .error .residualParseState
      | .initial => .ok s.ret

/-! ### The loop body over a list of characters -/

/-- The loop body over `cs`, up to a `break` or a `return 0`; unlike the loop it goes on after a
`NUL`. -/
def parseLineSteps (n : Nat) : List UInt8 → ParseLineState → ParseStep
  | [], s => .cont s
  | c :: cs, s =>
      match parseLineStep n s c with
      | .cont s => parseLineSteps n cs s
      | r => r

/-- Go on from the state a turn ends in, if it ends with `cont`. -/
def ParseStep.andThen : ParseStep → (ParseLineState → ParseStep) → ParseStep
  | .cont s, f => f s
  | r, _ => r

/-- What `parse_line` has after the loop: the state it left the loop in, or the `return 0`. -/
def ParseStep.toExcept : ParseStep → Except ParseLineError ParseLineState
  | .cont s | .brk s => .ok s
  | .err e => .error e

/-- Between two parameters: `STATE_INITIAL`, no backslash, `parm` empty, and `ret` parameters. -/
def parseLineIdle (ret : List (List UInt8)) : ParseLineState := ⟨.initial, false, [], ret⟩

section Steps

variable {n : Nat}

@[simp] theorem parseLineSteps_nil (s : ParseLineState) : parseLineSteps n [] s = .cont s := rfl

theorem parseLineSteps_nil_eq : parseLineSteps n [] = .cont := funext parseLineSteps_nil

@[simp] theorem andThen_cont (s : ParseLineState) (f : ParseLineState → ParseStep) :
    (ParseStep.cont s).andThen f = f s := rfl

@[simp] theorem andThen_cont_right (r : ParseStep) : r.andThen .cont = r := by
  cases r <;> rfl

theorem parseLineSteps_cons (c : UInt8) (cs : List UInt8) (s : ParseLineState) :
    parseLineSteps n (c :: cs) s = (parseLineStep n s c).andThen (parseLineSteps n cs) := by
  rw [parseLineSteps]
  cases parseLineStep n s c <;> rfl

theorem parseLineSteps_append (xs ys : List UInt8) (s : ParseLineState) :
    parseLineSteps n (xs ++ ys) s = (parseLineSteps n xs s).andThen (parseLineSteps n ys) := by
  induction xs generalizing s with
  | nil => rfl
  | cons c cs ih =>
    rw [List.cons_append, parseLineSteps_cons, parseLineSteps_cons]
    cases parseLineStep n s c <;> simp [ParseStep.andThen, ih]

/-- The loop over a string and its `NUL` runs the body on each of them and then stops. -/
theorem parseLineLoop_append_nul (xs : List UInt8) (hxs : 0 ∉ xs) (s : ParseLineState) :
    parseLineLoop n (xs ++ [0]) s = (parseLineSteps n (xs ++ [0]) s).toExcept := by
  induction xs generalizing s with
  | nil =>
    simp only [List.nil_append, parseLineLoop, parseLineSteps]
    cases parseLineStep n s 0 <;> rfl
  | cons c cs ih =>
    have hc : c ≠ 0 := fun h => hxs (h ▸ List.mem_cons_self)
    simp only [List.cons_append, parseLineLoop, parseLineSteps]
    cases parseLineStep n s c with
    | cont s' =>
      dsimp only
      rw [if_neg hc, ih (fun h => hxs (List.mem_cons_of_mem c h))]
    | brk s' => rfl
    | err e => rfl

end Steps

/-! ### The three ways to write a parameter -/

/-- `c` after a backslash if it is `special`. -/
def escapeChar (special : UInt8 → Bool) (c : UInt8) : List UInt8 := if special c then [92, c] else [c]

/-- The three ways to write a parameter that `parse_line` reads back. -/
inductive ParmQuoting
  | doubleQuoted
  | singleQuoted
  | escaped
  deriving DecidableEq, Repr

/-- The text of a parameter: in double quotes with `\` and `"` escaped, in single quotes, or
unquoted with `\`, `"` and the spaces escaped. -/
def encodeParm : ParmQuoting → List UInt8 → List UInt8
  | .doubleQuoted, s => 34 :: s.flatMap (escapeChar fun c => c == 92 || c == 34) ++ [34]
  | .singleQuoted, s => 39 :: s ++ [39]
  | .escaped, s => s.flatMap (escapeChar fun c => c == 92 || c == 34 || isCSpace c)

/-- Parameters joined by single spaces. -/
def joinParms (ps : List (ParmQuoting × List UInt8)) : List UInt8 :=
  [32].intercalate (ps.map fun p => encodeParm p.1 p.2)

/-! ### One character at a time -/

section Units

variable {n : Nat} {R : List (List UInt8)} {P : List UInt8}

theorem parseLineNext_of_lt (s : ParseLineState) (h : s.ret.length < n) : parseLineNext n s = .cont s := by
  rw [parseLineNext, if_neg (by omega)]

theorem ne_backslash_of_space {c : UInt8} (hc : space c) : c ≠ 92 := by
  rintro rfl
  exact absurd hc (by decide)

/-- A space between two parameters changes nothing. -/
theorem parseLineStep_idle_space {c : UInt8} (hc : space c) :
    parseLineStep n (parseLineIdle R) c = parseLineNext n (parseLineIdle R) := by
  simp [parseLineStep, parseTransition, parseLineStore, parseLineIdle, hc, ne_backslash_of_space hc]

/-- A `#` or `;` where a parameter would start is the `break` of a comment. -/
theorem parseLineStep_idle_comment {c : UInt8} (hc : c = 35 ∨ c = 59) :
    parseLineStep n (parseLineIdle R) c = .brk (parseLineIdle R) := by
  rcases hc with rfl | rfl <;> simp [parseLineStep, parseTransition, parseLineIdle, space, isCSpace]

theorem parseLineStep_idle_dquote :
    parseLineStep n (parseLineIdle R) 34 = parseLineNext n ⟨.readingQuotedParm, false, [], R⟩ := by
  simp [parseLineStep, parseTransition, parseLineStore, parseLineIdle, space, isCSpace]

theorem parseLineStep_idle_squote :
    parseLineStep n (parseLineIdle R) 39 = parseLineNext n ⟨.readingSquotedParm, false, [], R⟩ := by
  simp [parseLineStep, parseTransition, parseLineStore, parseLineIdle, space, isCSpace]

/-- A character in double quotes: `\` and `"` after a backslash, any other stored. -/
theorem parseLineSteps_dquoted_char {x : UInt8} (hx : x ≠ 0) (hR : R.length < n)
    (hP : P.length < optionParmSize) :
    parseLineSteps n (escapeChar (fun c => c == 92 || c == 34) x) ⟨.readingQuotedParm, false, P, R⟩ =
      .cont ⟨.readingQuotedParm, false, P ++ [x], R⟩ := by
  by_cases hsp : x = 92 ∨ x = 34
  · rcases hsp with rfl | rfl <;>
      simp [escapeChar, parseLineSteps, parseLineStep, parseTransition, parseLineStore,
        parseLineNext, hR, hP, Nat.not_le_of_lt, space, isCSpace]
  · push Not at hsp
    simp [escapeChar, parseLineSteps, parseLineStep, parseTransition, parseLineStore,
      parseLineNext, hR, hP, hsp, hx, Nat.not_le_of_lt]

theorem parseLineStep_dquoted_close :
    parseLineStep n ⟨.readingQuotedParm, false, P, R⟩ 34 = parseLineNext n (parseLineIdle (R ++ [P])) := by
  simp [parseLineStep, parseTransition, parseLineStore, parseLineIdle]

/-- In single quotes a backslash is a character like any other. -/
theorem parseLineStep_squoted_char {x : UInt8} (hx : x ≠ 0) (hq : x ≠ 39) (hR : R.length < n)
    (hP : P.length < optionParmSize) :
    parseLineStep n ⟨.readingSquotedParm, false, P, R⟩ x = .cont ⟨.readingSquotedParm, false, P ++ [x], R⟩ := by
  simp [parseLineStep, parseTransition, parseLineStore, parseLineNext, hR, hP, hx, hq, Nat.not_le_of_lt]

theorem parseLineStep_squoted_close :
    parseLineStep n ⟨.readingSquotedParm, false, P, R⟩ 39 = parseLineNext n (parseLineIdle (R ++ [P])) := by
  simp [parseLineStep, parseTransition, parseLineStore, parseLineIdle]

/-- An unquoted character, after a backslash if it is `\\`, `"` or a space. -/
theorem parseLineSteps_unquoted_char {x : UInt8} (hx : x ≠ 0) (hR : R.length < n)
    (hP : P.length < optionParmSize) :
    parseLineSteps n (escapeChar (fun c => c == 92 || c == 34 || isCSpace c) x)
        ⟨.readingUnquotedParm, false, P, R⟩ = .cont ⟨.readingUnquotedParm, false, P ++ [x], R⟩ := by
  have hR' : ¬n ≤ R.length := by omega
  have hP' : ¬optionParmSize ≤ P.length := by omega
  by_cases hsp : x = 92 ∨ x = 34 ∨ isCSpace x
  · have hspace : x = 92 ∨ x = 34 ∨ space x := by
      simp only [space]
      rcases hsp with h | h | h <;> simp [h]
    rw [escapeChar, if_pos (by simpa [or_assoc] using hsp)]
    simp [parseLineSteps, parseLineStep, parseTransition, parseLineStore, parseLineNext, hR', hP',
      hx, hspace]
  · rw [escapeChar, if_neg (by simpa [or_assoc] using hsp)]
    push Not at hsp
    simp [parseLineSteps, parseLineStep, parseTransition, parseLineStore, parseLineNext, hR', hP',
      hsp, hx, space]

/-- The first character of an unquoted parameter starts it, unless it is a space, a quote or
a comment character. -/
theorem parseLineSteps_unquoted_first {x : UInt8} (hx : x ≠ 0) (hsp : isCSpace x = false)
    (hx35 : x ≠ 35) (hx59 : x ≠ 59) (hx34 : x ≠ 34) (hx39 : x ≠ 39) (hR : R.length < n) :
    parseLineSteps n (escapeChar (fun c => c == 92 || c == 34 || isCSpace c) x) (parseLineIdle R) =
      .cont ⟨.readingUnquotedParm, false, [x], R⟩ := by
  have hR' : ¬n ≤ R.length := by omega
  by_cases h92 : x = 92
  · subst h92
    simp [escapeChar, parseLineSteps, parseLineStep, parseTransition, parseLineStore,
      parseLineNext, parseLineIdle, hR', space, isCSpace, optionParmSize]
  · simp [escapeChar, parseLineSteps, parseLineStep, parseTransition, parseLineStore,
      parseLineNext, parseLineIdle, hR', hx, hsp, h92, hx34, hx35, hx59, hx39, space, optionParmSize]

/-- A space, or the `NUL`, ends an unquoted parameter. -/
theorem parseLineStep_unquoted_end {c : UInt8} (hc : space c) :
    parseLineStep n ⟨.readingUnquotedParm, false, P, R⟩ c = parseLineNext n (parseLineIdle (R ++ [P])) := by
  simp [parseLineStep, parseTransition, parseLineStore, parseLineIdle, hc, ne_backslash_of_space hc]

end Units

/-! ### Parameters and lines -/

/-- The parameters `parse_line` reads back from their text: a single-quoted one has no `'`, and
an unquoted one is not empty and does not start with a space, a quote, `#` or `;`. -/
def ParmQuoting.Readable : ParmQuoting → List UInt8 → Prop
  | .doubleQuoted, _ => True
  | .singleQuoted, s => 39 ∉ s
  | .escaped, [] => False
  | .escaped, c :: _ => isCSpace c = false ∧ c ≠ 35 ∧ c ≠ 59 ∧ c ≠ 34 ∧ c ≠ 39

/-- A parameter that is read back: readable in its quoting, a C string, and fitting in `parm`. -/
def ParmOk (p : ParmQuoting × List UInt8) : Prop :=
  p.1.Readable p.2 ∧ 0 ∉ p.2 ∧ p.2.length ≤ optionParmSize

section Parms

variable {n : Nat} {R : List (List UInt8)}

theorem parseLineSteps_dquoted_body (hR : R.length < n) : ∀ (s P : List UInt8), 0 ∉ s →
    P.length + s.length ≤ optionParmSize →
    parseLineSteps n (s.flatMap (escapeChar fun c => c == 92 || c == 34)) ⟨.readingQuotedParm, false, P, R⟩ =
      .cont ⟨.readingQuotedParm, false, P ++ s, R⟩
  | [], P, _, _ => by simp
  | x :: s, P, h0, hlen => by
      simp only [List.mem_cons, not_or] at h0
      simp only [List.length_cons] at hlen
      have hlen' : (P ++ [x]).length + s.length ≤ optionParmSize := by
        simp only [List.length_append, List.length_singleton]
        omega
      rw [List.flatMap_cons, parseLineSteps_append, parseLineSteps_dquoted_char (Ne.symm h0.1) hR (by omega),
        andThen_cont, parseLineSteps_dquoted_body hR s (P ++ [x]) h0.2 hlen', List.append_assoc,
        List.singleton_append]

theorem parseLineSteps_squoted_body (hR : R.length < n) : ∀ (s P : List UInt8), 0 ∉ s → 39 ∉ s →
    P.length + s.length ≤ optionParmSize →
    parseLineSteps n s ⟨.readingSquotedParm, false, P, R⟩ = .cont ⟨.readingSquotedParm, false, P ++ s, R⟩
  | [], P, _, _, _ => by simp
  | x :: s, P, h0, h39, hlen => by
      simp only [List.mem_cons, not_or] at h0 h39
      simp only [List.length_cons] at hlen
      have hlen' : (P ++ [x]).length + s.length ≤ optionParmSize := by
        simp only [List.length_append, List.length_singleton]
        omega
      rw [parseLineSteps_cons, parseLineStep_squoted_char (Ne.symm h0.1) (Ne.symm h39.1) hR (by omega),
        andThen_cont, parseLineSteps_squoted_body hR s (P ++ [x]) h0.2 h39.2 hlen', List.append_assoc,
        List.singleton_append]

theorem parseLineSteps_unquoted_body (hR : R.length < n) : ∀ (s P : List UInt8), 0 ∉ s →
    P.length + s.length ≤ optionParmSize →
    parseLineSteps n (s.flatMap (escapeChar fun c => c == 92 || c == 34 || isCSpace c))
        ⟨.readingUnquotedParm, false, P, R⟩ = .cont ⟨.readingUnquotedParm, false, P ++ s, R⟩
  | [], P, _, _ => by simp
  | x :: s, P, h0, hlen => by
      simp only [List.mem_cons, not_or] at h0
      simp only [List.length_cons] at hlen
      have hlen' : (P ++ [x]).length + s.length ≤ optionParmSize := by
        simp only [List.length_append, List.length_singleton]
        omega
      rw [List.flatMap_cons, parseLineSteps_append, parseLineSteps_unquoted_char (Ne.symm h0.1) hR (by omega),
        andThen_cont, parseLineSteps_unquoted_body hR s (P ++ [x]) h0.2 hlen', List.append_assoc,
        List.singleton_append]

/-- A space after a parameter that ended at its closing quote changes nothing. -/
theorem parseLineNext_andThen_space {c : UInt8} (hc : space c) (R : List (List UInt8)) :
    (parseLineNext n (parseLineIdle R)).andThen (parseLineSteps n [c]) = parseLineNext n (parseLineIdle R) := by
  unfold parseLineNext
  split_ifs with h
  · rfl
  · rw [andThen_cont, parseLineSteps_cons, parseLineStep_idle_space hc, parseLineNext, if_neg h,
      andThen_cont, parseLineSteps_nil]

/-- A parameter followed by a space or the `NUL` is read and stored in `p[ret]`. -/
theorem parseLineSteps_parm (p : ParmQuoting × List UInt8) (hp : ParmOk p) (hR : R.length < n)
    {c : UInt8} (hc : space c) :
    parseLineSteps n (encodeParm p.1 p.2 ++ [c]) (parseLineIdle R) = parseLineNext n (parseLineIdle (R ++ [p.2])) := by
  obtain ⟨q, s⟩ := p
  obtain ⟨hread, h0, hlen⟩ := hp
  cases q with
  | doubleQuoted =>
    rw [encodeParm, List.cons_append, List.cons_append, parseLineSteps_cons, parseLineStep_idle_dquote,
      parseLineNext_of_lt _ hR, andThen_cont, List.append_assoc, parseLineSteps_append,
      parseLineSteps_dquoted_body hR s [] h0 (by simpa using hlen), andThen_cont, List.singleton_append,
      parseLineSteps_cons, List.nil_append, parseLineStep_dquoted_close, parseLineNext_andThen_space hc]
  | singleQuoted =>
    rw [encodeParm, List.cons_append, List.cons_append, parseLineSteps_cons, parseLineStep_idle_squote,
      parseLineNext_of_lt _ hR, andThen_cont, List.append_assoc, parseLineSteps_append,
      parseLineSteps_squoted_body hR s [] h0 hread (by simpa using hlen), andThen_cont, List.singleton_append,
      parseLineSteps_cons, List.nil_append, parseLineStep_squoted_close, parseLineNext_andThen_space hc]
  | escaped =>
    match s, hread, h0, hlen with
    | x :: s, ⟨hsp, h35, h59, h34, h39⟩, h0, hlen =>
      simp only [List.mem_cons, not_or] at h0
      simp only [List.length_cons] at hlen
      rw [encodeParm, List.flatMap_cons, List.append_assoc, parseLineSteps_append,
        parseLineSteps_unquoted_first (Ne.symm h0.1) hsp h35 h59 h34 h39 hR, andThen_cont,
        parseLineSteps_append, parseLineSteps_unquoted_body hR s [x] h0.2 (by simp; omega), andThen_cont,
        parseLineSteps_cons, parseLineStep_unquoted_end hc, parseLineSteps_nil_eq, andThen_cont_right,
        List.singleton_append]

/-- Parameters joined by single spaces and followed by a space or the `NUL` are read in order; the
loop breaks after the last one if that makes `n`. -/
theorem parseLineSteps_joinParms {c : UInt8} (hc : space c) :
    ∀ (ps : List (ParmQuoting × List UInt8)) (R : List (List UInt8)), ps ≠ [] → (∀ p ∈ ps, ParmOk p) →
      R.length + ps.length ≤ n →
      parseLineSteps n (joinParms ps ++ [c]) (parseLineIdle R) =
        parseLineNext n (parseLineIdle (R ++ ps.map Prod.snd))
  | [p], R, _, hps, hlen => by
      simp only [List.length_singleton] at hlen
      rw [joinParms, List.map_singleton, List.intercalate_singleton,
        parseLineSteps_parm p (hps p List.mem_cons_self) (by omega) hc, List.map_singleton]
  | p :: q :: ps, R, _, hps, hlen => by
      simp only [List.length_cons] at hlen
      have hjoin : joinParms (p :: q :: ps) ++ [c] =
          (encodeParm p.1 p.2 ++ [32]) ++ (joinParms (q :: ps) ++ [c]) := by
        simp only [joinParms, List.map_cons, List.intercalate_cons_cons, List.append_assoc]
      have hlen' : (R ++ [p.2]).length + (q :: ps).length ≤ n := by
        simp only [List.length_append, List.length_cons, List.length_nil]
        omega
      have hnext : (parseLineIdle (R ++ [p.2])).ret.length < n := by
        simp only [parseLineIdle, List.length_append, List.length_cons, List.length_nil]
        omega
      have hrest := parseLineSteps_joinParms hc (q :: ps) (R ++ [p.2]) (List.cons_ne_nil q ps)
        (fun r hr => hps r (List.mem_cons_of_mem p hr)) hlen'
      rw [hjoin, parseLineSteps_append, parseLineSteps_parm p (hps p List.mem_cons_self) (by omega)
        (by decide), parseLineNext_of_lt _ hnext, andThen_cont, hrest, List.append_assoc,
        List.singleton_append]
      rfl

/-- Spaces where a parameter could start change nothing. -/
theorem parseLineSteps_idle_spaces (R : List (List UInt8)) (hR : R.length < n) :
    ∀ ws : List UInt8, (∀ c ∈ ws, isCSpace c) → parseLineSteps n ws (parseLineIdle R) = .cont (parseLineIdle R)
  | [], _ => rfl
  | w :: ws, hws => by
      have hw : space w := by simp [space, hws w List.mem_cons_self]
      rw [parseLineSteps_cons, parseLineStep_idle_space hw, parseLineNext_of_lt _ hR, andThen_cont,
        parseLineSteps_idle_spaces R hR ws (fun c hc => hws c (List.mem_cons_of_mem w hc))]

/-- The end of a line after its last parameter: spaces, then a comment (a `#` or a `;`, after a
backslash or not) or the `NUL`, leave the loop in `STATE_INITIAL` with the same parameters. -/
theorem parseLineSteps_idle_tail (R : List (List UInt8)) :
    ∀ (ws comment : List UInt8), (∀ c ∈ ws, isCSpace c) →
      (comment = [] ∨ ∃ c rest, (c = 35 ∨ c = 59) ∧ (comment = c :: rest ∨ comment = 92 :: c :: rest)) →
      ∃ b, (parseLineSteps n (ws ++ comment ++ [0]) (parseLineIdle R)).toExcept = .ok ⟨.initial, b, [], R⟩
  | [], [], _, _ => by
      refine ⟨false, ?_⟩
      rw [List.nil_append, List.nil_append, parseLineSteps_cons, parseLineStep_idle_space (by decide),
        parseLineSteps_nil_eq, andThen_cont_right]
      unfold parseLineNext
      split_ifs <;> rfl
  | [], _ :: _, _, .inl h => by cases h
  | [], comment, _, .inr ⟨c, rest, hc, hform⟩ => by
      rcases hform with rfl | rfl
      · refine ⟨false, ?_⟩
        rw [List.nil_append, List.cons_append, parseLineSteps_cons, parseLineStep_idle_comment hc]
        rfl
      · refine ⟨true, ?_⟩
        have hstep : parseLineStep n (parseLineIdle R) 92 = parseLineNext n ⟨.initial, true, [], R⟩ := by
          simp [parseLineStep, parseLineStore, parseLineIdle]
        have hcomment : parseLineStep n ⟨.initial, true, [], R⟩ c = .brk ⟨.initial, true, [], R⟩ := by
          rcases hc with rfl | rfl <;> simp [parseLineStep, parseTransition, space, isCSpace]
        rw [List.nil_append, List.cons_append, parseLineSteps_cons, hstep]
        unfold parseLineNext
        split_ifs
        · rfl
        · rw [andThen_cont, List.cons_append, parseLineSteps_cons, hcomment]
          rfl
  | w :: ws, comment, hws, hcomment => by
      have hw : space w := by simp [space, hws w List.mem_cons_self]
      rw [List.cons_append, List.cons_append, parseLineSteps_cons, parseLineStep_idle_space hw]
      unfold parseLineNext
      split_ifs
      · exact ⟨false, rfl⟩
      · rw [andThen_cont]
        exact parseLineSteps_idle_tail R ws comment (fun c hc => hws c (List.mem_cons_of_mem w hc)) hcomment

theorem zero_not_mem_escapeChar (special : UInt8 → Bool) {x : UInt8} (hx : x ≠ 0) :
    0 ∉ escapeChar special x := by
  unfold escapeChar
  split_ifs <;> simp [Ne.symm hx]

theorem zero_not_mem_encodeParm (q : ParmQuoting) {s : List UInt8} (hs : 0 ∉ s) : 0 ∉ encodeParm q s := by
  have hflat : ∀ special : UInt8 → Bool, 0 ∉ s.flatMap (escapeChar special) := fun special h => by
    obtain ⟨x, hx, h0⟩ := List.mem_flatMap.mp h
    exact zero_not_mem_escapeChar special (fun h => hs (h ▸ hx)) h0
  cases q <;> simp [encodeParm, hs, hflat]

theorem zero_not_mem_joinParms : ∀ ps : List (ParmQuoting × List UInt8), (∀ p ∈ ps, 0 ∉ p.2) →
    0 ∉ joinParms ps
  | [], _ => by simp [joinParms]
  | [p], hps => by
      simpa [joinParms] using zero_not_mem_encodeParm p.1 (hps p List.mem_cons_self)
  | p :: q :: ps, hps => by
      have hrest := zero_not_mem_joinParms (q :: ps) fun r hr => hps r (List.mem_cons_of_mem p hr)
      have hp := zero_not_mem_encodeParm p.1 (hps p List.mem_cons_self)
      simp only [joinParms, List.map_cons, List.intercalate_cons_cons] at hrest ⊢
      simp [hp, hrest]

/-- `parse_line` returns the parameters of a loop that leaves `STATE_INITIAL`. -/
theorem parseLine_of_steps {line : List UInt8} (hline : 0 ∉ line) {b : Bool} {S : List (List UInt8)}
    (h : (parseLineSteps n (line ++ [0]) parseLineInit).toExcept = .ok ⟨.initial, b, [], S⟩) :
    parseLine line n = .ok S := by
  rw [parseLine, parseLineLoop_append_nul line hline, h]

/-- A line of parameters joined by single spaces, with spaces before and after them and a comment
at the end, is read back, when it has at most `n` parameters. -/
theorem parseLine_joinParms (ps : List (ParmQuoting × List UInt8)) (hps : ∀ p ∈ ps, ParmOk p)
    (hn : ps.length ≤ n) (lead trail comment : List UInt8) (hlead : ∀ c ∈ lead, isCSpace c)
    (htrail : ∀ c ∈ trail, isCSpace c) (hnul : 0 ∉ comment)
    (hcomment : comment = [] ∨ (trail ≠ [] ∨ ps = []) ∧
      ∃ c rest, (c = 35 ∨ c = 59) ∧ (comment = c :: rest ∨ comment = 92 :: c :: rest)) :
    parseLine (lead ++ joinParms ps ++ trail ++ comment) n = .ok (ps.map Prod.snd) := by
  have hspace : ∀ ws : List UInt8, (∀ c ∈ ws, isCSpace c) → 0 ∉ ws := fun ws hws h => by
    simpa [isCSpace] using hws 0 h
  have hline : 0 ∉ lead ++ joinParms ps ++ trail ++ comment := by
    simp only [List.mem_append, not_or]
    exact ⟨⟨⟨hspace lead hlead, zero_not_mem_joinParms ps fun p hp => (hps p hp).2.1⟩, hspace trail htrail⟩,
      hnul⟩
  have htail := hcomment.imp_right And.right
  by_cases hne : ps = []
  · -- no parameter: spaces and a comment
    subst hne
    obtain ⟨b, hb⟩ := parseLineSteps_idle_tail (n := n) [] (lead ++ trail) comment
      (by simpa [or_imp, forall_and] using And.intro hlead htrail) htail
    refine parseLine_of_steps hline (b := b) ?_
    simpa [joinParms, parseLineInit, parseLineIdle] using hb
  · have hpos : 0 < n := Nat.lt_of_lt_of_le (List.length_pos_of_ne_nil hne) hn
    have hlead' : parseLineSteps n lead parseLineInit = .cont (parseLineIdle []) :=
      parseLineSteps_idle_spaces [] hpos lead hlead
    cases trail with
    | nil =>
      -- with no space after the last parameter there is no comment, and the `NUL` ends it
      have hc : comment = [] := by
        rcases hcomment with h | ⟨h | h, _⟩
        · exact h
        · exact absurd rfl h
        · exact absurd h hne
      subst hc
      refine parseLine_of_steps hline (b := false) ?_
      rw [List.append_nil, List.append_nil, List.append_assoc, parseLineSteps_append, hlead', andThen_cont,
        parseLineSteps_joinParms (by decide) ps [] hne hps (by simpa using hn), List.nil_append]
      unfold parseLineNext
      split_ifs <;> rfl
    | cons t trail =>
      have ht : space t := by simp [space, htrail t List.mem_cons_self]
      obtain ⟨b, hb⟩ := parseLineSteps_idle_tail (n := n) (ps.map Prod.snd) trail comment
        (fun c hc => htrail c (List.mem_cons_of_mem t hc)) htail
      have hsplit : lead ++ joinParms ps ++ t :: trail ++ comment ++ [0] =
          lead ++ ((joinParms ps ++ [t]) ++ (trail ++ comment ++ [0])) := by simp
      have hsteps : ∃ b', (parseLineSteps n (lead ++ joinParms ps ++ t :: trail ++ comment ++ [0])
          parseLineInit).toExcept = .ok ⟨.initial, b', [], ps.map Prod.snd⟩ := by
        rw [hsplit, parseLineSteps_append, hlead', andThen_cont, parseLineSteps_append,
          parseLineSteps_joinParms ht ps [] hne hps (by simpa using hn), List.nil_append]
        unfold parseLineNext
        split_ifs
        · exact ⟨false, rfl⟩
        · exact ⟨b, hb⟩
      obtain ⟨b', hb'⟩ := hsteps
      exact parseLine_of_steps hline hb'

/-- A backslash and a space where a parameter could start are both dropped: the space is taken
before the escape is looked at. -/
theorem parseLine_escaped_space {w : UInt8} (hw : isCSpace w) (rest : List UInt8) (hn : 0 < n) :
    parseLine (92 :: w :: rest) n = parseLine rest n := by
  have hsp : space w := by simp [space, hw]
  have hw0 : w ≠ 0 := by
    rintro rfl
    exact absurd hw (by decide)
  have hloop : parseLineLoop n ((92 :: w :: rest) ++ [0]) parseLineInit =
      parseLineLoop n (rest ++ [0]) parseLineInit := by
    simp [parseLineLoop, parseLineStep, parseTransition, parseLineStore, parseLineNext, parseLineInit,
      hsp, hw0, ne_backslash_of_space hsp, Nat.not_le_of_lt hn]
  rw [parseLine, parseLine, hloop]

end Parms

/-- A line of at most `n` parameters, each in double quotes, in single quotes or unquoted and
escaped, joined by single spaces, with spaces before and after and a comment at the end, is read
back; a parameter may have up to `OPTION_PARM_SIZE` characters. An unquoted parameter that starts
with an escaped space loses that space, and a `#` or `;` escaped where a parameter could start
ends the line as a comment. -/
theorem parse_line_round_trip :
    (∀ (n : Nat) (ps : List (ParmQuoting × List UInt8)) (lead trail comment : List UInt8),
      ps.length ≤ n → (∀ p ∈ ps, ParmOk p) → (∀ c ∈ lead, isCSpace c) → (∀ c ∈ trail, isCSpace c) →
      0 ∉ comment → (comment = [] ∨ trail ≠ [] ∧ ∃ c rest, (c = 35 ∨ c = 59) ∧ comment = c :: rest) →
      parseLine (lead ++ joinParms ps ++ trail ++ comment) n = .ok (ps.map Prod.snd)) ∧
    (∀ (n : Nat) (w : UInt8) (s : List UInt8), 0 < n → isCSpace w →
      parseLine (encodeParm .escaped (w :: s)) n = parseLine (encodeParm .escaped s) n) ∧
    (∀ (n : Nat) (ps : List (ParmQuoting × List UInt8)) (lead trail : List UInt8) (c : UInt8)
      (rest : List UInt8), ps.length ≤ n → (∀ p ∈ ps, ParmOk p) → (∀ c ∈ lead, isCSpace c) →
      (∀ c ∈ trail, isCSpace c) → (c = 35 ∨ c = 59) → 0 ∉ rest → (trail ≠ [] ∨ ps = []) →
      parseLine (lead ++ joinParms ps ++ trail ++ 92 :: c :: rest) n = .ok (ps.map Prod.snd)) := by
  refine ⟨?_, ?_, ?_⟩
  · intro n ps lead trail comment hn hps hlead htrail hnul hcomment
    refine parseLine_joinParms ps hps hn lead trail comment hlead htrail hnul ?_
    rcases hcomment with h | ⟨htrail', c, rest, hc, rfl⟩
    · exact .inl h
    · exact .inr ⟨.inl htrail', c, rest, hc, .inl rfl⟩
  · intro n w s hn hw
    have henc : encodeParm .escaped (w :: s) = 92 :: w :: encodeParm .escaped s := by
      simp [encodeParm, escapeChar, hw]
    rw [henc, parseLine_escaped_space hw _ hn]
  · intro n ps lead trail c rest hn hps hlead htrail hc hrest hsep
    have hnul : 0 ∉ 92 :: c :: rest := by
      rcases hc with rfl | rfl <;> simp [hrest]
    exact parseLine_joinParms ps hps hn lead trail _ hlead htrail hnul
      (.inr ⟨hsep, c, rest, hc, .inr rfl⟩)

/-- The unquoted parameter ` a`, written `\ a`, is read as `a`. -/
theorem parse_line_escaped_space_lost :
    parseLine (encodeParm .escaped [32, 97]) 16 = .ok [[97]] := by
  rw [parse_line_round_trip.2.1 16 32 [97] (by decide) (by decide)]
  decide

end OpenVpn
