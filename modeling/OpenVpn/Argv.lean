import OpenVpn.Hash
import OpenVpn.ParseLine

/-! `argv.c`: the argument vectors OpenVPN builds for `execve`. A `struct argv` is its `capacity`,
its `argc` and the slots of its `argv` array, `none` for a `NULL` pointer; the `gc` arena is left
out, and `string_alloc` copies a string as it is. `argv_printf` and `argv_printf_cat` take the
format as a list of pieces: a literal byte, or a conversion (`%s`, `%d`, `%u`, `%lu`, without the
space flag) with the bytes `vsnprintf` writes for it and the argument it consumes. A conversion is
never a space for `argv_prep_format`, and `vsnprintf` writes the literal bytes and the texts of the
conversions in order. `size_t` is `Nat` in `argv_grow`, whose `ASSERT` then holds; the `ASSERT` of
`adjust_power_of_2` ends the process (`none`) when the capacity needs more than 64 bits. -/

namespace OpenVpn

/-- `struct argv` without its arena. -/
structure Argv where
  capacity : Nat
  argc : Nat
  argv : List (Option (List UInt8))
  deriving DecidableEq, Repr

/-- The arguments `argv[0 .. argc)`. -/
def Argv.args (a : Argv) : List (Option (List UInt8)) := a.argv.take a.argc

/-- `argv_extend(a, newcap)`: a cleared array of `newcap` slots with the `argc` arguments copied in
front, when it is larger. -/
def argvExtend (a : Argv) (newcap : Nat) : Argv :=
  if newcap > a.capacity then
    ⟨newcap, a.argc, a.argv.take a.argc ++ List.replicate (newcap - a.argc) none⟩
  else a

/-- `argv_init(a)`, and `argv_new()`. -/
def argvNew : Argv := argvExtend ⟨0, 0, []⟩ 8

/-- `argv_reset(a)`: the `argc` slots set to `NULL`, and no argument. -/
def argvReset (a : Argv) : Argv :=
  if a.argc ≠ 0 then ⟨a.capacity, 0, List.replicate a.argc none ++ a.argv.drop a.argc⟩ else a

/-- `argv_grow(a, add)`: room for `add` more arguments and the `NULL` after them. -/
def argvGrow (a : Argv) (add : Nat) : Option Argv :=
  let newargc := a.argc + add + 1
  (adjustPowerOf2 newargc).map (argvExtend a)

/-- `argv_append(a, str)`. -/
def argvAppend (a : Argv) (str : Option (List UInt8)) : Option Argv :=
  (argvGrow a 1).map fun a => ⟨a.capacity, a.argc + 1, a.argv.set a.argc str⟩

/-- `argv_clone(source, headroom)`: `headroom` `NULL` slots, then a copy of each argument. -/
def argvClone (source : Option Argv) (headroom : Nat) : Option Argv := do
  let r ← (List.replicate headroom none).foldlM argvAppend argvNew
  match source with
  | some s => s.args.foldlM argvAppend r
  | none => pure r

/-- `argv_insert_head(a, head)`. -/
def argvInsertHead (a : Argv) (head : List UInt8) : Option Argv :=
  (argvClone (some a) 1).map fun r => { r with argv := r.argv.set 0 (some head) }

/-- A piece of a format string. -/
inductive FormatPiece where
  /-- A literal byte. -/
  | lit (c : UInt8)
  /-- A conversion, with the bytes `vsnprintf` writes for it and its argument. -/
  | conv (out : List UInt8)
  deriving DecidableEq, Repr

/-- `format[i] == ' '`. -/
def FormatPiece.isSpace : FormatPiece → Bool
  | .lit c => c = 32
  | .conv _ => false

/-- One round of the loop of `argv_prep_format` on `in_token`, `*count` and the output `f`. -/
def argvPrepStep (delim : UInt8) (st : Bool × Nat × List FormatPiece) (p : FormatPiece) :
    Bool × Nat × List FormatPiece :=
  let (inToken, count, f) := st
  if p.isSpace then (false, count, f)
  else if !inToken then
    -- the resulting format string never starts with a delimiter
    (true, count + 1, (if f ≠ [] then f ++ [.lit delim] else f) ++ [p])
  else (true, count, f ++ [p])

/-- `argv_prep_format(format, delim, &count, gc)`: `count` with the tokens added, and the format
with each run of spaces between two tokens replaced by `delim`. -/
def argvPrepFormat (delim : UInt8) (format : List FormatPiece) (count : Nat) :
    Nat × List FormatPiece :=
  let (_, count, f) := format.foldl (argvPrepStep delim) (false, count, [])
  (count, f)

/-- The bytes `vsnprintf(buf, size, f, arglist)` writes. -/
def formatOutput (f : List FormatPiece) : List UInt8 :=
  f.flatMap fun
    | .lit c => [c]
    | .conv out => out

/-- The strings the loop over `strchr(buf, delim)` appends: the parts of the string `buf`, up to
its `NUL`, between the delimiters. -/
def argvSplit (delim : UInt8) (buf : List UInt8) : List (List UInt8) :=
  (buf.takeWhile (· ≠ 0)).splitOn delim

/-- ASCII Group Separator (GS), the delimiter of `argv_printf_arglist`. -/
def argvDelim : UInt8 := 0x1D

/-- `argv_printf_arglist(argres, format, arglist)`. -/
def argvPrintfArglist (argres : Argv) (format : List FormatPiece) : Option (Bool × Argv) := do
  let (argc, f) := argvPrepFormat argvDelim format argres.argc
  let buf := formatOutput f
  let argres ← (argvSplit argvDelim buf).foldlM (fun a s => argvAppend a (some s)) argres
  -- "Someone snuck in a GS (0x1D), fail gracefully"
  if argres.argc ≠ argc then pure (false, argvReset argres) else pure (true, argres)

/-- `argv_printf(argres, format, ...)`. -/
def argvPrintf (argres : Argv) (format : List FormatPiece) : Option (Bool × Argv) :=
  argvPrintfArglist (argvReset argres) format

/-- `argv_printf_cat(argres, format, ...)`. -/
def argvPrintfCat (argres : Argv) (format : List FormatPiece) : Option (Bool × Argv) :=
  argvPrintfArglist argres format

-- `MAX_PARMS`
def maxParms : Nat := 16

/-- `argv_parse_cmd(argres, cmdstr)`: the parameters `parse_line` finds, or the whole string when
it finds none. -/
def argvParseCmd (argres : Argv) (cmdstr : List UInt8) : Option Argv :=
  let argres := argvReset argres
  match parseLine cmdstr maxParms with
  | .ok parms =>
      if parms.length ≠ 0 then parms.foldlM (fun a p => argvAppend a (some p)) argres
      else argvAppend argres (some cmdstr)
  | .error _ => argvAppend argres (some cmdstr)

end OpenVpn
