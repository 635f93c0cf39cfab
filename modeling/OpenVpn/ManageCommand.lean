import OpenVpn.CharClass

/-! The command line framing of the management interface (`manage.c`): `man_read` adds each
received chunk to `cl->buf` (`command_line_add`), then takes out every complete line
(`command_line_get`, `command_line_next`). Both buffers of `struct command_line` are kept at offset
`0` by `alloc_buf`, `buf_clear` and the `buf_copy` into a cleared buffer, so each is its content,
with the capacity `command_line_new` gave. -/

namespace OpenVpn

/-- `'\n'`. -/
def newlineByte : UInt8 := 10

/-- `struct command_line`: the contents of `buf` and `residual`, and the capacity of each. -/
structure CommandLine where
  buf : List UInt8
  residual : List UInt8
  capacity : Nat
  deriving DecidableEq, Repr

/-- `command_line_new(buf_len)`. -/
def commandLineNew (bufLen : Nat) : CommandLine := ⟨[], [], bufLen⟩

/-- One byte of `command_line_add`: a kept byte is written with `buf_write_u8`, and when that
fails for want of room `buf_clear` empties the buffer. -/
def commandLineAddByte (cl : CommandLine) (c : UInt8) : CommandLine :=
  if c ≠ 0 ∧ charClass c (ccPrint ||| ccNewline) = true then
    if cl.buf.length + 1 ≤ cl.capacity then { cl with buf := cl.buf ++ [c] }
    else { cl with buf := [] }
  else cl

/-- `command_line_add(cl, buf, len)`. -/
def commandLineAdd (cl : CommandLine) (chunk : List UInt8) : CommandLine :=
  chunk.foldl commandLineAddByte cl

/-- `buf_substring_len(buf, delim)`: the length up to and including the first `delim`. -/
def bufSubstringLen (content : List UInt8) (delim : UInt8) : Option Nat :=
  (content.findIdx? (· = delim)).map (· + 1)

/-- `buf_chomp` on a buffer at offset `0`: trailing `\r`, `\n` and `\0` bytes dropped, then
`buf_null_terminate`, which gives up the last byte when there is no room for the `0`. -/
def chompContent (capacity : Nat) (content : List UInt8) : List UInt8 :=
  let content := (content.reverse.dropWhile fun c => charClass c (ccCrlf ||| ccNull)).reverse
  if content.length + 1 ≤ capacity then content ++ [0] else content.dropLast ++ [0]

/-- `command_line_get(cl)`: the line before the first newline, with the rest moved to `residual`
(`buf_copy_excess`) and `buf` chomped, or `NULL` while there is no newline. -/
def commandLineGet (cl : CommandLine) : Option (List UInt8) × CommandLine :=
  match bufSubstringLen cl.buf newlineByte with
  | none => (none, cl)
  | some i =>
      -- buf_copy into residual writes nothing when there is no room
      let excess := cl.buf.drop i
      let residual := if i < cl.buf.length ∧ cl.residual.length + excess.length ≤ cl.capacity then
        cl.residual ++ excess else cl.residual
      let buf := chompContent cl.capacity (cl.buf.take i)
      -- BSTR(&cl->buf)
      (some (buf.takeWhile (· ≠ 0)), { cl with buf, residual })

/-- `command_line_next(cl)`. -/
def commandLineNext (cl : CommandLine) : CommandLine :=
  { cl with buf := cl.residual, residual := [] }

/-- The loop of `man_read` over the complete lines, with at most `fuel` rounds: the lines it passes
to `man_process_command` or to `in_extra`, in order. -/
def manReadLoop : Nat → CommandLine → CommandLine × List (List UInt8)
  | 0, cl => (cl, [])
  | fuel + 1, cl =>
      match commandLineGet cl with
      | (some line, cl) =>
          let (cl, lines) := manReadLoop fuel (commandLineNext cl)
          (cl, line :: lines)
      | (none, cl) => (cl, [])

/-- `man_read` on a chunk `recv` returned, without a halt: each round of the loop takes out a line
and its newline, so `BLEN + 1` rounds take out all of them. -/
def manRead (cl : CommandLine) (chunk : List UInt8) : CommandLine × List (List UInt8) :=
  let cl := commandLineAdd cl chunk
  manReadLoop (cl.buf.length + 1) cl

/-- `man_read` on each chunk in turn: the state and all the lines passed on. -/
def manReadRun (cl : CommandLine) : List (List UInt8) → CommandLine × List (List UInt8)
  | [] => (cl, [])
  | chunk :: chunks =>
      let (cl, lines) := manRead cl chunk
      let (cl, more) := manReadRun cl chunks
      (cl, lines ++ more)

end OpenVpn
