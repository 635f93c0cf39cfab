import OpenVpn.ManageCommand

/-! What `man_read` makes of a stream of text lines. Bytes are added to `cl->buf` until it is full,
and only then are complete lines taken out: when one chunk ends a long line and goes on into the
next one past the 1024 bytes of the buffer, `buf_clear` throws the completed line away with the
beginning of the next, before `command_line_get` sees either. -/

namespace OpenVpn

/-- A byte of a command line: kept by `command_line_add`, and not a newline. -/
def IsTextByte (c : UInt8) : Prop :=
  c ≠ 0 ∧ charClass c (ccPrint ||| ccNewline) = true ∧ c ≠ newlineByte

instance : DecidablePred IsTextByte := fun _ => inferInstanceAs (Decidable (_ ∧ _))

theorem IsTextByte.kept {c : UInt8} (h : IsTextByte c) :
    c ≠ 0 ∧ charClass c (ccPrint ||| ccNewline) = true :=
  ⟨h.1, h.2.1⟩

section Add

variable {cl : CommandLine} {xs : List UInt8}

theorem commandLineAdd_append (cl : CommandLine) (xs ys : List UInt8) :
    commandLineAdd cl (xs ++ ys) = commandLineAdd (commandLineAdd cl xs) ys :=
  List.foldl_append

/-- Kept bytes that fit are appended. -/
theorem commandLineAdd_of_fits
    (hxs : ∀ c ∈ xs, c ≠ 0 ∧ charClass c (ccPrint ||| ccNewline) = true)
    (hroom : cl.buf.length + xs.length ≤ cl.capacity) :
    commandLineAdd cl xs = { cl with buf := cl.buf ++ xs } := by
  induction xs generalizing cl with
  | nil => simp [commandLineAdd]
  | cons c xs ih =>
      have hc := hxs c List.mem_cons_self
      have hstep : commandLineAddByte cl c = { cl with buf := cl.buf ++ [c] } := by
        rw [commandLineAddByte, if_pos hc, if_pos (by simp at hroom; omega)]
      rw [commandLineAdd, List.foldl_cons, hstep, ← commandLineAdd,
        ih (fun c' hc' => hxs c' (List.mem_cons_of_mem c hc')) (by simp at hroom ⊢; omega)]
      simp

/-- A kept byte that does not fit empties the buffer, and is lost with it. -/
theorem commandLineAddByte_of_full {c : UInt8}
    (hc : c ≠ 0 ∧ charClass c (ccPrint ||| ccNewline) = true)
    (hfull : cl.capacity < cl.buf.length + 1) :
    commandLineAddByte cl c = { cl with buf := [] } := by
  rw [commandLineAddByte, if_pos hc, if_neg (by omega)]

end Add

section Get

variable {cl : CommandLine} {line : List UInt8}

theorem bufSubstringLen_of_text (hline : ∀ c ∈ line, IsTextByte c) (rest : List UInt8) :
    bufSubstringLen (line ++ newlineByte :: rest) newlineByte = some (line.length + 1) := by
  have hnot : ∀ c ∈ line, decide (c = newlineByte) = false := fun c hc => by
    simpa using (hline c hc).2.2
  simp [bufSubstringLen, List.findIdx?_append, List.findIdx?_eq_none_iff.mpr hnot,
    List.findIdx?_cons]

/-- No newline, no line: `command_line_get` returns `NULL` and changes nothing. -/
theorem commandLineGet_of_text (h : ∀ c ∈ cl.buf, IsTextByte c) : commandLineGet cl = (none, cl) := by
  have hnone : bufSubstringLen cl.buf newlineByte = none := by
    simp only [bufSubstringLen, Option.map_eq_none_iff, List.findIdx?_eq_none_iff]
    exact fun c hc => by simpa using (h c hc).2.2
  rw [commandLineGet, hnone]

/-- `buf_chomp` of a line and its newline leaves the line, `0`-terminated. -/
theorem chompContent_line (hline : ∀ c ∈ line, IsTextByte c) {capacity : Nat}
    (hroom : line.length + 1 ≤ capacity) :
    chompContent capacity (line ++ [newlineByte]) = line ++ [0] := by
  -- printable bytes are neither `\r`, `\n` nor `\0`
  have hkeep : ∀ c, IsTextByte c → charClass c (ccCrlf ||| ccNull) = false := by
    intro c ⟨h0, hcls, hnl⟩
    rw [charClass_print_newline] at hcls
    have hnl' : c ≠ 10 := hnl
    have h13 : c ≠ 13 := by
      rintro rfl
      exact absurd hcls (by decide)
    simp [charClass_crlf_null, h0, hnl', h13]
  have hdrop : ((line ++ [newlineByte]).reverse.dropWhile
      fun c => charClass c (ccCrlf ||| ccNull)) = line.reverse := by
    rw [List.reverse_append, List.reverse_singleton, List.singleton_append, List.dropWhile_cons,
      if_pos (by decide)]
    cases hr : line.reverse with
    | nil => rfl
    | cons c rest =>
        have hc : IsTextByte c := hline c (List.mem_reverse.mp (by rw [hr]; exact List.mem_cons_self))
        rw [List.dropWhile_cons, if_neg (by simp [hkeep c hc])]
  simp only [chompContent, hdrop, List.reverse_reverse, if_pos hroom]

/-- `command_line_get` on a buffer holding one complete line: the line, and nothing left. -/
theorem commandLineGet_line (hline : ∀ c ∈ line, IsTextByte c) (hbuf : cl.buf = line ++ [newlineByte])
    (hroom : line.length + 1 ≤ cl.capacity) :
    commandLineGet cl = (some line, { cl with buf := line ++ [0] }) := by
  have hi := bufSubstringLen_of_text hline []
  have hlen : cl.buf.length = line.length + 1 := by simp [hbuf]
  have htake : cl.buf.take (line.length + 1) = line ++ [newlineByte] := by
    rw [hbuf, List.take_of_length_le (by simp)]
  rw [commandLineGet, hbuf, hi]
  simp only
  rw [← hbuf, htake, chompContent_line hline hroom, if_neg (by omega)]
  have hz : (line ++ [0]).takeWhile (· ≠ 0) = line := by
    rw [List.takeWhile_append_of_pos (fun c hc => by simpa using (hline c hc).1)]
    simp
  rw [hz]

end Get

section Read

variable {cl : CommandLine}

/-- With no newline in the buffer the loop of `man_read` passes nothing on. -/
theorem manReadLoop_of_text (h : ∀ c ∈ cl.buf, IsTextByte c) (fuel : Nat) :
    manReadLoop fuel cl = (cl, []) := by
  cases fuel with
  | zero => rfl
  | succ fuel => rw [manReadLoop, commandLineGet_of_text h]

/-- A chunk of text that fits is added, and no line is passed on. -/
theorem manRead_of_text {chunk : List UInt8} (hbuf : ∀ c ∈ cl.buf, IsTextByte c)
    (hchunk : ∀ c ∈ chunk, IsTextByte c) (hroom : cl.buf.length + chunk.length ≤ cl.capacity) :
    manRead cl chunk = ({ cl with buf := cl.buf ++ chunk }, []) := by
  have hadd := commandLineAdd_of_fits (fun c hc => (hchunk c hc).kept) hroom
  rw [manRead, hadd, manReadLoop_of_text]
  intro c hc
  rcases List.mem_append.mp hc with hc | hc
  · exact hbuf c hc
  · exact hchunk c hc

theorem manReadRun_append (cl : CommandLine) (xs ys : List (List UInt8)) :
    manReadRun cl (xs ++ ys) =
      ((manReadRun (manReadRun cl xs).1 ys).1,
        (manReadRun cl xs).2 ++ (manReadRun (manReadRun cl xs).1 ys).2) := by
  induction xs generalizing cl with
  | nil => simp [manReadRun]
  | cons chunk xs ih => simp [manReadRun, ih]

/-- Chunks of text that fit together are added one after another, and no line is passed on. -/
theorem manReadRun_of_text {chunks : List (List UInt8)} (hbuf : ∀ c ∈ cl.buf, IsTextByte c)
    (hchunks : ∀ c ∈ chunks.flatten, IsTextByte c)
    (hroom : cl.buf.length + chunks.flatten.length ≤ cl.capacity) :
    manReadRun cl chunks = ({ cl with buf := cl.buf ++ chunks.flatten }, []) := by
  induction chunks generalizing cl with
  | nil => simp [manReadRun]
  | cons chunk chunks ih =>
      have hchunk : ∀ c ∈ chunk, IsTextByte c := fun c hc =>
        hchunks c (List.mem_flatten.mpr ⟨chunk, List.mem_cons_self, hc⟩)
      have hrest : ∀ c ∈ chunks.flatten, IsTextByte c := fun c hc =>
        hchunks c (by rw [List.flatten_cons]; exact List.mem_append_right _ hc)
      simp only [List.flatten_cons, List.length_append] at hroom
      rw [manReadRun, manRead_of_text hbuf hchunk (by omega)]
      dsimp only
      rw [@ih { cl with buf := cl.buf ++ chunk } (fun c hc => ?_) hrest
        (by dsimp only; rw [List.length_append]; omega)]
      · simp
      · rcases List.mem_append.mp hc with hc | hc
        · exact hbuf c hc
        · exact hchunk c hc

/-- A chunk that ends the line in the buffer: the whole line is passed on and both buffers are
left empty. -/
theorem manRead_line {pre suffix : List UInt8} (hbuf : cl.buf = pre) (hres : cl.residual = [])
    (hpre : ∀ c ∈ pre, IsTextByte c) (hsuffix : ∀ c ∈ suffix, IsTextByte c)
    (hroom : pre.length + suffix.length + 1 ≤ cl.capacity) :
    manRead cl (suffix ++ [newlineByte]) = (⟨[], [], cl.capacity⟩, [pre ++ suffix]) := by
  have hline : ∀ c ∈ pre ++ suffix, IsTextByte c := fun c hc =>
    (List.mem_append.mp hc).elim (hpre c) (hsuffix c)
  have hadd : commandLineAdd cl (suffix ++ [newlineByte]) =
      { cl with buf := pre ++ suffix ++ [newlineByte] } := by
    rw [commandLineAdd_of_fits, hbuf, List.append_assoc]
    · intro c hc
      rcases List.mem_append.mp hc with hc | hc
      · exact (hsuffix c hc).kept
      · rw [List.mem_singleton.mp hc]
        decide
    · simp [hbuf]
      omega
  have hget := @commandLineGet_line { cl with buf := pre ++ suffix ++ [newlineByte] }
    (pre ++ suffix) hline rfl (by simp; omega)
  simp only [manRead, hadd, List.length_append, List.length_singleton]
  rw [manReadLoop, hget]
  dsimp only
  rw [commandLineNext, hres, manReadLoop_of_text (by simp)]

/-- A chunk that ends a line of `n` bytes and carries `T` on past the 1024 bytes of the buffer:
`buf_clear` runs before any line is taken out, and what is left is the end of `T`. -/
theorem manRead_overflow {L1 T : List UInt8} (hbuf : cl.buf = L1) (hcap : cl.capacity = 1024)
    (hT : ∀ c ∈ T, IsTextByte c) (hL1len : L1.length < 1024) (hTlen : T.length < 1024)
    (hover : 1024 < L1.length + 1 + T.length) :
    manRead cl (newlineByte :: T) = ({ cl with buf := T.drop (1024 - L1.length) }, []) := by
  -- the newline and the first `1023 - n` bytes of `T` fill the buffer; the next byte clears it
  have hk : 1023 - L1.length < T.length := by omega
  have hsplit : newlineByte :: T = (newlineByte :: T.take (1023 - L1.length)) ++
      [T[1023 - L1.length]] ++ T.drop (1024 - L1.length) := by
    rw [List.append_assoc, List.singleton_append, show 1024 - L1.length = 1023 - L1.length + 1 by
      omega, ← List.drop_eq_getElem_cons hk, List.cons_append, List.take_append_drop]
  have hfill : commandLineAdd cl (newlineByte :: T.take (1023 - L1.length)) =
      { cl with buf := L1 ++ newlineByte :: T.take (1023 - L1.length) } := by
    rw [commandLineAdd_of_fits, hbuf]
    · intro c hc
      rcases List.mem_cons.mp hc with rfl | hc
      · decide
      · exact (hT c (List.mem_of_mem_take hc)).kept
    · simp [hbuf, hcap]
      omega
  have hclear : commandLineAdd { cl with buf := L1 ++ newlineByte :: T.take (1023 - L1.length) }
      [T[1023 - L1.length]] = { cl with buf := [] } := by
    rw [commandLineAdd, List.foldl_cons, List.foldl_nil,
      commandLineAddByte_of_full (hT _ (List.getElem_mem hk)).kept (by simp [hcap]; omega)]
  have hrest : commandLineAdd { cl with buf := [] } (T.drop (1024 - L1.length)) =
      { cl with buf := T.drop (1024 - L1.length) } := by
    rw [commandLineAdd_of_fits (fun c hc => (hT c (List.mem_of_mem_drop hc)).kept)
      (by simp [hcap]; omega)]
    simp
  rw [manRead, hsplit, commandLineAdd_append, commandLineAdd_append, hfill, hclear, hrest,
    manReadLoop_of_text (fun c hc => hT c (List.mem_of_mem_drop hc))]

/-- The stream `L1 \n T \n`, with `L1` sent in any chunks, then `\n T` in one chunk and the last
newline in another. Both lines are legal, shorter than 1024 bytes, but the newline of `L1` and `T`
together pass the end of the 1024-byte buffer: `man_read` passes on a single line, the end of
`T`, and `L1` is lost. -/
theorem man_read_loses_line_completed_in_full_buffer {L1 T : List UInt8}
    (chunks : List (List UInt8)) (hchunks : chunks.flatten = L1) (hL1 : ∀ c ∈ L1, IsTextByte c)
    (hT : ∀ c ∈ T, IsTextByte c) (hL1len : L1.length < 1024) (hTlen : T.length < 1024)
    (hover : 1024 < L1.length + 1 + T.length) :
    (manReadRun (commandLineNew 1024) (chunks ++ [newlineByte :: T, [newlineByte]])).2 =
      [T.drop (1024 - L1.length)] := by
  have hstart := @manReadRun_of_text (commandLineNew 1024) chunks (by simp [commandLineNew])
    (hchunks ▸ hL1) (by simp [commandLineNew, hchunks]; omega)
  have hover' := @manRead_overflow ⟨L1, [], 1024⟩ L1 T rfl rfl hT hL1len hTlen hover
  have hT₂ : ∀ c ∈ T.drop (1024 - L1.length), IsTextByte c := fun c hc => hT c (List.mem_of_mem_drop hc)
  have hlast := @manRead_line ⟨T.drop (1024 - L1.length), [], 1024⟩ (T.drop (1024 - L1.length)) []
    rfl rfl hT₂ (by simp) (by simp; omega)
  rw [manReadRun_append, hstart]
  simp only [commandLineNew, List.nil_append, hchunks]
  rw [manReadRun, hover']
  dsimp only
  rw [manReadRun, List.nil_append]
  simp only [List.nil_append, List.append_nil] at hlast
  rw [hlast]
  rfl

/-- A 1000-byte line `a...a` sent in four chunks of 250, then `\n` with 100 bytes `b...b`, then the
last `\n`: only the last 76 bytes `b` come out, as one line. -/
theorem man_read_loses_1000_byte_line :
    (manReadRun (commandLineNew 1024) (List.replicate 4 (List.replicate 250 97) ++
      [newlineByte :: List.replicate 100 98, [newlineByte]])).2 = [List.replicate 76 98] := by
  have h := @man_read_loses_line_completed_in_full_buffer (List.replicate 1000 97)
    (List.replicate 100 98) (List.replicate 4 (List.replicate 250 97))
    List.flatten_replicate_replicate
    (fun c hc => by rw [List.eq_of_mem_replicate hc]; decide)
    (fun c hc => by rw [List.eq_of_mem_replicate hc]; decide)
    (by rw [List.length_replicate]; decide) (by rw [List.length_replicate]; decide)
    (by rw [List.length_replicate, List.length_replicate]; decide)
  rw [h, List.length_replicate, List.drop_replicate]

end Read

end OpenVpn
