import Mathlib.Data.List.Basic

/-! The character classes of `buffer.c`: `char_class` with the C locale's `ctype` tests, and
`string_mod`, which replaces, or with a `0` replacement deletes, every character outside a class.
A C string is the list of its bytes; the loops stop at a `0` byte as the source does. -/

namespace OpenVpn

-- `CC_ANY`; `CC_NULL`; `CC_ALNUM`; `CC_ALPHA`; `CC_ASCII`; `CC_CNTRL`; `CC_DIGIT`; `CC_PRINT`;
-- `CC_PUNCT`; `CC_SPACE`; `CC_XDIGIT`; `CC_BLANK`; `CC_NEWLINE`; `CC_CR`; `CC_BACKSLASH`;
-- `CC_UNDERBAR`; `CC_DASH`; `CC_DOT`; `CC_COMMA`; `CC_COLON`; `CC_SLASH`; `CC_SINGLE_QUOTE`;
-- `CC_DOUBLE_QUOTE`; `CC_REVERSE_QUOTE`; `CC_AT`; `CC_EQUAL`; `CC_LESS_THAN`; `CC_GREATER_THAN`;
-- `CC_PIPE`; `CC_QUESTION_MARK`; `CC_ASTERISK`; `CC_NAME`: alphanumeric plus underscore; `CC_CRLF`
def ccAny : Nat := 1 <<< 0

def ccNull : Nat := 1 <<< 1

def ccAlnum : Nat := 1 <<< 2

def ccAlpha : Nat := 1 <<< 3

def ccAscii : Nat := 1 <<< 4

def ccCntrl : Nat := 1 <<< 5

def ccDigit : Nat := 1 <<< 6

def ccPrint : Nat := 1 <<< 7

def ccPunct : Nat := 1 <<< 8

def ccSpace : Nat := 1 <<< 9

def ccXdigit : Nat := 1 <<< 10

def ccBlank : Nat := 1 <<< 11

def ccNewline : Nat := 1 <<< 12

def ccCr : Nat := 1 <<< 13

def ccBackslash : Nat := 1 <<< 14

def ccUnderbar : Nat := 1 <<< 15

def ccDash : Nat := 1 <<< 16

def ccDot : Nat := 1 <<< 17

def ccComma : Nat := 1 <<< 18

def ccColon : Nat := 1 <<< 19

def ccSlash : Nat := 1 <<< 20

def ccSingleQuote : Nat := 1 <<< 21

def ccDoubleQuote : Nat := 1 <<< 22

def ccReverseQuote : Nat := 1 <<< 23

def ccAt : Nat := 1 <<< 24

def ccEqual : Nat := 1 <<< 25

def ccLessThan : Nat := 1 <<< 26

def ccGreaterThan : Nat := 1 <<< 27

def ccPipe : Nat := 1 <<< 28

def ccQuestionMark : Nat := 1 <<< 29

def ccAsterisk : Nat := 1 <<< 30

def ccName : Nat := ccAlnum ||| ccUnderbar

def ccCrlf : Nat := ccCr ||| ccNewline

/-- `isdigit` in the C locale. -/
def isDigit (c : UInt8) : Bool := 48 ≤ c && c ≤ 57

/-- `isalpha` in the C locale. -/
def isAlpha (c : UInt8) : Bool := (65 ≤ c && c ≤ 90) || (97 ≤ c && c ≤ 122)

/-- `isalnum` in the C locale. -/
def isAlnum (c : UInt8) : Bool := isAlpha c || isDigit c

/-- `iscntrl` in the C locale. -/
def isCntrl (c : UInt8) : Bool := c < 32 || c = 127

/-- `isspace` in the C locale: space, and tab through carriage return. -/
def isSpace (c : UInt8) : Bool := c = 32 || (9 ≤ c && c ≤ 13)

/-- `ispunct` in the C locale: the printable ASCII characters that are neither alphanumeric nor a
space. -/
def isPunct (c : UInt8) : Bool := 33 ≤ c && c ≤ 126 && !isAlnum c

/-- `isxdigit` in the C locale. -/
def isXdigit (c : UInt8) : Bool := isDigit c || (65 ≤ c && c ≤ 70) || (97 ≤ c && c ≤ 102)

/-- `flags & f` is set. -/
def ccHas (flags f : Nat) : Bool := flags &&& f ≠ 0

/-- `char_class(c, flags)`. -/
def charClass (c : UInt8) (flags : Nat) : Bool :=
  if flags = 0 then false
  else if ccHas flags ccAny then true
  else
    (ccHas flags ccNull && c = 0) || (ccHas flags ccAlnum && isAlnum c) ||
    (ccHas flags ccAlpha && isAlpha c) || (ccHas flags ccAscii && c < 128) ||
    (ccHas flags ccCntrl && isCntrl c) || (ccHas flags ccDigit && isDigit c) ||
    -- ascii non-control and UTF-8; DEL counts as a control
    (ccHas flags ccPrint && (32 ≤ c && c ≠ 127)) || (ccHas flags ccPunct && isPunct c) ||
    (ccHas flags ccSpace && isSpace c) || (ccHas flags ccXdigit && isXdigit c) ||
    (ccHas flags ccBlank && (c = 32 || c = 9)) || (ccHas flags ccNewline && c = 10) ||
    (ccHas flags ccCr && c = 13) || (ccHas flags ccBackslash && c = 92) ||
    (ccHas flags ccUnderbar && c = 95) || (ccHas flags ccDash && c = 45) ||
    (ccHas flags ccDot && c = 46) || (ccHas flags ccComma && c = 44) ||
    (ccHas flags ccColon && c = 58) || (ccHas flags ccSlash && c = 47) ||
    (ccHas flags ccSingleQuote && c = 39) || (ccHas flags ccDoubleQuote && c = 34) ||
    (ccHas flags ccReverseQuote && c = 96) || (ccHas flags ccAt && c = 64) ||
    (ccHas flags ccEqual && c = 61) || (ccHas flags ccLessThan && c = 60) ||
    (ccHas flags ccGreaterThan && c = 62) || (ccHas flags ccPipe && c = 124) ||
    (ccHas flags ccQuestionMark && c = 63) || (ccHas flags ccAsterisk && c = 42)

/-- `char_inc_exc(c, inclusive, exclusive)`. -/
def charIncExc (c : UInt8) (inclusive exclusive : Nat) : Bool :=
  charClass c inclusive && !charClass c exclusive

/-- `string_mod(str, inclusive, exclusive, replace)`: the string it leaves, and whether every
character was in the class. -/
def stringMod (inclusive exclusive : Nat) (replace : UInt8) : List UInt8 → List UInt8 × Bool
  | [] => ([], true)
  | c :: rest =>
      if c = 0 then ([], true)
      else
        let (out, ret) := stringMod inclusive exclusive replace rest
        let ok := charIncExc c inclusive exclusive
        let c := if ok then c else replace
        (if c ≠ 0 then c :: out else out, ok && ret)

/-- `string_mod_const(str, inclusive, exclusive, replace, gc)`. -/
def stringModConst (str : List UInt8) (inclusive exclusive : Nat) (replace : UInt8) : List UInt8 :=
  (stringMod inclusive exclusive replace str).1

/-- `strlen`. -/
def strlen (s : List UInt8) : Nat := (s.takeWhile (· ≠ 0)).length

/-- The class `command_line_add` keeps: printable bytes and the newline. -/
theorem charClass_print_newline (c : UInt8) :
    charClass c (ccPrint ||| ccNewline) = ((32 ≤ c && c ≠ 127) || c = 10) := by
  simp [charClass, ccHas, ccAny, ccNull, ccAlnum, ccAlpha, ccAscii, ccCntrl, ccDigit, ccPrint,
    ccPunct, ccSpace, ccXdigit, ccBlank, ccNewline, ccCr, ccBackslash, ccUnderbar, ccDash, ccDot,
    ccComma, ccColon, ccSlash, ccSingleQuote, ccDoubleQuote, ccReverseQuote, ccAt, ccEqual,
    ccLessThan, ccGreaterThan, ccPipe, ccQuestionMark, ccAsterisk]

/-- The class `buf_chomp` drops from the end: `\r`, `\n` and `\0`. -/
theorem charClass_crlf_null (c : UInt8) :
    charClass c (ccCrlf ||| ccNull) = (c = 0 || c = 10 || c = 13) := by
  simp [charClass, ccHas, ccAny, ccNull, ccAlnum, ccAlpha, ccAscii, ccCntrl, ccDigit, ccPrint,
    ccPunct, ccSpace, ccXdigit, ccBlank, ccNewline, ccCr, ccBackslash, ccUnderbar, ccDash, ccDot,
    ccComma, ccColon, ccSlash, ccSingleQuote, ccDoubleQuote, ccReverseQuote, ccAt, ccEqual,
    ccLessThan, ccGreaterThan, ccPipe, ccQuestionMark, ccAsterisk, ccCrlf]

end OpenVpn
