import OpenVpn.CharClass

/-! The environment sets of `env_set.c`. A set is a list of `name=value` strings, newest first;
two strings are the same variable when they agree up to their first `=` (`env_string_equal`).
`setenv_str` sanitises the name (`CC_NAME`, other characters deleted) and the value (`CC_PRINT`)
and replaces the variable of that name, or removes it for a `NULL` value; `setenv_str_incr` adds a
variable under the first of `name`, `name_1`, ..., `name_999` that the set does not have yet. -/

namespace OpenVpn

/-- `'='`. -/
def equalSign : UInt8 := 61

/-- A character as `env_string_equal` compares it: `=` ends a name like the terminating `0`. -/
def envChar (c : UInt8) : UInt8 := if c = equalSign then 0 else c

/-- `env_string_equal(s1, s2)`; the end of a list is the terminating `0`. -/
def envStringEqual : List UInt8 → List UInt8 → Bool
  | c1 :: s1, c2 :: s2 =>
      if envChar c1 = 0 ∧ envChar c2 = 0 then true
      else if envChar c1 ≠ envChar c2 then false
      else envStringEqual s1 s2
  | c1 :: _, [] => envChar c1 = 0
  | [], c2 :: _ => envChar c2 = 0
  | [], [] => true

/-- `struct env_set`: its list of strings (the arena only decides who frees them). -/
structure EnvSet where
  list : List (List UInt8)
  deriving DecidableEq, Repr

/-- `remove_env_item(str, do_free, list)`: the list without the first string of `str`'s name, and
whether there was one. -/
def removeEnvItem (str : List UInt8) : List (List UInt8) → List (List UInt8) × Bool
  | [] => ([], false)
  | current :: rest =>
      if envStringEqual current str then (rest, true)
      else
        let (rest, found) := removeEnvItem str rest
        (current :: rest, found)

/-- `env_set_add(es, str)`: the old string of the name removed, the new one in front. -/
def envSetAdd (es : EnvSet) (str : List UInt8) : EnvSet :=
  ⟨str :: (removeEnvItem str es.list).1⟩

/-- `env_set_del(es, str)`. -/
def envSetDel (es : EnvSet) (str : List UInt8) : EnvSet × Bool :=
  let (list, found) := removeEnvItem str es.list
  (⟨list⟩, found)

/-- `env_set_get(es, name)`: the first string of the name. -/
def envSetGet (es : EnvSet) (name : List UInt8) : Option (List UInt8) :=
  es.list.find? fun item => envStringEqual item name

/-- `construct_name_value(name, value, gc)`. -/
def constructNameValue (name value : List UInt8) : List UInt8 :=
  name ++ equalSign :: value

/-- `setenv_str_ex(es, name, value, ...)`: `none` when `ASSERT(name && strlen(name) > 1)` fails. -/
def setenvStrEx (es : EnvSet) (name : List UInt8) (value : Option (List UInt8))
    (nameInclude nameExclude : Nat) (nameReplace : UInt8) (valueInclude valueExclude : Nat)
    (valueReplace : UInt8) : Option EnvSet :=
  if strlen name ≤ 1 then none
  else
    let nameTmp := stringModConst name nameInclude nameExclude nameReplace
    match value with
    | some value =>
        let valTmp := stringModConst value valueInclude valueExclude valueReplace
        some (envSetAdd es (constructNameValue nameTmp valTmp))
    | none => some (envSetDel es nameTmp).1

/-- `setenv_str(es, name, value)`. -/
def setenvStr (es : EnvSet) (name : List UInt8) (value : Option (List UInt8)) : Option EnvSet :=
  setenvStrEx es name value ccName 0 0 ccPrint 0 0

/-- The text `%u` prints. -/
def formatUnsigned (n : Nat) : List UInt8 :=
  (Nat.toDigits 10 n).map fun c => UInt8.ofNat c.toNat

/-- `'_'`. -/
def underbar : UInt8 := 95

/-- The probing loop of `setenv_str_incr`: while the set has `tmpname` and `counter < 1000`, the
next name is `name_counter`. At most `fuel` rounds; `fuel + counter = 1000` at the call, so the
bound never cuts the loop short. -/
def setenvStrIncrLoop (es : EnvSet) (name : List UInt8) :
    Nat → Nat → List UInt8 → Nat × List UInt8
  | 0, counter, tmpname => (counter, tmpname)
  | fuel + 1, counter, tmpname =>
      if (envSetGet es tmpname).isSome ∧ counter < 1000 then
        setenvStrIncrLoop es name fuel (counter + 1) (name ++ underbar :: formatUnsigned counter)
      else (counter, tmpname)

/-- `setenv_str_incr(es, name, value)`. -/
def setenvStrIncr (es : EnvSet) (name : List UInt8) (value : Option (List UInt8)) :
    Option EnvSet :=
  let (counter, tmpname) := setenvStrIncrLoop es name 999 1 name
  if counter < 1000 then setenvStr es tmpname value
  -- too many same-name env variables, ignoring
  else some es

/-- `make_env_array(es, check_allowed, gc)` up to its `NULL` terminator, with `env_allowed` as the
test `allowed`. -/
def makeEnvArray (es : EnvSet) (checkAllowed : Bool) (allowed : List UInt8 → Bool) :
    List (List UInt8) :=
  es.list.filter fun s => !checkAllowed || allowed s

end OpenVpn
