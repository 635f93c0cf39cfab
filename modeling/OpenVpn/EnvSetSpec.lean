import OpenVpn.EnvSet
import Mathlib.Data.List.Pairwise

/-! An environment set stands for the map from a name to the string of that name. The name of a
string is what comes before its first `=` (`envName`), and `env_string_equal` compares names.
`env_set_add` and `env_set_del` update the map at one name and keep the names distinct, and
`setenv_str` updates it at the sanitised name. `setenv_str_incr` probes with the name it was given,
not the sanitised one: a name with a character outside `CC_NAME` misses the variable `setenv_str`
stored for it, and the variable is overwritten. -/

namespace OpenVpn

/-- The name of an environment string: its bytes before the first `=` or `0`. -/
def envName (s : List UInt8) : List UInt8 := s.takeWhile fun c => envChar c ≠ 0

@[simp] theorem envName_nil : envName [] = [] := rfl

theorem envName_cons (c : UInt8) (s : List UInt8) :
    envName (c :: s) = if envChar c ≠ 0 then c :: envName s else [] := by
  simp [envName, List.takeWhile_cons]

/-- A character that `env_string_equal` does not turn into `0` is itself. -/
theorem envChar_of_ne_zero {c : UInt8} (h : envChar c ≠ 0) : envChar c = c := by
  unfold envChar at h ⊢
  split_ifs at h ⊢ with hc
  · exact absurd rfl h
  · rfl

/-- `env_string_equal` compares the names. -/
theorem envStringEqual_eq (s1 s2 : List UInt8) :
    envStringEqual s1 s2 = decide (envName s1 = envName s2) := by
  fun_induction envStringEqual s1 s2 with
  | case1 c1 s1 c2 s2 h => simp [envName_cons, h.1, h.2]
  | case2 c1 s1 c2 s2 h hne =>
      -- the names end at different places or differ in their first byte
      rw [envName_cons, envName_cons]
      by_cases h₁ : envChar c1 = 0 <;> by_cases h₂ : envChar c2 = 0
      · exact absurd ⟨h₁, h₂⟩ h
      · simp [h₁, h₂]
      · simp [h₁, h₂]
      · have : c1 ≠ c2 := by rwa [envChar_of_ne_zero h₁, envChar_of_ne_zero h₂] at hne
        simp [h₁, h₂, this]
  | case3 c1 s1 c2 s2 h hne ih =>
      have heq : envChar c1 = envChar c2 := not_not.mp hne
      have h₁ : envChar c1 ≠ 0 := fun h₁ => h ⟨h₁, heq ▸ h₁⟩
      have h₂ : envChar c2 ≠ 0 := heq ▸ h₁
      have hc : c1 = c2 := by rw [← envChar_of_ne_zero h₁, ← envChar_of_ne_zero h₂, heq]
      rw [ih, envName_cons, envName_cons, if_pos h₁, if_pos h₂, hc]
      simp
  | case4 c1 s1 => by_cases h : envChar c1 = 0 <;> simp [envName_cons, h]
  | case5 c2 s2 => by_cases h : envChar c2 = 0 <;> simp [envName_cons, h]
  | case6 => rfl

section Map

variable {l : List (List UInt8)} {s k : List UInt8}

/-- `env_set_get` finds the first string with the name. -/
theorem envSetGet_eq (es : EnvSet) (k : List UInt8) :
    envSetGet es k = es.list.find? fun item => envName item = envName k := by
  simp only [envSetGet, envStringEqual_eq]

/-- No two strings of the list have the same name. -/
def EnvDistinct (l : List (List UInt8)) : Prop :=
  l.Pairwise fun a b => envName a ≠ envName b

instance (l : List (List UInt8)) : Decidable (EnvDistinct l) :=
  inferInstanceAs (Decidable (l.Pairwise _))

theorem removeEnvItem_cons_fst (s current : List UInt8) (rest : List (List UInt8)) :
    (removeEnvItem s (current :: rest)).1 =
      if envName current = envName s then rest else current :: (removeEnvItem s rest).1 := by
  simp only [removeEnvItem, envStringEqual_eq, decide_eq_true_eq]
  split_ifs <;> rfl

/-- `remove_env_item` leaves the strings of every other name where they were. -/
theorem find?_removeEnvItem (hk : envName s ≠ envName k) (l : List (List UInt8)) :
    (removeEnvItem s l).1.find? (fun item => envName item = envName k) =
      l.find? fun item => envName item = envName k := by
  induction l with
  | nil => rfl
  | cons current rest ih =>
      rw [removeEnvItem_cons_fst]
      by_cases h : envName current = envName s
      · rw [if_pos h, List.find?_cons_of_neg (by simpa [h] using hk)]
      · rw [if_neg h, List.find?_cons, List.find?_cons, ih]

/-- `remove_env_item` on distinct names removes the string of the name. -/
theorem removeEnvItem_eq (hl : EnvDistinct l) (s : List UInt8) :
    (removeEnvItem s l).1 = l.filter fun a => envName a ≠ envName s := by
  induction l with
  | nil => rfl
  | cons current rest ih =>
      obtain ⟨hcur, hrest⟩ := List.pairwise_cons.mp hl
      rw [removeEnvItem_cons_fst]
      by_cases h : envName current = envName s
      · -- no other string has the name
        rw [if_pos h, List.filter_cons_of_neg (by simp [h]), List.filter_eq_self.mpr]
        intro a ha
        simpa [← h] using (hcur a ha).symm
      · rw [if_neg h, ih hrest, List.filter_cons_of_pos (by simp [h])]

/-- The map after `env_set_add(es, s)`: `s` at its name, the rest as before. -/
theorem envSetGet_envSetAdd (es : EnvSet) (s k : List UInt8) :
    envSetGet (envSetAdd es s) k = if envName s = envName k then some s else envSetGet es k := by
  rw [envSetGet_eq, envSetGet_eq, envSetAdd, List.find?_cons]
  by_cases h : envName s = envName k
  · simp [h]
  · simp only [h, decide_false, if_false]
    exact find?_removeEnvItem h es.list

/-- The map after `env_set_del(es, s)`: nothing at `s`'s name, the rest as before. -/
theorem envSetGet_envSetDel {es : EnvSet} (hl : EnvDistinct es.list) (s k : List UInt8) :
    envSetGet (envSetDel es s).1 k = if envName s = envName k then none else envSetGet es k := by
  simp only [envSetGet_eq, envSetDel, removeEnvItem_eq hl, List.find?_filter]
  by_cases h : envName s = envName k
  · rw [if_pos h, List.find?_eq_none]
    intro a _
    simp [h]
  · rw [if_neg h]
    congr 1
    funext a
    by_cases ha : envName a = envName k <;> simp [ha, Ne.symm h]

theorem EnvDistinct.removeEnvItem (hl : EnvDistinct l) (s : List UInt8) :
    EnvDistinct (OpenVpn.removeEnvItem s l).1 := by
  rw [removeEnvItem_eq hl]
  exact hl.filter _

/-- `env_set_add` keeps the names distinct: the old string of the name goes first. -/
theorem EnvDistinct.envSetAdd {es : EnvSet} (hl : EnvDistinct es.list) (s : List UInt8) :
    EnvDistinct (OpenVpn.envSetAdd es s).list := by
  refine List.pairwise_cons.mpr ⟨fun a ha => ?_, hl.removeEnvItem s⟩
  rw [removeEnvItem_eq hl] at ha
  have hne := (List.mem_filter.mp ha).2
  exact Ne.symm (by simpa using hne)

theorem EnvDistinct.envSetDel {es : EnvSet} (hl : EnvDistinct es.list) (s : List UInt8) :
    EnvDistinct (OpenVpn.envSetDel es s).1.list :=
  hl.removeEnvItem s

end Map

section Setenv

variable {es : EnvSet} {name : List UInt8}

/-- The name `setenv_str` stores: `CC_NAME` characters only, the others deleted. -/
def sanitizedName (name : List UInt8) : List UInt8 := stringModConst name ccName 0 0

/-- The value `setenv_str` stores: `CC_PRINT` characters only, the others deleted. -/
def sanitizedValue (value : List UInt8) : List UInt8 := stringModConst value ccPrint 0 0

/-- With a `0` replacement, `string_mod` keeps only characters of the class, and no `0`. -/
theorem mem_stringMod {inclusive exclusive : Nat} {str : List UInt8} {c : UInt8}
    (hc : c ∈ (stringMod inclusive exclusive 0 str).1) :
    charIncExc c inclusive exclusive = true ∧ c ≠ 0 := by
  fun_induction stringMod inclusive exclusive 0 str with
  | case1 => simp at hc
  | case2 => simp at hc
  | case3 c' rest h out ret hrec ok c'' ih =>
      rw [hrec] at ih
      by_cases hok : ok = true
      · simp only [c'', hok, if_true, ne_eq, h, not_false_eq_true, List.mem_cons] at hc
        rcases hc with rfl | hc
        · exact ⟨hok, h⟩
        · exact ih hc
      · simp only [c'', hok, Bool.false_eq_true, if_false, ne_eq, not_true_eq_false] at hc
        exact ih hc

/-- A `CC_NAME` character is not `=`. -/
theorem ne_equalSign_of_charClass {c : UInt8} (h : charClass c ccName = true) : c ≠ equalSign := by
  rintro rfl
  exact absurd h (by decide)

/-- A name of neither `=` nor `0` is all of the name of what it starts. -/
theorem envName_append {name : List UInt8} (h : ∀ c ∈ name, c ≠ 0 ∧ c ≠ equalSign)
    (rest : List UInt8) : envName (name ++ rest) = name ++ envName rest := by
  induction name with
  | nil => rfl
  | cons c name ih =>
      have hc := h c List.mem_cons_self
      have hchar : envChar c ≠ 0 := by simpa [envChar, hc.2] using hc.1
      rw [List.cons_append, envName_cons, if_pos hchar,
        ih fun c' hc' => h c' (List.mem_cons_of_mem c hc'), List.cons_append]

theorem envName_constructNameValue {name : List UInt8} (h : ∀ c ∈ name, c ≠ 0 ∧ c ≠ equalSign)
    (value : List UInt8) : envName (constructNameValue name value) = name := by
  rw [constructNameValue, envName_append h, envName_cons, if_neg (by simp [envChar]),
    List.append_nil]

theorem sanitizedName_chars (name : List UInt8) :
    ∀ c ∈ sanitizedName name, c ≠ 0 ∧ c ≠ equalSign := by
  intro c hc
  obtain ⟨hok, h0⟩ := mem_stringMod hc
  have hcls : charClass c ccName = true := by
    simpa [charIncExc, charClass] using hok
  exact ⟨h0, ne_equalSign_of_charClass hcls⟩

@[simp] theorem envName_sanitizedName (name : List UInt8) :
    envName (sanitizedName name) = sanitizedName name := by
  simpa using envName_append (sanitizedName_chars name) []

/-- `setenv_str` sets the map at the sanitised name to the sanitised `name=value` string, or
removes it for a `NULL` value, and leaves every other name as it was. -/
theorem setenvStr_spec (hl : EnvDistinct es.list) (hlen : 1 < strlen name)
    (value : Option (List UInt8)) :
    ∃ es', setenvStr es name value = some es' ∧ EnvDistinct es'.list ∧
      ∀ k, envSetGet es' k = if sanitizedName name = envName k then
        value.map (fun v => constructNameValue (sanitizedName name) (sanitizedValue v))
      else envSetGet es k := by
  have hname := envName_constructNameValue (sanitizedName_chars name)
  cases value with
  | none =>
      refine ⟨(envSetDel es (sanitizedName name)).1, ?_, hl.envSetDel _, fun k => ?_⟩
      · simp only [setenvStr, setenvStrEx, if_neg (Nat.not_le.mpr hlen)]
        rfl
      · rw [envSetGet_envSetDel hl, envName_sanitizedName]
        rfl
  | some v =>
      refine ⟨envSetAdd es (constructNameValue (sanitizedName name) (sanitizedValue v)), ?_,
        hl.envSetAdd _, fun k => ?_⟩
      · simp only [setenvStr, setenvStrEx, if_neg (Nat.not_le.mpr hlen)]
        rfl
      · rw [envSetGet_envSetAdd, hname]
        rfl

/-- In a set of distinct names, the string `env_set_get` finds is the only one of its name. -/
theorem EnvDistinct.eq_of_envSetGet (hl : EnvDistinct es.list) {k x y : List UInt8}
    (hx : envSetGet es k = some x) (hy : y ∈ es.list) (hk : envName y = envName k) : y = x := by
  rw [envSetGet_eq] at hx
  have hxmem := List.mem_of_find?_eq_some hx
  have hxk : envName x = envName k := by simpa using List.find?_some hx
  have : Std.Symm fun a b : List UInt8 => envName a ≠ envName b := ⟨fun _ _ h => Ne.symm h⟩
  by_contra hne
  exact hl.forall hy hxmem hne (hk.trans hxk.symm)

/-- `setenv_str_incr` probes with the name as given. When that name misses, the loop stops at
once and `setenv_str` sets the sanitised name: a variable that is already there under the
sanitised name is replaced, not kept. -/
theorem setenv_str_incr_overwrites_unsanitised_name (hl : EnvDistinct es.list)
    (hlen : 1 < strlen name) (hraw : envSetGet es name = none) {old : List UInt8}
    (hold : envSetGet es (sanitizedName name) = some old) (value : List UInt8) :
    ∃ es', setenvStrIncr es name (some value) = some es' ∧
      envSetGet es' (sanitizedName name) =
        some (constructNameValue (sanitizedName name) (sanitizedValue value)) ∧
      (old ≠ constructNameValue (sanitizedName name) (sanitizedValue value) → old ∉ es'.list) := by
  have hloop : setenvStrIncrLoop es name 999 1 name = (1, name) := by
    rw [show (999 : Nat) = 998 + 1 from rfl, setenvStrIncrLoop, if_neg (by simp [hraw])]
  obtain ⟨es', hset, hd, hget⟩ := setenvStr_spec hl hlen (some value)
  have hnew : envSetGet es' (sanitizedName name) =
      some (constructNameValue (sanitizedName name) (sanitizedValue value)) := by
    rw [hget, if_pos (envName_sanitizedName name).symm]
    rfl
  refine ⟨es', ?_, hnew, fun hne hmem => hne ?_⟩
  · simp only [setenvStrIncr, hloop]
    exact hset
  · -- the old string still has the sanitised name, which the new one holds alone
    have hkold : envName old = envName (sanitizedName name) := by
      rw [envSetGet_eq] at hold
      simpa using List.find?_some hold
    exact hd.eq_of_envSetGet hnew hmem hkold

/-- `setenv_str_incr(es, "a-b", "2")` on the set `{ab=1}`: the probe for `a-b` misses `ab=1`, and
`ab=1` is replaced by `ab=2`. -/
theorem setenv_str_incr_replaces_ab_1 :
    ∃ es', setenvStrIncr ⟨[[97, 98, 61, 49]]⟩ [97, 45, 98] (some [50]) = some es' ∧
      envSetGet es' [97, 98] = some [97, 98, 61, 50] ∧ [97, 98, 61, 49] ∉ es'.list := by
  obtain ⟨es', hset, hget, hgone⟩ := @setenv_str_incr_overwrites_unsanitised_name
    ⟨[[97, 98, 61, 49]]⟩ [97, 45, 98] (by decide) (by decide) (by decide) [97, 98, 61, 49]
    (by decide) [50]
  have hname : sanitizedName [97, 45, 98] = [97, 98] := by decide
  have hvalue : sanitizedValue [50] = [50] := by decide
  rw [hname, hvalue] at hget hgone
  exact ⟨es', hset, hget, hgone (by decide)⟩

end Setenv

end OpenVpn
