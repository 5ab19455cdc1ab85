import Nacapp.Manager.Service

/-!
# The arguments of a read

`parseReadArgs` cuts the arguments of a read in three: the location, the key type and the
arguments behind it.  The cut is at the first component that is a key type, wherever it
stands; where there is none, the loop ends past the last component and all of it is location.
`onRead` then compares the URI of the second part.

* `parseReadArgs_eq_loop`: the position of the cut is where the loop of the source stops.
* `parseReadArgs_eq_iff`: the parts are the one way to cut the arguments at their first key type.
* `onRead_arguments`: these parts, and the handler that `onRead` calls with them.
-/

namespace Nacapp

/-- One of the two components that `parseReadArgs` looks for. -/
def IsKeyType (c : Component) : Prop := c = NAME_COMPONENT_E_KEY ∨ c = NAME_COMPONENT_D_KEY

instance : DecidablePred IsKeyType := fun c =>
  inferInstanceAs (Decidable (c = NAME_COMPONENT_E_KEY ∨ c = NAME_COMPONENT_D_KEY))

namespace Service

/-! ## The loop -/

/-- The loop of `parseReadArgs`, from `pos` on: it breaks at a key type, or runs past the end. -/
def keyTypePos (args : Name) (pos : ℕ) : ℕ :=
  match _h : args[pos]? with
  | some c => if IsKeyType c then pos else keyTypePos args (pos + 1)
  | none => pos
termination_by args.length - pos
decreasing_by
  obtain ⟨hlt, -⟩ := List.getElem?_eq_some_iff.mp _h
  omega

/-- The loop passes over the components that are no key type. -/
theorem keyTypePos_eq (args : Name) (pos : ℕ) :
    keyTypePos args pos =
      pos + ((args.drop pos).takeWhile fun c =>
        c ≠ NAME_COMPONENT_E_KEY ∧ c ≠ NAME_COMPONENT_D_KEY).length := by
  induction pos using keyTypePos.induct args with
  | case1 pos c hget hkey =>
    have hstop : ¬ decide (c ≠ NAME_COMPONENT_E_KEY ∧ c ≠ NAME_COMPONENT_D_KEY) = true := by
      rw [decide_eq_true_eq, ← not_or]
      exact not_not.mpr hkey
    obtain ⟨hlt, rfl⟩ := List.getElem?_eq_some_iff.mp hget
    rw [keyTypePos, hget]
    dsimp only
    rw [if_pos hkey, List.drop_eq_getElem_cons hlt, List.takeWhile_cons, if_neg hstop]
    rfl
  | case2 pos c hget hkey ih =>
    have hpass : decide (c ≠ NAME_COMPONENT_E_KEY ∧ c ≠ NAME_COMPONENT_D_KEY) = true := by
      rw [decide_eq_true_eq, ← not_or]
      exact hkey
    obtain ⟨hlt, rfl⟩ := List.getElem?_eq_some_iff.mp hget
    rw [keyTypePos, hget]
    dsimp only
    rw [if_neg hkey, ih, List.drop_eq_getElem_cons hlt, List.takeWhile_cons, if_pos hpass,
      List.length_cons]
    omega
  | case3 pos hget =>
    rw [keyTypePos, hget, List.drop_eq_nil_iff.mpr (List.getElem?_eq_none_iff.mp hget)]
    rfl

/-- **The loop.**  The arguments are cut where it stops. -/
theorem parseReadArgs_eq_loop (args : Name) :
    parseReadArgs args =
      let pos := keyTypePos args 0
      (args.getSubName 0 pos, args.getSubName pos 1, args.getSubNameFrom (pos + 1)) := by
  rw [parseReadArgs, keyTypePos_eq, List.drop_zero, Nat.zero_add]

/-! ## The parts -/

/-- The arguments of a read are cut at the first key type. -/
theorem parseReadArgs_append {t rest : Name} {keyType : Component}
    (ht : ∀ c ∈ t, c ≠ NAME_COMPONENT_E_KEY ∧ c ≠ NAME_COMPONENT_D_KEY)
    (hkey : keyType = NAME_COMPONENT_E_KEY ∨ keyType = NAME_COMPONENT_D_KEY) :
    parseReadArgs (t ++ keyType :: rest) = (t, [keyType], rest) := by
  have htake : (t ++ keyType :: rest).takeWhile
      (fun c => c ≠ NAME_COMPONENT_E_KEY ∧ c ≠ NAME_COMPONENT_D_KEY) = t := by
    have hstop : ¬ decide (keyType ≠ NAME_COMPONENT_E_KEY ∧ keyType ≠ NAME_COMPONENT_D_KEY) =
        true := by
      rcases hkey with rfl | rfl <;> decide
    rw [List.takeWhile_append_of_pos fun c hc => decide_eq_true (ht c hc),
      List.takeWhile_cons, if_neg hstop, List.append_nil]
  rw [parseReadArgs, htake, Name.getSubName_length_append, Name.getSubName, Name.getSubNameFrom,
    List.drop_zero, List.take_left, List.take_succ_cons, List.take_zero]
  have hdrop : (t ++ keyType :: rest).drop (t.length + 1) = rest := by
    rw [← List.drop_drop, List.drop_left, List.drop_one, List.tail_cons]
  rw [hdrop]

/-- A second key type is one of the arguments behind the first. -/
example : parseReadArgs [Component.of "health", NAME_COMPONENT_D_KEY, NAME_COMPONENT_E_KEY] =
    ([Component.of "health"], [NAME_COMPONENT_D_KEY], [NAME_COMPONENT_E_KEY]) := by decide

/-- Without a key type, all of the arguments are location. -/
theorem parseReadArgs_of_free {args : Name} (h : ∀ c ∈ args, ¬ IsKeyType c) :
    parseReadArgs args = (args, [], []) := by
  have htake : args.takeWhile
      (fun c => c ≠ NAME_COMPONENT_E_KEY ∧ c ≠ NAME_COMPONENT_D_KEY) = args :=
    List.takeWhile_eq_self_iff.mpr fun c hc => decide_eq_true (not_or.mp (h c hc))
  rw [parseReadArgs, htake, Name.getSubName, Name.getSubName, Name.getSubNameFrom, List.drop_zero,
    List.take_length, List.drop_length, List.drop_eq_nil_of_le (Nat.le_succ _)]
  rfl

/-- The parts of `args` when these are cut at their first key type. -/
structure ReadParts (args location keyType keyArgs : Name) : Prop where
  append : location ++ keyType ++ keyArgs = args
  location_free : NAME_COMPONENT_E_KEY ∉ location ∧ NAME_COMPONENT_D_KEY ∉ location
  keyType_eq : keyType = (args.find? (IsKeyType ·)).toList
  keyType_eq_nil : keyType = [] ↔ NAME_COMPONENT_E_KEY ∉ args ∧ NAME_COMPONENT_D_KEY ∉ args
  keyArgs_eq_nil : keyType = [] → keyArgs = []

/-- Neither of the two tokens is there when no component is a key type. -/
theorem notMem_keyTypes_iff {n : Name} :
    (NAME_COMPONENT_E_KEY ∉ n ∧ NAME_COMPONENT_D_KEY ∉ n) ↔ ∀ c ∈ n, ¬ IsKeyType c := by
  constructor
  · rintro ⟨hekey, hdkey⟩ c hc (rfl | rfl)
    · exact hekey hc
    · exact hdkey hc
  · intro h
    exact ⟨fun hmem => h _ hmem (Or.inl rfl), fun hmem => h _ hmem (Or.inr rfl)⟩

/-- **The parts of the arguments** are those at their first key type. -/
theorem readParts_parseReadArgs (args : Name) :
    ReadParts args (parseReadArgs args).1 (parseReadArgs args).2.1 (parseReadArgs args).2.2 := by
  cases hfind : args.find? (IsKeyType ·) with
  | none =>
    have hfree : ∀ c ∈ args, ¬ IsKeyType c := fun c hc hkey =>
      List.find?_eq_none.mp hfind c hc (decide_eq_true hkey)
    rw [parseReadArgs_of_free hfree]
    refine ⟨?_, notMem_keyTypes_iff.mpr hfree, ?_, iff_of_true rfl (notMem_keyTypes_iff.mpr hfree),
      fun _ => rfl⟩
    · rw [List.append_nil, List.append_nil]
    · rw [hfind]
      rfl
  | some keyType =>
    obtain ⟨hkey, location, keyArgs, rfl, hlocation⟩ := List.find?_eq_some_iff_append.mp hfind
    have hkey : IsKeyType keyType := of_decide_eq_true hkey
    have hfree : ∀ c ∈ location, ¬ IsKeyType c := fun c hc =>
      of_decide_eq_false (Bool.not_eq_true' _ ▸ hlocation c hc)
    rw [parseReadArgs_append (fun c hc => not_or.mp (hfree c hc)) hkey]
    refine ⟨?_, notMem_keyTypes_iff.mpr hfree, ?_, iff_of_false (List.cons_ne_nil _ _) ?_,
      fun h => absurd h (List.cons_ne_nil _ _)⟩
    · rw [List.append_assoc, List.singleton_append]
    · rw [hfind]
      rfl
    · intro h
      exact notMem_keyTypes_iff.mp h keyType (List.mem_append_right _ List.mem_cons_self) hkey

/-- The arguments are cut in one way only. -/
theorem parseReadArgs_eq_iff {args location keyType keyArgs : Name} :
    parseReadArgs args = (location, keyType, keyArgs) ↔
      ReadParts args location keyType keyArgs := by
  constructor
  · intro h
    have hparts := readParts_parseReadArgs args
    rw [h] at hparts
    exact hparts
  · intro h
    have happend := h.append
    have hfound := h.keyType_eq
    cases hfind : args.find? (IsKeyType ·) with
    | none =>
      rw [hfind, Option.toList_none] at hfound
      rw [hfound, h.keyArgs_eq_nil hfound, List.append_nil, List.append_nil] at happend
      rw [happend, hfound, h.keyArgs_eq_nil hfound]
      exact parseReadArgs_of_free (notMem_keyTypes_iff.mp (h.keyType_eq_nil.mp hfound))
    | some c =>
      have hkey := List.find?_some hfind
      rw [decide_eq_true_eq] at hkey
      rw [hfind, Option.toList_some] at hfound
      rw [hfound, List.append_assoc, List.singleton_append] at happend
      rw [← happend, hfound]
      exact parseReadArgs_append
        (fun c hc => not_or.mp (notMem_keyTypes_iff.mp h.location_free c hc)) hkey

/-! ## The handlers -/

/-- The Data of a read that asks for no key. -/
def invalidRead (data : Data) : Data :=
  (data.setContentType ContentType_Nack).setContent (bytes "invalid pattern for path /READ")

variable {L : GroupLib} (E : ServiceEnv) (s : Service L) (i : Interest) (data : Data)

/-- **What is called** for the key type that stands first. -/
theorem onRead_of_parts {args location keyType keyArgs : Name}
    (h : parseReadArgs args = (location, keyType, keyArgs)) :
    (keyType = [NAME_COMPONENT_E_KEY] →
      s.onRead E i args data = s.onGetEKey E i location data) ∧
    (keyType = [NAME_COMPONENT_D_KEY] →
      s.onRead E i args data = s.onGetDKey E location keyArgs data) ∧
    (keyType = [] →
      s.onRead E i args data = some (s, ⟨[], invalidRead data, .ok false⟩)) := by
  rw [onRead, h]
  dsimp only
  refine ⟨?_, ?_, ?_⟩
  · rintro rfl
    rw [if_pos (by decide)]
  · rintro rfl
    rw [if_neg (by decide), if_pos (by decide)]
  · rintro rfl
    rw [if_neg (by decide), if_neg (by decide)]
    rfl

/-- **A read is cut at its first key type and answered accordingly.**  The parts are all of the
arguments, and arguments that are written as a location without a key type, a key type and
anything else come apart into these. -/
theorem onRead_arguments (args : Name) :
    (∃ location keyType keyArgs, parseReadArgs args = (location, keyType, keyArgs) ∧
      ReadParts args location keyType keyArgs ∧
      (keyType = [NAME_COMPONENT_E_KEY] →
        s.onRead E i args data = s.onGetEKey E i location data) ∧
      (keyType = [NAME_COMPONENT_D_KEY] →
        s.onRead E i args data = s.onGetDKey E location keyArgs data) ∧
      (keyType = [] →
        s.onRead E i args data = some (s, ⟨[], invalidRead data, .ok false⟩))) ∧
    ∀ (location rest : Name) (token : Component),
      NAME_COMPONENT_E_KEY ∉ location → NAME_COMPONENT_D_KEY ∉ location →
      (token = NAME_COMPONENT_E_KEY ∨ token = NAME_COMPONENT_D_KEY) →
        parseReadArgs (location ++ [token] ++ rest) = (location, [token], rest) := by
  refine ⟨⟨_, _, _, rfl, readParts_parseReadArgs args, onRead_of_parts E s i data rfl⟩, ?_⟩
  intro location rest token hekey hdkey htoken
  rw [List.append_assoc, List.singleton_append]
  exact parseReadArgs_append
    (fun c hc => not_or.mp (notMem_keyTypes_iff.mp ⟨hekey, hdkey⟩ c hc)) htoken

end Service
end Nacapp
