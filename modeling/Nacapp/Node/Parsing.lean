import Nacapp.Lib.PrefixScan
import Nacapp.Node.Dispatch

/-!
# Splitting the name of an interest

`parseInterestName` cuts a name into the prefix of the node, a path of the table and
arguments.  The path is searched in map order, the order of names in which a path comes
before its extensions, and the first one the rest of the name continues with is taken.

* `findPath_append`: the search is a scan of sorted words for a prefix.
* `parseInterestName_eq`: what parsing gives under the prefix of the node;
  `parseInterestName_isOk_iff` says when it gives anything.
* `parseInterestName_splits`: nothing of the name is lost, and the path is registered
  unless there is nothing to find.
* `selectsLongest_iff`, `mostSpecific_iff`: of nested routes the shortest is taken, so a
  route is shadowed by every registered route, the default one apart, that it extends.
-/

namespace Nacapp
namespace NodeImpl

open PrefixScan

variable {σ : Type} (n : NodeImpl σ)

/-! ## The search -/

/-- The registered paths the search looks at: all but the default one, in map order. -/
def searchedPaths : List Name := n.handlers.keys.filter (· ≠ [])

theorem mem_searchedPaths {p : Name} :
    p ∈ n.searchedPaths ↔ p ∈ n.handlers.keys ∧ p ≠ [] := by
  rw [searchedPaths, List.mem_filter, decide_eq_true_eq]

theorem searchedPaths_sorted : n.searchedPaths.Pairwise fun p q => compare p q = .lt :=
  (Std.ExtTreeMap.ordered_keys (t := n.handlers)).filter _

/-- The search is a scan for a prefix of what follows the prefix of the node. -/
theorem findPath_append (rest : Name) :
    n.findPath (n.nodePrefix ++ rest) = firstPrefix n.searchedPaths rest := by
  rw [findPath, firstPrefix, searchedPaths, List.find?_filter]
  congr 1
  funext p
  rw [Name.getSubName_length_append, Bool.eq_iff_iff]
  simp only [Bool.and_eq_true, decide_eq_true_eq, beq_iff_eq, List.isPrefixOf_iff_prefix,
    List.prefix_iff_eq_take, NODE_DEFAULT_PATH, ne_eq, Name.toUri_eq_slash_iff]

/-- The path parsing gives for a name that continues with `rest`. -/
def selectedPath (rest : Name) : Name := (firstPrefix n.searchedPaths rest).getD []

theorem selectedPath_prefix (rest : Name) : n.selectedPath rest <+: rest := by
  rw [selectedPath]
  cases h : firstPrefix n.searchedPaths rest with
  | none => exact List.nil_prefix
  | some p => exact (mem_of_firstPrefix_eq_some h).2

/-- The path is the default one exactly when nothing else fits. -/
theorem selectedPath_eq_nil_iff (rest : Name) :
    n.selectedPath rest = [] ↔ ∀ p ∈ n.handlers.keys, p ≠ [] → ¬ p <+: rest := by
  have hnone : n.selectedPath rest = [] ↔ firstPrefix n.searchedPaths rest = none := by
    rw [selectedPath]
    cases h : firstPrefix n.searchedPaths rest with
    | none => exact iff_of_true rfl rfl
    | some p =>
      have hp := (n.mem_searchedPaths.mp (mem_of_firstPrefix_eq_some h).1).2
      exact iff_of_false hp (Option.some_ne_none p)
  rw [hnone, firstPrefix_eq_none_iff]
  simp only [mem_searchedPaths, and_imp]

theorem selectedPath_mem_of_ne_nil {rest : Name} (h : n.selectedPath rest ≠ []) :
    n.selectedPath rest ∈ n.handlers.keys := by
  rw [selectedPath] at h ⊢
  cases hfind : firstPrefix n.searchedPaths rest with
  | none =>
    rw [hfind] at h
    exact absurd rfl h
  | some p => exact (n.mem_searchedPaths.mp (mem_of_firstPrefix_eq_some hfind).1).1

/-- Every other path that fits extends the selected one. -/
theorem selectedPath_prefix_of_mem {rest p : Name} (hp : p ∈ n.handlers.keys) (hne : p ≠ [])
    (hfits : p <+: rest) : n.selectedPath rest <+: p := by
  rw [selectedPath]
  cases h : firstPrefix n.searchedPaths rest with
  | none => exact List.nil_prefix
  | some q =>
    exact prefix_of_firstPrefix_eq_some n.searchedPaths_sorted h
      (n.mem_searchedPaths.mpr ⟨hp, hne⟩) hfits

/-! ## What parsing gives -/

/-- **Parsing under the prefix of the node.** -/
theorem parseInterestName_eq {i : Interest} {rest : Name} (h : i.name = n.nodePrefix ++ rest) :
    n.parseInterestName i =
      .ok ⟨n.nodePrefix, n.selectedPath rest, rest.drop (n.selectedPath rest).length⟩ := by
  rw [n.parseInterestName_of_append h, h, findPath_append, selectedPath]
  cases hfind : firstPrefix n.searchedPaths rest with
  | none => simp [Name.getSubNameFrom]
  | some p =>
    have hp := List.prefix_iff_eq_take.mp (mem_of_firstPrefix_eq_some hfind).2
    simp only [Name.getSubName_length_append, ← hp, Name.getSubNameFrom, Option.getD_some,
      List.drop_append, List.drop_eq_nil_of_le (Nat.le_add_right _ _), List.nil_append,
      Nat.add_sub_cancel_left]

/-- Outside the prefix of the node nothing parses. -/
theorem prefix_of_parseInterestName_eq_ok {i : Interest} {parts : ParsedName}
    (h : n.parseInterestName i = .ok parts) : n.nodePrefix <+: i.name :=
  (List.prefix_append _ _).trans (n.prefix_of_parseInterestName h)

theorem parseInterestName_isOk_iff (i : Interest) :
    (∃ parts, n.parseInterestName i = .ok parts) ↔ n.nodePrefix <+: i.name := by
  constructor
  · rintro ⟨parts, h⟩
    exact n.prefix_of_parseInterestName_eq_ok h
  · rintro ⟨rest, hrest⟩
    exact ⟨_, n.parseInterestName_eq hrest.symm⟩

/-- What it is for the parts of a name to be a split of it: nothing is lost, and the path
is registered or the default one. -/
structure IsSplit (name : Name) (parts : ParsedName) : Prop where
  lossless : parts.namePrefix ++ parts.path ++ parts.args = name
  namePrefix_eq : parts.namePrefix = n.nodePrefix
  path_registered : parts.path ≠ [] → parts.path ∈ n.handlers.keys ∧
    parts.path <+: name.drop n.nodePrefix.length
  path_default_iff : parts.path = [] ↔
    ∀ p ∈ n.handlers.keys, p ≠ [] → ¬ p <+: name.drop n.nodePrefix.length

theorem isSplit_of_parseInterestName {i : Interest} {parts : ParsedName}
    (h : n.parseInterestName i = .ok parts) : n.IsSplit i.name parts := by
  obtain ⟨rest, hrest⟩ := n.prefix_of_parseInterestName_eq_ok h
  rw [n.parseInterestName_eq hrest.symm] at h
  have hdrop : i.name.drop n.nodePrefix.length = rest := by rw [← hrest, List.drop_left]
  rw [← Except.ok.inj h]
  refine ⟨?_, rfl, fun hne => ⟨n.selectedPath_mem_of_ne_nil hne, ?_⟩, ?_⟩
  · have hpath := List.prefix_iff_eq_append.mp (n.selectedPath_prefix rest)
    rw [List.append_assoc, hpath, hrest]
  · rw [hdrop]
    exact n.selectedPath_prefix rest
  · rw [hdrop]
    exact n.selectedPath_eq_nil_iff rest

/-- A route that extends no other is found again, whatever the arguments. -/
theorem selectedPath_append {r : Name} (hr : r ∈ n.handlers.keys) (hne : r ≠ [])
    (hroot : ∀ p ∈ n.handlers.keys, p ≠ [] → p <+: r → p = r) (args : Name) :
    n.selectedPath (r ++ args) = r := by
  have hfind : firstPrefix n.searchedPaths (r ++ args) = some r := by
    refine (firstPrefix_eq_some_iff n.searchedPaths_sorted).mpr
      ⟨n.mem_searchedPaths.mpr ⟨hr, hne⟩, List.prefix_append r args, fun p hp hfits => ?_⟩
    obtain ⟨hp, hpne⟩ := n.mem_searchedPaths.mp hp
    rcases List.prefix_or_prefix_of_prefix hfits (List.prefix_append r args) with hpr | hrp
    · exact hroot p hp hpne hpr ▸ List.prefix_rfl
    · exact hrp
  rw [selectedPath, hfind, Option.getD_some]

/-- **Parsing is a lossless, sound and complete split.**  It succeeds under the prefix of the
node and nowhere else, and its parts are a split of the name.  Where no route extends another,
the default one apart, a name built from a route and arguments is split into these, and under
every installed filter there is a handler. -/
theorem parseInterestName_splits :
    (∀ i, (∃ parts, n.parseInterestName i = .ok parts) ↔ n.nodePrefix <+: i.name) ∧
      (∀ i parts, n.parseInterestName i = .ok parts → n.IsSplit i.name parts) ∧
      ((∀ p ∈ n.handlers.keys, ∀ q ∈ n.handlers.keys, p ≠ [] → p <+: q → p = q) →
        ∀ r ∈ n.handlers.keys, r ≠ [] → ∀ (i : Interest) (args : Name),
          i.name = n.nodePrefix ++ r ++ args →
            n.parseInterestName i = .ok ⟨n.nodePrefix, r, args⟩) ∧
      ∀ f ∈ n.registerPrefixes, ∀ i : Interest, f <+: i.name →
        ∃ parts, n.parseInterestName i = .ok parts ∧
          ∃ handler, n.handlers[parts.path]? = some handler := by
  refine ⟨n.parseInterestName_isOk_iff, fun i parts => n.isSplit_of_parseInterestName, ?_, ?_⟩
  · intro hnested r hr hne i args hname
    rw [List.append_assoc] at hname
    rw [n.parseInterestName_eq hname,
      n.selectedPath_append hr hne (fun p hp hpne hpr => hnested p hp r hr hpne hpr) args,
      List.drop_left]
  · intro f hf i hfi
    obtain ⟨p, hp, rfl⟩ := List.mem_map.mp hf
    exact n.exists_handler_of_filter hp hfi

/-! ## Nested routes -/

/-- The path of the interest is the longest one registered that its name continues with. -/
def SelectsLongest (i : Interest) : Prop :=
  ∃ parts, n.parseInterestName i = .ok parts ∧
    ∀ p ∈ n.handlers.keys, p <+: i.name.drop n.nodePrefix.length → p <+: parts.path

/-- The name made of the prefix and the route itself is dispatched to the route. -/
def Reaches (r : Name) : Prop :=
  ∀ i : Interest, i.name = n.nodePrefix ++ r →
    n.parseInterestName i = .ok ⟨n.nodePrefix, r, []⟩

/-- **The longest route wins where only one fits**, the default one not counted. -/
theorem selectsLongest_iff {i : Interest} {rest : Name} (h : i.name = n.nodePrefix ++ rest) :
    n.SelectsLongest i ↔
      ∀ p ∈ n.handlers.keys, ∀ q ∈ n.handlers.keys, p ≠ [] → q ≠ [] →
        p <+: rest → q <+: rest → p = q := by
  have hdrop : i.name.drop n.nodePrefix.length = rest := by rw [h, List.drop_left]
  have hlongest : n.SelectsLongest i ↔
      ∀ p ∈ n.handlers.keys, p <+: rest → p <+: n.selectedPath rest := by
    rw [SelectsLongest, n.parseInterestName_eq h, hdrop]
    constructor
    · rintro ⟨parts, hparts, hall⟩
      rwa [← Except.ok.inj hparts] at hall
    · exact fun hall => ⟨_, rfl, hall⟩
  rw [hlongest]
  cases hfind : firstPrefix n.searchedPaths rest with
  | none =>
    have hdefault : ∀ p ∈ n.handlers.keys, p <+: rest → p = [] := by
      intro p hp hfits
      by_contra hne
      exact firstPrefix_eq_none_iff.mp hfind p (n.mem_searchedPaths.mpr ⟨hp, hne⟩) hfits
    refine iff_of_true (fun p hp hfits => ?_) fun p hp _ _ hne _ hfits _ => ?_
    · rw [hdefault p hp hfits]
      exact List.nil_prefix
    · exact absurd (hdefault p hp hfits) hne
  | some r =>
    have honly := firstPrefix_eq_some_longest_iff n.searchedPaths_sorted hfind
    obtain ⟨hr, hrfits⟩ := mem_of_firstPrefix_eq_some hfind
    obtain ⟨hr, hrne⟩ := n.mem_searchedPaths.mp hr
    simp only [mem_searchedPaths, and_imp] at honly
    rw [selectedPath, hfind, Option.getD_some]
    constructor
    · intro hall p hp q hq hpne hqne hpfits hqfits
      have hone := honly.mp fun u hu _ hufits => hall u hu hufits
      rw [hone p hp hpne hpfits, hone q hq hqne hqfits]
    · intro hone p hp hfits
      by_cases hne : p = []
      · rw [hne]
        exact List.nil_prefix
      · rw [hone p hp r hr hne hrne hfits hrfits]

/-- A route is reached exactly when it extends no other, the default one apart. -/
theorem reaches_iff {r : Name} (hr : r ∈ n.handlers.keys) :
    n.Reaches r ↔ ∀ p ∈ n.handlers.keys, p ≠ [] → p <+: r → p = r := by
  have hselected : n.Reaches r ↔ n.selectedPath r = r := by
    constructor
    · intro hreach
      have hparse := hreach ⟨n.nodePrefix ++ r, []⟩ rfl
      have hsplit : (⟨n.nodePrefix ++ r, []⟩ : Interest).name = n.nodePrefix ++ r := rfl
      rw [n.parseInterestName_eq hsplit] at hparse
      exact congrArg ParsedName.path (Except.ok.inj hparse)
    · intro hpath i hname
      rw [n.parseInterestName_eq hname, hpath, List.drop_length]
  rw [hselected]
  constructor
  · intro hpath p hp hne hpr
    have hge := n.selectedPath_prefix_of_mem hp hne hpr
    rw [hpath] at hge
    exact hpr.eq_of_length (le_antisymm hpr.length_le hge.length_le)
  · intro hroot
    by_cases hne : r = []
    · have hpath := n.selectedPath_prefix r
      rw [hne] at hpath ⊢
      exact List.prefix_nil.mp hpath
    · have hpath := n.selectedPath_append hr hne hroot []
      rwa [List.append_nil] at hpath

/-- **The most specific route wins** for a name exactly when no two routes fit it, the default
one not counted, and is reached by its own name exactly when it extends no other. -/
theorem mostSpecific_iff :
    (∀ i rest, i.name = n.nodePrefix ++ rest →
      (n.SelectsLongest i ↔
        ∀ p ∈ n.handlers.keys, ∀ q ∈ n.handlers.keys, p ≠ [] → q ≠ [] →
          p <+: rest → q <+: rest → p = q)) ∧
      ∀ r ∈ n.handlers.keys,
        (n.Reaches r ↔ ∀ p ∈ n.handlers.keys, p ≠ [] → p <+: r → p = r) :=
  ⟨fun _ _ h => n.selectsLongest_iff h, fun _ hr => n.reaches_iff hr⟩

/-- A table with `/A` and `/A/B`. -/
def shadowingRoutes : NodeImpl Unit :=
  let handler : InterestHandler Unit := fun s _ _ data => (s, ⟨[], data, .ok false⟩)
  (NodeImpl.routeName ⟨[Component.of "P"], ⟨bytes "node"⟩, ∅, [], [], ∅, ∅⟩
    [Component.of "A"] handler [] []).routeName [Component.of "A", Component.of "B"] handler [] []

theorem parseInterestName_shadowingRoutes :
    shadowingRoutes.parseInterestName ⟨[Component.of "P", Component.of "A", Component.of "B"], []⟩ =
      .ok ⟨[Component.of "P"], [Component.of "A"], [Component.of "B"]⟩ := by
  rfl

/-- Of the two routes the longer one is never reached. -/
theorem shadowingRoutes_not_mostSpecific :
    [Component.of "A", Component.of "B"] ∈ shadowingRoutes.handlers.keys ∧
      ¬ shadowingRoutes.Reaches [Component.of "A", Component.of "B"] ∧
      ¬ shadowingRoutes.SelectsLongest
        ⟨[Component.of "P", Component.of "A", Component.of "B"], []⟩ := by
  have hmem : [Component.of "A", Component.of "B"] ∈ shadowingRoutes.handlers.keys := by decide
  refine ⟨hmem, fun h => ?_, fun h => ?_⟩
  · have hparse := h ⟨[Component.of "P", Component.of "A", Component.of "B"], []⟩ rfl
    rw [parseInterestName_shadowingRoutes] at hparse
    exact absurd (congrArg ParsedName.args (Except.ok.inj hparse)) (by decide)
  · obtain ⟨parts, hparse, hlongest⟩ := h
    rw [parseInterestName_shadowingRoutes] at hparse
    have hle := (hlongest _ hmem (by decide)).length_le
    rw [← Except.ok.inj hparse] at hle
    exact absurd hle (by decide)

end NodeImpl
end Nacapp
