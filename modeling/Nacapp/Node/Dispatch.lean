import Mathlib.Data.Finset.Card
import Nacapp.Node.NodeImpl

/-!
# Dispatch

Routing happens twice for an interest.  The face calls back once for every filter that
is a prefix of the name, and there is a filter for every registered path; the callback
does not look at the filter it was called for and parses the name against the whole
table again.  So every call back runs the same handler, and an interest whose name
continues with several registered paths, such as `/` and `/C-KEY`, is handled several
times (`dispatchedOnce_iff`).
-/

namespace Nacapp
namespace NodeImpl

variable {σ : Type} (n : NodeImpl σ)

/-! ## The path found in the table -/

theorem getElem?_handlers_routeHandler (path : Name) (handler : InterestHandler σ) (p : Name) :
    (n.routeHandler path handler).handlers[p]? =
      if path = p then some handler else n.handlers[p]? := by
  show (n.handlers.insert path handler)[p]? = _
  rw [Std.ExtTreeMap.getElem?_insert]
  simp

theorem findPath_eq_some {iname p : Name} (h : n.findPath iname = some p) :
    p ∈ n.handlers.keys ∧ p ≠ [] ∧ p = iname.getSubName n.nodePrefix.length p.length := by
  have hp := List.find?_some h
  rw [Bool.and_eq_true, decide_eq_true_eq, beq_iff_eq] at hp
  refine ⟨List.mem_of_find?_eq_some h, fun hnil => hp.1 ?_, hp.2⟩
  rw [hnil]
  rfl

/-- A registered path other than the default one that the name continues with is never
overlooked. -/
theorem findPath_ne_none {p rest : Name} (hp : p ∈ n.handlers.keys) (hne : p ≠ []) :
    n.findPath (n.nodePrefix ++ (p ++ rest)) ≠ none := by
  intro h
  have hnot := List.find?_eq_none.mp h p hp
  rw [Name.getSubName_length_append, List.take_left] at hnot
  apply hnot
  rw [Bool.and_eq_true, decide_eq_true_eq, beq_self_eq_true]
  exact ⟨fun huri => hne (Name.toUri_eq_slash_iff.mp huri), rfl⟩

theorem filterName_eq (p : Name) : n.filterName p = n.nodePrefix ++ p := by
  rw [filterName]
  split
  · rfl
  · rename_i h
    rw [Name.toUri_eq_slash_iff.mp (not_not.mp h), List.append_nil]

/-- Under the prefix of the node parsing goes by the path that is found. -/
theorem parseInterestName_of_append {i : Interest} {rest : Name}
    (h : i.name = n.nodePrefix ++ rest) :
    n.parseInterestName i = match n.findPath i.name with
      | some p => .ok ⟨n.nodePrefix, i.name.getSubName n.nodePrefix.length p.length,
          i.name.getSubNameFrom (n.nodePrefix.length + p.length)⟩
      | none => .ok ⟨n.nodePrefix, [], i.name.getSubNameFrom n.nodePrefix.length⟩ := by
  have hlen : ¬ i.name.length < n.nodePrefix.length := by
    rw [h, List.length_append]
    omega
  have hprefix : i.name.getPrefix n.nodePrefix.length = n.nodePrefix := by
    rw [h, Name.getPrefix_append]
  cases hfind : n.findPath i.name with
  | none =>
    simp only [parseInterestName, if_neg hlen, hprefix, ne_eq, not_true_eq_false, if_false, hfind]
  | some p =>
    simp only [parseInterestName, if_neg hlen, hprefix, ne_eq, not_true_eq_false, if_false, hfind]

/-- Parsing succeeds under the prefix of the node; the path is the one found in the table,
or the default one. -/
theorem parseInterestName_append {i : Interest} {rest : Name}
    (h : i.name = n.nodePrefix ++ rest) :
    ∃ args, n.parseInterestName i =
      .ok ⟨n.nodePrefix, (n.findPath i.name).getD [], args⟩ := by
  rw [n.parseInterestName_of_append h]
  cases hfind : n.findPath i.name with
  | none => exact ⟨_, rfl⟩
  | some p =>
    refine ⟨i.name.getSubNameFrom (n.nodePrefix.length + p.length), ?_⟩
    simp only [← (n.findPath_eq_some hfind).2.2, Option.getD_some]

/-- A name that parses starts with the prefix of the node and the path that was found. -/
theorem prefix_of_parseInterestName {i : Interest} {parts : ParsedName}
    (h : n.parseInterestName i = .ok parts) : n.nodePrefix ++ parts.path <+: i.name := by
  have hname : ∃ rest, i.name = n.nodePrefix ++ rest := by
    unfold parseInterestName at h
    dsimp only at h
    split at h
    · exact absurd h (by simp)
    · split at h
      · exact absurd h (by simp)
      · rename_i hprefix
        rw [not_not] at hprefix
        refine ⟨i.name.drop n.nodePrefix.length, ?_⟩
        nth_rewrite 1 [← hprefix]
        exact (List.take_append_drop _ _).symm
  obtain ⟨rest, hrest⟩ := hname
  obtain ⟨args, hparse⟩ := n.parseInterestName_append hrest
  rw [← Except.ok.inj (hparse.symm.trans h), hrest]
  cases hfind : n.findPath (n.nodePrefix ++ rest) with
  | none => simp
  | some p =>
    have hp := (n.findPath_eq_some hfind).2.2
    rw [Name.getSubName_length_append] at hp
    rw [Option.getD_some, hp]
    exact (List.prefix_append_right_inj _).mpr (List.take_prefix _ _)

/-- The state after an interest is the one its handler leaves, if it reaches one. -/
theorem fst_onInterest (i : Interest) (s : σ) :
    (n.onInterest i s).1 =
      match n.parseInterestName i with
      | .error _ => s
      | .ok parts =>
        match n.validate parts.path i with
        | .error _ => s
        | .ok () =>
          match n.handlers[parts.path]? with
          | none => s
          | some handler => (handler s i parts.args (Data.empty.setName i.name)).1 := by
  rw [onInterest]
  cases n.parseInterestName i with
  | error e => rfl
  | ok parts =>
    dsimp only
    rw [handleInterest]
    cases n.validate parts.path i with
    | error e => rfl
    | ok u =>
      dsimp only
      cases n.handlers[parts.path]? with
      | none => rfl
      | some handler =>
        dsimp only
        rcases n.answer parts.path i _ with ⟨events, e | u⟩
        · rfl
        · rfl

/-- **Every filter leads to a handler.**  A name under the filter of a registered path
parses to a path that is registered. -/
theorem exists_handler_of_filter {i : Interest} {p : Name} (hp : p ∈ n.handlers.keys)
    (hfilter : n.filterName p <+: i.name) :
    ∃ parts, n.parseInterestName i = .ok parts ∧
      ∃ handler, n.handlers[parts.path]? = some handler := by
  rw [filterName_eq] at hfilter
  obtain ⟨rest, hrest⟩ := hfilter
  rw [List.append_assoc] at hrest
  obtain ⟨args, hparse⟩ := n.parseInterestName_append hrest.symm
  refine ⟨_, hparse, ?_⟩
  have hmem : (n.findPath i.name).getD [] ∈ n.handlers.keys := by
    cases hfind : n.findPath i.name with
    | some q => exact (n.findPath_eq_some hfind).1
    | none =>
      -- nothing but the default path can be the one the filter was installed for
      by_cases hne : p = []
      · exact hne ▸ hp
      · exact absurd (hrest ▸ hfind) (n.findPath_ne_none hp hne)
  exact Option.isSome_iff_exists.mp
    (Std.ExtTreeMap.mem_iff_isSome_getElem?.mp (Std.ExtTreeMap.mem_keys.mp hmem))

/-! ## Handler calls -/

/-- The handler calls among the events, with the path and the arguments. -/
def calls (events : List NodeEvent) : List (Name × Name) :=
  events.filterMap fun
    | .handled path args => some (path, args)
    | .sent _ => none

@[simp] theorem calls_nil : calls [] = [] := rfl

@[simp] theorem calls_sent (p : Packet) (events : List NodeEvent) :
    calls (.sent p :: events) = calls events := rfl

@[simp] theorem calls_handled (path args : Name) (events : List NodeEvent) :
    calls (.handled path args :: events) = (path, args) :: calls events := rfl

@[simp] theorem calls_append (es fs : List NodeEvent) :
    calls (es ++ fs) = calls es ++ calls fs := List.filterMap_append ..

theorem calls_issuePuts (path : Name) (i : Interest) (ds : List Data) :
    calls (n.issuePuts path i ds).1 = [] := by
  induction ds with
  | nil => rfl
  | cons d ds ih =>
    rw [issuePuts]
    cases n.sendData path i d with
    | error e => rfl
    | ok ps => exact ih

theorem calls_answer (path : Name) (i : Interest) (run : HandlerRun) :
    calls (n.answer path i run).1 = [] := by
  have hputs := n.calls_issuePuts path i run.puts
  rw [answer]
  generalize n.issuePuts path i run.puts = puts at hputs
  obtain ⟨events, sent, _ | e⟩ := puts
  · rcases run.outcome with e | async
    · exact hputs
    · rcases n.sendData path i run.data with e | ⟨q, sent'⟩
      · cases async <;> cases sent <;> exact hputs
      · cases async <;> cases sent <;> simpa using hputs
  · exact hputs

/-- The name parses and the validators of the path it parses to accept. -/
def Accepts (i : Interest) : Prop :=
  ∃ parts, n.parseInterestName i = .ok parts ∧ n.validate parts.path i = .ok ()

/-- One call back is one handler call, once the interest is accepted and the handler is
there. -/
theorem length_calls_onInterest {i : Interest} {p : Name} (s : σ) (hp : p ∈ n.handlers.keys)
    (hfilter : n.filterName p <+: i.name) (hacc : n.Accepts i) :
    (calls (n.onInterest i s).2).length = 1 := by
  obtain ⟨parts, hparse, handler, hfind⟩ := n.exists_handler_of_filter hp hfilter
  obtain ⟨parts', hparse', hval⟩ := hacc
  obtain rfl : parts = parts' := Except.ok.inj (hparse.symm.trans hparse')
  have hcalls := n.calls_answer parts.path i (handler s i parts.args (Data.empty.setName i.name)).2
  rw [onInterest, hparse]
  simp only [handleInterest, hval, hfind]
  rcases hans : n.answer parts.path i _ with ⟨events, e | u⟩
  · rw [hans] at hcalls
    simp [hcalls]
  · rw [hans] at hcalls
    simp [hcalls]

theorem calls_onInterest_of_not_accepts {i : Interest} (s : σ) (hacc : ¬ n.Accepts i) :
    calls (n.onInterest i s).2 = [] := by
  rw [onInterest]
  cases hparse : n.parseInterestName i with
  | error e => rfl
  | ok parts =>
    cases hval : n.validate parts.path i with
    | ok u => exact absurd ⟨parts, hparse, hval⟩ hacc
    | error e =>
      simp only [handleInterest, hval]
      rfl

/-! ## One arrival -/

/-- The registered paths whose filter is a prefix of the name. -/
def matchingPaths (i : Interest) : List Name :=
  n.handlers.keys.filter fun p => (n.filterName p).isPrefixOf i.name

theorem mem_matchingPaths {i : Interest} {p : Name} :
    p ∈ n.matchingPaths i ↔ p ∈ n.handlers.keys ∧ n.filterName p <+: i.name := by
  rw [matchingPaths, List.mem_filter, List.isPrefixOf_iff_prefix]

theorem calls_interestArrives_of_not_accepts {i : Interest} (hacc : ¬ n.Accepts i)
    (filters : List Name) (s : σ) : calls (n.interestArrives i filters s).2 = [] := by
  induction filters generalizing s with
  | nil => rfl
  | cons f filters ih =>
    rw [interestArrives]
    split
    · simp only [calls_append, n.calls_onInterest_of_not_accepts s hacc, ih, List.append_nil]
    · exact ih s

/-- Every matching filter is one handler call. -/
theorem length_calls_interestArrives {i : Interest} (hacc : n.Accepts i) {ps : List Name}
    (hps : ∀ p ∈ ps, p ∈ n.handlers.keys) (s : σ) :
    (calls (n.interestArrives i (ps.map n.filterName) s).2).length =
      (ps.filter fun p => (n.filterName p).isPrefixOf i.name).length := by
  induction ps generalizing s with
  | nil => rfl
  | cons p ps ih =>
    have htail := ih fun q hq => hps q (List.mem_cons_of_mem _ hq)
    rw [List.map_cons, interestArrives, List.filter_cons]
    split
    · rename_i hfilter
      have hone := n.length_calls_onInterest s (hps p List.mem_cons_self)
        (List.isPrefixOf_iff_prefix.mp hfilter) hacc
      simp only [calls_append, List.length_append, hone, htail, List.length_cons]
      omega
    · exact htail s

/-- Without a matching filter nothing happens. -/
theorem interestArrives_of_forall_not {i : Interest} {filters : List Name}
    (h : ∀ f ∈ filters, ¬ f <+: i.name) (s : σ) : n.interestArrives i filters s = (s, []) := by
  induction filters with
  | nil => rfl
  | cons f filters ih =>
    have hf : ¬ f.isPrefixOf i.name = true := fun hpre =>
      h f List.mem_cons_self (List.isPrefixOf_iff_prefix.mp hpre)
    rw [interestArrives, if_neg hf]
    exact ih fun g hg => h g (List.mem_cons_of_mem _ hg)

/-- When just one of the filters matches, the callback runs once. -/
theorem interestArrives_of_unique {i : Interest} {filters : List Name} {f : Name}
    (hnodup : filters.Nodup) (hf : f ∈ filters) (hmatch : f <+: i.name)
    (honly : ∀ g ∈ filters, g <+: i.name → g = f) (s : σ) :
    n.interestArrives i filters s = n.onInterest i s := by
  induction filters with
  | nil => exact absurd hf List.not_mem_nil
  | cons g filters ih =>
    obtain ⟨hg, hnodup⟩ := List.nodup_cons.mp hnodup
    have honly' : ∀ g' ∈ filters, g' <+: i.name → g' = f :=
      fun g' hg' => honly g' (List.mem_cons_of_mem _ hg')
    rw [interestArrives]
    by_cases hgf : g = f
    · subst hgf
      have hrest : ∀ g' ∈ filters, ¬ g' <+: i.name :=
        fun g' hg' hpre => hg (honly' g' hg' hpre ▸ hg')
      rw [if_pos (List.isPrefixOf_iff_prefix.mpr hmatch)]
      simp only [n.interestArrives_of_forall_not hrest, List.append_nil]
    · have hskip : ¬ g.isPrefixOf i.name = true := fun hpre =>
        hgf (honly g List.mem_cons_self (List.isPrefixOf_iff_prefix.mp hpre))
      rw [if_neg hskip]
      exact ih hnodup ((List.mem_cons.mp hf).resolve_left (Ne.symm hgf)) honly'

/-- One arrival makes at most one handler call, and exactly one when the name is under a
registered route and its validators accept. -/
def DispatchedOnce (i : Interest) (s : σ) : Prop :=
  (calls (n.interestArrives i n.registerPrefixes s).2).length ≤ 1 ∧
    ((∃ p ∈ n.handlers.keys, n.filterName p <+: i.name) → n.Accepts i →
      (calls (n.interestArrives i n.registerPrefixes s).2).length = 1)

theorem length_matchingPaths_le_one_iff (i : Interest) :
    (n.matchingPaths i).length ≤ 1 ↔
      ∀ p ∈ n.handlers.keys, ∀ q ∈ n.handlers.keys,
        n.nodePrefix ++ p <+: i.name → n.nodePrefix ++ q <+: i.name → p = q := by
  have hnodup : (n.matchingPaths i).Nodup := Std.ExtTreeMap.nodup_keys.filter _
  rw [← List.toFinset_card_of_nodup hnodup, Finset.card_le_one]
  simp only [List.mem_toFinset, mem_matchingPaths, filterName_eq]
  constructor
  · intro h p hp q hq hpre hqre
    exact h p ⟨hp, hpre⟩ q ⟨hq, hqre⟩
  · rintro h p ⟨hp, hpre⟩ q ⟨hq, hqre⟩
    exact h p hp q hq hpre hqre

/-- **One dispatch per interest**, exactly when its validators reject it or at most one
registered path, the default one counting as no components, is what the name continues
with after the prefix of the node. -/
theorem dispatchedOnce_iff (i : Interest) (s : σ) :
    n.DispatchedOnce i s ↔
      (n.Accepts i → ∀ p ∈ n.handlers.keys, ∀ q ∈ n.handlers.keys,
        n.nodePrefix ++ p <+: i.name → n.nodePrefix ++ q <+: i.name → p = q) := by
  rw [DispatchedOnce, ← length_matchingPaths_le_one_iff]
  by_cases hacc : n.Accepts i
  · have hcount := n.length_calls_interestArrives hacc (fun p hp => hp) s
    rw [← registerPrefixes, ← matchingPaths] at hcount
    rw [hcount]
    constructor
    · rintro ⟨hle, -⟩ -
      exact hle
    · intro hle
      refine ⟨hle hacc, fun ⟨p, hp, hfilter⟩ _ => ?_⟩
      have hpos := List.length_pos_of_mem (n.mem_matchingPaths.mpr ⟨hp, hfilter⟩)
      have hle := hle hacc
      omega
  · rw [n.calls_interestArrives_of_not_accepts hacc]
    simp [hacc]

/-- The table of the thermometer, `/C-KEY` inside the default route. -/
def nestedRoutes : NodeImpl Unit :=
  let handler : InterestHandler Unit := fun s _ _ data => (s, ⟨[], data, .ok false⟩)
  (NodeImpl.routeName ⟨[Component.of "P"], ⟨bytes "node"⟩, ∅, [], [], ∅, ∅⟩
    [Component.of "C-KEY"] handler [] []).routeName [] handler [] []

/-- An interest for a content key is handled twice. -/
theorem nestedRoutes_not_dispatchedOnce :
    ¬ nestedRoutes.DispatchedOnce ⟨[Component.of "P", Component.of "C-KEY"], []⟩ () :=
  fun h => absurd h.1 (by decide)

end NodeImpl
end Nacapp
