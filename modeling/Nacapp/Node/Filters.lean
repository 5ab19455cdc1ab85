import Mathlib.Data.Finset.Max
import Nacapp.Lib.Transitions
import Nacapp.Node.Dispatch
import Nacapp.Node.Registrations

/-!
# The filters on the face

`route` is documented as setting an interest filter for prefix and path.  It only writes
the table: the filters are installed once, by the `registerPrefixes` call with which
`serveForever` starts, for the routes and the prefix of that moment.  Routes and prefix may
change afterwards, from inside handlers and data receivers, and the filters do not follow.

* `FiltersFollow`: the filters are those of the table.
* `handler_of_filter`: what that is good for.
* `filtersFollow_iff`: it lasts exactly as long as no new path is registered and the prefix
  of a table with routes is not changed.
-/

namespace Nacapp

open Transitions

/-- What changes the table of a node or its prefix. -/
inductive TableOp (σ : Type) where
  | route (r : Registration σ)
  | setPrefix (nodePrefix : Name)

/-- A node that serves, and the filters on its face. -/
structure Serving (σ : Type) where
  node : NodeImpl σ
  filters : List Name

namespace NodeImpl

variable {σ : Type}

def tableStep (n : NodeImpl σ) : TableOp σ → NodeImpl σ
  | .route r => n.register r
  | .setPrefix nodePrefix => n.setPrefix nodePrefix

/-- `serveForever` up to its loop. -/
def serveForever (n : NodeImpl σ) : Serving σ := ⟨n, n.registerPrefixes⟩

/-- The paths of the table after a call of `route`. -/
theorem mem_keys_register (n : NodeImpl σ) (r : Registration σ) (p : Name) :
    p ∈ (n.register r).handlers.keys ↔ r.path = some p ∨ p ∈ n.handlers.keys := by
  rw [Std.ExtTreeMap.mem_keys, Std.ExtTreeMap.mem_keys, Std.ExtTreeMap.mem_iff_isSome_getElem?,
    Std.ExtTreeMap.mem_iff_isSome_getElem?, handlers_register]
  by_cases h : r.path = some p
  · simp [h]
  · simp [h]

end NodeImpl

namespace Serving

variable {σ : Type}

/-- The table changes and the filters stay. -/
def step (s : Serving σ) (op : TableOp σ) : Serving σ := { s with node := s.node.tableStep op }

/-- The filters are those of the table: one for every path, under the prefix. -/
def FiltersFollow (s : Serving σ) : Prop :=
  ∀ f, f ∈ s.filters ↔ ∃ p ∈ s.node.handlers.keys, f = s.node.nodePrefix ++ p

/-- The change leaves the set of names that ought to have a filter as it is. -/
def KeepsNames (s : Serving σ) : TableOp σ → Prop
  | .route r => ∀ p, r.path = some p → p ∈ s.node.handlers.keys
  | .setPrefix nodePrefix => nodePrefix = s.node.nodePrefix ∨ s.node.handlers.keys = []

/-! ## What the filters are good for -/

theorem filtersFollow_serveForever (n : NodeImpl σ) : n.serveForever.FiltersFollow := by
  intro f
  show f ∈ n.handlers.keys.map n.filterName ↔ _
  rw [List.mem_map]
  constructor
  · rintro ⟨p, hp, rfl⟩
    exact ⟨p, hp, n.filterName_eq p⟩
  · rintro ⟨p, hp, rfl⟩
    exact ⟨p, hp, n.filterName_eq p⟩

/-- Under a filter, every name parses to a path that has a handler. -/
theorem handler_of_filter {s : Serving σ} (h : s.FiltersFollow) {f : Name} (hf : f ∈ s.filters)
    {i : Interest} (hname : f <+: i.name) :
    ∃ parts, s.node.parseInterestName i = .ok parts ∧
      ∃ handler, s.node.handlers[parts.path]? = some handler := by
  obtain ⟨p, hp, rfl⟩ := (h f).mp hf
  rw [← s.node.filterName_eq] at hname
  exact s.node.exists_handler_of_filter hp hname

/-! ## One change -/

/-- A set of names under a prefix determines the prefix: a shortest path is as short under
the one as under the other. -/
theorem prefix_eq_of_forall_append_iff {P Q : Name} {paths : List Name} (hne : paths ≠ [])
    (h : ∀ f, (∃ p ∈ paths, f = P ++ p) ↔ ∃ p ∈ paths, f = Q ++ p) : P = Q := by
  obtain ⟨p, hp, hmin⟩ : ∃ p ∈ paths, ∀ q ∈ paths, p.length ≤ q.length := by
    have hnonempty : paths.toFinset.Nonempty := List.toFinset_nonempty_iff _ |>.mpr hne
    simpa using paths.toFinset.exists_min_image List.length hnonempty
  obtain ⟨q, hq, hPQ⟩ := (h (P ++ p)).mp ⟨p, hp, rfl⟩
  obtain ⟨r, hr, hQP⟩ := (h (Q ++ p)).mpr ⟨p, hp, rfl⟩
  have hlenPQ := congrArg List.length hPQ
  have hlenQP := congrArg List.length hQP
  have hq := hmin q hq
  have hr := hmin r hr
  rw [List.length_append, List.length_append] at hlenPQ hlenQP
  exact List.append_inj_left hPQ (by omega)

/-- **One change keeps the filters in step** exactly when it changes no name. -/
theorem filtersFollow_step_iff {s : Serving σ} (h : s.FiltersFollow) (op : TableOp σ) :
    (s.step op).FiltersFollow ↔ s.KeepsNames op := by
  have hnames : (s.step op).FiltersFollow ↔
      ∀ f, (∃ p ∈ s.node.handlers.keys, f = s.node.nodePrefix ++ p) ↔
        ∃ p ∈ (s.node.tableStep op).handlers.keys, f = (s.node.tableStep op).nodePrefix ++ p :=
    forall_congr' fun f => iff_congr (h f) Iff.rfl
  rw [hnames]
  cases op with
  | route r =>
    have hkeep : (s.node.tableStep (.route r)).nodePrefix = s.node.nodePrefix :=
      s.node.register_nodePrefix r
    simp only [hkeep]
    constructor
    · intro hsame p hp
      have hmem := (s.node.mem_keys_register r p).mpr (Or.inl hp)
      obtain ⟨q, hq, heq⟩ := (hsame (s.node.nodePrefix ++ p)).mpr ⟨p, hmem, rfl⟩
      rwa [List.append_cancel_left heq]
    · intro hknown f
      refine exists_congr fun p => and_congr_left fun _ => ?_
      rw [show s.node.tableStep (.route r) = s.node.register r from rfl,
        s.node.mem_keys_register r p]
      exact ⟨Or.inr, fun hp => hp.elim (hknown p) id⟩
  | setPrefix nodePrefix =>
    constructor
    · intro hsame
      by_cases hne : s.node.handlers.keys = []
      · exact Or.inr hne
      · exact Or.inl (prefix_eq_of_forall_append_iff hne hsame).symm
    · rintro (heq | hnil) f
      · rw [show (s.node.tableStep (.setPrefix nodePrefix)).nodePrefix = s.node.nodePrefix
          from heq]
        exact Iff.rfl
      · refine iff_of_false ?_ ?_
        · rintro ⟨p, hp, -⟩
          rw [hnil] at hp
          exact List.not_mem_nil hp
        · rintro ⟨p, hp, -⟩
          have hp : p ∈ s.node.handlers.keys := hp
          rw [hnil] at hp
          exact List.not_mem_nil hp

/-! ## Every run -/

/-- **The filter table follows the route table** in every state after serving has started,
exactly when every later registration is of a path the table has and every later change of
the prefix is none or finds the table empty. -/
theorem filtersFollow_iff (n : NodeImpl σ) (before after : List (TableOp σ)) :
    (∀ ops, ops <+: after →
        (exec step (exec NodeImpl.tableStep n before).serveForever ops).FiltersFollow) ↔
      StepsMeet step KeepsNames (exec NodeImpl.tableStep n before).serveForever after :=
  forall_prefix_iff_stepsMeet (I := FiltersFollow) (J := fun _ => True) (fun _ _ _ => trivial)
    (fun _ op _ h => filtersFollow_step_iff h op) trivial (filtersFollow_serveForever _) after

/-- A node without routes serves, and a data receiver registers the default path. -/
theorem not_filtersFollow_late_route :
    ¬ ∀ ops, ops <+: [TableOp.route (σ := Unit)
        { uri := bytes "/", handler := fun s _ _ data => (s, ⟨[], data, .ok false⟩) }] →
      (exec step (exec NodeImpl.tableStep (NodeImpl.ofPrefix [Component.of "P"] ⟨bytes "node"⟩)
        []).serveForever ops).FiltersFollow := by
  intro h
  have hfilter := (h _ List.prefix_rfl [Component.of "P"]).mpr ⟨[], by decide, rfl⟩
  exact absurd hfilter (by decide)

end Serving
end Nacapp
