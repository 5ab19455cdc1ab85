import Std.Data.ExtTreeMap.Lemmas
import Nacapp.Lib.Delimited
import Nacapp.Lib.PercentCoding
import Nacapp.Lib.PrefixScan

/-!
# Names

An NDN name is a sequence of components, a component a byte string.  This is the part
of `ndn::Name` the repository uses: cutting out sub-names, the prefix test, the
canonical order in which `std::map<Name, _>` iterates, and the two directions between
a name and its URI, which is what the string-keyed maps of the manager are indexed by.

* `ofUri_toUri`: parsing the printed URI gives the name back, so `toUri` is injective.
* `isLE_toUri_of_prefix`: a name's URI comes before the URIs of its extensions, which
  is what fixes the entry a scan of a string-keyed map meets first.

Only generic components occur.
-/

namespace Nacapp

/-- A byte string, the contents of a `std::string` or of a buffer. -/
abbrev Bytes := List UInt8

/-- The bytes of an ASCII text. -/
def bytes (s : String) : Bytes := s.toList.map Char.toUInt8

/-! ## Components and names -/

@[ext] structure Component where
  value : Bytes
  deriving DecidableEq

/-- A component with the given text. -/
def Component.of (s : String) : Component := ⟨bytes s⟩

/-- The canonical order of components: shorter ones first, then byte by byte. -/
instance : Ord Component :=
  ⟨compareLex (compareOn fun c => c.value.length) (compareOn Component.value)⟩

instance : Std.TransOrd Component :=
  inferInstanceAs (Std.TransCmp (compareLex (compareOn fun c : Component => c.value.length)
    (compareOn Component.value)))

instance : Std.LawfulEqOrd Component where
  eq_of_compare {a b} h := by
    have hvalue : compare a.value b.value = .eq := by
      have h' : (compare a.value.length b.value.length).then (compare a.value b.value) = .eq := h
      exact (Ordering.then_eq_eq.mp h').2
    exact Component.ext (Std.LawfulEqOrd.eq_of_compare hvalue)

/-- A name, ordered component by component, a proper initial part first. -/
abbrev Name := List Component

/-- A `std::map` from names. -/
abbrev NameMap (ν : Type*) := Std.ExtTreeMap Name ν

/-- A `std::map` from strings. -/
abbrev StringMap (ν : Type*) := Std.ExtTreeMap Bytes ν

namespace Name

/-- `getSubName(start, count)`: clipped at the end of the name. -/
def getSubName (n : Name) (start count : ℕ) : Name := (n.drop start).take count

/-- `getSubName(start)`: to the end of the name. -/
def getSubNameFrom (n : Name) (start : ℕ) : Name := n.drop start

/-- `getPrefix(count)` for a count that is not negative. -/
def getPrefix (n : Name) (count : ℕ) : Name := n.take count

/-- `getPrefix(-count)`: all but the last `count` components. -/
def dropSuffix (n : Name) (count : ℕ) : Name := n.take (n.length - count)

@[simp] theorem getSubName_length_append (p n : Name) (k : ℕ) :
    getSubName (p ++ n) p.length k = n.take k := by
  rw [getSubName, List.drop_left]

@[simp] theorem getPrefix_append (p n : Name) : getPrefix (p ++ n) p.length = p := by
  rw [getPrefix, List.take_left]

end Name

/-! ## URIs -/

/-- The bytes a URI shows as they are. -/
def keptInUri (b : UInt8) : Bool :=
  (('0'.toUInt8 ≤ b && b ≤ '9'.toUInt8) || ('A'.toUInt8 ≤ b && b ≤ 'Z'.toUInt8)) ||
    (('a'.toUInt8 ≤ b && b ≤ 'z'.toUInt8) || b ∈ bytes "+-._")

/-- A component made of periods only, the empty one included. -/
def isPeriods (s : Bytes) : Bool := s.all (· = '.'.toUInt8)

namespace Component

/-- A component in a URI: percent-encoded, and three periods in front of one that is
made of periods. -/
def toUri (c : Component) : Bytes :=
  if isPeriods c.value then bytes "..." ++ c.value else PercentCoding.encode keptInUri c.value

/-- The component an escaped string stands for.  Fewer than three periods alone are an
error. -/
def ofEscapedString (s : Bytes) : Option Component :=
  let value := PercentCoding.decode s
  if isPeriods value then
    if value.length ≤ 2 then none else some ⟨value.drop 3⟩
  else some ⟨value⟩

theorem percent_notMem_of_isPeriods {s : Bytes} (h : isPeriods s = true) : '%'.toUInt8 ∉ s :=
  fun hmem => absurd (List.all_eq_true.mp h _ hmem) (by decide)

/-- **The escaped component is read back.** -/
theorem ofEscapedString_toUri (c : Component) : ofEscapedString c.toUri = some c := by
  rw [toUri]
  split
  · rename_i hperiods
    have hall : isPeriods (bytes "..." ++ c.value) = true := by
      rw [isPeriods, List.all_append, Bool.and_eq_true]
      exact ⟨by decide, hperiods⟩
    have hlen : ¬ (bytes "..." ++ c.value).length ≤ 2 := by
      rw [List.length_append, show (bytes "...").length = 3 from by decide]
      omega
    have hdrop : (bytes "..." ++ c.value).drop 3 = c.value := List.drop_left' (by decide)
    simp only [ofEscapedString, PercentCoding.decode_of_notMem (percent_notMem_of_isPeriods hall),
      if_pos hall, if_neg hlen, hdrop]
  · rename_i hperiods
    simp only [ofEscapedString, PercentCoding.decode_encode (show keptInUri _ = false by decide),
      if_neg hperiods]

/-- Text behind an escaped component is part of the component that is read. -/
theorem exists_ofEscapedString_append (c : Component) {text : Bytes}
    (hpercent : '%'.toUInt8 ∉ text) (hperiods : isPeriods text = false) :
    ∃ c', ofEscapedString (c.toUri ++ text) = some c' := by
  have hnot : ∀ s : Bytes, ¬ isPeriods (s ++ text) = true := by
    intro s h
    rw [isPeriods, List.all_append, Bool.and_eq_true] at h
    rw [isPeriods, h.2] at hperiods
    exact absurd hperiods (by decide)
  obtain ⟨s, hs⟩ : ∃ s, PercentCoding.decode (c.toUri ++ text) = s ++ text := by
    rw [toUri]
    split
    · rename_i hvalue
      have hplain : '%'.toUInt8 ∉ bytes "..." ++ c.value ++ text := by
        rw [List.mem_append, List.mem_append]
        rintro ((h | h) | h)
        · exact absurd h (by decide)
        · exact percent_notMem_of_isPeriods hvalue h
        · exact hpercent h
      exact ⟨_, PercentCoding.decode_of_notMem hplain⟩
    · rw [PercentCoding.decode_encode_append (show keptInUri _ = false by decide),
        PercentCoding.decode_of_notMem hpercent]
      exact ⟨_, rfl⟩
  exact ⟨⟨s ++ text⟩, by simp only [ofEscapedString, hs, if_neg (hnot s)]⟩

theorem toUri_ne_nil (c : Component) : c.toUri ≠ [] := by
  rw [toUri]
  split
  · exact List.append_ne_nil_of_left_ne_nil (by decide) _
  · rename_i hperiods
    intro h
    rw [PercentCoding.encode_eq_nil_iff.mp h] at hperiods
    exact hperiods (by decide)

/-- No component shows a slash. -/
theorem slash_notMem_toUri (c : Component) : '/'.toUInt8 ∉ c.toUri := by
  rw [toUri]
  split
  · rename_i hperiods
    intro h
    rcases List.mem_append.mp h with h | h
    · exact absurd h (by decide)
    · exact absurd (List.all_eq_true.mp hperiods _ h) (by decide)
  · exact PercentCoding.notMem_encode (by decide) (by decide) (by decide) _

end Component

namespace Name

/-- `toUri()`: a slash and the component, for every component; `/` for the empty name. -/
def toUri (n : Name) : Bytes :=
  if n = [] then bytes "/" else n.flatMap fun c => '/'.toUInt8 :: c.toUri

/-- Omits a leading scheme such as `ndn:`: up to the first colon, when it comes before any
slash. -/
def stripScheme (uri : Bytes) : Bytes :=
  if ':'.toUInt8 ∈ uri.takeWhile (· ≠ '/'.toUInt8) then (uri.dropWhile (· ≠ ':'.toUInt8)).tail
  else uri

/-- Trims the leading slash, and the authority between two leading slashes and the next. -/
def stripRoot : Bytes → Bytes
  | [] => []
  | a :: rest =>
    if a = '/'.toUInt8 then
      if rest.head? = some '/'.toUInt8 then (rest.tail.dropWhile (· ≠ '/'.toUInt8)).tail
      else rest
    else a :: rest

/-- `Name(uri)`.  The components stand between slashes.  `none` where the constructor
throws. -/
def ofUri (uri : Bytes) : Option Name :=
  (Delimited.split '/'.toUInt8 (stripRoot (stripScheme uri))).mapM Component.ofEscapedString

/-- `NAME("/")` and `Name("")`. -/
@[simp] theorem toUri_nil : toUri [] = bytes "/" := rfl

theorem toUri_of_ne_nil {n : Name} (hn : n ≠ []) :
    toUri n = (n.map Component.toUri).flatMap fun item => '/'.toUInt8 :: item := by
  rw [toUri, if_neg hn, List.flatMap_map]

/-- A URI that starts with a slash and one that is none has neither scheme nor authority. -/
theorem stripRoot_stripScheme_slash {rest : Bytes} (h : rest.head? ≠ some '/'.toUInt8) :
    stripRoot (stripScheme ('/'.toUInt8 :: rest)) = rest := by
  have hscheme : stripScheme ('/'.toUInt8 :: rest) = '/'.toUInt8 :: rest := by
    rw [stripScheme, List.takeWhile_cons_of_neg (by decide)]
    exact if_neg List.not_mem_nil
  rw [hscheme, stripRoot, if_pos rfl, if_neg h]

/-- **Parsing a URI** that has a slash before every escaped component. -/
theorem ofUri_flatMap_slash {items : List Bytes} (hitems : items ≠ [])
    (hslash : ∀ item ∈ items, '/'.toUInt8 ∉ item) (hne : ∀ item ∈ items, item ≠ []) :
    ofUri (items.flatMap fun item => '/'.toUInt8 :: item) =
      items.mapM Component.ofEscapedString := by
  have hhead : (Delimited.join '/'.toUInt8 items).head? ≠ some '/'.toUInt8 := by
    cases items with
    | nil => exact absurd rfl hitems
    | cons item items =>
      obtain ⟨rest, hrest⟩ : ∃ rest, Delimited.join '/'.toUInt8 (item :: items) = item ++ rest := by
        cases items with
        | nil => exact ⟨[], (List.append_nil _).symm⟩
        | cons item' items => exact ⟨_, rfl⟩
      intro h
      rw [hrest, List.head?_append_of_ne_nil _ (hne item List.mem_cons_self)] at h
      exact hslash item List.mem_cons_self (List.mem_of_mem_head? h)
  rw [Delimited.flatMap_cons_eq_cons_join hitems, ofUri, stripRoot_stripScheme_slash hhead,
    Delimited.split_join hslash fun item hitem => hne item (List.mem_of_mem_getLast? hitem)]

theorem mapM_ofEscapedString_toUri (n : Name) :
    (n.map Component.toUri).mapM Component.ofEscapedString = some n := by
  induction n with
  | nil => rfl
  | cons c n ih => simp [List.mapM_cons, Component.ofEscapedString_toUri, ih]

/-- **Parsing the printed URI gives the name back.** -/
theorem ofUri_toUri (n : Name) : ofUri (toUri n) = some n := by
  by_cases hn : n = []
  · subst hn
    rfl
  have hslash : ∀ item ∈ n.map Component.toUri, '/'.toUInt8 ∉ item := by
    intro item hitem
    obtain ⟨c, -, rfl⟩ := List.mem_map.mp hitem
    exact c.slash_notMem_toUri
  have hne : ∀ item ∈ n.map Component.toUri, item ≠ [] := by
    intro item hitem
    obtain ⟨c, -, rfl⟩ := List.mem_map.mp hitem
    exact c.toUri_ne_nil
  rw [toUri_of_ne_nil hn, ofUri_flatMap_slash (by simpa using hn) hslash hne,
    mapM_ofEscapedString_toUri]

/-- A URI starts with a slash. -/
theorem exists_toUri_eq_cons (n : Name) : ∃ rest, toUri n = '/'.toUInt8 :: rest := by
  cases n with
  | nil => exact ⟨[], rfl⟩
  | cons c n => exact ⟨_, rfl⟩

theorem isPeriods_toUri (n : Name) : isPeriods (toUri n) = false := by
  obtain ⟨rest, hrest⟩ := exists_toUri_eq_cons n
  rw [hrest]
  rfl

/-- A URI with text behind it is one of a name, unless the text brings a slash or an escape, or
nothing but periods. -/
theorem exists_ofUri_toUri_append (n : Name) {text : Bytes} (hslash : '/'.toUInt8 ∉ text)
    (hpercent : '%'.toUInt8 ∉ text) (hperiods : isPeriods text = false) :
    ∃ m, ofUri (toUri n ++ text) = some m := by
  have htext : text ≠ [] := by
    rintro rfl
    exact absurd hperiods (by decide)
  rcases List.eq_nil_or_concat n with rfl | ⟨init, c, rfl⟩
  · have hitem : ∀ item ∈ [text], '/'.toUInt8 ∉ item ∧ item ≠ [] := by simp [hslash, htext]
    have huri := ofUri_flatMap_slash (List.cons_ne_nil text []) (fun item h => (hitem item h).1)
      (fun item h => (hitem item h).2)
    rw [List.flatMap_singleton] at huri
    refine ⟨[⟨text⟩], huri.trans ?_⟩
    simp [Component.ofEscapedString, PercentCoding.decode_of_notMem hpercent, hperiods]
  · obtain ⟨c', hc'⟩ := c.exists_ofEscapedString_append hpercent hperiods
    have hitem : ∀ item ∈ init.map Component.toUri ++ [c.toUri ++ text],
        '/'.toUInt8 ∉ item ∧ item ≠ [] := by
      intro item h
      rcases List.mem_append.mp h with h | h
      · obtain ⟨d, -, rfl⟩ := List.mem_map.mp h
        exact ⟨d.slash_notMem_toUri, d.toUri_ne_nil⟩
      · rw [List.mem_singleton.mp h]
        refine ⟨fun hmem => ?_, List.append_ne_nil_of_right_ne_nil _ htext⟩
        exact (List.mem_append.mp hmem).elim c.slash_notMem_toUri hslash
    have huri := ofUri_flatMap_slash (List.append_ne_nil_of_right_ne_nil _ (List.cons_ne_nil _ []))
      (fun item h => (hitem item h).1) (fun item h => (hitem item h).2)
    refine ⟨init ++ [c'], ?_⟩
    rw [List.flatMap_append, List.flatMap_singleton, List.mapM_append,
      mapM_ofEscapedString_toUri] at huri
    have hsplit : toUri (init ++ [c]) ++ text =
        ((init.map Component.toUri).flatMap fun item => '/'.toUInt8 :: item) ++
          '/'.toUInt8 :: (c.toUri ++ text) := by
      rw [toUri_of_ne_nil (by simp), List.map_append, List.flatMap_append]
      simp
    rw [List.concat_eq_append, hsplit, huri]
    simp [hc']

theorem toUri_injective {n m : Name} (h : toUri n = toUri m) : n = m :=
  Option.some.inj (by rw [← ofUri_toUri n, h, ofUri_toUri])

@[simp] theorem toUri_inj {n m : Name} : toUri n = toUri m ↔ n = m :=
  ⟨toUri_injective, congrArg _⟩

/-- Only the empty name is printed as the default path. -/
theorem toUri_eq_slash_iff {n : Name} : toUri n = bytes "/" ↔ n = [] :=
  toUri_inj (m := [])

/-! ## The order of URIs -/

theorem toUri_prefix_of_prefix {n m : Name} (hn : n ≠ []) (h : n <+: m) :
    toUri n <+: toUri m := by
  obtain ⟨rest, rfl⟩ := h
  rw [toUri, toUri, if_neg hn, if_neg (by simp [hn]), List.flatMap_append]
  exact List.prefix_append _ _

/-- **A name comes before its extensions** in a map keyed by URIs. -/
theorem isLE_toUri_of_prefix {n m : Name} (h : n <+: m) : (compare (toUri n) (toUri m)).isLE := by
  have hprefix : toUri n <+: toUri m := by
    by_cases hn : n = []
    · subst hn
      by_cases hm : m = []
      · subst hm
        exact List.prefix_rfl
      · rw [toUri_of_ne_nil hm, Delimited.flatMap_cons_eq_cons_join (by simpa using hm)]
        exact List.prefix_append [_] _
    · exact toUri_prefix_of_prefix hn h
  exact PrefixScan.isLE_compare_of_prefix hprefix

end Name

end Nacapp
