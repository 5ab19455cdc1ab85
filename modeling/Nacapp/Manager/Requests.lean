import Nacapp.Manager.FaceEvents
import Nacapp.Manager.ReadArguments
import Nacapp.Node.Parsing

/-!
# The requests of the manager

How the name of a request comes to the call it asks for: the node splits it into prefix,
route and arguments, and the handler of the route decodes the arguments.

* `parseInterestName_route`: no route of the manager extends another, so a name built from
  a route and arguments is split into these.
* `keyNamesAgree_iff`: the request for a D-KEY by its full name is decoded into the lookup of
  that key exactly when no component before the timestamps is `FOR`.
* `accessRequests_decode`: a request to grant or to revoke comes to the call with the two
  names that its URI was built from.
-/

namespace Nacapp
namespace Service

section Routes

variable (L : GroupLib) (E : ServiceEnv) (servicePrefix : Name) (keychain : KeyChain)

/-! ## Routing -/

theorem mem_keys_node {path : Name} :
    path ∈ (node E L servicePrefix keychain).handlers.keys ↔
      ∃ route : ServiceRoute, route.path = path := by
  rw [Std.ExtTreeMap.mem_keys, Std.ExtTreeMap.mem_iff_isSome_getElem?, Option.isSome_iff_exists]
  constructor
  · rintro ⟨h, hfind⟩
    obtain ⟨route, hpath, -⟩ := route_of_handler L E servicePrefix keychain hfind
    exact ⟨route, hpath⟩
  · rintro ⟨route, rfl⟩
    exact ⟨_, handler_of_route L E servicePrefix keychain route⟩

theorem path_ne_nil (route : ServiceRoute) : route.path ≠ [] := by
  cases route <;> decide

/-- No route extends another. -/
theorem eq_of_extends {r r' : ServiceRoute} (h : r.path <+: r'.path) : r = r' := by
  rw [← List.isPrefixOf_iff_prefix] at h
  revert h
  cases r <;> cases r' <;> decide

/-- **A name built from a route and arguments is split into these.** -/
theorem parseInterestName_route {i : Interest} {route : ServiceRoute} {args : Name}
    (h : i.name = servicePrefix ++ (route.path ++ args)) :
    (node E L servicePrefix keychain).parseInterestName i =
      .ok ⟨servicePrefix, route.path, args⟩ := by
  have hselected : (node E L servicePrefix keychain).selectedPath (route.path ++ args) =
      route.path := by
    refine NodeImpl.selectedPath_append _ ?_ (path_ne_nil route) ?_ args
    · exact (mem_keys_node L E servicePrefix keychain).mpr ⟨route, rfl⟩
    · intro p hp _ hprefix
      obtain ⟨route', rfl⟩ := (mem_keys_node L E servicePrefix keychain).mp hp
      rw [eq_of_extends hprefix]
  have hparse := (node E L servicePrefix keychain).parseInterestName_eq h
  rw [hselected, List.drop_left] at hparse
  exact hparse

/-- **What the node does for a request** whose handler has a meaning. -/
theorem onInterest_route {i : Interest} {route : ServiceRoute} {args : Name}
    (h : i.name = servicePrefix ++ (route.path ++ args)) {s s' : Service L} {run : HandlerRun}
    (hrun : s.handle E route i args (Data.empty.setName i.name) = some (s', run)) :
    (node E L servicePrefix keychain).onInterest i (some s) =
      (some s', .handled route.path args ::
        match (node E L servicePrefix keychain).answer route.path i run with
        | (events, .ok ()) => events
        | (events, .error e) =>
          events ++ [.sent ((node E L servicePrefix keychain).onFailed e.reason)]) := by
  have hhandler : handler E route (some s) i args (Data.empty.setName i.name) =
      (some s', run) := by
    rw [handler]
    simp only [hrun]
  rw [NodeImpl.onInterest, parseInterestName_route L E servicePrefix keychain h]
  simp only [NodeImpl.handleInterest, validate_node, handler_of_route, hhandler]
  rcases (node E L servicePrefix keychain).answer route.path i run with ⟨events, e | u⟩
  · rfl
  · rfl

/-- **A request runs the callback once**: the filter of its route alone matches. -/
theorem interestArrives_route {i : Interest} {route : ServiceRoute} {args : Name}
    (h : i.name = servicePrefix ++ (route.path ++ args)) (t : Option (Service L)) :
    let n := node E L servicePrefix keychain
    n.interestArrives i n.registerPrefixes t = n.onInterest i t := by
  intro n
  have hfilter : ∀ p, n.filterName p = servicePrefix ++ p := n.filterName_eq
  have hinjective : Function.Injective n.filterName := by
    intro p q hpq
    rw [hfilter, hfilter] at hpq
    exact List.append_cancel_left hpq
  have hkey : route.path ∈ n.handlers.keys :=
    (mem_keys_node L E servicePrefix keychain).mpr ⟨route, rfl⟩
  refine n.interestArrives_of_unique (f := n.filterName route.path)
    (Std.ExtTreeMap.nodup_keys.map hinjective) (List.mem_map_of_mem hkey) ?_ ?_ t
  · rw [hfilter, h, List.prefix_append_right_inj]
    exact List.prefix_append ..
  · intro g hg hpre
    obtain ⟨p, hp, rfl⟩ := List.mem_map.mp hg
    obtain ⟨route', rfl⟩ := (mem_keys_node L E servicePrefix keychain).mp hp
    rw [hfilter, h, List.prefix_append_right_inj] at hpre
    -- two prefixes of one name, so one of the routes extends the other
    rcases List.prefix_or_prefix_of_prefix hpre (List.prefix_append route.path args) with
      hle | hle
    · rw [eq_of_extends hle]
    · rw [eq_of_extends hle]

end Routes

/-! ## Reading the name of a D-KEY -/

variable {L : GroupLib} {E : ServiceEnv} (s : Service L)

/-- What `onGetDKey` makes of the result of a lookup. -/
def answerDKey (data : Data) : Option (Bytes × Data) × Manager L → Service L × HandlerRun
  | (none, m) => ({ s with manager := m }, nacked data)
  | (some (key, dkey), m) =>
    ({ s with manager := writeDKey m key (dkey.setFreshnessPeriod 1000) },
      ⟨[dkey.setFreshnessPeriod 1000], data, .ok false⟩)

/-- With all its arguments `onGetDKey` is the lookup of the key they name. -/
theorem onGetDKey_eq {t entity : Name} {start stop mark : Component} {ts : TimeStamp}
    (hstart : E.fromIsoString start.toUri = .ok ts) (hentity : entity ≠ []) (data : Data) :
    s.onGetDKey E t (start :: stop :: mark :: entity) data =
      some (s.answerDKey data (s.manager.getDKeyEntry t entity ts)) := by
  have hlen : ¬ (start :: stop :: mark :: entity).length < 4 := by
    have hpos := List.length_pos_of_ne_nil hentity
    simp only [List.length_cons]
    omega
  have hdrop : Name.getSubNameFrom (start :: stop :: mark :: entity) 3 = entity := rfl
  rw [onGetDKey, if_neg hlen]
  simp only [List.getElem?_cons_zero, hstart, hdrop]
  rcases s.manager.getDKeyEntry t entity ts with ⟨_ | ⟨key, dkey⟩, m⟩
  · rfl
  · rfl

/-! ## Filing and looking up D-KEYs -/

section KeyNames

variable (L E) (servicePrefix : Name) (keychain : KeyChain)

/-- The two readings of the name of a D-KEY agree: an interest for it is routed to `onRead`
and decoded into the lookup of the member's key for the data type and the time, and the name
under which the key is filed is the member's. -/
structure KeyNamesAgree (t : Name) (start stop : Component) (member : Name) (ts : TimeStamp) :
    Prop where
  decoded : ∀ i : Interest, i.name = dkeyName servicePrefix t (start, stop) member →
    ∃ args, (node E L servicePrefix keychain).parseInterestName i =
        .ok ⟨servicePrefix, ServiceRoute.read.path, args⟩ ∧
      ∀ (s : Service L) (data : Data), s.handle E .read i args data =
        some (s.answerDKey data (s.manager.getDKeyEntry t member ts))
  filed : Manager.extractCertName (dkeyName servicePrefix t (start, stop) member) = member

variable {L E}

theorem dkeyName_decoded {t : Name} {start stop : Component} {member : Name} {ts : TimeStamp}
    (ht : ∀ c ∈ t, c ≠ NAME_COMPONENT_E_KEY ∧ c ≠ NAME_COMPONENT_D_KEY)
    (hstart : E.fromIsoString start.toUri = .ok ts) (hmember : member ≠ []) {i : Interest}
    (h : i.name = dkeyName servicePrefix t (start, stop) member) :
    ∃ args, (node E L servicePrefix keychain).parseInterestName i =
        .ok ⟨servicePrefix, ServiceRoute.read.path, args⟩ ∧
      ∀ (s : Service L) (data : Data), s.handle E .read i args data =
        some (s.answerDKey data (s.manager.getDKeyEntry t member ts)) := by
  refine ⟨t ++ NAME_COMPONENT_D_KEY :: start :: stop :: NAME_COMPONENT_FOR :: member,
    parseInterestName_route L E servicePrefix keychain ?_, fun s data => ?_⟩
  · rw [h, dkeyName, List.append_assoc]
    rfl
  · have huri : ¬ Name.toUri [NAME_COMPONENT_D_KEY] = bytes "/E-KEY" := by decide
    show s.onRead E i _ data = _
    rw [onRead, parseReadArgs_append ht (Or.inr rfl)]
    dsimp only
    rw [if_neg huri, if_pos (by decide)]
    exact s.onGetDKey_eq hstart hmember data

/-- **The readings of a D-KEY name agree** exactly when no component of the prefix and of the
data type is `FOR`. -/
theorem keyNamesAgree_iff (hfor : ∀ ts, E.fromIsoString NAME_COMPONENT_FOR.toUri ≠ .ok ts)
    {t : Name} (ht : ∀ c ∈ t, c ≠ NAME_COMPONENT_E_KEY ∧ c ≠ NAME_COMPONENT_D_KEY)
    {start stop : Component} {ts ts' : TimeStamp} (hstart : E.fromIsoString start.toUri = .ok ts)
    (hstop : E.fromIsoString stop.toUri = .ok ts') {member : Name} (hmember : member ≠ []) :
    KeyNamesAgree L E servicePrefix keychain t start stop member ts ↔
      NAME_COMPONENT_FOR ∉ servicePrefix ∧ NAME_COMPONENT_FOR ∉ t := by
  have hstart_ne : NAME_COMPONENT_FOR ≠ start := fun h => hfor ts (h ▸ hstart)
  have hstop_ne : NAME_COMPONENT_FOR ≠ stop := fun h => hfor ts' (h ▸ hstop)
  have hfiled : Manager.extractCertName (dkeyName servicePrefix t (start, stop) member) = member ↔
      NAME_COMPONENT_FOR ∉ servicePrefix ∧ NAME_COMPONENT_FOR ∉ t :=
    extractSuffix_dkeyName_iff hstart_ne hstop_ne
  rw [← hfiled]
  exact ⟨fun h => h.filed, fun h =>
    ⟨fun i hi => dkeyName_decoded servicePrefix keychain ht hstart hmember hi, h⟩⟩

end KeyNames

/-- Reads the digits of a number of at least one digit. -/
def readNumber (s : Bytes) : Option ℕ :=
  let digits := leadingDigits 10 s
  if digits.length = s.length ∧ s ≠ [] then some (digits.foldl (fun n d => 10 * n + d) 0) else none

/-- An environment that reads times of the form `YYYYMMDDThhmmss`, whatever stands behind. -/
def isoTimes : ServiceEnv where
  fromIsoString s :=
    match readNumber (s.take 4), readNumber ((s.drop 4).take 2), readNumber ((s.drop 6).take 2),
      (s.drop 8).head?, readNumber ((s.drop 9).take 2), readNumber ((s.drop 11).take 2),
      readNumber ((s.drop 13).take 2) with
    | some year, some month, some day, some mark, some hours, some minutes, some seconds =>
      if mark = 'T'.toUInt8 then
        .ok ⟨⟨year, month, day⟩, 3600 * hours + 60 * minutes + seconds⟩
      else .error (.exception (bytes "from_iso_string"))
    | _, _, _, _, _, _, _ => .error (.exception (bytes "from_iso_string"))
  nameError _ := .exception (bytes "Name")
  certificateError _ := .exception (bytes "Certificate")

/-- The D-KEYs of a data type are filed and looked up under one name. -/
theorem keyNamesAgree_health :
    KeyNamesAgree memoryGroups isoTimes [Component.of "manager"] ⟨bytes "manager"⟩
      [Component.of "health"] (Component.of "20170703T000000") (Component.of "20170704T000000")
      [Component.of "alice"] ⟨⟨2017, 7, 3⟩, 0⟩ := by
  have hfor : isoTimes.fromIsoString NAME_COMPONENT_FOR.toUri =
      .error (.exception (bytes "from_iso_string")) := rfl
  have hstop : isoTimes.fromIsoString (Component.of "20170704T000000").toUri =
      .ok ⟨⟨2017, 7, 4⟩, 0⟩ := rfl
  refine (keyNamesAgree_iff [Component.of "manager"] ⟨bytes "manager"⟩ (fun ts h => ?_)
    (by decide) rfl hstop (by decide)).mpr (by decide)
  rw [hfor] at h
  exact absurd h (by simp)

/-- Where the data type has a component `FOR`, the D-KEY of a member is filed under another
name. -/
theorem keyNamesAgree_not_for :
    ¬ ∀ (L : GroupLib) (E : ServiceEnv) (servicePrefix : Name) (keychain : KeyChain) (t : Name)
      (start stop : Component) (ts ts' : TimeStamp) (member : Name),
      (∀ c ∈ t, c ≠ NAME_COMPONENT_E_KEY ∧ c ≠ NAME_COMPONENT_D_KEY) →
      E.fromIsoString start.toUri = .ok ts → E.fromIsoString stop.toUri = .ok ts' →
      member ≠ [] → KeyNamesAgree L E servicePrefix keychain t start stop member ts := by
  intro h
  have hagree := h memoryGroups isoTimes [Component.of "manager"] ⟨bytes "manager"⟩
    [Component.of "health", Component.of "FOR"] (Component.of "20170703T000000")
    (Component.of "20170704T000000") ⟨⟨2017, 7, 3⟩, 0⟩ ⟨⟨2017, 7, 4⟩, 0⟩ [Component.of "alice"]
    (by decide) rfl rfl (by decide)
  exact absurd hagree.filed (by decide)

/-! ## Granting and revoking by URI -/

/-- The URI of a request for access: the path behind the components of the prefix, and the two
names encoded. -/
def accessUri (servicePrefix : Name) (path : Bytes) (identity dataType : Name) : Bytes :=
  (servicePrefix.flatMap fun c => '/'.toUInt8 :: c.toUri) ++ path ++
    bytes "/" ++ uriEncode identity.toUri ++ bytes "/" ++ uriEncode dataType.toUri

/-- The component an encoded name is read as. -/
theorem ofEscapedString_uriEncode (n : Name) :
    Component.ofEscapedString (uriEncode n.toUri) = some ⟨n.toUri⟩ := by
  have hpercent : keptByUriEncode '%'.toUInt8 = false := by decide
  have hdecode := PercentCoding.decode_encode hpercent n.toUri
  have hperiods := Name.isPeriods_toUri n
  simp only [Component.ofEscapedString, uriEncode, hdecode, hperiods, Bool.false_eq_true, if_false]

/-- The name a request for access is parsed as. -/
theorem ofUri_accessUri (servicePrefix : Name) (route : ServiceRoute) (identity dataType : Name) :
    Name.ofUri (accessUri servicePrefix route.path.toUri identity dataType) =
      some (servicePrefix ++ (route.path ++ [⟨identity.toUri⟩, ⟨dataType.toUri⟩])) := by
  have hencode : ∀ n : Name, '/'.toUInt8 ∉ uriEncode n.toUri ∧ uriEncode n.toUri ≠ [] := by
    intro n
    refine ⟨PercentCoding.notMem_encode (by decide) (by decide) (by decide) _, fun h => ?_⟩
    obtain ⟨rest, hrest⟩ := Name.exists_toUri_eq_cons n
    rw [uriEncode, PercentCoding.encode_eq_nil_iff, hrest] at h
    exact List.cons_ne_nil _ _ h
  have hitem : ∀ item ∈ (servicePrefix ++ route.path).map Component.toUri ++
      [uriEncode identity.toUri, uriEncode dataType.toUri], '/'.toUInt8 ∉ item ∧ item ≠ [] := by
    intro item h
    rcases List.mem_append.mp h with h | h
    · obtain ⟨c, -, rfl⟩ := List.mem_map.mp h
      exact ⟨c.slash_notMem_toUri, c.toUri_ne_nil⟩
    · rcases List.mem_cons.mp h with rfl | h
      · exact hencode identity
      · rw [List.mem_singleton.mp h]
        exact hencode dataType
  have huri := Name.ofUri_flatMap_slash
    (List.append_ne_nil_of_right_ne_nil _ (List.cons_ne_nil _ _))
    (fun item h => (hitem item h).1) (fun item h => (hitem item h).2)
  have hsplit : accessUri servicePrefix route.path.toUri identity dataType =
      ((servicePrefix ++ route.path).map Component.toUri ++
        [uriEncode identity.toUri, uriEncode dataType.toUri]).flatMap
          fun item => '/'.toUInt8 :: item := by
    rw [accessUri, Name.toUri_of_ne_nil (path_ne_nil route), List.flatMap_append, List.map_append,
      List.flatMap_append, List.flatMap_map, List.flatMap_map]
    simp [bytes]
  rw [hsplit, huri, List.mapM_append, Name.mapM_ofEscapedString_toUri]
  simp [ofEscapedString_uriEncode]

/-- An encoded name is decoded from the component it was read as. -/
theorem uriDecode_toUri (n : Name) : uriDecode (Component.mk n.toUri).toUri = .ok n.toUri := by
  have hperiods : ¬ isPeriods (Component.mk n.toUri).value = true := by
    rw [Name.isPeriods_toUri]
    exact Bool.false_ne_true
  rw [Component.toUri, if_neg hperiods, uriDecode_encode (by decide)]

theorem parseName_toUri (E : ServiceEnv) (n : Name) : E.parseName n.toUri = .ok n := by
  rw [ServiceEnv.parseName, Name.ofUri_toUri]

theorem onRevoke_eq (identity dataType : Name) (data : Data) :
    s.onRevoke E [⟨identity.toUri⟩, ⟨dataType.toUri⟩] data =
      ({ s with manager := s.manager.revokeAccess identity dataType }, ⟨[], data, .ok false⟩) := by
  rw [onRevoke]
  simp only [uriDecode_toUri]
  simp only [bind, Except.bind, pure, Except.pure, parseName_toUri]

theorem grant_eq {startDate endDate startHour endHour : Bytes} {startD endD : TimeStamp}
    {startH endH : ℤ} {scheduleName : Name} (identity : Name) {dataType : Name}
    (hstartD : E.fromIsoString startDate = .ok startD)
    (hendD : E.fromIsoString endDate = .ok endD)
    (hstartH : stoi 10 startHour = .ok startH) (hendH : stoi 10 endHour = .ok endH)
    (hname : Name.ofUri (dataType.toUri ++ startDate ++ endDate ++ startHour ++ endHour) =
      some scheduleName) :
    s.grant E identity dataType startDate endDate startHour endHour =
      .ok { s with
        manager := s.manager.grantAccess identity dataType
          ⟨scheduleName, ⟨startD, endD, startH.toNat, endH.toNat, 1, .day⟩⟩ } := by
  rw [grant, hstartD, hendD, hstartH, hendH, ServiceEnv.parseName, hname]
  rfl

theorem onGrant_eq {startD endD : TimeStamp}
    (hstart : E.fromIsoString (bytes "20170703T000000Z") = .ok startD)
    (hend : E.fromIsoString (bytes "20180730T000000Z") = .ok endD)
    {identity dataType scheduleName : Name}
    (hname : Name.ofUri (dataType.toUri ++ bytes "20170703T000000Z" ++ bytes "20180730T000000Z" ++
      bytes "00" ++ bytes "24") = some scheduleName) (data : Data) :
    s.onGrant E [⟨identity.toUri⟩, ⟨dataType.toUri⟩] data =
      some
        ({ s with
          manager := s.manager.grantAccess identity dataType
            ⟨scheduleName, ⟨startD, endD, 0, 24, 1, .day⟩⟩ },
          ⟨[], data, .ok false⟩) := by
  have hstartHour : stoi 10 (bytes "00") = .ok 0 := rfl
  have hendHour : stoi 10 (bytes "24") = .ok 24 := rfl
  have hgrant := s.grant_eq identity hstart hend hstartHour hendHour hname
  rw [onGrant, List.getElem?_cons_zero]
  dsimp only
  rw [uriDecode_toUri]
  dsimp only
  rw [List.getElem?_cons_succ, List.getElem?_cons_zero]
  dsimp only
  rw [uriDecode_toUri, parseName_toUri]
  dsimp only [bind, Except.bind]
  rw [parseName_toUri]
  dsimp only
  rw [hgrant]
  rfl

section AccessRequests

variable (L E) (servicePrefix : Name) (keychain : KeyChain)

/-- A request under this URI comes to a call: the URI is that of a name, interests of this name
are routed to the handler of the route, and what the handler does is to make the call and
return `false`. -/
def ComesTo (uri : Bytes) (route : ServiceRoute) (call : Manager L → Manager L) : Prop :=
  ∃ name, Name.ofUri uri = some name ∧ ∀ exclude, ∃ args,
    (node E L servicePrefix keychain).parseInterestName ⟨name, exclude⟩ =
        .ok ⟨servicePrefix, route.path, args⟩ ∧
      ∀ (s : Service L) (data : Data), s.handle E route ⟨name, exclude⟩ args data =
        some ({ s with manager := call s.manager }, ⟨[], data, .ok false⟩)

/-- **Requests for access come to the call with the names they were built from**, whatever the
prefix of the manager and the bytes of the names are. -/
theorem accessRequests_decode {startD endD : TimeStamp}
    (hstart : E.fromIsoString (bytes "20170703T000000Z") = .ok startD)
    (hend : E.fromIsoString (bytes "20180730T000000Z") = .ok endD) (identity dataType : Name) :
    (∃ scheduleName, ComesTo L E servicePrefix keychain
      (accessUri servicePrefix (bytes "/MANAGEMENT/access/grant") identity dataType)
      .accessGrant fun m => m.grantAccess identity dataType
        ⟨scheduleName, ⟨startD, endD, 0, 24, 1, .day⟩⟩) ∧
      ComesTo L E servicePrefix keychain
        (accessUri servicePrefix (bytes "/MANAGEMENT/access/revoke") identity dataType)
        .accessRevoke fun m => m.revokeAccess identity dataType := by
  have hname : ∃ scheduleName, Name.ofUri (dataType.toUri ++ bytes "20170703T000000Z" ++
      bytes "20180730T000000Z" ++ bytes "00" ++ bytes "24") = some scheduleName := by
    rw [List.append_assoc, List.append_assoc, List.append_assoc]
    exact Name.exists_ofUri_toUri_append dataType (by decide) (by decide) (by decide)
  obtain ⟨scheduleName, hname⟩ := hname
  refine ⟨⟨scheduleName, _, ofUri_accessUri servicePrefix .accessGrant identity dataType,
    fun exclude => ⟨_, parseInterestName_route L E servicePrefix keychain rfl, fun s data => ?_⟩⟩,
    _, ofUri_accessUri servicePrefix .accessRevoke identity dataType,
    fun exclude => ⟨_, parseInterestName_route L E servicePrefix keychain rfl, fun s data => ?_⟩⟩
  · exact s.onGrant_eq hstart hend hname data
  · exact congrArg some (s.onRevoke_eq identity dataType data)

end AccessRequests

/-- Names with slashes, percent signs and periods in their components are decoded. -/
theorem accessRequests_decode_marks :
    ComesTo memoryGroups isoTimes [Component.of "manager"] ⟨bytes "manager"⟩
      (accessUri [Component.of "manager"] (bytes "/MANAGEMENT/access/revoke")
        [Component.of "a/b", Component.of "%2F"] [Component.of "..", Component.of ""])
      .accessRevoke fun m => m.revokeAccess
        [Component.of "a/b", Component.of "%2F"] [Component.of "..", Component.of ""] :=
  (accessRequests_decode memoryGroups isoTimes [Component.of "manager"] ⟨bytes "manager"⟩
    (show isoTimes.fromIsoString _ = .ok ⟨⟨2017, 7, 3⟩, 0⟩ from rfl)
    (show isoTimes.fromIsoString _ = .ok ⟨⟨2018, 7, 30⟩, 0⟩ from rfl) _ _).2

end Service
end Nacapp
