import EveNet.ConfigEditors
import EveNet.JsonEdits

/-!
# Edited configurations and the validator

An editor works on the JSON value, the validator on the configuration decoded from it. Each
edit of an item is followed to the record the item is decoded to, and each editor to the
configuration its file is decoded to; that configuration is accepted under conditions on the
old one, which the editors do not all check.
-/

namespace EveNet

/-! ### What Python's operations return -/

section Operations

variable {ε α β : Type} {json value : Json} {key : String}

theorem mapM_eq_ok_iff {f : α → Except ε β} {l : List α} {out : List β} :
    l.mapM f = .ok out ↔ List.Forall₂ (fun a b => f a = .ok b) l out := by
  induction l generalizing out with
  | nil =>
      rw [List.mapM_nil, List.forall₂_nil_left_iff]
      exact ⟨fun h => (Except.ok.inj h).symm, fun h => h ▸ rfl⟩
  | cons a l ih =>
      rw [List.mapM_cons, List.forall₂_cons_left_iff, except_bind_eq_ok]
      constructor
      · rintro ⟨b, hb, h⟩
        obtain ⟨bs, hbs, hout⟩ := except_bind_eq_ok.mp h
        exact ⟨b, bs, hb, ih.mp hbs, (Except.ok.inj hout).symm⟩
      · rintro ⟨b, bs, hb, hbs, rfl⟩
        exact ⟨b, hb, except_bind_eq_ok.mpr ⟨bs, ih.mpr hbs, rfl⟩⟩

def Json.IsObj (json : Json) : Prop := ∃ members, json = .obj members

theorem Json.IsObj.set (h : json.IsObj) : (json.set key value).IsObj := by
  obtain ⟨members, rfl⟩ := h
  exact ⟨_, rfl⟩

namespace Python

theorem get_eq_ok {member : Option Json} :
    get json key = .ok member ↔ json.IsObj ∧ member = json.get key := by
  constructor
  · intro h
    cases json with
    | obj members => exact ⟨⟨members, rfl⟩, (Except.ok.inj h).symm⟩
    | null => cases h
    | bool b => cases h
    | num text => cases h
    | str s => cases h
    | arr items => cases h
  · rintro ⟨⟨members, rfl⟩, rfl⟩
    rfl

theorem setItem_eq_ok {out : Json} :
    setItem json key value = .ok out ↔ json.IsObj ∧ out = json.set key value := by
  constructor
  · intro h
    cases json with
    | obj members => exact ⟨⟨members, rfl⟩, (Except.ok.inj h).symm⟩
    | null => cases h
    | bool b => cases h
    | num text => cases h
    | str s => cases h
    | arr items => cases h
  · rintro ⟨⟨members, rfl⟩, rfl⟩
    rfl

end Python

end Operations

/-! ### Lists of items -/

section Items

variable {α : Type} {read : Json → Option α} {items items' : List Json} {l : List α}

/-- The items are decoded to the list. -/
abbrev Decodes (read : Json → Option α) : List Json → List α → Prop :=
  List.Forall₂ (fun item a => read item = some a)

/-- An edit of the items next to an edit of what they are decoded to. -/
theorem decodes_edited {E : Json → Json → Prop} {g : α → α} (h : Decodes read items l)
    (hedit : List.Forall₂ E items items')
    (hE : ∀ item a item', read item = some a → E item item' → read item' = some (g a)) :
    Decodes read items' (l.map g) := by
  induction h generalizing items' with
  | nil =>
      rw [List.forall₂_nil_left_iff.mp hedit]
      exact .nil
  | cons ha _ ih =>
      obtain ⟨item', items', hitem, hrest, rfl⟩ := List.forall₂_cons_left_iff.mp hedit
      exact .cons (hE _ _ _ ha hitem) (ih hrest)

theorem decodes_filter {p : Json → Bool} {q : α → Bool} (h : Decodes read items l)
    (hpq : ∀ item ∈ items, ∀ a, read item = some a → p item = q a) :
    Decodes read (items.filter p) (l.filter q) := by
  induction h with
  | nil => exact .nil
  | @cons item a items l ha _ ih =>
      have hrest := ih fun item hitem => hpq item (List.mem_cons_of_mem _ hitem)
      have hfirst := hpq item List.mem_cons_self a ha
      by_cases hq : q a = true
      · rw [List.filter_cons_of_pos hq, List.filter_cons_of_pos (hfirst.trans hq)]
        exact .cons ha hrest
      · rw [List.filter_cons_of_neg hq, List.filter_cons_of_neg (hfirst ▸ hq)]
        exact hrest

theorem decodes_append {back : List Json} {m : List α} (h : Decodes read items l)
    (h' : Decodes read back m) : Decodes read (items ++ back) (l ++ m) :=
  List.rel_append h h'

end Items

/-! ### Items and their records -/

section Records

variable {json : Json} {egress : EgressInterface} {policy : Policy}

/-- What the members of a policy's object are read as. -/
structure PolicyReads (json : Json) (policy : Policy) : Prop where
  id : (json.get "id").bind Json.asStr = some policy.id
  enabled : withDefault true Json.asBool (json.get "enabled") = some policy.enabled
  matchSpec : (json.get "match").bind MatchSpec.decode = some policy.matchSpec

theorem policyReads_of_decode (hobj : json.IsObj) (h : Policy.decode json = some policy) :
    PolicyReads json policy := by
  obtain ⟨members, rfl⟩ := hobj
  unfold Policy.decode at h
  simp only [Option.bind_eq_bind, Option.bind_eq_some_iff] at h
  obtain ⟨field, hfield, id, hid, enabled, henabled, spec, hspec, action, -, h⟩ := h
  cases h
  rw [Json.fields_obj hfield] at hid henabled hspec
  exact ⟨hid, henabled, hspec⟩

theorem decode_setPolicyEnabled (hobj : json.IsObj) (h : Policy.decode json = some policy)
    (b : Bool) :
    Policy.decode (json.set "enabled" (.bool b)) = some { policy with enabled := b } := by
  obtain ⟨members, rfl⟩ := hobj
  unfold Policy.decode at h ⊢
  simp only [Option.bind_eq_bind, Option.bind_eq_some_iff] at h
  obtain ⟨field, hfield, id, hid, enabled, -, spec, hspec, action, haction, h⟩ := h
  cases h
  rw [Json.fields_set hfield]
  simp only [Option.bind_eq_bind, Option.bind_some, String.reduceEq, if_true, if_false, hid, hspec,
    haction]
  rfl

theorem decode_setPolicyAction (hobj : json.IsObj) (h : Policy.decode json = some policy)
    (egress : String) :
    Policy.decode (json.set "action" (.obj [("egress", .str egress)])) =
      some { policy with action := ⟨egress⟩ } := by
  obtain ⟨members, rfl⟩ := hobj
  unfold Policy.decode at h ⊢
  simp only [Option.bind_eq_bind, Option.bind_eq_some_iff] at h
  obtain ⟨field, hfield, id, hid, enabled, henabled, spec, hspec, action, -, h⟩ := h
  cases h
  rw [Json.fields_set hfield]
  simp only [Option.bind_eq_bind, Option.bind_some, String.reduceEq, if_true, if_false, hid, hspec,
    henabled]
  rfl

theorem decode_setEgressEnabled (hobj : json.IsObj) (h : EgressInterface.decode json = some egress)
    (b : Bool) :
    EgressInterface.decode (json.set "enabled" (.bool b)) = some { egress with enabled := b } := by
  obtain ⟨members, rfl⟩ := hobj
  unfold EgressInterface.decode at h ⊢
  simp only [Option.bind_eq_bind, Option.bind_eq_some_iff] at h
  obtain ⟨field, hfield, enabled, -, name, hname, kind, hkind, gateway, hgateway, source, hsource,
    table, htable, fwmark, hfwmark, priority, hpriority, healthcheck, hcheck, h⟩ := h
  cases h
  rw [Json.fields_set hfield]
  simp only [Option.bind_eq_bind, Option.bind_some, String.reduceEq, if_true, if_false, hname,
    hkind, hgateway, hsource, htable, hfwmark, hpriority, hcheck]
  rfl

theorem egressName_of_decode (hobj : json.IsObj) (h : EgressInterface.decode json = some egress) :
    (json.get "name").bind Json.asStr = some egress.name := by
  obtain ⟨members, rfl⟩ := hobj
  unfold EgressInterface.decode at h
  simp only [Option.bind_eq_bind, Option.bind_eq_some_iff] at h
  obtain ⟨field, hfield, _, -, name, hname, _, -, _, -, _, -, _, -, _, -, _, -, _, -, h⟩ := h
  cases h
  rwa [Json.fields_obj hfield] at hname

/-- A comparison with the name of an egress. -/
theorem isText_name (hobj : json.IsObj) (h : EgressInterface.decode json = some egress)
    (s : String) : Python.isText (json.get "name") s = decide (egress.name = s) := by
  rw [Python.isText, egressName_of_decode hobj h, Bool.decide_congr Option.some_inj]

theorem isText_id (hobj : json.IsObj) (h : Policy.decode json = some policy) (s : String) :
    Python.isText (json.get "id") s = decide (policy.id = s) := by
  rw [Python.isText, (policyReads_of_decode hobj h).id, Bool.decide_congr Option.some_inj]

/-- The action of a policy, where it can be read with `get`. -/
theorem isText_routed (hobj : json.IsObj) (h : Policy.decode json = some policy)
    (haction : ((json.get "action").getD (.obj [])).IsObj) (s : String) :
    Python.isText (((json.get "action").getD (.obj [])).get "egress") s =
      decide (policy.action.egress = s) := by
  obtain ⟨members, rfl⟩ := hobj
  unfold Policy.decode at h
  simp only [Option.bind_eq_bind, Option.bind_eq_some_iff] at h
  obtain ⟨field, hfield, _, -, _, -, _, -, action, hread, h⟩ := h
  rw [Json.fields_obj hfield] at hread
  obtain ⟨member, hmember, hdecode⟩ := Option.bind_eq_some_iff.mp hread
  change (Json.obj members).get "action" = some member at hmember
  rw [hmember, Option.getD_some] at haction ⊢
  obtain ⟨members', rfl⟩ := haction
  unfold ActionSpec.decode at hdecode
  simp only [Option.bind_eq_bind, Option.bind_eq_some_iff] at hdecode
  obtain ⟨field', hfield', egress, hegress, hspec⟩ := hdecode
  rw [Json.fields_obj hfield'] at hegress
  cases h
  cases hspec
  rw [Python.isText]
  change decide (required Json.asStr _ = some s) = _
  rw [hegress, Bool.decide_congr Option.some_inj]

end Records

/-! ### The lists of a configuration -/

section Lists

variable {value : Json} {cfg : Config}

/-- With other policies a configuration is decoded with other policies. -/
theorem decode_setPolicies (hobj : value.IsObj) (h : Config.decode value = some cfg)
    {items : List Json} {policies : List Policy} (hitems : Decodes Policy.decode items policies) :
    Config.decode (value.set "policies" (.arr items)) = some { cfg with policies := policies } := by
  obtain ⟨members, rfl⟩ := hobj
  unfold Config.decode at h ⊢
  simp only [Option.bind_eq_bind, Option.bind_eq_some_iff] at h
  obtain ⟨field, hfield, version, hversion, runtime, hruntime, nft, hnft, cache, hcache, proxy,
    hproxy, underlay, hunderlay, egresses, hegresses, _, -, h⟩ := h
  cases h
  have hlist : required (Json.listOf Policy.decode) (some (.arr items)) = some policies :=
    listOf_arr.mpr hitems
  rw [Json.fields_set hfield]
  simp only [Option.bind_eq_bind, Option.bind_some, String.reduceEq, if_true, if_false, hversion,
    hruntime, hnft, hcache, hproxy, hunderlay, hlist, hegresses]

theorem decode_setEgressItems (hobj : value.IsObj) (h : Config.decode value = some cfg)
    {items : List Json} {egresses : List EgressInterface}
    (hitems : Decodes EgressInterface.decode items egresses) :
    Config.decode (value.set "egress_interfaces" (.arr items)) =
      some { cfg with egressInterfaces := egresses } := by
  obtain ⟨members, rfl⟩ := hobj
  exact Config.decode_setEgresses h hitems

theorem decode_dryRun {json : Json} {runtime : RuntimeConfig} (hobj : json.IsObj)
    (h : RuntimeConfig.decode json = some runtime) (b : Bool) :
    RuntimeConfig.decode (json.set "dry_run" (.bool b)) = some { runtime with dryRun := b } := by
  obtain ⟨members, rfl⟩ := hobj
  unfold RuntimeConfig.decode at h ⊢
  simp only [Option.bind_eq_bind, Option.bind_eq_some_iff] at h
  obtain ⟨field, hfield, dryRun, -, interval, hinterval, closed, hclosed, auto, hauto, h⟩ := h
  cases h
  rw [Json.fields_set hfield]
  simp only [Option.bind_eq_bind, Option.bind_some, String.reduceEq, if_true, if_false, hinterval,
    hclosed, hauto]
  rfl

/-- A missing `runtime` is set from an empty object, which is read with the same defaults. -/
theorem decode_setDryRun (hobj : value.IsObj) (h : Config.decode value = some cfg)
    (hruntime : ((value.get "runtime").getD (.obj [])).IsObj) (b : Bool) :
    Config.decode (value.set "runtime"
        (((value.get "runtime").getD (.obj [])).set "dry_run" (.bool b))) =
      some { cfg with runtime := { cfg.runtime with dryRun := b } } := by
  obtain ⟨members, rfl⟩ := hobj
  unfold Config.decode at h ⊢
  simp only [Option.bind_eq_bind, Option.bind_eq_some_iff] at h
  obtain ⟨field, hfield, version, hversion, runtime, hread, nft, hnft, cache, hcache, proxy,
    hproxy, underlay, hunderlay, egresses, hegresses, policies, hpolicies, h⟩ := h
  have hdry : RuntimeConfig.decode
      ((((Json.obj members).get "runtime").getD (.obj [])).set "dry_run" (.bool b)) =
        some { runtime with dryRun := b } := by
    refine decode_dryRun hruntime ?_ b
    rw [Json.fields_obj hfield] at hread
    change withDefault {} RuntimeConfig.decode ((Json.obj members).get "runtime") = some runtime
      at hread
    cases hget : (Json.obj members).get "runtime" with
    | none =>
        rw [hget] at hread
        cases hread
        rfl
    | some json =>
        rw [hget] at hread
        exact hread
  cases h
  rw [Json.fields_set hfield]
  have hdefault : withDefault {} RuntimeConfig.decode
      (some ((((Json.obj members).get "runtime").getD (.obj [])).set "dry_run" (.bool b))) =
        some { runtime with dryRun := b } := hdry
  simp only [Option.bind_eq_bind, Option.bind_some, String.reduceEq, if_true, if_false, hversion,
    hdefault, hnft, hcache, hproxy, hunderlay, hegresses, hpolicies]

/-- The items that policies are decoded from. -/
def policyItems (value : Json) : List Json :=
  ((value.get "policies").bind Json.asArray).getD []

theorem policyItems_of_decode (hobj : value.IsObj) (h : Config.decode value = some cfg) :
    value.get "policies" = some (.arr (policyItems value)) ∧
      Decodes Policy.decode (policyItems value) cfg.policies := by
  obtain ⟨members, rfl⟩ := hobj
  unfold Config.decode at h
  simp only [Option.bind_eq_bind, Option.bind_eq_some_iff] at h
  obtain ⟨field, hfield, _, -, _, -, _, -, _, -, _, -, _, -, _, -, policies, hpolicies, h⟩ := h
  obtain ⟨json, hjson, hlist⟩ := Option.bind_eq_some_iff.mp hpolicies
  obtain ⟨items, rfl, hitems⟩ := listOf_eq_some hlist
  rw [Json.fields_obj hfield] at hjson
  change (Json.obj members).get "policies" = some (.arr items) at hjson
  cases h
  have hread : policyItems (.obj members) = items := by
    rw [policyItems, hjson]
    rfl
  rw [hread]
  exact ⟨hjson, hitems⟩

end Lists

/-! ### Domains in Python and in the validator -/

section Domains

variable {s domain : String}

theorem hostChar_of_isBareDomainChar {c : Char} (h : isBareDomainChar c.toLower = true) :
    hostChar c = true := by
  by_cases hupper : c.isUpper = true
  · simp [hostChar, Char.isAlphanum, Char.isAlpha, hupper]
  · rw [Char.toLower_eq_of_not_isUpper (by simpa using hupper)] at h
    simp only [isBareDomainChar, Bool.or_eq_true] at h
    simp only [hostChar, Char.isAlphanum, Char.isAlpha, Bool.or_eq_true]
    tauto

theorem isUpper_of_bare {c : Char} (h : isBareDomainChar c = true) : c.isUpper = false := by
  simp only [isBareDomainChar, Bool.or_eq_true, beq_iff_eq] at h
  rcases h with ((hlower | hdigit) | rfl) | rfl
  · simpa using Char.not_isUpper_of_isLower hlower
  · refine Bool.eq_false_of_not_eq_true fun hupper => ?_
    simp only [Char.isDigit, Char.isUpper, Bool.and_eq_true, decide_eq_true_eq,
      UInt32.le_iff_toNat_le, ge_iff_le] at hdigit hupper
    have hhigh : c.val.toNat ≤ 57 := hdigit.2
    have hlow : 65 ≤ c.val.toNat := hupper.1
    omega
  · decide
  · decide

theorem toLower_of_bare {c : Char} (h : isBareDomainChar c = true) : c.toLower = c :=
  Char.toLower_eq_of_not_isUpper (by simp [isUpper_of_bare h])

theorem toLowercase_of_bare {c : Char} (h : isBareDomainChar c.toLower = true) :
    toLowercase c = [c.toLower] := by
  have hk : c ≠ '\u212a' := by
    rintro rfl
    exact absurd h (by decide)
  have hi : c ≠ '\u0130' := by
    rintro rfl
    exact absurd h (by decide)
  rw [toLowercase, if_neg hk, if_neg hi]

theorem lower_of_bare {text : List Char} (h : ∀ c ∈ text, isBareDomainChar c.toLower = true) :
    Python.lower text = text.map Char.toLower := by
  rw [Python.lower, List.flatMap_congr fun c hc => toLowercase_of_bare (h c hc),
    List.map_eq_flatMap]

/-- What the validator takes for the domain, the editor does too. -/
theorem bareDomain_of_domainKey (hchars : ∀ c ∈ domain.toList, isBareDomainChar c = true)
    (hdots : trimEndDots domain.toList = domain.toList) (h : domainKey s = domain) :
    Python.bareDomain s = domain := by
  set core := trimEndDots (trim s.toList) with hcore
  have hmap : core.map Char.toLower = domain.toList := by
    rw [← h, domainKey, String.toList_ofList]
  have hsplit : trim s.toList = core ++ (trim s.toList).rtakeWhile (· == '.') :=
    List.rdropWhile_append_rtakeWhile.symm
  have hdot : ∀ c ∈ (trim s.toList).rtakeWhile (· == '.'), c = '.' := fun c hc =>
    beq_iff_eq.mp (List.mem_rtakeWhile_imp (p := (· == '.')) hc)
  have hbare : ∀ c ∈ trim s.toList, isBareDomainChar c.toLower = true := by
    intro c hc
    rw [hsplit, List.mem_append] at hc
    rcases hc with hc | hc
    · exact hchars _ (hmap ▸ List.mem_map_of_mem hc)
    · rw [hdot c hc]
      decide
  have hstrip : Python.strip s.toList = trim s.toList := Python.strip_eq_trim fun c hc =>
    Python.isSpace_of_hostChar (hostChar_of_isBareDomainChar (hbare c hc))
  have hlowerDots : ((trim s.toList).rtakeWhile (· == '.')).map Char.toLower =
      (trim s.toList).rtakeWhile (· == '.') := by
    rw [List.map_congr_left fun c hc => toLower_of_bare (by rw [hdot c hc]; decide),
      List.map_id']
  have hlower : Python.lower (trim s.toList) =
      domain.toList ++ (trim s.toList).rtakeWhile (· == '.') := by
    rw [lower_of_bare hbare, ← hmap, ← hlowerDots, ← List.map_append, ← hsplit]
  rw [Python.bareDomain, hstrip, hlower, trimEndDots, List.rdropWhile, List.reverse_append,
    List.dropWhile_append_of_pos fun c hc => by simpa using hdot c (List.mem_reverse.mp hc)]
  change String.ofList (trimEndDots domain.toList) = domain
  rw [hdots, String.ofList_toList]

/-- A domain that the editor lets pass is its own key. -/
theorem domainKey_of_bare (hchars : ∀ c ∈ domain.toList, isBareDomainChar c = true)
    (hdots : trimEndDots domain.toList = domain.toList) : domainKey domain = domain := by
  have htrim : trim domain.toList = domain.toList := trim_of_hostChars fun c hc =>
    hostChar_of_isBareDomainChar (by rw [toLower_of_bare (hchars c hc)]; exact hchars c hc)
  rw [domainKey, htrim, hdots, List.map_congr_left fun c hc => toLower_of_bare (hchars c hc),
    List.map_id', String.ofList_toList]

end Domains

/-! ### Accepted again -/

/-- The value holds a configuration that the validator accepts. -/
def AcceptedAgain (value : Json) : Prop :=
  ∃ cfg, Config.decode value = some cfg ∧ cfg.validate = .ok ()

theorem acceptedAgain_iff {value : Json} {cfg : Config} (h : Config.decode value = some cfg) :
    AcceptedAgain value ↔ cfg.validate = .ok () := by
  constructor
  · rintro ⟨cfg', hdecode, hvalid⟩
    rw [Option.some.inj (h.symm.trans hdecode)]
    exact hvalid
  · exact fun hvalid => ⟨cfg, h, hvalid⟩

theorem ValidSettings.edited {cfg : Config} (h : ValidSettings cfg) (dryRun : Bool)
    (egresses : List EgressInterface) (policies : List Policy) :
    ValidSettings { cfg with
      runtime := { cfg.runtime with dryRun := dryRun }
      egressInterfaces := egresses
      policies := policies } :=
  ⟨h.version, h.intervalSec, h.ttlSec, h.path, h.timeoutMs, h.listenAddr, h.mode, h.hardMode,
    h.underlay⟩

/-- The settings an editor leaves alone stay valid, so only the two lists count. -/
theorem validate_edited_iff {cfg : Config} (h : cfg.validate = .ok ()) (dryRun : Bool)
    (egresses : List EgressInterface) (policies : List Policy) :
    Config.validate { cfg with
        runtime := { cfg.runtime with dryRun := dryRun }
        egressInterfaces := egresses
        policies := policies } = .ok () ↔
      egresses ≠ [] ∧ ValidEgresses egresses ∧
        ValidPolicies (egressNames egresses) (enabledEgressNames egresses) policies := by
  rw [validate_eq_ok_iff]
  exact and_iff_right ((validate_eq_ok_iff.mp h).1.edited dryRun egresses policies)

theorem validate_setPolicies_iff {cfg : Config} (h : cfg.validate = .ok ())
    (policies : List Policy) :
    Config.validate { cfg with policies := policies } = .ok () ↔
      ValidPolicies (egressNames cfg.egressInterfaces) (enabledEgressNames cfg.egressInterfaces)
        policies := by
  obtain ⟨-, hnonempty, hegresses, -⟩ := validate_eq_ok_iff.mp h
  refine (validate_edited_iff h cfg.runtime.dryRun cfg.egressInterfaces policies).trans ?_
  exact ⟨fun hlists => hlists.2.2, fun hpolicies => ⟨hnonempty, hegresses, hpolicies⟩⟩

/-- The key that the policy has once it is enabled. -/
def Policy.domainKeys (policy : Policy) : List String :=
  (policy.matchSpec.domain.map domainKey).toList

theorem mem_domainKeys {policy : Policy} {key : String} :
    key ∈ policy.domainKeys ↔ ∃ domain, policy.matchSpec.domain = some domain ∧
      domainKey domain = key := by
  rw [Policy.domainKeys, Option.mem_toList, Option.map_eq_some_iff]

section Policies

variable {names enabledNames : List String} {policies policies' : List Policy} {policy : Policy}

theorem ValidPolicies.sublist (h : ValidPolicies names enabledNames policies)
    (hsub : policies'.Sublist policies) : ValidPolicies names enabledNames policies' where
  each p hp := h.each p (hsub.subset hp)
  ids := h.ids.sublist (hsub.map _)
  keys := h.keys.sublist (hsub.flatMap _)

theorem validPolicies_append_singleton :
    ValidPolicies names enabledNames (policies ++ [policy]) ↔
      ValidPolicies names enabledNames policies ∧ ValidPolicy names enabledNames policy ∧
        policy.id ∉ policies.map (·.id) ∧
        ∀ key ∈ policyKeys policy, key ∉ policies.flatMap policyKeys := by
  have hids : ((policies ++ [policy]).map (·.id)).Nodup ↔
      (policies.map (·.id)).Nodup ∧ policy.id ∉ policies.map (·.id) := by
    rw [List.map_append, List.nodup_append_comm]
    exact List.nodup_cons.trans and_comm
  have hkeys : ((policies ++ [policy]).flatMap policyKeys).Nodup ↔
      (policies.flatMap policyKeys).Nodup ∧
        ∀ key ∈ policyKeys policy, key ∉ policies.flatMap policyKeys := by
    rw [List.flatMap_append, List.flatMap_singleton, List.nodup_append]
    constructor
    · rintro ⟨hkept, -, hapart⟩
      exact ⟨hkept, fun key hkey hmem => hapart key hmem key hkey rfl⟩
    · rintro ⟨hkept, hapart⟩
      refine ⟨hkept, nodup_policyKeys policy, fun key hmem key' hkey heq => ?_⟩
      exact hapart key' hkey (heq ▸ hmem)
  constructor
  · intro h
    obtain ⟨hidKept, hid⟩ := hids.mp h.ids
    obtain ⟨hkeyKept, hkey⟩ := hkeys.mp h.keys
    exact ⟨⟨fun p hp => h.each p (List.mem_append_left _ hp), hidKept, hkeyKept⟩,
      h.each policy (List.mem_append_right _ List.mem_cons_self), hid, hkey⟩
  · rintro ⟨hkept, hself, hid, hkey⟩
    refine ⟨fun p hp => ?_, hids.mpr ⟨hkept.ids, hid⟩, hkeys.mpr ⟨hkept.keys, hkey⟩⟩
    rcases List.mem_append.mp hp with hp | hp
    · exact hkept.each p hp
    · rw [List.mem_singleton.mp hp]
      exact hself

end Policies

/-! ### add-domain-policy.sh -/

section AddDomain

variable {domain egress policyId : String} {item : Json} {items : List Json} {policy : Policy}

open Python

theorem decode_domainPolicyItem (policyId domain egress : String) :
    Policy.decode (domainPolicyItem policyId domain egress) =
      some ⟨policyId, true, { domain := some domain }, ⟨egress⟩⟩ := rfl

theorem exists_of_anyNamed (h : anyNamed egress items = .ok true) :
    ∃ item ∈ items, item.IsObj ∧ isText (item.get "name") egress = true := by
  induction items with
  | nil => cases h
  | cons item items ih =>
      obtain ⟨name, hname, h⟩ := except_bind_eq_ok.mp h
      obtain ⟨hobj, rfl⟩ := get_eq_ok.mp hname
      by_cases hfound : isText (item.get "name") egress = true
      · exact ⟨item, List.mem_cons_self, hobj, hfound⟩
      · rw [if_neg hfound] at h
        obtain ⟨item', hmem, hitem⟩ := ih h
        exact ⟨item', List.mem_cons_of_mem _ hmem, hitem⟩

/-- A policy item that the editor has let pass. -/
def PassesDuplicate (domain policyId : String) (item : Json) : Prop :=
  item.IsObj ∧ (isText (item.get "id") policyId = true ∨
    (orEmpty (item.get "match")).IsObj ∧
      ¬ ((item.get "enabled").bind Json.asBool = some true ∧
        (text ((orEmpty (item.get "match")).get "domain")).map bareDomain = some domain))

theorem passes_of_refuseDuplicate (h : refuseDuplicate domain policyId items = .ok ()) :
    ∀ item ∈ items, PassesDuplicate domain policyId item := by
  induction items with
  | nil => exact fun item hitem => absurd hitem List.not_mem_nil
  | cons item items ih =>
      obtain ⟨id, hid, h⟩ := except_bind_eq_ok.mp h
      obtain ⟨hobj, rfl⟩ := get_eq_ok.mp hid
      by_cases hsame : isText (item.get "id") policyId = true
      · rw [if_pos hsame] at h
        exact List.forall_mem_cons.mpr ⟨⟨hobj, Or.inl hsame⟩, ih h⟩
      · rw [if_neg hsame] at h
        obtain ⟨spec, hspec, h⟩ := except_bind_eq_ok.mp h
        obtain ⟨-, rfl⟩ := get_eq_ok.mp hspec
        obtain ⟨found, hfound, h⟩ := except_bind_eq_ok.mp h
        obtain ⟨hmatch, rfl⟩ := get_eq_ok.mp hfound
        obtain ⟨enabled, henabled, h⟩ := except_bind_eq_ok.mp h
        obtain ⟨-, rfl⟩ := get_eq_ok.mp henabled
        by_cases hdup : (item.get "enabled").bind Json.asBool = some true ∧
          (text ((orEmpty (item.get "match")).get "domain")).map bareDomain = some domain
        · rw [if_pos hdup] at h
          cases h
        · rw [if_neg hdup] at h
          exact List.forall_mem_cons.mpr ⟨⟨hobj, Or.inr ⟨hmatch, hdup⟩⟩, ih h⟩

/-- The domain of a policy is the text that the editor compares. -/
theorem text_domain (h : PolicyReads item policy) (hmatch : (orEmpty (item.get "match")).IsObj)
    {d : String} (hd : policy.matchSpec.domain = some d) :
    text ((orEmpty (item.get "match")).get "domain") = some d := by
  obtain ⟨spec, hspec, hdecode⟩ := Option.bind_eq_some_iff.mp h.matchSpec
  have hobj : ∃ members, spec = .obj members := by
    rw [hspec] at hmatch
    obtain ⟨members, hmembers⟩ := hmatch
    cases spec with
    | obj members' => exact ⟨members', rfl⟩
    | null => cases hdecode
    | bool b => cases hdecode
    | num text => cases hdecode
    | str s => cases hdecode
    | arr values =>
        cases values with
        | nil => cases hdecode
        | cons value values => cases hmembers
  obtain ⟨members, rfl⟩ := hobj
  rw [hspec]
  unfold MatchSpec.decode at hdecode
  simp only [Option.bind_eq_bind, Option.bind_eq_some_iff] at hdecode
  obtain ⟨field, hfield, _, -, _, -, _, -, domain, hdomain, hread⟩ := hdecode
  rw [Json.fields_obj hfield] at hdomain
  change withDefault none (Json.nullable Json.asStr) ((Json.obj members).get "domain") =
    some domain at hdomain
  have hsome : domain = some d := by
    rw [← hd, ← Option.some.inj hread]
  subst hsome
  change text ((Json.obj members).get "domain") = some d
  cases hget : (Json.obj members).get "domain" with
  | none =>
      rw [hget] at hdomain
      cases hdomain
  | some json =>
      rw [hget] at hdomain
      cases json with
      | str s =>
          cases hdomain
          rfl
      | null => cases hdomain
      | bool b => cases hdomain
      | num digits => cases hdomain
      | arr values => cases hdomain
      | obj members => cases hdomain

/-- A policy that says it is enabled does not have the domain. -/
theorem not_mem_domainKeys (hchars : ∀ c ∈ domain.toList, isBareDomainChar c = true)
    (hdots : trimEndDots domain.toList = domain.toList)
    (hpass : PassesDuplicate domain policyId item) (h : Policy.decode item = some policy)
    (hid : policy.id ≠ policyId) (hgiven : item.get "enabled" ≠ none)
    (henabled : policy.enabled = true) : domain ∉ policy.domainKeys := by
  obtain ⟨hobj, hsame | ⟨hmatch, hdup⟩⟩ := hpass
  · rw [isText_id hobj h, decide_eq_true_eq] at hsame
    exact absurd hsame hid
  · have hreads := policyReads_of_decode hobj h
    intro hmem
    obtain ⟨d, hd, hkey⟩ := mem_domainKeys.mp hmem
    refine hdup ⟨?_, ?_⟩
    · obtain ⟨json, hjson⟩ := Option.ne_none_iff_exists'.mp hgiven
      have hread := hreads.enabled
      rw [hjson, henabled] at hread
      rw [hjson]
      exact hread
    · rw [text_domain hreads hmatch hd]
      exact congrArg some (bareDomain_of_domainKey hchars hdots hkey)

/-- The egress is enabled, and no other policy that leaves out `enabled` has the domain. -/
def AddDomainFits (domain egress policyId : String) (value : Json) (cfg : Config) : Prop :=
  egress ∈ enabledEgressNames cfg.egressInterfaces ∧
    ∀ item ∈ policyItems value, ∀ policy, Policy.decode item = some policy →
      policy.id ≠ policyId → item.get "enabled" = none → domain ∉ policy.domainKeys

theorem trimmedEmpty_policyIdFor (domain egress policyIdArg : String) :
    trimmedEmpty (policyIdFor domain egress (String.ofList (strip policyIdArg.toList))) =
      false := by
  have hblank : ∀ s : String, trim s.toList ≠ [] → trimmedEmpty s = false := fun s hs => by
    simp [trimmedEmpty, hs]
  by_cases hid : String.ofList (strip policyIdArg.toList) = ""
  · refine hblank _ (trim_ne_nil (c := 'd') (by decide) ?_)
    rw [policyIdFor, if_pos hid]
    simp
  · refine hblank _ ?_
    rw [policyIdFor, if_neg hid, String.toList_ofList]
    exact trimmedEmpty_strip fun hnil => hid (by rw [hnil])

variable {value value' : Json} {cfg : Config} {domainArg egressArg policyIdArg : String}

/-- What is known after the editor has written the file. -/
structure DomainAdded (domain egress policyId : String) (value value' : Json) : Prop where
  isObj : value.IsObj
  chars : ∀ c ∈ domain.toList, isBareDomainChar c = true
  nonempty : domain ≠ ""
  dots : trimEndDots domain.toList = domain.toList
  found : ∃ items, value.get "egress_interfaces" = some (.arr items) ∧
    ∃ item ∈ items, item.IsObj ∧ isText (item.get "name") egress = true
  passes : ∀ item ∈ policyItems value, PassesDuplicate domain policyId item
  written : value' = value.set "policies" (.arr (withoutId policyId (policyItems value) ++
    [domainPolicyItem policyId domain egress]))

theorem elements_eq_ok {member : Option Json} (h : elements member = .ok items) :
    member = none ∧ items = [] ∨ member = some (.arr items) := by
  cases member with
  | none => exact Or.inl ⟨rfl, (Except.ok.inj h).symm⟩
  | some json =>
      cases json with
      | arr items' => exact Or.inr (by rw [Except.ok.inj h])
      | null => cases h
      | bool b => cases h
      | num digits => cases h
      | str s => cases h
      | obj members => cases h

theorem policyItems_of_elements (h : elements (value.get "policies") = .ok items) :
    policyItems value = items := by
  unfold policyItems
  rcases elements_eq_ok h with ⟨hnone, rfl⟩ | hsome
  · rw [hnone]
    rfl
  · rw [hsome]
    rfl

theorem domainAdded_of_eq_ok
    (h : addDomainPolicy domainArg egressArg policyIdArg (.ok value) = .ok value') :
    DomainAdded (bareDomain domainArg) (String.ofList (strip egressArg.toList))
      (policyIdFor (bareDomain domainArg) (String.ofList (strip egressArg.toList))
        (String.ofList (strip policyIdArg.toList))) value value' := by
  unfold addDomainPolicy at h
  by_cases husage : domainArg = "" ∨ egressArg = ""
  · rw [if_pos husage] at h
    cases h
  rw [if_neg husage] at h
  dsimp only at h
  by_cases hbad : bareDomain domainArg = "" ∨
      ¬ (bareDomain domainArg).toList.all isBareDomainChar ∨
      '/' ∈ (bareDomain domainArg).toList ∨ ':' ∈ (bareDomain domainArg).toList
  · rw [if_pos hbad] at h
    cases h
  rw [if_neg hbad] at h
  simp only [not_or, not_not] at hbad
  obtain ⟨_, hloaded, h⟩ := except_bind_eq_ok.mp h
  obtain rfl := Except.ok.inj hloaded
  obtain ⟨egresses, hegresses, h⟩ := except_bind_eq_ok.mp h
  obtain ⟨hobj, rfl⟩ := get_eq_ok.mp hegresses
  obtain ⟨egressItems, hitems, h⟩ := except_bind_eq_ok.mp h
  obtain ⟨found, hfound, h⟩ := except_bind_eq_ok.mp h
  cases found with
  | false =>
      rw [if_pos (by simp)] at h
      cases h
  | true =>
      rw [if_neg (by simp)] at h
      obtain ⟨policies, hpolicies, h⟩ := except_bind_eq_ok.mp h
      obtain ⟨-, rfl⟩ := get_eq_ok.mp hpolicies
      obtain ⟨policies, hpolicies, h⟩ := except_bind_eq_ok.mp h
      obtain rfl := policyItems_of_elements hpolicies
      obtain ⟨⟨⟩, hdup, h⟩ := except_bind_eq_ok.mp h
      obtain ⟨-, hwritten⟩ := setItem_eq_ok.mp h
      obtain ⟨item, hitem, hnamed⟩ := exists_of_anyNamed hfound
      refine ⟨hobj, List.all_eq_true.mp hbad.2.1, hbad.1, ?_, ?_, passes_of_refuseDuplicate hdup,
        hwritten⟩
      · rw [bareDomain, String.toList_ofList, trimEndDots, trimEndDots, List.rdropWhile_idempotent]
      · rcases elements_eq_ok hitems with ⟨-, rfl⟩ | hsome
        · cases hitem
        · exact ⟨egressItems, hsome, item, hitem, hnamed⟩

section Added

variable {domain egress policyId : String} (hdecode : Config.decode value = some cfg)
  (hadded : DomainAdded domain egress policyId value value')

include hdecode hadded

theorem acceptedAgain_added (hvalid : cfg.validate = .ok ()) :
    AcceptedAgain value' ↔
      ValidPolicies (egressNames cfg.egressInterfaces) (enabledEgressNames cfg.egressInterfaces)
        (cfg.policies.filter (fun policy => ¬ policy.id = policyId) ++
          [⟨policyId, true, { domain := some domain }, ⟨egress⟩⟩]) := by
  obtain ⟨-, hitems⟩ := policyItems_of_decode hadded.isObj hdecode
  have hkept : Decodes Policy.decode (withoutId policyId (policyItems value))
      (cfg.policies.filter (fun policy => ¬ policy.id = policyId)) := by
    refine decodes_filter hitems fun item hitem policy hread => ?_
    rw [isText_id (hadded.passes item hitem).1 hread]
    simp
  have hparsed := decode_setPolicies hadded.isObj hdecode
    (decodes_append hkept (.cons (decode_domainPolicyItem policyId domain egress) .nil))
  rw [← hadded.written] at hparsed
  exact (acceptedAgain_iff hparsed).trans (validate_setPolicies_iff hvalid _)

theorem known_of_added : egress ∈ egressNames cfg.egressInterfaces := by
  obtain ⟨items, hget, item, hitem, hobj, htext⟩ := hadded.found
  obtain ⟨members, rfl⟩ := hadded.isObj
  obtain ⟨items', hget', hdecoded⟩ := Config.egressItems_of_decode hdecode
  rw [hget, Option.some.injEq, Json.arr.injEq] at hget'
  subst hget'
  obtain ⟨e, he, hread⟩ := exists_right_of_forall₂ hdecoded hitem
  rw [isText_name hobj hread, decide_eq_true_eq] at htext
  exact List.mem_map.mpr ⟨e, he, htext⟩

/-- The kept policies do not use the domain if those do not that leave out `enabled`. -/
theorem domain_unused_iff :
    (∀ item ∈ policyItems value, ∀ policy, Policy.decode item = some policy →
        policy.id ≠ policyId → item.get "enabled" = none → domain ∉ policy.domainKeys) ↔
      domain ∉ (cfg.policies.filter (fun policy => ¬ policy.id = policyId)).flatMap policyKeys := by
  obtain ⟨-, hitems⟩ := policyItems_of_decode hadded.isObj hdecode
  constructor
  · intro hfree hused
    obtain ⟨policy, hpolicy, hown⟩ := List.mem_flatMap.mp hused
    obtain ⟨hpolicy, hid⟩ := List.mem_filter.mp hpolicy
    obtain ⟨item, hitem, hread⟩ := exists_left_of_forall₂ hitems hpolicy
    by_cases henabled : policy.enabled = true
    · rw [policyKeys, if_pos henabled] at hown
      by_cases habsent : item.get "enabled" = none
      · exact hfree item hitem policy hread (of_decide_eq_true hid) habsent hown
      · exact not_mem_domainKeys hadded.chars hadded.dots (hadded.passes item hitem) hread
          (of_decide_eq_true hid) habsent henabled hown
    · rw [policyKeys, if_neg henabled] at hown
      cases hown
  · intro hunused item hitem policy hread hid habsent hmem
    obtain ⟨policy', hpolicy, hread'⟩ := exists_right_of_forall₂ hitems hitem
    obtain rfl := Option.some.inj (hread.symm.trans hread')
    have henabled : policy.enabled = true := by
      have hdefault := (policyReads_of_decode (hadded.passes item hitem).1 hread).enabled
      rw [habsent] at hdefault
      exact (Option.some.inj hdefault).symm
    refine hunused (List.mem_flatMap.mpr
      ⟨policy, List.mem_filter.mpr ⟨hpolicy, decide_eq_true hid⟩, ?_⟩)
    rw [policyKeys, if_pos henabled]
    exact hmem

/-- The written configuration is accepted if and only if the new policy fits. -/
theorem added_accepted_iff (hvalid : cfg.validate = .ok ())
    (hnamed : trimmedEmpty policyId = false) :
    AcceptedAgain value' ↔ AddDomainFits domain egress policyId value cfg := by
  obtain ⟨-, -, -, hpolicies⟩ := validate_eq_ok_iff.mp hvalid
  have hkey := domainKey_of_bare hadded.chars hadded.dots
  have hkeys : policyKeys ⟨policyId, true, { domain := some domain }, ⟨egress⟩⟩ = [domain] := by
    change [domainKey domain] = [domain]
    rw [hkey]
  have hkept := hpolicies.sublist
    (List.filter_sublist (p := fun policy => ¬ policy.id = policyId) (l := cfg.policies))
  have hfresh : policyId ∉
      (cfg.policies.filter (fun policy => ¬ policy.id = policyId)).map (·.id) := by
    intro hmem
    obtain ⟨policy, hpolicy, hid⟩ := List.mem_map.mp hmem
    exact (of_decide_eq_true (List.mem_filter.mp hpolicy).2) hid
  rw [acceptedAgain_added hdecode hadded hvalid, validPolicies_append_singleton, AddDomainFits,
    domain_unused_iff hdecode hadded, hkeys, List.forall_mem_singleton]
  constructor
  · rintro ⟨-, hself, -, hunused⟩
    exact ⟨hself.enabled rfl, hunused⟩
  · rintro ⟨henabled, hunused⟩
    refine ⟨hkept, ⟨hnamed, ?_, known_of_added hdecode hadded, fun _ => henabled, rfl⟩, hfresh,
      hunused⟩
    intro d hd
    rw [← Option.some.inj hd, hkey]
    exact hadded.nonempty

end Added

end AddDomain

end EveNet
