import EveNet.EditorsAccepted

/-!
# The numbers of an edited file

An editor reads all numbers of the file and prints them again, those in members that the program
does not know too. A configuration keeps its meaning by this, but an infinity makes the file
unreadable for the program, unless the editor drops the part that the number is in.
-/

namespace EveNet

open Python

/-! ### What Python reads and prints -/

namespace Python

section Files

variable {numbers : Numbers} {value : Json}

/-- The value as the script has it. -/
def loaded (numbers : Numbers) (value : Json) : Json := value.renumber numbers.text

theorem loads_eq_ok {out : Json} (h : loads numbers value = .ok out) : out = loaded numbers value := by
  unfold loads at h
  split_ifs at h
  exact (Except.ok.inj h).symm

theorem keepsNaturals_text (numbers : Numbers) : KeepsNaturals numbers.text := by
  intro text value h
  simp only [Json.asNat] at h
  split_ifs at h with hdigits
  have hwhole : isWhole text = true := by
    refine List.all_eq_true.mpr fun c hc => ?_
    rw [List.all_eq_true.mp hdigits.1 c hc, Bool.true_or]
  have hminus : text ≠ "-0" := by
    rintro rfl
    exact absurd hdigits.1 (by decide)
  rw [Numbers.text, if_pos hwhole, if_neg hminus]

/-- The text that a number is held with is finite if the number is. -/
theorem isFinite_text (numbers : Numbers) (literal : String) :
    isFinite (numbers.text literal) = isFinite literal := by
  unfold Numbers.text
  split_ifs with hwhole hzero hrange
  · subst hzero
    decide
  · rfl
  · rfl
  · rw [Bool.not_eq_true] at hrange
    rw [numbers.finite literal hrange, isFinite, hrange, Bool.not_false, Bool.or_true]

/-- What is finite when it is written is finite when it is read. -/
theorem finite_loaded (h : value.allNumbers isFinite = true) :
    (loaded numbers value).allNumbers isFinite = true := by
  have htext : isFinite ∘ numbers.text = isFinite := funext (isFinite_text numbers)
  rw [loaded, Json.allNumbers_renumber, htext]
  exact Json.allNumbers_lasts h

/-- Read again, a value is what it was decoded to. -/
theorem decode_loaded {cfg : Config} (h : Config.decode value = some cfg) :
    Config.decode (loaded numbers value) = some cfg :=
  reread_config (keepsNaturals_text numbers) value cfg h

theorem distinct_loaded : (loaded numbers value).Distinct := Json.distinct_renumber _ _

theorem json_of_dumps {value' : Json} (h : .json value' = dumps value) : value = value' := by
  unfold dumps at h
  split_ifs at h
  exact (ConfigContent.json.inj h).symm

/-- What a script that goes through has written. -/
theorem runEditor_eq_ok {edit : Except EditError Json → Except EditError Json}
    {write : ConfigWrite} {content : ConfigContent}
    (h : runEditor numbers edit write value = (.ok (), content)) :
    ∃ value', edit (loads numbers value) = .ok value' ∧ content = dumps value' := by
  unfold runEditor at h
  cases hedit : edit (loads numbers value) with
  | error e =>
      rw [hedit] at h
      cases (Prod.mk.inj h).1
  | ok value' =>
      rw [hedit] at h
      cases write with
      | done => exact ⟨value', rfl, (Prod.mk.inj h).2.symm⟩
      | refused cause => cases (Prod.mk.inj h).1
      | interrupted cause left => cases (Prod.mk.inj h).1

end Files

end Python

/-- The content is a configuration that is read and passes. -/
def ConfigContent.Accepted : ConfigContent → Prop
  | .absent => False
  | .malformed => False
  | .json value => AcceptedAgain value

theorem accepted_dumps {value : Json} : (dumps value).Accepted ↔
    value.allNumbers isFinite = true ∧ AcceptedAgain value := by
  unfold dumps
  split_ifs with hfinite
  · exact (and_iff_right hfinite).symm
  · exact ⟨False.elim, fun h => hfinite h.1⟩

theorem loaded_of_apply {edit : ConfigEdit} {numbers : Numbers} {value value' : Json}
    (h : edit.apply (loads numbers value) = .ok value') :
    edit.apply (.ok (loaded numbers value)) = .ok value' := by
  cases hloads : loads numbers value with
  | ok out => rwa [← loads_eq_ok hloads, ← hloads]
  | error e =>
      rw [hloads] at h
      cases edit with
      | addDomainPolicy domain egress policyId =>
          simp only [ConfigEdit.apply, addDomainPolicy] at h
          split_ifs at h
          cases h
      | enableWgPolicy iface =>
          simp only [ConfigEdit.apply, enableWgPolicy] at h
          split_ifs at h
          cases h
      | enableAmneziaPolicy iface domain => cases h

/-- What an editor that goes through has made of the loaded value. -/
theorem applied_of_run {edit : ConfigEdit} {numbers : Numbers} {write : ConfigWrite}
    {value value' : Json} (h : edit.run numbers write value = (.ok (), .json value')) :
    edit.apply (.ok (loaded numbers value)) = .ok value' := by
  obtain ⟨out, hedit, hcontent⟩ := runEditor_eq_ok h
  rw [json_of_dumps hcontent] at hedit
  exact loaded_of_apply hedit

/-! ### The parts that are kept -/

section Kept

variable {p : String → Bool} {items items' : List Json} {item item' : Json} {key : String}

def isNamed (name : String) (item : Json) : Bool := isText (item.get "name") name

def staysListed (policy : Json) : Bool := ¬ amneziaIds.any (isText (policy.get "id"))

/-- The parts of a policy that enable-amnezia-policy.sh keeps. -/
def keptParts (policy : Json) : List Json :=
  if isText (policy.get "id") googleDirectId then policy.rest ["action"] else [policy]

/-- The parts of the value that an editor writes back. -/
def ConfigEdit.kept (value : Json) : ConfigEdit → List Json
  | .addDomainPolicy domain egress policyId =>
    value.rest ["policies"] ++
      withoutId (policyIdFor (bareDomain domain) (String.ofList (strip egress.toList))
        (String.ofList (strip policyId.toList))) (policyItems value)
  | .enableWgPolicy _ => [value]
  | .enableAmneziaPolicy iface _ =>
    value.rest ["egress_interfaces", "policies"] ++
      (egressItems value).eraseP (isNamed (if iface = "" then "amn0" else iface)) ++
      ((policyItems value).filter staysListed).flatMap keptParts

/-- None of the numbers that are kept is an infinity. -/
def ConfigEdit.KeepsFinite (value : Json) (edit : ConfigEdit) : Prop :=
  ∀ part ∈ edit.kept value, part.allNumbers isFinite = true

/-! #### Flags -/

theorem allNumbers_of_flag {default b : Bool} {member : Option Json}
    (h : withDefault default Json.asBool member = some b) :
    ∀ old, member = some old → old.allNumbers p = true := by
  rintro old rfl
  cases old with
  | bool b => rfl
  | null => cases h
  | num text => cases h
  | str s => cases h
  | arr items => cases h
  | obj members => cases h

/-- The item is left alone, or its flag is set. -/
def Flagged (item item' : Json) : Prop :=
  item' = item ∨ item.IsObj ∧ ∃ b, item' = item.set "enabled" (.bool b)

theorem flagged_of_setItem {b : Bool} (h : setItem item "enabled" (.bool b) = .ok item') :
    Flagged item item' := by
  obtain ⟨hobj, rfl⟩ := setItem_eq_ok.mp h
  exact Or.inr ⟨hobj, b, rfl⟩

theorem flagged_enableNamed {iface : String} (h : enableNamed iface item = .ok item') :
    Flagged item item' := by
  obtain ⟨name, -, h⟩ := except_bind_eq_ok.mp h
  split_ifs at h
  · exact flagged_of_setItem h
  · exact Or.inl (Except.ok.inj h).symm

theorem flagged_enableRouted {iface : String} (h : enableRouted iface item = .ok item') :
    Flagged item item' := by
  obtain ⟨action, -, h⟩ := except_bind_eq_ok.mp h
  obtain ⟨egress, -, h⟩ := except_bind_eq_ok.mp h
  split_ifs at h
  · exact flagged_of_setItem h
  · exact Or.inl (Except.ok.inj h).symm

theorem flagged_disableWg (h : disableWg item = .ok item') : Flagged item item' := by
  obtain ⟨name, -, h⟩ := except_bind_eq_ok.mp h
  split_ifs at h
  · exact flagged_of_setItem h
  · exact Or.inl (Except.ok.inj h).symm

theorem flagged_disableTemplate (h : disableTemplate item = .ok item') : Flagged item item' := by
  obtain ⟨id, -, h⟩ := except_bind_eq_ok.mp h
  split_ifs at h
  · exact flagged_of_setItem h
  · exact Or.inl (Except.ok.inj h).symm

/-- The flag that is set was a flag before, if it was there. -/
def HadFlag (item : Json) : Prop :=
  item.IsObj → ∃ b, withDefault true Json.asBool (item.get "enabled") = some b

theorem hadFlag_egress {egress : EgressInterface} (h : EgressInterface.decode item = some egress) :
    HadFlag item := by
  rintro ⟨members, rfl⟩
  unfold EgressInterface.decode at h
  simp only [Option.bind_eq_bind, Option.bind_eq_some_iff] at h
  obtain ⟨field, hfield, enabled, henabled, -⟩ := h
  rw [Json.fields_obj hfield] at henabled
  exact ⟨enabled, henabled⟩

theorem hadFlag_policy {policy : Policy} (h : Policy.decode item = some policy) : HadFlag item :=
  fun hobj => ⟨policy.enabled, (policyReads_of_decode hobj h).enabled⟩

theorem allNumbers_flagged (hdistinct : item.Distinct) (hflag : HadFlag item)
    (h : Flagged item item') : item'.allNumbers p = true ↔ item.allNumbers p = true := by
  rcases h with rfl | ⟨⟨members, rfl⟩, b, rfl⟩
  · exact Iff.rfl
  · obtain ⟨b', hb⟩ := hflag ⟨members, rfl⟩
    exact Json.allNumbers_set_same (Json.distinct_obj.mp hdistinct).1
      (iff_of_true rfl (allNumbers_of_flag hb))

/-- The items are flagged one by one. -/
theorem allNumbers_flaggedItems {edit : Json → Except EditError Json}
    (hdistinct : (Json.arr items).Distinct) (hflags : ∀ item ∈ items, HadFlag item)
    (hmap : items.mapM edit = .ok items')
    (hedit : ∀ item item', edit item = .ok item' → Flagged item item') :
    (Json.arr items').allNumbers p = true ↔ (Json.arr items).allNumbers p = true := by
  have hitems := Json.distinct_arr.mp hdistinct
  have hpairs := mapM_eq_ok_iff.mp hmap
  refine Json.allNumbers_arr_congr ?_
  clear hmap hdistinct
  induction hpairs with
  | nil => exact .nil
  | cons hitem _ ih =>
      rw [List.forall_mem_cons] at hitems hflags
      exact .cons (allNumbers_flagged hitems.1 hflags.1 (hedit _ _ hitem))
        (ih hflags.2 hitems.2)

/-- What is known of the items that are flagged. -/
theorem Flagged.distinct (h : Flagged item item') (hdistinct : item.Distinct) : item'.Distinct := by
  rcases h with rfl | ⟨-, b, rfl⟩
  · exact hdistinct
  · exact Json.distinct_set hdistinct trivial

theorem Flagged.hadFlag (h : Flagged item item') (hflag : HadFlag item) : HadFlag item' := by
  rcases h with rfl | ⟨⟨members, rfl⟩, b, rfl⟩
  · exact hflag
  · intro _
    rw [Json.get_set_obj, if_pos rfl]
    exact ⟨b, rfl⟩

theorem Flagged.get (h : Flagged item item') (hkey : "enabled" ≠ key) :
    item'.get key = item.get key := by
  rcases h with rfl | ⟨-, b, rfl⟩
  · rfl
  · exact Json.get_set_of_ne item hkey

theorem Flagged.rest {P : Json → Prop} {names : List String} (h : Flagged item item')
    (hdistinct : item.Distinct) (hflag : HadFlag item) (hname : "enabled" ∉ names)
    (hP : ∀ b, P (.bool b)) :
    (∀ part ∈ item'.rest names, P part) ↔ ∀ part ∈ item.rest names, P part := by
  rcases h with rfl | ⟨⟨members, rfl⟩, b, rfl⟩
  · exact Iff.rfl
  · obtain ⟨b', hb⟩ := hflag ⟨members, rfl⟩
    refine Json.forall_rest_set_same (Json.distinct_obj.mp hdistinct).1 hname
      (iff_of_true (hP b) fun old hold => ?_)
    rw [hold] at hb
    cases old with
    | bool b => exact hP b
    | null => cases hb
    | num text => cases hb
    | str s => cases hb
    | arr items => cases hb
    | obj members => cases hb

end Kept

/-! ### add-domain-policy.sh -/

section Added

variable {p : String → Bool} {value value' : Json} {domain egress policyId : String}

theorem allNumbers_added (hdistinct : value.Distinct)
    (h : DomainAdded domain egress policyId value value') : value'.allNumbers p = true ↔
      ∀ part ∈ value.rest ["policies"] ++ withoutId policyId (policyItems value),
        part.allNumbers p = true := by
  obtain ⟨members, rfl⟩ := h.isObj
  have hitem : (domainPolicyItem policyId domain egress).allNumbers p = true := rfl
  rw [h.written, Json.allNumbers_set_rest (Json.distinct_obj.mp hdistinct).1, Json.allNumbers_arr,
    List.forall_mem_append, List.forall_mem_append, List.forall_mem_singleton, and_iff_left hitem,
    and_comm]

end Added

/-! ### enable-wg-policy.sh -/

section Lists

variable {p : String → Bool} {value value' : Json} {cfg : Config} {items : List Json}

/-- The items of a configuration, each with a flag if it has one. -/
theorem items_of_decode (hobj : value.IsObj) (hdecode : Config.decode value = some cfg)
    (hdistinct : value.Distinct) (hitems : value.get "egress_interfaces" = some (.arr items)) :
    ((∀ item ∈ items, item.Distinct ∧ HadFlag item) ∧ egressItems value = items) ∧
      value.get "policies" = some (.arr (policyItems value)) ∧
        ∀ item ∈ policyItems value, item.Distinct ∧ HadFlag item := by
  have hegresses := Json.distinct_arr.mp (Json.distinct_get hdistinct hitems)
  obtain ⟨hpolicyItems, hpolicies⟩ := policyItems_of_decode hobj hdecode
  have hpolicyDistinct := Json.distinct_arr.mp (Json.distinct_get hdistinct hpolicyItems)
  obtain ⟨members, rfl⟩ := hobj
  obtain ⟨items', hitems', hdecoded⟩ := Config.egressItems_of_decode hdecode
  rw [hitems, Option.some.injEq, Json.arr.injEq] at hitems'
  subst hitems'
  refine ⟨⟨fun item hitem => ⟨hegresses item hitem, ?_⟩, by rw [egressItems, hitems]; rfl⟩,
    hpolicyItems, fun item hitem => ⟨hpolicyDistinct item hitem, ?_⟩⟩
  · obtain ⟨egress, -, hread⟩ := exists_right_of_forall₂ hdecoded hitem
    exact hadFlag_egress hread
  · obtain ⟨policy, -, hread⟩ := exists_right_of_forall₂ hpolicies hitem
    exact hadFlag_policy hread

theorem allNumbers_wgEnabled {iface : String} {items' policies' : List Json} (hobj : value.IsObj)
    (hdecode : Config.decode value = some cfg) (hdistinct : value.Distinct)
    (hitems : value.get "egress_interfaces" = some (.arr items))
    (h : WgEnabled iface value value' items items' policies') :
    value'.allNumbers p = true ↔ value.allNumbers p = true := by
  obtain ⟨⟨hegresses, -⟩, hpolicyItems, hpolicies⟩ :=
    items_of_decode hobj hdecode hdistinct hitems
  obtain ⟨members, rfl⟩ := hobj
  have hnames := (Json.distinct_obj.mp hdistinct).1
  have hfirst : (Json.arr items').allNumbers p = true ↔
      ∀ old, (Json.obj members).get "egress_interfaces" = some old → old.allNumbers p = true := by
    rw [hitems]
    simp only [Option.some.injEq, forall_eq']
    exact allNumbers_flaggedItems (Json.distinct_get hdistinct hitems)
      (fun item hitem => (hegresses item hitem).2) h.egresses fun _ _ => flagged_enableNamed
  have hsecond : (Json.arr policies').allNumbers p = true ↔
      ∀ old, ((Json.obj members).set "egress_interfaces" (.arr items')).get "policies" =
        some old → old.allNumbers p = true := by
    rw [Json.get_set_of_ne _ (by decide), hpolicyItems]
    simp only [Option.some.injEq, forall_eq']
    exact allNumbers_flaggedItems (Json.distinct_get hdistinct hpolicyItems)
      (fun item hitem => (hpolicies item hitem).2) h.policies fun _ _ => flagged_enableRouted
  rw [h.written]
  exact (Json.allNumbers_set_same (KeyedList.nodup_upsert Prod.fst hnames) hsecond).trans
    (Json.allNumbers_set_same hnames hfirst)

end Lists

/-! ### enable-amnezia-policy.sh -/

section Amnezia

variable {p : String → Bool} {items items' : List Json} {item item' : Json} {iface : String}

theorem allNumbers_placeEgress {e : Json} (he : e.allNumbers p = true) (items : List Json) :
    (Json.arr (placeEgress iface e items)).allNumbers p = true ↔
      ∀ item ∈ items.eraseP (isNamed iface), item.allNumbers p = true := by
  rw [Json.allNumbers_arr]
  induction items with
  | nil => simpa [placeEgress] using he
  | cons a items ih =>
      by_cases hname : isNamed iface a = true
      · have htext : isText (a.get "name") iface = true := hname
        rw [placeEgress, if_pos htext, List.eraseP_cons_of_pos hname, List.forall_mem_cons,
          and_iff_right he]
      · have htext : ¬ isText (a.get "name") iface = true := hname
        rw [placeEgress, if_neg htext, List.eraseP_cons_of_neg hname, List.forall_mem_cons,
          List.forall_mem_cons, ih]

/-- Flagged items, without the first of the name. -/
theorem allNumbers_eraseP (h : List.Forall₂ (fun item item' =>
      (item.Distinct ∧ HadFlag item) ∧ Flagged item item') items items') :
    (∀ item ∈ items'.eraseP (isNamed iface), item.allNumbers p = true) ↔
      ∀ item ∈ items.eraseP (isNamed iface), item.allNumbers p = true := by
  induction h with
  | nil => rfl
  | @cons a b items items' hab hrest ih =>
      obtain ⟨⟨hdistinct, hflag⟩, hflagged⟩ := hab
      have hsame : isNamed iface b = isNamed iface a := by
        rw [isNamed, hflagged.get (by decide), isNamed]
      by_cases hname : isNamed iface a = true
      · rw [List.eraseP_cons_of_pos hname, List.eraseP_cons_of_pos (hsame.trans hname)]
        exact forall_mem_iff_of_forall₂ (hrest.imp fun _ _ hpair =>
          allNumbers_flagged hpair.1.1 hpair.1.2 hpair.2)
      · rw [List.eraseP_cons_of_neg hname, List.eraseP_cons_of_neg (hsame ▸ hname),
          List.forall_mem_cons, List.forall_mem_cons, ih,
          allNumbers_flagged hdistinct hflag hflagged]

theorem keptParts_flagged (hdistinct : item.Distinct) (hflag : HadFlag item)
    (h : Flagged item item') : (∀ part ∈ keptParts item', part.allNumbers p = true) ↔
      ∀ part ∈ keptParts item, part.allNumbers p = true := by
  unfold keptParts
  rw [h.get (by decide)]
  split_ifs
  · exact h.rest hdistinct hflag (by decide) fun _ => rfl
  · rw [List.forall_mem_singleton, List.forall_mem_singleton]
    exact allNumbers_flagged hdistinct hflag h

/-- The policy of the direct Wi-Fi loses its action, others at most change their flag. -/
theorem allNumbers_splitDirect (hdistinct : item.Distinct) (hflag : HadFlag item)
    (h : splitDirect item = .ok item') :
    item'.allNumbers p = true ↔ ∀ part ∈ keptParts item, part.allNumbers p = true := by
  obtain ⟨id, hid, h⟩ := except_bind_eq_ok.mp h
  obtain ⟨⟨members, rfl⟩, rfl⟩ := get_eq_ok.mp hid
  have hother : ∀ {new : Json}, ¬ isText ((Json.obj members).get "id") googleDirectId = true →
      Flagged (.obj members) new → (new.allNumbers p = true ↔
        ∀ part ∈ keptParts (.obj members), part.allNumbers p = true) := by
    intro new hgoogle hflagged
    rw [keptParts, if_neg hgoogle, List.forall_mem_singleton]
    exact allNumbers_flagged hdistinct hflag hflagged
  have hnames := (Json.distinct_obj.mp hdistinct).1
  split_ifs at h with hcloudflare hgoogle
  · refine hother (fun hgoogle => ?_) (flagged_of_setItem h)
    have hids : some cloudflareDirectId = some googleDirectId :=
      (of_decide_eq_true hcloudflare).symm.trans (of_decide_eq_true hgoogle)
    exact absurd hids (by decide)
  · obtain ⟨enabled, henabled, h⟩ := except_bind_eq_ok.mp h
    have hflagged := flagged_of_setItem henabled
    obtain ⟨-, rfl⟩ := setItem_eq_ok.mp henabled
    obtain ⟨-, rfl⟩ := setItem_eq_ok.mp h
    rw [keptParts, if_pos hgoogle]
    refine (Json.allNumbers_set_rest (KeyedList.nodup_upsert Prod.fst hnames)).trans ?_
    have haction : (Json.obj [("egress", .str "wlo1")]).allNumbers p = true := rfl
    rw [and_iff_right haction]
    exact hflagged.rest hdistinct hflag (by decide) fun _ => rfl
  · exact hother hgoogle (Or.inl (Except.ok.inj h).symm)

/-- Only a flag of the runtime's settings is changed. -/
theorem allNumbers_appliedRuntime {value : Json} {cfg : Config} (hobj : value.IsObj)
    (hdecode : Config.decode value = some cfg) (hdistinct : value.Distinct)
    (hruntime : ((value.get "runtime").getD (.obj [])).IsObj) :
    (appliedRuntime value).allNumbers p = true ↔
      ∀ old, value.get "runtime" = some old → old.allNumbers p = true := by
  unfold appliedRuntime
  cases hget : value.get "runtime" with
  | none => exact iff_of_true rfl nofun
  | some old =>
      rw [hget] at hruntime
      obtain ⟨runtime, hold⟩ := hruntime
      obtain rfl : old = .obj runtime := hold
      obtain ⟨members, rfl⟩ := hobj
      unfold Config.decode at hdecode
      simp only [Option.bind_eq_bind, Option.bind_eq_some_iff] at hdecode
      obtain ⟨field, hfield, _, -, cfgRuntime, hread, -⟩ := hdecode
      rw [Json.fields_obj hfield] at hread
      change withDefault {} RuntimeConfig.decode ((Json.obj members).get "runtime") =
        some cfgRuntime at hread
      rw [hget] at hread
      change RuntimeConfig.decode (.obj runtime) = some cfgRuntime at hread
      unfold RuntimeConfig.decode at hread
      simp only [Option.bind_eq_bind, Option.bind_eq_some_iff] at hread
      obtain ⟨inner, hinner, dryRun, hdryRun, -⟩ := hread
      rw [Json.fields_obj hinner] at hdryRun
      have hnames := (Json.distinct_obj.mp (Json.distinct_get hdistinct hget)).1
      simp only [Option.getD_some, Option.some.injEq, forall_eq']
      exact Json.allNumbers_set_same hnames (iff_of_true rfl (allNumbers_of_flag hdryRun))

theorem allNumbers_amnezia {value value' : Json} {cfg : Config} {domain : String}
    {disabled templates kept : List Json} (hobj : value.IsObj)
    (hdecode : Config.decode value = some cfg) (hdistinct : value.Distinct)
    (hitems : value.get "egress_interfaces" = some (.arr items))
    (hp : (amneziaItem iface).allNumbers p = true)
    (h : AmneziaEnabled iface domain value value' items disabled templates kept) :
    value'.allNumbers p = true ↔
      ∀ part ∈ value.rest ["egress_interfaces", "policies"] ++ items.eraseP (isNamed iface) ++
        ((policyItems value).filter staysListed).flatMap keptParts,
        part.allNumbers p = true := by
  obtain ⟨⟨hegresses, -⟩, -, hpolicies⟩ := items_of_decode hobj hdecode hdistinct hitems
  -- The items of both lists, next to what their flags are made.
  have hdisabled : List.Forall₂ (fun item item' =>
      (item.Distinct ∧ HadFlag item) ∧ Flagged item item') items disabled :=
    (List.forall₂_and_left _ _).mpr ⟨hegresses,
      (mapM_eq_ok_iff.mp h.egressesOff).imp fun _ _ => flagged_disableWg⟩
  have htemplates : List.Forall₂ (fun item item' =>
      (item.Distinct ∧ HadFlag item) ∧ Flagged item item') (policyItems value) templates :=
    (List.forall₂_and_left _ _).mpr ⟨hpolicies,
      (mapM_eq_ok_iff.mp h.templatesOff).imp fun _ _ => flagged_disableTemplate⟩
  have hplaced : (Json.arr (placeEgress iface (amneziaItem iface) disabled)).allNumbers p = true ↔
      ∀ item ∈ items.eraseP (isNamed iface), item.allNumbers p = true :=
    (allNumbers_placeEgress hp disabled).trans (allNumbers_eraseP hdisabled)
  have hstay : List.Forall₂ (fun item item' =>
      (item.Distinct ∧ HadFlag item) ∧ Flagged item item')
      ((policyItems value).filter staysListed) (templates.filter staysListed) := by
    refine List.rel_filter (fun item item' hpair => ?_) htemplates
    change staysListed item = true ↔ staysListed item' = true
    rw [staysListed, staysListed, hpair.2.get (by decide)]
  have hkept : (∀ item ∈ kept, item.allNumbers p = true) ↔
      ∀ part ∈ ((policyItems value).filter staysListed).flatMap keptParts,
        part.allNumbers p = true := by
    have hparts : (∀ item ∈ templates.filter staysListed,
        ∀ part ∈ keptParts item, part.allNumbers p = true) ↔
          ∀ item ∈ (policyItems value).filter staysListed,
            ∀ part ∈ keptParts item, part.allNumbers p = true :=
      forall_mem_iff_of_forall₂ (hstay.imp fun _ _ hpair =>
        keptParts_flagged hpair.1.1 hpair.1.2 hpair.2)
    have htemplate : ∀ item ∈ templates.filter staysListed, item.Distinct ∧ HadFlag item := by
      intro item hitem
      obtain ⟨old, -, hold, hflagged⟩ := exists_left_of_forall₂ hstay hitem
      exact ⟨hflagged.distinct hold.1, hflagged.hadFlag hold.2⟩
    have hsplit : (∀ item ∈ kept, item.allNumbers p = true) ↔
        ∀ item ∈ templates.filter staysListed, ∀ part ∈ keptParts item,
          part.allNumbers p = true :=
      forall_mem_iff_of_forall₂ (((List.forall₂_and_left _ _).mpr
        ⟨htemplate, mapM_eq_ok_iff.mp h.split⟩).imp fun _ _ hpair =>
          allNumbers_splitDirect hpair.1.1 hpair.1.2 hpair.2)
    simp only [List.mem_flatMap, forall_exists_index, and_imp]
    rw [hsplit, hparts]
    exact ⟨fun hall part item hitem hpart => hall item hitem part hpart,
      fun hall item hitem part hpart => hall part item hitem hpart⟩
  have hruntime := allNumbers_appliedRuntime (p := p) hobj hdecode hdistinct h.runtime
  obtain ⟨members, rfl⟩ := hobj
  have hnames := (Json.distinct_obj.mp hdistinct).1
  have hfirst := KeyedList.nodup_upsert Prod.fst (a := ("runtime", appliedRuntime (.obj members)))
    hnames
  have hsecond := KeyedList.nodup_upsert Prod.fst (a := ("egress_interfaces",
    Json.arr (placeEgress iface (amneziaItem iface) disabled))) hfirst
  have hitemsFree : ∀ item ∈ amneziaPolicyItems iface domain, item.allNumbers p = true := by
    unfold amneziaPolicyItems
    split_ifs
    · exact List.forall_mem_singleton.mpr rfl
    · exact List.forall_mem_cons.mpr ⟨rfl, List.forall_mem_singleton.mpr rfl⟩
  have hpolicies : (Json.arr (kept ++ amneziaPolicyItems iface domain)).allNumbers p = true ↔
      ∀ item ∈ kept, item.allNumbers p = true := by
    rw [Json.allNumbers_arr, List.forall_mem_append, and_iff_left hitemsFree]
  rw [h.written, List.forall_mem_append, List.forall_mem_append, ← hkept, ← hplaced, ← hpolicies]
  refine (Json.allNumbers_set_rest hsecond).trans ((and_congr_right fun _ =>
    (Json.forall_rest_set hfirst (by decide)).trans (and_congr_right fun _ =>
      Json.forall_rest_set_same hnames (by decide) hruntime)).trans ?_)
  exact ⟨fun h => ⟨⟨h.2.2, h.2.1⟩, h.1⟩, fun h => ⟨h.2, h.1.2, h.1.1⟩⟩

end Amnezia

/-! ### All editors -/

/-- The condition on the configuration under which an editor writes one that is accepted. -/
def ConfigEdit.Fits (value : Json) (cfg : Config) : ConfigEdit → Prop
  | .addDomainPolicy domain egress policyId =>
    AddDomainFits (bareDomain domain) (String.ofList (strip egress.toList))
      (policyIdFor (bareDomain domain) (String.ofList (strip egress.toList))
        (String.ofList (strip policyId.toList))) value cfg
  | .enableWgPolicy iface => EnableWgFits iface cfg
  | .enableAmneziaPolicy iface domain =>
    EnableAmneziaFits (if iface = "" then "amn0" else iface)
      (String.ofList (strip domain.toList)) cfg

section All

variable {edit : ConfigEdit} {numbers : Numbers} {value value' : Json} {cfg : Config}

theorem isObj_of_apply (h : edit.apply (.ok value) = .ok value') : value.IsObj := by
  cases edit with
  | addDomainPolicy domain egress policyId => exact (domainAdded_of_eq_ok h).isObj
  | enableWgPolicy iface =>
      simp only [ConfigEdit.apply, enableWgPolicy] at h
      split_ifs at h
      obtain ⟨_, hloaded, h⟩ := except_bind_eq_ok.mp h
      obtain rfl := Except.ok.inj hloaded
      obtain ⟨member, hmember, -⟩ := except_bind_eq_ok.mp h
      exact (get_eq_ok.mp hmember).1
  | enableAmneziaPolicy iface domain =>
      obtain ⟨_, hloaded, h⟩ := except_bind_eq_ok.mp h
      obtain rfl := Except.ok.inj hloaded
      obtain ⟨member, hmember, -⟩ := except_bind_eq_ok.mp h
      exact (get_eq_ok.mp hmember).1

theorem isObj_of_loaded (h : (loaded numbers value).IsObj) : value.IsObj := by
  obtain ⟨members, hmembers⟩ := h
  exact Json.obj_of_renumber hmembers

/-- Whether a policy leaves out its flag is not changed by reading and writing. -/
theorem get_enabled_renumber {number : String → String} {item : Json} {policy : Policy}
    (h : Policy.decode item = some policy) :
    (item.renumber number).get "enabled" = none ↔ item.get "enabled" = none := by
  cases item with
  | obj members =>
      obtain ⟨field, hfield, -⟩ := Option.bind_eq_some_iff.mp h
      rw [Json.get_renumber (Json.count_of_fields hfield (by decide)), Option.map_eq_none_iff]
  | arr items =>
      rw [Json.renumber_arr]
      rfl
  | null => rfl
  | bool b => rfl
  | num text => rfl
  | str s => rfl

theorem policyItems_loaded (hobj : value.IsObj) (hdecode : Config.decode value = some cfg) :
    policyItems (loaded numbers value) =
      (policyItems value).map (Json.renumber numbers.text) := by
  obtain ⟨hitems, -⟩ := policyItems_of_decode hobj hdecode
  obtain ⟨members, rfl⟩ := hobj
  obtain ⟨field, hfield, -⟩ := Option.bind_eq_some_iff.mp hdecode
  rw [policyItems, loaded, Json.get_renumber (Json.count_of_fields hfield (by decide)), hitems,
    Option.map_some, Json.renumber_arr]
  rfl

theorem addDomainFits_loaded {domain egress policyId : String} (hobj : value.IsObj)
    (hdecode : Config.decode value = some cfg) :
    AddDomainFits domain egress policyId (loaded numbers value) cfg ↔
      AddDomainFits domain egress policyId value cfg := by
  obtain ⟨-, hpolicies⟩ := policyItems_of_decode hobj hdecode
  have hreread := reread_policy (keepsNaturals_text numbers)
  unfold AddDomainFits
  rw [policyItems_loaded hobj hdecode, List.forall_mem_map]
  refine and_congr_right fun _ => forall₂_congr fun item hitem => ?_
  obtain ⟨policy, -, hpolicy⟩ := exists_right_of_forall₂ hpolicies hitem
  rw [hreread item policy hpolicy, hpolicy, get_enabled_renumber hpolicy]

/-- The value that an editor makes holds an infinity exactly when a part that it keeps does. -/
theorem finite_of_apply (hdecode : Config.decode value = some cfg) (hdistinct : value.Distinct)
    (h : edit.apply (.ok value) = .ok value') :
    value'.allNumbers isFinite = true ↔ edit.KeepsFinite value := by
  have hobj := isObj_of_apply h
  have hitems : ∃ items, value.get "egress_interfaces" = some (.arr items) := by
    obtain ⟨members, rfl⟩ := hobj
    obtain ⟨items, hitems, -⟩ := Config.egressItems_of_decode hdecode
    exact ⟨items, hitems⟩
  obtain ⟨items, hitems⟩ := hitems
  cases edit with
  | addDomainPolicy domain egress policyId =>
      exact allNumbers_added hdistinct (domainAdded_of_eq_ok h)
  | enableWgPolicy iface =>
      obtain ⟨items', policies', hwg⟩ := wgEnabled_of_eq_ok hdecode hitems h
      rw [ConfigEdit.KeepsFinite, ConfigEdit.kept, List.forall_mem_singleton]
      exact allNumbers_wgEnabled hobj hdecode hdistinct hitems hwg
  | enableAmneziaPolicy iface domain =>
      obtain ⟨disabled, templates, kept, hamnezia⟩ :=
        amneziaEnabled_of_eq_ok rfl rfl hdecode hitems h
      have hfinite : ∀ name, (amneziaItem name).allNumbers isFinite = true := fun _ => rfl
      have hread := (items_of_decode hobj hdecode hdistinct hitems).1.2
      rw [ConfigEdit.KeepsFinite, ConfigEdit.kept, hread]
      exact allNumbers_amnezia hobj hdecode hdistinct hitems (hfinite _) hamnezia

/-- What an editor writes is accepted if and only if the edit fits the configuration and keeps
no infinity. -/
theorem edited_accepted_iff {write : ConfigWrite} {content : ConfigContent}
    (hdecode : Config.decode value = some cfg) (hvalid : cfg.validate = .ok ())
    (h : edit.run numbers write value = (.ok (), content)) :
    content.Accepted ↔ edit.Fits value cfg ∧ edit.KeepsFinite (loaded numbers value) := by
  obtain ⟨value', hedit, rfl⟩ := runEditor_eq_ok h
  have hedit := loaded_of_apply hedit
  have hread : Config.decode (loaded numbers value) = some cfg := decode_loaded hdecode
  have hobj := isObj_of_apply hedit
  rw [accepted_dumps, finite_of_apply hread distinct_loaded hedit, and_comm]
  refine and_congr_left fun _ => ?_
  cases edit with
  | addDomainPolicy domain egress policyId =>
      rw [ConfigEdit.Fits, ← addDomainFits_loaded (isObj_of_loaded hobj) hdecode]
      exact added_accepted_iff hread (domainAdded_of_eq_ok hedit) hvalid
        (trimmedEmpty_policyIdFor _ _ _)
  | enableWgPolicy iface => exact enableWg_accepted_iff hread hvalid hobj hedit
  | enableAmneziaPolicy iface domain =>
      exact enableAmnezia_accepted_iff rfl rfl hobj hread hvalid hedit

end All

/-- Numbers that Python prints as they are written. -/
def plainNumbers : Numbers where
  repr := id
  maxDigits := some 4300
  finite literal h := by simp [isFinite, h]

/-- The configuration of the tunnel, with a member that the program does not know. -/
def weightedJson (weight : String) : Json := tunnelJson.set "weight" (.num weight)

theorem edited_accepted_tunnel : ∃ content,
    (ConfigEdit.addDomainPolicy "news.example" "tun0" "").run plainNumbers .done
        (weightedJson "2.5") = (.ok (), content) ∧ content.Accepted := by
  have hdecode : Config.decode (weightedJson "2.5") = some (configOf [tunnel "tun0" 100 100]
      [domainPolicy "office" "office.example" "tun0"]) := by decide
  have hbare : bareDomain "news.example" = "news.example" := by decide
  obtain ⟨content, hrun⟩ : ∃ content, (ConfigEdit.addDomainPolicy "news.example" "tun0" "").run
      plainNumbers .done (weightedJson "2.5") = (.ok (), content) := ⟨_, rfl⟩
  refine ⟨content, hrun, (edited_accepted_iff hdecode (by decide) hrun).mpr
    ⟨⟨by decide, ?_⟩, ?_⟩⟩
  · intro item hitem policy hread _ _
    rw [List.mem_singleton.mp hitem] at hread
    have hoffice : some (domainPolicy "office" "office.example" "tun0") = some policy := hread
    rw [← Option.some.inj hoffice, hbare]
    decide
  · unfold ConfigEdit.KeepsFinite
    decide

/-- The tunnel of the configuration is disabled, and nothing uses it. -/
def idleTunnelJson : Json :=
  .obj [("version", .num "1"), ("wifi_underlay", .obj [("interface", .str "wlan0")]),
    ("egress_interfaces", .arr [.obj [("name", .str "tun0"), ("kind", .str "tunnel"),
      ("enabled", .bool false), ("table", .num "100"), ("fwmark", .num "100")]]),
    ("policies", .arr [])]

/-- A policy is added to a disabled egress. -/
theorem not_edited_accepted : ∃ cfg content, Config.decode idleTunnelJson = some cfg ∧
    cfg.validate = .ok () ∧
    (ConfigEdit.addDomainPolicy "office.example" "tun0" "").run plainNumbers .done
        idleTunnelJson = (.ok (), content) ∧ ¬ content.Accepted := by
  have hdecode : Config.decode idleTunnelJson =
      some (configOf [{ tunnel "tun0" 100 100 with enabled := false }] []) := by decide
  refine ⟨_, _, hdecode, by decide, rfl, fun haccepted => ?_⟩
  have hadded := @domainAdded_of_eq_ok idleTunnelJson _ "office.example" "tun0" "" rfl
  have hfits := (added_accepted_iff hdecode hadded (by decide)
    (trimmedEmpty_policyIdFor _ _ _)).mp (accepted_dumps.mp haccepted).2
  exact absurd hfits.1 (by decide)

end EveNet
