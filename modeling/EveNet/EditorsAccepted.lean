import EveNet.DryRun
import EveNet.EditedConfig

/-!
# The editors that enable tunnels

What the editors of WireGuard and Amnezia tunnels write, and when it is accepted. Both enable
policies that were disabled, so that two policies can come to have one domain; the Amnezia
editor also takes a table and a mark without asking who has them, and disables egresses that
policies may use.
-/

namespace EveNet

open Python

section Lists

variable {α β : Type} {read : Json → Option α} {items : List Json} {l : List α}

theorem decodes_editedIn {E : Json → Except EditError Json} {g : α → α} {items' : List Json}
    (h : Decodes read items l) (hedit : items.mapM E = .ok items')
    (hE : ∀ item a item', read item = some a → E item = .ok item' → read item' = some (g a)) :
    Decodes read items' (l.map g) :=
  decodes_edited h (mapM_eq_ok_iff.mp hedit) hE

/-- What an edit makes of every item. -/
theorem forall_edited {E : Json → Except EditError Json} {P : Json → Prop} {items' : List Json}
    (h : Decodes read items l) (hedit : items.mapM E = .ok items')
    (hE : ∀ item a item', read item = some a → E item = .ok item' → P item') :
    ∀ item' ∈ items', P item' := by
  intro item' hitem'
  obtain ⟨item, hitem, heq⟩ := exists_left_of_forall₂ (mapM_eq_ok_iff.mp hedit) hitem'
  obtain ⟨a, -, hread⟩ := exists_right_of_forall₂ h hitem
  exact hE item a item' hread heq

theorem flatMap_ite (p : α → Bool) (f : α → List β) (l : List α) :
    l.flatMap (fun a => if p a then f a else []) = (l.filter p).flatMap f := by
  induction l with
  | nil => rfl
  | cons a l ih =>
      rw [List.flatMap_cons, ih]
      by_cases hp : p a = true
      · rw [if_pos hp, List.filter_cons_of_pos hp, List.flatMap_cons]
      · rw [if_neg hp, List.filter_cons_of_neg hp, List.nil_append]

end Lists

/-! ### Records with other flags -/

section Flags

variable {egresses : List EgressInterface} {policies : List Policy}

/-- The egress, enabled as `on` says. -/
def EgressInterface.flagged (on : EgressInterface → Bool) (egress : EgressInterface) :
    EgressInterface :=
  { egress with enabled := on egress }

theorem ValidEgresses.flagged (h : ValidEgresses egresses) (on : EgressInterface → Bool) :
    ValidEgresses (egresses.map (EgressInterface.flagged on)) where
  each e he := by
    obtain ⟨egress, hmem, rfl⟩ := List.mem_map.mp he
    obtain ⟨hnamed, hnonzero, hgateway⟩ := h.each egress hmem
    exact ⟨hnamed, hnonzero, hgateway⟩
  names := by
    rw [List.map_map]
    exact h.names
  tables := by
    rw [List.map_map]
    exact h.tables
  marks := by
    rw [List.map_map]
    exact h.marks

theorem egressNames_flagged (on : EgressInterface → Bool) :
    egressNames (egresses.map (EgressInterface.flagged on)) = egressNames egresses := by
  rw [egressNames, List.map_map]
  rfl

theorem mem_enabledEgressNames {name : String} :
    name ∈ enabledEgressNames egresses ↔
      ∃ egress ∈ egresses, egress.enabled = true ∧ egress.name = name := by
  rw [enabledEgressNames, List.mem_map]
  constructor
  · rintro ⟨egress, hmem, hname⟩
    obtain ⟨hmem, henabled⟩ := List.mem_filter.mp hmem
    exact ⟨egress, hmem, henabled, hname⟩
  · rintro ⟨egress, hmem, henabled, hname⟩
    exact ⟨egress, List.mem_filter.mpr ⟨hmem, henabled⟩, hname⟩

theorem mem_enabledEgressNames_flagged {on : EgressInterface → Bool} {name : String} :
    name ∈ enabledEgressNames (egresses.map (EgressInterface.flagged on)) ↔
      ∃ egress ∈ egresses, on egress = true ∧ egress.name = name := by
  rw [mem_enabledEgressNames]
  constructor
  · rintro ⟨e, he, henabled, hname⟩
    obtain ⟨egress, hmem, rfl⟩ := List.mem_map.mp he
    exact ⟨egress, hmem, henabled, hname⟩
  · rintro ⟨egress, hmem, hon, hname⟩
    exact ⟨_, List.mem_map_of_mem hmem, hon, hname⟩

end Flags

/-! ### enable-wg-policy.sh -/

section EnableWg

variable {iface : String} {value value' : Json} {cfg : Config}

/-- Of the policies that are enabled or use the interface no two have one domain. -/
def EnableWgFits (iface : String) (cfg : Config) : Prop :=
  ((cfg.policies.filter (fun policy =>
    policy.enabled || decide (policy.action.egress = iface))).flatMap Policy.domainKeys).Nodup

def wgFlag (iface : String) (egress : EgressInterface) : Bool :=
  if egress.name = iface then true else egress.enabled

def Policy.enabledFor (iface : String) (policy : Policy) : Policy :=
  { policy with enabled := if policy.action.egress = iface then true else policy.enabled }

theorem decode_enableNamed {item item' : Json} {egress : EgressInterface}
    (h : EgressInterface.decode item = some egress) (hedit : enableNamed iface item = .ok item') :
    EgressInterface.decode item' = some (egress.flagged (wgFlag iface)) := by
  obtain ⟨name, hname, hedit⟩ := except_bind_eq_ok.mp hedit
  obtain ⟨hobj, rfl⟩ := get_eq_ok.mp hname
  rw [isText_name hobj h] at hedit
  by_cases hsame : egress.name = iface
  · rw [if_pos (decide_eq_true hsame)] at hedit
    obtain ⟨-, rfl⟩ := setItem_eq_ok.mp hedit
    rw [decode_setEgressEnabled hobj h, EgressInterface.flagged, wgFlag, if_pos hsame]
  · rw [if_neg (by simpa using hsame)] at hedit
    rw [← Except.ok.inj hedit, h, EgressInterface.flagged, wgFlag, if_neg hsame]

theorem decode_enableRouted {item item' : Json} {policy : Policy}
    (h : Policy.decode item = some policy) (hedit : enableRouted iface item = .ok item') :
    Policy.decode item' = some (policy.enabledFor iface) := by
  obtain ⟨action, haction, hedit⟩ := except_bind_eq_ok.mp hedit
  obtain ⟨hobj, rfl⟩ := get_eq_ok.mp haction
  obtain ⟨egress, hegress, hedit⟩ := except_bind_eq_ok.mp hedit
  obtain ⟨hinner, rfl⟩ := get_eq_ok.mp hegress
  rw [isText_routed hobj h hinner] at hedit
  by_cases hsame : policy.action.egress = iface
  · rw [if_pos (decide_eq_true hsame)] at hedit
    obtain ⟨-, rfl⟩ := setItem_eq_ok.mp hedit
    rw [decode_setPolicyEnabled hobj h, Policy.enabledFor, if_pos hsame]
  · rw [if_neg (by simpa using hsame)] at hedit
    rw [← Except.ok.inj hedit, h, Policy.enabledFor, if_neg hsame]

theorem editElements_eq_ok {key : String} {edit : Json → Except EditError Json} {items : List Json}
    (hitems : value.get key = some (.arr items)) (h : editElements key edit value = .ok value') :
    ∃ items', items.mapM edit = .ok items' ∧ value' = value.set key (.arr items') := by
  obtain ⟨member, hmember, h⟩ := except_bind_eq_ok.mp h
  obtain ⟨-, rfl⟩ := get_eq_ok.mp hmember
  rw [hitems] at h
  obtain ⟨elems, helems, h⟩ := except_bind_eq_ok.mp h
  obtain rfl := Except.ok.inj helems
  obtain ⟨items', hmap, h⟩ := except_bind_eq_ok.mp h
  exact ⟨items', hmap, (setItem_eq_ok.mp h).2⟩

theorem flatMap_policyKeys_enabledFor (policies : List Policy) :
    (policies.map (Policy.enabledFor iface)).flatMap policyKeys =
      (policies.filter (fun policy =>
        policy.enabled || decide (policy.action.egress = iface))).flatMap Policy.domainKeys := by
  rw [List.flatMap_map, ← flatMap_ite]
  refine List.flatMap_congr fun policy _ => ?_
  have hflag : (policy.enabledFor iface).enabled =
      (policy.enabled || decide (policy.action.egress = iface)) := by
    change (if policy.action.egress = iface then true else policy.enabled) = _
    by_cases hsame : policy.action.egress = iface
    · simp [hsame]
    · simp [hsame]
  change (if (policy.enabledFor iface).enabled = true then policy.domainKeys else []) = _
  rw [hflag]

/-- With the interface enabled, only the domains of the enabled policies are at stake. -/
theorem validPolicies_enabledFor_iff {egresses : List EgressInterface} {policies : List Policy}
    (hfound : iface ∈ egressNames egresses)
    (h : ValidPolicies (egressNames egresses) (enabledEgressNames egresses) policies) :
    ValidPolicies (egressNames egresses)
        (enabledEgressNames (egresses.map (EgressInterface.flagged (wgFlag iface))))
        (policies.map (Policy.enabledFor iface)) ↔
      ((policies.map (Policy.enabledFor iface)).flatMap policyKeys).Nodup := by
  refine ⟨fun hvalid => hvalid.keys, fun hkeys => ⟨fun p hp => ?_, ?_, hkeys⟩⟩
  · obtain ⟨policy, hmem, rfl⟩ := List.mem_map.mp hp
    obtain ⟨hnamed, hdomain, hknown, henabled, hmatch⟩ := h.each policy hmem
    refine ⟨hnamed, hdomain, hknown, fun hon => mem_enabledEgressNames_flagged.mpr ?_, hmatch⟩
    change ∃ egress ∈ egresses, wgFlag iface egress = true ∧ egress.name = policy.action.egress
    by_cases hsame : policy.action.egress = iface
    · obtain ⟨egress, he, hname⟩ := List.mem_map.mp hfound
      exact ⟨egress, he, if_pos hname, hname.trans hsame.symm⟩
    · change (if policy.action.egress = iface then true else policy.enabled) = true at hon
      rw [if_neg hsame] at hon
      obtain ⟨egress, he, hegress, hname⟩ := mem_enabledEgressNames.mp (henabled hon)
      exact ⟨egress, he, by rw [wgFlag, if_neg (hname ▸ hsame), hegress], hname⟩
  · rw [List.map_map]
    exact h.ids

/-- What is known after the editor has edited the value. -/
structure WgEnabled (iface : String) (value value' : Json) (items items' policies' : List Json) :
    Prop where
  found : ∃ item ∈ items, isText (item.get "name") iface = true
  egresses : items.mapM (enableNamed iface) = .ok items'
  policies : (policyItems value).mapM (enableRouted iface) = .ok policies'
  written : value' = (value.set "egress_interfaces" (.arr items')).set "policies" (.arr policies')

theorem wgEnabled_of_eq_ok {items : List Json} (hdecode : Config.decode value = some cfg)
    (hitems : value.get "egress_interfaces" = some (.arr items))
    (h : enableWgPolicy iface (.ok value) = .ok value') :
    ∃ items' policies', WgEnabled iface value value' items items' policies' := by
  unfold enableWgPolicy at h
  by_cases husage : iface = ""
  · rw [if_pos husage] at h
    cases h
  rw [if_neg husage] at h
  by_cases hname : isWgName iface.toList = true
  swap
  · rw [if_pos hname] at h
    cases h
  rw [if_neg (not_not.mpr hname)] at h
  obtain ⟨_, hloaded, h⟩ := except_bind_eq_ok.mp h
  obtain rfl := Except.ok.inj hloaded
  obtain ⟨member, hmember, h⟩ := except_bind_eq_ok.mp h
  obtain ⟨hobj, rfl⟩ := get_eq_ok.mp hmember
  obtain ⟨egressItems, hegressItems, h⟩ := except_bind_eq_ok.mp h
  obtain ⟨enabled, henabled, h⟩ := except_bind_eq_ok.mp h
  rw [hitems] at hegressItems
  obtain rfl := Except.ok.inj hegressItems
  obtain ⟨items', hmap, rfl⟩ := editElements_eq_ok hitems henabled
  by_cases hany : items.any (fun egress => isText (egress.get "name") iface) = true
  swap
  · rw [if_pos hany] at h
    cases h
  rw [if_neg (not_not.mpr hany)] at h
  obtain ⟨hpolicyItems, -⟩ := policyItems_of_decode hobj hdecode
  obtain ⟨policies', hpolicyMap, rfl⟩ := editElements_eq_ok
    ((Json.get_set_of_ne _ (by decide)).trans hpolicyItems) h
  exact ⟨items', policies', List.any_eq_true.mp hany, hmap, hpolicyMap, rfl⟩

theorem enableWg_accepted_iff (hdecode : Config.decode value = some cfg)
    (hvalid : cfg.validate = .ok ()) (hobj : value.IsObj)
    (h : enableWgPolicy iface (.ok value) = .ok value') :
    AcceptedAgain value' ↔ EnableWgFits iface cfg := by
  obtain ⟨members, rfl⟩ := hobj
  obtain ⟨items, hitems, hegresses⟩ := Config.egressItems_of_decode hdecode
  obtain ⟨items', policies', ⟨item, hitem, htext⟩, hmap, hpolicyMap, rfl⟩ :=
    wgEnabled_of_eq_ok hdecode hitems h
  have hfound : iface ∈ egressNames cfg.egressInterfaces := by
    obtain ⟨item', -, hedit⟩ := exists_right_of_forall₂ (mapM_eq_ok_iff.mp hmap) hitem
    obtain ⟨name, hname, -⟩ := except_bind_eq_ok.mp hedit
    obtain ⟨egress, hmem, hread⟩ := exists_right_of_forall₂ hegresses hitem
    rw [isText_name (get_eq_ok.mp hname).1 hread, decide_eq_true_eq] at htext
    exact List.mem_map.mpr ⟨egress, hmem, htext⟩
  have hparsed := decode_setEgressItems ⟨members, rfl⟩ hdecode
    (decodes_editedIn hegresses hmap fun _ _ _ => decode_enableNamed)
  obtain ⟨hpolicyItems, hpolicies⟩ := policyItems_of_decode ⟨members, rfl⟩ hdecode
  have hwritten := decode_setPolicies (Json.IsObj.set ⟨members, rfl⟩) hparsed
    (decodes_editedIn hpolicies hpolicyMap fun _ _ _ => decode_enableRouted)
  obtain ⟨-, hnonempty, hvalidEgresses, hvalidPolicies⟩ := validate_eq_ok_iff.mp hvalid
  have hlists := validate_edited_iff hvalid cfg.runtime.dryRun
    (cfg.egressInterfaces.map (EgressInterface.flagged (wgFlag iface)))
    (cfg.policies.map (Policy.enabledFor iface))
  rw [egressNames_flagged, validPolicies_enabledFor_iff hfound hvalidPolicies,
    flatMap_policyKeys_enabledFor] at hlists
  refine (acceptedAgain_iff hwritten).trans (hlists.trans ?_)
  exact ⟨fun hall => hall.2.2, fun hkeys =>
    ⟨fun hnil => hnonempty (List.map_eq_nil_iff.mp hnil), hvalidEgresses.flagged _, hkeys⟩⟩

end EnableWg

/-! ### enable-amnezia-policy.sh: egresses -/

section AmneziaEgresses

variable {iface : String} {egresses : List EgressInterface}

def amneziaEgress (iface : String) : EgressInterface :=
  { name := iface, kind := .tunnel, table := 250, fwmark := 250, rulePriority := 1010 }

def wgOff (egress : EgressInterface) : Bool :=
  if egress.name = "wg0" ∨ egress.name = "wg1" then false else egress.enabled

/-- The egresses that the editor leaves. -/
def amneziaEgresses (iface : String) (egresses : List EgressInterface) : List EgressInterface :=
  KeyedList.upsert (·.name) (amneziaEgress iface) (egresses.map (EgressInterface.flagged wgOff))

theorem decode_amneziaItem (iface : String) :
    EgressInterface.decode (amneziaItem iface) = some (amneziaEgress iface) := rfl

theorem decode_disableWg {item item' : Json} {egress : EgressInterface}
    (h : EgressInterface.decode item = some egress) (hedit : disableWg item = .ok item') :
    item'.IsObj ∧ EgressInterface.decode item' = some (egress.flagged wgOff) := by
  obtain ⟨name, hname, hedit⟩ := except_bind_eq_ok.mp hedit
  obtain ⟨hobj, rfl⟩ := get_eq_ok.mp hname
  simp only [isText_name hobj h, decide_eq_true_eq] at hedit
  by_cases hwg : egress.name = "wg0" ∨ egress.name = "wg1"
  · rw [if_pos hwg] at hedit
    obtain ⟨-, rfl⟩ := setItem_eq_ok.mp hedit
    rw [decode_setEgressEnabled hobj h, EgressInterface.flagged, wgOff, if_pos hwg]
    exact ⟨hobj.set, rfl⟩
  · rw [if_neg hwg] at hedit
    rw [← Except.ok.inj hedit, h, EgressInterface.flagged, wgOff, if_neg hwg]
    exact ⟨hobj, rfl⟩

theorem decodes_placeEgress {items : List Json}
    (h : List.Forall₂ (fun item egress => item.IsObj ∧ EgressInterface.decode item = some egress)
      items egresses) {item : Json} {egress : EgressInterface}
    (hitem : EgressInterface.decode item = some egress) :
    Decodes EgressInterface.decode (placeEgress egress.name item items)
      (KeyedList.upsert (·.name) egress egresses) := by
  induction h with
  | nil => exact .cons hitem .nil
  | @cons other e items egresses hother hrest ih =>
      rw [placeEgress, KeyedList.upsert, isText_name hother.1 hother.2]
      by_cases hsame : e.name = egress.name
      · rw [if_pos (decide_eq_true hsame), if_pos hsame]
        exact .cons hitem (hrest.imp fun _ _ hread => hread.2)
      · rw [if_neg (by simpa using hsame), if_neg hsame]
        exact .cons hother.2 ih

theorem ValidEgresses.perm {egresses' : List EgressInterface} (h : ValidEgresses egresses)
    (hperm : egresses.Perm egresses') : ValidEgresses egresses' where
  each e he := h.each e (hperm.mem_iff.mpr he)
  names := (hperm.map _).nodup_iff.mp h.names
  tables := (hperm.map _).nodup_iff.mp h.tables
  marks := (hperm.map _).nodup_iff.mp h.marks

theorem ValidEgresses.sublist {egresses' : List EgressInterface} (h : ValidEgresses egresses)
    (hsub : egresses'.Sublist egresses) : ValidEgresses egresses' where
  each e he := h.each e (hsub.subset he)
  names := h.names.sublist (hsub.map _)
  tables := h.tables.sublist (hsub.map _)
  marks := h.marks.sublist (hsub.map _)

theorem validEgresses_cons {egress : EgressInterface} :
    ValidEgresses (egress :: egresses) ↔ ValidEgress egress ∧ ValidEgresses egresses ∧
      ∀ e ∈ egresses, e.name ≠ egress.name ∧ e.table ≠ egress.table ∧
        e.fwmark ≠ egress.fwmark := by
  constructor
  · intro h
    obtain ⟨hname, hnames⟩ := List.nodup_cons.mp h.names
    obtain ⟨htable, htables⟩ := List.nodup_cons.mp h.tables
    obtain ⟨hmark, hmarks⟩ := List.nodup_cons.mp h.marks
    refine ⟨h.each egress List.mem_cons_self,
      ⟨fun e he => h.each e (List.mem_cons_of_mem _ he), hnames, htables, hmarks⟩, fun e he => ?_⟩
    exact ⟨fun heq => hname (List.mem_map.mpr ⟨e, he, heq⟩),
      fun heq => htable (List.mem_map.mpr ⟨e, he, heq⟩),
      fun heq => hmark (List.mem_map.mpr ⟨e, he, heq⟩)⟩
  · rintro ⟨hself, hrest, hapart⟩
    refine ⟨List.forall_mem_cons.mpr ⟨hself, hrest.each⟩,
      List.nodup_cons.mpr ⟨fun hmem => ?_, hrest.names⟩,
      List.nodup_cons.mpr ⟨fun hmem => ?_, hrest.tables⟩,
      List.nodup_cons.mpr ⟨fun hmem => ?_, hrest.marks⟩⟩
    · obtain ⟨e, he, heq⟩ := List.mem_map.mp hmem
      exact (hapart e he).1 heq
    · obtain ⟨e, he, heq⟩ := List.mem_map.mp hmem
      exact (hapart e he).2.1 heq
    · obtain ⟨e, he, heq⟩ := List.mem_map.mp hmem
      exact (hapart e he).2.2 heq

/-- The new egress and the others. -/
theorem perm_amneziaEgresses (h : ValidEgresses egresses) :
    (amneziaEgresses iface egresses).Perm (amneziaEgress iface ::
      (egresses.map (EgressInterface.flagged wgOff)).filter (fun e => ¬ e.name = iface)) :=
  KeyedList.perm_upsert (fun e : EgressInterface => e.name) (h.flagged wgOff).names

theorem mem_others {e : EgressInterface} :
    e ∈ (egresses.map (EgressInterface.flagged wgOff)).filter (fun e => ¬ e.name = iface) ↔
      ∃ egress ∈ egresses, egress.name ≠ iface ∧ egress.flagged wgOff = e := by
  rw [List.mem_filter, List.mem_map]
  constructor
  · rintro ⟨⟨egress, hmem, rfl⟩, hname⟩
    exact ⟨egress, hmem, of_decide_eq_true hname, rfl⟩
  · rintro ⟨egress, hmem, hname, rfl⟩
    exact ⟨⟨egress, hmem, rfl⟩, decide_eq_true hname⟩

theorem validEgress_amnezia (h : trimmedEmpty iface = false) :
    ValidEgress (amneziaEgress iface) where
  named := h
  nonzero := ⟨show (250 : UInt32) ≠ 0 by decide, show (250 : UInt32) ≠ 0 by decide⟩
  gateway hkind := by cases hkind

/-- The new egress is valid if its name is not blank and no other has its table or mark. -/
theorem validEgresses_amnezia_iff (h : ValidEgresses egresses) :
    ValidEgresses (amneziaEgresses iface egresses) ↔ trimmedEmpty iface = false ∧
      ∀ egress ∈ egresses, egress.name ≠ iface → egress.table ≠ 250 ∧ egress.fwmark ≠ 250 := by
  have hperm := @perm_amneziaEgresses iface _ h
  have hothers := (h.flagged wgOff).sublist
    (List.filter_sublist (p := fun e : EgressInterface => ¬ e.name = iface))
  constructor
  · intro hvalid
    obtain ⟨hself, -, hapart⟩ := validEgresses_cons.mp (hvalid.perm hperm)
    refine ⟨hself.named, fun egress hmem hname => ?_⟩
    exact (hapart _ (mem_others.mpr ⟨egress, hmem, hname, rfl⟩)).2
  · rintro ⟨hnamed, hfree⟩
    refine (validEgresses_cons.mpr ⟨validEgress_amnezia hnamed, hothers, fun e he => ?_⟩).perm
      hperm.symm
    obtain ⟨egress, hmem, hname, rfl⟩ := mem_others.mp he
    exact ⟨hname, hfree egress hmem hname⟩

theorem mem_egressNames_amnezia (h : ValidEgresses egresses) {name : String} :
    name ∈ egressNames (amneziaEgresses iface egresses) ↔
      name = iface ∨ name ∈ egressNames egresses := by
  rw [egressNames, ((perm_amneziaEgresses h).map _).mem_iff, List.map_cons, List.mem_cons]
  by_cases hsame : name = iface
  · exact ⟨fun _ => Or.inl hsame, fun _ => Or.inl hsame⟩
  · refine or_congr_right ⟨fun hothers => ?_, fun hknown => ?_⟩
    · obtain ⟨e, he, rfl⟩ := List.mem_map.mp hothers
      obtain ⟨egress, hmem, -, rfl⟩ := mem_others.mp he
      exact List.mem_map.mpr ⟨egress, hmem, rfl⟩
    · obtain ⟨egress, hmem, rfl⟩ := List.mem_map.mp hknown
      exact List.mem_map.mpr ⟨_, mem_others.mpr ⟨egress, hmem, hsame, rfl⟩, rfl⟩

theorem mem_enabled_amnezia (h : ValidEgresses egresses) {name : String} :
    name ∈ enabledEgressNames (amneziaEgresses iface egresses) ↔
      name = iface ∨ ¬ (name = "wg0" ∨ name = "wg1") ∧ name ∈ enabledEgressNames egresses := by
  have hperm := @perm_amneziaEgresses iface _ h
  rw [mem_enabledEgressNames]
  constructor
  · rintro ⟨e, he, henabled, rfl⟩
    rcases List.mem_cons.mp (hperm.mem_iff.mp he) with rfl | he
    · exact Or.inl rfl
    · obtain ⟨egress, hmem, hname, rfl⟩ := mem_others.mp he
      change wgOff egress = true at henabled
      by_cases hwg : egress.name = "wg0" ∨ egress.name = "wg1"
      · rw [wgOff, if_pos hwg] at henabled
        cases henabled
      · rw [wgOff, if_neg hwg] at henabled
        exact Or.inr ⟨hwg, mem_enabledEgressNames.mpr ⟨egress, hmem, henabled, rfl⟩⟩
  · by_cases hsame : name = iface
    · exact fun _ => ⟨amneziaEgress iface, hperm.mem_iff.mpr List.mem_cons_self, rfl, hsame.symm⟩
    · rintro (heq | ⟨hwg, hknown⟩)
      · exact absurd heq hsame
      · obtain ⟨egress, hmem, henabled, rfl⟩ := mem_enabledEgressNames.mp hknown
        refine ⟨egress.flagged wgOff, hperm.mem_iff.mpr (List.mem_cons_of_mem _
          (mem_others.mpr ⟨egress, hmem, hsame, rfl⟩)), ?_, rfl⟩
        change wgOff egress = true
        rw [wgOff, if_neg hwg, henabled]

end AmneziaEgresses

/-! ### enable-amnezia-policy.sh: policies -/

section AmneziaPolicies

variable {iface domain : String} {policies : List Policy}

def Policy.templateOff (policy : Policy) : Policy :=
  if policy.id ∈ wgTemplateIds then { policy with enabled := false } else policy

def Policy.directSplit (policy : Policy) : Policy :=
  if policy.id = cloudflareDirectId then { policy with enabled := false }
  else if policy.id = googleDirectId then
    { policy with enabled := true, action := ⟨"wlo1"⟩ }
  else policy

/-- Whether the editor leaves the policy enabled. -/
def Policy.staysOn (policy : Policy) : Bool :=
  policy.id = googleDirectId ∨
    policy.enabled ∧ policy.id ∉ wgTemplateIds ∧ policy.id ≠ cloudflareDirectId

/-- The policies that were there before and are kept. -/
def keptPolicies (policies : List Policy) : List Policy :=
  policies.filter (fun policy => policy.id ∉ amneziaIds)

def Policy.amnezia (policy : Policy) : Policy := policy.templateOff.directSplit

theorem id_templateOff (policy : Policy) : policy.templateOff.id = policy.id := by
  unfold Policy.templateOff
  split_ifs <;> rfl

theorem id_amnezia (policy : Policy) : policy.amnezia.id = policy.id := by
  unfold Policy.amnezia Policy.directSplit
  split_ifs <;> exact id_templateOff policy

theorem matchSpec_amnezia (policy : Policy) : policy.amnezia.matchSpec = policy.matchSpec := by
  have htemplate : policy.templateOff.matchSpec = policy.matchSpec := by
    unfold Policy.templateOff
    split_ifs <;> rfl
  unfold Policy.amnezia Policy.directSplit
  split_ifs <;> exact htemplate

theorem egress_amnezia (policy : Policy) : policy.amnezia.action.egress =
    if policy.id = googleDirectId then "wlo1" else policy.action.egress := by
  have htemplate : policy.templateOff.action = policy.action := by
    unfold Policy.templateOff
    split_ifs <;> rfl
  unfold Policy.amnezia Policy.directSplit
  rw [id_templateOff]
  by_cases hcloudflare : policy.id = cloudflareDirectId
  · have hgoogle : policy.id ≠ googleDirectId := by
      rw [hcloudflare]
      decide
    rw [if_pos hcloudflare, if_neg hgoogle]
    exact congrArg ActionSpec.egress htemplate
  · rw [if_neg hcloudflare]
    split_ifs
    · rfl
    · rw [htemplate]

theorem enabled_amnezia (policy : Policy) : policy.amnezia.enabled = policy.staysOn := by
  unfold Policy.amnezia Policy.directSplit Policy.staysOn
  rw [id_templateOff]
  by_cases hgoogle : policy.id = googleDirectId
  · have hcloudflare : policy.id ≠ cloudflareDirectId := by
      rw [hgoogle]
      decide
    rw [if_neg hcloudflare, if_pos hgoogle, decide_eq_true (Or.inl hgoogle)]
  · by_cases hcloudflare : policy.id = cloudflareDirectId
    · rw [if_pos hcloudflare, decide_eq_false]
      rintro (h | ⟨-, -, h⟩)
      · exact hgoogle h
      · exact h hcloudflare
    · rw [if_neg hcloudflare, if_neg hgoogle, Policy.templateOff]
      by_cases htemplate : policy.id ∈ wgTemplateIds
      · rw [if_pos htemplate, decide_eq_false]
        rintro (h | ⟨-, h, -⟩)
        · exact hgoogle h
        · exact h htemplate
      · rw [if_neg htemplate]
        cases henabled : policy.enabled with
        | false => simp [hgoogle]
        | true => simp [hgoogle, hcloudflare, htemplate]

theorem decode_disableTemplate {item item' : Json} {policy : Policy}
    (h : Policy.decode item = some policy) (hedit : disableTemplate item = .ok item') :
    item'.IsObj ∧ Policy.decode item' = some policy.templateOff := by
  obtain ⟨id, hid, hedit⟩ := except_bind_eq_ok.mp hedit
  obtain ⟨hobj, rfl⟩ := get_eq_ok.mp hid
  have hlisted : wgTemplateIds.any (isText (item.get "id")) = true ↔ policy.id ∈ wgTemplateIds := by
    rw [List.any_eq_true]
    simp only [isText_id hobj h, decide_eq_true_eq, exists_eq_right']
  by_cases hid : policy.id ∈ wgTemplateIds
  · rw [if_pos (hlisted.mpr hid)] at hedit
    obtain ⟨-, rfl⟩ := setItem_eq_ok.mp hedit
    rw [Policy.templateOff, if_pos hid]
    exact ⟨hobj.set, decode_setPolicyEnabled hobj h false⟩
  · rw [if_neg (mt hlisted.mp hid)] at hedit
    rw [← Except.ok.inj hedit, Policy.templateOff, if_neg hid]
    exact ⟨hobj, h⟩

theorem decode_splitDirect {item item' : Json} {policy : Policy}
    (h : Policy.decode item = some policy) (hedit : splitDirect item = .ok item') :
    Policy.decode item' = some policy.directSplit := by
  obtain ⟨id, hid, hedit⟩ := except_bind_eq_ok.mp hedit
  obtain ⟨hobj, rfl⟩ := get_eq_ok.mp hid
  simp only [isText_id hobj h, decide_eq_true_eq] at hedit
  unfold Policy.directSplit
  by_cases hcloudflare : policy.id = cloudflareDirectId
  · rw [if_pos hcloudflare] at hedit ⊢
    obtain ⟨-, rfl⟩ := setItem_eq_ok.mp hedit
    exact decode_setPolicyEnabled hobj h false
  · rw [if_neg hcloudflare] at hedit ⊢
    by_cases hgoogle : policy.id = googleDirectId
    · rw [if_pos hgoogle] at hedit ⊢
      obtain ⟨enabled, henabled, hedit⟩ := except_bind_eq_ok.mp hedit
      obtain ⟨-, rfl⟩ := setItem_eq_ok.mp henabled
      obtain ⟨-, rfl⟩ := setItem_eq_ok.mp hedit
      exact decode_setPolicyAction hobj.set (decode_setPolicyEnabled hobj h true) "wlo1"
    · rw [if_neg hgoogle] at hedit ⊢
      rw [← Except.ok.inj hedit]
      exact h

theorem decodes_kept {items templates kept : List Json} (h : Decodes Policy.decode items policies)
    (htemplates : items.mapM disableTemplate = .ok templates)
    (hkept : (templates.filter (fun policy => ¬ amneziaIds.any (isText (policy.get "id")))).mapM
      splitDirect = .ok kept) :
    Decodes Policy.decode kept ((keptPolicies policies).map Policy.amnezia) := by
  have hoff : Decodes Policy.decode templates (policies.map Policy.templateOff) :=
    decodes_editedIn h htemplates fun _ _ _ hread hedit => (decode_disableTemplate hread hedit).2
  have hobj : ∀ item ∈ templates, item.IsObj := forall_edited h htemplates
    fun _ _ _ hread hedit => (decode_disableTemplate hread hedit).1
  have hfiltered : Decodes Policy.decode
      (templates.filter (fun policy => ¬ amneziaIds.any (isText (policy.get "id"))))
      ((policies.map Policy.templateOff).filter (fun policy => policy.id ∉ amneziaIds)) := by
    refine decodes_filter hoff fun item hitem policy hread => decide_eq_decide.mpr (not_congr ?_)
    rw [List.any_eq_true]
    simp only [isText_id (hobj item hitem) hread, decide_eq_true_eq, exists_eq_right']
  have hids : (policies.map Policy.templateOff).filter (fun policy => policy.id ∉ amneziaIds) =
      (keptPolicies policies).map Policy.templateOff := by
    rw [List.filter_map, keptPolicies]
    congr 1
    refine List.filter_congr fun policy _ => ?_
    rw [Function.comp_apply, id_templateOff]
  rw [hids] at hfiltered
  have hsplit := decodes_editedIn hfiltered hkept fun _ _ _ => decode_splitDirect
  rwa [List.map_map] at hsplit

/-- The domains of the policies that stay enabled. -/
theorem flatMap_policyKeys_amnezia :
    ((keptPolicies policies).map Policy.amnezia).flatMap policyKeys =
      ((keptPolicies policies).filter Policy.staysOn).flatMap Policy.domainKeys := by
  rw [List.flatMap_map, ← flatMap_ite]
  refine List.flatMap_congr fun policy _ => ?_
  rw [policyKeys, enabled_amnezia, matchSpec_amnezia]
  rfl

/-- The egress of a policy that stays enabled is there and enabled. -/
def RoutesStay (iface : String) (egresses : List EgressInterface) (policies : List Policy) : Prop :=
  ∀ policy ∈ keptPolicies policies, policy.staysOn = true →
    if policy.id = googleDirectId then
      iface = "wlo1" ∨ "wlo1" ∈ enabledEgressNames egresses
    else policy.action.egress = iface ∨
      ¬ (policy.action.egress = "wg0" ∨ policy.action.egress = "wg1")

theorem validPolicies_kept_iff {egresses : List EgressInterface}
    (hegresses : ValidEgresses egresses)
    (h : ValidPolicies (egressNames egresses) (enabledEgressNames egresses) policies) :
    ValidPolicies (egressNames (amneziaEgresses iface egresses))
        (enabledEgressNames (amneziaEgresses iface egresses))
        ((keptPolicies policies).map Policy.amnezia) ↔
      RoutesStay iface egresses policies ∧
        (((keptPolicies policies).filter Policy.staysOn).flatMap Policy.domainKeys).Nodup := by
  have hroute : ∀ policy ∈ keptPolicies policies, policy.staysOn = true →
      (policy.amnezia.action.egress ∈ enabledEgressNames (amneziaEgresses iface egresses) ↔
        if policy.id = googleDirectId then
          iface = "wlo1" ∨ "wlo1" ∈ enabledEgressNames egresses
        else policy.action.egress = iface ∨
          ¬ (policy.action.egress = "wg0" ∨ policy.action.egress = "wg1")) := by
    intro policy hmem hstays
    rw [mem_enabled_amnezia hegresses, egress_amnezia]
    by_cases hgoogle : policy.id = googleDirectId
    · rw [if_pos hgoogle, if_pos hgoogle, eq_comm]
      exact or_congr_right (and_iff_right (by decide))
    · rw [if_neg hgoogle, if_neg hgoogle]
      refine or_congr_right (and_iff_left ?_)
      have henabled := ((of_decide_eq_true hstays).resolve_left hgoogle).1
      exact (h.each policy (List.mem_of_mem_filter hmem)).enabled henabled
  rw [← flatMap_policyKeys_amnezia]
  constructor
  · intro hvalid
    refine ⟨fun policy hmem hstays => (hroute policy hmem hstays).mp ?_, hvalid.keys⟩
    refine (hvalid.each _ (List.mem_map_of_mem hmem)).enabled ?_
    rw [enabled_amnezia, hstays]
  · rintro ⟨hroutes, hkeys⟩
    refine ⟨fun p hp => ?_, ?_, hkeys⟩
    · obtain ⟨policy, hmem, rfl⟩ := List.mem_map.mp hp
      obtain ⟨hnamed, hdomain, hknown, -, hmatch⟩ := h.each policy (List.mem_of_mem_filter hmem)
      have henabled : policy.amnezia.enabled = true →
          policy.amnezia.action.egress ∈ enabledEgressNames (amneziaEgresses iface egresses) := by
        rw [enabled_amnezia]
        exact fun hstays => (hroute policy hmem hstays).mpr (hroutes policy hmem hstays)
      refine ⟨?_, ?_, ?_, henabled, ?_⟩
      · rw [id_amnezia]
        exact hnamed
      · rw [matchSpec_amnezia]
        exact hdomain
      · by_cases hgoogle : policy.id = googleDirectId
        · -- It stays enabled, and what is enabled is there.
          have hstays : policy.staysOn = true := decide_eq_true (Or.inl hgoogle)
          exact (List.filter_sublist.map _).subset (henabled (by rw [enabled_amnezia, hstays]))
        · rw [egress_amnezia, if_neg hgoogle]
          exact (mem_egressNames_amnezia hegresses).mpr (Or.inr hknown)
      · rw [matchSpec_amnezia]
        exact hmatch
    · rw [List.map_map]
      have hids : (fun policy : Policy => policy.id) ∘ Policy.amnezia = fun policy => policy.id :=
        funext id_amnezia
      rw [hids]
      exact h.ids.sublist (List.filter_sublist.map _)

/-- The policies that are appended. -/
def amneziaPolicies (iface domain : String) : List Policy :=
  ⟨"cloudflare-dns-through-amnezia", true, { destIp := some "1.1.1.1" }, ⟨iface⟩⟩ ::
    (if domain = "" then []
      else [⟨"domain-through-amnezia", true, { domain := some domain }, ⟨iface⟩⟩])

theorem decodes_amneziaPolicyItems (iface domain : String) :
    Decodes Policy.decode (amneziaPolicyItems iface domain) (amneziaPolicies iface domain) := by
  have hcloudflare : Policy.decode (cloudflareItem iface) =
      some ⟨"cloudflare-dns-through-amnezia", true, { destIp := some "1.1.1.1" }, ⟨iface⟩⟩ := rfl
  unfold amneziaPolicyItems amneziaPolicies
  split_ifs
  · exact .cons hcloudflare .nil
  · exact .cons hcloudflare (.cons (decode_domainPolicyItem _ _ _) .nil)

theorem trimmedEmpty_amneziaIds : ∀ id ∈ amneziaIds, trimmedEmpty id = false := by decide

/-- The appended policies only have to have a domain of their own. -/
theorem validPolicies_append_amnezia_iff {names enabledNames : List String}
    (hknown : iface ∈ names) (henabled : iface ∈ enabledNames)
    (hids : ∀ policy ∈ policies, policy.id ∉ amneziaIds) :
    ValidPolicies names enabledNames (policies ++ amneziaPolicies iface domain) ↔
      ValidPolicies names enabledNames policies ∧
        (domain ≠ "" → domainKey domain ≠ "" ∧ domainKey domain ∉ policies.flatMap policyKeys) := by
  have hfresh : ∀ id ∈ amneziaIds, id ∉ policies.map (·.id) := by
    intro id hid hmem
    obtain ⟨policy, hpolicy, rfl⟩ := List.mem_map.mp hmem
    exact hids policy hpolicy hid
  have hfirst : "cloudflare-dns-through-amnezia" ∈ amneziaIds := List.mem_cons_self
  have hsecond : "domain-through-amnezia" ∈ amneziaIds := List.mem_cons_of_mem _ List.mem_cons_self
  have hcloudflare : ValidPolicies names enabledNames (policies ++
      [⟨"cloudflare-dns-through-amnezia", true, { destIp := some "1.1.1.1" }, ⟨iface⟩⟩]) ↔
        ValidPolicies names enabledNames policies := by
    rw [validPolicies_append_singleton]
    refine ⟨And.left, fun h => ⟨h, ⟨trimmedEmpty_amneziaIds _ hfirst, fun d hd => ?_, hknown,
      fun _ => henabled, rfl⟩, hfresh _ hfirst, fun key hkey => ?_⟩⟩
    · cases hd
    · cases hkey
  unfold amneziaPolicies
  by_cases hdomain : domain = ""
  · rw [if_pos hdomain, hcloudflare]
    exact (and_iff_left fun hne => absurd hdomain hne).symm
  · rw [if_neg hdomain, List.append_cons, validPolicies_append_singleton, hcloudflare,
      List.flatMap_append]
    have hkeys : policyKeys ⟨"domain-through-amnezia", true, { domain := some domain }, ⟨iface⟩⟩ =
        [domainKey domain] := rfl
    rw [hkeys, List.forall_mem_singleton]
    refine and_congr_right fun _ => ?_
    constructor
    · rintro ⟨hself, -, hkey⟩ -
      exact ⟨hself.domain domain rfl, fun hmem => hkey (List.mem_append_left _ hmem)⟩
    · intro h
      obtain ⟨hnonempty, hkey⟩ := h hdomain
      refine ⟨⟨trimmedEmpty_amneziaIds _ hsecond, fun d hd => ?_, hknown, fun _ => henabled, rfl⟩,
        ?_, ?_⟩
      · rw [← Option.some.inj hd]
        exact hnonempty
      · rw [List.map_append, List.mem_append, not_or]
        refine ⟨hfresh _ hsecond, ?_⟩
        change "domain-through-amnezia" ∉ ["cloudflare-dns-through-amnezia"]
        decide
      · rw [List.mem_append, not_or]
        exact ⟨hkey, List.not_mem_nil⟩

end AmneziaPolicies

/-! ### enable-amnezia-policy.sh: the file -/

section EnableAmnezia

variable {value value' : Json} {cfg : Config} {ifaceArg domainArg : String}

/-- The interface has a name, its table and mark are free, the egresses of the policies that
stay enabled stay too, and no two of these policies, the new one included, have one domain. -/
structure EnableAmneziaFits (iface domain : String) (cfg : Config) : Prop where
  named : trimmedEmpty iface = false
  free : ∀ egress ∈ cfg.egressInterfaces, egress.name ≠ iface →
    egress.table ≠ 250 ∧ egress.fwmark ≠ 250
  routes : RoutesStay iface cfg.egressInterfaces cfg.policies
  keys : (((keptPolicies cfg.policies).filter Policy.staysOn).flatMap Policy.domainKeys).Nodup
  domain : domain ≠ "" → domainKey domain ≠ "" ∧
    domainKey domain ∉ ((keptPolicies cfg.policies).filter Policy.staysOn).flatMap Policy.domainKeys

/-- `cfg.setdefault("runtime", {})` with dry runs turned off. -/
def appliedRuntime (value : Json) : Json :=
  ((value.get "runtime").getD (.obj [])).set "dry_run" (.bool false)

/-- What is known after the editor has edited the value. -/
structure AmneziaEnabled (iface domain : String) (value value' : Json)
    (items disabled templates kept : List Json) : Prop where
  runtime : ((value.get "runtime").getD (.obj [])).IsObj
  egressesOff : items.mapM disableWg = .ok disabled
  templatesOff : (policyItems value).mapM disableTemplate = .ok templates
  split : (templates.filter (fun policy => ¬ amneziaIds.any (isText (policy.get "id")))).mapM
    splitDirect = .ok kept
  written : value' = ((value.set "runtime" (appliedRuntime value)).set "egress_interfaces"
    (.arr (placeEgress iface (amneziaItem iface) disabled))).set "policies"
      (.arr (kept ++ amneziaPolicyItems iface domain))

theorem amneziaEnabled_of_eq_ok {iface domain : String} {items : List Json}
    (hiface : (if ifaceArg = "" then "amn0" else ifaceArg) = iface)
    (hdomain : String.ofList (strip domainArg.toList) = domain)
    (hdecode : Config.decode value = some cfg)
    (hitems : value.get "egress_interfaces" = some (.arr items))
    (h : enableAmneziaPolicy ifaceArg domainArg (.ok value) = .ok value') :
    ∃ disabled templates kept,
      AmneziaEnabled iface domain value value' items disabled templates kept := by
  unfold enableAmneziaPolicy at h
  rw [hiface, hdomain] at h
  obtain ⟨_, hloaded, h⟩ := except_bind_eq_ok.mp h
  obtain rfl := Except.ok.inj hloaded
  obtain ⟨member, hmember, h⟩ := except_bind_eq_ok.mp h
  obtain ⟨hobj, rfl⟩ := get_eq_ok.mp hmember
  obtain ⟨runtime, hruntime, h⟩ := except_bind_eq_ok.mp h
  obtain ⟨hruntimeObj, rfl⟩ := setItem_eq_ok.mp hruntime
  obtain ⟨first, hfirst, h⟩ := except_bind_eq_ok.mp h
  obtain ⟨-, rfl⟩ := setItem_eq_ok.mp hfirst
  -- The egresses.
  obtain ⟨member, hmember, h⟩ := except_bind_eq_ok.mp h
  obtain ⟨-, rfl⟩ := get_eq_ok.mp hmember
  rw [Json.get_set_of_ne _ (by decide), hitems] at h
  obtain ⟨listed, hlisted, h⟩ := except_bind_eq_ok.mp h
  obtain rfl := Except.ok.inj hlisted
  obtain ⟨disabled, hdisabled, h⟩ := except_bind_eq_ok.mp h
  obtain ⟨second, hsecond, h⟩ := except_bind_eq_ok.mp h
  obtain ⟨-, rfl⟩ := setItem_eq_ok.mp hsecond
  -- The policies.
  obtain ⟨hpolicyItems, -⟩ := policyItems_of_decode hobj hdecode
  obtain ⟨member, hmember, h⟩ := except_bind_eq_ok.mp h
  obtain ⟨-, rfl⟩ := get_eq_ok.mp hmember
  rw [Json.get_set_of_ne _ (by decide), Json.get_set_of_ne _ (by decide), hpolicyItems] at h
  obtain ⟨listed, hlisted, h⟩ := except_bind_eq_ok.mp h
  obtain rfl := Except.ok.inj hlisted
  obtain ⟨templates, htemplates, h⟩ := except_bind_eq_ok.mp h
  obtain ⟨kept, hkept, h⟩ := except_bind_eq_ok.mp h
  obtain ⟨-, rfl⟩ := setItem_eq_ok.mp h
  exact ⟨disabled, templates, kept, hruntimeObj, hdisabled, htemplates, hkept, rfl⟩

/-- The lists that the editor writes, and what they are decoded to. -/
theorem decode_amnezia {iface domain : String}
    (hiface : (if ifaceArg = "" then "amn0" else ifaceArg) = iface)
    (hdomain : String.ofList (strip domainArg.toList) = domain)
    (hobj : value.IsObj) (hdecode : Config.decode value = some cfg)
    (h : enableAmneziaPolicy ifaceArg domainArg (.ok value) = .ok value') :
    Config.decode value' = some { cfg with
      runtime := { cfg.runtime with dryRun := false }
      egressInterfaces := amneziaEgresses iface cfg.egressInterfaces
      policies := (keptPolicies cfg.policies).map Policy.amnezia ++
        amneziaPolicies iface domain } := by
  obtain ⟨members, rfl⟩ := hobj
  obtain ⟨items, hitems, hegresses⟩ := Config.egressItems_of_decode hdecode
  obtain ⟨-, hpolicies⟩ := policyItems_of_decode ⟨members, rfl⟩ hdecode
  obtain ⟨disabled, templates, kept, hruntime, hdisabled, htemplates, hkept, rfl⟩ :=
    amneziaEnabled_of_eq_ok hiface hdomain hdecode hitems h
  have hobj : (Json.obj members).IsObj := ⟨members, rfl⟩
  have hparsed := decode_setDryRun hobj hdecode hruntime false
  have hplaced : Decodes EgressInterface.decode (placeEgress iface (amneziaItem iface) disabled)
      (amneziaEgresses iface cfg.egressInterfaces) := by
    refine decodes_placeEgress ((List.forall₂_and_left _ _).mpr ⟨?_, ?_⟩) (decode_amneziaItem iface)
    · exact forall_edited hegresses hdisabled fun _ _ _ hread hedit =>
        (decode_disableWg hread hedit).1
    · exact decodes_editedIn hegresses hdisabled fun _ _ _ hread hedit =>
        (decode_disableWg hread hedit).2
  exact decode_setPolicies hobj.set.set (decode_setEgressItems hobj.set hparsed hplaced)
    (decodes_append (decodes_kept hpolicies htemplates hkept)
      (decodes_amneziaPolicyItems iface domain))

theorem enableAmnezia_accepted_iff {iface domain : String}
    (hiface : (if ifaceArg = "" then "amn0" else ifaceArg) = iface)
    (hdomain : String.ofList (strip domainArg.toList) = domain)
    (hobj : value.IsObj) (hdecode : Config.decode value = some cfg) (hvalid : cfg.validate = .ok ())
    (h : enableAmneziaPolicy ifaceArg domainArg (.ok value) = .ok value') :
    AcceptedAgain value' ↔ EnableAmneziaFits iface domain cfg := by
  obtain ⟨-, -, hegresses, hpolicies⟩ := validate_eq_ok_iff.mp hvalid
  have hnonempty : amneziaEgresses iface cfg.egressInterfaces ≠ [] :=
    List.ne_nil_of_mem (KeyedList.mem_upsert_self _ _ _)
  have hknown := (@mem_egressNames_amnezia iface _ hegresses _).mpr (Or.inl rfl)
  have henabled := (@mem_enabled_amnezia iface _ hegresses _).mpr (Or.inl rfl)
  have hids : ∀ policy ∈ (keptPolicies cfg.policies).map Policy.amnezia,
      policy.id ∉ amneziaIds := by
    intro p hp
    obtain ⟨policy, hmem, rfl⟩ := List.mem_map.mp hp
    rw [id_amnezia]
    exact of_decide_eq_true (List.mem_filter.mp hmem).2
  rw [acceptedAgain_iff (decode_amnezia hiface hdomain hobj hdecode h), validate_edited_iff hvalid,
    validEgresses_amnezia_iff hegresses, validPolicies_append_amnezia_iff hknown henabled hids,
    validPolicies_kept_iff hegresses hpolicies, flatMap_policyKeys_amnezia]
  constructor
  · rintro ⟨-, ⟨hnamed, hfree⟩, ⟨hroutes, hkeys⟩, hown⟩
    exact ⟨hnamed, hfree, hroutes, hkeys, hown⟩
  · rintro ⟨hnamed, hfree, hroutes, hkeys, hown⟩
    exact ⟨hnonempty, ⟨hnamed, hfree⟩, ⟨hroutes, hkeys⟩, hown⟩

end EnableAmnezia

end EveNet
