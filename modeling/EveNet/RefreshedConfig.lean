import EveNet.DirectEgresses
import EveNet.DryRun
import EveNet.JsonEdits
import EveNet.RenumberedConfig

/-!
# Refreshing the direct egresses in the configuration file

The plans are made from the decoded configuration, and applied to the JSON value of the file:
for each plan the items are searched for one of its name whose kind is the string `direct`. A
decoded direct egress may also be written as an array, or have its kind written as an object, and
is then not found.
-/

namespace EveNet

/-! ### Plans -/

/-- What a plan is made from; an inspection that fails counts as one that shows nothing. -/
def planState (links : String → LinkState) (egress : EgressInterface) : DirectEgressRuntimeState :=
  (reported links egress.name).toOption.getD ⟨none, none⟩

def planOf (links : String → LinkState) (egress : EgressInterface) : DirectEgressRefreshPlan :=
  let state := planState links egress
  ⟨egress.name, egress.gateway, egress.sourceIp, state.runtimeGateway, state.runtimeSourceIp,
    state.drift egress.gateway egress.sourceIp⟩

def directEgresses (cfg : Config) : List EgressInterface :=
  cfg.egressInterfaces.filter (fun egress => egress.enabled ∧ egress.kind = .direct)

theorem run_planRefreshOf (env : NetEnv) (egress : EgressInterface) (s : NetState) :
    Program.run (netHost env) (planRefreshOf egress) s = (.ok (planOf s.links egress), s) := by
  have hinspected : Program.run (netHost env)
      (Program.attempt (inspectDirectEgress egress.name) : NetProgram _) s =
        (.ok (reported s.links egress.name), s) := by
    rw [Program.run_attempt, run_inspectDirectEgress]
    rfl
  rw [planRefreshOf, Program.bind_eq, Program.run_bind_ok _ hinspected]
  rfl

theorem run_planRefresh (env : NetEnv) (cfg : Config) (s : NetState) :
    Program.run (netHost env) (planRefresh cfg) s =
      (.ok ((directEgresses cfg).map (planOf s.links)), s) := by
  unfold planRefresh directEgresses
  induction cfg.egressInterfaces.filter (fun egress => egress.enabled ∧ egress.kind = .direct) with
  | nil => rfl
  | cons egress egresses ih =>
      rw [planRefreshes, Program.bind_eq, Program.run_bind_ok _ (run_planRefreshOf env egress s),
        Program.bind_eq, Program.run_bind_ok _ ih]
      rfl

/-- The egress is one to refresh, and its plan says so. -/
def Drifts (links : String → LinkState) (egress : EgressInterface) : Prop :=
  egress.enabled = true ∧ egress.kind = .direct ∧ (planOf links egress).needsUpdate = true

/-- Only a complete runtime state can show a drift. -/
theorem planState_of_needsUpdate {links : String → LinkState} {egress : EgressInterface}
    (h : (planOf links egress).needsUpdate = true) :
    ∃ g src, planState links egress = ⟨some g, some src⟩ := by
  change ((planState links egress).drift egress.gateway egress.sourceIp).isDrift = true at h
  rcases hstate : planState links egress with ⟨_ | g, _ | src⟩
  · rw [hstate] at h
    exact absurd h Bool.false_ne_true
  · rw [hstate] at h
    exact absurd h Bool.false_ne_true
  · rw [hstate] at h
    exact absurd h Bool.false_ne_true
  · exact ⟨g, src, rfl⟩

theorem reported_of_planState {links : String → LinkState} {egress : EgressInterface}
    {g src : String} (h : planState links egress = ⟨some g, some src⟩) :
    reported links egress.name = .ok ⟨some g, some src⟩ := by
  unfold planState at h
  cases hreported : reported links egress.name with
  | error e =>
      rw [hreported] at h
      cases h
  | ok state =>
      rw [hreported] at h
      exact congrArg Except.ok h

/-- The gateways and addresses that the host reports are not blank and have no blanks around
them. -/
def ReportsPlain (links : String → LinkState) : Prop :=
  ReportsTrimmed links ∧ ∀ name state, reported links name = .ok state →
    (∀ g, state.runtimeGateway = some g → trimmedEmpty g = false) ∧
      ∀ src, state.runtimeSourceIp = some src → trimmedEmpty src = false

theorem drifted_self {v : String} (h : trim v.toList = v.toList) : drifted (some v) v = false := by
  simp [drifted, h]

/-- The egress with the runtime values is not refreshed again. -/
theorem not_drifts_followed {links : String → LinkState} (hlinks : ReportsPlain links)
    {egress : EgressInterface} {g src : String}
    (hstate : planState links egress = ⟨some g, some src⟩) :
    ¬ Drifts links { egress with gateway := some g, sourceIp := some src } := by
  obtain ⟨hgateway, hsource⟩ := hlinks.1 _ _ (reported_of_planState hstate)
  rintro ⟨-, -, hupdate⟩
  change (DirectEgressRuntimeState.drift (planState links egress) (some g) (some src)).isDrift =
    true at hupdate
  rw [hstate, isDrift_drift, drifted_self (hgateway g rfl), drifted_self (hsource src rfl)]
    at hupdate
  cases hupdate

/-! ### One item -/

/-- What one plan does to an item. -/
def refreshStep (item : Json) (plan : DirectEgressRefreshPlan) : Json :=
  match plan.needsUpdate, plan.runtimeGateway, plan.runtimeSourceIp with
  | true, some gateway, some sourceIp => refreshedMember plan gateway sourceIp item
  | _, _, _ => item

theorem foldl_refreshEgresses (plans : List DirectEgressRefreshPlan) (items : List Json) :
    plans.foldl refreshEgresses items = items.map (fun item => plans.foldl refreshStep item) := by
  induction plans generalizing items with
  | nil => exact (List.map_id items).symm
  | cons plan plans ih =>
      have hstep : refreshEgresses items plan = items.map (fun item => refreshStep item plan) := by
        unfold refreshEgresses refreshStep
        cases plan.needsUpdate with
        | false => exact (List.map_id items).symm
        | true =>
            cases plan.runtimeGateway with
            | none => exact (List.map_id items).symm
            | some gateway =>
                cases plan.runtimeSourceIp with
                | none => exact (List.map_id items).symm
                | some sourceIp => rfl
      rw [List.foldl_cons, hstep, ih, List.map_map]
      rfl

def Json.follow (item : Json) (gateway sourceIp : String) : Json :=
  (item.set "gateway" (.str gateway)).set "source_ip" (.str sourceIp)

def Json.nameText (item : Json) : Option String := (item.get "name").bind Json.asStr

/-- The item is an object whose kind is the string. -/
def WrittenDirect (item : Json) : Prop := (item.get "kind").bind Json.asStr = some "direct"

theorem nameText_follow (item : Json) (gateway sourceIp : String) :
    (item.follow gateway sourceIp).nameText = item.nameText := by
  rw [Json.nameText, Json.follow, Json.get_set_of_ne _ (by decide),
    Json.get_set_of_ne _ (by decide)]
  rfl

theorem refreshStep_of_ne {item : Json} {plan : DirectEgressRefreshPlan}
    (h : item.nameText ≠ some plan.name ∨ ¬ WrittenDirect item ∨ plan.needsUpdate = false) :
    refreshStep item plan = item := by
  unfold refreshStep
  split
  · next hneeds _ _ =>
      refine if_neg fun hfound => ?_
      rcases h with hname | hkind | hnot
      · exact hname hfound.1
      · exact hkind hfound.2
      · rw [hneeds] at hnot
        cases hnot
  · rfl

theorem refreshStep_found {item : Json} {links : String → LinkState} {egress : EgressInterface}
    {g src : String} (hname : item.nameText = some egress.name) (hkind : WrittenDirect item)
    (hupdate : (planOf links egress).needsUpdate = true)
    (hstate : planState links egress = ⟨some g, some src⟩) :
    refreshStep item (planOf links egress) = item.follow g src := by
  have hgateway : (planOf links egress).runtimeGateway = some g := by
    change (planState links egress).runtimeGateway = _
    rw [hstate]
  have hsource : (planOf links egress).runtimeSourceIp = some src := by
    change (planState links egress).runtimeSourceIp = _
    rw [hstate]
  unfold refreshStep
  rw [hupdate, hgateway, hsource]
  exact if_pos ⟨hname, hkind⟩

/-- Plans for other names leave an item alone. -/
theorem foldl_refreshStep_of_ne {links : String → LinkState} {item : Json}
    {egresses : List EgressInterface}
    (h : ∀ egress ∈ egresses, item.nameText ≠ some egress.name) :
    (egresses.map (planOf links)).foldl refreshStep item = item := by
  induction egresses with
  | nil => rfl
  | cons egress egresses ih =>
      obtain ⟨hfirst, hrest⟩ := List.forall_mem_cons.mp h
      rw [List.map_cons, List.foldl_cons, refreshStep_of_ne (Or.inl hfirst), ih hrest]

/-- Of plans with distinct names the one of the item's name counts. -/
theorem foldl_refreshStep_of_mem {links : String → LinkState} {item : Json}
    {egresses : List EgressInterface} (hnames : (egresses.map (·.name)).Nodup)
    {egress : EgressInterface} (hmem : egress ∈ egresses)
    (hname : item.nameText = some egress.name)
    (hkeeps : (refreshStep item (planOf links egress)).nameText = item.nameText) :
    (egresses.map (planOf links)).foldl refreshStep item =
      refreshStep item (planOf links egress) := by
  obtain ⟨front, back, rfl⟩ := List.append_of_mem hmem
  rw [List.map_append, List.map_cons, List.nodup_append, List.nodup_cons] at hnames
  obtain ⟨-, ⟨hback, -⟩, hfront⟩ := hnames
  have hbefore : (front.map (planOf links)).foldl refreshStep item = item := by
    refine foldl_refreshStep_of_ne fun other hother heq => ?_
    rw [hname, Option.some.injEq] at heq
    exact hfront _ (List.mem_map_of_mem hother) _ List.mem_cons_self heq.symm
  rw [List.map_append, List.foldl_append, List.map_cons, List.foldl_cons, hbefore]
  refine foldl_refreshStep_of_ne fun other hother heq => ?_
  rw [hkeeps, hname, Option.some.injEq] at heq
  exact hback (heq ▸ List.mem_map_of_mem hother)

/-- The name and the kind that an object is decoded with. -/
theorem decoded_name {item : Json} {egress : EgressInterface}
    (h : EgressInterface.decode item = some egress) :
    item.nameText = some egress.name ∨ item.nameText = none ∧ ¬ WrittenDirect item := by
  cases item with
  | obj members =>
      unfold EgressInterface.decode at h
      simp only [Option.bind_eq_bind, Option.bind_eq_some_iff] at h
      obtain ⟨field, hfield, _, -, name, hname, _, -, _, -, _, -, _, -, _, -, _, -, _, -, h⟩ := h
      rw [Json.fields_obj hfield] at hname
      cases h
      exact Or.inl hname
  | null => exact Or.inr ⟨rfl, fun h => by cases h⟩
  | bool b => exact Or.inr ⟨rfl, fun h => by cases h⟩
  | num text => exact Or.inr ⟨rfl, fun h => by cases h⟩
  | str s => exact Or.inr ⟨rfl, fun h => by cases h⟩
  | arr items => exact Or.inr ⟨rfl, fun h => by cases h⟩

/-- What an item is to become: itself, or the item with the runtime values if its egress drifts. -/
inductive Refreshed (links : String → LinkState) (item : Json) : Json → Prop where
  | same {egress : EgressInterface} (hdecode : EgressInterface.decode item = some egress)
      (hsettled : ¬ Drifts links egress) : Refreshed links item item
  | follows {egress : EgressInterface} {g src : String}
      (hdecode : EgressInterface.decode item = some egress) (hdrifts : Drifts links egress)
      (hstate : reported links egress.name = .ok ⟨some g, some src⟩) :
      Refreshed links item (item.follow g src)

section Item

variable {links : String → LinkState} {cfg : Config} {item : Json} {egress : EgressInterface}
  (hnames : (cfg.egressInterfaces.map (·.name)).Nodup) (hmem : egress ∈ cfg.egressInterfaces)
  (hdecode : EgressInterface.decode item = some egress)

/-- The item after all plans of the configuration. -/
def refreshedItem (links : String → LinkState) (cfg : Config) (item : Json) : Json :=
  ((directEgresses cfg).map (planOf links)).foldl refreshStep item

include hnames hmem hdecode

/-- An item that is found is given the runtime values. -/
theorem refreshedItem_found (hdrifts : Drifts links egress) (hkind : WrittenDirect item) :
    ∃ g src, planState links egress = ⟨some g, some src⟩ ∧
      refreshedItem links cfg item = item.follow g src := by
  obtain ⟨henabled, hdirect, hupdate⟩ := hdrifts
  obtain ⟨g, src, hstate⟩ := planState_of_needsUpdate hupdate
  have hname : item.nameText = some egress.name :=
    (decoded_name hdecode).resolve_right fun h => h.2 hkind
  have hstep := refreshStep_found hname hkind hupdate hstate
  have hlisted : egress ∈ directEgresses cfg :=
    List.mem_filter.mpr ⟨hmem, by simp [henabled, hdirect]⟩
  have hsublist : ((directEgresses cfg).map (·.name)).Nodup :=
    hnames.sublist (List.filter_sublist.map _)
  refine ⟨g, src, hstate, ?_⟩
  rw [refreshedItem, foldl_refreshStep_of_mem hsublist hlisted hname, hstep]
  rw [hstep, nameText_follow]

/-- Any other item stays as it is. -/
theorem refreshedItem_same (h : ¬ (Drifts links egress ∧ WrittenDirect item)) :
    refreshedItem links cfg item = item := by
  rcases decoded_name hdecode with hname | ⟨hnone, -⟩
  · by_cases hlisted : egress ∈ directEgresses cfg
    · have hsublist : ((directEgresses cfg).map (·.name)).Nodup :=
        hnames.sublist (List.filter_sublist.map _)
      obtain ⟨-, hdirect⟩ := List.mem_filter.mp hlisted
      rw [decide_eq_true_eq] at hdirect
      have hstep : refreshStep item (planOf links egress) = item := by
        by_cases hupdate : (planOf links egress).needsUpdate = true
        · exact refreshStep_of_ne
            (Or.inr (Or.inl fun hkind => h ⟨⟨hdirect.1, hdirect.2, hupdate⟩, hkind⟩))
        · exact refreshStep_of_ne (Or.inr (Or.inr (Bool.eq_false_of_not_eq_true hupdate)))
      rw [refreshedItem, foldl_refreshStep_of_mem hsublist hlisted hname (by rw [hstep]), hstep]
    · refine foldl_refreshStep_of_ne fun other hother heq => hlisted ?_
      rw [hname, Option.some.injEq] at heq
      rwa [List.inj_on_of_nodup_map hnames hmem (List.mem_of_mem_filter hother) heq]
  · exact foldl_refreshStep_of_ne fun other _ heq => by
      rw [hnone] at heq
      cases heq

end Item

/-! ### The whole list -/

/-- A decoded item of the refreshed list, next to the egress it was. -/
structure FollowsUp (links : String → LinkState) (item : Json) (egress after : EgressInterface) :
    Prop where
  fixed : after.fixed = egress.fixed
  valid : ValidEgress egress → ValidEgress after
  settled : (Drifts links egress → WrittenDirect item) → ¬ Drifts links after
  missed : Drifts links egress → ¬ WrittenDirect item → Drifts links after

theorem followsUp_self {links : String → LinkState} {item : Json} {egress : EgressInterface}
    (h : ¬ (Drifts links egress ∧ WrittenDirect item)) : FollowsUp links item egress egress where
  fixed := rfl
  valid := id
  settled hfound hdrifts := h ⟨hdrifts, hfound hdrifts⟩
  missed hdrifts _ := hdrifts

theorem followsUp_followed {links : String → LinkState} (hlinks : ReportsPlain links) {item : Json}
    {egress : EgressInterface} {g src : String}
    (hstate : planState links egress = ⟨some g, some src⟩) (hkind : WrittenDirect item) :
    FollowsUp links item egress { egress with gateway := some g, sourceIp := some src } where
  fixed := rfl
  valid h := ⟨h.named, h.nonzero, fun _ => (hlinks.2 _ _ (reported_of_planState hstate)).1 g rfl⟩
  settled _ := not_drifts_followed hlinks hstate
  missed _ hnot := absurd hkind hnot

section List

variable {links : String → LinkState} {cfg : Config}

/-- An item becomes what it is to become, if it is found where its egress drifts. -/
theorem refreshed_refreshedItem (hnames : (cfg.egressInterfaces.map (·.name)).Nodup) {item : Json}
    {egress : EgressInterface} (hmem : egress ∈ cfg.egressInterfaces)
    (hdecode : EgressInterface.decode item = some egress)
    (hfound : Drifts links egress → WrittenDirect item) :
    Refreshed links item (refreshedItem links cfg item) := by
  by_cases hdrifts : Drifts links egress
  · obtain ⟨g, src, hstate, hitem⟩ :=
      refreshedItem_found hnames hmem hdecode hdrifts (hfound hdrifts)
    rw [hitem]
    exact .follows hdecode hdrifts (reported_of_planState hstate)
  · rw [refreshedItem_same hnames hmem hdecode fun h => hdrifts h.1]
    exact .same hdecode hdrifts

theorem refreshedItem_spec (hlinks : ReportsPlain links)
    (hnames : (cfg.egressInterfaces.map (·.name)).Nodup) {item : Json} {egress : EgressInterface}
    (hmem : egress ∈ cfg.egressInterfaces) (hdecode : EgressInterface.decode item = some egress) :
    ∃ after, EgressInterface.decode (refreshedItem links cfg item) = some after ∧
      FollowsUp links item egress after := by
  by_cases hfound : Drifts links egress ∧ WrittenDirect item
  · obtain ⟨g, src, hstate, hitem⟩ := refreshedItem_found hnames hmem hdecode hfound.1 hfound.2
    obtain ⟨kind, hkind, -⟩ := Option.bind_eq_some_iff.mp hfound.2
    obtain ⟨members, rfl⟩ := Json.obj_of_get hkind
    rw [hitem]
    exact ⟨_, EgressInterface.decode_set hdecode g src,
      followsUp_followed hlinks hstate hfound.2⟩
  · rw [refreshedItem_same hnames hmem hdecode hfound]
    exact ⟨egress, hdecode, followsUp_self hfound⟩

/-- The egresses that the refreshed items are decoded to, next to those of the configuration. -/
structure Successors (links : String → LinkState) (cfg : Config) (items : List Json)
    (after : List EgressInterface) : Prop where
  decoded : List.Forall₂ (fun item egress => EgressInterface.decode item = some egress)
    (items.map (refreshedItem links cfg)) after
  fixed : after.map (·.fixed) = cfg.egressInterfaces.map (·.fixed)
  forth : ∀ item ∈ items, ∀ egress, EgressInterface.decode item = some egress →
    ∃ e ∈ after, FollowsUp links item egress e
  back : ∀ e ∈ after, ∃ item ∈ items, ∃ egress ∈ cfg.egressInterfaces,
    EgressInterface.decode item = some egress ∧ FollowsUp links item egress e

theorem exists_successors (hlinks : ReportsPlain links)
    (hnames : (cfg.egressInterfaces.map (·.name)).Nodup) {items : List Json}
    (hitems : List.Forall₂ (fun item egress => EgressInterface.decode item = some egress) items
      cfg.egressInterfaces) : ∃ after, Successors links cfg items after := by
  have hspec : ∀ item ∈ items, ∃ egress ∈ cfg.egressInterfaces,
      EgressInterface.decode item = some egress ∧
        ∃ after, EgressInterface.decode (refreshedItem links cfg item) = some after ∧
          FollowsUp links item egress after := by
    intro item hitem
    obtain ⟨egress, hmem, hdecode⟩ := exists_right_of_forall₂ hitems hitem
    exact ⟨egress, hmem, hdecode, refreshedItem_spec hlinks hnames hmem hdecode⟩
  obtain ⟨after, hafter⟩ := exists_forall₂ (l := items)
    (R := fun item e => EgressInterface.decode (refreshedItem links cfg item) = some e)
    (fun item hitem => by
      obtain ⟨-, -, -, e, he, -⟩ := hspec item hitem
      exact ⟨e, he⟩)
  -- An item is decoded in one way only, before and after.
  have hpair : ∀ item ∈ items, ∀ egress, EgressInterface.decode item = some egress → ∀ e,
      EgressInterface.decode (refreshedItem links cfg item) = some e →
        FollowsUp links item egress e := by
    intro item hitem egress hdecode e he
    obtain ⟨egress', -, hdecode', e', he', hfollows⟩ := hspec item hitem
    obtain rfl := Option.some.inj (hdecode.symm.trans hdecode')
    obtain rfl := Option.some.inj (he.symm.trans he')
    exact hfollows
  refine ⟨after, List.forall₂_map_left_iff.mpr hafter, ?_, ?_, ?_⟩
  · exact map_eq_of_forall₂ hitems hafter fun item hitem egress _ e hdecode he =>
      (hpair item hitem egress hdecode e he).fixed
  · intro item hitem egress hdecode
    obtain ⟨e, hmem, he⟩ := exists_right_of_forall₂ hafter hitem
    exact ⟨e, hmem, hpair item hitem egress hdecode e he⟩
  · intro e he
    obtain ⟨item, hitem, hdecoded⟩ := exists_left_of_forall₂ hafter he
    obtain ⟨egress, hmem, hdecode⟩ := exists_right_of_forall₂ hitems hitem
    exact ⟨item, hitem, egress, hmem, hdecode, hpair item hitem egress hdecode e hdecoded⟩

end List

/-! ### The refreshed configuration is accepted -/

theorem enabledEgressNames_of_fixed {egresses after : List EgressInterface}
    (h : after.map (·.fixed) = egresses.map (·.fixed)) :
    enabledEgressNames after = enabledEgressNames egresses := by
  have hnames : ∀ l : List EgressInterface, enabledEgressNames l =
      ((l.map (·.fixed)).filter (·.enabled)).map (·.name) := by
    intro l
    rw [enabledEgressNames, List.filter_map, List.map_map]
    rfl
  rw [hnames, hnames, h]

theorem validate_of_successors {links : String → LinkState} {cfg : Config}
    (hvalid : cfg.validate = .ok ()) {items : List Json} {after : List EgressInterface}
    (hafter : Successors links cfg items after) :
    ({ cfg with egressInterfaces := after } : Config).validate = .ok () := by
  obtain ⟨hsettings, hnonempty, hegresses, hpolicies⟩ := validate_eq_ok_iff.mp hvalid
  have hfixed := hafter.fixed
  refine validate_eq_ok_iff.mpr ⟨⟨hsettings.version, hsettings.intervalSec, hsettings.ttlSec,
    hsettings.path, hsettings.timeoutMs, hsettings.listenAddr, hsettings.mode, hsettings.hardMode,
    hsettings.underlay⟩, ?_, ?_, ?_⟩
  · intro hnil
    change after = [] at hnil
    rw [hnil, List.map_nil] at hfixed
    exact hnonempty (List.map_eq_nil_iff.mp hfixed.symm)
  · refine ⟨fun e he => ?_, ?_, ?_, ?_⟩
    · obtain ⟨item, hitem, egress, hmem, hdecode, hfollows⟩ := hafter.back e he
      exact hfollows.valid (hegresses.each egress hmem)
    · change (after.map (·.name)).Nodup
      rw [map_of_fixed (f := (·.name)) (fun _ => rfl) hfixed]
      exact hegresses.names
    · change (after.map (·.table)).Nodup
      rw [map_of_fixed (f := (·.table)) (fun _ => rfl) hfixed]
      exact hegresses.tables
    · change (after.map (·.fwmark)).Nodup
      rw [map_of_fixed (f := (·.fwmark)) (fun _ => rfl) hfixed]
      exact hegresses.marks
  · change ValidPolicies (egressNames after) (enabledEgressNames after) cfg.policies
    rw [enabledEgressNames_of_fixed hfixed, egressNames,
      map_of_fixed (f := (·.name)) (fun _ => rfl) hfixed]
    exact hpolicies

/-! ### Items that are read and written again -/

section Renumbered

variable {number : String → String} {p : String → Bool} {links : String → LinkState} {cfg : Config}
  {item item' : Json} {egress : EgressInterface} {members : List (String × Json)} {key : String}

theorem fields_of_egress (h : EgressInterface.decode item = some egress) :
    ∃ field, item.fields egressFields 0 = some field := by
  obtain ⟨field, hfield, -⟩ := Option.bind_eq_some_iff.mp h
  exact ⟨field, hfield⟩

theorem asStr_renumber (json : Json) : (json.renumber number).asStr = json.asStr := by
  cases json <;> rfl

/-- A string in a member that the egress is decoded from. -/
theorem text_renumber (h : EgressInterface.decode item = some egress) (hkey : key ∈ egressFields) :
    ((item.renumber number).get key).bind Json.asStr = (item.get key).bind Json.asStr := by
  cases item with
  | obj members =>
      obtain ⟨field, hfield⟩ := fields_of_egress h
      rw [Json.get_renumber (Json.count_of_fields hfield hkey), Option.bind_map]
      exact congrArg (Option.bind _) (funext asStr_renumber)
  | arr items =>
      rw [Json.renumber_arr]
      rfl
  | null => rfl
  | bool b => rfl
  | num text => rfl
  | str s => rfl

theorem follow_renumber (h : EgressInterface.decode (.obj members) = some egress)
    (gateway sourceIp : String) : ((Json.obj members).follow gateway sourceIp).renumber number =
      ((Json.obj members).renumber number).follow gateway sourceIp := by
  obtain ⟨field, hfield⟩ := fields_of_egress h
  have hset := @Json.fields_set "gateway" (.str gateway) _ _ _ _ hfield
  obtain ⟨members', hmembers'⟩ := @Json.isObj_set "gateway" (.str gateway) members
  have hfirst := @Json.renumber_set "gateway" (.str gateway) members number
    (Json.count_of_fields hfield (by decide))
  rw [hmembers'] at hset hfirst
  have hsecond := @Json.renumber_set "source_ip" (.str sourceIp) members' number
    (Json.count_of_fields hset (by decide))
  rw [Json.follow, hmembers', hsecond, hfirst]
  rfl

theorem obj_of_writtenDirect (h : WrittenDirect item) : ∃ members, item = .obj members := by
  obtain ⟨kind, hkind, -⟩ := Option.bind_eq_some_iff.mp h
  exact Json.obj_of_get hkind

/-- The plans do to an item that was read and written what they do to the item. -/
theorem refreshedItem_renumber (hnumber : KeepsNaturals number)
    (hnames : (cfg.egressInterfaces.map (·.name)).Nodup) (hmem : egress ∈ cfg.egressInterfaces)
    (hdecode : EgressInterface.decode item = some egress) :
    refreshedItem links cfg (item.renumber number) =
      (refreshedItem links cfg item).renumber number := by
  have hread : EgressInterface.decode (item.renumber number) = some egress :=
    reread_egress hnumber item egress hdecode
  have hkind : WrittenDirect (item.renumber number) ↔ WrittenDirect item := by
    rw [WrittenDirect, WrittenDirect, text_renumber hdecode (by decide)]
  by_cases hfound : Drifts links egress ∧ WrittenDirect item
  · obtain ⟨hdrifts, hdirect⟩ := hfound
    obtain ⟨g, src, hstate, hitem⟩ := refreshedItem_found hnames hmem hdecode hdrifts hdirect
    obtain ⟨g', src', hstate', hitem'⟩ :=
      refreshedItem_found hnames hmem hread hdrifts (hkind.mpr hdirect)
    obtain ⟨rfl, rfl⟩ : g = g' ∧ src = src' := by
      simpa using hstate.symm.trans hstate'
    obtain ⟨members, rfl⟩ := obj_of_writtenDirect hdirect
    rw [hitem, hitem', follow_renumber hdecode]
  · rw [refreshedItem_same hnames hmem hdecode hfound,
      refreshedItem_same hnames hmem hread fun h => hfound ⟨h.1, hkind.mp h.2⟩]

/-- A gateway or an address is no number. -/
theorem numbers_optional {old : Json} {value : Option String}
    (h : withDefault none (Json.nullable Json.asStr) (some old) = some value) :
    old.allNumbers p = true := by
  cases old with
  | null => rfl
  | str s => rfl
  | bool b => cases h
  | num text => cases h
  | arr items => cases h
  | obj members => cases h

theorem numbers_follow (h : EgressInterface.decode (.obj members) = some egress)
    (hdistinct : (Json.obj members).Distinct) (gateway sourceIp : String) :
    ((Json.obj members).follow gateway sourceIp).allNumbers p = true ↔
      (Json.obj members).allNumbers p = true := by
  unfold EgressInterface.decode at h
  simp only [Option.bind_eq_bind, Option.bind_eq_some_iff] at h
  obtain ⟨field, hfield, _, -, _, -, _, -, old, hold, old', hold', -⟩ := h
  rw [Json.fields_obj hfield] at hold hold'
  dsimp only at hold hold'
  obtain ⟨members', hmembers'⟩ := @Json.isObj_set "gateway" (.str gateway) members
  have hnodup := (Json.distinct_obj.mp hdistinct).1
  have hdistinct' : (Json.obj members').Distinct := hmembers' ▸ Json.distinct_set hdistinct trivial
  have hsource : (Json.obj members').get "source_ip" = (Json.obj members).get "source_ip" := by
    rw [← hmembers', Json.get_set_of_ne _ (by decide)]
  rw [Json.follow, hmembers', Json.allNumbers_set_same (Json.distinct_obj.mp hdistinct').1,
    ← hmembers', Json.allNumbers_set_same hnodup]
  · refine iff_of_true rfl fun json hjson => ?_
    rw [hjson] at hold
    exact numbers_optional hold
  · refine iff_of_true rfl fun json hjson => ?_
    rw [← hsource, hjson] at hold'
    exact numbers_optional hold'

/-- The numbers of an item that count are those of the refreshed item. -/
theorem numbers_refreshed (h : Refreshed links item item') :
    (item'.renumber id).allNumbers p = true ↔ (item.renumber id).allNumbers p = true := by
  cases h with
  | same hdecode hsettled => exact Iff.rfl
  | follows hdecode hdrifts hstate =>
      cases item with
      | obj members =>
          have hread := reread_egress (fun _ _ _ => rfl) _ _ hdecode
          have hdistinct := Json.distinct_renumber id (.obj members)
          rw [follow_renumber hdecode]
          rw [Json.renumber_obj] at hread hdistinct ⊢
          exact numbers_follow hread hdistinct _ _
      | arr items => exact Iff.rfl
      | null => exact Iff.rfl
      | bool b => exact Iff.rfl
      | num text => exact Iff.rfl
      | str s => exact Iff.rfl

theorem fields_of_config {value : Json} (h : Config.decode value = some cfg) :
    ∃ field, value.fields configFields 0 = some field := by
  obtain ⟨field, hfield, -⟩ := Option.bind_eq_some_iff.mp h
  exact ⟨field, hfield⟩

/-- The numbers of a configuration that count are those of the refreshed one. -/
theorem numbers_rewritten {items items' : List Json}
    (hdecode : Config.decode (.obj members) = some cfg)
    (hitems : (Json.obj members).get "egress_interfaces" = some (.arr items))
    (h : List.Forall₂ (Refreshed links) items items') :
    (((Json.obj members).set "egress_interfaces" (.arr items')).renumber id).allNumbers p = true ↔
      ((Json.obj members).renumber id).allNumbers p = true := by
  obtain ⟨field, hfield⟩ := fields_of_config hdecode
  have honce := Json.count_of_fields hfield
    (by decide : "egress_interfaces" ∈ configFields)
  have hget := @Json.get_renumber id _ _ honce
  have hdistinct := Json.distinct_renumber id (.obj members)
  rw [Json.renumber_set honce]
  rw [hitems] at hget
  rw [Json.renumber_obj] at hget hdistinct ⊢
  refine Json.allNumbers_set_same (Json.distinct_obj.mp hdistinct).1 ?_
  rw [hget, Option.map_some]
  simp only [Option.some.injEq, forall_eq']
  rw [Json.renumber_arr, Json.renumber_arr]
  refine Json.allNumbers_arr_congr ?_
  rw [List.forall₂_map_left_iff, List.forall₂_map_right_iff]
  exact h.imp fun item item' hitem => numbers_refreshed hitem

end Renumbered

end EveNet
