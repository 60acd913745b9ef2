import EveNet.Commands
import EveNet.JsonNumbers

/-!
# Edited JSON and what is read from it

A member that is set in an object is read back, and every other member is read as before. So
the records decoded from an edited object differ from the earlier ones in the edited fields
only, and a list whose items are edited one by one is decoded item by item.
-/

namespace EveNet

/-! ### Lists -/

theorem mapM_eq_some_iff {α β : Type} {f : α → Option β} {l : List α} {out : List β} :
    l.mapM f = some out ↔ List.Forall₂ (fun a b => f a = some b) l out := by
  induction l generalizing out with
  | nil =>
      rw [List.mapM_nil, List.forall₂_nil_left_iff]
      exact ⟨fun h => (Option.some.inj h).symm, fun h => h ▸ rfl⟩
  | cons a l ih =>
      rw [List.mapM_cons, List.forall₂_cons_left_iff]
      simp only [Option.bind_eq_bind, Option.bind_eq_some_iff, Option.pure_def,
        Option.some.injEq, ih]
      constructor
      · rintro ⟨b, hb, bs, hbs, rfl⟩
        exact ⟨b, bs, hb, hbs, rfl⟩
      · rintro ⟨b, bs, hb, hbs, rfl⟩
        exact ⟨b, hb, bs, hbs, rfl⟩

section Pairs

variable {α β γ δ : Type} {R : α → β → Prop} {S : α → γ → Prop}

theorem exists_left_of_forall₂ {l : List α} {m : List β} (h : List.Forall₂ R l m) {b : β}
    (hb : b ∈ m) : ∃ a ∈ l, R a b := by
  induction h with
  | nil => cases hb
  | cons hab _ ih =>
      rcases List.mem_cons.mp hb with rfl | hb
      · exact ⟨_, List.mem_cons_self, hab⟩
      · obtain ⟨a, ha, hR⟩ := ih hb
        exact ⟨a, List.mem_cons_of_mem _ ha, hR⟩

theorem exists_right_of_forall₂ {l : List α} {m : List β} (h : List.Forall₂ R l m) {a : α}
    (ha : a ∈ l) : ∃ b ∈ m, R a b := by
  induction h with
  | nil => cases ha
  | cons hab _ ih =>
      rcases List.mem_cons.mp ha with rfl | ha
      · exact ⟨_, List.mem_cons_self, hab⟩
      · obtain ⟨b, hb, hR⟩ := ih ha
        exact ⟨b, List.mem_cons_of_mem _ hb, hR⟩

/-- Two lists read off one list agree on what their elements always agree on. -/
theorem map_eq_of_forall₂ {l : List α} {m : List β} {m' : List γ} (h : List.Forall₂ R l m)
    (h' : List.Forall₂ S l m') {f : β → δ} {g : γ → δ}
    (hfg : ∀ a ∈ l, ∀ b ∈ m, ∀ c, R a b → S a c → g c = f b) : m'.map g = m.map f := by
  induction h generalizing m' with
  | nil =>
      rw [List.forall₂_nil_left_iff.mp h']
      rfl
  | @cons a b l m hab _ ih =>
      obtain ⟨c, m', hac, hrest, rfl⟩ := List.forall₂_cons_left_iff.mp h'
      rw [List.map_cons, List.map_cons,
        hfg a List.mem_cons_self b List.mem_cons_self c hab hac, ih hrest fun x hx y hy =>
          hfg x (List.mem_cons_of_mem _ hx) y (List.mem_cons_of_mem _ hy)]

theorem forall_mem_iff_of_forall₂ {P : α → Prop} {Q : β → Prop} {l : List α} {m : List β}
    (h : List.Forall₂ (fun a b => Q b ↔ P a) l m) : (∀ b ∈ m, Q b) ↔ ∀ a ∈ l, P a := by
  induction h with
  | nil => simp
  | cons hab _ ih => rw [List.forall_mem_cons, List.forall_mem_cons, hab, ih]

theorem exists_forall₂ {l : List α} (h : ∀ a ∈ l, ∃ b, R a b) : ∃ m, List.Forall₂ R l m := by
  induction l with
  | nil => exact ⟨[], .nil⟩
  | cons a l ih =>
      obtain ⟨⟨b, hb⟩, hrest⟩ := List.forall_mem_cons.mp h
      obtain ⟨m, hm⟩ := ih hrest
      exact ⟨b :: m, .cons hb hm⟩

end Pairs

theorem listOf_arr {α : Type} {read : Json → Option α} {items : List Json} {out : List α} :
    Json.listOf read (.arr items) = some out ↔
      List.Forall₂ (fun item a => read item = some a) items out :=
  mapM_eq_some_iff

theorem listOf_eq_some {α : Type} {read : Json → Option α} {json : Json} {out : List α}
    (h : Json.listOf read json = some out) : ∃ items, json = .arr items ∧
      List.Forall₂ (fun item a => read item = some a) items out := by
  cases json with
  | arr items => exact ⟨items, rfl, listOf_arr.mp h⟩
  | null => cases h
  | bool b => cases h
  | num text => cases h
  | str s => cases h
  | obj members => cases h

namespace Json

variable {key key' : String} {value : Json}

/-! ### Objects -/

theorem get_obj (members : List (String × Json)) (key : String) :
    (Json.obj members).get key = (KeyedList.lookup Prod.fst key members).map Prod.snd := rfl

theorem get_set_obj (members : List (String × Json)) :
    ((Json.obj members).set key value).get key' =
      if key = key' then some value else (Json.obj members).get key' := by
  rw [Json.set, get_obj, get_obj, KeyedList.lookup_upsert]
  split_ifs <;> rfl

theorem get_set_of_ne (json : Json) (h : key ≠ key') :
    (json.set key value).get key' = json.get key' := by
  cases json with
  | obj members => rw [get_set_obj, if_neg h]
  | null => rfl
  | bool b => rfl
  | num text => rfl
  | str s => rfl
  | arr items => rfl

/-- An object that has a member can be edited. -/
theorem obj_of_get {json : Json} (h : json.get key = some value) :
    ∃ members, json = .obj members := by
  cases json with
  | obj members => exact ⟨members, rfl⟩
  | null => cases h
  | bool b => cases h
  | num text => cases h
  | str s => cases h
  | arr items => cases h

/-! ### Fields of a struct -/

theorem nodup_names_upsert {members : List (String × Json)} {names : List String}
    (h : ((members.map Prod.fst).filter (· ∈ names)).Nodup) :
    (((KeyedList.upsert Prod.fst (key, value) members).map Prod.fst).filter (· ∈ names)).Nodup := by
  by_cases hmem : key ∈ members.map Prod.fst
  · rwa [KeyedList.map_key_upsert Prod.fst (a := (key, value)) hmem]
  · rw [KeyedList.upsert_fresh Prod.fst (a := (key, value)) hmem, List.map_append,
      List.filter_append]
    refine List.Nodup.append h ((List.nodup_singleton key).filter _) ?_
    intro name hname hkey
    rw [List.mem_singleton.mp (List.mem_of_mem_filter hkey)] at hname
    exact hmem (List.mem_of_mem_filter hname)

theorem fields_obj {members : List (String × Json)} {names : List String} {least : ℕ}
    {field : String → Option Json} (h : (Json.obj members).fields names least = some field) :
    field = (Json.obj members).get := by
  unfold Json.fields at h
  dsimp only at h
  split_ifs at h
  exact (Option.some.inj h).symm

/-- The fields of an edited object are the old ones but for the edited one. -/
theorem fields_set {members : List (String × Json)} {names : List String} {least : ℕ}
    {field : String → Option Json} (h : (Json.obj members).fields names least = some field) :
    ((Json.obj members).set key value).fields names least =
      some (fun name => if key = name then some value else field name) := by
  have hfield := fields_obj h
  unfold Json.fields at h
  dsimp only at h
  split_ifs at h with hnodup
  rw [Json.set, Json.fields, if_pos (nodup_names_upsert hnodup), hfield]
  congr 1
  funext name
  exact get_set_obj members

theorem isObj_set (members : List (String × Json)) :
    ∃ members', (Json.obj members).set key value = .obj members' :=
  ⟨_, rfl⟩

/-! ### Numbers -/

section Numbers

variable {p : String → Bool} {members : List (String × Json)} {json new : Json}

theorem mem_of_get (h : (Json.obj members).get key = some value) : (key, value) ∈ members := by
  obtain ⟨⟨name, json⟩, hfound, rfl⟩ := Option.map_eq_some_iff.mp h
  have hname : name = key := KeyedList.key_of_lookup Prod.fst hfound
  rw [← hname]
  exact KeyedList.mem_of_lookup Prod.fst hfound

theorem allNumbers_get (h : json.allNumbers p = true) (hvalue : json.get key = some value) :
    value.allNumbers p = true := by
  obtain ⟨members, rfl⟩ := obj_of_get hvalue
  exact allNumbers_obj.mp h _ (mem_of_get hvalue)

theorem distinct_get (h : json.Distinct) (hvalue : json.get key = some value) :
    value.Distinct := by
  obtain ⟨members, rfl⟩ := obj_of_get hvalue
  exact (distinct_obj.mp h).2 _ (mem_of_get hvalue)

theorem allNumbers_set (h : json.allNumbers p = true) (hnew : new.allNumbers p = true) :
    (json.set key new).allNumbers p = true := by
  cases json with
  | obj members =>
      refine allNumbers_obj.mpr fun member hmember => ?_
      rcases KeyedList.mem_of_mem_upsert Prod.fst hmember with rfl | hmember
      · exact hnew
      · exact allNumbers_obj.mp h member hmember
  | null => exact h
  | bool b => exact h
  | num text => exact h
  | str s => exact h
  | arr items => exact h

theorem distinct_set (h : json.Distinct) (hnew : new.Distinct) : (json.set key new).Distinct := by
  cases json with
  | obj members =>
      obtain ⟨hnodup, hmembers⟩ := distinct_obj.mp h
      refine distinct_obj.mpr ⟨KeyedList.nodup_upsert Prod.fst hnodup, fun member hmember => ?_⟩
      rcases KeyedList.mem_of_mem_upsert Prod.fst hmember with rfl | hmember
      · exact hnew
      · exact hmembers member hmember
  | null => exact h
  | bool b => exact h
  | num text => exact h
  | str s => exact h
  | arr items => exact h

/-- The values of an object's members with other names. -/
def rest (names : List String) : Json → List Json
  | .obj members => (members.filter (fun member => member.1 ∉ names)).map Prod.snd
  | _ => []

theorem forall_rest {names : List String} {P : Json → Prop} :
    (∀ part ∈ (Json.obj members).rest names, P part) ↔
      ∀ member ∈ members, member.1 ∉ names → P member.2 := by
  rw [rest, List.forall_mem_map]
  simp only [List.mem_filter, decide_eq_true_eq, and_imp]

theorem allNumbers_iff_rest : (Json.obj members).allNumbers p = true ↔
    ∀ part ∈ (Json.obj members).rest [], part.allNumbers p = true := by
  rw [allNumbers_obj, forall_rest]
  simp only [List.not_mem_nil, not_false_eq_true, forall_const]

/-- What holds of the members that are looked at, one of which has been set. -/
theorem forall_rest_set {names : List String} {P : Json → Prop}
    (h : (members.map Prod.fst).Nodup) (hkey : key ∉ names) :
    (∀ part ∈ ((Json.obj members).set key new).rest names, P part) ↔
      P new ∧ ∀ part ∈ (Json.obj members).rest (key :: names), P part := by
  have hperm := KeyedList.perm_upsert Prod.fst (a := (key, new)) h
  have hmem : ∀ member, member ∈ KeyedList.upsert Prod.fst (key, new) members ↔
      member = (key, new) ∨ member ∈ members ∧ member.1 ≠ key := by
    intro member
    rw [hperm.mem_iff, List.mem_cons, List.mem_filter, decide_eq_true_eq]
  rw [Json.set, forall_rest, forall_rest]
  simp only [hmem, or_imp, forall_and, forall_eq, hkey, not_false_eq_true, forall_const, and_imp,
    List.mem_cons, not_or, ne_eq]

theorem forall_rest_get {names : List String} {P : Json → Prop}
    (h : (members.map Prod.fst).Nodup) (hkey : key ∉ names) :
    (∀ part ∈ (Json.obj members).rest names, P part) ↔
      (∀ old, (Json.obj members).get key = some old → P old) ∧
        ∀ part ∈ (Json.obj members).rest (key :: names), P part := by
  rw [forall_rest, forall_rest]
  constructor
  · exact fun hall => ⟨fun old hold => hall _ (mem_of_get hold) hkey, fun member hmember hname =>
      hall member hmember fun hmem => hname (List.mem_cons_of_mem _ hmem)⟩
  · rintro ⟨hold, hrest⟩ ⟨name, value⟩ hmember hname
    by_cases hsame : name = key
    · subst hsame
      refine hold value ?_
      rw [get_obj, KeyedList.lookup_of_mem Prod.fst h hmember]
      rfl
    · exact hrest _ hmember (List.not_mem_cons_of_ne_of_not_mem hsame hname)

/-- A member is set to a value of which the same holds. -/
theorem forall_rest_set_same {names : List String} {P : Json → Prop}
    (h : (members.map Prod.fst).Nodup) (hkey : key ∉ names)
    (hnew : P new ↔ ∀ old, (Json.obj members).get key = some old → P old) :
    (∀ part ∈ ((Json.obj members).set key new).rest names, P part) ↔
      ∀ part ∈ (Json.obj members).rest names, P part := by
  rw [forall_rest_set h hkey, forall_rest_get h hkey, hnew]

theorem allNumbers_set_rest (h : (members.map Prod.fst).Nodup) :
    ((Json.obj members).set key new).allNumbers p = true ↔ new.allNumbers p = true ∧
      ∀ part ∈ (Json.obj members).rest [key], part.allNumbers p = true :=
  allNumbers_iff_rest.trans (forall_rest_set h List.not_mem_nil)

theorem allNumbers_set_same (h : (members.map Prod.fst).Nodup)
    (hnew : new.allNumbers p = true ↔
      ∀ old, (Json.obj members).get key = some old → old.allNumbers p = true) :
    ((Json.obj members).set key new).allNumbers p = true ↔
      (Json.obj members).allNumbers p = true := by
  rw [allNumbers_iff_rest, ← forall_rest_set_same h List.not_mem_nil hnew]
  exact allNumbers_iff_rest

theorem allNumbers_arr_congr {items items' : List Json}
    (h : List.Forall₂ (fun item item' => item'.allNumbers p = true ↔ item.allNumbers p = true)
      items items') :
    (Json.arr items').allNumbers p = true ↔ (Json.arr items).allNumbers p = true := by
  rw [allNumbers_arr, allNumbers_arr]
  exact forall_mem_iff_of_forall₂ h

/-- Written and read, an object with a member set is the object with it set then. -/
theorem renumber_set {number : String → String} (h : (members.map Prod.fst).count key ≤ 1) :
    ((Json.obj members).set key value).renumber number =
      ((Json.obj members).renumber number).set key (value.renumber number) := by
  have hlasts := KeyedList.lasts_upsert Prod.fst (a := (key, value)) h
  rw [Json.set, renumber_obj, renumber_obj, Json.set, hlasts]
  refine congrArg Json.obj ?_
  induction KeyedList.lasts Prod.fst members with
  | nil => rfl
  | cons member members ih =>
      rw [KeyedList.upsert, List.map_cons, KeyedList.upsert]
      change List.map _ (if member.1 = key then _ else _) = if member.1 = key then _ else _
      split_ifs
      · rfl
      · exact congrArg _ ih

end Numbers

end Json

/-! ### Records -/

/-- An egress with a gateway and a source address set is decoded with them. -/
theorem EgressInterface.decode_set {members : List (String × Json)} {egress : EgressInterface}
    (h : EgressInterface.decode (.obj members) = some egress) (gateway sourceIp : String) :
    EgressInterface.decode
        (((Json.obj members).set "gateway" (.str gateway)).set "source_ip" (.str sourceIp)) =
      some { egress with gateway := some gateway, sourceIp := some sourceIp } := by
  unfold EgressInterface.decode at h ⊢
  simp only [Option.bind_eq_bind, Option.bind_eq_some_iff] at h
  obtain ⟨field, hfield, enabled, henabled, name, hname, kind, hkind, _, -, _, -, table, htable,
    fwmark, hfwmark, priority, hpriority, healthcheck, hcheck, h⟩ := h
  cases h
  obtain ⟨members', hmembers'⟩ :=
    @Json.isObj_set "gateway" (.str gateway) members
  have hfirst := @Json.fields_set "gateway" (.str gateway) _ _ _ _ hfield
  rw [hmembers'] at hfirst ⊢
  rw [Json.fields_set hfirst]
  simp only [Option.bind_eq_bind, Option.bind_some, String.reduceEq, if_true, if_false, henabled,
    hname, hkind, htable, hfwmark, hpriority, hcheck]
  rfl

/-- The items that egresses are decoded from. -/
def egressItems (value : Json) : List Json :=
  ((value.get "egress_interfaces").bind Json.asArray).getD []

/-- The egresses of a configuration are decoded from the items of one array. -/
theorem Config.egressItems_of_decode {members : List (String × Json)} {cfg : Config}
    (h : Config.decode (.obj members) = some cfg) :
    ∃ items, (Json.obj members).get "egress_interfaces" = some (.arr items) ∧
      List.Forall₂ (fun item egress => EgressInterface.decode item = some egress) items
        cfg.egressInterfaces := by
  unfold Config.decode at h
  simp only [Option.bind_eq_bind, Option.bind_eq_some_iff] at h
  obtain ⟨field, hfield, _, -, _, -, _, -, _, -, _, -, _, -, egresses, hegresses, _, -, h⟩ := h
  obtain ⟨json, hjson, hlist⟩ := Option.bind_eq_some_iff.mp hegresses
  obtain ⟨items, rfl, hitems⟩ := listOf_eq_some hlist
  rw [Json.fields_obj hfield] at hjson
  cases h
  exact ⟨items, hjson, hitems⟩

/-- With other egress items a configuration is decoded with other egresses. -/
theorem Config.decode_setEgresses {members : List (String × Json)} {cfg : Config}
    (h : Config.decode (.obj members) = some cfg) {items : List Json}
    {egresses : List EgressInterface}
    (hitems : List.Forall₂ (fun item egress => EgressInterface.decode item = some egress) items
      egresses) :
    Config.decode ((Json.obj members).set "egress_interfaces" (.arr items)) =
      some { cfg with egressInterfaces := egresses } := by
  unfold Config.decode at h ⊢
  simp only [Option.bind_eq_bind, Option.bind_eq_some_iff] at h
  obtain ⟨field, hfield, version, hversion, runtime, hruntime, nft, hnft, cache, hcache, proxy,
    hproxy, underlay, hunderlay, _, -, policies, hpolicies, h⟩ := h
  cases h
  have hlist : required (Json.listOf EgressInterface.decode) (some (.arr items)) = some egresses :=
    listOf_arr.mpr hitems
  rw [Json.fields_set hfield]
  simp only [Option.bind_eq_bind, Option.bind_some, String.reduceEq, if_true, if_false, hversion,
    hruntime, hnft, hcache, hproxy, hunderlay, hlist, hpolicies]

end EveNet
