import EveNet.RefreshedConfig

/-!
# What a refresh leaves in the configuration file

The command reads the file into a JSON value, applies the plans and writes the value back. The
numbers of the file are printed anew by this: those that do not fit into 64 bits as whole numbers
become doubles, also where the program does not look at them.
-/

namespace EveNet

/-! ### Reading and writing the file -/

section File

variable {α : Type} {env : MachineEnv} {m m' : Machine} {value : Json} {cfg : Config}

theorem run_onNet (env : MachineEnv) (p : NetProgram α) (m : Machine) :
    Program.run (machineHost env) (onNet p) m =
      ((Program.run (netHost env.net) p m.net).1,
        { m with net := (Program.run (netHost env.net) p m.net).2 }) := by
  induction p generalizing m with
  | pure a => rfl
  | fail e => rfl
  | call c next ih => exact ih _ _

theorem configRead_eq_ok {parse : Json → Option Json} {calls : ℕ} {json : Json}
    (h : configRead env parse (.json value, calls) = .ok (some json)) :
    parse value = some json := by
  unfold configRead at h
  cases hfails : env.configReadFails calls with
  | some cause => simp [hfails] at h
  | none => simpa [hfails] using h

/-- The machine when the file was read once more. -/
def Machine.afterRead (m : Machine) : Machine := { m with configCalls := m.configCalls + 1 }

theorem run_load_eq_ok {path : String} (hvalue : m.config = .json value)
    (h : Program.run (machineHost env) (Config.load path) m = (.ok cfg, m')) :
    Config.decode value = some cfg ∧ m' = m.afterRead := by
  rw [Config.load, readConfig, Program.bind_eq, Program.run_bind_ok _ (Program.run_ask _ _ _),
    Program.run_ofExcept, Prod.mk.injEq] at h
  obtain ⟨hread, rfl⟩ := h
  obtain ⟨json, hjson, hdecode⟩ := Config.decode_of_ofRead hread
  change configRead env some (m.config, m.configCalls) = _ at hjson
  rw [hvalue] at hjson
  obtain rfl := Option.some.inj (configRead_eq_ok hjson)
  exact ⟨hdecode, rfl⟩

theorem asArray_eq_some {json : Json} {items : List Json} (h : Json.asArray json = some items) :
    json = .arr items := by
  cases json with
  | arr items' => exact congrArg Json.arr (Option.some.inj h)
  | null => cases h
  | bool b => cases h
  | num text => cases h
  | str s => cases h
  | obj members => cases h

theorem answer_write_eq_ok {m' : Machine} {new : Json}
    (h : machineHost env (.config (.write new)) m = (.ok (), m')) :
    m'.config = .json new ∧ m'.net = m.net := by
  simp only [machineHost, configHost] at h
  cases hwrite : env.configWrites m.configCalls with
  | done =>
      rw [hwrite] at h
      cases h
      exact ⟨rfl, rfl⟩
  | refused cause =>
      rw [hwrite] at h
      cases h
  | interrupted cause left =>
      rw [hwrite] at h
      cases h

/-- The value that is written for the one that was read. -/
def refreshedValue (links : String → LinkState) (cfg : Config) (value : Json) : Json :=
  value.set "egress_interfaces" (.arr ((egressItems value).map (refreshedItem links cfg)))

theorem egressItems_of_get {items : List Json}
    (h : value.get "egress_interfaces" = some (.arr items)) : egressItems value = items := by
  rw [egressItems, h]
  rfl

theorem run_applyRefresh_eq_ok {path : String} {links : String → LinkState}
    (hvalue : m.config = .json value)
    (h : Program.run (machineHost env)
      (applyRefresh path ((directEgresses cfg).map (planOf links))) m = (.ok (), m')) :
    ∃ read items, value.reread (rewriteNumber env.floats) = some read ∧
      read.get "egress_interfaces" = some (.arr items) ∧
      m'.config = .json (refreshedValue links cfg read) ∧ m'.net = m.net := by
  rw [applyRefresh, readConfigValue, Program.bind_eq,
    Program.run_bind_ok _ (Program.run_ask _ _ _)] at h
  rcases hanswer : (machineHost env (.config .readValue) m).1 with cause | (_ | read)
  · rw [hanswer] at h
    cases h
  · rw [hanswer] at h
    cases h
  · rw [hanswer] at h
    change configRead env _ (m.config, m.configCalls) = _ at hanswer
    rw [hvalue] at hanswer
    dsimp only at h
    cases hitems : (read.get "egress_interfaces").bind Json.asArray with
    | none =>
        rw [hitems] at h
        cases h
    | some items =>
        obtain ⟨list, hlist, hasArray⟩ := Option.bind_eq_some_iff.mp hitems
        rw [asArray_eq_some hasArray] at hlist
        rw [hitems] at h
        dsimp only at h
        rw [foldl_refreshEgresses, writeConfig, Program.bind_eq,
          Program.run_bind_ok _ (Program.run_ask _ _ _)] at h
        have hnew : read.set "egress_interfaces" (.arr (items.map fun item =>
            ((directEgresses cfg).map (planOf links)).foldl refreshStep item)) =
              refreshedValue links cfg read := by
          rw [refreshedValue, egressItems_of_get hlist]
          rfl
        rw [hnew] at h
        rcases hwrite : machineHost env (.config (.write (refreshedValue links cfg read)))
          (machineHost env (.config .readValue) m).2 with ⟨cause | ⟨⟩, after⟩
        · rw [hwrite] at h
          cases h
        · rw [hwrite] at h
          cases h
          obtain ⟨hwritten, hnet⟩ := answer_write_eq_ok hwrite
          exact ⟨read, items, configRead_eq_ok hanswer, hlist, hwritten, hnet⟩

end File

/-! ### The numbers -/

section Numbers

variable {floats : String → Option String} {number : String → Option String} {value read : Json}
  {links : String → LinkState} {cfg : Config} {members : List (String × Json)}

/-- The number as it is printed, if it can be read. -/
def printed (number : String → Option String) (literal : String) : String :=
  (number literal).getD literal

/-- All numbers of the value can be read. -/
def Readable (number : String → Option String) (value : Json) : Prop :=
  value.allNumbers (fun literal => (number literal).isSome) = true

theorem reread_eq_some (h : value.reread number = some read) :
    Readable number value ∧ read = value.renumber (printed number) := by
  unfold Json.reread at h
  split_ifs at h with hsome
  exact ⟨hsome, (Option.some.inj h).symm⟩

theorem keepsNaturals_printed (floats : String → Option String) :
    KeepsNaturals (printed (rewriteNumber floats)) := by
  intro text value h
  simp only [Json.asNat] at h
  split_ifs at h with hdigits
  have hfits : fitsInteger text = true := by
    unfold fitsInteger
    split
    · next digits hminus =>
        rw [hminus] at hdigits
        exact absurd hdigits.1 (by simp)
    · exact decide_eq_true ⟨hdigits.1, hdigits.2.2⟩
  rw [printed, rewriteNumber, if_pos hfits]
  rfl

/-- The plans do to a value that was read and written what they do to the value. -/
theorem refreshedValue_renumber {number : String → String} (hnumber : KeepsNaturals number)
    (hnames : (cfg.egressInterfaces.map (·.name)).Nodup)
    (hdecode : Config.decode (.obj members) = some cfg) :
    refreshedValue links cfg ((Json.obj members).renumber number) =
      (refreshedValue links cfg (.obj members)).renumber number := by
  obtain ⟨field, hfield⟩ := fields_of_config hdecode
  have honce := Json.count_of_fields hfield (by decide : "egress_interfaces" ∈ configFields)
  obtain ⟨items, hitems, hdecoded⟩ := Config.egressItems_of_decode hdecode
  have hget := @Json.get_renumber number _ _ honce
  rw [hitems, Option.map_some, Json.renumber_arr] at hget
  rw [refreshedValue, refreshedValue, egressItems_of_get hitems, egressItems_of_get hget,
    Json.renumber_set honce, Json.renumber_arr, List.map_map, List.map_map]
  congr 2
  refine List.map_congr_left fun item hitem => ?_
  obtain ⟨egress, hmem, hegress⟩ := exists_right_of_forall₂ hdecoded hitem
  exact refreshedItem_renumber hnumber hnames hmem hegress

/-- Printed anew, the number has the same value. -/
def keepsValue (number : String → Option String) (literal : String) : Bool :=
  numberValue (printed number literal) = numberValue literal

/-- The numbers that count keep their values when they are read and printed, and once more when
what is printed can be read again. -/
structure NumbersKept (number : String → Option String) (value : Json) : Prop where
  first : (value.renumber id).allNumbers (keepsValue number) = true
  second : Readable number (value.renumber (printed number)) →
    (value.renumber (printed number)).allNumbers (keepsValue number) = true

end Numbers

/-! ### The command -/

section Command

variable {env : MachineEnv} {m m' : Machine} {value : Json} {cfg : Config} {args : Args}
  {occasions : Occasions}

theorem run_planRefresh_machine (cfg : Config) :
    Program.run (machineHost env) (onNet (planRefresh cfg)) m =
      (.ok ((directEgresses cfg).map (planOf m.net.links)), m) := by
  rw [run_onNet, run_planRefresh]

theorem isEmpty_plans {links : String → LinkState} (h : directEgresses cfg ≠ []) :
    ((directEgresses cfg).map (planOf links)).isEmpty = false := by
  rwa [List.isEmpty_eq_false_iff, ne_eq, List.map_eq_nil_iff]

/-- What a refresh that succeeds has done: without a direct egress nothing, and else it has
written the value with the refreshed items and with its numbers printed anew. -/
theorem run_refresh_eq_ok (hcommand : args.command = some .refreshDirectEgress)
    (happly : args.apply = true) (hvalue : m.config = .json value)
    (hdecode : Config.decode value = some cfg)
    (h : Program.run (machineHost env) (runCommand args occasions) m = (.ok (), m')) :
    cfg.validate = .ok () ∧ m'.net = m.net ∧
      (m'.config = .json value ∧ directEgresses cfg = [] ∨
        directEgresses cfg ≠ [] ∧ (∃ members, value = .obj members) ∧
          Readable (rewriteNumber env.floats) value ∧
          m'.config = .json ((refreshedValue m.net.links cfg value).renumber
            (printed (rewriteNumber env.floats)))) := by
  have hsubcommand : args.subcommand = .refreshDirectEgress := by
    rw [Args.subcommand, hcommand]
    rfl
  rw [runCommand, hsubcommand] at h
  obtain ⟨first, m₁, hload, h⟩ := Program.run_bind_eq_ok _ h
  obtain ⟨hfirst, rfl⟩ := run_load_eq_ok hvalue hload
  obtain rfl := Option.some.inj (hdecode.symm.trans hfirst)
  obtain ⟨⟨⟩, m₂, hvalid, h⟩ := Program.run_bind_eq_ok _ h
  rw [Program.run_ofExcept, Prod.mk.injEq] at hvalid
  obtain ⟨hvalid, rfl⟩ := hvalid
  -- The subcommand loads the configuration once more.
  simp only [Subcommand.program, happly] at h
  obtain ⟨second, m₃, hload, h⟩ := Program.run_bind_eq_ok _ h
  obtain ⟨hsecond, rfl⟩ := run_load_eq_ok
    (m := m.afterRead) hvalue hload
  obtain rfl := Option.some.inj (hdecode.symm.trans hsecond)
  rw [Program.bind_eq, Program.run_bind_ok _ (run_planRefresh_machine cfg)] at h
  refine ⟨hvalid, ?_⟩
  by_cases hempty : directEgresses cfg = []
  · rw [hempty, List.map_nil, List.isEmpty_nil, if_pos rfl] at h
    cases h
    exact ⟨rfl, Or.inl ⟨hvalue, hempty⟩⟩
  · rw [isEmpty_plans hempty, if_neg Bool.false_ne_true, if_pos rfl] at h
    obtain ⟨read, items, hread, hitems, hwritten, hnet⟩ :=
      run_applyRefresh_eq_ok (m := m.afterRead.afterRead) hvalue h
    obtain ⟨hreadable, rfl⟩ := reread_eq_some hread
    obtain ⟨read, hobj⟩ := Json.obj_of_get hitems
    obtain ⟨members, rfl⟩ := Json.obj_of_renumber hobj
    obtain ⟨-, -, hegresses, -⟩ := validate_eq_ok_iff.mp hvalid
    rw [refreshedValue_renumber (keepsNaturals_printed _) hegresses.names hdecode] at hwritten
    exact ⟨hnet, Or.inr ⟨hempty, ⟨members, rfl⟩, hreadable, hwritten⟩⟩

/-- The file can be read and written at every time. -/
structure MachineEnv.FileWorks (env : MachineEnv) : Prop where
  reads : ∀ k, env.configReadFails k = none
  writes : ∀ k, env.configWrites k = .done

theorem configRead_ok (hworks : env.FileWorks) (parse : Json → Option Json) (calls : ℕ) :
    configRead env parse (.json value, calls) = .ok (parse value) := by
  simp only [configRead, hworks.reads]

theorem run_load_ok {path : String} (hworks : env.FileWorks) (hvalue : m.config = .json value)
    (hdecode : Config.decode value = some cfg) :
    Program.run (machineHost env) (Config.load path) m =
      (.ok cfg, m.afterRead) := by
  have hread : configRead env some (m.config, m.configCalls) = .ok (some value) := by
    rw [hvalue, configRead_ok hworks]
  rw [Config.load, readConfig, Program.bind_eq, Program.run_bind_ok _ (Program.run_ask _ _ _),
    Program.run_ofExcept]
  change (Config.ofRead path (configRead env some (m.config, m.configCalls)), _) = _
  rw [hread, Config.ofRead, hdecode]
  rfl

theorem run_applyRefresh_ok {path : String} {plans : List DirectEgressRefreshPlan}
    {items : List Json} {read : Json} (hworks : env.FileWorks) (hvalue : m.config = .json value)
    (hread : value.reread (rewriteNumber env.floats) = some read)
    (hitems : read.get "egress_interfaces" = some (.arr items)) :
    ∃ m', Program.run (machineHost env) (applyRefresh path plans) m = (.ok (), m') := by
  have hanswer : (machineHost env (.config .readValue) m).1 = .ok (some read) := by
    change configRead env _ (m.config, m.configCalls) = _
    rw [hvalue, configRead_ok hworks, hread]
  have hlist : (read.get "egress_interfaces").bind Json.asArray = some items := by
    rw [hitems]
    rfl
  rw [applyRefresh, readConfigValue, Program.bind_eq, Program.run_bind_ok _ (Program.run_ask _ _ _),
    hanswer]
  dsimp only
  rw [hlist]
  dsimp only
  rw [writeConfig, Program.bind_eq, Program.run_bind_ok _ (Program.run_ask _ _ _)]
  have hwrite : ∀ new m, (machineHost env (.config (.write new)) m).1 = .ok () := by
    intro new m
    simp only [machineHost, configHost, hworks.writes]
  rw [hwrite]
  exact ⟨_, rfl⟩

/-- Where the file can be read and written, a refresh of an accepted configuration succeeds as
long as all numbers can be read. -/
theorem run_refresh_ok (hcommand : args.command = some .refreshDirectEgress)
    (happly : args.apply = true) (hworks : env.FileWorks) {members : List (String × Json)}
    (hvalue : m.config = .json (.obj members))
    (hdecode : Config.decode (.obj members) = some cfg) (hvalid : cfg.validate = .ok ())
    (hreadable : Readable (rewriteNumber env.floats) (.obj members)) :
    ∃ m', Program.run (machineHost env) (runCommand args occasions) m = (.ok (), m') := by
  have hsubcommand : args.subcommand = .refreshDirectEgress := by
    rw [Args.subcommand, hcommand]
    rfl
  obtain ⟨items, hitems, -⟩ := Config.egressItems_of_decode hdecode
  obtain ⟨field, hfield⟩ := fields_of_config hdecode
  have honce := Json.count_of_fields hfield (by decide : "egress_interfaces" ∈ configFields)
  have hget := @Json.get_renumber (printed (rewriteNumber env.floats)) _ _ honce
  rw [hitems, Option.map_some, Json.renumber_arr] at hget
  have hread : (Json.obj members).reread (rewriteNumber env.floats) =
      some ((Json.obj members).renumber (printed (rewriteNumber env.floats))) := if_pos hreadable
  have hchecked : ∀ {m : Machine}, Program.run (machineHost env)
      (Program.ofExcept cfg.validate : MachineProgram Unit) m = (.ok (), m) := by
    intro m
    rw [Program.run_ofExcept, hvalid]
  rw [runCommand, hsubcommand, Program.bind_eq,
    Program.run_bind_ok _ (run_load_ok hworks hvalue hdecode), Program.bind_eq,
    Program.run_bind_ok _ hchecked]
  simp only [Subcommand.program, happly]
  rw [printRefreshDirectEgress, Program.bind_eq, Program.run_bind_ok _ (run_load_ok
    (m := m.afterRead) hworks hvalue hdecode), Program.bind_eq,
    Program.run_bind_ok _ (run_planRefresh_machine cfg)]
  split_ifs with hnone happlied
  · exact ⟨_, rfl⟩
  · exact run_applyRefresh_ok (m := m.afterRead.afterRead) hworks hvalue hread hget
  · exact absurd rfl happlied

end Command

/-! ### What a refresh settles -/

/-- The value says what the old one says with the items refreshed. -/
def Rewritten (links : String → LinkState) (value value' : Json) : Prop :=
  ∃ items, List.Forall₂ (Refreshed links) (egressItems value) items ∧
    value'.meaning = (value.set "egress_interfaces" (.arr items)).meaning

/-- After the refresh the file holds a configuration that is accepted, that has nothing to
refresh on the same host, and that says what the old one says but for the refreshed values. What
a second refresh leaves says the same. -/
structure RefreshDone (args : Args) (floats : String → Option String) (m m' : Machine)
    (value value' : Json) (cfg' : Config) : Prop where
  written : m'.config = .json value'
  parsed : Config.decode value' = some cfg'
  accepted : cfg'.validate = .ok ()
  planned : ∀ env, ∃ plans,
    Program.run (netHost env) (planRefresh cfg') m.net = (.ok plans, m.net) ∧
      ∀ plan ∈ plans, plan.needsUpdate = false
  again : ∀ env occasions m'', env.floats = floats →
    Program.run (machineHost env) (runCommand args occasions) m' = (.ok (), m'') →
      ∃ value'', m''.config = .json value'' ∧ value''.meaning = value'.meaning
  frame : Rewritten m.net.links value value'

def RefreshSettles (args : Args) (floats : String → Option String) (m m' : Machine)
    (value : Json) : Prop :=
  ∃ value' cfg', RefreshDone args floats m m' value value' cfg'

/-- Every egress that drifts is written as an object whose kind is the string. -/
def DriftsWrittenDirect (links : String → LinkState) (value : Json) : Prop :=
  ∀ item ∈ egressItems value, ∀ egress, EgressInterface.decode item = some egress →
    Drifts links egress → WrittenDirect item

section Settles

variable {args : Args} {occasions : Occasions} {env : MachineEnv} {m m' : Machine} {value : Json}
  {cfg : Config} {links : String → LinkState} {members : List (String × Json)}

/-- The plans for egresses that do not drift need no update. -/
theorem needsUpdate_planOf (h : ∀ egress ∈ cfg.egressInterfaces, ¬ Drifts links egress) :
    ∀ plan ∈ (directEgresses cfg).map (planOf links), plan.needsUpdate = false := by
  intro plan hplan
  obtain ⟨egress, hegress, rfl⟩ := List.mem_map.mp hplan
  obtain ⟨hmem, hdirect⟩ := List.mem_filter.mp hegress
  rw [decide_eq_true_eq] at hdirect
  exact Bool.eq_false_of_not_eq_true fun hupdate =>
    h egress hmem ⟨hdirect.1, hdirect.2, hupdate⟩

/-- Where all plans need no update, nothing drifts. -/
theorem not_drifts_of_planned (h : ∃ plans,
    Program.run (netHost env.net) (planRefresh cfg) m.net = (.ok plans, m.net) ∧
      ∀ plan ∈ plans, plan.needsUpdate = false) :
    ∀ egress ∈ cfg.egressInterfaces, ¬ Drifts m.net.links egress := by
  rintro egress hmem ⟨henabled, hdirect, hupdate⟩
  obtain ⟨plans, hplans, hall⟩ := h
  rw [run_planRefresh, Prod.mk.injEq, Except.ok.injEq] at hplans
  rw [← hplans.1] at hall
  have hlisted : egress ∈ directEgresses cfg :=
    List.mem_filter.mpr ⟨hmem, by simp [henabled, hdirect]⟩
  rw [hall _ (List.mem_map_of_mem hlisted)] at hupdate
  cases hupdate

theorem not_drifts_of_empty (h : directEgresses cfg = []) :
    ∀ egress ∈ cfg.egressInterfaces, ¬ Drifts links egress := by
  rintro egress hmem ⟨henabled, hdirect, -⟩
  have hlisted : egress ∈ directEgresses cfg :=
    List.mem_filter.mpr ⟨hmem, by simp [henabled, hdirect]⟩
  rw [h] at hlisted
  cases hlisted

/-- A member that is set to what it is. -/
theorem Json.set_of_get {json new : Json} {key : String} (h : json.get key = some new) :
    json.set key new = json := by
  obtain ⟨members, rfl⟩ := Json.obj_of_get h
  have hlookup : KeyedList.lookup Prod.fst key members = some (key, new) := by
    rw [Json.get_obj, Option.map_eq_some_iff] at h
    obtain ⟨⟨name, json⟩, hfound, rfl⟩ := h
    rw [hfound, ← KeyedList.key_of_lookup Prod.fst hfound]
  exact congrArg Json.obj (KeyedList.upsert_of_lookup Prod.fst hlookup)

/-- The items of a configuration are those of its egresses. -/
theorem decoded_egressItems (hdecode : Config.decode (.obj members) = some cfg) :
    (Json.obj members).get "egress_interfaces" = some (.arr (egressItems (.obj members))) ∧
      List.Forall₂ (fun item egress => EgressInterface.decode item = some egress)
        (egressItems (.obj members)) cfg.egressInterfaces := by
  obtain ⟨items, hitems, hdecoded⟩ := Config.egressItems_of_decode hdecode
  rw [egressItems_of_get hitems]
  exact ⟨hitems, hdecoded⟩

/-- Where nothing drifts, the plans change nothing. -/
theorem refreshedValue_of_settled (hdecode : Config.decode (.obj members) = some cfg)
    (hnames : (cfg.egressInterfaces.map (·.name)).Nodup)
    (hsettled : ∀ egress ∈ cfg.egressInterfaces, ¬ Drifts links egress) :
    refreshedValue links cfg (.obj members) = .obj members := by
  obtain ⟨hitems, hdecoded⟩ := decoded_egressItems hdecode
  have hmap : (egressItems (.obj members)).map (refreshedItem links cfg) =
      egressItems (.obj members) := by
    refine (List.map_congr_left fun item hitem => ?_).trans (List.map_id _)
    obtain ⟨egress, hmem, hegress⟩ := exists_right_of_forall₂ hdecoded hitem
    exact refreshedItem_same hnames hmem hegress fun h => hsettled egress hmem h.1
  rw [refreshedValue, hmap, Json.set_of_get hitems]

/-- There is one way only in which an item can be refreshed. -/
theorem refreshed_unique : Relator.RightUnique (Refreshed links) := by
  intro item item' item'' h h'
  cases h with
  | same hdecode hsettled =>
      cases h' with
      | same hdecode' hsettled' => rfl
      | follows hdecode' hdrifts hstate =>
          obtain rfl := Option.some.inj (hdecode.symm.trans hdecode')
          exact absurd hdrifts hsettled
  | follows hdecode hdrifts hstate =>
      cases h' with
      | same hdecode' hsettled =>
          obtain rfl := Option.some.inj (hdecode.symm.trans hdecode')
          exact absurd hdrifts hsettled
      | follows hdecode' hdrifts' hstate' =>
          obtain rfl := Option.some.inj (hdecode.symm.trans hdecode')
          cases hstate.symm.trans hstate'
          rfl

/-- The refreshed items are what they are to become. -/
theorem refreshed_items (hdecode : Config.decode (.obj members) = some cfg)
    (hnames : (cfg.egressInterfaces.map (·.name)).Nodup)
    (hfound : DriftsWrittenDirect links (.obj members)) :
    List.Forall₂ (Refreshed links) (egressItems (.obj members))
      ((egressItems (.obj members)).map (refreshedItem links cfg)) := by
  obtain ⟨-, hdecoded⟩ := decoded_egressItems hdecode
  rw [List.forall₂_map_right_iff, List.forall₂_same]
  intro item hitem
  obtain ⟨egress, hmem, hegress⟩ := exists_right_of_forall₂ hdecoded hitem
  exact refreshed_refreshedItem hnames hmem hegress (hfound item hitem egress hegress)

end Settles

/-! ### When it does -/

section Exact

variable {args : Args} {occasions : Occasions} {env : MachineEnv} {m m' : Machine} {value : Json}
  {cfg : Config} {links : String → LinkState} {members : List (String × Json)}
  {number : String → Option String} {p : String → Bool}

/-- The numbers of the file that is written are those of the old file, as they are printed. -/
theorem numbers_written (hdecode : Config.decode (.obj members) = some cfg)
    (hnames : (cfg.egressInterfaces.map (·.name)).Nodup)
    (hfound : DriftsWrittenDirect links (.obj members)) (number : String → String) :
    ((refreshedValue links cfg (.obj members)).renumber number).allNumbers p = true ↔
      ((Json.obj members).renumber number).allNumbers p = true := by
  rw [Json.allNumbers_renumber, Json.allNumbers_renumber p number]
  exact numbers_rewritten hdecode (decoded_egressItems hdecode).1
    (refreshed_items hdecode hnames hfound)

/-- What is written says what it is to say exactly when the numbers keep their values. -/
theorem rewritten_iff (hdecode : Config.decode (.obj members) = some cfg)
    (hnames : (cfg.egressInterfaces.map (·.name)).Nodup)
    (hfound : DriftsWrittenDirect links (.obj members)) :
    Rewritten links (.obj members)
        ((refreshedValue links cfg (.obj members)).renumber (printed number)) ↔
      ((Json.obj members).renumber id).allNumbers (keepsValue number) = true := by
  have hitems := refreshed_items hdecode hnames hfound
  have hmeaning : ((refreshedValue links cfg (.obj members)).renumber (printed number)).meaning =
      (refreshedValue links cfg (.obj members)).meaning ↔
        ((Json.obj members).renumber id).allNumbers (keepsValue number) = true :=
    (Json.meaning_renumber_iff _ _).trans (numbers_written hdecode hnames hfound id)
  rw [← hmeaning]
  constructor
  · rintro ⟨items, hrefreshed, hsame⟩
    rw [← List.right_unique_forall₂' refreshed_unique hitems hrefreshed] at hsame
    exact hsame
  · exact fun hsame => ⟨_, hitems, hsame⟩

/-- Where nothing drifts, a refresh says the same again exactly when the numbers keep their
values, or when some cannot be read. -/
theorem again_iff (env : MachineEnv) (occasions : Occasions)
    (hcommand : args.command = some .refreshDirectEgress) (happly : args.apply = true)
    (hvalue : m.config = .json (.obj members)) (hdecode : Config.decode (.obj members) = some cfg)
    (hvalid : cfg.validate = .ok ()) (hsome : directEgresses cfg ≠ [])
    (hsettled : ∀ egress ∈ cfg.egressInterfaces, ¬ Drifts m.net.links egress)
    (floats : String → Option String) :
    (∀ env occasions m', env.floats = floats →
      Program.run (machineHost env) (runCommand args occasions) m = (.ok (), m') →
        ∃ value', m'.config = .json value' ∧ value'.meaning = (Json.obj members).meaning) ↔
      (Readable (rewriteNumber floats) (.obj members) →
        ((Json.obj members).renumber id).allNumbers (keepsValue (rewriteNumber floats)) =
          true) := by
  obtain ⟨-, -, hegresses, -⟩ := validate_eq_ok_iff.mp hvalid
  have hsame := refreshedValue_of_settled hdecode hegresses.names hsettled
  have hwritten : ∀ {env occasions m'}, env.floats = floats →
      Program.run (machineHost env) (runCommand args occasions) m = (.ok (), m') →
        Readable (rewriteNumber floats) (.obj members) ∧
          m'.config = .json ((Json.obj members).renumber (printed (rewriteNumber floats))) := by
    intro env occasions m' hfloats hrun
    obtain ⟨-, -, ⟨-, hempty⟩ | ⟨-, -, hreadable, hwritten⟩⟩ :=
      run_refresh_eq_ok hcommand happly hvalue hdecode hrun
    · exact absurd hempty hsome
    · rw [hsame, hfloats] at hwritten
      exact ⟨hfloats ▸ hreadable, hwritten⟩
  constructor
  · intro hagain hreadable
    let works : MachineEnv :=
      { env with floats := floats, configReadFails := fun _ => none, configWrites := fun _ => .done }
    obtain ⟨m', hrun⟩ := @run_refresh_ok works m cfg args occasions hcommand happly
      ⟨fun _ => rfl, fun _ => rfl⟩ members hvalue hdecode hvalid hreadable
    obtain ⟨value', hvalue', hmeaning⟩ := hagain works occasions m' rfl hrun
    obtain ⟨-, hnew⟩ := hwritten rfl hrun
    obtain rfl := ConfigContent.json.inj (hvalue'.symm.trans hnew)
    exact (Json.meaning_renumber_iff _ _).mp hmeaning
  · intro hkept env occasions m' hfloats hrun
    obtain ⟨hreadable, hnew⟩ := hwritten hfloats hrun
    exact ⟨_, hnew, (Json.meaning_renumber_iff _ _).mpr (hkept hreadable)⟩

/-- A second refresh reads the numbers that the first one has printed. -/
theorem again_written_iff {cfg' : Config} (env : MachineEnv) (occasions : Occasions)
    (hcommand : args.command = some .refreshDirectEgress) (happly : args.apply = true)
    (hdecode : Config.decode (.obj members) = some cfg)
    (hnames : (cfg.egressInterfaces.map (·.name)).Nodup)
    (hfound : DriftsWrittenDirect m.net.links (.obj members)) (hwritten : m'.config =
      .json ((refreshedValue m.net.links cfg (.obj members)).renumber
        (printed (rewriteNumber env.floats)))) (hnet : m'.net = m.net)
    (hparsed : Config.decode ((refreshedValue m.net.links cfg (.obj members)).renumber
      (printed (rewriteNumber env.floats))) = some cfg') (hvalid : cfg'.validate = .ok ())
    (hsome : directEgresses cfg' ≠ [])
    (hsettled : ∀ egress ∈ cfg'.egressInterfaces, ¬ Drifts m.net.links egress) :
    (∀ env' occasions m'', env'.floats = env.floats →
      Program.run (machineHost env') (runCommand args occasions) m' = (.ok (), m'') →
        ∃ value'', m''.config = .json value'' ∧ value''.meaning =
          ((refreshedValue m.net.links cfg (.obj members)).renumber
            (printed (rewriteNumber env.floats))).meaning) ↔
      (Readable (rewriteNumber env.floats)
          ((Json.obj members).renumber (printed (rewriteNumber env.floats))) →
        ((Json.obj members).renumber (printed (rewriteNumber env.floats))).allNumbers
          (keepsValue (rewriteNumber env.floats)) = true) := by
  have hnumbers := @numbers_written cfg m.net.links members
  obtain ⟨members', hmembers'⟩ : ∃ members', (refreshedValue m.net.links cfg (.obj members)).renumber
      (printed (rewriteNumber env.floats)) = .obj members' := ⟨_, Json.renumber_obj⟩
  have hreadable : Readable (rewriteNumber env.floats) (.obj members') ↔
      Readable (rewriteNumber env.floats)
        ((Json.obj members).renumber (printed (rewriteNumber env.floats))) := by
    rw [Readable, ← hmembers']
    exact hnumbers hdecode hnames hfound _
  have hkept : ((Json.obj members').renumber id).allNumbers
        (keepsValue (rewriteNumber env.floats)) = true ↔
      ((Json.obj members).renumber (printed (rewriteNumber env.floats))).allNumbers
        (keepsValue (rewriteNumber env.floats)) = true := by
    rw [← hmembers', Json.renumber_renumber, Function.id_comp]
    exact hnumbers hdecode hnames hfound _
  rw [hmembers'] at hwritten hparsed ⊢
  rw [← hreadable, ← hkept]
  exact again_iff env occasions hcommand happly hwritten hparsed hvalid hsome (hnet ▸ hsettled)
    env.floats

theorem directEgresses_of_fixed {cfg cfg' : Config}
    (h : cfg'.egressInterfaces.map (·.fixed) = cfg.egressInterfaces.map (·.fixed))
    (hsome : directEgresses cfg ≠ []) : directEgresses cfg' ≠ [] := by
  have hfixed : ∀ cfg : Config, (directEgresses cfg).map (·.fixed) =
      (cfg.egressInterfaces.map (·.fixed)).filter
        (fun egress => egress.enabled ∧ egress.kind = .direct) := by
    intro cfg
    rw [directEgresses, List.filter_map]
    rfl
  intro hempty
  have hnone : (directEgresses cfg).map (·.fixed) = [] := by
    rw [hfixed cfg, ← h, ← hfixed cfg', hempty, List.map_nil]
  exact hsome (List.map_eq_nil_iff.mp hnone)

/-- An egress that is not found still drifts afterwards. -/
theorem writtenDirect_of_settled {items : List Json} {after : List EgressInterface}
    (hafter : Successors links cfg items after) (hitems : egressItems value = items)
    (hsettled : ∀ egress ∈ after, ¬ Drifts links egress) : DriftsWrittenDirect links value := by
  intro item hitem egress hegress hdrifts
  rw [hitems] at hitem
  obtain ⟨e, hmem, hfollows⟩ := hafter.forth item hitem egress hegress
  by_contra hkind
  exact hsettled e hmem (hfollows.missed hdrifts hkind)

theorem writtenDirect_of_empty (hdecode : Config.decode value = some cfg)
    (hempty : directEgresses cfg = []) : DriftsWrittenDirect links value := by
  intro item hitem egress hegress hdrifts
  cases value with
  | obj members =>
      obtain ⟨-, hdecoded⟩ := decoded_egressItems hdecode
      obtain ⟨egress', hmem, hegress'⟩ := exists_right_of_forall₂ hdecoded hitem
      obtain rfl := Option.some.inj (hegress.symm.trans hegress')
      exact absurd hdrifts (not_drifts_of_empty hempty egress hmem)
  | arr items => cases hitem
  | null => cases hitem
  | bool b => cases hitem
  | num text => cases hitem
  | str s => cases hitem

/-- A refresh without a direct egress leaves the file as it is, and has nothing to do. -/
theorem refreshDone_of_empty (hcommand : args.command = some .refreshDirectEgress)
    (happly : args.apply = true) (hdecode : Config.decode value = some cfg)
    (hvalid : cfg.validate = .ok ()) (hempty : directEgresses cfg = [])
    (hsame : m'.config = .json value) (floats : String → Option String) :
    RefreshDone args floats m m' value value cfg where
  written := hsame
  parsed := hdecode
  accepted := hvalid
  planned env := ⟨_, run_planRefresh env cfg m.net, needsUpdate_planOf (not_drifts_of_empty hempty)⟩
  again env occasions m'' _ hrun := by
    obtain ⟨-, -, ⟨hagain, -⟩ | ⟨hsome, -⟩⟩ :=
      run_refresh_eq_ok hcommand happly hsame hdecode hrun
    · exact ⟨value, hagain, rfl⟩
    · exact absurd hempty hsome
  frame := by
    cases value with
    | obj members =>
        obtain ⟨hitems, hdecoded⟩ := decoded_egressItems hdecode
        refine ⟨egressItems (.obj members), ?_, by rw [Json.set_of_get hitems]⟩
        rw [List.forall₂_same]
        intro item hitem
        obtain ⟨egress, hmem, hegress⟩ := exists_right_of_forall₂ hdecoded hitem
        exact .same hegress (not_drifts_of_empty hempty egress hmem)
    | arr items => exact ⟨[], .nil, rfl⟩
    | null => cases hdecode
    | bool b => cases hdecode
    | num text => cases hdecode
    | str s => cases hdecode

/-- What a refresh that succeeds has written, where there is a direct egress. -/
structure FileWritten (env : MachineEnv) (m m' : Machine) (members : List (String × Json))
    (cfg : Config) (after : List EgressInterface) : Prop where
  successors : Successors m.net.links cfg (egressItems (.obj members)) after
  written : m'.config = .json ((refreshedValue m.net.links cfg (.obj members)).renumber
    (printed (rewriteNumber env.floats)))
  parsed : Config.decode ((refreshedValue m.net.links cfg (.obj members)).renumber
    (printed (rewriteNumber env.floats))) = some { cfg with egressInterfaces := after }

theorem fileWritten_of_run (hvalid : cfg.validate = .ok ())
    (hdecode : Config.decode (.obj members) = some cfg) (hlinks : ReportsPlain m.net.links)
    (hwritten : m'.config = .json ((refreshedValue m.net.links cfg (.obj members)).renumber
      (printed (rewriteNumber env.floats)))) :
    ∃ after, FileWritten env m m' members cfg after := by
  obtain ⟨-, -, hegresses, -⟩ := validate_eq_ok_iff.mp hvalid
  obtain ⟨-, hdecoded⟩ := decoded_egressItems hdecode
  obtain ⟨after, hafter⟩ := exists_successors hlinks hegresses.names hdecoded
  exact ⟨after, hafter, hwritten, reread_config (keepsNaturals_printed env.floats) _ _
    (Config.decode_setEgresses hdecode hafter.decoded)⟩

theorem writtenDirect_of_done {after : List EgressInterface} {value' : Json} {cfg' : Config}
    (hfile : FileWritten env m m' members cfg after)
    (hdone : RefreshDone args env.floats m m' (.obj members) value' cfg') :
    DriftsWrittenDirect m.net.links (.obj members) := by
  obtain rfl := ConfigContent.json.inj (hdone.written.symm.trans hfile.written)
  obtain rfl := Option.some.inj (hdone.parsed.symm.trans hfile.parsed)
  exact writtenDirect_of_settled hfile.successors rfl (not_drifts_of_planned (hdone.planned env.net))

/-- A refresh settles the drift of the direct egresses if and only if each that drifts is an
object whose kind is the string `direct`, and, where there is a direct egress at all, printing the
numbers of the file keeps their values. -/
theorem refreshSettles_iff (hcommand : args.command = some .refreshDirectEgress)
    (happly : args.apply = true) (hvalue : m.config = .json value)
    (hdecode : Config.decode value = some cfg) (hlinks : ReportsPlain m.net.links)
    (hrun : Program.run (machineHost env) (runCommand args occasions) m = (.ok (), m')) :
    RefreshSettles args env.floats m m' value ↔ DriftsWrittenDirect m.net.links value ∧
      (directEgresses cfg ≠ [] → NumbersKept (rewriteNumber env.floats) value) := by
  obtain ⟨hvalid, hnet, ⟨hsame, hempty⟩ | ⟨hsome, ⟨members, rfl⟩, -, hwritten⟩⟩ :=
    run_refresh_eq_ok hcommand happly hvalue hdecode hrun
  · exact iff_of_true
      ⟨value, cfg, refreshDone_of_empty hcommand happly hdecode hvalid hempty hsame _⟩
      ⟨writtenDirect_of_empty hdecode hempty, fun hsome => absurd hempty hsome⟩
  · obtain ⟨-, -, hegresses, -⟩ := validate_eq_ok_iff.mp hvalid
    obtain ⟨after, hfile⟩ := fileWritten_of_run hvalid hdecode hlinks hwritten
    have hvalid' := validate_of_successors hvalid hfile.successors
    have hsome' : directEgresses { cfg with egressInterfaces := after } ≠ [] :=
      directEgresses_of_fixed hfile.successors.fixed hsome
    have hagain := fun hfound => again_written_iff env occasions hcommand happly hdecode
      hegresses.names hfound hwritten hnet hfile.parsed hvalid' hsome'
    constructor
    · rintro ⟨value', cfg', hdone⟩
      have hfound := writtenDirect_of_done hfile hdone
      obtain rfl := ConfigContent.json.inj (hdone.written.symm.trans hwritten)
      obtain rfl := Option.some.inj (hdone.parsed.symm.trans hfile.parsed)
      have hsettled := not_drifts_of_planned (hdone.planned env.net)
      exact ⟨hfound, fun _ => ⟨(rewritten_iff hdecode hegresses.names hfound).mp hdone.frame,
        (hagain hfound hsettled).mp hdone.again⟩⟩
    · rintro ⟨hfound, hkept⟩
      obtain ⟨hfirst, hsecond⟩ := hkept hsome
      have hsettled : ∀ egress ∈ after, ¬ Drifts m.net.links egress := by
        intro e he
        obtain ⟨item, hitem, egress, -, hegress, hfollows⟩ := hfile.successors.back e he
        exact hfollows.settled (hfound item hitem egress hegress)
      exact ⟨_, _, hwritten, hfile.parsed, hvalid', fun env => ⟨_, run_planRefresh env _ m.net,
        needsUpdate_planOf hsettled⟩, (hagain hfound hsettled).mpr hsecond,
        (rewritten_iff hdecode hegresses.names hfound).mpr hfirst⟩

end Exact

/-- A configuration file of one direct egress, with its kind as given. -/
def wlanJson (kind : Json) (gateway : String) : Json :=
  .obj [("version", .num "1"), ("wifi_underlay", .obj [("interface", .str "wlan0")]),
    ("egress_interfaces", .arr [.obj [("name", .str "wlan0"), ("kind", kind),
      ("gateway", .str gateway), ("table", .num "10"), ("fwmark", .num "10")]]),
    ("policies", .arr [])]

def leasedMachine (value : Json) : Machine := ⟨leasedState.1, bareState.2, 0, 0, .json value, 0⟩

def refreshArgs : Args := { apply := true, command := some .refreshDirectEgress }

theorem reportsPlain_leased : ReportsPlain leasedState.1.links := by
  refine ⟨?_, ?_⟩
  · rintro name state hstate
    cases hstate
    refine ⟨fun g hg => ?_, fun src hsrc => ?_⟩
    · cases hg
      decide
    · cases hsrc
      decide
  · rintro name state hstate
    cases hstate
    refine ⟨fun g hg => ?_, fun src hsrc => ?_⟩
    · cases hg
      decide
    · cases hsrc
      decide

/-- The file with a member that the program does not look at. -/
def ratedJson (rate : String) : Json :=
  (wlanJson (.str "direct") "198.51.100.1").set "rate" (.num rate)

theorem refreshSettles_wlan :
    RefreshSettles refreshArgs some (leasedMachine (ratedJson "2.5"))
      (Program.run (machineHost quietMachine) (runCommand refreshArgs twoRounds)
        (leasedMachine (ratedJson "2.5"))).2 (ratedJson "2.5") := by
  have hkept : keepsValue (rewriteNumber some) = fun _ => true := by
    funext literal
    simp [keepsValue, printed, rewriteNumber]
  refine (@refreshSettles_iff refreshArgs twoRounds quietMachine _ _ _
    (configOf [wlanEgress "198.51.100.1"] []) rfl rfl rfl (by decide) reportsPlain_leased
    rfl).mpr ⟨?_, fun _ => ⟨?_, fun _ => ?_⟩⟩
  · intro item hitem egress _ _
    rw [List.mem_singleton.mp hitem]
    rfl
  · change (Json.renumber id _).allNumbers (keepsValue (rewriteNumber some)) = true
    rw [hkept]
    decide
  · change (Json.renumber _ _).allNumbers (keepsValue (rewriteNumber some)) = true
    rw [hkept]
    decide

/-- A kind written as an object is accepted, but the egress is not refreshed. -/
theorem not_refreshSettles :
    ∃ value cfg m m', m.config = .json value ∧ Config.decode value = some cfg ∧
      cfg.validate = .ok () ∧ ReportsPlain m.net.links ∧
      Program.run (machineHost quietMachine) (runCommand refreshArgs twoRounds) m = (.ok (), m') ∧
      ¬ RefreshSettles refreshArgs some m m' value := by
  have hdecode : Config.decode (wlanJson (.obj [("direct", .null)]) "198.51.100.1") =
      some (configOf [wlanEgress "198.51.100.1"] []) := by decide
  obtain ⟨m', hrun⟩ : ∃ m', Program.run (machineHost quietMachine)
      (runCommand refreshArgs twoRounds) (leasedMachine (wlanJson (.obj [("direct", .null)])
        "198.51.100.1")) = (.ok (), m') := ⟨_, rfl⟩
  refine ⟨_, _, _, m', rfl, hdecode, by decide, reportsPlain_leased, hrun, ?_⟩
  rintro ⟨value', cfg', hdone⟩
  obtain ⟨hvalid, -, ⟨-, hempty⟩ | ⟨-, -, -, hwritten⟩⟩ :=
    run_refresh_eq_ok rfl rfl rfl hdecode hrun
  · cases hempty
  · obtain ⟨after, hfile⟩ := fileWritten_of_run hvalid hdecode reportsPlain_leased hwritten
    have hkind := writtenDirect_of_done hfile hdone _ List.mem_cons_self
      (wlanEgress "198.51.100.1") (by decide) ⟨rfl, rfl, by decide⟩
    cases hkind

end EveNet
