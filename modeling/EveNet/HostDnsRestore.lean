import EveNet.HostDns
import EveNet.TextSearch

/-!
# What the host DNS scripts restore

The snapshot holds the settings of a few links, as far as they could be read and their lists are
told apart in the output. The restore sets what the snapshot holds on the links that are still
there.
-/

namespace EveNet.HostDnsScripts

open Python

/-! ### The output of a query -/

theorem rdropWhile_append_cons {p : Char → Bool} {c : Char} (hc : p c = false)
    (front back : List Char) :
    (front ++ c :: back).rdropWhile p = front ++ c :: back.rdropWhile p := by
  induction back using List.reverseRecOn with
  | nil => exact List.rdropWhile_concat_neg p front c (by simp [hc])
  | append_singleton back x ih =>
      rw [show front ++ c :: (back ++ [x]) = (front ++ c :: back) ++ [x] by simp]
      by_cases hx : p x = true
      · rw [List.rdropWhile_concat_pos p _ x hx, List.rdropWhile_concat_pos p _ x hx, ih]
      · rw [List.rdropWhile_concat_neg p _ x hx, List.rdropWhile_concat_neg p _ x hx,
          List.append_assoc, List.cons_append]

theorem dropWhile_front {front back : List Char} (h : ':' ∉ front) :
    (front ++ ':' :: back).dropWhile (· ≠ ':') = ':' :: back := by
  induction front with
  | nil => rfl
  | cons c front ih =>
      obtain ⟨hc, hfront⟩ := not_or.mp (List.mem_cons.not.mp h)
      rw [List.cons_append, List.dropWhile_cons_of_pos (by simpa using Ne.symm hc), ih hfront]

theorem notMem_linkLabel {number : ℕ} {link : String} (hlink : ':' ∉ link.toList) :
    ':' ∉ linkLabel number link := by
  have hnumber : ':' ∉ Nat.toDigits 10 number := notMem_toDigits (by decide) (by decide) (by decide)
  have hfront : ':' ∉ "Link ".toList := by decide
  have hopen : ':' ∉ " (".toList := by decide
  have hclose : ':' ∉ ")".toList := by decide
  unfold linkLabel
  exact List.not_mem_append (List.not_mem_append (List.not_mem_append
    (List.not_mem_append hfront hnumber) hopen) hlink) hclose

/-- What stands behind the colon of an output, with the space around it. -/
theorem afterColon_queryText {number : ℕ} {link : String} (hlink : ':' ∉ link.toList)
    (values : List String) :
    afterColon (strip (queryText number link values)) =
      strip ((values.flatMap (fun w => ' ' :: w.toList) ++ ['\n']).rdropWhile isSpace) := by
  set body := values.flatMap (fun w => ' ' :: w.toList) ++ ['\n'] with hbody
  obtain ⟨rest, hrest⟩ : ∃ rest, linkLabel number link = 'L' :: rest := ⟨_, rfl⟩
  have hstrip : strip (queryText number link values) =
      linkLabel number link ++ ':' :: body.rdropWhile isSpace := by
    rw [strip, queryText, hrest, List.cons_append, List.dropWhile_cons_of_neg (by decide),
      ← List.cons_append, rdropWhile_append_cons (by decide)]
  rw [hstrip, afterColon, if_pos (by simp), dropWhile_front (notMem_linkLabel hlink), List.drop_one,
    List.tail_cons]

/-- The values of a link are read back from the output, except for a lone dash. -/
theorem parseValueList_queryText {number : ℕ} {link : String} (hlink : ':' ∉ link.toList)
    {values : List String} (hvalues : ∀ w ∈ values, IsWord w) :
    parseValueList (queryText number link values) = if values = ["-"] then [] else values := by
  have hsplit : split (afterColon (strip (queryText number link values))) =
      values.map String.toList := by
    rw [afterColon_queryText hlink, split_strip, split_rdropWhile]
    have hspace : split (values.flatMap (fun w => ' ' :: w.toList) ++ ['\n']) =
        split (values.flatMap (fun w => ' ' :: w.toList)) :=
      wordsFrom_append_spaces (fun c hc => List.mem_singleton.mp hc ▸ rfl) [] _
    have hjoin : split ((values.map String.toList).flatMap (' ' :: ·)) =
        values.map String.toList := by
      refine split_join fun w hw => ?_
      obtain ⟨v, hv, rfl⟩ := List.mem_map.mp hw
      exact hvalues v hv
    rw [List.flatMap_map] at hjoin
    exact hspace.trans hjoin
  unfold parseValueList
  dsimp only
  by_cases hdash : values = ["-"]
  · subst hdash
    have htext : afterColon (strip (queryText number link ["-"])) = ['-'] :=
      (afterColon_queryText hlink ["-"]).trans (by decide)
    rw [if_pos (Or.inr htext), if_pos rfl]
  rw [if_neg hdash]
  split_ifs with hempty
  · rcases hempty with hnil | hlone
    · rw [hnil] at hsplit
      exact (List.map_eq_nil_iff.mp hsplit.symm).symm
    · rw [hlone] at hsplit
      have hone : values.map String.toList = ["-"].map String.toList :=
        hsplit.symm.trans (by decide)
      exact absurd (List.map_injective_iff.mpr (fun _ _ => String.toList_inj.mp) hone) hdash
  · rw [hsplit, List.map_map]
    exact List.map_id'' (fun w => String.ofList_toList) values

/-! ### Settings that are put back -/

section Put

variable {d : HostDns} {link name : String} {old new : LinkDns}

theorem links_putLink_self (h : (d.links link).isSome = true) :
    (d.putLink link new).links link = some new := by
  obtain ⟨held, hheld⟩ := Option.isSome_iff_exists.mp h
  simp [HostDns.putLink, HostDns.mapLinks, hheld]

theorem links_putLink_of_ne (h : name ≠ link) : (d.putLink link new).links name = d.links name := by
  simp [HostDns.putLink, HostDns.mapLinks, h]

theorem isSome_links_putLink :
    ((d.putLink link new).links name).isSome = (d.links name).isSome := by
  simp [HostDns.putLink, HostDns.mapLinks]

theorem putLink_putLink : (d.putLink link old).putLink link new = d.putLink link new := by
  ext1
  · funext name
    simp only [HostDns.putLink, HostDns.mapLinks, Option.map_map]
    congr 1
    funext held
    simp only [Function.comp_apply]
    split_ifs <;> rfl
  · rfl
  · rfl

theorem setOn_eq {setting : LinkSetting} (hold : d.links link = some old)
    (hset : setting.on old = some new) : setOn d link setting = some (d.putLink link new) := by
  rw [setOn, hold]
  dsimp only
  rw [hset]
  rfl

end Put

theorem readValues_valuesOrBlank (words : Words) : readValues (valuesOrBlank words) = some words := by
  obtain ⟨l, hl⟩ := words
  unfold valuesOrBlank readValues
  dsimp only
  by_cases hnil : l = []
  · subst hnil
    rfl
  · have hblank : l ≠ [""] := by
      rintro rfl
      exact (hl "" List.mem_cons_self).1 rfl
    rw [if_neg hnil, if_neg hblank, dif_pos hl]

/-! ### Single commands -/

section Commands

variable {env : DnsEnv} {s : DnsHost} {start : HostDns} {command : DnsProgram Bool}
  {Q : Unit → DnsHost → Prop} {E : ExitStatus → DnsHost → Prop}

theorem ends_must (h : Program.Ends (dnsHost env) command s
    (fun ok t => if ok then Q () t else E .ofCommand t) E) :
    Program.Ends (dnsHost env) (must command) s Q E := by
  refine Program.Ends.bind h fun ok t ht => ?_
  cases ok with
  | true => exact ht
  | false => exact ht

theorem ends_check (h : Program.Ends (dnsHost env) command s
    (fun ok t => if ok then Q () t else E (.code 1) t) E) :
    Program.Ends (dnsHost env) (check command) s Q E := by
  refine Program.Ends.bind h fun ok t ht => ?_
  cases ok with
  | true => exact ht
  | false => exact ht

/-- A command that leaves the settings alone. -/
theorem ends_aside {step : Aside} {Q : Bool → DnsHost → Prop}
    (h : ∀ t : DnsHost, t.dns = s.dns → Q (!env.fails (.aside step)) t) :
    Program.Ends (dnsHost env) (aside step) s Q E := h _ rfl

theorem ends_mustAside {step : Aside} (hok : ∀ t : DnsHost, t.dns = s.dns → Q () t)
    (hfail : env.fails (.aside step) = true → ∀ t : DnsHost, t.dns = s.dns → E .ofCommand t) :
    Program.Ends (dnsHost env) (must (aside step)) s Q E := by
  refine ends_must (ends_aside fun t ht => ?_)
  cases hstep : env.fails (.aside step) with
  | true => exact hfail hstep t ht
  | false => exact hok t ht

theorem ends_set {caller : Caller} {link : String} {setting : LinkSetting}
    {Q : Bool → DnsHost → Prop}
    (hok : ∀ d, setOn s.dns link setting = some d → ∀ t : DnsHost, t.dns = d → Q true t)
    (hfail : env.fails (.set caller link setting) = true ∨ setOn s.dns link setting = none →
      ∀ t : DnsHost, t.dns = s.dns → Q false t) :
    Program.Ends (dnsHost env) (set caller link setting) s Q E := by
  rw [set, Program.ends_call]
  simp only [dnsHost]
  cases hfails : env.fails (.set caller link setting) with
  | true => exact hfail (Or.inl hfails) _ rfl
  | false =>
      cases hset : setOn s.dns link setting with
      | none => exact hfail (Or.inr hset) _ rfl
      | some d => exact hok d hset _ rfl

theorem ends_mustSet {link : String} {setting : LinkSetting} {old new : LinkDns}
    (hold : s.dns.links link = some old) (hset : setting.on old = some new)
    (hok : ∀ t : DnsHost, t.dns = s.dns.putLink link new → Q () t)
    (hfail : env.fails (.set .restore link setting) = true → ∀ t : DnsHost, E .ofCommand t) :
    Program.Ends (dnsHost env) (must (set .restore link setting)) s Q E := by
  have hdone := setOn_eq hold hset
  refine ends_must (ends_set (fun d hd t ht => ?_) fun hwhy t _ => ?_)
  · rw [hdone] at hd
    exact hok t (ht.trans (Option.some.inj hd).symm)
  · refine hfail (hwhy.resolve_right ?_) t
    rw [hdone]
    exact Option.some_ne_none _

end Commands

/-! ### What the restore does with a snapshot -/

/-- A list as it comes back: one that could not be read is empty, and so is a lone dash. -/
def recordedWords (failed : Bool) (words : Words) : Words :=
  if failed = true ∨ words.1 = ["-"] then ⟨[], List.forall_mem_nil _⟩ else words

/-- The entry of a link, by the queries that failed. -/
def LinkSnapshot.of (env : DnsEnv) (link : String) (held : LinkDns) : LinkSnapshot where
  dnsServers := recordedWords (env.fails (.query .dns link)) held.servers
  dnsDomains := recordedWords (env.fails (.query .domain link)) held.domains
  defaultRoute :=
    if env.fails (.query .defaultRoute link) then none else some (yesNo held.defaultRoute)

/-- A link with `before` whose entry was taken at `held`, once it has been restored. -/
def LinkDns.restored (env : DnsEnv) (link : String) (held before : LinkDns) : LinkDns where
  servers := recordedWords (env.fails (.query .dns link)) held.servers
  domains := recordedWords (env.fails (.query .domain link)) held.domains
  defaultRoute :=
    if env.fails (.query .defaultRoute link) then before.defaultRoute else held.defaultRoute

theorem LinkDns.restored_restored (env : DnsEnv) (link : String) (held before : LinkDns) :
    held.restored env link (held.restored env link before) = held.restored env link before := by
  unfold LinkDns.restored
  congr 1
  split_ifs <;> rfl

/-- Every entry holds what the queries told of a link at the start. -/
def TakenAt (env : DnsEnv) (start : HostDns) (snapshot : Snapshot) : Prop :=
  ∀ entry ∈ snapshot, ∃ held, start.links entry.1 = some held ∧ entry.2 = .of env entry.1 held

/-- `d'` is `d` with the named links restored. -/
structure RestoredIn (env : DnsEnv) (start : HostDns) (names : List String) (d d' : HostDns) :
    Prop where
  elsewhere : ∀ name, name ∉ names → d'.links name = d.links name
  isSome : ∀ name, (d'.links name).isSome = (d.links name).isSome
  there : ∀ name ∈ names, ∀ held before, start.links name = some held →
    d.links name = some before → d'.links name = some (held.restored env name before)
  profiles : d'.profiles = d.profiles
  resolvConf : d'.resolvConf = d.resolvConf

namespace RestoredIn

variable {env : DnsEnv} {start d d' : HostDns} {names : List String} {link : String}
  {held before : LinkDns}

theorem refl (env : DnsEnv) (start d : HostDns) : RestoredIn env start [] d d :=
  ⟨fun _ _ => rfl, fun _ => rfl, fun _ h => absurd h List.not_mem_nil, rfl, rfl⟩

theorem cons (hheld : start.links link = some held) (hbefore : d.links link = some before)
    (hrest : RestoredIn env start names (d.putLink link (held.restored env link before)) d') :
    RestoredIn env start (link :: names) d d' where
  elsewhere name hname := by
    obtain ⟨hne, hnotin⟩ := not_or.mp (List.mem_cons.not.mp hname)
    rw [hrest.elsewhere name hnotin, links_putLink_of_ne hne]
  isSome name := (hrest.isSome name).trans isSome_links_putLink
  there name hname held' before' hheld' hbefore' := by
    by_cases heq : name = link
    · subst heq
      rw [hheld] at hheld'
      rw [hbefore] at hbefore'
      cases hheld'
      cases hbefore'
      have hput : (d.putLink name (held.restored env name before)).links name =
          some (held.restored env name before) := links_putLink_self (by rw [hbefore]; rfl)
      by_cases hin : name ∈ names
      · rw [hrest.there name hin held _ hheld hput, LinkDns.restored_restored]
      · rw [hrest.elsewhere name hin, hput]
    · refine hrest.there name (List.mem_of_ne_of_mem heq hname) held' before' hheld' ?_
      rw [links_putLink_of_ne heq, hbefore']
  profiles := hrest.profiles
  resolvConf := hrest.resolvConf

theorem cons_missing (hmissing : d.links link = none) (hrest : RestoredIn env start names d d') :
    RestoredIn env start (link :: names) d d' where
  elsewhere name hname := hrest.elsewhere name fun hin => hname (List.mem_cons_of_mem _ hin)
  isSome := hrest.isSome
  there name hname held' before' hheld' hbefore' := by
    refine hrest.there name (List.mem_of_ne_of_mem ?_ hname) held' before' hheld' hbefore'
    rintro rfl
    rw [hmissing] at hbefore'
    cases hbefore'
  profiles := hrest.profiles
  resolvConf := hrest.resolvConf

end RestoredIn

section Restore

variable {taken env : DnsEnv} {s : DnsHost} {start : HostDns} {snapshot : Snapshot}
  {E : ExitStatus → DnsHost → Prop}

theorem ends_restoreLink {link : String} {held before : LinkDns}
    (hbefore : s.dns.links link = some before) :
    Program.Ends (dnsHost env) (restoreLink (link, .of taken link held)) s
      (fun _ t => t.dns = s.dns.putLink link (held.restored taken link before))
      (fun _ _ => True) := by
  have hthere : (s.dns.links link).isSome = true := by rw [hbefore]; rfl
  have hasked : Program.Ends (dnsHost env) (linkExists link) s
      (fun there t => there = true ∧ t.dns = s.dns) (fun _ _ => True) := ⟨hthere, rfl⟩
  refine Program.Ends.bind hasked fun there r hr => ?_
  obtain ⟨rfl, hr⟩ := hr
  rw [if_pos rfl]
  rw [← hr] at hbefore hthere ⊢
  set servers := recordedWords (taken.fails (.query .dns link)) held.servers with hservers
  set domains := recordedWords (taken.fails (.query .domain link)) held.domains with hdomains
  have hfirst : (LinkSetting.dns (valuesOrBlank servers)).on before =
      some { before with servers := servers } :=
    congrArg (Option.map _) (readValues_valuesOrBlank servers)
  refine Program.ends_bind.mpr (ends_mustSet hbefore hfirst (fun t ht => ?_)
    fun _ _ => trivial)
  have hput : t.dns.links link = some { before with servers := servers } := by
    rw [ht]
    exact links_putLink_self hthere
  have hsecond : (LinkSetting.domain (valuesOrBlank domains)).on { before with servers := servers } =
      some { before with servers := servers, domains := domains } :=
    congrArg (Option.map _) (readValues_valuesOrBlank domains)
  refine Program.ends_bind.mpr (ends_mustSet hput hsecond (fun u hu => ?_)
    fun _ _ => trivial)
  have hputBoth : u.dns.links link = some { before with servers := servers, domains := domains } := by
    rw [hu]
    exact links_putLink_self (by rw [hput]; rfl)
  have hlast : u.dns = r.dns.putLink link { before with servers := servers, domains := domains } := by
    rw [hu, ht, putLink_putLink]
  dsimp only [LinkSnapshot.of]
  by_cases hroute : taken.fails (.query .defaultRoute link) = true
  · rw [if_pos hroute]
    refine hlast.trans ?_
    rw [LinkDns.restored, if_pos hroute]
  · rw [if_neg hroute]
    have hthird : (LinkSetting.defaultRoute (yesNo held.defaultRoute)).on
        { before with servers := servers, domains := domains } =
          some (held.restored taken link before) := by
      rw [LinkDns.restored, if_neg hroute]
      cases held.defaultRoute <;> rfl
    have hyesNo : yesNo held.defaultRoute = "yes" ∨ yesNo held.defaultRoute = "no" := by
      cases held.defaultRoute with
      | true => exact Or.inl rfl
      | false => exact Or.inr rfl
    rw [restoreRoute, if_pos hyesNo]
    refine ends_mustSet hputBoth hthird (fun v hv => ?_) fun _ _ => trivial
    rw [hv, hlast, putLink_putLink]

/-- A link that is gone is left out. -/
theorem ends_restoreLink_missing {entry : String × LinkSnapshot}
    (hmissing : s.dns.links entry.1 = none) :
    Program.Ends (dnsHost env) (restoreLink entry) s (fun _ t => t.dns = s.dns) E := by
  have hasked : Program.Ends (dnsHost env) (linkExists entry.1) s
      (fun there t => there = false ∧ t.dns = s.dns) E := ⟨by
        change (s.dns.links entry.1).isSome = false
        rw [hmissing]
        rfl, rfl⟩
  refine Program.Ends.bind hasked fun there t ht => ?_
  obtain ⟨rfl, ht⟩ := ht
  exact ht

/-- A restore that succeeds has put back what the snapshot holds. -/
theorem ends_restoreSnapshot (htaken : TakenAt taken start snapshot) :
    Program.Ends (dnsHost env) (restoreSnapshot snapshot) s
      (fun _ t => RestoredIn taken start (snapshot.map Prod.fst) s.dns t.dns)
      (fun _ _ => True) := by
  have hlinks : ∀ s : DnsHost, Program.Ends (dnsHost env) (Program.forEach restoreLink snapshot) s
      (fun _ t => RestoredIn taken start (snapshot.map Prod.fst) s.dns t.dns)
      (fun _ _ => True) := by
    induction snapshot with
    | nil => exact fun s => RestoredIn.refl taken start s.dns
    | cons entry snapshot ih =>
        intro s
        have hlater := ih fun entry hentry => htaken entry (List.mem_cons_of_mem _ hentry)
        obtain ⟨held, hheld, hof⟩ := htaken entry List.mem_cons_self
        rw [Program.forEach_cons]
        cases hbefore : s.dns.links entry.1 with
        | none =>
            refine Program.Ends.bind (ends_restoreLink_missing hbefore) fun _ t ht => ?_
            refine (hlater t).mono (fun _ u hu => ?_) fun _ _ _ => trivial
            rw [ht] at hu
            exact hu.cons_missing hbefore
        | some before =>
            have hone : Program.Ends (dnsHost env) (restoreLink entry) s
                (fun _ t => t.dns = s.dns.putLink entry.1 (held.restored taken entry.1 before))
                (fun _ _ => True) := by
              obtain ⟨link, noted⟩ := entry
              dsimp only at hof
              rw [hof]
              exact ends_restoreLink hbefore
            refine Program.Ends.bind hone fun _ t ht => ?_
            refine (hlater t).mono (fun _ u hu => ?_) fun _ _ _ => trivial
            rw [ht] at hu
            exact hu.cons hheld hbefore
  refine Program.ends_bind.mpr (ends_mustAside (fun t ht => ?_) fun _ _ _ => trivial)
  refine Program.Ends.bind (hlinks t) fun _ u hu =>
    Program.Ends.bind (ends_aside fun v hv => ?_) fun _ _ hw => hw
  change RestoredIn taken start (snapshot.map Prod.fst) s.dns v.dns
  rw [hv, ← ht]
  exact hu

end Restore

/-! ### What the snapshot takes -/

section Take

variable {env : DnsEnv} {s : DnsHost} {E : ExitStatus → DnsHost → Prop}

/-- The links are the candidates that exist. -/
def Lists (d : HostDns) (candidates links : List String) : Prop :=
  ∀ link, link ∈ links ↔ link ∈ candidates ∧ (d.links link).isSome = true

theorem ends_considerLink (links : List String) (candidate : String) :
    Program.Ends (dnsHost env) (considerLink links candidate) s
      (fun out t => t.dns = s.dns ∧
        (out = links ∧ ((s.dns.links candidate).isSome = true → candidate ∈ links) ∨
          out = links ++ [candidate] ∧ (s.dns.links candidate).isSome = true)) E := by
  unfold considerLink
  split_ifs with hskip
  · refine ⟨rfl, Or.inl ⟨rfl, fun hthere => ?_⟩⟩
    exact hskip.resolve_left (s.dns.named candidate hthere).1
  · have hasked : Program.Ends (dnsHost env) (linkExists candidate) s
        (fun there t => there = (s.dns.links candidate).isSome ∧ t.dns = s.dns) E := ⟨rfl, rfl⟩
    refine Program.Ends.bind hasked fun there t ht => ?_
    obtain ⟨hthere, ht⟩ := ht
    cases there with
    | true => exact ⟨ht, Or.inr ⟨rfl, hthere.symm⟩⟩
    | false => exact ⟨ht, Or.inl ⟨rfl, fun hsome => by rw [← hthere] at hsome; cases hsome⟩⟩

theorem ends_considerLink_lists {links candidates : List String} {candidate : String}
    (h : Lists s.dns candidates links) :
    Program.Ends (dnsHost env) (considerLink links candidate) s
      (fun out t => t.dns = s.dns ∧ Lists s.dns (candidate :: candidates) out) E := by
  refine (ends_considerLink links candidate).mono (fun out t ht => ⟨ht.1, fun link => ?_⟩)
    fun _ _ he => he
  rw [List.mem_cons, or_and_right]
  rcases ht.2 with ⟨rfl, hknown⟩ | ⟨rfl, hthere⟩
  · rw [← h link]
    refine ⟨Or.inr, ?_⟩
    rintro (⟨rfl, hsome⟩ | hlink)
    · exact hknown hsome
    · exact hlink
  · rw [List.mem_append, List.mem_singleton, ← h link, or_comm]
    refine or_congr_left ⟨?_, And.left⟩
    rintro rfl
    exact ⟨rfl, hthere⟩

theorem isWord_of_all {w : String} (hne : w.toList ≠ [])
    (hall : (w.toList.all fun c => !isSpace c) = true) : IsWord w := by
  refine ⟨hne, fun c hc => ?_⟩
  have hc := List.all_eq_true.mp hall c hc
  simpa using hc

theorem isWord_yesNo (route : Bool) : IsWord (yesNo route) := by
  cases route with
  | true => exact isWord_of_all (by decide) (by decide)
  | false => exact isWord_of_all (by decide) (by decide)

theorem lower_yesNo (route : Bool) : lower (strip (yesNo route).toList) = (yesNo route).toList := by
  cases route with
  | true => decide
  | false => decide

theorem parseDefaultRoute_queryText {number : ℕ} {link : String} (hlink : ':' ∉ link.toList)
    (route : Bool) :
    parseDefaultRoute (queryText number link [yesNo route]) = some (yesNo route) := by
  have hword : ∀ w ∈ [yesNo route], IsWord w := fun w hw =>
    List.mem_singleton.mp hw ▸ isWord_yesNo route
  have hdash : [yesNo route] ≠ ["-"] := by
    cases route <;> decide
  rw [parseDefaultRoute, parseValueList_queryText hlink hword, if_neg hdash, List.head?_cons,
    Option.map_some, lower_yesNo, String.ofList_toList]

/-- A list of a link, or nothing if it cannot be read. -/
theorem read_words {number : ℕ} {link : String} (hlink : ':' ∉ link.toList) (failed : Bool)
    (words : Words) :
    ((if failed then none else some (queryText number link words)).map parseValueList).getD [] =
      recordedWords failed words := by
  cases failed with
  | true => rfl
  | false =>
      change parseValueList (queryText number link words) = _
      rw [parseValueList_queryText hlink words.2, recordedWords]
      by_cases hdash : words.1 = ["-"]
      · rw [if_pos hdash, if_pos (Or.inr hdash)]
      · rw [if_neg hdash, if_neg (by simp [hdash])]

theorem ends_snapshotLink {link : String} {held : LinkDns} (hheld : s.dns.links link = some held) :
    Program.Ends (dnsHost env) (snapshotLink link) s
      (fun taken t => t.dns = s.dns ∧ taken = .of env link held) E := by
  have hlink := (s.dns.named link (by rw [hheld]; rfl)).2
  have hasked : ∀ (key : LinkKey) (t : DnsHost), t.dns = s.dns →
      Program.Ends (dnsHost env) (query key link) t
        (fun out u => out = (if env.fails (.query key link) then none
          else some (queryText (env.linkNumber link) link (held.values key))) ∧ u.dns = s.dns) E := by
    intro key t ht
    refine ⟨?_, ht⟩
    simp only [dnsHost, ht, hheld]
    cases env.fails (.query key link) <;> rfl
  refine Program.Ends.bind (hasked .dns s rfl) fun servers t ht => ?_
  refine Program.Ends.bind (hasked .domain t ht.2) fun domains u hu => ?_
  refine Program.Ends.bind (hasked .defaultRoute u hu.2) fun route v hv => ?_
  obtain ⟨rfl, -⟩ := ht
  obtain ⟨rfl, -⟩ := hu
  obtain ⟨rfl, hv⟩ := hv
  refine ⟨hv, ?_⟩
  have hroute : (if env.fails (.query .defaultRoute link) then none
      else some (queryText (env.linkNumber link) link (held.values .defaultRoute))).bind
        parseDefaultRoute =
      if env.fails (.query .defaultRoute link) then none else some (yesNo held.defaultRoute) := by
    cases env.fails (.query .defaultRoute link) with
    | true => rfl
    | false => exact parseDefaultRoute_queryText hlink held.defaultRoute
  rw [hroute]
  simp only [LinkDns.values, read_words hlink]
  rfl

theorem ends_snapshotLinks {links : List String}
    (hlinks : ∀ link ∈ links, (s.dns.links link).isSome = true) :
    Program.Ends (dnsHost env) (snapshotLinks links) s
      (fun snapshot t => t.dns = s.dns ∧ snapshot.map Prod.fst = links ∧
        TakenAt env s.dns snapshot) E := by
  induction links generalizing s with
  | nil => exact ⟨rfl, rfl, fun entry hentry => absurd hentry List.not_mem_nil⟩
  | cons link links ih =>
      obtain ⟨held, hheld⟩ := Option.isSome_iff_exists.mp (hlinks link List.mem_cons_self)
      refine Program.Ends.bind (ends_snapshotLink hheld) fun taken t ht => ?_
      have hrest := ih (s := t) fun other hother => by
        rw [ht.1]
        exact hlinks other (List.mem_cons_of_mem _ hother)
      refine Program.Ends.bind hrest fun rest u hu => ?_
      refine ⟨hu.1.trans ht.1, congrArg (link :: ·) hu.2.1, fun entry hentry => ?_⟩
      rcases List.mem_cons.mp hentry with rfl | hentry
      · exact ⟨held, hheld, ht.2⟩
      · obtain ⟨other, hother, hof⟩ := hu.2.2 entry hentry
        exact ⟨other, ht.1 ▸ hother, hof⟩

theorem ends_takeSnapshot (underlay : String) :
    Program.Ends (dnsHost env) (takeSnapshot underlay) s
      (fun snapshot t => t.dns = s.dns ∧ Lists s.dns ["amn0", "wlo1", underlay]
        (snapshot.map Prod.fst) ∧ TakenAt env s.dns snapshot)
      (fun _ t => t.dns = s.dns) := by
  have hcommand : Program.Ends (dnsHost env) (check (hasCommand "resolvectl")) s
      (fun _ t => t.dns = s.dns) (fun _ t => t.dns = s.dns) := by
    have hasked : Program.Ends (dnsHost env) (hasCommand "resolvectl") s
        (fun _ t => t.dns = s.dns) (fun _ t => t.dns = s.dns) := rfl
    refine ends_check (hasked.mono (fun ok t ht => ?_) fun _ _ he => he)
    split
    · exact ht
    · exact ht
  refine Program.Ends.bind hcommand fun _ t ht => ?_
  have hmust : ∀ step (u : DnsHost), u.dns = s.dns →
      Program.Ends (dnsHost env) (must (aside step)) u
        (fun _ v => v.dns = s.dns) (fun _ v => v.dns = s.dns) := fun step u hu =>
    ends_mustAside (fun _ hv => hv.trans hu) fun _ _ hv => hv.trans hu
  refine Program.Ends.bind (hmust .snapshotDir t ht) fun _ u hu => ?_
  have hnone : Lists u.dns [] [] := fun _ => ⟨fun h => absurd h List.not_mem_nil,
    fun h => absurd h.1 List.not_mem_nil⟩
  refine Program.Ends.bind (ends_considerLink_lists hnone) fun first v hv => ?_
  obtain ⟨hv, hfirst⟩ := hv
  rw [← hv] at hfirst
  refine Program.Ends.bind (ends_considerLink_lists hfirst) fun second w hw => ?_
  obtain ⟨hw, hsecond⟩ := hw
  rw [← hw] at hsecond
  refine Program.Ends.bind (ends_considerLink_lists hsecond) fun links x hx => ?_
  obtain ⟨hx, hlinks⟩ := hx
  have hstart : x.dns = s.dns := by rw [hx, hw, hv, hu]
  rw [← hx, hstart] at hlinks
  have hthere : ∀ link ∈ links, (x.dns.links link).isSome = true := by
    rw [hstart]
    exact fun link hlink => ((hlinks link).mp hlink).2
  refine Program.Ends.bind (ends_snapshotLinks hthere) fun snapshot y hy => ?_
  obtain ⟨hy, hnames, htaken⟩ := hy
  rw [hstart] at hy htaken
  refine Program.Ends.bind (hmust .writeSnapshot y hy) fun _ z hz => ?_
  exact ⟨hz, hnames ▸ hlinks, htaken⟩

end Take

/-! ### Snapshot and restore together -/

def InSnapshot (start : HostDns) (underlay link : String) : Prop :=
  link ∈ ["amn0", "wlo1", underlay] ∧ (start.links link).isSome = true

/-- The settings are back, apart from those that could not be read, which are left alone. -/
structure LinkDns.Recovered (env : DnsEnv) (link : String) (held before after : LinkDns) : Prop where
  servers : after.servers = if env.fails (.query .dns link) then before.servers else held.servers
  domains : after.domains = if env.fails (.query .domain link) then before.domains else held.domains
  defaultRoute : after.defaultRoute =
    if env.fails (.query .defaultRoute link) then before.defaultRoute else held.defaultRoute

/-- A list that was not read has been empty before the restore, one that was read is no lone
dash. -/
def ListTold (failed : Bool) (held before : Words) : Prop :=
  if failed then before.1 = [] else held.1 ≠ ["-"]

theorem recordedWords_eq_iff {failed : Bool} {held before : Words} :
    recordedWords failed held = (if failed then before else held) ↔
      ListTold failed held before := by
  cases failed with
  | true => exact ⟨fun h => congrArg Subtype.val h.symm, fun h => Subtype.ext h.symm⟩
  | false =>
      rw [recordedWords]
      by_cases hdash : held.1 = ["-"]
      · refine iff_of_false (fun h => ?_) fun h => h hdash
        rw [if_pos (Or.inr hdash)] at h
        have hnil : held.1 = [] := congrArg Subtype.val h.symm
        rw [hnil] at hdash
        cases hdash
      · exact iff_of_true (if_neg (by simp [hdash])) hdash

theorem recovered_restored_iff {env : DnsEnv} {link : String} {held before : LinkDns} :
    held.Recovered env link before (held.restored env link before) ↔
      ListTold (env.fails (.query .dns link)) held.servers before.servers ∧
        ListTold (env.fails (.query .domain link)) held.domains before.domains :=
  ⟨fun h => ⟨recordedWords_eq_iff.mp h.servers, recordedWords_eq_iff.mp h.domains⟩,
    fun h => ⟨recordedWords_eq_iff.mpr h.1, recordedWords_eq_iff.mpr h.2, rfl⟩⟩

/-- A restore that succeeds recovers the links of its snapshot exactly if every list that was not
read is empty and none that was read is a lone dash. -/
theorem restore_recovers_iff {taken env : DnsEnv} {underlay : String} {s s' r t : DnsHost}
    {snapshot : Snapshot}
    (htake : Program.run (dnsHost taken) (takeSnapshot underlay) s = (.ok snapshot, s'))
    (hrestore : Program.run (dnsHost env) (restoreSnapshot snapshot) r = (.ok (), t)) :
    (∀ link held before, InSnapshot s.dns underlay link → s.dns.links link = some held →
      r.dns.links link = some before →
        ∃ after, t.dns.links link = some after ∧ held.Recovered taken link before after) ↔
    ∀ link held before, InSnapshot s.dns underlay link → s.dns.links link = some held →
      r.dns.links link = some before →
        ListTold (taken.fails (.query .dns link)) held.servers before.servers ∧
          ListTold (taken.fails (.query .domain link)) held.domains before.domains := by
  obtain ⟨-, hlists, htaken⟩ := (ends_takeSnapshot underlay).ok htake
  have hrestored := (ends_restoreSnapshot htaken).ok hrestore
  refine forall_congr' fun link => forall_congr' fun held => forall_congr' fun before =>
    forall_congr' fun hin => forall_congr' fun hheld => forall_congr' fun hbefore => ?_
  have hafter := hrestored.there link ((hlists link).mpr hin) held before hheld hbefore
  rw [← recovered_restored_iff, hafter]
  exact ⟨fun ⟨_, hsome, h⟩ => Option.some.inj hsome ▸ h, fun h => ⟨_, rfl, h⟩⟩

/-- A host on which one command fails. -/
def failingEnv (failing : DnsCall) : DnsEnv where
  commands _ := true
  symlink := false
  linkNumber _ := 3
  connection _ := some "home"
  fails c := c = failing
  broken := none
  bounced _ held := held
  works := true
  repaired d := d

def noWords : Words := ⟨[], List.forall_mem_nil _⟩

/-- One link, `wlo1`. -/
def oneLinkDns (servers : Words) (profile : NmProfile) : HostDns where
  links name := if name = "wlo1" then some ⟨servers, noWords, false⟩ else none
  profiles _ := profile
  resolvConf := some "nameserver 192.168.1.1\n"
  named name hsome := by
    split_ifs at hsome with hname
    · subst hname
      exact ⟨by decide, by decide⟩
    · cases hsome

def oneServer : Words :=
  ⟨["9.9.9.9"], fun _ hw => List.mem_singleton.mp hw ▸ isWord_of_all (by decide) (by decide)⟩

/-- The entry of a link without servers, whose default route could not be read. -/
def bareEntry : String × LinkSnapshot := ("wlo1", ⟨[], [], none⟩)

theorem restore_recovers_iff_bare :
    ∃ after, (Program.run (dnsHost (failingEnv .repair)) (restoreSnapshot [bareEntry])
        ⟨oneLinkDns oneServer pinnedProfile, 0⟩).2.dns.links "wlo1" = some after ∧
      LinkDns.Recovered (failingEnv (.query .defaultRoute "wlo1")) "wlo1"
        ⟨noWords, noWords, false⟩ ⟨oneServer, noWords, false⟩ after := by
  have htake : Program.run (dnsHost (failingEnv (.query .defaultRoute "wlo1")))
      (takeSnapshot "wlo1") ⟨oneLinkDns noWords pinnedProfile, 0⟩ =
        (.ok [bareEntry], _) := rfl
  have hrestore : Program.run (dnsHost (failingEnv .repair)) (restoreSnapshot [bareEntry])
      ⟨oneLinkDns oneServer pinnedProfile, 0⟩ = (.ok (), _) := rfl
  refine (restore_recovers_iff htake hrestore).mpr ?_ "wlo1" _ _ ⟨by decide, rfl⟩ rfl rfl
  intro link held before hin hheld _
  change (if link = "wlo1" then some _ else none) = some held at hheld
  split_ifs at hheld with hlink
  subst hlink
  cases hheld
  exact ⟨List.cons_ne_nil _ _ ∘ Eq.symm, List.cons_ne_nil _ _ ∘ Eq.symm⟩

/-- Servers that could not be read are lost in the restore. -/
theorem not_restore_recovers :
    ¬ ∀ (taken env : DnsEnv) (underlay : String) (s s' r t : DnsHost) (snapshot : Snapshot),
      Program.run (dnsHost taken) (takeSnapshot underlay) s = (.ok snapshot, s') →
      Program.run (dnsHost env) (restoreSnapshot snapshot) r = (.ok (), t) →
      ∀ link held before, InSnapshot s.dns underlay link → s.dns.links link = some held →
        r.dns.links link = some before →
          ∃ after, t.dns.links link = some after ∧ held.Recovered taken link before after := by
  intro h
  have hone := h (failingEnv (.query .dns "wlo1")) (failingEnv .repair) "wlo1"
    ⟨oneLinkDns oneServer pinnedProfile, 0⟩ _ ⟨oneLinkDns oneServer pinnedProfile, 0⟩ _
    [("wlo1", ⟨[], [], some "no"⟩)] rfl rfl "wlo1" _ _ ⟨by decide, rfl⟩ rfl rfl
  obtain ⟨after, hafter, hrecovered⟩ := hone
  have hservers := hrecovered.servers
  cases hafter
  cases congrArg Subtype.val hservers

end EveNet.HostDnsScripts
