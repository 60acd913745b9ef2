import EveNet.Routing

/-!
# Searching the listing of the ip rules

A round adds the rule of an egress unless a line of `ip rule show` contains the text of the
mark and the text of the table. Read as text, a line also contains every mark and table that
its own begin with, so the rule of one egress can stand for the missing rule of another.
`Shadows` is this relation where tables are printed as numbers; the listing prints three
tables by name, and a rule for one of these stands for nothing.
-/

namespace EveNet

/-! ### What the text search finds -/

/-- The printed mark and table of the other rule begin those of the first. -/
def Shadows (rule other : IpRule) : Prop :=
  ∃ mark ∈ rule.fwmark, ∃ mark' ∈ other.fwmark,
    Nat.toDigits 16 mark'.toNat <+: Nat.toDigits 16 mark.toNat ∧
      Nat.toDigits 10 other.table.toNat <+: Nat.toDigits 10 rule.table.toNat

instance : DecidableRel Shadows := fun rule other =>
  inferInstanceAs (Decidable (∃ mark ∈ rule.fwmark, ∃ mark' ∈ other.fwmark,
    Nat.toDigits 16 mark'.toNat <+: Nat.toDigits 16 mark.toNat ∧
      Nat.toDigits 10 other.table.toNat <+: Nat.toDigits 10 rule.table.toNat))

instance : IsTrans IpRule Shadows where
  trans a b c := by
    rintro ⟨m, hm, m', hm', hmark, htable⟩ ⟨n, hn, n', hn', hmark', htable'⟩
    have hmn : m' = n := Option.some.inj (hm'.symm.trans hn)
    subst hmn
    exact ⟨m, hm, n', hn', hmark'.trans hmark, htable'.trans htable⟩

/-- The rule's mark and table, printed, begin themselves. -/
theorem shadows_self (egress : EgressInterface) :
    Shadows (fwmarkRule egress) (fwmarkRule egress) :=
  ⟨egress.fwmark, rfl, egress.fwmark, rfl, List.prefix_rfl, List.prefix_rfl⟩

/-- The decimal form in which the listing prints a table. -/
abbrev decimal : UInt32 → String := fun table => toString table

/-- The tables that the listing prints by name. -/
def Reserved (table : UInt32) : Prop := table = 253 ∨ table = 254 ∨ table = 255

instance : DecidablePred Reserved := fun table =>
  inferInstanceAs (Decidable (table = 253 ∨ table = 254 ∨ table = 255))

def printedName (table : UInt32) : String :=
  if table = 253 then "default"
  else if table = 254 then "main"
  else if table = 255 then "local"
  else toString table

theorem printedName_of_not_reserved {table : UInt32} (h : ¬ Reserved table) :
    printedName table = toString table := by
  simp only [Reserved, not_or] at h
  rw [printedName, if_neg h.1, if_neg h.2.1, if_neg h.2.2]

/-- The rule's line is found for the other rule. -/
def Covers (rule other : IpRule) : Prop := ¬ Reserved rule.table ∧ Shadows rule other

instance : DecidableRel Covers := fun rule other =>
  inferInstanceAs (Decidable (¬ Reserved rule.table ∧ Shadows rule other))

instance : IsTrans IpRule Covers where
  trans _ _ _ := fun ⟨hreserved, hab⟩ ⟨_, hbc⟩ => ⟨hreserved, IsTrans.trans _ _ _ hab hbc⟩

theorem toList_toString (n : UInt32) : (toString n).toList = Nat.toDigits 10 n.toNat :=
  Nat.toList_repr

theorem notMem_decimal {c : Char} (hc : c ∉ hexDigits) (n : UInt32) : c ∉ (toString n).toList := by
  rw [toList_toString]
  exact notMem_toDigits (by decide) (by decide) hc

theorem notMem_hex {c : Char} (hc : c ∉ hexDigits) (n : UInt32) :
    c ∉ Nat.toDigits 16 n.toNat :=
  notMem_toDigits (by decide) (by decide) hc

/-- A name that is printed on one line and holds neither the `w` of `fwmark` nor the `p` of
`lookup`. -/
structure QuietName (name : String) : Prop where
  noW : 'w' ∉ name.toList
  noP : 'p' ∉ name.toList
  plain : PlainLine name.toList

theorem quietName_decimal (table : UInt32) : QuietName (decimal table) where
  noW := notMem_decimal (by decide) table
  noP := notMem_decimal (by decide) table
  plain := by
    refine ⟨notMem_decimal (by decide) table, fun hlast => ?_⟩
    exact notMem_decimal (by decide) table (List.mem_of_getLast? hlast)

theorem quietName_printedName (table : UInt32) : QuietName (printedName table) := by
  unfold printedName
  split_ifs
  · exact ⟨by decide, by decide, by decide, by decide⟩
  · exact ⟨by decide, by decide, by decide, by decide⟩
  · exact ⟨by decide, by decide, by decide, by decide⟩
  · exact quietName_decimal table

/-- What stands between the priority and the table of a line. -/
def selectorText (rule : IpRule) : List Char :=
  match rule.fwmark with
  | none => []
  | some mark => "fwmark 0x".toList ++ Nat.toDigits 16 mark.toNat ++ [' ']

section Line

variable {tableName : UInt32 → String} (rule : IpRule)

theorem ipRuleLine_eq (tableName : UInt32 → String) : ipRuleLine tableName rule =
    (toString rule.priority).toList ++ ":\tfrom all ".toList ++ selectorText rule ++
      "lookup ".toList ++ (tableName rule.table).toList := rfl

theorem notMem_selectorText {c : Char} (hc : c ∉ hexDigits) (hword : c ∉ "fwmark 0x ".toList) :
    c ∉ selectorText rule := by
  have hsplit : "fwmark 0x ".toList = "fwmark 0x".toList ++ [' '] := rfl
  rw [hsplit, List.mem_append, not_or] at hword
  unfold selectorText
  cases rule.fwmark with
  | none => exact List.not_mem_nil
  | some mark =>
      simp only [List.mem_append, not_or]
      exact ⟨⟨hword.1, notMem_hex hc mark⟩, hword.2⟩

theorem notMem_lineStart {c : Char} (hc : c ∉ hexDigits) (hword : c ∉ ":\tfrom all ".toList) :
    c ∉ (toString rule.priority).toList ++ ":\tfrom all ".toList := by
  rw [List.mem_append, not_or]
  exact ⟨notMem_decimal hc _, hword⟩

/-- A line of the listing is one line, and does not end in a return. -/
theorem plainLine_ipRuleLine (hname : QuietName (tableName rule.table)) :
    PlainLine (ipRuleLine tableName rule) := by
  rw [ipRuleLine_eq]
  constructor
  · rw [List.mem_append, List.mem_append, List.mem_append]
    have hstart := notMem_lineStart (c := '\n') rule (by decide) (by decide)
    have hselector := notMem_selectorText (c := '\n') rule (by decide) (by decide)
    have hlookup : '\n' ∉ "lookup ".toList := by decide
    have htable := hname.plain.1
    tauto
  · cases hempty : (tableName rule.table).toList with
    | nil =>
        rw [List.append_nil, List.getLast?_append_of_ne_nil _ (by decide)]
        decide
    | cons c name =>
        rw [List.getLast?_append_of_ne_nil _ (List.cons_ne_nil c name), ← hempty]
        exact hname.plain.2

/-- The `w` of `fwmark` stands in a line at most once, so the pattern can only begin there. -/
theorem mark_infix_iff (egress : EgressInterface) (hname : QuietName (tableName rule.table)) :
    markPattern egress <:+: ipRuleLine tableName rule ↔ ∃ mark ∈ rule.fwmark,
      Nat.toDigits 16 egress.fwmark.toNat <+: Nat.toDigits 16 mark.toNat := by
  have hpattern : markPattern egress =
      ['f'] ++ 'w' :: ("mark 0x".toList ++ Nat.toDigits 16 egress.fwmark.toNat) := rfl
  have hstart := notMem_lineStart (c := 'w') rule (by decide) (by decide)
  have htable : 'w' ∉ "lookup ".toList ++ (tableName rule.table).toList := by
    rw [List.mem_append, not_or]
    exact ⟨by decide, hname.noW⟩
  rw [hpattern, ipRuleLine_eq, List.append_assoc, selectorText]
  cases rule.fwmark with
  | none =>
      simp only [List.append_nil, Option.not_mem_none, false_and, exists_false, iff_false]
      refine not_infix_of_notMem ?_
      rw [List.mem_append, not_or]
      exact ⟨hstart, htable⟩
  | some mark =>
      have hline : (toString rule.priority).toList ++ ":\tfrom all ".toList ++
            ("fwmark 0x".toList ++ Nat.toDigits 16 mark.toNat ++ [' ']) ++
            ("lookup ".toList ++ (tableName rule.table).toList) =
          ((toString rule.priority).toList ++ ":\tfrom all ".toList ++ ['f']) ++
            'w' :: ("mark 0x".toList ++ (Nat.toDigits 16 mark.toNat ++
              ' ' :: ("lookup ".toList ++ (tableName rule.table).toList))) := by
        have hword : "fwmark 0x".toList = ['f'] ++ 'w' :: "mark 0x".toList := rfl
        simp [hword]
      have hright : 'w' ∉ "mark 0x".toList ++ (Nat.toDigits 16 mark.toNat ++
          ' ' :: ("lookup ".toList ++ (tableName rule.table).toList)) := by
        rw [List.mem_append, List.mem_append, List.mem_cons]
        have hhex := notMem_hex (c := 'w') (by decide) mark
        have hmark : 'w' ∉ "mark 0x".toList := by decide
        have hblank : 'w' ≠ ' ' := by decide
        tauto
      have hleft : 'w' ∉ (toString rule.priority).toList ++ ":\tfrom all ".toList ++ ['f'] := by
        rw [List.mem_append, not_or]
        exact ⟨hstart, by decide⟩
      rw [hline, infix_iff_of_anchor hleft hright, and_iff_right (List.suffix_append _ _),
        List.prefix_append_right_inj, prefix_append_cons_iff (notMem_hex (by decide) _)]
      simp

/-- The `p` of `lookup` stands in a line exactly once. -/
theorem lookup_infix_iff (egress : EgressInterface) (hname : QuietName (tableName rule.table)) :
    lookupPattern egress <:+: ipRuleLine tableName rule ↔
      Nat.toDigits 10 egress.table.toNat <+: (tableName rule.table).toList := by
  have hpattern : lookupPattern egress =
      "looku".toList ++ 'p' :: ([' '] ++ Nat.toDigits 10 egress.table.toNat) := by
    rw [← toList_toString]
    rfl
  have hline : ipRuleLine tableName rule = ((toString rule.priority).toList ++
      ":\tfrom all ".toList ++ selectorText rule ++ "looku".toList) ++
        'p' :: ([' '] ++ (tableName rule.table).toList) := by
    have hword : "lookup ".toList = "looku".toList ++ 'p' :: [' '] := rfl
    rw [ipRuleLine_eq, hword]
    simp
  have hleft : 'p' ∉ (toString rule.priority).toList ++ ":\tfrom all ".toList ++
      selectorText rule ++ "looku".toList := by
    rw [List.mem_append, List.mem_append]
    have hstart := notMem_lineStart (c := 'p') rule (by decide) (by decide)
    have hselector := notMem_selectorText (c := 'p') rule (by decide) (by decide)
    have hlooku : 'p' ∉ "looku".toList := by decide
    tauto
  have hright : 'p' ∉ [' '] ++ (tableName rule.table).toList := by
    rw [List.mem_append, not_or]
    exact ⟨by decide, hname.noP⟩
  rw [hpattern, hline, infix_iff_of_anchor hleft hright, and_iff_right (List.suffix_append _ _),
    List.prefix_append_right_inj]

end Line

/-- On any listing of rules the search finds the egress exactly when a rule is in relation `R`
to the rule of the egress. -/
def Finds (tableName : UInt32 → String) (R : IpRule → IpRule → Prop) : Prop :=
  ∀ egress rules, fwmarkRuleListed (String.ofList (ipRuleShow tableName rules)) egress = true ↔
    ∃ rule ∈ rules, R rule (fwmarkRule egress)

theorem finds_of_names {tableName : UInt32 → String} {R : IpRule → IpRule → Prop}
    (hnames : ∀ table, QuietName (tableName table))
    (hR : ∀ rule egress, R rule (fwmarkRule egress) ↔
      (∃ mark ∈ rule.fwmark, Nat.toDigits 16 egress.fwmark.toNat <+: Nat.toDigits 16 mark.toNat) ∧
        Nat.toDigits 10 egress.table.toNat <+: (tableName rule.table).toList) :
    Finds tableName R := by
  intro egress rules
  have hlines : lines (ipRuleShow tableName rules) = rules.map (ipRuleLine tableName) := by
    have hplain : ∀ line ∈ rules.map (ipRuleLine tableName), PlainLine line := by
      simpa using fun rule _ => plainLine_ipRuleLine rule (hnames rule.table)
    simpa [ipRuleShow, List.flatMap_map] using lines_flatMap_feed hplain
  rw [fwmarkRuleListed, String.toList_ofList, hlines, List.any_map, List.any_eq_true]
  simp only [Function.comp_apply, decide_eq_true_eq, mark_infix_iff _ _ (hnames _),
    lookup_infix_iff _ _ (hnames _), hR]

theorem shadows_iff (rule : IpRule) (egress : EgressInterface) :
    Shadows rule (fwmarkRule egress) ↔
      (∃ mark ∈ rule.fwmark, Nat.toDigits 16 egress.fwmark.toNat <+: Nat.toDigits 16 mark.toNat) ∧
        Nat.toDigits 10 egress.table.toNat <+: Nat.toDigits 10 rule.table.toNat := by
  constructor
  · rintro ⟨mark, hmark, mark', hmark', hprefix, htable⟩
    have hself : egress.fwmark = mark' := Option.some.inj hmark'
    subst hself
    exact ⟨⟨mark, hmark, hprefix⟩, htable⟩
  · rintro ⟨⟨mark, hmark, hprefix⟩, htable⟩
    exact ⟨mark, hmark, egress.fwmark, rfl, hprefix, htable⟩

/-- Where all tables are printed as numbers the search finds what shadows the rule. -/
theorem finds_shadows : Finds decimal Shadows := by
  apply finds_of_names quietName_decimal
  intro rule egress
  rw [shadows_iff, toList_toString]

/-- No number begins like a name. -/
theorem not_prefix_printedName {rule : IpRule} (h : Reserved rule.table) (n : ℕ) :
    ¬ Nat.toDigits 10 n <+: (printedName rule.table).toList := by
  intro hprefix
  obtain ⟨c, digits, hdigits⟩ := List.exists_cons_of_ne_nil (Nat.toDigits_ne_nil (b := 10) (n := n))
  have hdigit : c.isDigit = true := Nat.isDigit_of_mem_toDigits (by decide) (by decide)
    (hdigits ▸ List.mem_cons_self)
  obtain ⟨rest, hrest⟩ := hprefix
  have hhead : (printedName rule.table).toList.head? = some c := by
    rw [← hrest, hdigits]
    rfl
  rcases h with h | h | h
  · rw [h, show (printedName 253).toList.head? = some 'd' from rfl] at hhead
    rw [← Option.some.inj hhead] at hdigit
    exact absurd hdigit (by decide)
  · rw [h, show (printedName 254).toList.head? = some 'm' from rfl] at hhead
    rw [← Option.some.inj hhead] at hdigit
    exact absurd hdigit (by decide)
  · rw [h, show (printedName 255).toList.head? = some 'l' from rfl] at hhead
    rw [← Option.some.inj hhead] at hdigit
    exact absurd hdigit (by decide)

/-- With the reserved tables printed by name, their rules are never found. -/
theorem finds_covers : Finds printedName Covers := by
  apply finds_of_names quietName_printedName
  intro rule egress
  rw [Covers, shadows_iff]
  by_cases hreserved : Reserved rule.table
  · have hnone := not_prefix_printedName hreserved egress.table.toNat
    tauto
  · rw [printedName_of_not_reserved hreserved, toList_toString, and_iff_right hreserved]

end EveNet
