import EveNet.RuleListing

/-!
# The rules that the status reports

For each resolved address the status searches the listing of the policy chain for a line with
the address, the words that set a mark, and the mark in one of three spellings. The texts are
looked for one by one: an address is also found at the beginning of a longer one, and the
digits of a mark in any number of the line.
-/

namespace EveNet

/-! ### The search -/

/-- A number in eight hexadecimal digits. -/
def hexPadded (n : UInt32) : List Char :=
  List.replicate (8 - (Nat.toDigits 16 n.toNat).length) '0' ++ Nat.toDigits 16 n.toNat

def lineShowsRule (ip : String) (fwmark : UInt32) (line : List Char) : Bool :=
  "ip daddr ".toList ++ ip.toList <:+: line ∧ "meta mark set".toList <:+: line ∧
    ("0x".toList ++ hexPadded fwmark <:+: line ∨
      "0x".toList ++ Nat.toDigits 16 fwmark.toNat <:+: line ∨ (toString fwmark).toList <:+: line)

def nftRuleState (chainOutput ip : String) (fwmark : UInt32) : String :=
  if trimmedEmpty chainOutput then "UNKNOWN"
  else if (lines chainOutput.toList).any (lineShowsRule ip fwmark) then "OK" else "MISSING"

/-! ### The listing -/

structure Ipv4 where
  a : UInt8
  b : UInt8
  c : UInt8
  d : UInt8
  deriving DecidableEq

def Ipv4.text (ip : Ipv4) : String := dottedQuad ip.a ip.b ip.c ip.d

/-- An address with the length of its prefix, 32 for the address itself. -/
structure Destination where
  address : Ipv4
  length : Fin 33
  deriving DecidableEq

/-- A prefix is printed with its length. -/
def Destination.text (dest : Destination) : List Char :=
  dest.address.text.toList ++
    if dest.length = 32 then [] else '/' :: Nat.toDigits 10 dest.length.val

structure ListedRule where
  dest : Destination
  skuid : Option UInt32
  packets : UInt64
  bytes : UInt64
  mark : UInt32

namespace ListedRule

variable (rule : ListedRule)

def skuidWords : List (List Char) :=
  match rule.skuid with
  | none => []
  | some uid => ["meta".toList, "skuid".toList, Nat.toDigits 10 uid.toNat]

/-- The words of the rule's line after the first one. -/
def laterWords : List (List Char) :=
  ["daddr".toList, rule.dest.text] ++ rule.skuidWords ++
    ["counter".toList, "packets".toList, Nat.toDigits 10 rule.packets.toNat, "bytes".toList,
      Nat.toDigits 10 rule.bytes.toNat, "meta".toList, "mark".toList, "set".toList,
      "0x".toList ++ hexPadded rule.mark]

def words : List (List Char) := "ip".toList :: rule.laterWords

def line : List Char := [' '].intercalate rule.words

/-- The rule marks what goes to the address. -/
def Routes (ip : Ipv4) (fwmark : UInt32) : Prop := rule.dest = ⟨ip, 32⟩ ∧ rule.mark = fwmark

instance (ip : Ipv4) (fwmark : UInt32) : Decidable (rule.Routes ip fwmark) :=
  inferInstanceAs (Decidable (_ ∧ _))

/-- What is printed in decimal: the destination, the uid and the counters. -/
def decimals : List (List Char) :=
  [rule.dest.text, Nat.toDigits 10 rule.packets.toNat, Nat.toDigits 10 rule.bytes.toNat] ++
    (rule.skuid.map (fun uid => Nat.toDigits 10 uid.toNat)).toList

/-- The printed numbers of a rule. -/
def numbers : List (List Char) := ("0x".toList ++ hexPadded rule.mark) :: rule.decimals

/-- The rule sets the mark, or its numbers hold the digits of the mark. -/
def ShowsMark (fwmark : UInt32) : Prop :=
  rule.mark = fwmark ∨ Nat.toDigits 16 fwmark.toNat <+: hexPadded rule.mark ∨
    ∃ number ∈ rule.numbers, Nat.toDigits 10 fwmark.toNat <:+: number

/-- The rule's destination begins like the address, and the rule shows the mark. -/
def Resembles (ip : Ipv4) (fwmark : UInt32) : Prop :=
  ip.text.toList <+: rule.dest.text ∧ rule.ShowsMark fwmark

end ListedRule

def ruleListing (rules : List ListedRule) : String :=
  String.ofList (rules.flatMap (fun rule => rule.line ++ ['\n']))

/-! ### Numbers -/

theorem length_toDigits_le (n : UInt32) : (Nat.toDigits 16 n.toNat).length ≤ 8 := by
  rw [Nat.length_toDigits_le_iff (by decide) (by decide)]
  exact n.toNat_lt

theorem length_hexPadded (n : UInt32) : (hexPadded n).length = 8 := by
  have hlen := length_toDigits_le n
  rw [hexPadded, List.length_append, List.length_replicate]
  omega

theorem hexPadded_ne_of_length_lt {m n : UInt32}
    (h : (Nat.toDigits 16 m.toNat).length < (Nat.toDigits 16 n.toNat).length) :
    hexPadded m ≠ hexPadded n := by
  intro heq
  have hm := length_toDigits_le m
  have hn := length_toDigits_le n
  have hpos : 0 < n.toNat := by
    by_contra hzero
    have hlen : 0 < (Nat.toDigits 16 m.toNat).length := Nat.length_toDigits_pos
    rw [Nat.eq_zero_of_not_pos hzero] at h
    change _ < 1 at h
    omega
  have hdrop := congrArg (fun l => (l.drop (8 - (Nat.toDigits 16 n.toNat).length)).head?) heq
  simp only [hexPadded] at hdrop
  rw [List.drop_append_of_le_length (by rw [List.length_replicate]; omega), List.drop_replicate,
    List.drop_left' (List.length_replicate), List.head?_append_of_ne_nil _ (by
      rw [ne_eq, List.replicate_eq_nil_iff]
      omega), List.head?_replicate, if_neg (by omega)] at hdrop
  exact head?_toDigits_ne_zero hpos hdrop.symm

theorem hexPadded_injective : Function.Injective hexPadded := by
  intro m n heq
  rcases Nat.lt_trichotomy (Nat.toDigits 16 m.toNat).length (Nat.toDigits 16 n.toNat).length with
    hlt | hlen | hlt
  · exact absurd heq (hexPadded_ne_of_length_lt hlt)
  · obtain ⟨-, hdigits⟩ := List.append_inj' heq hlen
    exact UInt32.toNat_inj.mp (toDigits_injective (by decide) (by decide) hdigits)
  · exact absurd heq.symm (hexPadded_ne_of_length_lt hlt)

theorem prefix_hexPadded_iff {m n : UInt32} : hexPadded m <+: hexPadded n ↔ n = m := by
  constructor
  · intro h
    refine (hexPadded_injective (h.eq_of_length ?_)).symm
    rw [length_hexPadded, length_hexPadded]
  · rintro rfl
    exact List.prefix_rfl

/-! ### The words of a line -/

/-- The later words of a line that are not numbers. -/
def plainWords : List (List Char) :=
  ["daddr".toList, "meta".toList, "skuid".toList, "counter".toList, "packets".toList,
    "bytes".toList, "mark".toList, "set".toList]

theorem toList_dottedQuad (a b c d : UInt8) : (dottedQuad a b c d).toList =
    Nat.toDigits 10 a.toNat ++ '.' :: Nat.toDigits 10 b.toNat ++ '.' :: Nat.toDigits 10 c.toNat ++
      '.' :: Nat.toDigits 10 d.toNat := by
  have hdigits : ∀ n : UInt8, (toString n).toList = Nat.toDigits 10 n.toNat :=
    fun n => Nat.toList_repr
  have hdot : ".".toList = ['.'] := rfl
  simp [dottedQuad, hdigits, hdot]

section Line

variable (rule : ListedRule)

/-- What is printed in decimal holds digits, dots and a slash. -/
theorem notMem_decimals {c : Char} (hdigit : c ∉ hexDigits) (hsep : c ∉ "./".toList)
    {number : List Char} (h : number ∈ rule.decimals) : c ∉ number := by
  have hdecimal : ∀ n : ℕ, c ∉ Nat.toDigits 10 n :=
    fun n => notMem_toDigits (by decide) (by decide) hdigit
  change c ∉ ['.', '/'] at hsep
  simp only [List.mem_cons, List.not_mem_nil, or_false, not_or] at hsep
  obtain ⟨hdot, hslash⟩ := hsep
  have haddress : c ∉ rule.dest.address.text.toList := by
    rw [Ipv4.text, toList_dottedQuad]
    simp [hdecimal, hdot]
  simp only [ListedRule.decimals, List.mem_append, List.mem_cons, List.not_mem_nil, or_false,
    Option.mem_toList, Option.map_eq_some_iff] at h
  have hdest : c ∉ rule.dest.text := by
    rw [Destination.text, List.mem_append, not_or]
    refine ⟨haddress, ?_⟩
    split_ifs
    · exact List.not_mem_nil
    · exact List.not_mem_cons_of_ne_of_not_mem hslash (hdecimal _)
  rcases h with (h | h | h) | ⟨uid, -, h⟩
  · exact h ▸ hdest
  · exact h ▸ hdecimal _
  · exact h ▸ hdecimal _
  · exact h ▸ hdecimal _

theorem notMem_hexPadded {c : Char} (hdigit : c ∉ hexDigits) (n : UInt32) : c ∉ hexPadded n := by
  rw [hexPadded, List.mem_append, List.mem_replicate, not_or]
  refine ⟨?_, notMem_toDigits (by decide) (by decide) hdigit⟩
  rintro ⟨-, rfl⟩
  exact hdigit (by decide)

theorem notMem_number {c : Char} (hdigit : c ∉ hexDigits) (hsep : c ∉ "./".toList) (hx : c ≠ 'x')
    {number : List Char} (h : number ∈ rule.numbers) : c ∉ number := by
  rcases List.mem_cons.mp h with rfl | h
  · have hzero : c ≠ '0' := by
      rintro rfl
      exact hdigit (by decide)
    exact List.not_mem_cons_of_ne_of_not_mem hzero
      (List.not_mem_cons_of_ne_of_not_mem hx (notMem_hexPadded hdigit _))
  · exact notMem_decimals rule hdigit hsep h

theorem mem_skuidWords {word : List Char} (h : word ∈ rule.skuidWords) :
    word ∈ rule.numbers ∨ word ∈ plainWords := by
  unfold ListedRule.skuidWords at h
  cases hskuid : rule.skuid with
  | none =>
      rw [hskuid] at h
      cases h
  | some uid =>
      rw [hskuid] at h
      simp only [List.mem_cons, List.not_mem_nil, or_false] at h
      rcases h with rfl | rfl | rfl
      · exact Or.inr (by decide)
      · exact Or.inr (by decide)
      · refine Or.inl (List.mem_cons_of_mem _ (List.mem_append_right _ ?_))
        rw [hskuid]
        exact List.mem_singleton_self _

theorem mem_laterWords {word : List Char} (h : word ∈ rule.laterWords) :
    word ∈ rule.numbers ∨ word ∈ plainWords := by
  have hdecimal : ∀ number ∈ [rule.dest.text, Nat.toDigits 10 rule.packets.toNat,
      Nat.toDigits 10 rule.bytes.toNat], number ∈ rule.numbers ∨ number ∈ plainWords :=
    fun number hmem => Or.inl (List.mem_cons_of_mem _ (List.mem_append_left _ hmem))
  have hplain : ∀ word ∈ plainWords, word ∈ rule.numbers ∨ word ∈ plainWords :=
    fun word => Or.inr
  have hmark : "0x".toList ++ hexPadded rule.mark ∈ rule.numbers ∨
      "0x".toList ++ hexPadded rule.mark ∈ plainWords := Or.inl List.mem_cons_self
  simp only [plainWords, List.forall_mem_cons] at hplain
  simp only [List.forall_mem_cons] at hdecimal
  obtain ⟨hdaddr, hmeta, -, hcounter, hpackets, hbytes, hmarkWord, hset, -⟩ := hplain
  obtain ⟨hdest, hpacketCount, hbyteCount, -⟩ := hdecimal
  have hfirst : ∀ word ∈ ["daddr".toList, rule.dest.text],
      word ∈ rule.numbers ∨ word ∈ plainWords :=
    List.forall_mem_cons.mpr ⟨hdaddr, List.forall_mem_singleton.mpr hdest⟩
  have hlast : ∀ word ∈ ["counter".toList, "packets".toList, Nat.toDigits 10 rule.packets.toNat,
      "bytes".toList, Nat.toDigits 10 rule.bytes.toNat, "meta".toList, "mark".toList, "set".toList,
      "0x".toList ++ hexPadded rule.mark], word ∈ rule.numbers ∨ word ∈ plainWords := by
    simp only [List.forall_mem_cons]
    exact ⟨hcounter, hpackets, hpacketCount, hbytes, hbyteCount, hmeta, hmarkWord, hset, hmark,
      fun _ h => absurd h List.not_mem_nil⟩
  rcases List.mem_append.mp h with h | h
  · rcases List.mem_append.mp h with h | h
    · exact hfirst word h
    · exact mem_skuidWords rule h
  · exact hlast word h

theorem number_mem_words {number : List Char} (h : number ∈ rule.numbers) :
    number ∈ rule.words := by
  have hdest : rule.dest.text ∈ rule.laterWords :=
    List.mem_append_left _ (List.mem_append_left _ (by simp))
  have hskuid : ∀ uid, rule.skuid = some uid →
      Nat.toDigits 10 uid.toNat ∈ rule.laterWords := by
    intro uid huid
    refine List.mem_append_left _ (List.mem_append_right _ ?_)
    rw [ListedRule.skuidWords, huid]
    simp
  refine List.mem_cons_of_mem _ ?_
  simp only [ListedRule.numbers, ListedRule.decimals, List.mem_cons, List.mem_append,
    List.not_mem_nil, or_false, Option.mem_toList, Option.map_eq_some_iff] at h
  rcases h with h | (h | h | h) | ⟨uid, huid, h⟩
  · exact List.mem_append_right _ (by simp [h])
  · exact h ▸ hdest
  · exact List.mem_append_right _ (by simp [h])
  · exact List.mem_append_right _ (by simp [h])
  · exact h ▸ hskuid uid huid

/-- The characters that a line does not hold. -/
theorem notMem_line {c : Char} (hdigit : c ∉ hexDigits) (hsep : c ∉ " ./x".toList)
    (hplain : ∀ word ∈ "ip".toList :: plainWords, c ∉ word) : c ∉ rule.line := by
  have hspace : c ≠ ' ' := by
    rintro rfl
    exact hsep (by decide)
  have hx : c ≠ 'x' := by
    rintro rfl
    exact hsep (by decide)
  have hrest : c ∉ "./".toList :=
    fun h => hsep (List.mem_cons_of_mem _ (List.mem_append_left ['x'] h))
  have hword : ¬ ∃ word ∈ rule.words, [c] <:+: word := by
    rintro ⟨word, hword, hfound⟩
    have hmem : c ∈ word := hfound.subset List.mem_cons_self
    rcases List.mem_cons.mp hword with rfl | hlater
    · exact hplain _ List.mem_cons_self hmem
    · rcases mem_laterWords rule hlater with hnumber | hplainWord
      · exact notMem_number rule hdigit hrest hx hnumber hmem
      · exact hplain word (List.mem_cons_of_mem _ hplainWord) hmem
  intro hmem
  obtain ⟨front, back, hline⟩ := List.append_of_mem hmem
  refine hword ((infix_intercalate_iff (c := ' ') (p := [c]) ?_ (List.cons_ne_nil _ _)).mp ?_)
  · rw [List.mem_singleton]
    exact hspace.symm
  · exact ⟨front, back, by rw [List.append_assoc]; exact hline.symm⟩

theorem plainLine_line : PlainLine rule.line := by
  refine ⟨notMem_line rule (by decide) (by decide) (by decide), fun hlast => ?_⟩
  exact notMem_line rule (by decide) (by decide) (by decide) (List.mem_of_getLast? hlast)

/-! ### What the search finds -/

/-- Only the first word of a line holds the letters of `ip`. -/
theorem not_ip_infix {word : List Char} (h : word ∈ rule.laterWords) : ¬ "ip".toList <:+: word := by
  rcases mem_laterWords rule h with hnumber | hplain
  · exact fun hfound => notMem_number rule (c := 'i') (by decide) (by decide) (by decide) hnumber
      (hfound.subset (by decide))
  · have hall : ∀ word ∈ plainWords, ¬ "ip".toList <:+: word := by decide
    exact hall word hplain

theorem address_infix_iff {ip : String} (hip : ' ' ∉ ip.toList) :
    "ip daddr ".toList ++ ip.toList <:+: rule.line ↔ ip.toList <+: rule.dest.text := by
  obtain ⟨next, rest, hlater⟩ : ∃ next rest, rule.laterWords =
      "daddr".toList :: rule.dest.text :: next :: rest := by
    unfold ListedRule.laterWords ListedRule.skuidWords
    cases rule.skuid with
    | none => exact ⟨_, _, rfl⟩
    | some uid => exact ⟨_, _, rfl⟩
  have htail : ¬ "ip".toList <:+: [' '].intercalate ("p".toList :: rule.laterWords) := by
    rw [infix_intercalate_iff (by decide) (by decide)]
    rintro ⟨word, hword, hfound⟩
    rcases List.mem_cons.mp hword with rfl | hword
    · exact absurd hfound (by decide)
    · exact not_ip_infix rule hword hfound
  have hline : rule.line =
      "ip daddr ".toList ++ (rule.dest.text ++ ' ' :: [' '].intercalate (next :: rest)) := by
    rw [ListedRule.line, ListedRule.words, hlater, List.intercalate_cons_cons,
      List.intercalate_cons_cons, List.intercalate_cons_cons]
    simp
  have hcons : rule.line = 'i' :: [' '].intercalate ("p".toList :: rule.laterWords) := by
    rw [ListedRule.line, ListedRule.words, hlater, List.intercalate_cons_cons,
      List.intercalate_cons_cons]
    rfl
  constructor
  · intro h
    rw [hcons, List.infix_cons_iff, ← hcons, hline] at h
    rcases h with hbegins | hlater
    · rwa [List.prefix_append_right_inj, prefix_append_cons_iff hip] at hbegins
    · refine absurd (List.IsInfix.trans ?_ hlater) htail
      exact ⟨[], " daddr ".toList ++ ip.toList, rfl⟩
  · intro h
    rw [hline]
    exact ((List.prefix_append_right_inj _).mpr ((prefix_append_cons_iff hip).mpr h)).isInfix

theorem number_infix_iff {p : List Char} (hspace : ' ' ∉ p) {c : Char} (hc : c ∈ p)
    (hplain : ∀ word ∈ "ip".toList :: plainWords, c ∉ word) :
    p <:+: rule.line ↔ ∃ number ∈ rule.numbers, p <:+: number := by
  rw [ListedRule.line, infix_intercalate_iff hspace (List.ne_nil_of_mem hc)]
  constructor
  · rintro ⟨word, hword, hfound⟩
    rcases List.mem_cons.mp hword with rfl | hlater
    · exact absurd (hfound.subset hc) (hplain _ List.mem_cons_self)
    · rcases mem_laterWords rule hlater with hnumber | hplainWord
      · exact ⟨word, hnumber, hfound⟩
      · exact absurd (hfound.subset hc) (hplain word (List.mem_cons_of_mem _ hplainWord))
  · rintro ⟨number, hnumber, hfound⟩
    exact ⟨number, number_mem_words rule hnumber, hfound⟩

/-- The `x` stands in a line once, before the digits of the mark. -/
theorem hex_infix_iff {digits : List Char} (hspace : ' ' ∉ digits) :
    "0x".toList ++ digits <:+: rule.line ↔ digits <+: hexPadded rule.mark := by
  have hanchor : "0x".toList ++ digits <:+: "0x".toList ++ hexPadded rule.mark ↔
      digits <+: hexPadded rule.mark := by
    have hzero : ∀ l : List Char, "0x".toList ++ l = ['0'] ++ 'x' :: l := fun l => rfl
    rw [hzero, hzero, infix_iff_of_anchor (by decide) (notMem_hexPadded (by decide) _)]
    exact and_iff_right List.suffix_rfl
  have hpattern : 'x' ∈ "0x".toList ++ digits := List.mem_append_left _ (by decide)
  have hplain : ' ' ∉ "0x".toList ++ digits := by
    rw [List.mem_append, not_or]
    exact ⟨by decide, hspace⟩
  rw [number_infix_iff rule hplain hpattern (by decide), ← hanchor]
  constructor
  · rintro ⟨number, hnumber, hfound⟩
    rcases List.mem_cons.mp hnumber with rfl | hdecimal
    · exact hfound
    · exact absurd (hfound.subset hpattern)
        (notMem_decimals rule (by decide) (by decide) hdecimal)
  · exact fun h => ⟨_, List.mem_cons_self, h⟩

theorem setsMark_line : "meta mark set".toList <:+: rule.line := by
  have hjoin : ∀ (front : List (List Char)) (back : List (List Char)), back ≠ [] →
      [' '].intercalate back <:+: [' '].intercalate (front ++ back) := by
    intro front back hback
    induction front with
    | nil => exact List.infix_rfl
    | cons word front ih =>
        rw [List.cons_append, List.intercalate_cons_of_ne_nil (by simp [hback])]
        exact List.infix_append_of_infix_right ih
  have hwords : rule.words = (["ip".toList, "daddr".toList, rule.dest.text] ++ rule.skuidWords ++
      ["counter".toList, "packets".toList, Nat.toDigits 10 rule.packets.toNat, "bytes".toList,
        Nat.toDigits 10 rule.bytes.toNat]) ++ ["meta".toList, "mark".toList, "set".toList,
          "0x".toList ++ hexPadded rule.mark] := by
    simp [ListedRule.words, ListedRule.laterWords]
  rw [ListedRule.line, hwords]
  refine List.IsInfix.trans ?_ (hjoin _ _ (by simp))
  exact ⟨[], " 0x".toList ++ hexPadded rule.mark, by simp⟩

/-- A line is taken for the rule looked for exactly when its rule resembles it. -/
theorem lineShowsRule_iff {ip : Ipv4} {fwmark : UInt32} :
    lineShowsRule ip.text fwmark rule.line = true ↔ rule.Resembles ip fwmark := by
  have hdigits : ∀ {b n : ℕ}, 1 < b → b ≤ 16 → ' ' ∉ Nat.toDigits b n :=
    fun hb hb' => notMem_toDigits hb hb' (by decide)
  have hip : ' ' ∉ ip.text.toList := by
    rw [Ipv4.text, toList_dottedQuad]
    simp [hdigits]
  obtain ⟨digit, digits, hcons⟩ :=
    List.exists_cons_of_ne_nil (Nat.toDigits_ne_nil (b := 10) (n := fwmark.toNat))
  have hdigit : digit ∈ Nat.toDigits 10 fwmark.toNat := hcons ▸ List.mem_cons_self
  have hplain : ∀ word ∈ "ip".toList :: plainWords, digit ∉ word := by
    have hisDigit : digit.isDigit = true :=
      Nat.isDigit_of_mem_toDigits (by decide) (by decide) hdigit
    have hall : ("ip".toList :: plainWords).all (·.all (fun c => !c.isDigit)) = true := by decide
    intro word hword hmem
    have hnot := List.all_eq_true.mp (List.all_eq_true.mp hall word hword) digit hmem
    rw [hisDigit] at hnot
    cases hnot
  unfold lineShowsRule ListedRule.Resembles ListedRule.ShowsMark
  rw [decide_eq_true_iff, address_infix_iff rule hip, and_iff_right (setsMark_line rule),
    hex_infix_iff rule (notMem_hexPadded (by decide) _), prefix_hexPadded_iff,
    hex_infix_iff rule (hdigits (by decide) (by decide)), toList_toString,
    number_infix_iff rule (hdigits (by decide) (by decide)) hdigit hplain]

end Line

/-! ### The reported state -/

theorem lines_ruleListing (rules : List ListedRule) :
    lines (ruleListing rules).toList = rules.map ListedRule.line := by
  have hplain : ∀ line ∈ rules.map ListedRule.line, PlainLine line := by
    intro line hline
    obtain ⟨rule, -, rfl⟩ := List.mem_map.mp hline
    exact plainLine_line rule
  rw [ruleListing, String.toList_ofList, ← lines_flatMap_feed hplain, List.flatMap_map]

theorem trimmedEmpty_ruleListing {rules : List ListedRule} (h : rules ≠ []) :
    trimmedEmpty (ruleListing rules) = false := by
  obtain ⟨rule, rules, rfl⟩ := List.exists_cons_of_ne_nil h
  have hmem : 'm' ∈ (ruleListing (rule :: rules)).toList := by
    rw [ruleListing, String.toList_ofList, List.flatMap_cons]
    refine List.mem_append_left _ (List.mem_append_left _ ?_)
    exact (setsMark_line rule).subset (by decide)
  rw [trimmedEmpty, List.isEmpty_eq_false_iff]
  exact trim_ne_nil (by decide) hmem

theorem nftRuleState_ruleListing {rules : List ListedRule} (h : rules ≠ []) (ip : Ipv4)
    (fwmark : UInt32) : nftRuleState (ruleListing rules) ip.text fwmark =
      if (rules.any fun rule => lineShowsRule ip.text fwmark rule.line) then "OK" else "MISSING" := by
  rw [nftRuleState, trimmedEmpty_ruleListing h, lines_ruleListing, List.any_map,
    if_neg Bool.false_ne_true, Function.comp_def]

/-- The state says which rules are there: `OK` exactly if one of them routes the address, and
`MISSING` if there are rules and none of them does. -/
def TellsRules (rules : List ListedRule) (ip : Ipv4) (fwmark : UInt32) : Prop :=
  (nftRuleState (ruleListing rules) ip.text fwmark = "OK" ↔
    ∃ rule ∈ rules, rule.Routes ip fwmark) ∧
  (rules ≠ [] → (¬ ∃ rule ∈ rules, rule.Routes ip fwmark) →
    nftRuleState (ruleListing rules) ip.text fwmark = "MISSING")

theorem ListedRule.Routes.resembles {rule : ListedRule} {ip : Ipv4} {fwmark : UInt32}
    (h : rule.Routes ip fwmark) : rule.Resembles ip fwmark := by
  refine ⟨?_, Or.inl h.2⟩
  rw [Destination.text, h.1]
  exact List.prefix_append _ _

theorem nftRuleState_eq_ok {rules : List ListedRule} {ip : Ipv4} {fwmark : UInt32} :
    nftRuleState (ruleListing rules) ip.text fwmark = "OK" ↔
      ∃ rule ∈ rules, rule.Resembles ip fwmark := by
  rcases eq_or_ne rules [] with rfl | hrules
  · constructor
    · intro hok
      have hunknown : nftRuleState (ruleListing []) ip.text fwmark = "UNKNOWN" := rfl
      rw [hunknown] at hok
      exact absurd hok (by decide)
    · rintro ⟨rule, hrule, -⟩
      cases hrule
  · rw [nftRuleState_ruleListing hrules]
    simp only [← lineShowsRule_iff, ← List.any_eq_true]
    split_ifs with hfound
    · exact ⟨fun _ => hfound, fun _ => rfl⟩
    · exact ⟨fun h => absurd h (by decide), fun h => absurd h hfound⟩

/-- The status tells the rules exactly if one of them routes the address, or if none of them
resembles it: no destination begins with its digits in a line that shows the mark. -/
theorem tellsRules_iff (rules : List ListedRule) (ip : Ipv4) (fwmark : UInt32) :
    TellsRules rules ip fwmark ↔
      (∃ rule ∈ rules, rule.Routes ip fwmark) ∨ ∀ rule ∈ rules, ¬ rule.Resembles ip fwmark := by
  unfold TellsRules
  rw [nftRuleState_eq_ok]
  constructor
  · rintro ⟨hok, -⟩
    by_cases hroutes : ∃ rule ∈ rules, rule.Routes ip fwmark
    · exact Or.inl hroutes
    · exact Or.inr fun rule hrule hresembles => hroutes (hok.mp ⟨rule, hrule, hresembles⟩)
  · rintro (⟨rule, hrule, hroutes⟩ | hnone)
    · exact ⟨⟨fun _ => ⟨rule, hrule, hroutes⟩, fun _ => ⟨rule, hrule, hroutes.resembles⟩⟩,
        fun _ habsent => absurd ⟨rule, hrule, hroutes⟩ habsent⟩
    · refine ⟨⟨?_, ?_⟩, fun hrules _ => ?_⟩
      · rintro ⟨rule, hrule, hresembles⟩
        exact absurd hresembles (hnone rule hrule)
      · rintro ⟨rule, hrule, hroutes⟩
        exact absurd hroutes.resembles (hnone rule hrule)
      · rw [nftRuleState_ruleListing hrules, if_neg]
        intro hfound
        obtain ⟨rule, hrule, hline⟩ := List.any_eq_true.mp hfound
        exact hnone rule hrule (lineShowsRule_iff rule |>.mp hline)

/-- The only rule is for `203.0.113.40`, and the status is asked about `203.0.113.4`. -/
def neighbourRule : ListedRule where
  dest := ⟨⟨203, 0, 113, 40⟩, 32⟩
  skuid := none
  packets := 0
  bytes := 0
  mark := 16

theorem not_tellsRules : ¬ ∀ (rules : List ListedRule) (ip : Ipv4) (fwmark : UInt32),
    TellsRules rules ip fwmark := by
  intro h
  have hresembles : neighbourRule.Resembles ⟨203, 0, 113, 4⟩ 16 := by
    refine ⟨?_, Or.inl rfl⟩
    change (Ipv4.text ⟨203, 0, 113, 4⟩).toList <+: (Ipv4.text ⟨203, 0, 113, 40⟩).toList ++ []
    decide
  have hok : nftRuleState (ruleListing [neighbourRule]) (Ipv4.text ⟨203, 0, 113, 4⟩) 16 = "OK" :=
    nftRuleState_eq_ok.mpr ⟨neighbourRule, List.mem_singleton_self _, hresembles⟩
  obtain ⟨rule, hrule, hroutes, -⟩ := (h [neighbourRule] ⟨203, 0, 113, 4⟩ 16).1.mp hok
  rw [List.mem_singleton.mp hrule] at hroutes
  exact absurd hroutes (by decide)

end EveNet
