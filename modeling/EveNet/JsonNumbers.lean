import EveNet.ConfigJson
import Mathlib.Algebra.Order.Field.Basic
import Mathlib.Algebra.Order.Ring.Rat
import Mathlib.Tactic.Positivity
import Mathlib.Tactic.NormNum

/-!
# JSON values read and written again

Whoever reads a JSON text into a value and writes the value out again keeps one member for each
name, the last one, and prints the numbers anew. `renumber` is the value that comes out. What two
values have in common when only the digits of their numbers and the order of their members differ
is their `meaning`.
-/

namespace EveNet

/-! ### Recursion over JSON values -/

namespace Json

/-- What is made of each kind of value. -/
structure Folding (β : Type) where
  null : β
  bool : Bool → β
  num : String → β
  str : String → β
  arr : List β → β
  obj : List (String × β) → β

section Fold

variable {β : Type} (F : Folding β)

mutual

def fold : Json → β
  | .null => F.null
  | .bool b => F.bool b
  | .num text => F.num text
  | .str s => F.str s
  | .arr items => F.arr (foldItems items)
  | .obj members => F.obj (foldMembers members)

def foldItems : List Json → List β
  | [] => []
  | item :: items => fold item :: foldItems items

def foldMembers : List (String × Json) → List (String × β)
  | [] => []
  | (name, value) :: members => (name, fold value) :: foldMembers members

end

theorem fold_arr (items : List Json) : fold F (.arr items) = F.arr (items.map (fold F)) := by
  have hitems : foldItems F items = items.map (fold F) := by
    induction items with
    | nil => rfl
    | cons item items ih => rw [foldItems, ih, List.map_cons]
  rw [fold, hitems]

theorem fold_obj (members : List (String × Json)) :
    fold F (.obj members) = F.obj (members.map (Prod.map id (fold F))) := by
  have hmembers : foldMembers F members = members.map (Prod.map id (fold F)) := by
    induction members with
    | nil => rfl
    | cons member members ih =>
        obtain ⟨name, value⟩ := member
        rw [foldMembers, ih, List.map_cons]
        rfl
  rw [fold, hmembers]

end Fold

/-- A property that passes from the parts of a value to the value. -/
@[elab_as_elim]
theorem induct {P : Json → Prop} (null : P .null) (bool : ∀ b, P (.bool b))
    (num : ∀ text, P (.num text)) (str : ∀ s, P (.str s))
    (arr : ∀ items, (∀ item ∈ items, P item) → P (.arr items))
    (obj : ∀ members, (∀ member ∈ members, P member.2) → P (.obj members)) (json : Json) :
    P json :=
  @Json.rec P (fun items => ∀ item ∈ items, P item) (fun members => ∀ member ∈ members, P member.2)
    (fun member => P member.2) null bool num str arr obj
    (fun _ hitem => absurd hitem List.not_mem_nil)
    (fun _ _ hitem hitems => List.forall_mem_cons.mpr ⟨hitem, hitems⟩)
    (fun _ hmember => absurd hmember List.not_mem_nil)
    (fun _ _ hmember hmembers => List.forall_mem_cons.mpr ⟨hmember, hmembers⟩)
    (fun _ _ hvalue => hvalue) json

/-- Which members count does not depend on their values. -/
theorem lasts_values {β γ : Type} (g : β → γ) (members : List (String × β)) :
    KeyedList.lasts Prod.fst (members.map (Prod.map id g)) =
      (KeyedList.lasts Prod.fst members).map (Prod.map id g) :=
  KeyedList.lasts_map Prod.fst (f := Prod.map id g) (fun _ => rfl) members

/-! ### Numbers -/

/-- The test holds of every number in the value. -/
def allNumbers (p : String → Bool) : Json → Bool :=
  fold ⟨true, fun _ => true, p, fun _ => true, fun items => items.all id,
    fun members => members.all Prod.snd⟩

/-- The value read and written again: of members with one name the last counts, in the place of
the first, and a number is printed as `number` says. -/
def renumber (number : String → String) : Json → Json :=
  fold ⟨.null, .bool, fun text => .num (number text), .str, .arr,
    fun members => .obj (KeyedList.lasts Prod.fst members)⟩

/-- The same, where only some numbers can be read. -/
def reread (number : String → Option String) (json : Json) : Option Json :=
  if json.allNumbers (fun text => (number text).isSome) then
    some (json.renumber (fun text => (number text).getD text))
  else none

/-- No object names a member twice. -/
def Distinct : Json → Prop :=
  fold ⟨True, fun _ => True, fun _ => True, fun _ => True, fun items => ∀ item ∈ items, item,
    fun members => (members.map Prod.fst).Nodup ∧ ∀ member ∈ members, member.2⟩

section Parts

variable {p : String → Bool} {number : String → String} {items : List Json}
  {members : List (String × Json)} {key : String} {value : Json}

theorem allNumbers_arr :
    (Json.arr items).allNumbers p = true ↔ ∀ item ∈ items, item.allNumbers p = true := by
  rw [allNumbers, fold_arr]
  simp

theorem allNumbers_obj : (Json.obj members).allNumbers p = true ↔
    ∀ member ∈ members, member.2.allNumbers p = true := by
  rw [allNumbers, fold_obj]
  simp

theorem renumber_arr :
    (Json.arr items).renumber number = .arr (items.map (renumber number)) := fold_arr _ _

theorem renumber_obj : (Json.obj members).renumber number =
    .obj ((KeyedList.lasts Prod.fst members).map (Prod.map id (renumber number))) := by
  rw [← lasts_values]
  exact fold_obj _ _

theorem obj_of_renumber {json : Json} (h : json.renumber number = .obj members) :
    ∃ members', json = .obj members' := by
  cases json with
  | obj members' => exact ⟨members', rfl⟩
  | arr items =>
      rw [renumber_arr] at h
      cases h
  | null => cases h
  | bool b => cases h
  | num text => cases h
  | str s => cases h

theorem distinct_arr : (Json.arr items).Distinct ↔ ∀ item ∈ items, item.Distinct := by
  rw [Distinct, fold_arr]
  exact List.forall_mem_map

theorem distinct_obj : (Json.obj members).Distinct ↔
    (members.map Prod.fst).Nodup ∧ ∀ member ∈ members, member.2.Distinct := by
  rw [Distinct, fold_obj]
  refine and_congr ?_ List.forall_mem_map
  rw [List.map_map]
  rfl

theorem distinct_renumber (number : String → String) (json : Json) :
    (json.renumber number).Distinct := by
  induction json using induct with
  | null => trivial
  | bool b => trivial
  | num text => trivial
  | str s => trivial
  | arr items ih =>
      rw [renumber_arr, distinct_arr]
      exact List.forall_mem_map.mpr ih
  | obj members ih =>
      rw [renumber_obj, distinct_obj]
      constructor
      · rw [List.map_map]
        exact KeyedList.nodup_lasts Prod.fst members
      · exact List.forall_mem_map.mpr fun member hmember =>
          ih member (KeyedList.mem_of_mem_lasts Prod.fst hmember)

/-- Read and written twice. -/
theorem renumber_renumber (number number' : String → String) (json : Json) :
    (json.renumber number).renumber number' = json.renumber (number' ∘ number) := by
  induction json using induct with
  | null => rfl
  | bool b => rfl
  | num text => rfl
  | str s => rfl
  | arr items ih =>
      rw [renumber_arr, renumber_arr, renumber_arr, List.map_map]
      exact congrArg Json.arr (List.map_congr_left ih)
  | obj members ih =>
      rw [renumber_obj, renumber_obj, renumber_obj, lasts_values,
        KeyedList.lasts_of_nodup Prod.fst (KeyedList.nodup_lasts Prod.fst members), List.map_map]
      refine congrArg Json.obj (List.map_congr_left fun member hmember => ?_)
      exact Prod.ext rfl (ih member (KeyedList.mem_of_mem_lasts Prod.fst hmember))

/-- The numbers of a value that was read and written are the printed ones. -/
theorem allNumbers_renumber (p : String → Bool) (number : String → String) (json : Json) :
    (json.renumber number).allNumbers p = (json.renumber id).allNumbers (p ∘ number) := by
  rw [Bool.eq_iff_iff]
  induction json using induct with
  | null => rfl
  | bool b => rfl
  | num text => rfl
  | str s => rfl
  | arr items ih =>
      rw [renumber_arr, renumber_arr, allNumbers_arr, allNumbers_arr, List.forall_mem_map,
        List.forall_mem_map]
      exact forall₂_congr ih
  | obj members ih =>
      rw [renumber_obj, renumber_obj, allNumbers_obj, allNumbers_obj, List.forall_mem_map,
        List.forall_mem_map]
      exact forall₂_congr fun member hmember =>
        ih member (KeyedList.mem_of_mem_lasts Prod.fst hmember)

theorem allNumbers_lasts {json : Json} (h : json.allNumbers p = true) :
    (json.renumber id).allNumbers p = true := by
  induction json using induct with
  | null => rfl
  | bool b => rfl
  | num text => exact h
  | str s => rfl
  | arr items ih =>
      rw [renumber_arr, allNumbers_arr, List.forall_mem_map]
      exact fun item hitem => ih item hitem (allNumbers_arr.mp h item hitem)
  | obj members ih =>
      rw [renumber_obj, allNumbers_obj, List.forall_mem_map]
      intro member hmember
      have hmem := KeyedList.mem_of_mem_lasts Prod.fst hmember
      exact ih member hmem (allNumbers_obj.mp h member hmem)

end Parts

/-! ### Members -/

section Members

variable {number : String → String} {members : List (String × Json)} {names : List String}
  {key : String}

/-- A name that a struct knows is given at most once. -/
theorem count_le_one (h : ((members.map Prod.fst).filter (· ∈ names)).Nodup) (hkey : key ∈ names) :
    (members.map Prod.fst).count key ≤ 1 := by
  rw [← List.count_filter (p := (· ∈ names)) (by simpa using hkey)]
  exact List.nodup_iff_count_le_one.mp h key

theorem count_of_fields {least : ℕ} {field : String → Option Json}
    (h : (Json.obj members).fields names least = some field) (hkey : key ∈ names) :
    (members.map Prod.fst).count key ≤ 1 := by
  unfold fields at h
  dsimp only at h
  split_ifs at h with hnodup
  exact count_le_one hnodup hkey

theorem get_renumber (h : (members.map Prod.fst).count key ≤ 1) :
    ((Json.obj members).renumber number).get key =
      ((Json.obj members).get key).map (renumber number) := by
  have hlookup : ∀ l : List (String × Json),
      KeyedList.lookup Prod.fst key (l.map (Prod.map id (renumber number))) =
        (KeyedList.lookup Prod.fst key l).map (Prod.map id (renumber number)) := by
    intro l
    induction l with
    | nil => rfl
    | cons member l ih =>
        rw [List.map_cons, KeyedList.lookup_cons, KeyedList.lookup_cons, ih]
        change (if member.1 = key then _ else _) = _
        split_ifs <;> rfl
  have hmember : (KeyedList.lookup Prod.fst key (KeyedList.lasts Prod.fst members)) =
      KeyedList.lookup Prod.fst key members := KeyedList.lookup_lasts Prod.fst h
  rw [renumber_obj]
  change (KeyedList.lookup Prod.fst key _).map Prod.snd =
    ((KeyedList.lookup Prod.fst key members).map Prod.snd).map _
  rw [hlookup, hmember, Option.map_map, Option.map_map]
  rfl

/-- The fields of a struct that was read and written. -/
theorem fields_renumber {json : Json} {least : ℕ} {field : String → Option Json}
    (h : json.fields names least = some field) : ∃ field',
      (json.renumber number).fields names least = some field' ∧
        ∀ name ∈ names, field' name = (field name).map (renumber number) := by
  cases json with
  | null => cases h
  | bool b => cases h
  | num text => cases h
  | str s => cases h
  | arr items =>
      unfold fields at h
      dsimp only at h
      split_ifs at h with hlength
      cases h
      rw [renumber_arr, fields, if_pos (by rwa [List.length_map])]
      exact ⟨_, rfl, fun name _ => List.getElem?_map⟩
  | obj members =>
      unfold fields at h
      dsimp only at h
      split_ifs at h with hnodup
      cases h
      have hnames : (((KeyedList.lasts Prod.fst members).map (Prod.map id (renumber number))).map
          Prod.fst).Nodup := by
        rw [List.map_map]
        exact KeyedList.nodup_lasts Prod.fst members
      refine ⟨((Json.obj members).renumber number).get, ?_, fun name hname =>
        get_renumber (count_le_one hnodup hname)⟩
      rw [renumber_obj, fields, if_pos (hnames.filter _)]

end Members

end Json

/-! ### The value of a number -/

/-- The digits of a number, read as a whole number, and the power of ten they are to be multiplied
with. -/
def decimalOf (literal : String) : ℕ × ℤ :=
  let body := literal.toList.dropWhile (· == '-')
  let isExponent := fun c => c == 'e' || c == 'E'
  let digits := body.takeWhile (fun c => ¬ isExponent c)
  let fraction := (digits.dropWhile (· ≠ '.')).drop 1
  let exponent : ℤ :=
    match (body.dropWhile (fun c => ¬ isExponent c)).drop 1 with
    | '-' :: cs => -(Nat.ofDigitChars 10 cs 0)
    | '+' :: cs => Nat.ofDigitChars 10 cs 0
    | cs => Nat.ofDigitChars 10 cs 0
  (Nat.ofDigitChars 10 (digits.takeWhile (· ≠ '.') ++ fraction) 0, exponent - fraction.length)

def numberValue (literal : String) : ℚ :=
  let (digits, exponent) := decimalOf literal
  (if literal.toList.head? = some '-' then -1 else 1) * digits * 10 ^ exponent

/-- From here on the nearest double is an infinity. -/
def doubleBound : ℕ := (2 ^ 54 - 1) * (2 ^ 194) ^ 5

example : doubleBound = 2 ^ 1024 - 2 ^ 970 := by decide +kernel

/-- The number is out of the range of doubles. -/
def outOfRange (literal : String) : Bool :=
  match decimalOf literal with
  | (digits, .ofNat e) => doubleBound ≤ digits * 10 ^ e
  | (digits, .negSucc e) => doubleBound * 10 ^ (e + 1) ≤ digits

theorem outOfRange_iff (literal : String) :
    outOfRange literal = true ↔ (doubleBound : ℚ) ≤ |numberValue literal| := by
  have habs : |numberValue literal| = (decimalOf literal).1 * 10 ^ (decimalOf literal).2 := by
    rw [numberValue, abs_mul, abs_mul]
    split_ifs <;> simp [abs_of_pos]
  rw [habs, outOfRange]
  rcases decimalOf literal with ⟨digits, e | e⟩
  · simp only [decide_eq_true_eq, Int.ofNat_eq_natCast, zpow_natCast]
    exact_mod_cast Iff.rfl
  · simp only [decide_eq_true_eq, zpow_negSucc, ← div_eq_mul_inv]
    rw [le_div_iff₀ (by positivity)]
    exact_mod_cast Iff.rfl

/-! ### What a value says -/

/-- A JSON value apart from how it is written: its numbers are rational numbers, and its objects
have one member for each name, in the order of the names. -/
inductive JsonValue where
  | null
  | bool (b : Bool)
  | num (value : ℚ)
  | str (s : String)
  | arr (items : List JsonValue)
  | obj (members : List (String × JsonValue))

namespace Json

def meaning : Json → JsonValue :=
  fold ⟨.null, .bool, fun text => .num (numberValue text), .str, .arr,
    fun members => .obj (KeyedList.sortBy Prod.fst (KeyedList.lasts Prod.fst members))⟩

theorem sortBy_values {β γ : Type} (g : β → γ) (members : List (String × β)) :
    KeyedList.sortBy Prod.fst (members.map (Prod.map id g)) =
      (KeyedList.sortBy Prod.fst members).map (Prod.map id g) :=
  KeyedList.sortBy_map Prod.fst (f := Prod.map id g) (fun _ => rfl) members

theorem meaning_arr (items : List Json) :
    (Json.arr items).meaning = .arr (items.map meaning) := fold_arr _ _

theorem meaning_obj (members : List (String × Json)) : (Json.obj members).meaning =
    .obj ((KeyedList.sortBy Prod.fst (KeyedList.lasts Prod.fst members)).map
      (Prod.map id meaning)) := by
  rw [← sortBy_values, ← lasts_values]
  exact fold_obj _ _

/-- A value that was read and written says the same exactly when each of its numbers that count
has kept its value. -/
theorem meaning_renumber_iff (number : String → String) (json : Json) :
    (json.renumber number).meaning = json.meaning ↔
      (json.renumber id).allNumbers (fun text => numberValue (number text) = numberValue text) =
        true := by
  induction json using induct with
  | null => exact iff_of_true rfl rfl
  | bool b => exact iff_of_true rfl rfl
  | num text =>
      change JsonValue.num (numberValue (number text)) = JsonValue.num (numberValue text) ↔
        decide (numberValue (number text) = numberValue text) = true
      rw [JsonValue.num.injEq, decide_eq_true_eq]
  | str s => exact iff_of_true rfl rfl
  | arr items ih =>
      rw [renumber_arr, renumber_arr, meaning_arr, meaning_arr, allNumbers_arr, List.map_map,
        JsonValue.arr.injEq, List.map_inj_left, List.forall_mem_map]
      exact forall₂_congr ih
  | obj members ih =>
      have hkept := KeyedList.nodup_lasts Prod.fst members
      rw [renumber_obj, renumber_obj, meaning_obj, meaning_obj, allNumbers_obj, lasts_values,
        KeyedList.lasts_of_nodup Prod.fst hkept, sortBy_values, List.map_map,
        JsonValue.obj.injEq, List.map_inj_left, List.forall_mem_map]
      refine forall_congr' fun member => ?_
      rw [KeyedList.mem_sortBy]
      refine imp_congr_right fun hmember => ?_
      change _ ↔ (renumber id member.2).allNumbers _ = true
      rw [← ih member (KeyedList.mem_of_mem_lasts Prod.fst hmember)]
      exact ⟨fun h => congrArg Prod.snd h, fun h => Prod.ext rfl h⟩

end Json

end EveNet
