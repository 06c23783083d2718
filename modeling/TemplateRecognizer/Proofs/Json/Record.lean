import Mathlib.Data.List.Induction
import TemplateRecognizer.Json.Record
import TemplateRecognizer.Proofs.Json.RoundTrip

/-!
# Records and words

A field is given by the member of its name, wherever this stands and whatever other members stand
around it.  If several members have the name, the record cannot be read.  Whether a record is an
object or an array makes no difference to the values of its fields.

A number of 64 bits is the one that its decimal digits write, and no other numeral is read as one.
-/

set_option autoImplicit false

namespace TemplateRecognizer

namespace Json

/-! ## Fields -/

def timesGiven (members : List (Option String × Json)) (name : String) : Nat :=
  (members.map Prod.fst).count (some name)

/-- `Gives members name field` says what members give to the field `name`: nothing if no member
has the name, or the value of the only one that has it. -/
inductive Gives (members : List (Option String × Json)) (name : String) : Option Json → Prop where
  | absent : timesGiven members name = 0 → Gives members name none
  | once {value : Json} :
      timesGiven members name = 1 → (some name, value) ∈ members → Gives members name (some value)

def Named (members : List (Option String × Json)) : Prop := ∀ member ∈ members, member.1 ≠ none

/-- `IsRecord names fields value` says that `value` is a record of the fields `names`, to which it
gives the values `fields`. -/
inductive IsRecord (names : List String) : List (Option Json) → Json → Prop where
  | array {items : List Json} :
      items.length = names.length → IsRecord names (items.map some) (array items)
  | object {members : List (Option String × Json)} {fields : List (Option Json)} :
      Named members → List.Forall₂ (Gives members) names fields →
        IsRecord names fields (object members)

/-- `Defective names required value` says that `value` lacks one of the fields that are required,
or gives one of the fields `names` more than once. -/
inductive Defective (names required : List String) : Json → Prop where
  | lacks {members : List (Option String × Json)} {name : String} :
      name ∈ required → timesGiven members name = 0 → Defective names required (object members)
  | repeats {members : List (Option String × Json)} {name : String} :
      name ∈ names → 2 ≤ timesGiven members name → Defective names required (object members)
  | short {items : List Json} {name : String} :
      name ∈ required → name ∈ names.drop items.length → Defective names required (array items)

section

variable {members : List (Option String × Json)} {name : String} {names required : List String}
  {field : Option Json} {fields : List (Option Json)} {value : Json}

theorem timesGiven_eq_length (members : List (Option String × Json)) (name : String) :
    timesGiven members name = (members.filter fun member => member.1 == some name).length := by
  rw [timesGiven, List.count, List.countP_map, List.countP_eq_length_filter]
  rfl

theorem timesGiven_pos (given : (some name, value) ∈ members) : 0 < timesGiven members name :=
  List.count_pos_iff.mpr (List.mem_map_of_mem given)

theorem field?_cases (members : List (Option String × Json)) (name : String) :
    (∃ field, Gives members name field ∧ field? members name = some field) ∨
      2 ≤ timesGiven members name ∧ field? members name = none := by
  have times := timesGiven_eq_length members name
  unfold field?
  split
  · rename_i absent
    rw [absent] at times
    exact .inl ⟨none, .absent times, rfl⟩
  · rename_i member only
    rw [only] at times
    have present : member ∈ members.filter fun member => member.1 == some name := by
      rw [only]
      exact List.mem_singleton_self member
    obtain ⟨inside, named⟩ := List.mem_filter.mp present
    obtain ⟨other, value⟩ := member
    obtain rfl : other = some name := by simpa using named
    exact .inl ⟨some value, .once times inside, rfl⟩
  · rename_i several single
    refine .inr ⟨?_, rfl⟩
    rw [times]
    generalize members.filter (fun member => member.1 == some name) = found at several single
    match found, several, single with
    | [], several, _ => exact absurd rfl several
    | [member], _, single => exact absurd rfl (single member)
    | _ :: _ :: _, _, _ => simp

theorem Gives.timesGiven_le (gives : Gives members name field) : timesGiven members name ≤ 1 := by
  cases gives with
  | absent never => omega
  | once once _ => omega

theorem Gives.field? (gives : Gives members name field) :
    Json.field? members name = some field := by
  cases gives with
  | absent never =>
    have nothing := List.length_eq_zero_iff.mp
      ((timesGiven_eq_length members name).symm.trans never)
    rw [Json.field?, nothing]
  | @once value once given =>
    have present : (some name, value) ∈ members.filter fun member => member.1 == some name :=
      List.mem_filter.mpr ⟨given, by simp⟩
    obtain ⟨member, only⟩ := List.length_eq_one_iff.mp
      ((timesGiven_eq_length members name).symm.trans once)
    rw [only, List.mem_singleton] at present
    rw [Json.field?, only, ← present]

theorem field?_eq_some_iff : field? members name = some field ↔ Gives members name field := by
  refine ⟨fun read => ?_, Gives.field?⟩
  rcases field?_cases members name with ⟨_, gives, read'⟩ | ⟨_, read'⟩
  · cases read.symm.trans read'
    exact gives
  · cases read.symm.trans read'

theorem exists_gives (atMostOnce : timesGiven members name ≤ 1) :
    ∃ field, Gives members name field := by
  rcases field?_cases members name with ⟨field, gives, _⟩ | ⟨several, _⟩
  · exact ⟨field, gives⟩
  · omega

theorem Gives.eq_some (gives : Gives members name field) (given : (some name, value) ∈ members) :
    field = some value := by
  have once : timesGiven members name = 1 :=
    Nat.le_antisymm gives.timesGiven_le (timesGiven_pos given)
  exact Option.some.inj (gives.field?.symm.trans (Gives.once once given).field?)

theorem fieldsOf?_eq_some_iff :
    fieldsOf? members names = some fields ↔ List.Forall₂ (Gives members) names fields := by
  induction names generalizing fields with
  | nil => simp [fieldsOf?, eq_comm]
  | cons name names inductionHypothesis =>
    simp only [fieldsOf?, Option.bind_eq_bind, Option.bind_eq_some_iff, Option.some.injEq,
      field?_eq_some_iff, inductionHypothesis]
    constructor
    · rintro ⟨field, gives, fields', others, rfl⟩
      exact .cons gives others
    · rintro (_ | ⟨gives, others⟩)
      exact ⟨_, gives, _, others, rfl⟩

theorem fields?_object_eq_some_iff :
    fields? names (object members) = some fields ↔
      Named members ∧ List.Forall₂ (Gives members) names fields := by
  have named : (members.all fun member => member.1.isSome) = true ↔ Named members := by
    simp only [List.all_eq_true, Option.isSome_iff_ne_none, Named]
  rw [fields?, Option.ite_none_right_eq_some, named, fieldsOf?_eq_some_iff]

theorem IsRecord.fields? (isRecord : IsRecord names fields value) :
    value.fields? names = some fields := by
  cases isRecord with
  | array complete => simp [Json.fields?, complete]
  | object named gives => exact fields?_object_eq_some_iff.mpr ⟨named, gives⟩

theorem exists_mem_zip_of_gives (gives : List.Forall₂ (Gives members) names fields)
    (known : name ∈ names) :
    ∃ field, (name, field) ∈ names.zip fields ∧ Gives members name field := by
  induction gives with
  | nil => cases known
  | cons first _ inductionHypothesis =>
    rcases List.mem_cons.mp known with rfl | behind
    · exact ⟨_, List.mem_cons_self, first⟩
    · obtain ⟨field, inside, gives⟩ := inductionHypothesis behind
      exact ⟨field, List.mem_cons_of_mem _ inside, gives⟩

/-- A record that is defective lacks a required field wherever it can be read at all. -/
theorem Defective.exists_missing (defective : Defective names required value)
    (known : required ⊆ names) (read : value.fields? names = some fields) :
    ∃ name ∈ required, (name, none) ∈ names.zip fields := by
  cases defective with
  | @lacks members name needed never =>
    obtain ⟨_, gives⟩ := fields?_object_eq_some_iff.mp read
    obtain ⟨field, inside, given⟩ := exists_mem_zip_of_gives gives (known needed)
    cases given with
    | absent _ => exact ⟨name, needed, inside⟩
    | once once _ => omega
  | @repeats members name isKnown several =>
    obtain ⟨_, gives⟩ := fields?_object_eq_some_iff.mp read
    obtain ⟨field, _, given⟩ := exists_mem_zip_of_gives gives isKnown
    have atMostOnce := given.timesGiven_le
    omega
  | @short items name needed behind =>
    refine ⟨name, needed, ?_⟩
    rw [Json.fields?] at read
    split at read
    · rename_i fits
      cases read
      obtain ⟨index, there⟩ := List.mem_iff_getElem?.mp behind
      have inside : items.length + index < names.length := by
        have bound := (List.getElem?_eq_some_iff.mp there).1
        rw [List.length_drop] at bound
        omega
      rw [List.getElem?_drop] at there
      refine List.mem_iff_getElem?.mpr ⟨items.length + index, ?_⟩
      rw [List.getElem?_zip_eq_some]
      refine ⟨there, ?_⟩
      rw [List.getElem?_append_right (by simp)]
      exact List.getElem?_replicate_of_lt (by simp; omega)
    · cases read

end

/-! ## Words -/

theorem digitsValue_toDigits (value : Nat) : digitsValue (Nat.toDigits 10 value) = value := by
  have read : Nat.ofDigitChars 10 (Nat.toDigits 10 value) 0 = value :=
    Nat.ofDigitChars_ten_toDigits
  rw [Nat.ofDigitChars_eq_foldl] at read
  simpa only [digitsValue, Nat.mul_comm, Char.reduceToNat] using read

theorem word?_ofNat {value : Nat} (fits : value < UInt64.size) :
    (ofNat value).word? = some value := by
  have digits : (toString value).toList = Nat.toDigits 10 value := Nat.toList_repr
  have all : (Nat.toDigits 10 value).all Char.isDigit = true :=
    List.all_eq_true.mpr (decimal_toDigits value).digit
  rw [ofNat, word?, digits, digitsValue_toDigits]
  exact if_pos ⟨all, fits⟩

theorem toDigits_of_isDigit {digit : Char} (decimal : digit.isDigit = true) :
    digit.toNat - 48 < 10 ∧ Nat.toDigits 10 (digit.toNat - 48) = [digit] := by
  simp only [Char.isDigit, ge_iff_le, Bool.and_eq_true, decide_eq_true_eq,
    UInt32.le_iff_toNat_le] at decimal
  have lower : 48 ≤ digit.toNat := decimal.1
  have upper : digit.toNat ≤ 57 := decimal.2
  have single : ∀ value < 10, Nat.toDigits 10 value = [Char.ofNat (value + 48)] := by decide
  have small : digit.toNat - 48 < 10 := by omega
  refine ⟨small, ?_⟩
  rw [single _ small, Nat.sub_add_cancel lower, Char.ofNat_toNat]

theorem Decimal.toDigits_digitsValue {digits : List Char} (decimal : Decimal digits) :
    Nat.toDigits 10 (digitsValue digits) = digits := by
  induction digits using List.reverseRecOn with
  | nil => exact absurd rfl decimal.nonempty
  | append_singleton front digit inductionHypothesis =>
    obtain ⟨small, last⟩ := toDigits_of_isDigit (decimal.digit digit (by simp))
    by_cases alone : front = []
    · subst alone
      simpa [digitsValue] using last
    · have noZero : ∀ tail, front ≠ '0' :: tail := by
        rintro tail rfl
        simpa using decimal.leading (tail ++ [digit]) rfl
      have whole : Decimal front := by
        refine ⟨alone, ?_, fun tail same => absurd same (noZero tail)⟩
        exact fun character member => decimal.digit character (List.mem_append_left _ member)
      have read := inductionHypothesis whole
      have positive : 0 < digitsValue front := by
        by_contra none
        rw [Nat.eq_zero_of_not_pos none] at read
        exact noZero [] read.symm
      have value : digitsValue (front ++ [digit]) =
          10 * digitsValue front + (digit.toNat - 48) := by
        simp [digitsValue, Nat.mul_comm]
      rw [value, ← Nat.toDigits_append_toDigits (by decide) positive small, read, last]

theorem Numeral.decimal {numeral : List Char} (isNumeral : Numeral numeral)
    (digit : ∀ character ∈ numeral, character.isDigit = true) : Decimal numeral := by
  cases isNumeral with
  | parts isSign decimal isFraction isExponent =>
    simp only [List.mem_append, or_imp, forall_and] at digit
    obtain ⟨signDigit, _, fractionDigit, exponentDigit⟩ := digit
    simp only [List.mem_cons, List.not_mem_nil, or_false] at isSign
    rcases isSign with rfl | rfl
    · cases isFraction with
      | absent =>
        cases isExponent with
        | absent => simpa using decimal
        | power letter _ _ _ =>
          have first := exponentDigit _ List.mem_cons_self
          rw [List.mem_cons, List.mem_singleton] at letter
          rcases letter with rfl | rfl <;> cases first
      | point _ _ => cases fractionDigit '.' List.mem_cons_self
    · cases signDigit '-' List.mem_cons_self

theorem eq_ofNat_of_word? {value : Json} {number : Nat} (sound : value.Sound)
    (read : value.word? = some number) : number < UInt64.size ∧ value = .ofNat number := by
  cases value with
  | number numeral =>
    simp only [word?] at read
    split at read
    · rename_i fits
      cases read
      refine ⟨fits.2, ?_⟩
      have isNumeral : Numeral numeral.toList := by
        cases sound (.number numeral) (by simp [pieces]) with
        | mark noNumber _ => exact absurd rfl (noNumber numeral)
        | number isNumeral => exact isNumeral
      have digits := (isNumeral.decimal (List.all_eq_true.mp fits.1)).toDigits_digitsValue
      have same : (toString (digitsValue numeral.toList)).toList = numeral.toList :=
        Nat.toList_repr.trans digits
      rw [ofNat, String.toList_inj.mp same]
    · cases read
  | _ => cases read

end Json

end TemplateRecognizer
