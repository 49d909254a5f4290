import ProtoSchema.Derive.Enumeration
import ProtoSchema.Proofs.Derive.Code
import ProtoSchema.Proofs.Result

/-!
# Numbers of variants

A variant is documented to have the number that it asks for, or else one more than the variant
before it. That is a rule about integers, and what is derived counts in 32 bits. Reducing an integer
to 32 bits respects counting, so every number is the documented one, reduced; and since no variant
can ask for a number out of range, the two part in a single way, by counting on from the greatest
number. The derivation does not notice.

What is said in the end is said of the text that is derived. It is described token by token, apart
from the functions that write it, so that a variant has one number only if that very number is
spelled in each of the three places where it has to stand.
-/

set_option autoImplicit false

namespace ProtoSchema.Derive

/-! ## The documented numbers

What a variant asks for is an integer, of any size as far as the grammar is concerned, and counting
on from it is adding one. -/

/-- The integer that an expression of signs and a whole number denotes. -/
def Expression.denoted? : Expression → Option Int
  | literal (.integer magnitude) => some magnitude
  | negation e => e.denoted?.map (- ·)
  | _ => none

/-- What a variant asks for: the number that is set for it, or else that of its discriminant. -/
inductive Asks (variant : DeclaredVariant) : Option Int → Prop
  | setting {settings : VariantSettings} {n : Int32}
      (hread : VariantSettings.read variant.attributes = .ok settings)
      (h : settings.number = some n) : Asks variant (some n.toInt)
  | discriminant {settings : VariantSettings} {e : Expression} {n : Int}
      (hread : VariantSettings.read variant.attributes = .ok settings)
      (hnone : settings.number = none) (h : variant.discriminant = some e)
      (hdenoted : e.denoted? = some n) : Asks variant (some n)
  | nothing {settings : VariantSettings}
      (hread : VariantSettings.read variant.attributes = .ok settings)
      (hnone : settings.number = none) (h : variant.discriminant = none) : Asks variant none

/-- The numbers of variants by what they ask for; `next` is that of a first one that asks for
none. -/
def counted : (next : Int) → List (Option Int) → List Int
  | _, [] => []
  | next, asked :: rest => asked.getD next :: counted (asked.getD next + 1) rest

/-- A number of an enum value. -/
def FitsEnum (n : Int) : Prop := Int32.minValue.toInt ≤ n ∧ n ≤ Int32.maxValue.toInt

/-- No variant counts on from one with the greatest number: it asks for a number if it stands right
behind one. -/
def NeverCountsOn (next : Int) (asks : List (Option Int)) : Prop :=
  (asks.zip (counted next asks)).IsChain fun before behind ↦
    before.2 = Int32.maxValue.toInt → behind.1.isSome = true

theorem fitsEnum_toInt (n : Int32) : FitsEnum n.toInt := ⟨n.minValue_le_toInt, n.toInt_le⟩

theorem fitsEnum_iff {n : Int} : FitsEnum n ↔ (Int32.ofInt n).toInt = n := by
  constructor
  · rintro ⟨hmin, hmax⟩
    rw [Int32.toInt_minValue] at hmin
    rw [Int32.toInt_maxValue] at hmax
    exact Int32.toInt_ofInt_of_le hmin (by omega)
  · intro h
    exact h ▸ fitsEnum_toInt _

theorem fitsEnum_add_one {n : Int} (h : FitsEnum n) :
    FitsEnum (n + 1) ↔ n ≠ Int32.maxValue.toInt := by
  obtain ⟨hmin, hmax⟩ := h
  unfold FitsEnum
  omega

theorem neverCountsOn_cons {next : Int} {asked : Option Int} {rest : List (Option Int)}
    (h : FitsEnum (asked.getD next)) :
    NeverCountsOn next (asked :: rest) ↔
      (rest.head? = some none → FitsEnum (asked.getD next + 1)) ∧
        NeverCountsOn (asked.getD next + 1) rest := by
  rw [fitsEnum_add_one h]
  cases rest with
  | nil => exact ⟨fun _ ↦ ⟨fun h ↦ (by cases h), .nil⟩, fun _ ↦ .singleton _⟩
  | cons second rest =>
    refine List.isChain_cons_cons.trans (and_congr_left' ?_)
    cases second <;> simp

/-- All numbers fit if the first one does and no variant counts on from the greatest. -/
theorem fitsEnum_counted_iff {asks : List (Option Int)}
    (hasks : ∀ n, some n ∈ asks → FitsEnum n) (next : Int) :
    (∀ n ∈ counted next asks, FitsEnum n) ↔
      (asks.head? = some none → FitsEnum next) ∧ NeverCountsOn next asks := by
  induction asks generalizing next with
  | nil => exact ⟨fun _ ↦ ⟨fun h ↦ (by cases h), .nil⟩, fun _ n hn ↦ (by cases hn)⟩
  | cons asked rest ih =>
    have hfirst : FitsEnum (asked.getD next) ↔ (asked = none → FitsEnum next) := by
      cases asked with
      | none => simp
      | some n => simp [hasks n List.mem_cons_self]
    rw [counted, List.forall_mem_cons, ih (fun n hn ↦ hasks n (List.mem_cons_of_mem _ hn)),
      List.head?_cons, Option.some.injEq, ← hfirst]
    exact and_congr_right fun hfits ↦ (neverCountsOn_cons hfits).symm

/-! ## The derived numbers

Deriving counts with words of 32 bits, and refuses to read a number that does not fit into one. So
the first number that is out of range can only be reached by counting on. -/

theorem Expression.denoted?_of_signed? {e : Expression} {n : Int}
    (h : e.signed? = some (.ok n)) : e.denoted? = some n := by
  fun_induction Expression.signed? e generalizing n with
  | case1 magnitude =>
    obtain ⟨-, hmagnitude⟩ := ite_ok_eq_ok.1 (Option.some.inj h)
    exact congrArg some (Except.ok.inj hmagnitude)
  | case2 e ih =>
    obtain ⟨read, hread, h⟩ := Option.map_eq_some_iff.1 h
    obtain ⟨m, rfl, rfl⟩ := map_eq_ok.1 h
    rw [denoted?, ih hread]
    rfl
  | case3 => cases h

theorem Expression.denoted?_of_enumNumber {e : Expression} {n : Int32} (h : e.enumNumber = .ok n) :
    e.denoted? = some n.toInt := by
  unfold enumNumber at h
  split at h
  · cases h
  · cases h
  · next value hvalue =>
    obtain ⟨hfits, h⟩ := ite_ok_eq_ok.1 h
    cases h
    rw [fitsEnum_iff.1 hfits]
    exact denoted?_of_signed? hvalue

/-- A variant of the description goes with a declared one. -/
structure Describes (variant : DeclaredVariant) (v : DerivedVariant) : Prop where
  name : v.name = variant.name
  hasNoData : variant.hasData = false
  settings : VariantSettings.read variant.attributes = .ok v.settings

section

variable {next : Int} {variant : DeclaredVariant} {variants rest : List DeclaredVariant}
  {vs : List DerivedVariant}

theorem of_numberVariants_cons
    (h : numberVariants (Int32.ofInt next) (variant :: rest) = .ok vs) :
    ∃ asked v ws, Asks variant asked ∧ (∀ n, asked = some n → FitsEnum n) ∧
      Describes variant v ∧ v.number = Int32.ofInt (asked.getD next) ∧
      numberVariants (Int32.ofInt (asked.getD next + 1)) rest = .ok ws ∧ vs = v :: ws := by
  obtain ⟨hdata, h⟩ := ite_error_eq_ok.1 h
  rw [Bool.not_eq_true] at hdata
  obtain ⟨settings, hread, h⟩ := bind_eq_ok.1 h
  obtain ⟨asked, hasked, hfits, h⟩ : ∃ asked, Asks variant asked ∧
      (∀ n, asked = some n → FitsEnum n) ∧
      (do
        let ws ← numberVariants (Int32.ofInt (asked.getD next) + 1) rest
        return DerivedVariant.mk variant.name (Int32.ofInt (asked.getD next)) settings :: ws) =
          .ok vs := by
    split at h
    · next n hn =>
      refine ⟨_, .setting hread hn, fun n hn ↦ Option.some.inj hn ▸ fitsEnum_toInt _, ?_⟩
      rw [Option.getD_some, Int32.ofInt_toInt]
      exact h
    · next e hn he =>
      obtain ⟨n, hnumber, h⟩ := bind_eq_ok.1 h
      refine ⟨_, .discriminant hread hn he (Expression.denoted?_of_enumNumber hnumber),
        fun n hn ↦ Option.some.inj hn ▸ fitsEnum_toInt _, ?_⟩
      rw [Option.getD_some, Int32.ofInt_toInt]
      exact h
    · next hn he => exact ⟨_, .nothing hread hn he, fun n hn ↦ (by cases hn), h⟩
  obtain ⟨ws, hrest, h⟩ := bind_eq_ok.1 h
  cases h
  have hnext : Int32.ofInt (asked.getD next + 1) = Int32.ofInt (asked.getD next) + 1 :=
    Int32.ofInt_add ..
  exact ⟨asked, _, ws, hasked, hfits, ⟨rfl, hdata, hread⟩, rfl, hnext ▸ hrest, rfl⟩

theorem exists_asks (h : numberVariants (Int32.ofInt next) variants = .ok vs) :
    ∃ asks, List.Forall₂ Asks variants asks ∧ (∀ n, some n ∈ asks → FitsEnum n) ∧
      List.Forall₂ Describes variants vs ∧
      vs.map DerivedVariant.number = (counted next asks).map Int32.ofInt := by
  induction variants generalizing next vs with
  | nil =>
    cases h
    exact ⟨[], .nil, fun n hn ↦ (by cases hn), .nil, rfl⟩
  | cons variant rest ih =>
    obtain ⟨asked, v, ws, hasked, hfits, hv, hnumber, hrest, rfl⟩ := of_numberVariants_cons h
    obtain ⟨asks, hasks, hall, hws, hnumbers⟩ := ih hrest
    refine ⟨asked :: asks, .cons hasked hasks, fun n hn ↦ ?_, .cons hv hws, ?_⟩
    · rcases List.mem_cons.1 hn with hn | hn
      · exact hfits n hn.symm
      · exact hall n hn
    · rw [List.map_cons, hnumber, hnumbers, counted, List.map_cons]

end

/-- What a variant asks for is told by its declaration. -/
theorem rightUnique_asks : Relator.RightUnique Asks := by
  intro variant asked asked' h h'
  cases h <;> cases h' <;> simp_all

/-- The derived numbers are the documented ones as long as these fit. -/
theorem toInt_eq_iff {vs : List DerivedVariant} {numbers : List Int}
    (h : vs.map DerivedVariant.number = numbers.map Int32.ofInt) :
    vs.map (fun v ↦ v.number.toInt) = numbers ↔ ∀ n ∈ numbers, FitsEnum n := by
  have hmap := congrArg (List.map Int32.toInt) h
  rw [List.map_map, List.map_map] at hmap
  calc vs.map (fun v ↦ v.number.toInt) = numbers
      ↔ numbers.map (Int32.toInt ∘ Int32.ofInt) = numbers.map id := by
        rw [← hmap, List.map_id]
        rfl
    _ ↔ ∀ n ∈ numbers, (Int32.ofInt n).toInt = n := List.map_inj_left
    _ ↔ ∀ n ∈ numbers, FitsEnum n := forall₂_congr fun n _ ↦ fitsEnum_iff.symm

/-! ## The text of the code

The number of a variant is spelled three times: in the description of the variant, in front of the
case that finds the variant, and behind the case of the variant. Around the variants the text is
always the same, but for the first variant, which stands for a missing value. -/

/-- The code of one variant: the call that adds it, the case that finds it by its number, and the
case that finds its number. -/
structure VariantCode where
  info : Code
  fromNumber : Code
  toNumber : Code

/-- The code of a variant spells out its name and, in all three places, its number. -/
def DerivedVariant.Spells (l : Library) (v : DerivedVariant) (code : VariantCode) : Prop :=
  ∃ name number, Quotes v.name name ∧ SpellsNumber "i32" v.number.toInt number ∧
    code.info = [".", "with_variant", "("] ++ l.named ["info", "VariantInfo", "new"]
      ++ ["(", name, ","] ++ number ++ [")"]
      ++ callsNaming v.settings.name v.settings.docs ++ [")"] ∧
    code.fromNumber = number ++ ["=", ">"] ++ l.named ["__macro_exports", "Option", "Some"]
      ++ ["(", "Self", ":", ":", v.name, ")", ","] ∧
    code.toNumber = ["Self", ":", ":", v.name, "=", ">"] ++ number ++ [","]

namespace EnumPlan

/-- The whole code, around that of the variants; the first one is known by its name. -/
def text (l : Library) (name : String) (settings : TypeSettings) (first : String)
    (variants : List VariantCode) : Code :=
  ["const", "_", ":", "(", ")", "=", "\x7b"]
    ++ ["impl"] ++ l.named ["info", "Typed"] ++ ["for", name, "\x7b"]
    ++ typeInfoText l
      (l.named ["info", "TypeInfo", "enumeration"] ++ [":", ":", "<", "Self", ">", "("]
        ++ l.named ["info", "EnumInfo", "new"] ++ ["(", ")"] ++ variants.flatMap VariantCode.info
        ++ [")"] ++ callsNaming settings.name settings.docs)
    ++ ["\x7d"]
    ++ ["impl"] ++ l.named ["value", "ProtoEnum"] ++ ["for", name, "\x7b"]
    ++ ["#", "[", "allow", "(", "unreachable_patterns", ")", "]"]
    ++ ["fn", "from_number", "(", "number", ":", "i32", ")", "-", ">"]
    ++ l.named ["__macro_exports", "Option"] ++ ["<", "Self", ">", "\x7b"]
    ++ ["match", "number", "\x7b"] ++ variants.flatMap VariantCode.fromNumber
    ++ ["_", "=", ">"] ++ l.named ["__macro_exports", "Option", "None"] ++ [",", "\x7d", "\x7d"]
    ++ ["fn", "number", "(", "&", "self", ")", "-", ">", "i32", "\x7b"]
    ++ ["match", "self", "\x7b"] ++ variants.flatMap VariantCode.toNumber
    ++ ["\x7d", "\x7d", "\x7d"]
    ++ protoFieldText l name
      (l.named ["info", "FieldType", "Enum"] ++ ["\x7b", "ty", ":"]
        ++ l.named ["info", "TypeRef", "of"] ++ [":", ":", "<", "Self", ">", "(", ")", ","]
        ++ ["open", ":", "false", ",", "\x7d"])
      (l.named ["value", "ValueRef", "Enum"] ++ ["(", "<", "Self", "as"]
        ++ l.named ["value", "ProtoEnum"] ++ [">", ":", ":", "number", "(", "self", ")", ")"])
      (l.named ["__macro_exports", "enum_from_value"]
        ++ [":", ":", "<", "Self", ">", "(", "value", ")"])
      (["#", "[", "inline", "]", "fn", "missing", "(", ")", "-", ">"]
        ++ l.named ["__macro_exports", "Option"] ++ ["<", "Self", ">", "\x7b"]
        ++ l.named ["__macro_exports", "Option", "Some"] ++ ["(", "Self", ":", ":", first, ")"]
        ++ ["\x7d"])
    ++ ["\x7d", ";"]

/-- The code spells out the plan: it holds the code of its variants, in their order. -/
def Spells (l : Library) (name : String) (settings : TypeSettings) (plan : EnumPlan) (code : Code) :
    Prop :=
  ∃ variants : List VariantCode, List.Forall₂ (DerivedVariant.Spells l) plan.variants variants ∧
    code = text l name settings plan.first.name variants

end EnumPlan

section

variable (l : Library)

theorem DerivedVariant.spells_code (v : DerivedVariant) :
    v.Spells l ⟨v.code l, v.fromNumber l, v.toNumber⟩ := by
  refine ⟨Text.literal v.name, v.numberCode, quotes_literal v.name,
    spellsNumber_number v.number.toInt "i32", ?_, ?_, ?_⟩
  · unfold code Code.method
    rw [List.append_assoc (_ ++ _), method?_naming]
    simp [Code.text]
  · simp [fromNumber, nameCode]
  · simp [toNumber, nameCode]

namespace EnumPlan

set_option maxRecDepth 1000 in
theorem code_eq_text (name : String) (settings : TypeSettings) (plan : EnumPlan) :
    plan.code l name settings = text l name settings plan.first.name
      (plan.variants.map fun v ↦ ⟨v.code l, v.fromNumber l, v.toNumber⟩) := by
  unfold code description conversions text
  rw [typeInfo_eq_text, protoField_eq_text, TypeSettings.code_eq, List.flatMap_map,
    List.flatMap_map, List.flatMap_map]
  generalize plan.variants.flatMap (DerivedVariant.code l) = infos
  generalize plan.variants.flatMap (DerivedVariant.fromNumber l) = cases
  generalize plan.variants.flatMap DerivedVariant.toNumber = numbers
  unfold Code.enclosed Code.implementation Code.function Code.inlined Library.typeRef
    DerivedVariant.nameCode
  simp

theorem spells_code (name : String) (settings : TypeSettings) (plan : EnumPlan) :
    plan.Spells l name settings (plan.code l name settings) :=
  ⟨_, List.forall₂_map_right_iff.2 (List.forall₂_same.2 fun v _ ↦ v.spells_code l),
    code_eq_text l name settings plan⟩

end EnumPlan

end

namespace Declaration

variable {d : Declaration}

theorem enumVariants_eq_ok {variants : List DeclaredVariant} (h : d.enumVariants = .ok variants) :
    d.shape = .enum variants := by
  obtain ⟨-, h⟩ := ite_error_eq_ok.1 h
  split at h
  · cases h
  · next hshape =>
    cases h
    exact hshape
  all_goals cases h

/-- **Numbers of variants.** The code that is derived for an enum spells out one number for each
variant, in its description and in both directions, and that is the documented number reduced to 32
bits. It is the documented one for all variants, and these all fit, exactly when no variant counts
on from the greatest number. -/
theorem deriveEnum_counted {library : Except DeriveError Code} {code : Code}
    (h : d.deriveEnum library = .ok code) :
    ∃ path settings variants, ∃ plan : EnumPlan, library = .ok path ∧
      TypeSettings.read d.attributes = .ok settings ∧ d.shape = .enum variants ∧
      plan.Spells ⟨path⟩ d.name settings code ∧ List.Forall₂ Describes variants plan.variants ∧
      (∃ asks, List.Forall₂ Asks variants asks) ∧
      ∀ asks, List.Forall₂ Asks variants asks →
        plan.variants.map DerivedVariant.number = (counted 0 asks).map Int32.ofInt ∧
        (plan.variants.map (fun v ↦ v.number.toInt) = counted 0 asks ↔ NeverCountsOn 0 asks) ∧
        ((∀ n ∈ counted 0 asks, FitsEnum n) ↔ NeverCountsOn 0 asks) := by
  obtain ⟨variants, hvariants, h⟩ := bind_eq_ok.1 h
  obtain ⟨path, hpath, h⟩ := bind_eq_ok.1 h
  obtain ⟨settings, hsettings, h⟩ := bind_eq_ok.1 h
  obtain ⟨vs, hvs, h⟩ := bind_eq_ok.1 h
  have hzero : numberVariants (Int32.ofInt 0) variants = .ok vs := hvs
  obtain ⟨asks, hasks, hfits, hdescribes, hnumbers⟩ := exists_asks hzero
  cases vs with
  | nil => cases h
  | cons v rest =>
    cases h
    refine ⟨path, settings, variants, ⟨v, rest⟩, hpath, hsettings, enumVariants_eq_ok hvariants,
      EnumPlan.spells_code ⟨path⟩ d.name settings ⟨v, rest⟩, hdescribes, ⟨asks, hasks⟩,
      fun asks' hasks' ↦ ?_⟩
    obtain rfl := rightUnique_asks.forall₂ hasks hasks'
    have hfirst : FitsEnum 0 := ⟨by decide, by decide⟩
    have hall : (∀ n ∈ counted 0 asks, FitsEnum n) ↔ NeverCountsOn 0 asks :=
      (fitsEnum_counted_iff hfits 0).trans (and_iff_right fun _ ↦ hfirst)
    exact ⟨hnumbers, (toInt_eq_iff hnumbers).trans hall, hall⟩

/-- An enum with the given variants. -/
def ofVariants (variants : List DeclaredVariant) : Declaration :=
  ⟨[], "Level", false, .enum variants⟩

/-- A variant with a discriminant, or with none. -/
def variant (name : String) (discriminant : Option Expression) : DeclaredVariant :=
  ⟨[], name, false, discriminant⟩

/-- The attribute that sets the number of a variant to minus three. -/
def minusThree : Attribute where
  name := some "proto"
  form := .arguments [.word "number", .mark '=' false, .mark '-' false, .literal "3"]

theorem asks_variant (name : String) (n : Nat) :
    Asks (variant name (some (.literal (.integer n)))) (some n) :=
  .discriminant rfl rfl rfl rfl

theorem asks_variant_none (name : String) : Asks (variant name none) none :=
  .nothing rfl rfl rfl

theorem asks_minusThree {v : DeclaredVariant} (h : v.attributes = [minusThree]) :
    Asks v (some (-3)) := by
  have hsettings : ((VariantSettings.read [minusThree]).toOption.bind (·.number)) = some (-3) := by
    decide +kernel
  obtain ⟨settings, hread, hnumber⟩ := Option.bind_eq_some_iff.1 hsettings
  exact .setting (h ▸ toOption_eq_some.1 hread) hnumber

/-- Variants that count from zero, from a set number and up to the greatest. -/
def level : List DeclaredVariant :=
  [variant "A" none, { variant "B" none with attributes := [minusThree] }, variant "C" none,
    variant "D" (some (.literal (.integer 2147483646))), variant "E" none,
    variant "F" (some (.literal (.integer 7)))]

theorem deriveEnum_counted_level : ∃ (code : Code) (settings : TypeSettings) (plan : EnumPlan),
    (ofVariants level).deriveEnum (.ok ["vc_proto"]) = .ok code ∧
    plan.Spells ⟨["vc_proto"]⟩ "Level" settings code ∧
    List.Forall₂ Describes level plan.variants ∧
    plan.variants.map (fun v ↦ v.number.toInt) = [0, -3, -2, 2147483646, 2147483647, 7] := by
  have hderived : ((ofVariants level).deriveEnum (.ok ["vc_proto"])).toOption.isSome = true := by
    decide +kernel
  obtain ⟨code, hcode⟩ := isSome_toOption_iff.1 hderived
  obtain ⟨path, settings, variants, plan, hpath, -, hshape, hspells, hdescribes, -, hall⟩ :=
    deriveEnum_counted hcode
  cases hpath
  cases hshape
  have hasks : List.Forall₂ Asks level
      [none, some (-3), none, some 2147483646, none, some 7] :=
    .cons (asks_variant_none _) (.cons (asks_minusThree rfl) (.cons (asks_variant_none _)
      (.cons (asks_variant _ _) (.cons (asks_variant_none _) (.cons (asks_variant _ _) .nil)))))
  have hnever : NeverCountsOn 0 [none, some (-3), none, some 2147483646, none, some 7] := by
    unfold NeverCountsOn
    decide
  exact ⟨code, settings, plan, hcode, hspells, hdescribes, (hall _ hasks).2.1.2 hnever⟩

/-- Variants the second of which counts on from the greatest number. -/
def overrun : List DeclaredVariant :=
  [variant "A" (some (.literal (.integer 2147483647))), variant "B" none]

/-- Counting on from the greatest number is not refused: the second variant, which is documented to
have a number that does not fit, gets the least number instead. -/
theorem deriveEnum_overrun :
    (∃ code, (ofVariants overrun).deriveEnum (.ok ["vc_proto"]) = .ok code) ∧
    List.Forall₂ Asks overrun [some 2147483647, none] ∧
    counted 0 [some 2147483647, none] = [2147483647, 2147483648] ∧ ¬FitsEnum 2147483648 ∧
    (numberVariants 0 overrun).toOption.map (List.map DerivedVariant.number) =
      some [2147483647, -2147483648] := by
  have hderived : ((ofVariants overrun).deriveEnum (.ok ["vc_proto"])).toOption.isSome = true := by
    decide +kernel
  refine ⟨isSome_toOption_iff.1 hderived,
    .cons (asks_variant _ _) (.cons (asks_variant_none _) .nil), rfl, ?_, ?_⟩
  · unfold FitsEnum
    decide
  · decide +kernel

end Declaration

end ProtoSchema.Derive
