import Mathlib.Data.List.Perm.Basic
import ProtoSchema.Proofs.Building.WellFormed
import ProtoSchema.Proofs.Schema.Tokens

/-!
# Rendered messages

The body of a message is written in one pass over its fields, which carries the names of the oneofs
that are already written. Whatever the pass has still to write, the members of a oneof that is not
yet written are all still to come, so its block, which takes its members from the whole message,
writes none of them twice. That is the invariant by which every field is written once, and every
block where its first member stands.
-/

set_option autoImplicit false

namespace ProtoSchema

open Text

/-! ## What lines say

A line is read for what it says and not for how it was put together. `Tells` gives for each field
the texts that tell its type, among which is the one that the printer chooses, and a message is well
rendered if its lines are those of items that arrange its fields. -/

/-- A text mentions a type from within a package: by its full name behind a dot, or by what follows
the package in its name. -/
inductive Mentions : (package : Option String) → (text name : String) → Prop
  | absolute (package name : String) : Mentions (some package) ("." ++ name) name
  | relative (package text : String) : Mentions (some package) text (package ++ "." ++ text)
  | unpackaged (name : String) : Mentions none name name

/-- A text tells an element type. -/
inductive ValueType.Tells (package : Option String) : ValueType → String → Prop
  | scalar (s : Scalar) : Tells package (scalar s) s.keyword
  | message {name text : String} (h : Mentions package text name) :
      Tells package (message name) text
  | enum {name text : String} (h : Mentions package text name) : Tells package (enum name) text

/-- A text tells the type of a field and how many values it holds; a member of a oneof holds one at
most and needs no label for that. -/
inductive Field.Tells (package : Option String) (f : Field) : String → Prop
  | map {key : Scalar} {text : String} (hcardinality : f.cardinality = .map)
      (hkey : f.mapKey = some key) (h : f.type.Tells package text) :
      Tells package f ("map<" ++ key.keyword ++ ", " ++ text ++ ">")
  | single {text : String} (hcardinality : f.cardinality ≠ .map) (honeof : f.oneof = none)
      (h : f.type.Tells package text) : Tells package f (f.cardinality.label ++ " " ++ text)
  | member {group text : String} (hcardinality : f.cardinality = .optional)
      (honeof : f.oneof = some group) (h : f.type.Tells package text) : Tells package f text

/-- A line declares a field with its type, name and number, and maybe an option behind them. -/
def Field.IsLine (package : Option String) (indent : String) (f : Field) (line : String) : Prop :=
  ∃ type option, f.Tells package type ∧ (option = "" ∨ ∃ text, option = " [" ++ text ++ "]") ∧
    line = indent ++ (type ++ " " ++ f.name ++ " = " ++ toString f.number ++ option ++ ";")

/-- Lines are a comment for some documentation. -/
inductive IsComment (indent : String) : Option String → List String → Prop
  | none : IsComment indent none []
  | some {docs : String} {body : List String}
      (h : ∀ l ∈ body, (indent ++ " *").toList <+: l.toList ∧ '\n' ∉ l.toList) :
      IsComment indent (some docs) ([indent ++ "/**"] ++ body ++ [indent ++ " */"])

/-- Lines are one field with its documentation. -/
def Field.AreLines (package : Option String) (indent : String) (f : Field) (lines : List String) :
    Prop :=
  ∃ comment line, IsComment indent f.docs comment ∧ f.IsLine package indent line ∧
    lines = comment ++ [line]

/-- What stands in the body of a message: a field, or a oneof with its members. -/
inductive BodyItem where
  | field (f : Field)
  | oneof (group : String) (members : List Field)

namespace BodyItem

def fields : BodyItem → List Field
  | field f => [f]
  | oneof _ members => members

/-- The oneof with its members, if it is one. -/
def oneof? : BodyItem → Option (String × List Field)
  | field _ => none
  | oneof group members => some (group, members)

/-- Lines are one item. -/
def AreLines (package : Option String) : BodyItem → List String → Prop
  | field f, lines => f.AreLines package indentation lines
  | oneof group members, lines => ∃ parts,
      List.Forall₂ (Field.AreLines package (indentation ++ indentation)) members parts ∧
      lines = [indentation ++ "oneof " ++ group ++ " \x7b"] ++ parts.flatten ++
        [indentation ++ "\x7d"]

end BodyItem

namespace MessageType

/-- Lines are a message with some items in its body. -/
def AreLines (package : Option String) (m : MessageType) (items : List BodyItem)
    (lines : List String) : Prop :=
  ∃ comment parts, IsComment "" m.docs comment ∧
    List.Forall₂ (BodyItem.AreLines package) items parts ∧
    lines = comment ++ ["message " ++ m.name ++ " \x7b"] ++ parts.flatten ++ ["\x7d"]

/-- Items arrange the fields of a message. -/
structure Arranges (m : MessageType) (items : List BodyItem) : Prop where
  /-- Every field is in one item, and there once. -/
  fields : (items.flatMap BodyItem.fields).Perm m.fields
  /-- What stands alone belongs to no oneof. -/
  single : ∀ f, .field f ∈ items → f.oneof = none
  /-- The oneofs are those of the message, each once and with its members in declaration order. -/
  oneofs : items.filterMap BodyItem.oneof? =
    m.oneofs.map fun o ↦ (o.name, m.fields.filter (·.oneof == some o.name))
  /-- Every item stands where the first of its fields is declared. -/
  order : (items.filterMap (·.fields.head?)).Sublist m.fields

end MessageType

/-! ## Texts

References are written without what their package shares with the package of the file. Lines of
documentation are comment lines, since a text is split at its line ends first. -/

theorem mentions_referenceText (package : Option String) (name : String) :
    Mentions package (referenceText package name) name := by
  unfold referenceText
  split
  · exact .unpackaged name
  · next package =>
    unfold dropLead?
    split
    · next hlead =>
      obtain ⟨rest, hrest⟩ := List.isPrefixOf_iff_prefix.1 hlead
      have hname : name = package ++ "." ++ String.ofList rest := by
        rw [← String.toList_inj, String.toList_append, String.toList_ofList, hrest]
      have hdrop : name.toList.drop (package ++ ".").length = rest := by
        rw [← hrest, ← String.length_toList, List.drop_left]
      rw [hdrop, Option.getD_some]
      exact hname ▸ .relative package (String.ofList rest)
    · exact .absolute package name

theorem ValueType.tells_text (package : Option String) (type : ValueType) :
    type.Tells package (type.text package) := by
  cases type with
  | scalar s => exact .scalar s
  | message name => exact .message (mentions_referenceText package name)
  | enum name => exact .enum (mentions_referenceText package name)

theorem Field.tells_typeText {package : Option String} {f : Field}
    (hkey : f.cardinality = .map ↔ f.mapKey.isSome = true)
    (honeof : ∀ g, f.oneof = some g → f.cardinality = .optional) :
    f.Tells package (f.typeText package) := by
  have htype := f.type.tells_text package
  unfold typeText
  split
  · next key hsome => exact .map (hkey.2 (by rw [hsome]; rfl)) hsome htype
  · next hnone =>
    cases hg : f.oneof with
    | none =>
      refine .single (fun hmap ↦ ?_) hg htype
      rw [hkey, hnone] at hmap
      cases hmap
    | some group => exact .member (honeof group hg) hg htype

theorem Field.isLine_declaration {package : Option String} {indent : String} {f : Field}
    (htype : f.Tells package (f.typeText package)) :
    f.IsLine package indent (indent ++ f.declaration package) := by
  refine ⟨f.typeText package, f.optionText, htype, ?_, rfl⟩
  unfold optionText
  split
  · next d _ => exact .inr ⟨"default = " ++ d.literal, by simp [← String.append_assoc]⟩
  · split
    · exact .inr ⟨"packed = true", rfl⟩
    · exact .inl rfl

theorem not_mem_of_mem_splitAt {separator : Char} {text part : List Char}
    (h : part ∈ splitAt separator text) : separator ∉ part := by
  induction text generalizing part with
  | nil =>
    obtain rfl := List.mem_singleton.1 h
    exact List.not_mem_nil
  | cons c rest ih =>
    obtain ⟨first, others, hsplit, -, -⟩ := splitAt_pieces separator rest
    rw [splitAt, hsplit] at h
    rw [hsplit] at ih
    by_cases hc : c = separator
    · rw [if_pos hc] at h
      rcases List.mem_cons.1 h with rfl | h
      · exact List.not_mem_nil
      · exact ih h
    · rw [if_neg hc] at h
      rcases List.mem_cons.1 h with rfl | h
      · exact List.not_mem_cons_of_ne_of_not_mem (Ne.symm hc) (ih List.mem_cons_self)
      · exact ih (List.mem_cons_of_mem first h)

theorem not_mem_of_mem_lines {text line : List Char} (h : line ∈ lines text) : '\n' ∉ line := by
  have hpart : line ∈ splitAt '\n' text := by
    unfold lines at h
    dsimp only at h
    split at h
    · exact List.mem_of_mem_dropLast h
    · exact h
  exact not_mem_of_mem_splitAt hpart

theorem isComment_docLines {indent : String} (hindent : '\n' ∉ indent.toList)
    (docs : Option String) : IsComment indent docs (docLines indent docs) := by
  cases docs with
  | none => exact .none
  | some d =>
    rw [docLines_some]
    refine .some fun l hl ↦ ?_
    obtain ⟨line, hline, rfl⟩ := List.mem_map.1 hl
    have htrimmed : '\n' ∉ trimEnd line :=
      fun h ↦ not_mem_of_mem_lines hline ((trimEnd_isPrefix line).subset h)
    rcases toList_docLine indent line with heq | heq <;>
      rw [heq, String.toList_append]
    · exact ⟨List.prefix_refl _, by simp [hindent]⟩
    · refine ⟨⟨' ' :: trimEnd line, by simp⟩, by simp [hindent, htrimmed]⟩

/-! ## Items

The items are what the pass writes, before it becomes lines. By the invariant `Pending`, a block
that is written takes nothing from the items before it, and leaves nothing of its oneof to the items
behind it. -/

/-- The lines of an item. -/
def BodyItem.lines (package : Option String) : BodyItem → List String
  | field f => f.lines package indentation
  | oneof group members => oneofLines package group members

/-- The items of the fields from `rest` on, where `written` holds the oneofs already written. -/
def bodyItems (all : List Field) : (written : List String) → (rest : List Field) → List BodyItem
  | _, [] => []
  | written, f :: rest =>
    match f.oneof with
    | none => .field f :: bodyItems all written rest
    | some group =>
      if written.contains group then bodyItems all written rest
      else
        .oneof group (all.filter fun m ↦ m.oneof == some group)
          :: bodyItems all (group :: written) rest

section

variable {all rest : List Field} {written : List String} {f : Field} {group : String}

theorem bodyLines_eq (package : Option String) (all : List Field) (written : List String)
    (rest : List Field) : MessageType.bodyLines package all written rest =
      (bodyItems all written rest).flatMap (·.lines package) := by
  fun_induction bodyItems all written rest with
  | case1 written => rfl
  | case2 written f rest hnone ih =>
    rw [MessageType.bodyLines, hnone, List.flatMap_cons, ← ih]
    rfl
  | case3 written f rest group hgroup hwritten ih =>
    rw [MessageType.bodyLines, hgroup, ← ih]
    exact if_pos hwritten
  | case4 written f rest group hgroup hwritten ih =>
    rw [MessageType.bodyLines, hgroup, List.flatMap_cons, ← ih]
    exact if_neg hwritten

theorem oneof_of_mem_bodyItems (h : .field f ∈ bodyItems all written rest) : f.oneof = none := by
  fun_induction bodyItems all written rest with
  | case1 written => cases h
  | case2 written f' rest hnone ih =>
    rcases List.mem_cons.1 h with heq | h
    · cases heq
      exact hnone
    · exact ih h
  | case3 written f' rest group hgroup hwritten ih => exact ih h
  | case4 written f' rest group hgroup hwritten ih =>
    rcases List.mem_cons.1 h with heq | h
    · cases heq
    · exact ih h

theorem oneofs_bodyItems (all : List Field) (written : List String) (rest : List Field) :
    (bodyItems all written rest).filterMap BodyItem.oneof? =
      ((groupNames rest).filter fun g ↦ !written.contains g).map fun g ↦
        (g, all.filter fun m ↦ m.oneof == some g) := by
  fun_induction bodyItems all written rest with
  | case1 written => rfl
  | case2 written f rest hnone ih =>
    rw [groupNames, hnone]
    exact ih
  | case3 written f rest group hgroup hwritten ih =>
    rw [groupNames, hgroup, ih, List.filter_cons_of_neg (by simpa using hwritten),
      List.filter_filter]
    congr 1
    refine List.filter_congr fun g _ ↦ ?_
    by_cases hg : g = group
    · simp only [hg, hwritten, Bool.not_true, Bool.false_and]
    · simp [hg]
  | case4 written f rest group hgroup hwritten ih =>
    rw [groupNames, hgroup, List.filter_cons_of_pos (by simpa using hwritten), List.map_cons,
      List.filter_filter]
    refine congrArg (List.cons _) (ih.trans ?_)
    congr 1
    refine List.filter_congr fun g _ ↦ ?_
    by_cases hg : g = group <;> simp [hg]

/-- What the pass relies on: the members of a oneof that is not yet written are all to come. -/
def Pending (all : List Field) (written : List String) (rest : List Field) : Prop :=
  ∀ group, group ∉ written →
    (all.filter fun m ↦ m.oneof == some group) = rest.filter fun m ↦ m.oneof == some group

namespace Pending

/-- Behind a field that is written for itself, or whose oneof is. -/
theorem tail (h : Pending all written (f :: rest))
    (hf : ∀ group, f.oneof = some group → group ∈ written) : Pending all written rest := by
  intro group hgroup
  have hne : ¬(f.oneof == some group) = true := by
    rw [beq_iff_eq]
    exact fun heq ↦ hgroup (hf group heq)
  rw [h group hgroup]
  exact List.filter_cons_of_neg hne

theorem tail_of_mem (h : Pending all written (f :: rest)) (hgroup : f.oneof = some group)
    (hmem : group ∈ written) : Pending all written rest := by
  refine h.tail fun g hg ↦ ?_
  cases hgroup.symm.trans hg
  exact hmem

theorem write (h : Pending all written rest) (group : String) :
    Pending all (group :: written) rest :=
  fun g hg ↦ h g (List.not_mem_of_not_mem_cons hg)

end Pending

/-- Every item stands where the first of its fields is declared. -/
theorem order_bodyItems (h : Pending all written rest) :
    ((bodyItems all written rest).filterMap (·.fields.head?)).Sublist rest := by
  fun_induction bodyItems all written rest with
  | case1 written => exact .slnil
  | case2 written f rest hnone ih =>
    exact (ih (h.tail fun g hg ↦ by cases hnone.symm.trans hg)).cons_cons f
  | case3 written f rest group hgroup hwritten ih =>
    exact (ih (h.tail_of_mem hgroup (by simpa using hwritten))).cons f
  | case4 written f rest group hgroup hwritten ih =>
    have hmembers := h group (by simpa using hwritten)
    rw [List.filter_cons_of_pos (by simp [hgroup])] at hmembers
    rw [hmembers]
    exact (ih ((h.write group).tail_of_mem hgroup List.mem_cons_self)).cons_cons f

theorem fields_bodyItems (h : Pending all written rest) :
    ((bodyItems all written rest).flatMap BodyItem.fields).Perm
      (rest.filter fun f ↦ !f.oneof.any written.contains) := by
  fun_induction bodyItems all written rest with
  | case1 written => exact .nil
  | case2 written f rest hnone ih =>
    rw [List.filter_cons_of_pos (by simp [hnone])]
    exact (ih (h.tail fun g hg ↦ by cases hnone.symm.trans hg)).cons f
  | case3 written f rest group hgroup hwritten ih =>
    rw [List.filter_cons_of_neg (by simpa [hgroup] using hwritten)]
    exact ih (h.tail_of_mem hgroup (by simpa using hwritten))
  | case4 written f rest group hgroup hwritten ih =>
    -- What is left to come are the members of this oneof and the fields that come after it.
    have hfree : group ∉ written := by simpa using hwritten
    have hrest := ih ((h.write group).tail_of_mem hgroup List.mem_cons_self)
    have hothers : (rest.filter fun m ↦ !m.oneof.any (group :: written).contains) =
        ((f :: rest).filter fun m ↦ !m.oneof.any written.contains).filter
          fun m ↦ !(m.oneof == some group) := by
      rw [List.filter_filter, List.filter_cons_of_neg (by simp [hgroup])]
      refine List.filter_congr fun m _ ↦ ?_
      cases m.oneof with
      | none => rfl
      | some g => by_cases hg : g = group <;> simp [hg]
    have hmembers : ((f :: rest).filter fun m ↦ m.oneof == some group) =
        ((f :: rest).filter fun m ↦ !m.oneof.any written.contains).filter
          fun m ↦ m.oneof == some group := by
      rw [List.filter_filter]
      refine List.filter_congr fun m _ ↦ ?_
      by_cases hm : m.oneof = some group
      · simp [hm, hfree]
      · simp [hm]
    rw [List.flatMap_cons, BodyItem.fields, h group hfree, hmembers]
    refine .trans (.append_left _ (hothers ▸ hrest)) ?_
    exact List.filter_append_perm _ _

end

theorem MessageType.arranges_bodyItems {m : MessageType}
    (honeofs : m.oneofs = groupFields m.fields) :
    m.Arranges (bodyItems m.fields [] m.fields) where
  fields := by
    have hpending : Pending m.fields [] m.fields := fun _ _ ↦ rfl
    have hall := fields_bodyItems hpending
    rwa [List.filter_eq_self.2 fun f _ ↦ by cases f.oneof <;> rfl] at hall
  single f hf := oneof_of_mem_bodyItems hf
  oneofs := by
    have hall : ((groupNames m.fields).filter fun g ↦ !([] : List String).contains g) =
        groupNames m.fields := List.filter_eq_self.2 fun _ _ ↦ rfl
    rw [oneofs_bodyItems, hall, honeofs, groupFields, List.map_map]
    rfl
  order := order_bodyItems fun _ _ ↦ rfl

/-! ## Built messages

The oneofs of a built message are those that its fields name, each with its members in the order of
the fields. This is all that the printer takes for granted. -/

section

variable {package : Option String}

theorem Field.areLines_lines {indent : String} {f : Field} (hindent : '\n' ∉ indent.toList)
    (htype : f.Tells package (f.typeText package)) :
    f.AreLines package indent (f.lines package indent) :=
  ⟨_, _, isComment_docLines hindent f.docs, isLine_declaration htype, rfl⟩

theorem BodyItem.areLines_lines {item : BodyItem}
    (htype : ∀ f ∈ item.fields, f.Tells package (f.typeText package)) :
    item.AreLines package (item.lines package) := by
  cases item with
  | field f => exact f.areLines_lines (by decide) (htype f List.mem_cons_self)
  | oneof group members =>
    refine ⟨members.map (·.lines package (indentation ++ indentation)), ?_, ?_⟩
    · rw [List.forall₂_map_right_iff, List.forall₂_same]
      exact fun f hf ↦ f.areLines_lines (by decide) (htype f hf)
    · rw [← List.flatMap_def]
      rfl

theorem MessageType.areLines_lines {m : MessageType} {items : List BodyItem}
    (hbody : bodyLines package m.fields [] m.fields = items.flatMap (·.lines package))
    (hfields : (items.flatMap BodyItem.fields).Perm m.fields)
    (htype : ∀ f ∈ m.fields, f.Tells package (f.typeText package)) :
    m.AreLines package items (m.lines package) := by
  refine ⟨_, items.map (·.lines package), isComment_docLines (by decide) m.docs, ?_, ?_⟩
  · rw [List.forall₂_map_right_iff, List.forall₂_same]
    exact fun item hitem ↦ item.areLines_lines fun f hf ↦
      htype f (hfields.subset (List.mem_flatMap.2 ⟨item, hitem, hf⟩))
  · rw [← List.flatMap_def, ← hbody]
    rfl

end

theorem oneofs_of_buildMessage {env : Environment} {resolve : Resolver} {info : TypeInfo}
    {message : MessageInfo} {name : String} {b : BuiltMessage}
    (h : buildMessage env resolve info message name = .ok b) :
    b.descriptor.oneofs = groupFields b.descriptor.fields := by
  obtain ⟨-, declared, -, -, -, rfl⟩ := buildMessage_eq_ok.1 h
  rfl

/-- **Rendering neither loses nor repeats a field.** A built message is written as items that
arrange its fields: every field has one line, alone or in the one block of its oneof, which has its
members in declaration order, and the items follow the declaration order of their first fields. -/
theorem rendering_of_build {env : Environment} {resolve : Resolver} {ref : TypeRef}
    {b : BuiltMessage} (h : (build env resolve ref).result = .ok (.message b))
    (package : Option String) : ∃ items, b.descriptor.Arranges items ∧
      b.descriptor.AreLines package items (b.descriptor.lines package) := by
  obtain ⟨info, hinfo, hwellFormed⟩ := wellFormed_of_build h
  have honeofs : b.descriptor.oneofs = groupFields b.descriptor.fields := by
    obtain ⟨resolved, -, ⟨message, b', -, heq, hb⟩ | ⟨variants, e, -, heq, -⟩⟩ :=
      build_eq_ok hinfo h
    · cases heq
      exact oneofs_of_buildMessage hb
    · cases heq
  have htype : ∀ f ∈ b.descriptor.fields, f.Tells package (f.typeText package) := by
    intro f hf
    obtain ⟨binding, -, owner, m, -, hm⟩ := exists_of_forall₂_left hwellFormed.fields hf
    exact f.tells_typeText hm.mapKey.1 fun g hg ↦ (hm.oneof.2 g hg).2.1
  have harranges := MessageType.arranges_bodyItems honeofs
  exact ⟨_, harranges,
    MessageType.areLines_lines (bodyLines_eq package _ _ _) harranges.fields htype⟩

namespace Parade

def parade : TypeId := ⟨"parade::Parade"⟩

/-- The members of two oneofs are declared in turn. -/
def environment : Environment :=
  [.storing parade
    [({ name := "wagon", kind := .field (.optional (.scalar .int32)), getter := ·
        number := some 1, oneof := some "front" }),
      ({ name := "band", kind := .field (.map (.scalar .string) (.scalar .bool)), getter := ·
         number := some 2 }),
      ({ name := "horse", kind := .field (.optional (.scalar .string)), getter := ·
         number := some 3, oneof := some "back" }),
      ({ name := "clown", kind := .field (.optional (.message (.of parade))), getter := ·
         number := some 4, oneof := some "front", docs := some "On stilts." }),
      ({ name := "flag", kind := .field (.scalar .int32), getter := ·
         number := some 5, default := some (.int 7) }),
      ({ name := "broom", kind := .field (.optional (.scalar .bool)), getter := ·
         number := some 6, oneof := some "back" })]]

def resolve : Resolver := fun _ ↦ some ⟨"fair.Parade", .message⟩

def lines : List String :=
  ["message Parade \x7b",
    "    oneof front \x7b",
    "        int32 wagon = 1;",
    "        /**",
    "         * On stilts.",
    "         */",
    "        Parade clown = 4;",
    "    \x7d",
    "    map<string, bool> band = 2;",
    "    oneof back \x7b",
    "        string horse = 3;",
    "        bool broom = 6;",
    "    \x7d",
    "    optional int32 flag = 5 [default = 7];",
    "\x7d"]

end Parade

/-- Every oneof is gathered where its first member stands. -/
theorem Parade.rendering_of_build_parade : ∃ b items,
    (build environment resolve (.of parade)).result = .ok (.message b) ∧
    b.descriptor.lines (some "fair") = lines ∧
    b.descriptor.Arranges items ∧
    b.descriptor.AreLines (some "fair") items (b.descriptor.lines (some "fair")) := by
  have hbuilds : ((build environment resolve (.of parade)).result.toOption.bind
      Built.message?).map (·.descriptor.lines (some "fair")) = some lines := by
    decide +kernel
  obtain ⟨b, hb, hlines⟩ := exists_of_message? hbuilds
  obtain ⟨items, harranges, hare⟩ := rendering_of_build hb (some "fair")
  exact ⟨b, items, hb, hlines, harranges, hare⟩

end ProtoSchema
