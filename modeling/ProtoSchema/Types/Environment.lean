import ProtoSchema.Types.Adapters

/-!
# Environments of descriptions

The descriptions that references can lead to, in order of their declaration. Several descriptions
may speak of one type; the first of them is the type's own. A reference leads to a description of
the type it names or to none at all.
-/

set_option autoImplicit false

namespace ProtoSchema

abbrev Environment := List TypeInfo

namespace Environment

/-- The description that a type gives of itself. -/
def own? (env : Environment) (type : TypeId) : Option TypeInfo :=
  env.find? fun i ↦ decide (i.type = type)

end Environment

namespace TypeRef

/-- The description that a reference leads to. -/
def info? (env : Environment) (r : TypeRef) : Option TypeInfo :=
  match r.source with
  | .own => env.own? r.type
  | .described index => env[index]?.filter fun i ↦ decide (i.type = r.type)
  | .builtin => builtinAdapter? r.type
  | .foreign => none

/-- The native path in messages; a type without a description goes by its full name. -/
def path (env : Environment) (r : TypeRef) : String :=
  match r.info? env with
  | some info => info.path
  | none => r.type.name

theorem type_of_info? {env : Environment} {r : TypeRef} {info : TypeInfo}
    (h : r.info? env = some info) : info.type = r.type := by
  unfold info? at h
  split at h
  · have := List.find?_some h
    simpa using this
  · have := (Option.filter_eq_some_iff.1 h).2
    simpa using this
  · have := List.find?_some h
    simpa using this
  · cases h

theorem mem_of_info? {env : Environment} {r : TypeRef} {info : TypeInfo}
    (h : r.info? env = some info) : info ∈ env ++ builtinAdapters := by
  unfold info? at h
  rw [List.mem_append]
  split at h
  · exact .inl (List.mem_of_find?_eq_some h)
  · exact .inl (List.mem_of_getElem? (Option.filter_eq_some_iff.1 h).1)
  · exact .inr (List.mem_of_find?_eq_some h)
  · cases h

end TypeRef

end ProtoSchema
