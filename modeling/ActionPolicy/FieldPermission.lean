import ActionPolicy.Template

/-!
# Field permissions

What may be done with the fields of a form, and how several grants combine.

## Main definitions

* `FieldAccess` – what may be done with one field.
* `FieldPermission` – a grant: lists of fields, under a code and a priority.
* `FieldPermission.apply` – the access to a field after a grant.
* `FieldPermission.merge?` – several grants as one.
-/

namespace ActionPolicy

/-- What may be done with a field of a form. -/
structure FieldAccess where
  editable : Bool
  visible : Bool
  /-- The field has to be filled in. -/
  required : Bool
  deriving DecidableEq, Repr

namespace FieldAccess

/-- The access to a field that no grant speaks of. -/
def unrestricted : FieldAccess := ⟨true, true, false⟩

instance : Inhabited FieldAccess := ⟨unrestricted⟩

end FieldAccess

/-- The field permissions that apply in a situation. -/
structure FieldPermission where
  /-- Code of the template they come from. -/
  code : String
  priority : Priority
  editable : List String
  /-- Fields that may only be read. -/
  readonly : List String
  hidden : List String
  /-- Fields that have to be filled in. -/
  required : List String
  deriving DecidableEq, Repr, Inhabited

namespace FieldPermission

/-- The access to a field that had the access `base` before. A field listed as editable and
readonly is editable, and one listed as neither stays as it was. Only this grant decides whether
the field is shown, and a field once required stays so. -/
def apply (p : FieldPermission) (field : String) (base : FieldAccess) : FieldAccess :=
  { editable :=
      if p.editable.contains field then true
      else if p.readonly.contains field then false
      else base.editable
    visible := !p.hidden.contains field
    required := base.required || p.required.contains field }

/-- The access to a field under this grant alone. -/
def access (p : FieldPermission) (field : String) : FieldAccess := p.apply field .unrestricted

/-- The fields of a second list that are not there yet, put behind a first one. -/
def extend (fields more : List String) : List String :=
  more.foldl (fun done f => if done.contains f then done else done ++ [f]) fields

/-- Two grants as one: the first one's code, the lower priority, and the fields of both. -/
def join (p q : FieldPermission) : FieldPermission :=
  { code := p.code
    priority := min p.priority q.priority
    editable := extend p.editable q.editable
    readonly := extend p.readonly q.readonly
    hidden := extend p.hidden q.hidden
    required := extend p.required q.required }

/-- Several grants as one; none if there is none. -/
def merge? : List FieldPermission → Option FieldPermission
  | [] => none
  | p :: rest => some (rest.foldl join p)

end FieldPermission

end ActionPolicy
