import ActionPolicy.Document.Fault

/-!
# Results of reading

A part of a document can be a reference to another part, and the same part can be read through many
references. So reading counts the references it follows, also where it fails, and a document that
asks for too many of them is refused.

## Main definitions

* `Decoded` – a value or an error, with the number of references followed to get it.
* `Decoded.followOne` – a reference is followed.
* `Decoded.limited` – the result, if only so many references may be followed.

## Main statements

* `Decoded.result_bind`, `Decoded.result_map` – what is read does not depend on the count.
-/

namespace ActionPolicy

/-- The result of reading a part of a document. -/
structure Decoded (α : Type) where
  /-- How many references were followed up to the end or the first error. -/
  followed : Nat
  /-- What was read, or why nothing was. -/
  result : Except DecodeError α

namespace Decoded

variable {α β : Type}

/-- A result for which no reference was followed. -/
def ofExcept (r : Except DecodeError α) : Decoded α := ⟨0, r⟩

/-- Goes on with what was read. -/
def bind (x : Decoded α) (f : α → Decoded β) : Decoded β :=
  match x.result with
  | .ok a =>
    let y := f a
    ⟨x.followed + y.followed, y.result⟩
  | .error e => ⟨x.followed, .error e⟩

instance : Monad Decoded where
  pure a := ofExcept (.ok a)
  bind := bind

instance : MonadLift (Except DecodeError) Decoded := ⟨ofExcept⟩

/-- Changes the error, if there is one. -/
def mapError (f : DecodeError → DecodeError) (x : Decoded α) : Decoded α :=
  { x with result := x.result.mapError f }

/-- The same result after so many more references. -/
def after (n : Nat) (x : Decoded α) : Decoded α := { x with followed := n + x.followed }

instance : MonadExceptOf DecodeError Decoded where
  throw e := ofExcept (.error e)
  tryCatch x recover :=
    match x.result with
    | .ok _ => x
    | .error e => (recover e).after x.followed

/-- A reference is followed. -/
def followOne : Decoded Unit := ⟨1, .ok ()⟩

/-- The result, unless more references than allowed were followed on the way to it. -/
def limited (limit : Nat) (excess : DecodeError) (x : Decoded α) : Except DecodeError α :=
  if limit < x.followed then .error excess else x.result

@[simp] theorem result_ofExcept (r : Except DecodeError α) : (ofExcept r).result = r := rfl

@[simp] theorem followed_ofExcept (r : Except DecodeError α) : (ofExcept r).followed = 0 := rfl

@[simp] theorem result_pure (a : α) : (pure a : Decoded α).result = .ok a := rfl

@[simp] theorem result_mapError (f : DecodeError → DecodeError) (x : Decoded α) :
    (x.mapError f).result = x.result.mapError f := rfl

@[simp] theorem result_after (n : Nat) (x : Decoded α) : (x.after n).result = x.result := rfl

/-- The count has no influence on what is read next. -/
@[simp] theorem result_bind (x : Decoded α) (f : α → Decoded β) :
    (x >>= f).result = x.result >>= fun a => (f a).result := by
  obtain ⟨n, r⟩ := x
  cases r <;> rfl

instance : LawfulMonad Decoded := LawfulMonad.mk' Decoded
  (by
    intro α x
    obtain ⟨n, r⟩ := x
    cases r <;> rfl)
  (by
    intro α β a f
    show bind (ofExcept (.ok a)) f = f a
    simp [bind, ofExcept])
  (by
    intro α β γ x f g
    show bind (bind x f) g = bind x fun a => bind (f a) g
    obtain ⟨n, r⟩ := x
    cases r with
    | error e => rfl
    | ok a =>
      simp only [bind]
      cases (f a).result <;> simp [Nat.add_assoc])

@[simp] theorem result_map (f : α → β) (x : Decoded α) : (f <$> x).result = f <$> x.result := by
  rw [← bind_pure_comp, result_bind]
  cases x.result <;> rfl

end Decoded

end ActionPolicy
