import ActionPolicy.Json.Reader

/-!
# What JSON can hold

The data of JSON have keys that are texts, and no integer zero with a minus sign. All that is read
from a text is such data, and so is every value.

## Main definitions

* `Datum.IsKey` – a key that can be written in JSON.
* `Datum.OfJson` – data that can be written in JSON.

## Main statements

* `Json.ofJson_of_read?`, `Json.ofJson_of_readStray?` – what is read from a text or from bytes.
* `Json.ofJson_toDatum` – what is taken from a value.
-/

namespace ActionPolicy

namespace Datum

/-- A text, or one with a part that stands for no character. -/
def IsKey (k : Datum) : Prop :=
  (∃ s, k = .scalar (.text s)) ∨ k = .scalar .garbled

/-- Data that can be written in JSON. -/
inductive OfJson : Datum → Prop where
  | scalar {s : Scalar} (hs : s ≠ .negativeZero) : OfJson (.scalar s)
  | list {items : List Datum} (hitems : ∀ d ∈ items, OfJson d) : OfJson (.list items)
  | map {entries : List (Datum × Datum)} (hkeys : ∀ e ∈ entries, e.1.IsKey)
    (hvalues : ∀ e ∈ entries, OfJson e.2) : OfJson (.map entries)

theorem OfJson.isKey {entries : List (Datum × Datum)} (h : (Datum.map entries).OfJson) :
    ∀ e ∈ entries, e.1.IsKey := by
  cases h with
  | map hkeys _ => exact hkeys

theorem OfJson.value {entries : List (Datum × Datum)} (h : (Datum.map entries).OfJson)
    {e : Datum × Datum} (he : e ∈ entries) : e.2.OfJson := by
  cases h with
  | map _ hvalues => exact hvalues e he

end Datum

namespace Json

/-! ### Scalars -/

theorem ne_negativeZero_of_wordScalar? {w : List Char} {s : Scalar} (h : wordScalar? w = some s) :
    s ≠ .negativeZero := by
  rintro rfl
  unfold wordScalar? at h
  split at h
  · simp at h
  split at h
  · simp at h
  split at h
  · simp at h
  obtain ⟨x, -, hx⟩ := Option.map_eq_some_iff.mp h
  cases hv : x.value <;> simp [Numeral.Value.toScalar, hv] at hx

theorem quotedScalar_ne_negativeZero (pieces : List Piece) :
    quotedScalar pieces ≠ .negativeZero := by
  unfold quotedScalar
  split <;> simp

/-! ### Builders -/

/-- What an open container holds so far can be written in JSON. -/
inductive Frame.OfJson : Frame → Prop where
  | list {items : List Datum} (hitems : ∀ d ∈ items, d.OfJson) : OfJson (.list items)
  | map {entries : List (Datum × Datum)} (hkeys : ∀ e ∈ entries, e.1.IsKey)
    (hvalues : ∀ e ∈ entries, e.2.OfJson) : OfJson (.map entries)
  | member {entries : List (Datum × Datum)} {k : Datum} (hkeys : ∀ e ∈ entries, e.1.IsKey)
    (hvalues : ∀ e ∈ entries, e.2.OfJson) (hk : k.IsKey) : OfJson (.member entries k)

namespace Builder

/-- All that has been read so far can be written in JSON. -/
structure OfJson (b : Builder) : Prop where
  stack : ∀ f ∈ b.stack, f.OfJson
  result : ∀ d, b.result = some d → d.OfJson

namespace OfJson

theorem start : Builder.start.OfJson := by
  constructor
  · intro f hf
    cases hf
  · intro d hd
    cases hd

/-- A stack without a complete value. -/
theorem ofStack {stack : List Frame} {e : Expectation} (hstack : ∀ f ∈ stack, f.OfJson) :
    OfJson ⟨stack, e, none⟩ := by
  refine ⟨hstack, ?_⟩
  intro d hd
  cases hd

theorem push {f : Frame} {stack : List Frame} {e : Expectation} (hf : f.OfJson)
    (hstack : ∀ f ∈ stack, f.OfJson) : OfJson ⟨f :: stack, e, none⟩ :=
  ofStack (List.forall_mem_cons.mpr ⟨hf, hstack⟩)

variable {b b' : Builder}

theorem place {stack : List Frame} {d : Datum} (hstack : ∀ f ∈ stack, f.OfJson) (hd : d.OfJson)
    (h : Builder.place stack d = some b) : b.OfJson := by
  unfold Builder.place at h
  split at h
  · obtain rfl := Option.some.inj h
    refine ⟨hstack, ?_⟩
    rintro d' ⟨⟩
    exact hd
  · obtain rfl := Option.some.inj h
    obtain ⟨⟨hitems⟩, hrest⟩ := List.forall_mem_cons.mp hstack
    exact push (.list (List.forall_mem_cons.mpr ⟨hd, hitems⟩)) hrest
  · obtain rfl := Option.some.inj h
    obtain ⟨hframe, hrest⟩ := List.forall_mem_cons.mp hstack
    cases hframe with
    | member hkeys hvalues hk =>
      have hmap : Frame.OfJson (.map ((_, d) :: _)) :=
        .map (List.forall_mem_cons.mpr ⟨hk, hkeys⟩) (List.forall_mem_cons.mpr ⟨hd, hvalues⟩)
      exact push hmap hrest
  · cases h

theorem scalar {s : Scalar} (hb : b.OfJson) (hs : s ≠ .negativeZero)
    (h : b.scalar s = some b') : b'.OfJson := by
  unfold Builder.scalar at h
  split at h
  · exact place hb.stack (.scalar hs) h
  split at h
  · -- A key starts a member of the innermost object.
    have hkey : ∀ {entries rest k}, b.stack = .map entries :: rest → k.IsKey →
        OfJson ⟨.member entries k :: rest, .colon, none⟩ := by
      intro entries rest k hstack hk
      obtain ⟨hframe, hrest⟩ := List.forall_mem_cons.mp (hstack ▸ hb.stack)
      cases hframe with
      | map hkeys hvalues => exact push (.member hkeys hvalues hk) hrest
    split at h
    · rename_i t hstack
      obtain rfl := Option.some.inj h
      exact hkey hstack (Or.inl ⟨t, rfl⟩)
    · rename_i hstack
      obtain rfl := Option.some.inj h
      exact hkey hstack (Or.inr rfl)
    · cases h
  · cases h

theorem punctuation {c : Char} (hb : b.OfJson) (h : b.punctuation c = some b') : b'.OfJson := by
  unfold Builder.punctuation at h
  split at h
  · -- A list is opened.
    split at h
    · obtain rfl := Option.some.inj h
      exact push (.list (by simp)) hb.stack
    · cases h
  · -- An object is opened.
    split at h
    · obtain rfl := Option.some.inj h
      exact push (.map (by simp) (by simp)) hb.stack
    · cases h
  · -- A list is closed.
    split at h
    · rename_i items rest hstack
      obtain ⟨⟨hitems⟩, hrest⟩ := List.forall_mem_cons.mp (hstack ▸ hb.stack)
      split at h
      · exact place hrest (.list (by simpa using hitems)) h
      · cases h
    · cases h
  · -- An object is closed.
    split at h
    · rename_i entries rest hstack
      obtain ⟨hframe, hrest⟩ := List.forall_mem_cons.mp (hstack ▸ hb.stack)
      cases hframe with
      | map hkeys hvalues =>
        split at h
        · exact place hrest (.map (by simpa using hkeys) (by simpa using hvalues)) h
        · cases h
    · cases h
  -- A comma and a colon leave the stack as it is.
  · split at h
    · split at h
      · obtain rfl := Option.some.inj h
        exact ofStack hb.stack
      · cases h
    · split at h
      · obtain rfl := Option.some.inj h
        exact ofStack hb.stack
      · cases h
    · cases h
  · split at h
    · obtain rfl := Option.some.inj h
      exact ofStack hb.stack
    · cases h
  · cases h

end OfJson

end Builder

/-! ### Readers -/

namespace Reader

variable {r r' : Reader} {b : Builder}

theorem ofJson_endWord (hr : r.builder.OfJson) (h : r.endWord = some b) : b.OfJson := by
  unfold endWord at h
  split at h
  · obtain ⟨s, hs, hb⟩ := Option.bind_eq_some_iff.mp h
    exact hr.scalar (ne_negativeZero_of_wordScalar? hs) hb
  · obtain rfl := Option.some.inj h
    exact hr

theorem ofJson_outside {c : Char} (hr : r.builder.OfJson) (h : r.outside c = some r') :
    r'.builder.OfJson := by
  unfold outside at h
  split at h
  · split at h <;> obtain rfl := Option.some.inj h <;> exact hr
  · obtain ⟨b, hword, h⟩ := Option.bind_eq_some_iff.mp h
    have hb := ofJson_endWord hr hword
    split at h
    · obtain rfl := Option.some.inj h
      exact hb
    split at h
    · obtain rfl := Option.some.inj h
      exact hb
    · obtain ⟨b', hb', h⟩ := Option.bind_eq_some_iff.mp h
      obtain rfl := Option.some.inj h
      exact hb.punctuation hb'

theorem ofJson_inside {pieces : List Piece} {stray : Bool} {c : Char} (hr : r.builder.OfJson)
    (h : r.inside pieces stray c = some r') : r'.builder.OfJson := by
  unfold inside at h
  split at h
  · obtain rfl := Option.some.inj h
    exact hr
  split at h
  · obtain ⟨b, hb, h⟩ := Option.bind_eq_some_iff.mp h
    obtain rfl := Option.some.inj h
    exact hr.scalar (quotedScalar_ne_negativeZero _) hb
  split at h
  · obtain rfl := Option.some.inj h
    exact hr
  split at h
  · cases h
  · obtain rfl := Option.some.inj h
    exact hr

theorem ofJson_step {stray : Char → Bool} {c : Char} (hr : r.builder.OfJson)
    (h : r.step stray c = some r') : r'.builder.OfJson := by
  unfold step at h
  split at h
  · exact ofJson_outside hr h
  · exact ofJson_outside hr h
  · exact ofJson_inside hr h
  -- Within an escape the builder waits.
  · split at h
    · obtain rfl := Option.some.inj h
      exact hr
    · obtain ⟨c', -, h⟩ := Option.bind_eq_some_iff.mp h
      obtain rfl := Option.some.inj h
      exact hr
  · obtain ⟨n, -, h⟩ := Option.bind_eq_some_iff.mp h
    split at h <;> obtain rfl := Option.some.inj h <;> exact hr

theorem ofJson_foldlM {stray : Char → Bool} {cs : List Char} (hr : r.builder.OfJson)
    (h : cs.foldlM (step stray) r = some r') : r'.builder.OfJson := by
  induction cs generalizing r with
  | nil =>
    obtain rfl := Option.some.inj h
    exact hr
  | cons c cs ih =>
    obtain ⟨r₁, hstep, hrest⟩ := Option.bind_eq_some_iff.mp h
    exact ih (ofJson_step hr hstep) hrest

theorem ofJson_finish {d : Datum} (hr : r.builder.OfJson) (h : r.finish = some d) :
    d.OfJson := by
  unfold finish at h
  split at h
  · exact hr.result d h
  · obtain ⟨b, hword, hd⟩ := Option.bind_eq_some_iff.mp h
    exact (ofJson_endWord hr hword).result d hd
  · cases h

end Reader

theorem ofJson_of_readStray? {stray : Char → Bool} {cs : List Char} {d : Datum}
    (h : readStray? stray cs = some d) : d.OfJson := by
  obtain ⟨r, hr, hd⟩ := Option.bind_eq_some_iff.mp h
  exact Reader.ofJson_finish (Reader.ofJson_foldlM Builder.OfJson.start hr) hd

theorem ofJson_of_read? {text : String} {d : Datum} (h : read? text = some d) : d.OfJson :=
  ofJson_of_readStray? h

/-! ### Values -/

mutual

theorem ofJson_toDatum : ∀ j : Json, j.toDatum.OfJson
  | .null => .scalar (by simp)
  | .bool _ => .scalar (by simp)
  | .int _ => .scalar (by simp)
  | .float _ => .scalar (by simp)
  | .string _ => .scalar (by simp)
  | .array items => .list (ofJson_itemsToData items)
  | .object members =>
    .map (fun e he => (ofJson_membersToData members e he).1)
      fun e he => (ofJson_membersToData members e he).2

theorem ofJson_itemsToData : ∀ items : List Json, ∀ d ∈ itemsToData items, d.OfJson
  | [] => by simp [itemsToData]
  | j :: items => List.forall_mem_cons.mpr ⟨ofJson_toDatum j, ofJson_itemsToData items⟩

theorem ofJson_membersToData :
    ∀ members : List (String × Json), ∀ e ∈ membersToData members, e.1.IsKey ∧ e.2.OfJson
  | [] => by simp [membersToData]
  | (name, j) :: members =>
    List.forall_mem_cons.mpr
      ⟨⟨Or.inl ⟨name, rfl⟩, ofJson_toDatum j⟩, ofJson_membersToData members⟩

end

end Json

end ActionPolicy
