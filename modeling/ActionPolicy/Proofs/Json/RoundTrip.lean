import ActionPolicy.Proofs.Json.Scalars

/-!
# Reading written values

A value of which all numbers are integers of 64 bits is read as it was written, on one line or on
several.

## Main definitions

* `Json.Exact` – every number of a value is an integer of 64 bits.
* `Json.Reader.Settles` – a reader has a builder as soon as a word, if there is one, ends.
* `Json.Spells`, `Json.SpellsMember` – wherever a value, or a member of an object, may come,
  characters put it there.

## Main statements

* `Json.Spells.array`, `Json.Spells.object` – containers whose parts are parted by commas, with
  blanks at will.
* `Json.Exact.spells_compactChars`, `Json.Exact.spells_prettyChars` – a value on one line, and one
  over several lines, spells itself.
* `Json.read?_compact`, `Json.read?_pretty` – the text of a value is read as the value.

## Design notes

Nothing tells a reader that a number is complete but the character that follows. So what characters
spell is stated for the reader that has come to their end, and with the word that may be pending
there taken as ended.
-/

namespace ActionPolicy.Json

/-- Every number of a value is an integer of 64 bits. -/
inductive Exact : Json → Prop where
  | null : Exact .null
  | bool (b : Bool) : Exact (.bool b)
  /-- An integer of 64 bits. -/
  | int {n : Int} (h : IsWord64 n) : Exact (.int n)
  | string (s : String) : Exact (.string s)
  | array {items : List Json} (h : ∀ j ∈ items, Exact j) : Exact (.array items)
  | object {members : List (String × Json)} (h : ∀ m ∈ members, Exact m.2) :
    Exact (.object members)

theorem itemsToData_eq_map (items : List Json) : itemsToData items = items.map toDatum := by
  induction items with
  | nil => rfl
  | cons j items ih => rw [itemsToData, ih, List.map_cons]

theorem membersToData_eq_map (members : List (String × Json)) :
    membersToData members = members.map fun m => (.scalar (.text m.1), m.2.toDatum) := by
  induction members with
  | nil => rfl
  | cons m members ih => rw [membersToData, ih, List.map_cons]

theorem Builder.scalar_of_takesValue {b : Builder} (hb : b.takesValue = true) (s : Scalar) :
    b.scalar s = place b.stack (.scalar s) := by
  unfold Builder.scalar
  exact if_pos hb

/-- A character that parts words and tells nothing else. -/
def IsBlank (c : Char) : Prop := c = ' ' ∨ c = '\t' ∨ c = '\n' ∨ c = '\x0d'

theorem mark_plain : ∀ c ∈ ['[', ']', '\x7b', '\x7d', ',', ':'],
    isWordChar c = false ∧ c ≠ '\x22' ∧ ¬IsBlank c := by
  unfold IsBlank
  intro c hc
  simp only [List.mem_cons, List.not_mem_nil, or_false] at hc
  rcases hc with rfl | rfl | rfl | rfl | rfl | rfl <;> exact ⟨rfl, by decide, by decide⟩

theorem IsBlank.plain {c : Char} (hc : IsBlank c) : isWordChar c = false ∧ c ≠ '\x22' := by
  rcases hc with rfl | rfl | rfl | rfl <;> exact ⟨rfl, by decide⟩

namespace Reader

/-- A reader outside of quoted texts has a builder as soon as a word, if there is one, ends. -/
structure Settles (r : Reader) (b : Builder) : Prop where
  /-- The reader is between words or in one. -/
  mode : r.mode = .between ∨ ∃ w, r.mode = .word w
  endWord : r.endWord = some b

variable {r : Reader} {b b' : Builder}

theorem Settles.between (b : Builder) : Settles ⟨.between, b⟩ b := ⟨Or.inl rfl, rfl⟩

theorem Settles.step_eq (h : r.Settles b) (c : Char) :
    r.step (fun _ => false) c = r.outside c := by
  rcases h.mode with hmode | ⟨w, hmode⟩ <;> simp only [step, hmode]

/-- A punctuation mark ends a word. -/
theorem Settles.step_mark (h : r.Settles b) {c : Char}
    (hc : c ∈ ['[', ']', '\x7b', '\x7d', ',', ':']) (hb : b.punctuation c = some b') :
    r.step (fun _ => false) c = some ⟨.between, b'⟩ := by
  obtain ⟨hword, hquote, hblank⟩ := mark_plain c hc
  rw [h.step_eq, outside, hword]
  unfold IsBlank at hblank
  simp [hquote, hblank, h.endWord, hb]

/-- A blank ends a word. -/
theorem Settles.step_blank (h : r.Settles b) {c : Char} (hc : IsBlank c) :
    r.step (fun _ => false) c = some ⟨.between, b⟩ := by
  obtain ⟨hword, hquote⟩ := hc.plain
  rw [h.step_eq, outside, hword]
  unfold IsBlank at hc
  simp [hquote, hc, h.endWord]

theorem feed_blanks {bs : List Char} (hbs : ∀ c ∈ bs, IsBlank c) (b : Builder) :
    feed ⟨.between, b⟩ bs = some ⟨.between, b⟩ := by
  induction bs with
  | nil => rfl
  | cons c bs ih =>
    obtain ⟨hc, hrest⟩ := List.forall_mem_cons.mp hbs
    rw [feed_cons, (Settles.between b).step_blank hc, Option.bind_some, ih hrest]

theorem Settles.feed_blanks (h : r.Settles b) {bs : List Char} (hbs : ∀ c ∈ bs, IsBlank c) :
    ∃ r', feed r bs = some r' ∧ r'.Settles b := by
  cases bs with
  | nil => exact ⟨r, rfl, h⟩
  | cons c bs =>
    obtain ⟨hc, hrest⟩ := List.forall_mem_cons.mp hbs
    exact ⟨⟨.between, b⟩, by rw [feed_cons, h.step_blank hc, Option.bind_some,
      Reader.feed_blanks hrest b], .between b⟩

/-- A text may end behind a complete value. -/
theorem Settles.finish {d : Datum} (h : r.Settles ⟨[], .nothing, some d⟩) :
    r.finish = some d := by
  have hend := h.endWord
  rcases h.mode with hmode | ⟨w, hmode⟩
  · simp only [Reader.endWord, hmode, Option.some.injEq] at hend
    unfold Reader.finish
    rw [hmode, hend]
  · unfold Reader.finish
    rw [hmode, hend]
    rfl

end Reader

open Reader

/-- Wherever a value may come, the characters put the datum there. -/
def Spells (cs : List Char) (d : Datum) : Prop :=
  ∀ b b' : Builder, b.takesValue = true → Builder.place b.stack d = some b' →
    ∃ r, feed ⟨.between, b⟩ cs = some r ∧ r.Settles b'

section Blanks

variable {cs bs : List Char} {d : Datum}

theorem Spells.behind_blanks (h : Spells cs d) (hbs : ∀ c ∈ bs, IsBlank c) :
    Spells (bs ++ cs) d := by
  intro b b' hb hplace
  obtain ⟨r, hr, hsettles⟩ := h b b' hb hplace
  exact ⟨r, by rw [feed_append, feed_blanks hbs, Option.bind_some, hr], hsettles⟩

theorem Spells.before_blanks (h : Spells cs d) (hbs : ∀ c ∈ bs, IsBlank c) :
    Spells (cs ++ bs) d := by
  intro b b' hb hplace
  obtain ⟨r, hr, hsettles⟩ := h b b' hb hplace
  obtain ⟨r', hr', hsettles'⟩ := hsettles.feed_blanks hbs
  exact ⟨r', by rw [feed_append, hr, Option.bind_some, hr'], hsettles'⟩

end Blanks

/-! ### Scalars -/

theorem Spells.word {w : List Char} {s : Scalar} (hw : ∀ c ∈ w, isWordChar c = true)
    (hne : w ≠ []) (hs : wordScalar? w = some s) : Spells w (.scalar s) := by
  intro b b' hb hplace
  refine ⟨_, feed_word hw hne b, Or.inr ⟨_, rfl⟩, ?_⟩
  have hscalar : b.scalar s = some b' := by rw [Builder.scalar_of_takesValue hb, hplace]
  simp [endWord, hs, hscalar]

theorem isWordChar_of_mem_name :
    ∀ w ∈ ["null", "true", "false"], ∀ c ∈ w.toList, isWordChar c = true := by
  simp [isWordChar]

/-- A name stands for a scalar. -/
theorem Spells.name {w : String} {s : Scalar} (hw : w ∈ ["null", "true", "false"])
    (hs : wordScalar? w.toList = some s) : Spells w.toList (.scalar s) := by
  refine .word (isWordChar_of_mem_name w hw) ?_ hs
  intro hnil
  simp only [List.mem_cons, List.not_mem_nil, or_false] at hw
  rcases hw with rfl | rfl | rfl <;> simp at hnil

theorem Spells.quote (s : String) : Spells (quote s.toList) (.scalar (.text s)) := by
  intro b b' hb hplace
  have hscalar : b.scalar (.text s) = some b' := by
    rw [Builder.scalar_of_takesValue hb, hplace]
  exact ⟨_, by rw [feed_quote, hscalar, Option.map_some], .between b'⟩

/-- A mark, what stands behind it, blanks at will, and a mark at the end. -/
theorem feed_bracketed {a z : Char} {b b₀ b₁ b' : Builder} {r : Reader} {cs bs : List Char}
    (ha : a ∈ ['[', ']', '\x7b', '\x7d', ',', ':']) (hz : z ∈ ['[', ']', '\x7b', '\x7d', ',', ':'])
    (hopen : b.punctuation a = some b₀) (hr : feed ⟨.between, b₀⟩ cs = some r)
    (hsettles : r.Settles b₁) (hbs : ∀ c ∈ bs, IsBlank c) (hclose : b₁.punctuation z = some b') :
    feed ⟨.between, b⟩ (a :: (cs ++ bs ++ [z])) = some ⟨.between, b'⟩ := by
  obtain ⟨r', hr', hsettles'⟩ := hsettles.feed_blanks hbs
  rw [feed_cons, (Settles.between b).step_mark ha hopen, Option.bind_some, List.append_assoc,
    feed_append, hr, Option.bind_some, feed_append, hr', Option.bind_some, feed_cons,
    hsettles'.step_mark hz hclose, Option.bind_some, feed_nil]

/-! ### Lists -/

section Lists

variable {write : Json → List Char} {items : List Json}

/-- The items of a list are put into it one after another. -/
theorem feed_items (hne : items ≠ []) (h : ∀ j ∈ items, Spells (write j) j.toDatum)
    (done : List Datum) (rest : List Frame) {b : Builder} (hstack : b.stack = .list done :: rest)
    (hb : b.takesValue = true) :
    ∃ r, feed ⟨.between, b⟩ ([','].intercalate (items.map write)) = some r ∧
      r.Settles ⟨.list ((items.map toDatum).reverse ++ done) :: rest, .delimiter, none⟩ := by
  -- The first item may follow the bracket, every other one follows a comma: `b` stands for both.
  induction items generalizing done b with
  | nil => exact absurd rfl hne
  | cons j items ih =>
    obtain ⟨r, hr, hsettles⟩ := h j List.mem_cons_self b
      ⟨.list (j.toDatum :: done) :: rest, .delimiter, none⟩ hb (by rw [hstack]; rfl)
    cases items with
    | nil => exact ⟨r, by rw [List.map_singleton, List.intercalate_singleton, hr], hsettles⟩
    | cons k items =>
      have hcomma := hsettles.step_mark (c := ',') (by decide) rfl
      obtain ⟨r', hr', hsettles'⟩ := ih (List.cons_ne_nil _ _)
        (fun j' hj' => h j' (List.mem_cons_of_mem _ hj')) (j.toDatum :: done)
        (b := ⟨.list (j.toDatum :: done) :: rest, .value, none⟩) rfl rfl
      refine ⟨r', ?_, ?_⟩
      · rw [List.map_cons, List.map_cons, List.intercalate_cons_cons, List.append_assoc,
          feed_append, hr, Option.bind_some, List.singleton_append, feed_cons, hcomma,
          Option.bind_some]
        exact hr'
      · rw [List.map_cons, List.reverse_cons, List.append_assoc]
        exact hsettles'

/-- A list is spelt by its items with commas between them, and blanks before the bracket at will. -/
theorem Spells.array (h : ∀ j ∈ items, Spells (write j) j.toDatum) {bs : List Char}
    (hbs : ∀ c ∈ bs, IsBlank c) :
    Spells ('[' :: ([','].intercalate (items.map write) ++ bs ++ [']']))
      (toDatum (.array items)) := by
  intro b b' hb hplace
  rw [toDatum, itemsToData_eq_map] at hplace
  have hopen : b.punctuation '[' = some ⟨.list [] :: b.stack, .firstItem, none⟩ := if_pos hb
  -- An empty list is closed where its first item could stand.
  have hclose : ∀ {e : Expectation}, e = .delimiter ∨ e = .firstItem →
      Builder.punctuation ⟨.list (items.map toDatum).reverse :: b.stack, e, none⟩ ']' =
        some b' := by
    intro e he
    simp only [Builder.punctuation, List.reverse_reverse]
    rw [if_pos he, hplace]
  refine ⟨⟨.between, b'⟩, ?_, .between b'⟩
  by_cases hne : items = []
  · subst hne
    exact feed_bracketed (by decide) (by decide) hopen (feed_nil _) (.between _) hbs
      (hclose (Or.inr rfl))
  · obtain ⟨r, hr, hsettles⟩ := feed_items hne h [] b.stack
      (b := ⟨.list [] :: b.stack, .firstItem, none⟩) rfl rfl
    rw [List.append_nil] at hsettles
    exact feed_bracketed (by decide) (by decide) hopen hr hsettles hbs (hclose (Or.inl rfl))

end Lists

/-! ### Objects -/

/-- Wherever a member of an object may come, the characters put the key and the value there. -/
def SpellsMember (cs : List Char) (name : String) (d : Datum) : Prop :=
  ∀ (done : List (Datum × Datum)) (rest : List Frame) (b : Builder), b.stack = .map done :: rest →
    (b.expects = .key ∨ b.expects = .firstKey) →
    ∃ r, feed ⟨.between, b⟩ cs = some r ∧
      r.Settles ⟨.map ((.scalar (.text name), d) :: done) :: rest, .delimiter, none⟩

/-- A member is spelt by its name, a colon and its value. -/
theorem Spells.member {cs : List Char} {d : Datum} (h : Spells cs d) (name : String) :
    SpellsMember (Json.quote name.toList ++ ':' :: cs) name d := by
  intro done rest b hstack hb
  have hvalue : b.takesValue = false := by
    rcases hb with hb | hb <;> simp [Builder.takesValue, hb]
  -- A text is a key here, as no value may come.
  have hkey : b.scalar (.text name) =
      some ⟨.member done (.scalar (.text name)) :: rest, .colon, none⟩ := by
    unfold Builder.scalar
    rw [hvalue, hstack, if_neg Bool.false_ne_true, if_pos hb]
  have hcolon := (Settles.between
    ⟨.member done (.scalar (.text name)) :: rest, .colon, none⟩).step_mark (c := ':')
      (by decide) rfl
  obtain ⟨r, hr, hsettles⟩ := h ⟨.member done (.scalar (.text name)) :: rest, .value, none⟩
    ⟨.map ((.scalar (.text name), d) :: done) :: rest, .delimiter, none⟩ rfl rfl
  refine ⟨r, ?_, hsettles⟩
  rw [feed_append, feed_quote, hkey, Option.map_some, Option.bind_some, feed_cons, hcolon,
    Option.bind_some, hr]

theorem SpellsMember.behind_blanks {cs bs : List Char} {name : String} {d : Datum}
    (h : SpellsMember cs name d) (hbs : ∀ c ∈ bs, IsBlank c) : SpellsMember (bs ++ cs) name d := by
  intro done rest b hstack hb
  obtain ⟨r, hr, hsettles⟩ := h done rest b hstack hb
  exact ⟨r, by rw [feed_append, feed_blanks hbs, Option.bind_some, hr], hsettles⟩

section Objects

variable {write : String × Json → List Char} {members : List (String × Json)}

/-- The members of an object are put into it one after another. -/
theorem feed_members (hne : members ≠ [])
    (h : ∀ m ∈ members, SpellsMember (write m) m.1 m.2.toDatum)
    (done : List (Datum × Datum)) (rest : List Frame) {b : Builder}
    (hstack : b.stack = .map done :: rest) (hb : b.expects = .key ∨ b.expects = .firstKey) :
    ∃ r, feed ⟨.between, b⟩ ([','].intercalate (members.map write)) = some r ∧
      r.Settles ⟨.map ((members.map fun m => (.scalar (.text m.1), m.2.toDatum)).reverse ++ done)
        :: rest, .delimiter, none⟩ := by
  induction members generalizing done b with
  | nil => exact absurd rfl hne
  | cons m members ih =>
    obtain ⟨r, hr, hsettles⟩ := h m List.mem_cons_self done rest b hstack hb
    cases members with
    | nil => exact ⟨r, by rw [List.map_singleton, List.intercalate_singleton, hr], hsettles⟩
    | cons k members =>
      have hcomma := hsettles.step_mark (c := ',') (by decide) rfl
      obtain ⟨r', hr', hsettles'⟩ := ih (List.cons_ne_nil _ _)
        (fun m' hm' => h m' (List.mem_cons_of_mem _ hm'))
        ((.scalar (.text m.1), m.2.toDatum) :: done)
        (b := ⟨.map ((.scalar (.text m.1), m.2.toDatum) :: done) :: rest, .key, none⟩)
        rfl (Or.inl rfl)
      refine ⟨r', ?_, ?_⟩
      · rw [List.map_cons, List.map_cons, List.intercalate_cons_cons, List.append_assoc,
          feed_append, hr, Option.bind_some, List.singleton_append, feed_cons, hcomma,
          Option.bind_some]
        exact hr'
      · rw [List.map_cons, List.reverse_cons, List.append_assoc]
        exact hsettles'

/-- An object is spelt by its members with commas between them, and blanks before the brace at
will. -/
theorem Spells.object (h : ∀ m ∈ members, SpellsMember (write m) m.1 m.2.toDatum) {bs : List Char}
    (hbs : ∀ c ∈ bs, IsBlank c) :
    Spells ('\x7b' :: ([','].intercalate (members.map write) ++ bs ++ ['\x7d']))
      (toDatum (.object members)) := by
  intro b b' hb hplace
  rw [toDatum, membersToData_eq_map] at hplace
  have hopen : b.punctuation '\x7b' = some ⟨.map [] :: b.stack, .firstKey, none⟩ := if_pos hb
  have hclose : ∀ {e : Expectation}, e = .delimiter ∨ e = .firstKey →
      Builder.punctuation ⟨.map (members.map fun m => (.scalar (.text m.1), m.2.toDatum)).reverse ::
        b.stack, e, none⟩ '\x7d' = some b' := by
    intro e he
    simp only [Builder.punctuation, List.reverse_reverse]
    rw [if_pos he, hplace]
  refine ⟨⟨.between, b'⟩, ?_, .between b'⟩
  by_cases hne : members = []
  · subst hne
    exact feed_bracketed (by decide) (by decide) hopen (feed_nil _) (.between _) hbs
      (hclose (Or.inr rfl))
  · obtain ⟨r, hr, hsettles⟩ := feed_members hne h [] b.stack
      (b := ⟨.map [] :: b.stack, .firstKey, none⟩) rfl (Or.inr rfl)
    rw [List.append_nil] at hsettles
    exact feed_bracketed (by decide) (by decide) hopen hr hsettles hbs (hclose (Or.inl rfl))

end Objects

/-! ### Values on one line -/

theorem compactItems_eq (items : List Json) :
    compactItems items = [','].intercalate (items.map compactChars) := by
  induction items with
  | nil => rfl
  | cons j items ih =>
    cases items with
    | nil => rw [compactItems, List.map_singleton, List.intercalate_singleton]
    | cons k items =>
      rw [compactItems, ih]
      · simp only [List.map_cons, List.intercalate_cons_cons, List.append_assoc,
          List.singleton_append]
      · exact List.cons_ne_nil _ _

theorem compactMembers_eq (members : List (String × Json)) :
    compactMembers members =
      [','].intercalate (members.map fun m => quote m.1.toList ++ ':' :: m.2.compactChars) := by
  induction members with
  | nil => rfl
  | cons m members ih =>
    obtain ⟨name, j⟩ := m
    cases members with
    | nil => rw [compactMembers, List.map_singleton, List.intercalate_singleton]
    | cons k members =>
      rw [compactMembers, ih]
      · simp only [List.map_cons, List.intercalate_cons_cons, List.append_assoc,
          List.cons_append, List.nil_append]
      · exact List.cons_ne_nil _ _

theorem isWordChar_of_mem_intText {n : Int} {c : Char} (hc : c ∈ intText n) :
    isWordChar c = true := by
  rcases mem_intText hc with hdigit | rfl
  · have halphanum : c.isAlphanum = true := by simp [Char.isAlphanum, hdigit]
    simp [isWordChar, halphanum]
  · decide

/-- A value on one line spells itself. -/
theorem Exact.spells_compactChars {j : Json} (h : j.Exact) :
    Spells j.compactChars j.toDatum := by
  induction h with
  | null => exact .name (by simp) rfl
  | bool b =>
    cases b with
    | false => exact .name (by simp) rfl
    | true => exact .name (by simp) rfl
  | int hn =>
    have hword := wordScalar?_intText hn
    exact .word (fun _ => isWordChar_of_mem_intText) (intText_ne_nil _) hword
  | string s => exact .quote s
  | array _ ih =>
    have htext := Spells.array ih (fun c (hc : c ∈ []) => absurd hc List.not_mem_nil)
    rwa [List.append_nil, ← compactItems_eq] at htext
  | object _ ih =>
    have htext := Spells.object (fun m hm => Spells.member (ih m hm) m.1)
      (fun c (hc : c ∈ []) => absurd hc List.not_mem_nil)
    rwa [List.append_nil, ← compactMembers_eq] at htext

/-! ### Values over several lines -/

theorem newline_isBlank (level : Nat) : ∀ c ∈ newline level, IsBlank c := by
  intro c hc
  rcases List.mem_cons.mp hc with rfl | hc
  · exact Or.inr (Or.inr (Or.inl rfl))
  · exact Or.inl (List.eq_of_mem_replicate hc)

/-- An item on a line of its own. -/
def prettyItem (level : Nat) (j : Json) : List Char := newline level ++ j.prettyChars level

/-- A member on a line of its own. -/
def prettyMember (level : Nat) (m : String × Json) : List Char :=
  newline level ++ (quote m.1.toList ++ ':' :: ' ' :: m.2.prettyChars level)

theorem prettyItem_append_prettyItems (level : Nat) (j : Json) (items : List Json) :
    prettyItem level j ++ prettyItems level items =
      [','].intercalate ((j :: items).map (prettyItem level)) := by
  induction items generalizing j with
  | nil => rw [prettyItems, List.append_nil, List.map_singleton, List.intercalate_singleton]
  | cons k items ih =>
    rw [List.map_cons, List.map_cons, List.intercalate_cons_cons, ← List.map_cons, ← ih,
      prettyItems]
    simp only [prettyItem, List.append_assoc, List.cons_append, List.nil_append]

theorem prettyMember_append_prettyMembers (level : Nat) (m : String × Json)
    (members : List (String × Json)) :
    prettyMember level m ++ prettyMembers level members =
      [','].intercalate ((m :: members).map (prettyMember level)) := by
  induction members generalizing m with
  | nil => rw [prettyMembers, List.append_nil, List.map_singleton, List.intercalate_singleton]
  | cons k members ih =>
    obtain ⟨name, j⟩ := k
    rw [List.map_cons, List.map_cons, List.intercalate_cons_cons, ← List.map_cons, ← ih,
      prettyMembers]
    simp only [prettyMember, List.append_assoc, List.cons_append, List.nil_append]

/-- A value over several lines spells itself. -/
theorem Exact.spells_prettyChars {j : Json} (h : j.Exact) (level : Nat) :
    Spells (j.prettyChars level) j.toDatum := by
  induction h generalizing level with
  | null => rw [prettyChars]; exact Exact.null.spells_compactChars
  | bool b => rw [prettyChars]; exact (Exact.bool b).spells_compactChars
  | int hn => rw [prettyChars]; exact (Exact.int hn).spells_compactChars
  | string s => rw [prettyChars]; exact (Exact.string s).spells_compactChars
  | @array items _ ih =>
    cases items with
    | nil =>
      rw [prettyChars]
      exact Spells.array (fun j hj => ih j hj level)
        (fun c (hc : c ∈ []) => absurd hc List.not_mem_nil)
    | cons j items =>
      have hitems : ∀ k ∈ j :: items, Spells (prettyItem (level + 1) k) k.toDatum :=
        fun k hk => (ih k hk (level + 1)).behind_blanks (newline_isBlank _)
      have htext := Spells.array hitems (newline_isBlank level)
      rw [← prettyItem_append_prettyItems] at htext
      rwa [prettyChars]
  | @object members _ ih =>
    cases members with
    | nil =>
      rw [prettyChars]
      exact Spells.object (fun m hm => Spells.member (ih m hm level) m.1)
        (fun c (hc : c ∈ []) => absurd hc List.not_mem_nil)
    | cons m members =>
      obtain ⟨name, j⟩ := m
      -- A colon, too, has a blank behind it.
      have hcolon : ∀ c ∈ [' '], IsBlank c := fun c hc => Or.inl (List.mem_singleton.mp hc)
      have hmembers : ∀ m ∈ (name, j) :: members,
          SpellsMember (prettyMember (level + 1) m) m.1 m.2.toDatum :=
        fun m hm => (Spells.member ((ih m hm (level + 1)).behind_blanks hcolon) m.1).behind_blanks
          (newline_isBlank _)
      have htext := Spells.object hmembers (newline_isBlank level)
      rw [← prettyMember_append_prettyMembers] at htext
      rw [prettyChars]
      simpa only [prettyMember, List.append_assoc, List.cons_append] using htext

/-! ### Whole texts -/

/-- A text that spells a value, from its start to its end, is read as the value. -/
theorem read?_of_spells {s : String} {d : Datum} (h : Spells s.toList d) : read? s = some d := by
  obtain ⟨r, hr, hsettles⟩ := h .start _ rfl rfl
  have hfeed : s.toList.foldlM (step fun _ => false) Reader.start = some r := hr
  rw [read?, readStray?, hfeed, Option.bind_some, hsettles.finish]

/-- The text of a value is read as the value. -/
theorem read?_compact {j : Json} (h : j.Exact) : read? j.compact = some j.toDatum :=
  read?_of_spells (by rw [compact, String.toList_ofList]; exact h.spells_compactChars)

/-- The text of a value over several lines is read as the value, also if the last line is ended. -/
theorem read?_pretty {j : Json} (h : j.Exact) : read? (j.pretty ++ "\n") = some j.toDatum := by
  refine read?_of_spells ?_
  rw [String.toList_append, pretty, String.toList_ofList]
  exact (h.spells_prettyChars 0).before_blanks fun c hc =>
    Or.inr (Or.inr (Or.inl (List.mem_singleton.mp hc)))

end ActionPolicy.Json
