import ActionPolicy.Json.Reader
import ActionPolicy.Json.Text

/-!
# Reading written scalars

A reader that goes through a written scalar has it at the end: an integer of 64 bits and a quoted
text come back as they were.

## Main definitions

* `Json.Reader.feed` – a reader that goes through characters, none of which is a stand-in.
* `Json.IsWord64` – an integer that 64 bits hold, with or without a sign.

## Main statements

* `Json.wordScalar?_intText` – an integer of 64 bits is read as itself.
* `Json.Reader.feed_word`, `Json.Reader.feed_quote` – where a reader is after a scalar.
-/

namespace ActionPolicy.Json

/-! ### Integers -/

/-- An integer that 64 bits hold, with or without a sign. -/
def IsWord64 (n : Int) : Prop :=
  -((Numeral.maxWord / 2 + 1 : Nat) : Int) ≤ n ∧ n ≤ (Numeral.maxWord : Int)

instance (n : Int) : Decidable (IsWord64 n) := inferInstanceAs (Decidable (_ ∧ _))

namespace Numeral

theorem digit?_of_isDigit {c : Char} (h : c.isDigit = true) :
    digit? c = some (c.toNat - '0'.toNat) := by
  have hc : '0' ≤ c ∧ c ≤ '9' := by simpa [Char.isDigit, Char.le_def] using h
  exact if_pos hc

theorem digits_of_isDigit {ds : List Char} (h : ∀ c ∈ ds, c.isDigit = true) :
    digits ds = (ds.map fun c => c.toNat - '0'.toNat, []) := by
  induction ds with
  | nil => rfl
  | cons c ds ih =>
    have hc := digit?_of_isDigit (h c (by simp))
    have hds := ih fun c' hc' => h c' (by simp [hc'])
    simp [digits, hc, hds]

theorem ofDigits_toDigits (n : Nat) :
    ofDigits ((Nat.toDigits 10 n).map fun c => c.toNat - '0'.toNat) = n := by
  -- Both folds start from the number read so far.
  have h : ∀ (ds : List Char) (m : Nat),
      (ds.map fun c => c.toNat - '0'.toNat).foldl (fun m d => m * 10 + d) m =
        Nat.ofDigitChars 10 ds m := by
    intro ds
    induction ds with
    | nil => intro m; rfl
    | cons c ds ih =>
      intro m
      rw [List.map_cons, List.foldl_cons, Nat.ofDigitChars_cons, ih, Nat.mul_comm m 10]
  rw [ofDigits, h]
  exact Nat.ofDigitChars_ten_toDigits

/-- A positive number is not written with a zero in front. -/
theorem head?_toDigits_ne_zero {n : Nat} (hn : 0 < n) : (Nat.toDigits 10 n).head? ≠ some '0' := by
  induction n using Nat.strongRecOn with
  | ind n ih =>
    by_cases h : n < 10
    · rw [Nat.toDigits_of_lt_base h]
      intro h0
      have hzero : n = 0 := Nat.digitChar_eq_zero.mp (by simpa using h0)
      omega
    · -- The first digit is that of the number without its last digit.
      have hten : 10 ≤ n := by omega
      rw [Nat.toDigits_of_base_le (by decide) hten, List.head?_append,
        Option.or_of_isSome (by simp [Nat.toDigits_ne_nil])]
      exact ih (n / 10) (by omega) (by omega)

theorem digits_toDigits (n : Nat) :
    digits (Nat.toDigits 10 n) = ((Nat.toDigits 10 n).map fun c => c.toNat - '0'.toNat, []) :=
  digits_of_isDigit fun _ hc => Nat.isDigit_of_mem_toDigits (by decide) (by decide) hc

/-- The digits of a number do not start with a superfluous zero. -/
theorem exists_toDigits_eq (n : Nat) :
    ∃ d ds, ((Nat.toDigits 10 n).map fun c => c.toNat - '0'.toNat) = d :: ds ∧
      (d = 0 → ds = []) := by
  rcases Nat.lt_or_ge n 10 with hn | hn
  · exact ⟨_, [], by rw [Nat.toDigits_of_lt_base hn]; rfl, fun _ => rfl⟩
  · have hhead := head?_toDigits_ne_zero (Nat.lt_of_lt_of_le (by decide) hn)
    cases hcs : Nat.toDigits 10 n with
    | nil => exact absurd hcs Nat.toDigits_ne_nil
    | cons c cs =>
      refine ⟨_, _, rfl, fun h0 => ?_⟩
      have hc : c.isDigit = true :=
        Nat.isDigit_of_mem_toDigits (by decide) (by decide) (hcs ▸ List.mem_cons_self)
      have hle : '0' ≤ c ∧ c ≤ '9' := by simpa [Char.isDigit, Char.le_def] using hc
      have hc0 : c = '0' := by
        refine Char.le_antisymm ?_ hle.1
        exact Char.le_def.mpr (UInt32.le_iff_toNat_le.mpr (Nat.le_of_sub_eq_zero h0))
      rw [hcs, hc0] at hhead
      exact absurd rfl hhead

/-- The parts of a number that consists of a sign, if need be, and a whole part. -/
theorem ofChars?_of_digits {cs rest : List Char} {negative : Bool} {d : Nat} {ds : List Nat}
    (hsign : (match cs with
      | '-' :: rest => (true, rest)
      | _ => (false, cs)) = (negative, rest))
    (hdigits : digits rest = (d :: ds, [])) (hzero : d = 0 → ds = []) :
    ofChars? cs = some ⟨negative, d :: ds, [], none⟩ := by
  unfold ofChars?
  split
  rename_i negative' rest' hsign'
  have hparts : (negative', rest') = (negative, rest) := hsign'.symm.trans hsign
  obtain ⟨rfl, rfl⟩ := Prod.mk.inj hparts
  rw [hdigits]
  cases d with
  | zero => rw [hzero rfl]; rfl
  | succ d => rfl

/-- The digits of a number are read as the number without a sign. -/
theorem ofChars?_toDigits (n : Nat) :
    ofChars? (Nat.toDigits 10 n) =
      some ⟨false, (Nat.toDigits 10 n).map fun c => c.toNat - '0'.toNat, [], none⟩ := by
  obtain ⟨d, ds, hds, hzero⟩ := exists_toDigits_eq n
  have hdigits := digits_toDigits n
  rw [hds] at hdigits ⊢
  refine ofChars?_of_digits ?_ hdigits hzero
  -- A digit is no minus sign.
  split
  · rename_i rest heq
    have hminus : '-'.isDigit = true :=
      Nat.isDigit_of_mem_toDigits (b := 10) (n := n) (by decide) (by decide)
        (heq ▸ List.mem_cons_self)
    exact absurd hminus (by decide)
  · rfl

/-- The same digits after a minus sign are read as the number with a sign. -/
theorem ofChars?_minus_toDigits (n : Nat) :
    ofChars? ('-' :: Nat.toDigits 10 n) =
      some ⟨true, (Nat.toDigits 10 n).map fun c => c.toNat - '0'.toNat, [], none⟩ := by
  obtain ⟨d, ds, hds, hzero⟩ := exists_toDigits_eq n
  have hdigits := digits_toDigits n
  rw [hds] at hdigits ⊢
  exact ofChars?_of_digits rfl hdigits hzero

end Numeral

theorem mem_intText {n : Int} {c : Char} (h : c ∈ intText n) : c.isDigit = true ∨ c = '-' := by
  have hdigits : ∀ {c}, c ∈ Nat.toDigits 10 n.natAbs → c.isDigit = true := fun hc =>
    Nat.isDigit_of_mem_toDigits (by decide) (by decide) hc
  unfold intText at h
  split at h
  · rcases List.mem_cons.mp h with h | h
    · exact Or.inr h
    · exact Or.inl (hdigits h)
  · exact Or.inl (hdigits h)

theorem intText_ne_nil (n : Int) : intText n ≠ [] := by
  unfold intText
  split
  · exact List.cons_ne_nil _ _
  · exact Nat.toDigits_ne_nil

/-- A word that is none of the three names is a number. -/
theorem wordScalar?_of_ofChars? {w : List Char} {x : Numeral} (hx : Numeral.ofChars? w = some x)
    (hw : ∀ c ∈ w, c.isDigit = true ∨ c = '-') : wordScalar? w = some x.value.toScalar := by
  -- Every name has a letter, and a number has none.
  have hnot : ∀ {name : List Char} {c : Char}, c ∈ name → ¬(c.isDigit = true ∨ c = '-') →
      w ≠ name := fun hc hletter heq => hletter (hw _ (heq ▸ hc))
  unfold wordScalar?
  rw [if_neg (hnot (c := 'n') (by simp) (by decide)),
    if_neg (hnot (c := 't') (by simp) (by decide)),
    if_neg (hnot (c := 'f') (by simp) (by decide)), hx]
  rfl

/-- An integer of 64 bits is read as itself. -/
theorem wordScalar?_intText {n : Int} (hn : IsWord64 n) :
    wordScalar? (intText n) = some (.int n) := by
  have hmem : ∀ c ∈ intText n, c.isDigit = true ∨ c = '-' := fun _ => mem_intText
  obtain ⟨hlow, hhigh⟩ := hn
  -- The two signs have bounds of their own.
  by_cases hneg : n < 0
  · have htext : intText n = '-' :: Nat.toDigits 10 n.natAbs := if_pos hneg
    have hvalue := Numeral.ofDigits_toDigits n.natAbs
    rw [htext] at hmem ⊢
    rw [wordScalar?_of_ofChars? (Numeral.ofChars?_minus_toDigits _) hmem]
    have hfits : n.natAbs ≤ Numeral.maxWord / 2 + 1 ∧ n.natAbs ≠ 0 := by omega
    simp only [Numeral.value, hvalue]
    rw [if_neg (by simp), if_pos trivial, if_pos hfits]
    show some (Scalar.int (-(n.natAbs : Int))) = _
    rw [show (-(n.natAbs : Int)) = n by omega]
  · have htext : intText n = Nat.toDigits 10 n.natAbs := if_neg hneg
    have hvalue := Numeral.ofDigits_toDigits n.natAbs
    rw [htext] at hmem ⊢
    rw [wordScalar?_of_ofChars? (Numeral.ofChars?_toDigits _) hmem]
    have hfits : n.natAbs ≤ Numeral.maxWord := by omega
    simp only [Numeral.value, hvalue]
    rw [if_neg (by simp), if_neg (by simp), if_pos hfits]
    show some (Scalar.int (n.natAbs : Int)) = _
    rw [show (n.natAbs : Int) = n by omega]

/-! ### Quoted texts -/

theorem hexValue?_hexDigit : ∀ n < 16, hexValue? (hexDigit n) = some n := by decide

/-- A unit that is no half of a pair stands for one character. -/
theorem joinPieces_unit {n : Nat} (hn : n < 0xD800) (rest : List Piece) :
    joinPieces (.unit n :: rest) = (joinPieces rest).map (Char.ofNat n :: ·) := by
  have hlow : isLowSurrogate n = false := by
    simp only [isLowSurrogate, Bool.and_eq_false_iff, decide_eq_false_iff_not]
    omega
  have hhigh : isHighSurrogate n = false := by
    simp only [isHighSurrogate, Bool.and_eq_false_iff, decide_eq_false_iff_not]
    omega
  rw [joinPieces.eq_def]
  simp only [hlow, hhigh, Bool.false_eq_true, if_false]

/-- A character of a quoted text is written as a backslash with a letter, by number, or as it is. -/
theorem escape_cases (c : Char) :
    (∃ l, l ≠ 'u' ∧ escaped? l = some c ∧ escape c = ['\\', l]) ∨
      (c < ' ' ∧
        escape c = ['\\', 'u', '0', '0', hexDigit (c.toNat / 16), hexDigit (c.toNat % 16)]) ∨
      (c ≠ '\x22' ∧ c ≠ '\\' ∧ ¬c < ' ' ∧ escape c = [c]) := by
  unfold escape
  -- The seven characters that have a letter of their own come first.
  iterate 7
    split
    · subst c
      exact Or.inl ⟨_, by decide, rfl, rfl⟩
  split
  · rename_i hcontrol
    exact Or.inr (Or.inl ⟨hcontrol, rfl⟩)
  · rename_i hquote hbackslash _ _ _ _ _ hcontrol
    exact Or.inr (Or.inr ⟨hquote, hbackslash, hcontrol, rfl⟩)

namespace Reader

/-- A reader that goes through characters, none of which is a stand-in. -/
def feed (r : Reader) (cs : List Char) : Option Reader := cs.foldlM (step fun _ => false) r

@[simp] theorem feed_nil (r : Reader) : r.feed [] = some r := rfl

theorem feed_cons (r : Reader) (c : Char) (cs : List Char) :
    r.feed (c :: cs) = (r.step (fun _ => false) c).bind fun r => r.feed cs := rfl

theorem feed_append (r : Reader) (cs ds : List Char) :
    r.feed (cs ++ ds) = (r.feed cs).bind fun r => r.feed ds := by
  exact List.foldlM_append

/-- A unit by number is read from the four digits that a control character is written with. -/
theorem feed_unit {c : Char} (hc : c < ' ') (ps : List Piece) (b : Builder) :
    feed ⟨.quoted ps, b⟩
        ['\\', 'u', '0', '0', hexDigit (c.toNat / 16), hexDigit (c.toNat % 16)] =
      some ⟨.quoted (.unit c.toNat :: ps), b⟩ := by
  have hlt : c.toNat < 32 := UInt32.lt_iff_toNat_lt.mp (Char.lt_def.mp hc)
  have hhigh := hexValue?_hexDigit (c.toNat / 16) (by omega)
  have hlow := hexValue?_hexDigit (c.toNat % 16) (by omega)
  have hzero : hexValue? '0' = some 0 := by decide
  have hvalue : c.toNat / 16 * 16 + c.toNat % 16 = c.toNat := by omega
  have hescape : step (fun _ => false) ⟨.quoted ps, b⟩ '\\' = some ⟨.escape ps, b⟩ := rfl
  have hmark : step (fun _ => false) ⟨.escape ps, b⟩ 'u' = some ⟨.unit ps 3 0, b⟩ := rfl
  rw [feed_cons, hescape, Option.bind_some, feed_cons, hmark]
  simp [feed_cons, step, hzero, hhigh, hlow, hvalue]

/-- A character of a quoted text is read as one piece, which stands for the character. -/
theorem feed_escape (c : Char) (ps : List Piece) (b : Builder) :
    ∃ p, feed ⟨.quoted ps, b⟩ (escape c) = some ⟨.quoted (p :: ps), b⟩ ∧
      ∀ rest, joinPieces (p :: rest) = (joinPieces rest).map (c :: ·) := by
  have hescape : step (fun _ => false) ⟨.quoted ps, b⟩ '\\' = some ⟨.escape ps, b⟩ := rfl
  rcases escape_cases c with ⟨l, hl, hc, htext⟩ | ⟨hcontrol, htext⟩ |
    ⟨hquote, hbackslash, hcontrol, htext⟩
  · have hchar : step (fun _ => false) ⟨.escape ps, b⟩ l = some ⟨.quoted (.char c :: ps), b⟩ := by
      simp [step, hl, hc]
    refine ⟨.char c, ?_, fun _ => rfl⟩
    rw [htext, feed_cons, hescape, Option.bind_some, feed_cons, hchar, Option.bind_some, feed_nil]
  · have hlt : c.toNat < 32 := UInt32.lt_iff_toNat_lt.mp (Char.lt_def.mp hcontrol)
    refine ⟨.unit c.toNat, ?_, fun rest => ?_⟩
    · rw [htext]
      exact feed_unit hcontrol ps b
    · rw [joinPieces_unit (by omega), Char.ofNat_toNat]
  · refine ⟨.char c, ?_, fun _ => rfl⟩
    rw [htext]
    simp [feed_cons, step, inside, hquote, hbackslash, hcontrol]

/-- The characters of a quoted text are read as pieces, which make the text. -/
theorem feed_escapes (cs : List Char) (ps : List Piece) (b : Builder) :
    ∃ qs, feed ⟨.quoted ps, b⟩ (cs.flatMap escape) = some ⟨.quoted (qs.reverse ++ ps), b⟩ ∧
      joinPieces qs = some cs := by
  induction cs generalizing ps with
  | nil => exact ⟨[], rfl, rfl⟩
  | cons c cs ih =>
    obtain ⟨p, hp, hjoin⟩ := feed_escape c ps b
    obtain ⟨qs, hqs, hrest⟩ := ih (p :: ps)
    refine ⟨p :: qs, ?_, ?_⟩
    · rw [List.flatMap_cons, feed_append, hp, Option.bind_some, hqs, List.reverse_cons,
        List.append_assoc, List.singleton_append]
    · rw [hjoin, hrest, Option.map_some]

/-- After a quoted text the reader is between words, with the text put in its place. -/
theorem feed_quote (s : String) (b : Builder) :
    feed ⟨.between, b⟩ (quote s.toList) = (b.scalar (.text s)).map fun b => ⟨.between, b⟩ := by
  obtain ⟨qs, hqs, hjoin⟩ := feed_escapes s.toList [] b
  have hopen : step (fun _ => false) ⟨.between, b⟩ '\x22' = some ⟨.quoted [], b⟩ := rfl
  have hscalar : quotedScalar qs = .text s := by
    rw [quotedScalar, hjoin]
    simp
  rw [quote, feed_cons, hopen, Option.bind_some, feed_append, hqs, Option.bind_some, feed_cons]
  simp only [step, inside, List.append_nil, List.reverse_reverse, hscalar]
  cases b.scalar (.text s) <;> rfl

/-! ### Words -/

theorem feed_word_append {w : List Char} (hw : ∀ c ∈ w, isWordChar c = true) (u : List Char)
    (b : Builder) : feed ⟨.word u, b⟩ w = some ⟨.word (w.reverse ++ u), b⟩ := by
  induction w generalizing u with
  | nil => rfl
  | cons c w ih =>
    have hc : isWordChar c = true := hw c List.mem_cons_self
    have hrest := ih (fun c' hc' => hw c' (List.mem_cons_of_mem _ hc')) (c :: u)
    rw [feed_cons]
    simp [step, outside, hc, hrest]

/-- A word is collected until something else follows. -/
theorem feed_word {w : List Char} (hw : ∀ c ∈ w, isWordChar c = true) (hne : w ≠ [])
    (b : Builder) : feed ⟨.between, b⟩ w = some ⟨.word w.reverse, b⟩ := by
  cases w with
  | nil => exact absurd rfl hne
  | cons c w =>
    have hc : isWordChar c = true := hw c List.mem_cons_self
    have hrest := feed_word_append (fun c' hc' => hw c' (List.mem_cons_of_mem _ hc')) [c] b
    rw [feed_cons]
    simp [step, outside, hc, hrest]

end Reader

end ActionPolicy.Json
