import ActionPolicy.Document.Datum
import ActionPolicy.Json.Numeral

/-!
# Reading JSON

A text is read one character at a time. Words and quoted texts are collected into scalars, and
scalars and punctuation are put together on a stack of open containers.

## Main definitions

* `Json.Builder` – the stack, and what may come next.
* `Json.Reader` – a builder, and a word or quoted text that is being read.
* `Json.read?` – the datum a text holds; none if the text is not JSON.

## Design notes

A word is a longest run of letters, digits, points and signs; two scalars never touch in JSON, so
a run that is no scalar is an error wherever it is cut. Escapes of half a surrogate pair and
undecodable bytes only spoil the text they stand in.
-/

namespace ActionPolicy.Json

/-- An open container, with the parts read so far in reverse. -/
inductive Frame where
  | list (items : List Datum)
  | map (entries : List (Datum × Datum))
  /-- An object whose next member has its key. -/
  | member (entries : List (Datum × Datum)) (key : Datum)
  deriving Repr

/-- What may come next. -/
inductive Expectation where
  | value
  /-- A value, or the end of the list that was just opened. -/
  | firstItem
  /-- A key, or the end of the object that was just opened. -/
  | firstKey
  /-- A key. -/
  | key
  /-- The colon after a key. -/
  | colon
  /-- A comma or the end of the container. -/
  | delimiter
  /-- Nothing but blanks: the value is complete. -/
  | nothing
  deriving DecidableEq, Repr

/-- A value that is being put together. -/
structure Builder where
  /-- The open containers, the innermost first. -/
  stack : List Frame
  expects : Expectation
  /-- The complete value, once there is one. -/
  result : Option Datum
  deriving Repr

namespace Builder

/-- Nothing read yet. -/
def start : Builder := ⟨[], .value, none⟩

/-- A complete value put into the innermost open container. -/
def place (stack : List Frame) (d : Datum) : Option Builder :=
  match stack with
  | [] => some ⟨[], .nothing, some d⟩
  | .list items :: rest => some ⟨.list (d :: items) :: rest, .delimiter, none⟩
  | .member entries k :: rest => some ⟨.map ((k, d) :: entries) :: rest, .delimiter, none⟩
  | .map _ :: _ => none

/-- A value may come next. -/
def takesValue (b : Builder) : Bool := b.expects = .value || b.expects = .firstItem

/-- A scalar comes next; a key has to be a text. -/
def scalar (b : Builder) (s : Scalar) : Option Builder :=
  if b.takesValue then place b.stack (.scalar s)
  else if b.expects = .key ∨ b.expects = .firstKey then
    match b.stack, s with
    | .map entries :: rest, .text t =>
      some ⟨.member entries (.scalar (.text t)) :: rest, .colon, none⟩
    | .map entries :: rest, .garbled =>
      some ⟨.member entries (.scalar .garbled) :: rest, .colon, none⟩
    | _, _ => none
  else none

/-- A punctuation mark comes next. -/
def punctuation (b : Builder) (c : Char) : Option Builder :=
  match c with
  | '[' => if b.takesValue then some ⟨.list [] :: b.stack, .firstItem, none⟩ else none
  | '\x7b' => if b.takesValue then some ⟨.map [] :: b.stack, .firstKey, none⟩ else none
  | ']' =>
    match b.stack with
    | .list items :: rest =>
      if b.expects = .delimiter ∨ b.expects = .firstItem then place rest (.list items.reverse)
      else none
    | _ => none
  | '\x7d' =>
    match b.stack with
    | .map entries :: rest =>
      if b.expects = .delimiter ∨ b.expects = .firstKey then place rest (.map entries.reverse)
      else none
    | _ => none
  | ',' =>
    match b.stack with
    | .list _ :: _ => if b.expects = .delimiter then some ⟨b.stack, .value, none⟩ else none
    | .map _ :: _ => if b.expects = .delimiter then some ⟨b.stack, .key, none⟩ else none
    | _ => none
  | ':' => if b.expects = .colon then some ⟨b.stack, .value, none⟩ else none
  | _ => none

end Builder

/-! ### Words -/

/-- A character of a word. -/
def isWordChar (c : Char) : Bool :=
  c.isAlphanum || c = '+' || c = '-' || c = '.'

/-- The scalar that a word is. -/
def Numeral.Value.toScalar : Numeral.Value → Scalar
  | .int n => .int n
  | .float x => .float x
  | .tooLarge => .tooLarge

/-- The scalar that a word is, if it is one. -/
def wordScalar? (w : List Char) : Option Scalar :=
  if w = ['n', 'u', 'l', 'l'] then some .null
  else if w = ['t', 'r', 'u', 'e'] then some (.bool true)
  else if w = ['f', 'a', 'l', 's', 'e'] then some (.bool false)
  else (Numeral.ofChars? w).map fun n => n.value.toScalar

/-! ### Quoted texts -/

/-- A part of a quoted text. -/
inductive Piece where
  | char (c : Char)
  /-- A 16-bit unit written by number. -/
  | unit (n : Nat)
  /-- A byte that belongs to no character. -/
  | stray
  deriving DecidableEq, Repr

/-- The unit is the first half of a pair. -/
def isHighSurrogate (n : Nat) : Bool := 0xD800 ≤ n && n ≤ 0xDBFF

/-- The unit is the second half of a pair. -/
def isLowSurrogate (n : Nat) : Bool := 0xDC00 ≤ n && n ≤ 0xDFFF

/-- The characters that pieces stand for, if they all stand for some. -/
def joinPieces : List Piece → Option (List Char)
  | [] => some []
  | .char c :: rest => (joinPieces rest).map (c :: ·)
  | .stray :: _ => none
  | .unit n :: rest =>
    if isLowSurrogate n then none
    else if isHighSurrogate n then
      match rest with
      | .unit m :: rest' =>
        if isLowSurrogate m then
          (joinPieces rest').map (Char.ofNat (0x10000 + (n - 0xD800) * 0x400 + (m - 0xDC00)) :: ·)
        else none
      | _ => none
    else (joinPieces rest).map (Char.ofNat n :: ·)

/-- The scalar that the pieces of a quoted text make. -/
def quotedScalar (pieces : List Piece) : Scalar :=
  match joinPieces pieces with
  | some cs => .text (String.ofList cs)
  | none => .garbled

/-- The value of a digit of base sixteen. -/
def hexValue? (c : Char) : Option Nat :=
  if '0' ≤ c ∧ c ≤ '9' then some (c.toNat - '0'.toNat)
  else if 'a' ≤ c ∧ c ≤ 'f' then some (c.toNat - 'a'.toNat + 10)
  else if 'A' ≤ c ∧ c ≤ 'F' then some (c.toNat - 'A'.toNat + 10)
  else none

/-- The character that a letter after a backslash stands for. -/
def escaped? (c : Char) : Option Char :=
  match c with
  | '\x22' => some '\x22'
  | '\\' => some '\\'
  | '/' => some '/'
  | 'b' => some '\x08'
  | 'f' => some '\x0c'
  | 'n' => some '\n'
  | 'r' => some '\x0d'
  | 't' => some '\t'
  | _ => none

/-! ### Characters -/

/-- What is being read. -/
inductive Mode where
  /-- Nothing: between words and quoted texts. -/
  | between
  /-- A word, in reverse. -/
  | word (chars : List Char)
  /-- A quoted text, in reverse. -/
  | quoted (pieces : List Piece)
  /-- A quoted text, after a backslash. -/
  | escape (pieces : List Piece)
  /-- A quoted text, in a unit by number of which `left + 1` digits are missing. -/
  | unit (pieces : List Piece) (left value : Nat)
  deriving Repr

/-- A text that is being read. -/
structure Reader where
  mode : Mode
  builder : Builder
  deriving Repr

namespace Reader

/-- Nothing read yet. -/
def start : Reader := ⟨.between, .start⟩

/-- A word, if there is one, ends here. -/
def endWord (r : Reader) : Option Builder :=
  match r.mode with
  | .word w => do r.builder.scalar (← wordScalar? w.reverse)
  | _ => some r.builder

/-- A character that is in no quoted text. -/
def outside (r : Reader) (c : Char) : Option Reader :=
  if isWordChar c then
    match r.mode with
    | .word w => some ⟨.word (c :: w), r.builder⟩
    | _ => some ⟨.word [c], r.builder⟩
  else do
    let b ← r.endWord
    if c = '\x22' then return ⟨.quoted [], b⟩
    else if c = ' ' ∨ c = '\t' ∨ c = '\n' ∨ c = '\x0d' then return ⟨.between, b⟩
    else return ⟨.between, ← b.punctuation c⟩

/-- A character of a quoted text. -/
def inside (r : Reader) (pieces : List Piece) (stray : Bool) (c : Char) : Option Reader :=
  if stray then some ⟨.quoted (.stray :: pieces), r.builder⟩
  else if c = '\x22' then do
    return ⟨.between, ← r.builder.scalar (quotedScalar pieces.reverse)⟩
  else if c = '\\' then some ⟨.escape pieces, r.builder⟩
  else if c < ' ' then none
  else some ⟨.quoted (.char c :: pieces), r.builder⟩

/-- One character, which `stray` tells from the stand-in for an undecodable byte. -/
def step (stray : Char → Bool) (r : Reader) (c : Char) : Option Reader :=
  match r.mode with
  | .between => r.outside c
  | .word _ => r.outside c
  | .quoted pieces => r.inside pieces (stray c) c
  | .escape pieces =>
    if c = 'u' then some ⟨.unit pieces 3 0, r.builder⟩
    else do return ⟨.quoted (.char (← escaped? c) :: pieces), r.builder⟩
  | .unit pieces left value => do
    let v := value * 16 + (← hexValue? c)
    match left with
    | 0 => return ⟨.quoted (.unit v :: pieces), r.builder⟩
    | n + 1 => return ⟨.unit pieces n v, r.builder⟩

/-- The complete value, if the text may end here. -/
def finish (r : Reader) : Option Datum :=
  match r.mode with
  | .between => r.builder.result
  | .word _ => do (← r.endWord).result
  | _ => none

end Reader

/-- The datum that characters hold, some of which stand for undecodable bytes. -/
def readStray? (stray : Char → Bool) (cs : List Char) : Option Datum :=
  (cs.foldlM (Reader.step stray) Reader.start).bind Reader.finish

/-- The datum that a text holds. -/
def read? (text : String) : Option Datum := readStray? (fun _ => false) text.toList

end ActionPolicy.Json
