import XevXml.Tools.StringF

/-!
# C Strings in Memory

A string of C is written with backslashes: the quote as itself behind one, and the
characters that cannot be printed by their hexadecimal codes. A backslash is written as it
is, so what follows it is read as an escape.

Characters are signed. For one with a negative code eight digits are printed and two of
them are kept, and the digits that are not kept may lie behind the end of the buffer. The
reader gives the letters among hexadecimal digits the values from zero on, and takes the
second of three octal digits twice. So the strings that come back are those whose
characters can be printed, or have two decimal digits as their code, and are no
backslashes.

## Main definitions

* `strG2C`, `strC2G`: Both passes of the functions, with their assertions.
* `encoded`, `decoded`: What they write and read.
* `RoundTrips`: The strings that are the same after both functions.
* `Kept`: The characters that come back.
* `Escape`: The escapes of C, with their texts and values.
* `Escape.Right`: The escapes that are read as what they mean.
* `Literal`: The strings of C.

## Theorems

* `strC2G_eq`: The passes of the reader agree.
* `strG2C_ok`: What the writer has written if it returns.
* `no_backslash`: A string with a backslash does not come back.
* `decoded_textOf`: What is read of a string of C.
* `cCodec_iff`: Which strings come back, and which escapes are read right.
-/

namespace XevXml.Tools.StringC

/-- A string as the C program sees it. -/
abbrev Bytes := List UInt8

/-- The code of a character. -/
def byte (c : Char) : UInt8 := UInt8.ofNat c.toNat

/-- The value of a character, which is signed. -/
def signed (b : UInt8) : Int := if b.toNat < 128 then b.toNat else b.toNat - 256

/-- The characters that are written by their codes. -/
def byCode (b : UInt8) : Bool := decide (signed b < 0x20) || decide (0x7f ≤ signed b)

/-- The hexadecimal digits of an `int`, two of them at least. -/
def sprintf02x (v : Int) : Bytes :=
  let digits := (Nat.toDigits 16 (v % 0x100000000).toNat).map byte
  List.replicate (2 - digits.length) (byte '0') ++ digits

/-- The first pass of `strG2C`: the position of the end, and the number of characters that
    are added. -/
def sizeG2C : Bytes → Nat → Nat → Nat × Nat
  | [], l, c => (l, c)
  | b :: s, l, c =>
      if b = byte '"' then sizeG2C s (l + 1) (c + 1)
      else if byCode b then sizeG2C s (l + 1) (c + 3)
      else sizeG2C s (l + 1) c

/-- The second pass of `strG2C`. What has been printed for a code is overwritten behind its
    second digit. -/
def fillG2C : Bytes → Nat → Buffer UInt8 → Option (Buffer UInt8)
  | [], c, t => do
      let t ← t.write c [byte '"']
      t.write (c + 1) [0]
  | b :: s, c, t =>
      if b = byte '"' then do
        let t ← t.write c [byte '\\']
        let t ← t.write (c + 1) [byte '"']
        fillG2C s (c + 2) t
      else if byCode b then do
        let t ← t.write c [byte '\\']
        let t ← t.write (c + 1) [byte 'x']
        let t ← t.write (c + 2) (sprintf02x (signed b) ++ [0])
        fillG2C s (c + 4) t
      else do
        let t ← t.write c [b]
        fillG2C s (c + 1) t

/-- A string as C writes it. -/
def strG2C (s : Bytes) : Run Bytes := do
  let (l, c) := sizeG2C s 0 0
  let len := l + 3 + c
  let t ← orBound ((Buffer.alloc len).write 0 [byte '"'])
  let t ← orBound (fillG2C s 1 t)
  checked 0 t

def isxdigit (b : UInt8) : Bool :=
  (byte '0' ≤ b && b ≤ byte '9') || (byte 'a' ≤ b && b ≤ byte 'f') ||
    (byte 'A' ≤ b && b ≤ byte 'F')

def isOctal (b : UInt8) : Bool := byte '0' ≤ b && b ≤ byte '7'

/-- By how much the first pass of `strC2G` goes on at a backslash, and how many characters
    it counts as left out. The argument is the text behind the backslash. -/
def sizeEscape (s : Bytes) : Nat × Nat :=
  if s.getD 0 0 = byte 'x' then
    if isxdigit (s.getD 2 0) then (4, 3) else (3, 2)
  else if isOctal (s.getD 0 0) then
    if isOctal (s.getD 1 0) then
      if isOctal (s.getD 2 0) then (4, 3) else (3, 2)
    else (2, 1)
  else (2, 1)

/-- The first pass of `strC2G`: the position of the closing quote, and the number of
    characters that are left out. Without a closing quote it reads on behind the end. -/
def sizeC2G : Nat → Bytes → Nat → Nat → Option (Nat × Nat)
  | 0, _, _, _ => none
  | _ + 1, [], _, _ => none
  | fuel + 1, b :: s, l, c =>
      if b = byte '\\' then
        let (dl, dc) := sizeEscape s
        if s.length < dl - 1 then none else sizeC2G fuel (s.drop (dl - 1)) (l + dl) (c + dc)
      else if b = byte '"' then some (l, c)
      else sizeC2G fuel s (l + 1) c

/-- The value that is given to a hexadecimal digit. -/
def hexValue (b : UInt8) : UInt8 :=
  if byte '0' ≤ b ∧ b ≤ byte '9' then b - byte '0'
  else if byte 'a' ≤ b ∧ b ≤ byte 'z' then b - byte 'a'
  else b - byte 'A'

/-- The characters that have an escape of their own; others stand for themselves. -/
def named (b : UInt8) : UInt8 :=
  if b = byte 'a' then 7
  else if b = byte 'b' then 8
  else if b = byte 'f' then 12
  else if b = byte 'n' then 10
  else if b = byte 'r' then 13
  else if b = byte 't' then 9
  else if b = byte 'v' then 11
  else if b = byte '\\' then byte '\\'
  else if b = byte '?' then byte '?'
  else if b = byte '\'' then byte '\''
  else if b = byte '"' then byte '"'
  else b

/-- The character that the second pass of `strC2G` writes at a backslash, and by how much
    it goes on. -/
def fillEscape (s : Bytes) : UInt8 × Nat :=
  if s.getD 0 0 = byte 'x' then
    let v := hexValue (s.getD 1 0)
    if isxdigit (s.getD 2 0) then (v * 16 + hexValue (s.getD 2 0), 4) else (v, 3)
  else if isOctal (s.getD 0 0) then
    let v := s.getD 0 0 - byte '0'
    if isOctal (s.getD 1 0) then
      let v := v * 8 + (s.getD 1 0 - byte '0')
      if isOctal (s.getD 2 0) then
        -- The digit is the second one once more.
        (v * 8 + (s.getD 1 0 - byte '0'), 4)
      else (v, 3)
    else (v, 2)
  else (named (s.getD 0 0), 2)

/-- The second pass of `strC2G`. -/
def fillC2G : Nat → Bytes → Nat → Buffer UInt8 → Option (Buffer UInt8)
  | 0, _, _, _ => none
  | _ + 1, [], _, _ => none
  | fuel + 1, b :: s, c, t =>
      if b = byte '\\' then
        let (v, dl) := fillEscape s
        if s.length < dl - 1 then none
        else do
          let t ← t.write c [v]
          fillC2G fuel (s.drop (dl - 1)) (c + 1) t
      else if b = byte '"' then t.write c [0]
      else do
        let t ← t.write c [b]
        fillC2G fuel s (c + 1) t

/-- The string that a C string denotes. -/
def strC2G : Bytes → Run Bytes
  | [] => .error (.exit "strC2G: C string must start with \"\n")
  | q :: s =>
      if q ≠ byte '"' then .error (.exit "strC2G: C string must start with \"\n")
      else do
        let (l, c) ← orBound (sizeC2G (s.length + 1) s 1 0)
        let len := l - c
        let t ← orBound (fillC2G (s.length + 1) s 0 (Buffer.alloc len))
        checked 0 t

/-- What the reader reads up to the closing quote. -/
def decoded : Bytes → Option Bytes
  | [] => none
  | b :: s =>
      if b = byte '\\' then
        if s.length < (fillEscape s).2 - 1 then none
        else (decoded (s.drop ((fillEscape s).2 - 1))).map ((fillEscape s).1 :: ·)
      else if b = byte '"' then some []
      else (decoded s).map (b :: ·)
termination_by s => s.length
decreasing_by
  · simp only [List.length_drop, List.length_cons]
    omega
  · simp

/-- What is kept of the digits of a code. -/
def encodedByte (b : UInt8) : Bytes :=
  if b = byte '"' then [byte '\\', byte '"']
  else if byCode b then byte '\\' :: byte 'x' :: (sprintf02x (signed b)).take 2
  else [b]

/-- What the writer writes between the quotes. -/
def encoded (s : Bytes) : Bytes := s.flatMap encodedByte

/-- The characters that come back: those that can be printed, but no backslash, and those
    whose code has two decimal digits. -/
def Kept (b : UInt8) : Prop :=
  (0x20 ≤ b ∧ b ≤ 0x7e ∧ b ≠ byte '\\') ∨ (0x01 ≤ b ∧ b ≤ 0x09) ∨ (0x10 ≤ b ∧ b ≤ 0x19)

instance (b : UInt8) : Decidable (Kept b) :=
  inferInstanceAs (Decidable ((0x20 ≤ b ∧ b ≤ 0x7e ∧ b ≠ byte '\\') ∨ (0x01 ≤ b ∧ b ≤ 0x09) ∨
    (0x10 ≤ b ∧ b ≤ 0x19)))

/-- The first digits of a code. -/
def digit1 (b : UInt8) : UInt8 := (sprintf02x (signed b)).getD 0 0

def digit2 (b : UInt8) : UInt8 := (sprintf02x (signed b)).getD 1 0

/-- What the reader makes of the digits of a code. -/
def readCode (b : UInt8) : UInt8 := hexValue (digit1 b) * 16 + hexValue (digit2 b)

/-- What the reader makes of what has been written for a character. -/
def readBack (b : UInt8) : UInt8 := if byCode b then readCode b else b

/-- A string that is what it was after it has been written and read. -/
def RoundTrips (s : Bytes) : Prop := ∃ g, strG2C s = .ok g ∧ strC2G g = .ok s

theorem roundTrips_iff (s : Bytes) : RoundTrips s ↔ (strG2C s).bind strC2G = .ok s := by
  unfold RoundTrips
  cases strG2C s with
  | error e => simp [Except.bind]
  | ok g => simp [Except.bind]

instance (s : Bytes) : Decidable (RoundTrips s) := decidable_of_iff' _ (roundTrips_iff s)

/-- The hexadecimal digits. -/
inductive HexDigit
  | decimal (d : Fin 10)
  | lower (d : Fin 6)
  | upper (d : Fin 6)
deriving DecidableEq, Repr

def HexDigit.text : HexDigit → UInt8
  | .decimal d => byte '0' + UInt8.ofNat d
  | .lower d => byte 'a' + UInt8.ofNat d
  | .upper d => byte 'A' + UInt8.ofNat d

def HexDigit.value : HexDigit → Nat
  | .decimal d => d
  | .lower d => 10 + d
  | .upper d => 10 + d

def HexDigit.IsDecimal : HexDigit → Prop
  | .decimal _ => True
  | .lower _ | .upper _ => False

/-- The characters that have a letter or a sign as their escape. -/
inductive Named
  | alert | backspace | formFeed | newline | carriageReturn | tab | verticalTab
  | backslash | question | apostrophe | quote
deriving DecidableEq, Repr

def Named.text : Named → UInt8
  | .alert => byte 'a'
  | .backspace => byte 'b'
  | .formFeed => byte 'f'
  | .newline => byte 'n'
  | .carriageReturn => byte 'r'
  | .tab => byte 't'
  | .verticalTab => byte 'v'
  | .backslash => byte '\\'
  | .question => byte '?'
  | .apostrophe => byte '\''
  | .quote => byte '"'

/-- The characters in ASCII. -/
def Named.value : Named → UInt8
  | .alert => 0x07
  | .backspace => 0x08
  | .formFeed => 0x0c
  | .newline => 0x0a
  | .carriageReturn => 0x0d
  | .tab => 0x09
  | .verticalTab => 0x0b
  | .backslash => 0x5c
  | .question => 0x3f
  | .apostrophe => 0x27
  | .quote => 0x22

/-- The escapes of C for a character. The first of three octal digits is at most three. -/
inductive Escape
  | octal1 (d : Fin 8)
  | octal2 (d e : Fin 8)
  | octal3 (d : Fin 4) (e f : Fin 8)
  | hex1 (d : HexDigit)
  | hex2 (d e : HexDigit)
  | named (n : Named)
deriving DecidableEq, Repr

def octalDigit (d : Nat) : UInt8 := byte '0' + UInt8.ofNat d

/-- The text of an escape behind its backslash. -/
def Escape.text : Escape → Bytes
  | .octal1 d => [octalDigit d]
  | .octal2 d e => [octalDigit d, octalDigit e]
  | .octal3 d e f => [octalDigit d, octalDigit e, octalDigit f]
  | .hex1 d => [byte 'x', d.text]
  | .hex2 d e => [byte 'x', d.text, e.text]
  | .named n => [n.text]

/-- The character that an escape means. -/
def Escape.value : Escape → UInt8
  | .octal1 d => UInt8.ofNat d
  | .octal2 d e => UInt8.ofNat (8 * d + e)
  | .octal3 d e f => UInt8.ofNat (64 * d + 8 * e + f)
  | .hex1 d => UInt8.ofNat d.value
  | .hex2 d e => UInt8.ofNat (16 * d.value + e.value)
  | .named n => n.value

/-- No digit follows that belongs to the escape as well. -/
def Escape.Ends (rest : Bytes) : Escape → Prop
  | .octal1 _ | .octal2 _ _ => isOctal (rest.getD 0 0) = false
  | .hex1 _ | .hex2 _ _ => isxdigit (rest.getD 0 0) = false
  | .octal3 _ _ _ | .named _ => True

/-- The escapes that are read as what they mean: they mean no terminator, the last two of
    three octal digits are the same, and hexadecimal digits are no letters. -/
def Escape.Right : Escape → Prop
  | .octal1 d => d ≠ 0
  | .octal2 d e => d ≠ 0 ∨ e ≠ 0
  | .octal3 d e f => e = f ∧ (d ≠ 0 ∨ e ≠ 0)
  | .hex1 d => d.IsDecimal ∧ d.value ≠ 0
  | .hex2 d e => d.IsDecimal ∧ e.IsDecimal ∧ (d.value ≠ 0 ∨ e.value ≠ 0)
  | .named _ => True

instance (d : HexDigit) : Decidable d.IsDecimal :=
  match d with
  | .decimal _ => isTrue trivial
  | .lower _ | .upper _ => isFalse not_false

instance (e : Escape) : Decidable e.Right :=
  match e with
  | .octal1 d => inferInstanceAs (Decidable (d ≠ 0))
  | .octal2 d e => inferInstanceAs (Decidable (d ≠ 0 ∨ e ≠ 0))
  | .octal3 d e f => inferInstanceAs (Decidable (e = f ∧ (d ≠ 0 ∨ e ≠ 0)))
  | .hex1 d => inferInstanceAs (Decidable (d.IsDecimal ∧ d.value ≠ 0))
  | .hex2 d e =>
      inferInstanceAs (Decidable (d.IsDecimal ∧ e.IsDecimal ∧ (d.value ≠ 0 ∨ e.value ≠ 0)))
  | .named _ => isTrue trivial

/-- What a string of C consists of. -/
inductive Item
  | char (b : UInt8)
  | escape (e : Escape)
deriving DecidableEq, Repr

def Item.text : Item → Bytes
  | .char b => [b]
  | .escape e => byte '\\' :: e.text

def Item.value : Item → UInt8
  | .char b => b
  | .escape e => e.value

/-- The text of a string between its quotes. -/
def textOf (is : List Item) : Bytes := is.flatMap Item.text

/-- The strings of C. Their characters are no quotes, and each escape ends where the next
    item begins. -/
inductive Literal : List Item → Prop
  | nil : Literal []
  | char {b : UInt8} {is : List Item} : b ≠ 0 → b ≠ byte '\\' → b ≠ byte '"' → Literal is →
      Literal (.char b :: is)
  | escape {e : Escape} {is : List Item} : e.Ends (textOf is) → Literal is →
      Literal (.escape e :: is)

section Bytes

/-- What holds of all codes holds of all characters. -/
theorem forall_byte {P : UInt8 → Prop} (h : ∀ n < 256, P (UInt8.ofNat n)) (b : UInt8) : P b := by
  have hb := h b.toNat b.toNat_lt
  rwa [UInt8.ofNat_toNat] at hb

theorem byCode_ne {b : UInt8} (h : byCode b = true) :
    b ≠ byte 'x' ∧ b ≠ byte '\\' ∧ b ≠ byte '"' := by
  refine ⟨?_, ?_, ?_⟩
  · rintro rfl
    exact absurd h (by decide)
  · rintro rfl
    exact absurd h (by decide)
  · rintro rfl
    exact absurd h (by decide)

/-- The digits of a code are two at least and can be printed, and the second one is a digit
    for the reader. -/
theorem written_byte : ∀ b,
    (byCode b = true → 2 ≤ (sprintf02x (signed b)).length ∧
      (0x20 ≤ digit1 b ∧ digit1 b ≤ 0x7e) ∧ (0x20 ≤ digit2 b ∧ digit2 b ≤ 0x7e) ∧
      isxdigit (digit2 b) = true) ∧
    (byCode b = false → 0x20 ≤ b ∧ b ≤ 0x7e) := by
  refine forall_byte ?_
  decide +kernel

/-- A character is read right if and only if it is one that comes back, and none but a
    backslash is read as one. -/
theorem readBack_byte : ∀ b,
    (b ≠ 0 → b ≠ byte '\\' → (readBack b = b ↔ Kept b) ∧ readBack b ≠ byte '\\') ∧
    (Kept b → b ≠ byte '\\' ∧ b ≠ 0 ∧
      (byCode b = true → (sprintf02x (signed b)).length = 2)) := by
  refine forall_byte ?_
  decide +kernel

/-- What holds of the characters that are read. A hexadecimal digit counts nine at most, and
    no printable character counts as much as a backslash. -/
theorem read_byte : ∀ b, (isxdigit b = true → hexValue b ≤ 9) ∧
    (0x20 ≤ b → b ≤ 0x7e → hexValue b ≠ byte '\\') ∧ (named b = byte '\\' → b = byte '\\') ∧
    (isOctal b = true → ∃ m < 8, b - byte '0' = UInt8.ofNat m) := by
  refine forall_byte ?_
  decide +kernel

theorem sixteen_mul_add : ∀ a w : UInt8, w ≤ 9 → a * 16 + w ≠ byte '\\' := by
  refine forall_byte ?_
  intro n hn w hw heq
  have hmod : (UInt8.ofNat n * 16 + w).toNat % 16 = w.toNat := by
    have hw' : w.toNat ≤ 9 := UInt8.le_iff_toNat_le.mp hw
    rw [UInt8.toNat_add, UInt8.toNat_mul]
    have h16 : (16 : UInt8).toNat = 16 := rfl
    rw [h16]
    omega
  rw [heq] at hmod
  have hw' : w.toNat ≤ 9 := UInt8.le_iff_toNat_le.mp hw
  have h12 : (byte '\\').toNat % 16 = 12 := by decide
  omega

theorem octal_values : ∀ m < 8, ∀ n < 8,
    UInt8.ofNat m ≠ byte '\\' ∧ UInt8.ofNat m * 8 + UInt8.ofNat n ≠ byte '\\' ∧
      (UInt8.ofNat m * 8 + UInt8.ofNat n) * 8 + UInt8.ofNat n ≠ byte '\\' := by
  decide

/-- No escape that begins with another character than a backslash is read as one. -/
theorem fillEscape_ne_backslash {s : Bytes} (hfirst : s.getD 0 0 ≠ byte '\\')
    (hlow : 0x20 ≤ s.getD 1 0) (hhigh : s.getD 1 0 ≤ 0x7e) :
    (fillEscape s).1 ≠ byte '\\' := by
  unfold fillEscape
  split
  · by_cases hx : isxdigit (s.getD 2 0) = true
    · simp only [hx, if_true]
      exact sixteen_mul_add _ _ ((read_byte _).1 hx)
    · simp only [hx]
      exact (read_byte _).2.1 hlow hhigh
  · split
    · rename_i hoct
      obtain ⟨m, hm, hm'⟩ := (read_byte _).2.2.2 hoct
      by_cases hoct1 : isOctal (s.getD 1 0) = true
      · obtain ⟨n, hn, hn'⟩ := (read_byte _).2.2.2 hoct1
        by_cases hoct2 : isOctal (s.getD 2 0) = true
        · simp only [hoct1, hoct2, if_true, hm', hn']
          exact (octal_values m hm n hn).2.2
        · simp only [hoct1, hoct2, if_true, hm', hn']
          exact (octal_values m hm n hn).2.1
      · simp only [hoct1, hm']
        exact (octal_values m hm 0 (by decide)).1
    · exact fun h => hfirst ((read_byte _).2.2.1 h)

end Bytes

section Reading

theorem decoded_nil : decoded [] = none := by rw [decoded]

theorem decoded_close (s : Bytes) : decoded (byte '"' :: s) = some [] := by
  rw [decoded, if_neg (by decide), if_pos rfl]

theorem decoded_plain {b : UInt8} (hslash : b ≠ byte '\\') (hquote : b ≠ byte '"') (s : Bytes) :
    decoded (b :: s) = (decoded s).map (b :: ·) := by
  rw [decoded, if_neg hslash, if_neg hquote]

theorem decoded_short {s : Bytes} (h : s.length < (fillEscape s).2 - 1) :
    decoded (byte '\\' :: s) = none := by
  rw [decoded, if_pos rfl, if_pos h]

theorem decoded_escape {s : Bytes} (h : (fillEscape s).2 - 1 ≤ s.length) :
    decoded (byte '\\' :: s) =
      (decoded (s.drop ((fillEscape s).2 - 1))).map ((fillEscape s).1 :: ·) := by
  rw [decoded, if_pos rfl, if_neg (Nat.not_lt_of_le h)]

/-- What has been read behind a backslash begins with the character of the escape. -/
theorem exists_of_decoded_escape {s u : Bytes} (h : decoded (byte '\\' :: s) = some u) :
    ∃ v, u = (fillEscape s).1 :: v := by
  rw [decoded, if_pos rfl] at h
  split at h
  · cases h
  · obtain ⟨v, -, rfl⟩ := Option.map_eq_some_iff.mp h
    exact ⟨v, rfl⟩

theorem decoded_quote (s : Bytes) :
    decoded (byte '\\' :: byte '"' :: s) = (decoded s).map (byte '"' :: ·) := by
  have hescape : fillEscape (byte '"' :: s) = (byte '"', 2) := rfl
  rw [decoded_escape (by rw [hescape]; simp), hescape]
  rfl

theorem decoded_backslash (s : Bytes) :
    decoded (byte '\\' :: byte '\\' :: s) = (decoded s).map (byte '\\' :: ·) := by
  have hescape : fillEscape (byte '\\' :: s) = (byte '\\', 2) := rfl
  rw [decoded_escape (by rw [hescape]; simp), hescape]
  rfl

theorem decoded_code {d1 d2 : UInt8} (h : isxdigit d2 = true) (s : Bytes) :
    decoded (byte '\\' :: byte 'x' :: d1 :: d2 :: s) =
      (decoded s).map ((hexValue d1 * 16 + hexValue d2) :: ·) := by
  have hescape : fillEscape (byte 'x' :: d1 :: d2 :: s) = (hexValue d1 * 16 + hexValue d2, 4) := by
    simp [fillEscape, h]
  rw [decoded_escape (by rw [hescape]; simp), hescape]
  rfl

end Reading

section Encoded

theorem encodedByte_quote : encodedByte (byte '"') = [byte '\\', byte '"'] := rfl

theorem encodedByte_code {b : UInt8} (h : byCode b = true) :
    encodedByte b = [byte '\\', byte 'x', digit1 b, digit2 b] := by
  obtain ⟨hlen, -⟩ := (written_byte b).1 h
  rw [encodedByte, if_neg (byCode_ne h).2.2, if_pos h, digit1, digit2]
  match sprintf02x (signed b), hlen with
  | d1 :: d2 :: ds, _ => rfl

theorem encodedByte_plain {b : UInt8} (hquote : b ≠ byte '"') (hcode : byCode b = false) :
    encodedByte b = [b] := by
  rw [encodedByte, if_neg hquote, hcode]
  rfl

theorem encoded_cons (b : UInt8) (s : Bytes) : encoded (b :: s) = encodedByte b ++ encoded s :=
  List.flatMap_cons

/-- What is written for a character that is no backslash is read as one character. -/
theorem decoded_encodedByte {b : UInt8} (h : b ≠ byte '\\') (s : Bytes) :
    decoded (encodedByte b ++ s) = (decoded s).map (readBack b :: ·) := by
  by_cases hquote : b = byte '"'
  · subst hquote
    exact decoded_quote s
  · cases hcode : byCode b with
    | true =>
        obtain ⟨-, -, -, hdigit⟩ := (written_byte b).1 hcode
        rw [encodedByte_code hcode, readBack, if_pos hcode]
        exact decoded_code hdigit s
    | false =>
        rw [encodedByte_plain hquote hcode, readBack, hcode]
        exact decoded_plain h hquote s

theorem printable_of_mem_encoded {s : Bytes} {x : UInt8} (h : x ∈ encoded s) :
    0x20 ≤ x ∧ x ≤ 0x7e := by
  obtain ⟨b, -, hx⟩ := List.mem_flatMap.mp h
  by_cases hquote : b = byte '"'
  · subst hquote
    simp only [encodedByte_quote, List.mem_cons, List.not_mem_nil, or_false] at hx
    rcases hx with rfl | rfl <;> decide
  · cases hcode : byCode b with
    | true =>
        obtain ⟨-, h1, h2, -⟩ := (written_byte b).1 hcode
        rw [encodedByte_code hcode] at hx
        simp only [List.mem_cons, List.not_mem_nil, or_false] at hx
        rcases hx with rfl | rfl | rfl | rfl
        · decide
        · decide
        · exact h1
        · exact h2
    | false =>
        rw [encodedByte_plain hquote hcode, List.mem_singleton] at hx
        exact hx ▸ (written_byte b).2 hcode

/-- The character behind the first one in what is left to read can be printed. -/
theorem printable_ahead (b : UInt8) (s : Bytes) :
    0x20 ≤ (b :: (encoded s ++ [byte '"'])).getD 1 0 ∧
      (b :: (encoded s ++ [byte '"'])).getD 1 0 ≤ 0x7e := by
  cases hs : encoded s with
  | nil => exact (by decide : (0x20 : UInt8) ≤ byte '"' ∧ byte '"' ≤ 0x7e)
  | cons x t => exact printable_of_mem_encoded (s := s) (by rw [hs]; exact List.mem_cons_self)

theorem replicate_append_cons (j : Nat) (a : UInt8) (u : Bytes) :
    List.replicate j a ++ a :: u = a :: (List.replicate j a ++ u) := by
  induction j with
  | zero => rfl
  | succ j ih => rw [List.replicate_succ, List.cons_append, List.cons_append, ih]

/-- A backslash is read as one only in front of another one of the string. -/
theorem backslash_of_decoded {u : Bytes} {j : Nat}
    (h : decoded (byte '\\' :: (encoded u ++ [byte '"'])) =
      some (byte '\\' :: (List.replicate j (byte '\\') ++ u))) :
    ∃ u', u = byte '\\' :: u' ∧
      decoded (encoded u' ++ [byte '"']) = some (List.replicate (j + 1) (byte '\\') ++ u') := by
  cases u with
  | nil =>
      have hopen : decoded (byte '\\' :: (encoded [] ++ [byte '"'])) = none := by
        have hquote := decoded_quote []
        rw [decoded_nil] at hquote
        exact hquote
      rw [hopen] at h
      cases h
  | cons d u =>
      rw [encoded_cons, List.append_assoc] at h
      by_cases hslash : d = byte '\\'
      · subst hslash
        have hone : encodedByte (byte '\\') = [byte '\\'] := rfl
        rw [hone, List.singleton_append, decoded_backslash] at h
        obtain ⟨v, hv, heq⟩ := Option.map_eq_some_iff.mp h
        rw [List.cons.injEq, replicate_append_cons] at heq
        exact ⟨u, rfl, by rw [hv, heq.2]; rfl⟩
      by_cases hquote : d = byte '"'
      · -- The quote behind the second backslash ends the string.
        subst hquote
        rw [encodedByte_quote, List.cons_append, List.cons_append, decoded_backslash,
          decoded_close] at h
        have hlen := congrArg (fun o => o.map List.length) h
        simp at hlen
      cases hcode : byCode d with
      | true =>
          -- Behind the second backslash the digits are read as they stand.
          rw [encodedByte_code hcode, List.cons_append, List.cons_append, decoded_backslash,
            decoded_plain (by decide) (by decide)] at h
          obtain ⟨v, hv, heq⟩ := Option.map_eq_some_iff.mp h
          obtain ⟨w, -, rfl⟩ := Option.map_eq_some_iff.mp hv
          rw [List.cons.injEq] at heq
          cases j with
          | zero => exact absurd (List.cons.inj heq.2).1.symm (byCode_ne hcode).1
          | succ j => exact absurd (List.cons.inj heq.2).1 (by decide)
      | false =>
          rw [encodedByte_plain hquote hcode, List.singleton_append] at h
          obtain ⟨v, hv⟩ := exists_of_decoded_escape h
          obtain ⟨hlow, hhigh⟩ := printable_ahead d u
          exact absurd (List.cons.inj hv).1.symm (fillEscape_ne_backslash hslash hlow hhigh)

/-- If a string comes back, also with more backslashes in front of it, there is no backslash
    in it and there are none in front of it. The first backslash is read as one only if a
    second one follows in what is written. That is what has been written for a quote or a
    code, and then something else comes behind it, or it is the next backslash of the
    string, and there is one more of them in front of the rest. -/
theorem no_backslash (u : Bytes) (j : Nat)
    (h : decoded (encoded u ++ [byte '"']) = some (List.replicate j (byte '\\') ++ u))
      (h0 : 0 ∉ u) :
    j = 0 ∧ byte '\\' ∉ u := by
  generalize hn : u.length = n
  induction n using Nat.strong_induction_on generalizing u j with
  | _ n ih =>
      cases u with
      | nil =>
          have hclose : decoded (encoded [] ++ [byte '"']) = some [] := decoded_close []
          rw [hclose, Option.some.injEq, List.append_nil] at h
          refine ⟨?_, List.not_mem_nil⟩
          have hlen := congrArg List.length h
          rw [List.length_replicate] at hlen
          exact hlen.symm
      | cons b u =>
          rw [List.mem_cons, not_or] at h0
          rw [List.length_cons] at hn
          by_cases hb : b = byte '\\'
          · subst hb
            have hone : encodedByte (byte '\\') = [byte '\\'] := rfl
            rw [encoded_cons, hone, List.singleton_append, List.cons_append,
              replicate_append_cons] at h
            obtain ⟨u', rfl, hrest⟩ := backslash_of_decoded h
            rw [List.mem_cons, not_or] at h0
            rw [List.length_cons] at hn
            obtain ⟨hzero, -⟩ := ih u'.length (by omega) u' (j + 1) hrest h0.2.2 rfl
            exact absurd hzero (Nat.succ_ne_zero j)
          · rw [encoded_cons, List.append_assoc, decoded_encodedByte hb] at h
            obtain ⟨v, hv, heq⟩ := Option.map_eq_some_iff.mp h
            cases j with
            | zero =>
                rw [List.replicate_zero, List.nil_append, List.cons.injEq] at heq
                obtain ⟨-, hrest⟩ := ih u.length (by omega) u 0 (by rw [hv, heq.2]; rfl) h0.2 rfl
                refine ⟨rfl, ?_⟩
                rw [List.mem_cons, not_or]
                exact ⟨Ne.symm hb, hrest⟩
            | succ j =>
                rw [List.replicate_succ, List.cons_append, List.cons.injEq] at heq
                exact absurd heq.1 ((readBack_byte b).1 (Ne.symm h0.1) hb).2

theorem decoded_encoded_of_kept {s : Bytes} (h : ∀ b ∈ s, Kept b) :
    decoded (encoded s ++ [byte '"']) = some s := by
  induction s with
  | nil => exact decoded_close []
  | cons b s ih =>
      obtain ⟨hb, hs⟩ := List.forall_mem_cons.mp h
      obtain ⟨hback, hkept⟩ := readBack_byte b
      obtain ⟨hslash, hnul, -⟩ := hkept hb
      have hread : readBack b = b := (hback hnul hslash).1.mpr hb
      rw [encoded_cons, List.append_assoc, decoded_encodedByte hslash, ih hs, hread]
      rfl

theorem kept_of_decoded_encoded {s : Bytes} (h0 : 0 ∉ s) (hslash : byte '\\' ∉ s)
    (h : decoded (encoded s ++ [byte '"']) = some s) : ∀ b ∈ s, Kept b := by
  induction s with
  | nil => exact fun b hb => absurd hb List.not_mem_nil
  | cons b s ih =>
      rw [List.mem_cons, not_or] at h0 hslash
      rw [encoded_cons, List.append_assoc, decoded_encodedByte (Ne.symm hslash.1)] at h
      obtain ⟨v, hv, heq⟩ := Option.map_eq_some_iff.mp h
      obtain ⟨hb, rfl⟩ := List.cons.inj heq
      obtain ⟨hback, -⟩ := readBack_byte b
      have hkept : Kept b := (hback (Ne.symm h0.1) (Ne.symm hslash.1)).1.mp hb
      exact List.forall_mem_cons.mpr ⟨hkept, ih h0.2 hslash.2 hv⟩

/-- Reading what has been written gives the string back if and only if its characters are
    among those that come back. -/
theorem decoded_encoded_iff {s : Bytes} (h0 : 0 ∉ s) :
    decoded (encoded s ++ [byte '"']) = some s ↔ ∀ b ∈ s, Kept b :=
  ⟨fun h => kept_of_decoded_encoded h0 (no_backslash s 0 h h0).2 h, decoded_encoded_of_kept⟩

end Encoded

section Passes

/-- The first pass goes on as far as the second one, and counts one character as kept. -/
theorem sizeEscape_eq (s : Bytes) :
    sizeEscape s = ((fillEscape s).2, (fillEscape s).2 - 1) := by
  unfold sizeEscape fillEscape
  split_ifs <;> rfl

theorem two_le_fillEscape (s : Bytes) : 2 ≤ (fillEscape s).2 := by
  unfold fillEscape
  split_ifs <;> simp

theorem length_drop_escape {s : Bytes} {fuel : Nat} (hfuel : s.length + 1 < fuel + 1) :
    (s.drop ((fillEscape s).2 - 1)).length < fuel := by
  rw [List.length_drop]
  omega

theorem sizeC2G_short {s : Bytes} (h : s.length < (fillEscape s).2 - 1) (fuel l c : Nat) :
    sizeC2G (fuel + 1) (byte '\\' :: s) l c = none := by
  rw [sizeC2G, if_pos rfl, sizeEscape_eq]
  exact if_pos h

theorem sizeC2G_escape {s : Bytes} (h : ¬ s.length < (fillEscape s).2 - 1) (fuel l c : Nat) :
    sizeC2G (fuel + 1) (byte '\\' :: s) l c = sizeC2G fuel (s.drop ((fillEscape s).2 - 1))
      (l + (fillEscape s).2) (c + ((fillEscape s).2 - 1)) := by
  rw [sizeC2G, if_pos rfl, sizeEscape_eq]
  exact if_neg h

theorem sizeC2G_none {s : Bytes} (h : decoded s = none) (fuel l c : Nat) :
    sizeC2G fuel s l c = none := by
  induction fuel generalizing s l c with
  | zero => rfl
  | succ fuel ih =>
      fun_cases decoded s with
      | case1 => rfl
      | case2 s hshort => exact sizeC2G_short hshort fuel l c
      | case3 s hlong =>
          rw [decoded_escape (Nat.le_of_not_lt hlong)] at h
          rw [sizeC2G_escape hlong]
          exact ih (Option.map_eq_none_iff.mp h) _ _
      | case4 s =>
          rw [decoded_close] at h
          cases h
      | case5 b s hslash hquote =>
          rw [decoded_plain hslash hquote] at h
          rw [sizeC2G, if_neg hslash, if_neg hquote]
          exact ih (Option.map_eq_none_iff.mp h) _ _

/-- The position of the closing quote, less the characters that are left out, is the number
    of characters that are read. -/
theorem sizeC2G_some {s u : Bytes} (h : decoded s = some u) (fuel l c : Nat)
    (hfuel : s.length < fuel) :
    ∃ l' c', sizeC2G fuel s l c = some (l', c') ∧ l' + c = l + c' + u.length := by
  induction fuel generalizing s u l c with
  | zero => exact absurd hfuel (Nat.not_lt_zero _)
  | succ fuel ih =>
      fun_cases decoded s with
      | case1 =>
          rw [decoded_nil] at h
          cases h
      | case2 s hshort =>
          rw [decoded_short hshort] at h
          cases h
      | case3 s hlong =>
          rw [decoded_escape (Nat.le_of_not_lt hlong)] at h
          obtain ⟨v, hv, rfl⟩ := Option.map_eq_some_iff.mp h
          obtain ⟨l', c', hsize, hsum⟩ := ih hv (l + (fillEscape s).2)
            (c + ((fillEscape s).2 - 1)) (length_drop_escape hfuel)
          have htwo := two_le_fillEscape s
          refine ⟨l', c', by rw [sizeC2G_escape hlong, hsize], ?_⟩
          rw [List.length_cons]
          omega
      | case4 s =>
          rw [decoded_close] at h
          cases h
          exact ⟨l, c, by rw [sizeC2G, if_neg (by decide), if_pos rfl], rfl⟩
      | case5 b s hslash hquote =>
          rw [decoded_plain hslash hquote] at h
          obtain ⟨v, hv, rfl⟩ := Option.map_eq_some_iff.mp h
          obtain ⟨l', c', hsize, hsum⟩ := ih hv (l + 1) c (Nat.lt_of_succ_lt_succ hfuel)
          refine ⟨l', c', by rw [sizeC2G, if_neg hslash, if_neg hquote, hsize], ?_⟩
          rw [List.length_cons]
          omega

theorem fillC2G_spec {s u : Bytes} (h : decoded s = some u) (fuel : Nat) {c : Nat}
    {t : Buffer UInt8} (hfuel : s.length < fuel) (hpos : t.cells.length = c)
    (hfit : c + u.length + 1 ≤ t.size) :
    fillC2G fuel s c t = some (t.append (u ++ [0])) := by
  induction fuel generalizing s u c t with
  | zero => exact absurd hfuel (Nat.not_lt_zero _)
  | succ fuel ih =>
      fun_cases decoded s with
      | case1 =>
          rw [decoded_nil] at h
          cases h
      | case2 s hshort =>
          rw [decoded_short hshort] at h
          cases h
      | case3 s hlong =>
          rw [decoded_escape (Nat.le_of_not_lt hlong)] at h
          obtain ⟨v, hv, rfl⟩ := Option.map_eq_some_iff.mp h
          rw [List.length_cons] at hfit
          obtain ⟨hwrite, hlen⟩ := Buffer.write_one (fillEscape s).1 hpos (by omega)
          have hfill := ih hv (length_drop_escape hfuel) hlen
            (by rw [Buffer.size_append]; omega)
          simp only [fillC2G, if_true, if_neg hlong, hwrite, Option.bind_eq_bind,
            Option.bind_some, hfill, Buffer.append_append]
          rfl
      | case4 s =>
          rw [decoded_close] at h
          cases h
          rw [List.length_nil] at hfit
          rw [fillC2G, if_neg (by decide), if_pos rfl]
          exact (Buffer.write_one 0 hpos hfit).1
      | case5 b s hslash hquote =>
          rw [decoded_plain hslash hquote] at h
          obtain ⟨v, hv, rfl⟩ := Option.map_eq_some_iff.mp h
          rw [List.length_cons] at hfit
          obtain ⟨hwrite, hlen⟩ := Buffer.write_one b hpos (by omega)
          have hfill := ih hv (Nat.lt_of_succ_lt_succ hfuel) hlen
            (by rw [Buffer.size_append]; omega)
          simp only [fillC2G, if_neg hslash, if_neg hquote, hwrite, Option.bind_eq_bind,
            Option.bind_some, hfill, Buffer.append_append]
          rfl

/-- The cells that have been counted are the ones that are written. The assertion fails if
    a terminator has been read. -/
theorem strC2G_eq (s : Bytes) : strC2G (byte '"' :: s) = match decoded s with
    | none => .error .bound
    | some u => if 0 ∈ u then .error .assertion else .ok u := by
  rw [strC2G, if_neg (not_not_intro rfl)]
  cases hu : decoded s with
  | none =>
      rw [sizeC2G_none hu]
      rfl
  | some u =>
      obtain ⟨l, c, hsize, hsum⟩ := sizeC2G_some hu (s.length + 1) 1 0 (Nat.lt_succ_self _)
      have hfill := fillC2G_spec hu (s.length + 1) (t := Buffer.alloc (l - c)) (c := 0)
        (Nat.lt_succ_self _) rfl (by rw [Buffer.size_alloc]; omega)
      have hcells : l - c = u.length + 1 := by omega
      have hcheck : checked 0 ((Buffer.alloc (l - c)).append (u ++ [0])) =
          if 0 ∈ u then .error .assertion else .ok u := by
        split
        · rename_i hnul
          exact checked_of_mem hnul hcells [0]
        · rename_i hnul
          exact checked_append hnul hcells []
      rw [hsize]
      exact (congrArg (fun o => (orBound o).bind (checked 0)) hfill).trans hcheck

theorem strC2G_ok_iff {s u : Bytes} :
    strC2G (byte '"' :: s) = .ok u ↔ decoded s = some u ∧ 0 ∉ u := by
  rw [strC2G_eq]
  cases decoded s with
  | none => simp
  | some v =>
      by_cases hnul : 0 ∈ v
      · simp only [if_pos hnul, reduceCtorEq, Option.some.injEq, false_iff, not_and, not_not]
        rintro rfl
        exact hnul
      · simp only [if_neg hnul, Except.ok.injEq, Option.some.injEq]
        constructor
        · rintro rfl
          exact ⟨rfl, hnul⟩
        · exact And.left

end Passes

section Writing

/-- The number of cells is the one that is needed if two digits are printed for a code. -/
theorem sizeG2C_spec (s : Bytes) (l c : Nat) :
    (sizeG2C s l c).1 + (sizeG2C s l c).2 = l + c + (encoded s).length := by
  induction s generalizing l c with
  | nil => rfl
  | cons b s ih =>
      rw [sizeG2C, encoded_cons, List.length_append]
      by_cases hquote : b = byte '"'
      · rw [if_pos hquote, ih, hquote, encodedByte_quote]
        simp only [List.length_cons, List.length_nil]
        omega
      cases hcode : byCode b with
      | true =>
          rw [if_neg hquote, if_pos rfl, ih, encodedByte_code hcode]
          simp only [List.length_cons, List.length_nil]
          omega
      | false =>
          rw [if_neg hquote, if_neg Bool.false_ne_true, ih, encodedByte_plain hquote hcode,
            List.length_singleton]
          omega

/-- What the second pass has written in front of its position stays, also if more has been
    printed for a code than the two digits that are kept. -/
theorem fillG2C_prefix {s p : Bytes} {pos : Nat} {t t' : Buffer UInt8} (hp : p <+: t.cells)
    (hpos : p.length = pos) (h : fillG2C s pos t = some t') :
    p ++ encoded s ++ [byte '"', 0] <+: t'.cells ∧ t'.size = t.size := by
  induction s generalizing p pos t with
  | nil =>
      obtain ⟨t₁, h₁, h₂⟩ := Option.bind_eq_some_iff.mp h
      obtain ⟨hp₁, hsize₁⟩ := Buffer.write_prefix hp hpos h₁
      obtain ⟨hp₂, hsize₂⟩ := Buffer.write_prefix hp₁ (by simp [hpos]) h₂
      rw [encoded, List.flatMap_nil, List.append_nil]
      rw [List.append_assoc] at hp₂
      exact ⟨hp₂, hsize₂.trans hsize₁⟩
  | cons b s ih =>
      rw [fillG2C] at h
      rw [encoded_cons, ← List.append_assoc]
      by_cases hquote : b = byte '"'
      · rw [if_pos hquote] at h
        obtain ⟨t₁, h₁, h⟩ := Option.bind_eq_some_iff.mp h
        obtain ⟨t₂, h₂, h⟩ := Option.bind_eq_some_iff.mp h
        obtain ⟨hp₁, hsize₁⟩ := Buffer.write_prefix hp hpos h₁
        obtain ⟨hp₂, hsize₂⟩ := Buffer.write_prefix hp₁ (by simp [hpos]) h₂
        obtain ⟨hp₃, hsize₃⟩ := ih hp₂ (by simp [hpos]) h
        rw [List.append_assoc p] at hp₃
        rw [hquote, encodedByte_quote]
        exact ⟨hp₃, hsize₃.trans (hsize₂.trans hsize₁)⟩
      cases hcode : byCode b with
      | true =>
          rw [if_neg hquote, if_pos hcode] at h
          obtain ⟨t₁, h₁, h⟩ := Option.bind_eq_some_iff.mp h
          obtain ⟨t₂, h₂, h⟩ := Option.bind_eq_some_iff.mp h
          obtain ⟨t₃, h₃, h⟩ := Option.bind_eq_some_iff.mp h
          obtain ⟨hp₁, hsize₁⟩ := Buffer.write_prefix hp hpos h₁
          obtain ⟨hp₂, hsize₂⟩ := Buffer.write_prefix hp₁ (by simp [hpos]) h₂
          obtain ⟨hp₃, hsize₃⟩ := Buffer.write_prefix hp₂ (by simp [hpos]) h₃
          -- The pass goes on behind the second digit.
          have hdigits : p ++ encodedByte b <+: t₃.cells := by
            refine List.IsPrefix.trans ?_ hp₃
            rw [encodedByte, if_neg hquote, if_pos hcode, List.append_assoc, List.append_assoc]
            refine (List.prefix_append_right_inj p).mpr ?_
            refine List.cons_prefix_cons.mpr ⟨rfl, List.cons_prefix_cons.mpr ⟨rfl, ?_⟩⟩
            exact (List.take_prefix 2 _).trans (List.prefix_append _ _)
          have hlen : (p ++ encodedByte b).length = pos + 4 := by
            rw [encodedByte_code hcode, List.length_append, hpos]
            rfl
          obtain ⟨hp₄, hsize₄⟩ := ih hdigits hlen h
          exact ⟨hp₄, hsize₄.trans (hsize₃.trans (hsize₂.trans hsize₁))⟩
      | false =>
          rw [if_neg hquote, hcode, if_neg Bool.false_ne_true] at h
          obtain ⟨t₁, h₁, h⟩ := Option.bind_eq_some_iff.mp h
          obtain ⟨hp₁, hsize₁⟩ := Buffer.write_prefix hp hpos h₁
          obtain ⟨hp₂, hsize₂⟩ := ih hp₁ (by simp [hpos]) h
          rw [encodedByte_plain hquote hcode]
          exact ⟨hp₂, hsize₂.trans hsize₁⟩

/-- The second pass stays in the buffer if two digits are printed for every code. -/
theorem fillG2C_fits {s : Bytes} {c : Nat} {t : Buffer UInt8}
    (hs : ∀ b ∈ s, byCode b = true → (sprintf02x (signed b)).length = 2)
    (hfit : c + (encoded s).length + 2 ≤ t.size) : ∃ t', fillG2C s c t = some t' := by
  induction s generalizing c t with
  | nil =>
      rw [encoded, List.flatMap_nil, List.length_nil] at hfit
      obtain ⟨t₁, h₁, hsize₁⟩ := t.write_fits c [byte '"'] (show c + 1 ≤ _ by omega)
      obtain ⟨t₂, h₂, -⟩ := t₁.write_fits (c + 1) [0] (show c + 1 + 1 ≤ _ by omega)
      exact ⟨t₂, Option.bind_eq_some_iff.mpr ⟨t₁, h₁, h₂⟩⟩
  | cons b s ih =>
      obtain ⟨hb, hs⟩ := List.forall_mem_cons.mp hs
      rw [encoded_cons, List.length_append] at hfit
      rw [fillG2C]
      by_cases hquote : b = byte '"'
      · rw [hquote, encodedByte_quote, List.length_cons, List.length_singleton] at hfit
        obtain ⟨t₁, h₁, hsize₁⟩ := t.write_fits c [byte '\\'] (show c + 1 ≤ _ by omega)
        obtain ⟨t₂, h₂, hsize₂⟩ := t₁.write_fits (c + 1) [byte '"']
          (show c + 1 + 1 ≤ _ by omega)
        obtain ⟨t', h'⟩ := ih hs (show c + 2 + _ + 2 ≤ t₂.size by omega)
        refine ⟨t', ?_⟩
        rw [if_pos hquote]
        exact Option.bind_eq_some_iff.mpr ⟨t₁, h₁, Option.bind_eq_some_iff.mpr ⟨t₂, h₂, h'⟩⟩
      cases hcode : byCode b with
      | true =>
          have hdigits : (sprintf02x (signed b) ++ [0]).length = 3 := by
            rw [List.length_append, hb hcode]
            rfl
          rw [encodedByte_code hcode, show [_, _, _, _].length = 4 from rfl] at hfit
          obtain ⟨t₁, h₁, hsize₁⟩ := t.write_fits c [byte '\\'] (show c + 1 ≤ _ by omega)
          obtain ⟨t₂, h₂, hsize₂⟩ := t₁.write_fits (c + 1) [byte 'x']
            (show c + 1 + 1 ≤ _ by omega)
          obtain ⟨t₃, h₃, hsize₃⟩ := t₂.write_fits (c + 2) _ (by rw [hdigits]; omega)
          obtain ⟨t', h'⟩ := ih hs (show c + 4 + _ + 2 ≤ t₃.size by omega)
          refine ⟨t', ?_⟩
          rw [if_neg hquote, if_pos rfl]
          exact Option.bind_eq_some_iff.mpr ⟨t₁, h₁, Option.bind_eq_some_iff.mpr ⟨t₂, h₂,
            Option.bind_eq_some_iff.mpr ⟨t₃, h₃, h'⟩⟩⟩
      | false =>
          rw [encodedByte_plain hquote hcode, List.length_singleton] at hfit
          obtain ⟨t₁, h₁, hsize₁⟩ := t.write_fits c [b] (show c + 1 ≤ _ by omega)
          obtain ⟨t', h'⟩ := ih hs (show c + 1 + _ + 2 ≤ t₁.size by omega)
          refine ⟨t', ?_⟩
          rw [if_neg hquote, if_neg Bool.false_ne_true]
          exact Option.bind_eq_some_iff.mpr ⟨t₁, h₁, h'⟩

/-- What the second pass has written has the length that is asserted. -/
theorem checked_fillG2C {s : Bytes} {len : Nat} {t t' : Buffer UInt8}
    (ht : t = ⟨len, [byte '"']⟩) (hlen : len = (encoded s).length + 3)
    (h : fillG2C s 1 t = some t') :
    checked 0 t' = .ok (byte '"' :: encoded s ++ [byte '"']) := by
  subst ht
  obtain ⟨⟨rest, hrest⟩, hsize⟩ := fillG2C_prefix (p := [byte '"']) (List.prefix_refl _) rfl h
  have ht' : t' = ⟨len, (byte '"' :: encoded s ++ [byte '"']) ++ 0 :: rest⟩ := by
    obtain ⟨size, cells⟩ := t'
    rw [Buffer.mk.injEq]
    refine ⟨hsize, hrest.symm.trans ?_⟩
    simp only [List.append_assoc, List.cons_append, List.nil_append]
  have hnul : 0 ∉ byte '"' :: encoded s ++ [byte '"'] := by
    rw [List.cons_append, List.mem_cons, List.mem_append, List.mem_singleton]
    rintro (h | h | h)
    · exact absurd h (by decide)
    · exact absurd (printable_of_mem_encoded h).1 (by decide)
    · exact absurd h (by decide)
  rw [ht']
  refine checked_append hnul ?_ rest
  rw [hlen, List.cons_append, List.length_cons, List.length_append, List.length_singleton]

theorem sizeG2C_total (s : Bytes) :
    (sizeG2C s 0 0).1 + 3 + (sizeG2C s 0 0).2 = (encoded s).length + 3 := by
  have hsize := sizeG2C_spec s 0 0
  omega

theorem write_first (n : Nat) (b : UInt8) :
    (Buffer.alloc (n + 3)).write 0 [b] = some ⟨n + 3, [b]⟩ :=
  Buffer.write_end rfl (show 0 + 1 ≤ n + 3 by omega)

theorem strG2C_eq (s : Bytes) :
    strG2C s = (orBound (fillG2C s 1 ⟨(encoded s).length + 3, [byte '"']⟩)).bind (checked 0) := by
  simp only [strG2C, sizeG2C_total, write_first]
  rfl

/-- What the writer returns, if it stays in its buffer. -/
theorem strG2C_ok {s g : Bytes} (h : strG2C s = .ok g) :
    g = byte '"' :: encoded s ++ [byte '"'] := by
  rw [strG2C_eq] at h
  cases hfill : fillG2C s 1 ⟨(encoded s).length + 3, [byte '"']⟩ with
  | none =>
      rw [hfill] at h
      cases h
  | some t' =>
      rw [hfill] at h
      exact Except.ok.inj (h.symm.trans (checked_fillG2C rfl rfl hfill))

theorem strG2C_of_kept {s : Bytes} (h : ∀ b ∈ s, Kept b) :
    strG2C s = .ok (byte '"' :: encoded s ++ [byte '"']) := by
  obtain ⟨t', hfill⟩ := fillG2C_fits (t := ⟨(encoded s).length + 3, [byte '"']⟩) (c := 1)
    (fun b hb => ((readBack_byte b).2 (h b hb)).2.2) (show 1 + _ + 2 ≤ _ + 3 by omega)
  rw [strG2C_eq, hfill]
  exact checked_fillG2C rfl rfl hfill

end Writing

section Escapes

/-- What the reader makes of an escape. -/
def Escape.read (e : Escape) : UInt8 := (fillEscape e.text).1

def Item.read : Item → UInt8
  | .char b => b
  | .escape e => e.read

theorem octalDigit_props : ∀ d : Fin 8,
    isOctal (octalDigit d) = true ∧ octalDigit d ≠ byte 'x' := by
  decide

theorem octalDigit_first (d : Fin 4) :
    isOctal (octalDigit d) = true ∧ octalDigit d ≠ byte 'x' :=
  octalDigit_props (d.castLE (by decide))

theorem forall_hexDigit {P : HexDigit → Prop} : (∀ d, P d) ↔
    (∀ d, P (.decimal d)) ∧ (∀ d, P (.lower d)) ∧ ∀ d, P (.upper d) := by
  refine ⟨fun h => ⟨fun d => h _, fun d => h _, fun d => h _⟩, ?_⟩
  rintro ⟨hdecimal, hlower, hupper⟩ (d | d | d)
  · exact hdecimal d
  · exact hlower d
  · exact hupper d

instance {P : HexDigit → Prop} [DecidablePred P] : Decidable (∀ d, P d) :=
  decidable_of_iff _ forall_hexDigit.symm

theorem isxdigit_text : ∀ d : HexDigit, isxdigit d.text = true := by decide

theorem fillEscape_octal1 {d : UInt8} (hd : isOctal d = true ∧ d ≠ byte 'x') {rest : Bytes}
    (h : isOctal (rest.getD 0 0) = false) : fillEscape (d :: rest) = (d - byte '0', 2) := by
  simp only [fillEscape, List.getD_cons_zero, List.getD_cons_succ, hd, h, if_false, if_true,
    Bool.false_eq_true]

theorem fillEscape_octal2 {d e : UInt8} (hd : isOctal d = true ∧ d ≠ byte 'x')
    (he : isOctal e = true) {rest : Bytes} (h : isOctal (rest.getD 0 0) = false) :
    fillEscape (d :: e :: rest) = ((d - byte '0') * 8 + (e - byte '0'), 3) := by
  simp only [fillEscape, List.getD_cons_zero, List.getD_cons_succ, hd, he, h, if_false, if_true,
    Bool.false_eq_true]

theorem fillEscape_octal3 {d e f : UInt8} (hd : isOctal d = true ∧ d ≠ byte 'x')
    (he : isOctal e = true) (hf : isOctal f = true) (rest : Bytes) :
    fillEscape (d :: e :: f :: rest) =
      (((d - byte '0') * 8 + (e - byte '0')) * 8 + (e - byte '0'), 4) := by
  simp only [fillEscape, List.getD_cons_zero, List.getD_cons_succ, hd, he, hf, if_false, if_true]

theorem fillEscape_hex1 {d : UInt8} {rest : Bytes} (h : isxdigit (rest.getD 0 0) = false) :
    fillEscape (byte 'x' :: d :: rest) = (hexValue d, 3) := by
  simp only [fillEscape, List.getD_cons_zero, List.getD_cons_succ, h, if_false, if_true,
    Bool.false_eq_true]

theorem fillEscape_hex2 {d e : UInt8} (he : isxdigit e = true) (rest : Bytes) :
    fillEscape (byte 'x' :: d :: e :: rest) = (hexValue d * 16 + hexValue e, 4) := by
  simp only [fillEscape, List.getD_cons_zero, List.getD_cons_succ, he, if_true]

/-- The reader sees nothing of what stands behind an escape. -/
theorem fillEscape_text {e : Escape} {rest : Bytes} (h : e.Ends rest) :
    fillEscape (e.text ++ rest) = (e.read, e.text.length + 1) := by
  cases e with
  | octal1 d =>
      have hd := octalDigit_props d
      have hread : (Escape.octal1 d).read = _ := congrArg Prod.fst (fillEscape_octal1 hd rfl)
      rw [hread]
      exact fillEscape_octal1 hd h
  | octal2 d e =>
      have hd := octalDigit_props d
      have he := (octalDigit_props e).1
      have hread : (Escape.octal2 d e).read = _ :=
        congrArg Prod.fst (fillEscape_octal2 hd he rfl)
      rw [hread]
      exact fillEscape_octal2 hd he h
  | octal3 d e f =>
      have hd := octalDigit_first d
      have he := (octalDigit_props e).1
      have hf := (octalDigit_props f).1
      have hread : (Escape.octal3 d e f).read = _ :=
        congrArg Prod.fst (fillEscape_octal3 hd he hf [])
      rw [hread]
      exact fillEscape_octal3 hd he hf rest
  | hex1 d =>
      have hread : (Escape.hex1 d).read = _ := congrArg Prod.fst (fillEscape_hex1 rfl)
      rw [hread]
      exact fillEscape_hex1 h
  | hex2 d e =>
      have he := isxdigit_text e
      have hread : (Escape.hex2 d e).read = _ := congrArg Prod.fst (fillEscape_hex2 he [])
      rw [hread]
      exact fillEscape_hex2 he rest
  | named n => cases n <;> rfl

/-- An escape is read as what it means, and not as a terminator, if and only if it is one of
    the right ones. -/
theorem Escape.read_iff (e : Escape) : e.read = e.value ∧ e.read ≠ 0 ↔ e.Right := by
  cases e with
  | octal1 d => revert d; decide +kernel
  | octal2 d e => revert d e; decide +kernel
  | octal3 d e f => revert d e f; decide +kernel
  | hex1 d => revert d; decide +kernel
  | hex2 d e => revert d e; decide +kernel
  | named n => cases n <;> exact iff_of_true ⟨rfl, by decide⟩ trivial

/-- The closing quote is no digit. -/
theorem ends_append {e : Escape} {s : Bytes} (h : e.Ends s) : e.Ends (s ++ [byte '"']) := by
  cases s with
  | nil => cases e <;> trivial
  | cons b s => cases e <;> exact h

theorem decoded_textOf {is : List Item} (h : Literal is) :
    decoded (textOf is ++ [byte '"']) = some (is.map Item.read) := by
  induction h with
  | nil => exact decoded_close []
  | @char b is _ hslash hquote _ ih =>
      have htext : textOf (.char b :: is) = b :: textOf is := rfl
      rw [htext, List.cons_append, decoded_plain hslash hquote, ih]
      rfl
  | @escape e is hends _ ih =>
      have htext : textOf (.escape e :: is) = byte '\\' :: (e.text ++ textOf is) := by
        rw [textOf, List.flatMap_cons]
        rfl
      have hfill := fillEscape_text (ends_append hends)
      have hdrop : (e.text ++ (textOf is ++ [byte '"'])).drop (e.text.length + 1 - 1) =
          textOf is ++ [byte '"'] := List.drop_left
      rw [htext, List.cons_append, List.append_assoc, decoded_escape (by
        rw [hfill, List.length_append]
        exact Nat.le_add_right _ _), hfill, hdrop, ih]
      rfl

theorem read_iff_of_literal {is : List Item} (h : Literal is) :
    is.map Item.read = is.map Item.value ∧ 0 ∉ is.map Item.read ↔
      ∀ e, Item.escape e ∈ is → e.Right := by
  induction h with
  | nil => simp
  | @char b is hnul _ _ _ ih =>
      simp only [List.map_cons, List.cons.injEq, List.mem_cons, not_or, reduceCtorEq, false_or]
      rw [← ih]
      exact ⟨fun h => ⟨h.1.2, h.2.2⟩, fun h => ⟨⟨rfl, h.1⟩, Ne.symm hnul, h.2⟩⟩
  | @escape e is _ _ ih =>
      simp only [List.map_cons, List.cons.injEq, List.mem_cons, not_or, Item.escape.injEq,
        forall_eq_or_imp]
      rw [← ih, ← e.read_iff]
      constructor
      · exact fun h => ⟨⟨h.1.1, Ne.symm h.2.1⟩, h.1.2, h.2.2⟩
      · exact fun h => ⟨⟨h.1.1, h.2.1⟩, Ne.symm h.1.2, h.2.2⟩

end Escapes

/-- A string comes back if and only if each of its characters is among those that do, and a
    string of C is read as C reads it if and only if each of its escapes is a right one. -/
theorem cCodec_iff {s : Bytes} (hs : 0 ∉ s) {is : List Item} (his : Literal is) :
    (RoundTrips s ↔ ∀ b ∈ s, Kept b) ∧
      (strC2G (byte '"' :: (textOf is ++ [byte '"'])) = .ok (is.map Item.value) ↔
        ∀ e, Item.escape e ∈ is → e.Right) := by
  constructor
  · constructor
    · rintro ⟨g, hwrite, hread⟩
      rw [strG2C_ok hwrite, List.cons_append, strC2G_ok_iff] at hread
      exact (decoded_encoded_iff hs).mp hread.1
    · intro h
      refine ⟨_, strG2C_of_kept h, ?_⟩
      rw [List.cons_append, strC2G_ok_iff]
      exact ⟨(decoded_encoded_iff hs).mpr h, hs⟩
  · rw [strC2G_ok_iff, decoded_textOf his, ← read_iff_of_literal his, Option.some.injEq]
    constructor
    · exact fun h => ⟨h.1, h.1 ▸ h.2⟩
    · exact fun h => ⟨h.1, h.1 ▸ h.2⟩

theorem cCodec_iff_octal :
    (RoundTrips [0x09, 0x41] ↔ ∀ b ∈ [0x09, 0x41], Kept b) ∧
      (strC2G (byte '"' :: (textOf [.escape (.octal3 1 2 2), .char (byte '1')] ++ [byte '"'])) =
          .ok [0x52, byte '1'] ↔
        ∀ e, Item.escape e ∈ [Item.escape (.octal3 1 2 2), .char (byte '1')] → e.Right) :=
  cCodec_iff (by decide) (.escape trivial (.char (by decide) (by decide) (by decide) .nil))

/-- A newline is read as a terminator, and a backslash takes the closing quote. The eight
    digits of a negative code have no room at the end. A hexadecimal letter counts from zero
    on, and the last of three octal digits is the second one. -/
theorem cCodec_differs :
    (strG2C [0x0a] = .ok [byte '"', byte '\\', byte 'x', byte '0', byte 'a', byte '"'] ∧
      ¬ RoundTrips [0x0a]) ∧
    (strG2C [byte '\\'] = .ok [byte '"', byte '\\', byte '"'] ∧ ¬ RoundTrips [byte '\\']) ∧
    (strG2C [0xc8] = .error .bound ∧ ¬ RoundTrips [0xc8]) ∧
    strC2G [byte '"', byte '\\', byte 'x', byte '4', byte 'a', byte '"'] = .ok [0x40] ∧
    strC2G [byte '"', byte '\\', byte '1', byte '2', byte '3', byte '"'] = .ok [0x52] := by
  decide +kernel

end XevXml.Tools.StringC
