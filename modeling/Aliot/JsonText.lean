import Aliot.Json

set_option autoImplicit false

namespace Json

-- A byte that stands for itself between two quotes.
def plainByte (byte : UInt8) : Bool := byte != quote && byte != backslash && 0x20 ≤ byte

def plain (body : List UInt8) : Bool := body.all plainByte

theorem plain_byte_parts (byte : UInt8) (isPlain : plainByte byte = true) :
    byte ≠ quote ∧ byte ≠ backslash ∧ (0x20 ≤ byte) := by
  simp only [plainByte, Bool.and_eq_true, bne_iff_ne, ne_eq, decide_eq_true_eq] at isPlain
  exact ⟨isPlain.1.1, isPlain.1.2, isPlain.2⟩

theorem string_body_plain (byte : UInt8) (body : List UInt8) (isPlain : plainByte byte = true) :
    stringBody 0 (byte :: body) = stringBody 0 body := by
  obtain ⟨notQuote, notBackslash, printable⟩ := plain_byte_parts byte isPlain
  conv_lhs => rw [stringBody.eq_def]
  simp [notBackslash, notQuote, printable]

theorem plain_string_body (body : List UInt8) (isPlain : plain body = true) : stringBody 0 body = true := by
  induction body with
  | nil => rfl
  | cons byte body ih =>
      obtain ⟨first, rest⟩ := Bool.and_eq_true_iff.mp isPlain
      rw [string_body_plain byte body first]
      exact ih rest

def hexValue (byte : UInt8) : Nat :=
  if isDigit byte then byte.toNat - 0x30 else if 0x61 ≤ byte then byte.toNat - 0x57 else byte.toNat - 0x37

-- The byte that a letter behind a backslash stands for, other than u.
def escapedByte (letter : UInt8) : UInt8 :=
  if letter = 0x62 then 0x08 else if letter = 0x66 then 0x0c else if letter = 0x6e then 0x0a
  else if letter = 0x72 then 0x0d else if letter = 0x74 then 0x09 else letter

inductive CodeUnit where
  | byte (byte : UInt8)
  | utf16 (code : Nat)

-- As in stringBody, with the digits of a code point still to come and the value of those read.
def units : Nat → Nat → List UInt8 → List CodeUnit
  | _, _, [] => []
  | hex + 1, code, byte :: rest =>
      if hex = 0 then .utf16 (code * 16 + hexValue byte) :: units 0 0 rest
      else units hex (code * 16 + hexValue byte) rest
  | 0, _, byte :: rest =>
      if byte = backslash then
        match rest with
        | [] => []
        | letter :: rest =>
            if letter = 0x75 then units 4 0 rest else .byte (escapedByte letter) :: units 0 0 rest
      else .byte byte :: units 0 0 rest

def utf8 (code : Nat) : List UInt8 :=
  if code < 0x80 then [UInt8.ofNat code]
  else if code < 0x800 then [UInt8.ofNat (0xc0 + code / 64), UInt8.ofNat (0x80 + code % 64)]
  else if code < 0x10000 then
    [UInt8.ofNat (0xe0 + code / 4096), UInt8.ofNat (0x80 + code / 64 % 64), UInt8.ofNat (0x80 + code % 64)]
  else
    [UInt8.ofNat (0xf0 + code / 262144), UInt8.ofNat (0x80 + code / 4096 % 64), UInt8.ofNat (0x80 + code / 64 % 64),
      UInt8.ofNat (0x80 + code % 64)]

-- Two surrogates make one character.
def assemble : List CodeUnit → List UInt8
  | [] => []
  | .byte byte :: rest => byte :: assemble rest
  | .utf16 high :: .utf16 low :: rest =>
      if 0xd800 ≤ high ∧ high < 0xdc00 ∧ 0xdc00 ≤ low ∧ low < 0xe000 then
        utf8 (0x10000 + (high - 0xd800) * 0x400 + (low - 0xdc00)) ++ assemble rest
      else utf8 high ++ assemble (.utf16 low :: rest)
  | .utf16 code :: rest => utf8 code ++ assemble rest

-- The string that the text between two quotes stands for.
def unescape (body : List UInt8) : List UInt8 := assemble (units 0 0 body)

theorem units_plain (body : List UInt8) (isPlain : plain body = true) : units 0 0 body = body.map .byte := by
  induction body with
  | nil => rfl
  | cons byte body ih =>
      obtain ⟨first, rest⟩ := Bool.and_eq_true_iff.mp isPlain
      have notBackslash := (plain_byte_parts byte first).2.1
      rw [units.eq_def]
      simp only [notBackslash, if_false, ih rest, List.map_cons]

theorem assemble_bytes (body : List UInt8) : assemble (body.map .byte) = body := by
  induction body with
  | nil => rfl
  | cons byte body ih => rw [List.map_cons, assemble, ih]

theorem unescape_plain (body : List UInt8) (isPlain : plain body = true) : unescape body = body := by
  rw [unescape, units_plain body isPlain, assemble_bytes]

def CodeUnit.size : CodeUnit → Nat
  | .byte _ => 1
  | .utf16 _ => 4

def size : List CodeUnit → Nat
  | [] => 0
  | unit :: codes => unit.size + size codes

theorem utf8_length (code : Nat) : (utf8 code).length ≤ 4 := by
  unfold utf8
  repeat' split
  all_goals simp

theorem assemble_length (codes : List CodeUnit) : (assemble codes).length ≤ size codes := by
  fun_induction assemble codes with
  | case1 => exact Nat.le_refl 0
  | case2 byte rest ih =>
      simp only [size, CodeUnit.size, List.length_cons] at ih ⊢
      omega
  | case3 high low rest pair ih =>
      have bound := utf8_length (0x10000 + (high - 0xd800) * 0x400 + (low - 0xdc00))
      simp only [size, CodeUnit.size, List.length_append] at ih ⊢
      omega
  | case4 high low rest single ih =>
      have bound := utf8_length high
      simp only [size, CodeUnit.size, List.length_append] at ih ⊢
      omega
  | case5 code rest single ih =>
      have bound := utf8_length code
      simp only [size, CodeUnit.size, List.length_append] at ih ⊢
      omega

-- A code point takes six bytes, at most four of which come out again.
theorem units_size (hex code : Nat) (text : List UInt8) (few : hex ≤ 4) :
    size (units hex code text) ≤ text.length + if hex = 0 then 0 else 4 - hex := by
  fun_induction units hex code text with
  | case1 => exact Nat.zero_le _
  | case2 code byte rest ih =>
      have bound := ih (Nat.zero_le 4)
      simp only [size, CodeUnit.size, List.length_cons, if_true] at bound ⊢
      simp
      omega
  | case3 hex code byte rest more ih =>
      have bound := ih (by omega)
      simp only [more, if_false, List.length_cons, Nat.add_one_ne_zero] at bound ⊢
      omega
  | case4 => exact Nat.zero_le _
  | case5 code rest ih =>
      have bound := ih (Nat.le_refl 4)
      simp only [List.length_cons] at bound ⊢
      simp at bound
      omega
  | case6 code letter rest other ih =>
      have bound := ih (Nat.zero_le 4)
      simp only [size, CodeUnit.size, List.length_cons, if_true] at bound ⊢
      omega
  | case7 code byte rest other ih =>
      have bound := ih (Nat.zero_le 4)
      simp only [size, CodeUnit.size, List.length_cons, if_true] at bound ⊢
      omega

theorem unescape_length (body : List UInt8) : (unescape body).length ≤ body.length :=
  Nat.le_trans (assemble_length _) (units_size 0 0 body (Nat.zero_le 4))

-- Only a plain text stands for as many bytes as it has.
theorem plain_of_size (body : List UInt8) (valid : stringBody 0 body = true) (whole : body.length ≤ size (units 0 0 body)) :
    plain body = true := by
  induction body with
  | nil => rfl
  | cons byte rest ih =>
      by_cases escape : byte = backslash
      · exfalso
        rw [units.eq_def] at whole
        simp only [escape, if_true] at whole
        cases rest with
        | nil => simp [size] at whole
        | cons letter rest =>
            simp only at whole
            split at whole
            · have bound := units_size 4 0 rest (Nat.le_refl 4)
              simp only [List.length_cons] at whole
              simp at bound
              omega
            · have bound := units_size 0 0 rest (Nat.zero_le 4)
              simp only [size, CodeUnit.size, List.length_cons, if_true] at whole bound
              omega
      · rw [stringBody.eq_def] at valid
        simp only [escape, if_false, Bool.and_eq_true, decide_eq_true_eq] at valid
        rw [units.eq_def] at whole
        simp only [escape, if_false, size, CodeUnit.size, List.length_cons] at whole
        have isPlain : plainByte byte = true := by simp [plainByte, valid.1, escape]
        have tail := ih valid.2 (by omega)
        exact Bool.and_eq_true_iff.mpr ⟨isPlain, tail⟩

def isQuote (byte : UInt8) : Bool := byte == quote

def CodeUnit.isQuote : CodeUnit → Bool
  | .byte letter => Json.isQuote letter
  | .utf16 _ => false

theorem hex_not_quote (byte : UInt8) (hex : isHex byte = true) : ¬ isQuote byte = true := by
  intro same
  rw [show byte = quote from beq_iff_eq.mp same] at hex
  cases hex

theorem units_quotes (hex code : Nat) (text : List UInt8) (valid : stringBody hex text = true) :
    text.countP isQuote ≤ (units hex code text).countP CodeUnit.isQuote := by
  fun_induction units hex code text with
  | case1 => exact Nat.zero_le _
  | case2 code byte rest ih =>
      obtain ⟨digit, more⟩ := Bool.and_eq_true_iff.mp (by simpa only [stringBody] using valid)
      rw [List.countP_cons_of_neg (hex_not_quote byte digit), List.countP_cons_of_neg (by simp [CodeUnit.isQuote])]
      exact ih more
  | case3 hex code byte rest _ ih =>
      obtain ⟨digit, more⟩ := Bool.and_eq_true_iff.mp (by simpa only [stringBody] using valid)
      rw [List.countP_cons_of_neg (hex_not_quote byte digit)]
      exact ih more
  | case4 => cases valid
  | case5 code rest ih =>
      have notEscape : ¬ isEscape 0x75 = true := by decide
      simp only [stringBody, if_true, notEscape] at valid
      rw [List.countP_cons_of_neg (by decide), List.countP_cons_of_neg (by decide)]
      exact ih (by simpa using valid)
  | case6 code letter rest other ih =>
      have more : stringBody 0 rest = true := by
        simp only [stringBody, if_true] at valid
        split at valid
        · exact valid
        · simp [other] at valid
      rw [List.countP_cons_of_neg (by decide), List.countP_cons, List.countP_cons]
      have kept : (if isQuote letter = true then 1 else 0) ≤
          if (CodeUnit.byte (escapedByte letter)).isQuote = true then 1 else 0 := by
        by_cases same : letter = quote
        · rw [same]
          exact Nat.le_refl 1
        · simp [isQuote, same]
      exact Nat.add_le_add (ih more) kept
  | case7 code byte rest other ih =>
      rw [stringBody.eq_def] at valid
      simp only [other, if_false, Bool.and_eq_true] at valid
      rw [List.countP_cons, List.countP_cons]
      exact Nat.add_le_add_right (ih valid.2) _

theorem assemble_quotes (codes : List CodeUnit) : codes.countP CodeUnit.isQuote ≤ (assemble codes).countP isQuote := by
  fun_induction assemble codes with
  | case1 => exact Nat.zero_le _
  | case2 byte rest ih =>
      rw [List.countP_cons, List.countP_cons]
      exact Nat.add_le_add_right ih _
  | case3 high low rest pair ih =>
      rw [List.countP_cons_of_neg (by simp [CodeUnit.isQuote]), List.countP_cons_of_neg (by simp [CodeUnit.isQuote]),
        List.countP_append]
      exact Nat.le_trans ih (Nat.le_add_left _ _)
  | case4 high low rest single ih =>
      rw [List.countP_cons_of_neg (by simp [CodeUnit.isQuote]), List.countP_append]
      exact Nat.le_trans ih (Nat.le_add_left _ _)
  | case5 code rest single ih =>
      rw [List.countP_cons_of_neg (by simp [CodeUnit.isQuote]), List.countP_append]
      exact Nat.le_trans ih (Nat.le_add_left _ _)

-- A string that is put between quotes and comes back from there was plain: otherwise the text up to the closing quote
-- is longer than the string, and holds one more quote than it stands for.
theorem quoted_back (body given rest after : List UInt8) (valid : stringBody 0 body = true) (back : unescape body = given)
    (same : given ++ quote :: rest = body ++ quote :: after) : plain given = true ∧ body = given ∧ rest = after := by
  have short : given.length ≤ body.length := back ▸ unescape_length body
  obtain ⟨extra, whole⟩ : given <+: body :=
    List.prefix_of_prefix_length_le (List.prefix_append given _) (same ▸ List.prefix_append body _) short
  rw [← whole, List.append_assoc] at same
  have left := List.append_cancel_left same
  cases extra with
  | nil =>
      rw [List.append_nil] at whole
      have exact := assemble_length (units 0 0 body)
      rw [show assemble (units 0 0 body) = given from back, whole] at exact
      exact ⟨whole ▸ plain_of_size body valid exact, whole.symm, (List.cons.inj left).2⟩
  | cons byte extra =>
      exfalso
      obtain ⟨rfl, _⟩ := List.cons.inj left
      have one : isQuote quote = true := rfl
      have quotes := Nat.le_trans (units_quotes 0 0 body valid) (assemble_quotes _)
      rw [show assemble (units 0 0 body) = given from back, ← whole, List.countP_append, List.countP_cons,
        if_pos one] at quotes
      omega

theorem well_formed_append (members more : Members) :
    (members.append more).wellFormed = (members.wellFormed && more.wellFormed) := by
  induction members using Members.spine_induction with
  | nil => rfl
  | cons key value rest ih => simp only [Members.append, Members.wellFormed, ih, Bool.and_assoc]

end Json
