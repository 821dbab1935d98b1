/-!
# The bytes of a text

A text is stored as the bytes of its characters, from one to four for each. Positions in a text are
counted in bytes, and it can be cut only where a character ends: `splitAt?`, `slice?` and
`bytesFrom?` fail everywhere else. Behind characters of one byte each, a position in bytes is a
position in characters.
-/

namespace Esoterica

/-- The bytes of a text in UTF-8. -/
def encode (text : List Char) : List UInt8 :=
  text.flatMap String.utf8EncodeChar

/-- The bytes lead to a place between two characters of the text, or to one of its ends. -/
def IsBoundary (text : List Char) (bytes : Nat) : Prop :=
  (⟨bytes⟩ : String.Pos.Raw).IsValid (String.ofList text)

/-- The parts of a text before and behind a position, if no character is cut there. -/
def splitAt? : (text : List Char) → (bytes : Nat) → Option (List Char × List Char)
  | text, 0 => some ([], text)
  | [], _ + 1 => none
  | c :: rest, bytes + 1 =>
    if c.utf8Size ≤ bytes + 1 then
      (splitAt? rest (bytes + 1 - c.utf8Size)).map fun parts => (c :: parts.1, parts.2)
    else
      none

/-- The part of a text between two positions, which have to be in order. -/
def slice? (text : List Char) (start stop : Nat) : Option (List Char) :=
  (splitAt? text stop).bind fun parts => (splitAt? parts.1 start).map Prod.snd

/-- The bytes from a position on, which may be their end but not behind it. -/
def bytesFrom? (bytes : List UInt8) (start : Nat) : Option (List UInt8) :=
  if start ≤ bytes.length then some (bytes.drop start) else none

section

variable {text front rest : List Char} {bytes : Nat}

theorem encode_cons (c : Char) (text : List Char) :
    encode (c :: text) = String.utf8EncodeChar c ++ encode text :=
  List.flatMap_cons

theorem encode_append (front rest : List Char) :
    encode (front ++ rest) = encode front ++ encode rest :=
  List.flatMap_append

theorem utf8ByteSize_ofList (text : List Char) :
    (String.ofList text).utf8ByteSize = (encode text).length := by
  induction text with
  | nil => rfl
  | cons c rest ih =>
      rw [String.ofList_cons, String.utf8ByteSize_append, String.utf8ByteSize_singleton, ih,
        encode_cons, List.length_append, String.length_utf8EncodeChar]

/-! ### Cutting texts -/

theorem splitAt?_append (front rest : List Char) :
    splitAt? (front ++ rest) (encode front).length = some (front, rest) := by
  induction front with
  | nil => simp [encode, splitAt?]
  | cons c front ih =>
      have positive := c.utf8Size_pos
      have size : (encode (c :: front)).length = c.utf8Size + (encode front).length := by
        rw [encode_cons, List.length_append, String.length_utf8EncodeChar]
      obtain ⟨bytes, succ⟩ : ∃ bytes, c.utf8Size + (encode front).length = bytes + 1 :=
        ⟨c.utf8Size + (encode front).length - 1, by omega⟩
      have left : bytes + 1 - c.utf8Size = (encode front).length := by omega
      rw [List.cons_append, size, succ, splitAt?, if_pos (by omega), left, ih]
      rfl

theorem eq_append_of_splitAt? (splits : splitAt? text bytes = some (front, rest)) :
    text = front ++ rest ∧ (encode front).length = bytes := by
  induction text generalizing bytes front with
  | nil =>
      cases bytes with
      | zero =>
          cases splits
          exact ⟨rfl, rfl⟩
      | succ => cases splits
  | cons c text ih =>
      cases bytes with
      | zero =>
          cases splits
          exact ⟨rfl, rfl⟩
      | succ bytes =>
          rw [splitAt?] at splits
          split at splits
          case isTrue fits =>
            rcases Option.map_eq_some_iff.mp splits with ⟨⟨before, behind⟩, found, same⟩
            cases same
            rcases ih found with ⟨rfl, size⟩
            refine ⟨rfl, ?_⟩
            rw [encode_cons, List.length_append, String.length_utf8EncodeChar, size]
            omega
          case isFalse => cases splits

/-- A text can be cut exactly between its characters. -/
theorem isSome_splitAt?_iff : (splitAt? text bytes).isSome = true ↔ IsBoundary text bytes := by
  rw [IsBoundary, String.Pos.Raw.isValid_ofList]
  simp only [utf8ByteSize_ofList]
  constructor
  · intro isSome
    rcases Option.isSome_iff_exists.mp isSome with ⟨⟨front, rest⟩, splits⟩
    rcases eq_append_of_splitAt? splits with ⟨rfl, rfl⟩
    exact ⟨front.length, by rw [List.take_left]⟩
  · rintro ⟨count, rfl⟩
    have splits := splitAt?_append (text.take count) (text.drop count)
    rw [List.take_append_drop] at splits
    rw [splits]
    rfl

theorem bytesFrom?_append (front rest : List UInt8) :
    bytesFrom? (front ++ rest) front.length = some rest := by
  rw [bytesFrom?, if_pos (by simp), List.drop_left]

/-! ### Characters of one byte -/

theorem length_encode (single : ∀ c ∈ text, c.utf8Size = 1) :
    (encode text).length = text.length := by
  induction text with
  | nil => rfl
  | cons c rest ih =>
      rcases List.forall_mem_cons.mp single with ⟨first, others⟩
      rw [encode_cons, List.length_append, String.length_utf8EncodeChar, first, ih others,
        List.length_cons, Nat.add_comm]

/-- Up to the end of characters of one byte, bytes count characters. -/
theorem isBoundary_of_single (isFront : front <+: text) (single : ∀ c ∈ front, c.utf8Size = 1)
    {cut : Nat} (inside : cut ≤ front.length) : IsBoundary text cut := by
  rcases isFront with ⟨rest, rfl⟩
  have singleToo : ∀ c ∈ front.take cut, c.utf8Size = 1 :=
    fun c mem => single c (List.mem_of_mem_take mem)
  have splits := splitAt?_append (front.take cut) (front.drop cut ++ rest)
  rw [← List.append_assoc, List.take_append_drop, length_encode singleToo, List.length_take,
    Nat.min_eq_left inside] at splits
  apply isSome_splitAt?_iff.mp
  rw [splits]
  rfl

/-- A slice that ends, like the one before it, behind characters of one byte. -/
theorem slice?_append {middle : List Char} (single : ∀ c ∈ front ++ middle, c.utf8Size = 1)
    (rest : List Char) :
    slice? (front ++ middle ++ rest) front.length (front ++ middle).length = some middle := by
  have frontSingle := (List.forall_mem_append.mp single).1
  rw [slice?, ← length_encode single, splitAt?_append, ← length_encode frontSingle]
  simp only [Option.bind_some, splitAt?_append, Option.map_some]

/-! ### First bytes -/

theorem utf8EncodeChar_of_single {c : Char} (single : c.utf8Size = 1) :
    String.utf8EncodeChar c = [c.toUInt8] :=
  String.utf8EncodeChar_eq_singleton single

theorem toNat_toUInt8_of_single {c : Char} (single : c.utf8Size = 1) :
    c.toUInt8.toNat = c.toNat ∧ c.toNat < 128 := by
  have small := UInt32.le_iff_toNat_le.mp (Char.utf8Size_eq_one_iff.mp single)
  have lt : c.toNat < 128 := Nat.lt_succ_of_le small
  refine ⟨?_, lt⟩
  exact (UInt32.toNat_toUInt8 c.val).trans (Nat.mod_eq_of_lt (Nat.lt_trans lt (by decide)))

/-- The first of several bytes of a character is none of one byte. -/
theorem exists_utf8EncodeChar_of_wide {c : Char} (wide : c.utf8Size ≠ 1) :
    ∃ first more, String.utf8EncodeChar c = first :: more ∧ 128 ≤ first.toNat := by
  have marked (byte mark : UInt8) (high : 128 ≤ mark.toNat) : 128 ≤ (byte ||| mark).toNat := by
    rw [UInt8.toNat_or]
    exact Nat.le_trans high Nat.right_le_or
  have positive := c.utf8Size_pos
  have bounded := c.utf8Size_le_four
  obtain two | three | four : c.utf8Size = 2 ∨ c.utf8Size = 3 ∨ c.utf8Size = 4 := by omega
  · exact ⟨_, _, String.utf8EncodeChar_eq_cons_cons two, marked _ _ (by decide)⟩
  · exact ⟨_, _, String.utf8EncodeChar_eq_cons_cons_cons three, marked _ _ (by decide)⟩
  · exact ⟨_, _, String.utf8EncodeChar_eq_cons_cons_cons_cons four, marked _ _ (by decide)⟩

/-- A text starts with the byte of a character exactly if it starts with the character. -/
theorem head?_encode_iff {c : Char} (single : c.utf8Size = 1) :
    (encode text).head? = some c.toUInt8 ↔ text.head? = some c := by
  rcases toNat_toUInt8_of_single single with ⟨byte, small⟩
  cases text with
  | nil => simp [encode]
  | cons first rest =>
      rw [encode_cons, List.head?_cons]
      by_cases isSingle : first.utf8Size = 1
      · have firstByte := (toNat_toUInt8_of_single isSingle).1
        rw [utf8EncodeChar_of_single isSingle]
        simp only [List.cons_append, List.head?_cons, Option.some.injEq]
        rw [← UInt8.toNat_inj, firstByte, byte, Char.toNat_inj]
      · rcases exists_utf8EncodeChar_of_wide isSingle with ⟨byte, more, encodes, high⟩
        rw [encodes]
        simp only [List.cons_append, List.head?_cons, Option.some.injEq]
        constructor
        · rintro rfl
          omega
        · rintro rfl
          exact absurd single isSingle

/-- What stands behind characters of one byte is found by their number. -/
theorem getElem?_encode_iff {c : Char} (single : ∀ c ∈ front, c.utf8Size = 1)
    (isSingle : c.utf8Size = 1) :
    (encode (front ++ rest))[front.length]? = some c.toUInt8 ↔ rest.head? = some c := by
  rw [← head?_encode_iff isSingle, encode_append, ← length_encode single,
    List.getElem?_append_right (Nat.le_refl _), Nat.sub_self, List.head?_eq_getElem?]

end

end Esoterica
