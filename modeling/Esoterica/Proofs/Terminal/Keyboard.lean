import Esoterica.Proofs.Text.Bytes
import Esoterica.Terminal.Keyboard

/-!
# The keys of a stream

A stream of bytes is a row of lines, and each line that is UTF-8 is a row of characters. The keys of
a stream are those of its characters up to the first line that cannot be read. A keyboard gives
them one after the other, although it reads a line only when the one before it is used up.
-/

namespace Esoterica

namespace Key

/-- The keys of the control characters. -/
def controls : List (Char × Key) :=
  [('\n', enter), ('\t', tab), ('\x08', backspace), ('\x7f', backspace), ('\x1b', escape)]

/-- The keys of a typed text: carriage returns are left out, and the others have one key each. -/
def typed (text : List Char) : List Key :=
  (text.filter (· != '\r')).map fun c => (controls.lookup c).getD (char c)

theorem typed_append (left right : List Char) :
    typed (left ++ right) = typed left ++ typed right := by
  simp [typed]

theorem typed_cons (c : Char) (rest : List Char) :
    typed (c :: rest) = (ofTyped? c).toList ++ typed rest := by
  unfold ofTyped?
  split
  · rfl
  · rfl
  · rfl
  · rfl
  · rfl
  · rfl
  · rename_i notReturn notNewline notTab notBackspace notDelete notEscape
    have printable : c ≠ '\n' ∧ c ≠ '\t' ∧ c ≠ '\x08' ∧ c ≠ '\x7f' ∧ c ≠ '\x1b' :=
      ⟨notNewline, notTab, notBackspace, notDelete, notEscape⟩
    have noControl : controls.lookup c = none := by
      simpa [List.lookup_eq_none_iff, controls] using printable
    have kept : (c :: rest).filter (· != '\r') = c :: rest.filter (· != '\r') :=
      List.filter_cons_of_pos (bne_iff_ne.mpr notReturn)
    simp [typed, kept, noControl]

end Key

namespace Keyboard

/-- The lines of a stream, each with its line break. -/
def lines : List UInt8 → List (List UInt8)
  | [] => []
  | byte :: rest =>
    if byte = 10 then [byte] :: lines rest
    else
      match lines rest with
      | [] => [[byte]]
      | line :: others => (byte :: line) :: others

/-- The text of the lines up to the first one that is not UTF-8, and whether there is one. -/
inductive Reads : List (List UInt8) → List Char → Option InvalidText → Prop where
  | nil : Reads [] [] none
  | line {others : List (List UInt8)} {rest : List Char} {flaw : Option InvalidText}
      (text : List Char) (reads : Reads others rest flaw) :
      Reads (encode text :: others) (text ++ rest) flaw
  | invalid {line : List UInt8} {others : List (List UInt8)}
      (invalid : ∀ text, encode text ≠ line) : Reads (line :: others) [] (some {})

theorem fromUTF8?_eq_some_iff {bytes : ByteArray} {string : String} :
    String.fromUTF8? bytes = some string ↔ string.toByteArray = bytes := by
  constructor
  · intro decodes
    by_cases valid : bytes.IsValidUTF8
    · have isString : String.fromUTF8? bytes = some (String.fromUTF8 bytes valid) := dif_pos valid
      cases isString.symm.trans decodes
      rfl
    · have isNone : String.fromUTF8? bytes = none := dif_neg valid
      cases isNone.symm.trans decodes
  · rintro rfl
    exact dif_pos string.isValidUTF8

theorem decode?_eq_some_iff {bytes : List UInt8} {text : List Char} :
    decode? bytes = some text ↔ encode text = bytes := by
  have encoded : encode text = bytes ↔ text.utf8Encode = ⟨bytes.toArray⟩ := by
    rw [ByteArray.ext_iff]
    simp [encode, List.utf8Encode]
  rw [encoded, decode?, Option.map_eq_some_iff]
  simp only [fromUTF8?_eq_some_iff]
  constructor
  · rintro ⟨string, isBytes, rfl⟩
    rw [String.utf8Encode_toList, isBytes]
  · intro isBytes
    exact ⟨String.ofList text, isBytes, String.toList_ofList⟩

theorem exists_reads (lines : List (List UInt8)) : ∃ text flaw, Reads lines text flaw := by
  induction lines with
  | nil => exact ⟨[], none, .nil⟩
  | cons line others ih =>
      rcases ih with ⟨rest, flaw, reads⟩
      by_cases valid : ∃ text, encode text = line
      · rcases valid with ⟨text, rfl⟩
        exact ⟨text ++ rest, flaw, .line text reads⟩
      · exact ⟨[], some {}, .invalid (not_exists.mp valid)⟩

theorem Reads.eq_of_nil {text : List Char} {flaw : Option InvalidText}
    (reads : Reads [] text flaw) : text = [] ∧ flaw = none := by
  cases reads
  exact ⟨rfl, rfl⟩

theorem Reads.cons_cases {line : List UInt8} {others : List (List UInt8)} {text : List Char}
    {flaw : Option InvalidText} (reads : Reads (line :: others) text flaw) :
    (∃ first rest, encode first = line ∧ text = first ++ rest ∧ Reads others rest flaw) ∨
      (∀ first, encode first ≠ line) ∧ text = [] ∧ flaw = some {} := by
  cases reads with
  | line first reads => exact Or.inl ⟨first, _, rfl, rfl, reads⟩
  | invalid invalid => exact Or.inr ⟨invalid, rfl, rfl⟩

theorem lines_cons (byte : UInt8) (rest : List UInt8) :
    lines (byte :: rest) =
      (splitLine (byte :: rest)).1 :: lines (splitLine (byte :: rest)).2 := by
  induction rest generalizing byte with
  | nil =>
      simp only [lines, splitLine]
      split
      · rfl
      · rfl
  | cons next rest ih =>
      rw [lines, splitLine]
      split
      · rfl
      · rw [ih next]

/-- The answer to a call for the next key when there is none. -/
def closing : Option InvalidText → Except InvalidText (Option Key)
  | none => .ok none
  | some flaw => .error flaw

/-- The answers to calls for the next key. -/
def takes (keyboard : Keyboard) : Nat → List (Except InvalidText (Option Key))
  | 0 => []
  | count + 1 => keyboard.take.1 :: keyboard.take.2.takes count

/-- What a keyboard has left: keys, and then the end or a line that cannot be read. -/
def Holds (keyboard : Keyboard) (keys : List Key) (flaw : Option InvalidText) : Prop :=
  ∃ text, Reads (lines keyboard.unread) text flaw ∧ keys = Key.typed (keyboard.pending ++ text)

theorem typed_of_firstKey?_eq_some {pending rest : List Char} {key : Key}
    (first : firstKey? pending = some (key, rest)) :
    Key.typed pending = key :: Key.typed rest := by
  induction pending with
  | nil => cases first
  | cons c pending ih =>
      rw [firstKey?] at first
      rw [Key.typed_cons]
      split at first
      · rename_i keyOfC isKey
        cases first
        simp [isKey]
      · rename_i isNone
        simpa [isNone] using ih first

theorem typed_of_firstKey?_eq_none {pending : List Char} (noKey : firstKey? pending = none) :
    Key.typed pending = [] := by
  induction pending with
  | nil => rfl
  | cons c pending ih =>
      rw [firstKey?] at noKey
      rw [Key.typed_cons]
      split at noKey
      · cases noKey
      · rename_i isNone
        simpa [isNone] using ih noKey

/-- What a call for the next key can give, and what the keyboard has left then. -/
inductive Taken (flaw : Option InvalidText) :
    List Key → Except InvalidText (Option Key) × Keyboard → Prop where
  | key {key : Key} {rest : List Key} {after : Keyboard} (holds : after.Holds rest flaw) :
      Taken flaw (key :: rest) (.ok (some key), after)
  | ended {after : Keyboard} : Taken flaw [] (closing flaw, after)

theorem takeFrom_taken (pending : List Char) (unread : List UInt8) {text : List Char}
    {flaw : Option InvalidText} (reads : Reads (lines unread) text flaw) :
    Taken flaw (Key.typed (pending ++ text)) (takeFrom pending unread) := by
  induction pending, unread using takeFrom.induct generalizing text with
  | case1 pending unread key rest first =>
      rw [takeFrom.eq_def, first, Key.typed_append, typed_of_firstKey?_eq_some first,
        List.cons_append, ← Key.typed_append]
      exact .key ⟨text, reads, rfl⟩
  | case2 pending noKey =>
      rcases reads.eq_of_nil with ⟨rfl, rfl⟩
      rw [takeFrom, noKey, List.append_nil, typed_of_firstKey?_eq_none noKey]
      exact .ended
  | case3 pending noKey byte rest line decodes ih =>
      rw [lines_cons] at reads
      -- The next line is read only when the line before it has no key left.
      rcases reads.cons_cases with ⟨first, more, isLine, rfl, readsMore⟩ | ⟨invalid, _, _⟩
      · cases (decode?_eq_some_iff.mpr isLine).symm.trans decodes
        rw [takeFrom, noKey, Key.typed_append, typed_of_firstKey?_eq_none noKey, List.nil_append]
        simp only [decodes]
        exact ih readsMore
      · exact absurd (decode?_eq_some_iff.mp decodes) (invalid line)
  | case4 pending noKey byte rest undecoded =>
      rw [lines_cons] at reads
      rcases reads.cons_cases with ⟨first, more, isLine, _, _⟩ | ⟨_, rfl, rfl⟩
      · cases (decode?_eq_some_iff.mpr isLine).symm.trans undecoded
      · rw [takeFrom, noKey, List.append_nil, typed_of_firstKey?_eq_none noKey]
        simp only [undecoded]
        exact .ended

theorem Holds.taken {keyboard : Keyboard} {keys : List Key} {flaw : Option InvalidText}
    (holds : keyboard.Holds keys flaw) :
    Taken flaw keys keyboard.take := by
  rcases holds with ⟨text, reads, rfl⟩
  exact takeFrom_taken keyboard.pending keyboard.unread reads

theorem Holds.takes_eq {keyboard : Keyboard} {keys : List Key} {flaw : Option InvalidText}
    (holds : keyboard.Holds keys flaw) :
    keyboard.takes (keys.length + 1) = keys.map (fun key => .ok (some key)) ++ [closing flaw] := by
  induction keys generalizing keyboard with
  | nil =>
      have taken := holds.taken
      generalize isTaken : keyboard.take = answer at taken
      cases taken with
      | ended => simp [takes, isTaken]
  | cons key keys ih =>
      have taken := holds.taken
      generalize isTaken : keyboard.take = answer at taken
      cases taken with
      | key holdsAfter =>
          rw [List.length_cons, takes, isTaken, ih holdsAfter]
          rfl

end Keyboard

end Esoterica
