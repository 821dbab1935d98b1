import Esoterica.ShortO.Scan
import Esoterica.Proofs.Binary64.LongestNumber

/-!
# Printing programs of the stack language

Every program can be printed: its markers as `#name;` in front of the tokens they point at, a text
with `\` before each of its characters, and every other token in a block of its own. What is printed
is read back as the same program, whatever characters stand in texts, strings and names.
-/

namespace Esoterica

/-- A number without sign and exponent as it is written: `D+` or `D+.D*`. -/
structure Numeral where
  whole : List Char
  fraction? : Option (List Char)
  whole_ne_nil : whole ≠ []
  isDigit_of_mem_whole : ∀ c ∈ whole, c.isDigit = true
  isDigit_of_mem_fraction : ∀ fraction ∈ fraction?, ∀ c ∈ fraction, c.isDigit = true

namespace Numeral

def spell (numeral : Numeral) : List Char :=
  match numeral.fraction? with
  | none => numeral.whole
  | some fraction => numeral.whole ++ '.' :: fraction

/-- The digits behind the point. -/
def fraction (numeral : Numeral) : List Char :=
  numeral.fraction?.getD []

/-- The number nearest to the decimal that the numeral denotes. -/
def value (numeral : Numeral) : Binary64 :=
  Decimal.toBinary64 false
    ⟨Decimal.ofDigitChars (numeral.whole ++ numeral.fraction), -numeral.fraction.length⟩

/-- The numeral as a literal without an exponent. -/
def literal (numeral : Numeral) : Decimal.Literal where
  whole := numeral.whole
  fraction? := numeral.fraction?
  exponent? := none
  isDigit_of_mem_whole := numeral.isDigit_of_mem_whole
  isDigit_of_mem_fraction := by
    cases given : numeral.fraction? with
    | none => simp
    | some fraction => exact numeral.isDigit_of_mem_fraction fraction given
  some_digit := .inl numeral.whole_ne_nil

theorem text_literal (numeral : Numeral) : numeral.literal.text = numeral.spell := by
  rcases numeral with ⟨whole, _ | fraction, _, _, _⟩
  · simp [spell, literal, Decimal.Literal.text, Decimal.pointed, Decimal.exponentText]
  · simp [spell, literal, Decimal.Literal.text, Decimal.pointed, Decimal.exponentText]

/-- A numeral is read as its value. -/
theorem readStart_spell (numeral : Numeral) : Binary64.readStart numeral.spell = numeral.value := by
  have reads := Binary64.readStart_literal (.inl rfl) numeral.literal
  rw [List.nil_append, text_literal] at reads
  have decimal : numeral.literal.decimal =
      ⟨Decimal.ofDigitChars (numeral.whole ++ numeral.fraction), -numeral.fraction.length⟩ :=
    congrArg (Decimal.mk _) (Int.zero_sub _)
  rw [reads, decimal]
  rfl

end Numeral

namespace Markers

/-- Where every name has one entry, the entries are what is found. -/
theorem find?_eq_some_iff {markers : Markers} (single : (markers.entries.map Prod.fst).Nodup)
    {name : String} {index : Nat} :
    markers.find? name = some index ↔ (name, index) ∈ markers.entries := by
  rcases markers with ⟨entries⟩
  simp only [find?] at *
  induction entries with
  | nil => simp
  | cons entry rest ih =>
      rcases entry with ⟨other, position⟩
      rcases List.nodup_cons.mp single with ⟨onlyHere, restSingle⟩
      by_cases same : name = other
      · subst same
        have notLater : (name, index) ∉ rest := fun mem =>
          onlyHere (List.mem_map.mpr ⟨(name, index), mem, rfl⟩)
        simp [notLater, eq_comm]
      · have differs : (name == other) = false := beq_eq_false_iff_ne.mpr same
        simp [List.lookup_cons, differs, same, ih restSingle]

/-- The order of the entries is not seen by look-ups. -/
theorem find?_eq_of_perm {markers others : Markers} (perm : markers.entries.Perm others.entries)
    (single : (others.entries.map Prod.fst).Nodup) (name : String) :
    markers.find? name = others.find? name := by
  have alsoSingle := (perm.map Prod.fst).nodup_iff.mpr single
  apply Option.ext
  intro index
  rw [find?_eq_some_iff alsoSingle, find?_eq_some_iff single, perm.mem_iff]

/-- A name that is new comes last. -/
theorem insert_eq_of_notMem {markers : Markers} {name : String} (index : Nat)
    (new : name ∉ markers.entries.map Prod.fst) :
    markers.insert name index = ⟨markers.entries ++ [(name, index)]⟩ := by
  have kept : markers.entries.filter (·.1 != name) = markers.entries := by
    apply List.filter_eq_self.mpr
    intro entry mem
    simp only [bne_iff_ne, ne_eq]
    rintro rfl
    exact new (List.mem_map_of_mem mem)
  rw [insert, kept]

end Markers

namespace ShortO

/-- A token as it is written; of a number, also how it is written. -/
inductive Piece where
  | text (content : String)
  | string (content : String)
  | number (numeral : Numeral)
  | operator (symbol : Char)
  | jump (name : String)

namespace Piece

def token : Piece → Token
  | text content => .text content
  | string content => .value (.text content)
  | number numeral => .value (.number numeral.value)
  | operator symbol => .operator symbol
  | jump name => .jump name

/-- A character as it stands in a string. -/
def escape (c : Char) : List Char :=
  if c = '"' ∨ c = '\\' then ['\\', c] else [c]

def block (content : List Char) : List Char :=
  '$' :: (content ++ [';'])

/-- An empty block ends a text; every other token has a block of its own. -/
def spell : Piece → List Char
  | text content => content.toList.flatMap (['\\', ·]) ++ block []
  | string content => block ('"' :: (content.toList.flatMap escape ++ ['"']))
  | number numeral => block numeral.spell
  | operator symbol => block [symbol]
  | jump name => block ('#' :: (name.toList ++ [';']))

/-- The piece can stand in a program with these operators and markers. -/
def Fits (registry : Registry) (markers : Markers) : Piece → Prop
  | text content => content ≠ ""
  | string _ => True
  | number numeral => numeral.value.isFinite = true
  | operator symbol => registry.contains symbol = true
  | jump name => (markers.find? name).isSome = true

instance (registry : Registry) (markers : Markers) :
    (piece : Piece) → Decidable (piece.Fits registry markers)
  | text content => inferInstanceAs (Decidable (content ≠ ""))
  | string _ => inferInstanceAs (Decidable True)
  | number numeral => inferInstanceAs (Decidable (numeral.value.isFinite = true))
  | operator symbol => inferInstanceAs (Decidable (registry.contains symbol = true))
  | jump name => inferInstanceAs (Decidable ((markers.find? name).isSome = true))

end Piece

def spellMarker (name : String) : List Char :=
  '#' :: (name.toList ++ [';'])

/-- The definitions of the markers that point at an index. -/
def spellMarkersAt (markers : List (String × Nat)) (index : Nat) : List Char :=
  (markers.filter (·.2 == index)).flatMap fun entry => spellMarker entry.1

/-- The pieces, of which the first has the given index, each behind the markers pointing at it. -/
def spellFrom (markers : List (String × Nat)) (index : Nat) : List Piece → List Char
  | [] => spellMarkersAt markers index
  | piece :: rest =>
    spellMarkersAt markers index ++ (piece.spell ++ spellFrom markers (index + 1) rest)

def print (markers : Markers) (pieces : List Piece) : String :=
  String.ofList (spellFrom markers.entries 0 pieces)

/-- The table of a program with a number of tokens that can be printed: a name has one position, in
the program or at its end, and no semicolon to cut it short. -/
structure Printable (markers : Markers) (size : Nat) : Prop where
  single : (markers.entries.map Prod.fst).Nodup
  unbroken : ∀ entry ∈ markers.entries, ';' ∉ entry.1.toList
  within : ∀ entry ∈ markers.entries, entry.2 ≤ size

/-- No operator is taken for something else in a block that ends with `;`. -/
def Registry.Plain (registry : Registry) : Prop :=
  ∀ symbol, registry.contains symbol = true →
    symbol ≠ '"' ∧ symbol ≠ '#' ∧ symbol ≠ ';' ∧ symbol.isDigit = false ∧ isBlank symbol = false

theorem Registry.standard_plain : Registry.standard.Plain := by
  intro symbol registered
  rcases List.lookup_isSome_iff.mp registered with ⟨entry, mem, same⟩
  have symbols : ∀ entry ∈ Registry.standard.entries, entry.1 ≠ '"' ∧ entry.1 ≠ '#' ∧
      entry.1 ≠ ';' ∧ entry.1.isDigit = false ∧ isBlank entry.1 = false := by
    decide
  rw [beq_iff_eq.mp same]
  exact symbols entry mem

namespace Scan

variable {registry : Registry}

theorem scanner : Scanner (step registry) (steps registry) :=
  ⟨fun _ _ => rfl, fun _ _ _ _ => rfl⟩

theorem step_dollar {scan : Scan} {read : String} (inText : scan.mode = .text read) (offset : Nat) :
    scan.step registry offset '$' = .ok (scan.endText read (.block ';')) := by
  simp [step, stepText, inText]

theorem step_close {scan : Scan} (inBlock : scan.mode = .block ';') (offset : Nat) :
    scan.step registry offset ';' = .ok { scan with mode := .text "" } := by
  simp [step, stepBlock, inBlock]

/-- A block is read by its content, if the semicolon behind that ends it. -/
theorem steps_block {scan inside after : Scan} {content : List Char} {offset : Nat}
    (inText : scan.mode = .text "")
    (reads : Scan.steps registry { scan with mode := .block ';' } (offset + 1) content = .ok inside)
    (closes : ∀ offset, inside.step registry offset ';' = .ok after) :
    scan.steps registry offset (Piece.block content) = .ok after := by
  have opens : scan.step registry (offset + 1) '$' = .ok { scan with mode := .block ';' } := by
    simp [step_dollar inText, endText]
  rw [Piece.block, scanner.cons_of_ok opens, scanner.append_of_ok reads]
  exact scanner.single_of_ok (closes _)

theorem steps_text {scan : Scan} {content : String} (inText : scan.mode = .text "")
    (nonempty : content ≠ "") (offset : Nat) :
    scan.steps registry offset (Piece.text content).spell = .ok (scan.push (.text content)) := by
  let having (read : String) : Scan := { scan with mode := .text read }
  have adds : ∀ c ∈ content.toList, ∀ (read : String) (offset : Nat),
      (having read).steps registry offset ['\\', c] = .ok (having (read.push c)) := by
    intro c _ read offset
    have escapes : (having read).step registry (offset + 1) '\\' =
        .ok { scan with mode := .textEscape read } := by
      simp [step, stepText, having]
    rw [scanner.cons_of_ok escapes]
    exact scanner.single_of_ok rfl
  have added := scanner.flatMap_of_adds having (['\\', ·]) adds "" offset
  have start : having "" = scan := by simp [having, ← inText]
  rw [String.ofList_toList, String.empty_append, start] at added
  rw [Piece.spell, scanner.append_of_ok added, Piece.block,
    scanner.cons_of_ok (step_dollar rfl _), List.nil_append,
    scanner.single_of_ok (step_close rfl _)]
  simp [endText, nonempty, push, inText, having]

theorem steps_string {scan : Scan} (inText : scan.mode = .text "") (content : String)
    (offset : Nat) :
    scan.steps registry offset (Piece.string content).spell =
      .ok (scan.push (.value (.text content))) := by
  let having (read : String) : Scan := { scan with mode := .string ';' read }
  have adds : ∀ c ∈ content.toList, ∀ (read : String) (offset : Nat),
      (having read).steps registry offset (Piece.escape c) = .ok (having (read.push c)) := by
    intro c _ read offset
    by_cases special : c = '"' ∨ c = '\\'
    · have meant : unescape c = c := by
        rcases special with rfl | rfl
        · rfl
        · rfl
      have escapes : (having read).step registry (offset + 1) '\\' =
          .ok { scan with mode := .stringEscape ';' read } := by
        simp [step, having]
      rw [Piece.escape, if_pos special, scanner.cons_of_ok escapes]
      apply scanner.single_of_ok
      simp [step, meant, having]
    · rcases not_or.mp special with ⟨noQuote, noEscape⟩
      rw [Piece.escape, if_neg special]
      apply scanner.single_of_ok
      simp [step, noQuote, noEscape, having]
  have opens (offset : Nat) : Scan.step registry { scan with mode := .block ';' } offset '"' =
      .ok (having "") := by
    simp [step, stepBlock, having]
  have ends (read : String) (offset : Nat) : (having read).step registry offset '"' =
      .ok { scan.push (.value (.text read)) with mode := .block ';' } := by
    simp [step, push, having]
  have added := scanner.flatMap_of_adds having Piece.escape adds "" (offset + 2)
  rw [String.ofList_toList, String.empty_append] at added
  apply steps_block inText
  · rw [scanner.cons_of_ok (opens _), scanner.append_of_ok added]
    exact scanner.single_of_ok (ends _ _)
  · intro offset
    simp [step_close, push, inText]

/-- The name in a jump is all that stands before the semicolon. -/
theorem steps_jump {scan : Scan} {name : String} (inText : scan.mode = .text "")
    (unbroken : ';' ∉ name.toList) (offset : Nat) :
    scan.steps registry offset (Piece.jump name).spell =
      .ok { scan.push (.jump name) with jumps := scan.jumps.push (name, offset + 2) } := by
  let having (read : String) : Scan := { scan with mode := .jump ';' (offset + 2) read }
  have adds : ∀ c ∈ name.toList, ∀ (read : String) (offset : Nat),
      (having read).step registry offset c = .ok (having (read.push c)) := by
    intro c mem read offset
    have goesOn : c ≠ ';' := by
      rintro rfl
      exact unbroken mem
    simp [step, goesOn, having]
  have opens : Scan.step registry { scan with mode := .block ';' } (offset + 2) '#' =
      .ok (having "") := by
    simp [step, stepBlock, having]
  have ends (other : Nat) : (having name).step registry other ';' =
      .ok ((having name).endJump ';' (offset + 2) name) := by
    simp [step, having]
  have added := scanner.text_of_adds having adds "" (offset + 2)
  rw [String.ofList_toList, String.empty_append] at added
  apply steps_block inText
  · rw [scanner.cons_of_ok opens, scanner.append_of_ok added]
    exact scanner.single_of_ok (ends _)
  · intro offset
    simp [step_close, endJump, push, having, inText]

theorem steps_operator {scan : Scan} {symbol : Char} (plain : registry.Plain)
    (inText : scan.mode = .text "") (registered : registry.contains symbol = true)
    (offset : Nat) :
    scan.steps registry offset (Piece.operator symbol).spell =
      .ok (scan.push (.operator symbol)) := by
  rcases plain symbol registered with ⟨noQuote, noJump, noEnd, noDigit, visible⟩
  have pushes (offset : Nat) : Scan.step registry { scan with mode := .block ';' } offset symbol =
      .ok { scan.push (.operator symbol) with mode := .block ';' } := by
    simp [step, stepBlock, noEnd, noQuote, noJump, noDigit, visible, registered, push]
  apply steps_block inText
  · exact scanner.single_of_ok (pushes _)
  · intro offset
    simp [step_close, push, inText]

theorem step_digit {scan : Scan} {digit : Char} {read : String} {point : Bool}
    (isDigit : digit.isDigit = true) (inNumber : scan.mode = .number ';' read point)
    (offset : Nat) :
    scan.step registry offset digit =
      .ok { scan with mode := .number ';' (read.push digit) point } := by
  simp [step, inNumber, isDigit]

theorem step_firstDigit {scan : Scan} {digit : Char} (isDigit : digit.isDigit = true)
    (inBlock : scan.mode = .block ';') (offset : Nat) :
    scan.step registry offset digit =
      .ok { scan with mode := .number ';' digit.toString false } := by
  have differs {c : Char} (noDigit : c.isDigit = false) : digit ≠ c := by
    rintro rfl
    simp [isDigit] at noDigit
  have noEnd : digit ≠ ';' := differs (by decide)
  have noQuote : digit ≠ '"' := differs (by decide)
  have noJump : digit ≠ '#' := differs (by decide)
  simp [step, stepBlock, inBlock, noEnd, noQuote, noJump, isDigit]

theorem step_point {scan : Scan} {read : String} (inNumber : scan.mode = .number ';' read false)
    (offset : Nat) :
    scan.step registry offset '.' = .ok { scan with mode := .number ';' (read.push '.') true } := by
  simp [step, inNumber]

/-- In a block, a numeral is taken for a number as far as it goes. -/
theorem steps_numeral {scan : Scan} (inBlock : scan.mode = .block ';') (numeral : Numeral)
    (offset : Nat) :
    ∃ point, scan.steps registry offset numeral.spell =
      .ok { scan with mode := .number ';' (String.ofList numeral.spell) point } := by
  rcases numeral with ⟨whole, fraction?, nonempty, wholeDigits, fractionDigits⟩
  let having (point : Bool) (read : String) : Scan := { scan with mode := .number ';' read point }
  have adds (point : Bool) {digits : List Char} (areDigits : ∀ c ∈ digits, c.isDigit = true) :
      ∀ c ∈ digits, ∀ (read : String) (offset : Nat),
        (having point read).step registry offset c = .ok (having point (read.push c)) :=
    fun c mem read offset => step_digit (areDigits c mem) rfl offset
  have readsWhole : scan.steps registry offset whole =
      .ok (having false (String.ofList whole)) := by
    rcases List.exists_cons_of_ne_nil nonempty with ⟨first, more, rfl⟩
    have moreDigits : ∀ c ∈ more, c.isDigit = true := fun c mem => wholeDigits c (by simp [mem])
    have firstDigit : first.isDigit = true := wholeDigits first (by simp)
    rw [scanner.cons_of_ok (step_firstDigit firstDigit inBlock _), String.ofList_cons]
    exact scanner.text_of_adds (having false) (adds false moreDigits) first.toString
      (offset + 1)
  rcases fraction? with _ | fraction
  · exact ⟨false, readsWhole⟩
  · refine ⟨true, ?_⟩
    have readsFraction := scanner.text_of_adds (having true)
      (adds true (fractionDigits fraction rfl)) ((String.ofList whole).push '.')
      (offset + whole.length + 1)
    rw [Numeral.spell, scanner.append_of_ok readsWhole,
      scanner.cons_of_ok (step_point rfl _), readsFraction]
    simp [having, String.push_eq_append, String.ofList_append, String.ofList_cons,
      String.append_assoc]

theorem steps_number {scan : Scan} {numeral : Numeral} (inText : scan.mode = .text "")
    (finite : numeral.value.isFinite = true) (offset : Nat) :
    scan.steps registry offset (Piece.number numeral).spell =
      .ok (scan.push (.value (.number numeral.value))) := by
  have ofNumber : Value.ofNumber numeral.value = .number numeral.value := by
    cases value : numeral.value with
    | finite negative magnitude => rfl
    | nan | infinite =>
        rw [value] at finite
        cases finite
  obtain ⟨point, reads⟩ :
      ∃ point, Scan.steps registry { scan with mode := .block ';' } (offset + 1) numeral.spell =
        .ok { scan with mode := .number ';' (String.ofList numeral.spell) point } :=
    steps_numeral rfl numeral (offset + 1)
  apply steps_block inText reads
  intro offset
  have ends : ';' ≠ '.' := by decide
  simp [step, endNumber, stepBlock, push, numeral.readStart_spell, ofNumber, inText, ends]

/-- A definition of a marker that is not there yet points at the next token. -/
theorem steps_marker {scan : Scan} {name : String} (inText : scan.mode = .text "")
    (unbroken : ';' ∉ name.toList) (new : name ∉ scan.markers.entries.map Prod.fst)
    (offset : Nat) :
    scan.steps registry offset (spellMarker name) =
      .ok { scan with markers := ⟨scan.markers.entries ++ [(name, scan.tokens.size)]⟩ } := by
  let having (read : String) : Scan := { scan with mode := .marker read }
  have adds : ∀ c ∈ name.toList, ∀ (read : String) (offset : Nat),
      (having read).step registry offset c = .ok (having (read.push c)) := by
    intro c mem read offset
    have goesOn : c ≠ ';' := by
      rintro rfl
      exact unbroken mem
    simp [step, goesOn, having]
  have opens : scan.step registry (offset + 1) '#' = .ok (having "") := by
    simp [step, stepText, endText, inText, having]
  have notFound : scan.markers.find? name = none := by
    apply List.lookup_eq_none_iff.mpr
    intro entry mem
    apply bne_iff_ne.mpr
    rintro rfl
    exact new (List.mem_map_of_mem mem)
  have added := scanner.text_of_adds having adds "" (offset + 1)
  rw [String.ofList_toList, String.empty_append] at added
  rw [spellMarker, scanner.cons_of_ok opens, scanner.append_of_ok added]
  apply scanner.single_of_ok
  simp [step, endMarker, notFound, Markers.insert_eq_of_notMem _ new, inText, having]

/-- Definitions of new markers are all read. -/
theorem steps_markers {more : List (String × Nat)} {scan : Scan} (inText : scan.mode = .text "")
    (unbroken : ∀ entry ∈ more, ';' ∉ entry.1.toList)
    (here : ∀ entry ∈ more, entry.2 = scan.tokens.size)
    (single : ((scan.markers.entries ++ more).map Prod.fst).Nodup) (offset : Nat) :
    scan.steps registry offset (more.flatMap fun entry => spellMarker entry.1) =
      .ok { scan with markers := ⟨scan.markers.entries ++ more⟩ } := by
  induction more generalizing scan offset with
  | nil => simp [steps]
  | cons entry rest ih =>
      rcases entry with ⟨name, index⟩
      have atSize : index = scan.tokens.size := here (name, index) (by simp)
      have new : name ∉ scan.markers.entries.map Prod.fst := by
        intro defined
        rw [List.map_append] at single
        exact (List.nodup_append.mp single).2.2 name defined name (by simp) rfl
      have unbrokenName : ';' ∉ name.toList := unbroken (name, index) (by simp)
      rw [List.flatMap_cons, scanner.append_of_ok (steps_marker inText unbrokenName new offset),
        ih]
      · simp [atSize]
      · exact inText
      · exact fun entry mem => unbroken entry (by simp [mem])
      · exact fun entry mem => here entry (by simp [mem])
      · simpa [atSize] using single

/-- The entries before the next index are those before an index and those at it. -/
theorem filter_lt_succ_perm (entries : List (String × Nat)) (index : Nat) :
    (entries.filter (·.2 < index) ++ entries.filter (·.2 == index)).Perm
      (entries.filter (·.2 < index + 1)) := by
  have parts := List.filter_append_perm (·.2 < index) (entries.filter (·.2 < index + 1))
  have before : (entries.filter (·.2 < index + 1)).filter (·.2 < index) =
      entries.filter (·.2 < index) := by
    rw [List.filter_filter]
    apply List.filter_congr
    intro entry _
    simp only [← Bool.decide_and, decide_eq_decide]
    omega
  have here : (entries.filter (·.2 < index + 1)).filter (fun entry => !decide (entry.2 < index)) =
      entries.filter (·.2 == index) := by
    rw [List.filter_filter]
    apply List.filter_congr
    intro entry _
    rw [Bool.eq_iff_iff]
    simp only [Bool.and_eq_true, Bool.not_eq_true', decide_eq_true_eq, decide_eq_false_iff_not,
      beq_iff_eq]
    omega
  rwa [before, here] at parts

/-- What is known of a scan between two tokens: the markers below an index are defined, and all
jumps that were read name markers. -/
structure Reached (markers : Markers) (index : Nat) (scan : Scan) : Prop where
  inText : scan.mode = .text ""
  defined : scan.markers.entries.Perm (markers.entries.filter (·.2 < index))
  known : ∀ jump ∈ scan.jumps, (markers.find? jump.1).isSome = true

namespace Reached

variable {markers : Markers} {size : Nat} {scan : Scan}

/-- In front of a token its markers are defined. -/
theorem steps_markersAt (printable : Printable markers size)
    (reached : scan.Reached markers scan.tokens.size) (offset : Nat) :
    ∃ after : Scan, scan.steps registry offset (spellMarkersAt markers.entries scan.tokens.size) =
        .ok after ∧
      after.Reached markers (scan.tokens.size + 1) ∧ after.tokens = scan.tokens := by
  rcases reached with ⟨inText, defined, known⟩
  let here := markers.entries.filter (·.2 == scan.tokens.size)
  have perm : (scan.markers.entries ++ here).Perm
      (markers.entries.filter (·.2 < scan.tokens.size + 1)) :=
    (defined.append_right here).trans (filter_lt_succ_perm markers.entries scan.tokens.size)
  refine ⟨{ scan with markers := ⟨scan.markers.entries ++ here⟩ },
    steps_markers inText ?_ ?_ ?_ offset, ⟨inText, perm, known⟩, rfl⟩
  · intro entry mem
    exact printable.unbroken entry (List.mem_filter.mp mem).1
  · intro entry mem
    exact beq_iff_eq.mp (List.mem_filter.mp mem).2
  · apply (perm.map Prod.fst).nodup_iff.mpr
    exact printable.single.sublist (List.filter_sublist.map Prod.fst)

/-- A piece is read as its token. -/
theorem steps_piece {index : Nat} {piece : Piece} (plain : registry.Plain)
    (printable : Printable markers size) (fits : piece.Fits registry markers)
    (reached : scan.Reached markers index) (offset : Nat) :
    ∃ after : Scan, scan.steps registry offset piece.spell = .ok after ∧
      after.Reached markers index ∧ after.tokens = scan.tokens.push piece.token := by
  rcases reached with ⟨inText, defined, known⟩
  have pushed : (scan.push piece.token).Reached markers index := ⟨inText, defined, known⟩
  cases piece with
  | text content => exact ⟨_, steps_text inText fits offset, pushed, rfl⟩
  | string content => exact ⟨_, steps_string inText content offset, pushed, rfl⟩
  | number numeral => exact ⟨_, steps_number inText fits offset, pushed, rfl⟩
  | operator symbol => exact ⟨_, steps_operator plain inText fits offset, pushed, rfl⟩
  | jump name =>
      have unbroken : ';' ∉ name.toList := by
        rcases Option.isSome_iff_exists.mp fits with ⟨index, found⟩
        have mem := (Markers.find?_eq_some_iff printable.single).mp found
        exact printable.unbroken (name, index) mem
      refine ⟨_, steps_jump inText unbroken offset, ⟨inText, defined, ?_⟩, rfl⟩
      intro jump mem
      rcases Array.mem_push.mp mem with mem | rfl
      · exact known jump mem
      · exact fits

/-- All that is printed is read: every piece behind the markers in front of it. -/
theorem steps_pieces {pieces : List Piece} (plain : registry.Plain)
    (printable : Printable markers size) (fits : ∀ piece ∈ pieces, piece.Fits registry markers)
    (reached : scan.Reached markers scan.tokens.size) (offset : Nat) :
    ∃ after : Scan, scan.steps registry offset
        (spellFrom markers.entries scan.tokens.size pieces) = .ok after ∧
      after.Reached markers (scan.tokens.size + pieces.length + 1) ∧
      after.tokens.toList = scan.tokens.toList ++ pieces.map Piece.token := by
  induction pieces generalizing scan offset with
  | nil =>
      rcases reached.steps_markersAt printable offset with ⟨marked, reads, reached, tokens⟩
      exact ⟨marked, reads, reached, by simp [tokens]⟩
  | cons piece rest ih =>
      rcases reached.steps_markersAt printable offset with ⟨marked, readsMarkers, reached, same⟩
      rcases reached.steps_piece plain printable (fits piece (by simp)) (offset + _)
        with ⟨next, readsPiece, reached, pushed⟩
      have tokens : next.tokens = scan.tokens.push piece.token := by rw [pushed, same]
      have size : next.tokens.size = scan.tokens.size + 1 := by simp [tokens]
      rw [← size] at reached
      rcases ih (fun piece mem => fits piece (by simp [mem])) reached (offset + _ + _)
        with ⟨after, readsRest, reached, added⟩
      refine ⟨after, ?_, ?_, ?_⟩
      · rw [spellFrom, scanner.append_of_ok readsMarkers, scanner.append_of_ok readsPiece, ← size]
        exact readsRest
      · rw [size] at reached
        simpa [Nat.add_assoc, Nat.add_comm 1] using reached
      · simp [added, tokens]

/-- In the end all markers are defined. -/
theorem perm_markers (printable : Printable markers size)
    (reached : scan.Reached markers (size + 1)) :
    scan.markers.entries.Perm markers.entries := by
  have all : markers.entries.filter (·.2 < size + 1) = markers.entries := by
    apply List.filter_eq_self.mpr
    intro entry mem
    have within := printable.within entry mem
    exact decide_eq_true (by omega)
  rw [← all]
  exact reached.defined

theorem finish_eq {index : Nat} (reached : scan.Reached markers index) (offset : Nat) :
    scan.finish offset = .ok scan := by
  rcases scan with ⟨tokens, defined, jumps, mode⟩
  cases reached.inText
  simp [finish, endText]

/-- No jump is without a marker. -/
theorem toProgram_eq (printable : Printable markers size)
    (reached : scan.Reached markers (size + 1)) :
    scan.toProgram = .ok { tokens := scan.tokens, markers := scan.markers } := by
  have noneMissing :
      (scan.jumps.find? fun jump => (scan.markers.find? jump.1).isNone) = none := by
    apply Array.find?_eq_none.mpr
    intro jump mem
    rw [Markers.find?_eq_of_perm (reached.perm_markers printable) printable.single]
    have known := reached.known jump mem
    simpa [Option.isSome_iff_ne_none] using known
  simp only [toProgram, noneMissing]

end Reached

end Scan

/-- What is printed of a program is read as its tokens and its markers. -/
theorem read_print {registry : Registry} (plain : registry.Plain) {markers : Markers}
    {pieces : List Piece} (printable : Printable markers pieces.length)
    (fits : ∀ piece ∈ pieces, piece.Fits registry markers) :
    ∃ program, read registry (print markers pieces) = .ok program ∧
      program.tokens.toList = pieces.map Piece.token ∧
      program.markers.entries.Perm markers.entries ∧
      (∀ name, program.markers.find? name = markers.find? name) ∧ program.counter = 0 := by
  have start : Scan.Reached markers (Scan.tokens {}).size {} := ⟨rfl, by simp, by simp⟩
  rcases start.steps_pieces plain printable fits 0 with ⟨after, reads, reached, tokens⟩
  have atEnd : after.Reached markers (pieces.length + 1) := by simpa using reached
  have perm := atEnd.perm_markers printable
  have readsSource : Scan.readSource registry (spellFrom markers.entries 0 pieces) =
      .ok { tokens := after.tokens, markers := after.markers } := by
    simp only [Scan.readSource]
    rw [show Scan.steps registry {} 0 (spellFrom markers.entries 0 pieces) = .ok after from reads]
    change (after.finish _).bind Scan.toProgram = _
    rw [atEnd.finish_eq]
    exact atEnd.toProgram_eq printable
  refine ⟨{ tokens := after.tokens, markers := after.markers }, ?_, by simpa using tokens, perm,
    Markers.find?_eq_of_perm perm printable.single, rfl⟩
  simp only [read, print, String.toList_ofList, readsSource]
  rfl

/-- A text of special characters, names and a string with them, a number that ends with its point,
and two markers on one token. -/
theorem read_print_of_special_characters :
    let markers : Markers := ⟨[("a$\\\"#", 1), ("", 1), ("end", 5)]⟩
    ∃ numeral : Numeral, numeral.spell = ['7', '.'] ∧
      let pieces : List Piece :=
        [.text "#$;", .string "\"\\\n", .number numeral, .operator '+', .jump "a$\\\"#"]
      Registry.standard.Plain ∧ Printable markers pieces.length ∧
        (∀ piece ∈ pieces, piece.Fits .standard markers) ∧
        ∃ program, read .standard (print markers pieces) = .ok program ∧
          program.tokens.toList = pieces.map Piece.token ∧
          program.markers.entries.Perm markers.entries ∧
          (∀ name, program.markers.find? name = markers.find? name) ∧ program.counter = 0 := by
  intro markers
  let numeral : Numeral := ⟨['7'], some [], by simp, by simp, by simp⟩
  refine ⟨numeral, rfl, ?_⟩
  intro pieces
  have printable : Printable markers pieces.length :=
    ⟨by decide +kernel, by decide +kernel, by decide +kernel⟩
  have fits : ∀ piece ∈ pieces, piece.Fits .standard markers := by decide +kernel
  exact ⟨Registry.standard_plain, printable, fits,
    read_print Registry.standard_plain printable fits⟩

end ShortO

end Esoterica
