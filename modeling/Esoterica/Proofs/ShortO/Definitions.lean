import Esoterica.Proofs.ShortO.Printing

/-!
# The markers that a source defines

Which markers a source defines can be told from its layout, part by part: a `#` outside blocks,
comments and escapes starts a definition. The scanner, which goes character by character and keeps
a table, arrives at exactly these names, in the order of their definitions. In each of its modes it
is known which definitions are still to come, and a character moves names from there to the table.
-/

namespace Esoterica

namespace Markers

theorem find?_eq_none_iff {markers : Markers} {name : String} :
    markers.find? name = none ↔ name ∉ markers.entries.map Prod.fst := by
  rw [find?, List.lookup_eq_none_iff]
  constructor
  · intro differs mem
    rcases List.mem_map.mp mem with ⟨entry, memEntry, rfl⟩
    simpa using differs entry memEntry
  · intro notMem entry mem
    rw [bne_iff_ne]
    rintro rfl
    exact notMem (List.mem_map_of_mem mem)

end Markers

namespace ShortO

/-- What stands behind a name and the semicolon that ends it. -/
def behindName (text : List Char) : List Char :=
  (text.dropWhile (· != ';')).tail

/-- What stands behind a string and the quotation mark that ends it. -/
def behindString : List Char → List Char
  | [] | [_] => []
  | c :: d :: rest =>
    if c = '"' then d :: rest
    else if c = '\\' then behindString rest
    else behindString (d :: rest)

theorem length_behindName_le (text : List Char) : (behindName text).length ≤ text.length := by
  have dropped := (List.dropWhile_suffix (l := text) (· != ';')).length_le
  simp only [behindName, List.length_tail]
  omega

theorem length_behindString_le (text : List Char) : (behindString text).length ≤ text.length := by
  fun_induction behindString text with
  | case1 | case2 => simp
  | case3 => simp
  | case4 | case5 => simp_all; omega

/-- What stands behind a block and the character that ends it. -/
def behindBlock (close : Char) : List Char → List Char
  | [] => []
  | c :: rest =>
    if c = close then rest
    else if c = '"' then behindBlock close (behindString rest)
    else if c = '#' then behindBlock close (behindName rest)
    else behindBlock close rest
termination_by text => text.length
decreasing_by
  · have := length_behindString_le rest
    simp only [List.length_cons]
    omega
  · have := length_behindName_le rest
    simp only [List.length_cons]
    omega
  · simp

theorem length_behindBlock_le (close : Char) (text : List Char) :
    (behindBlock close text).length ≤ text.length := by
  fun_induction behindBlock close text with
  | case1 => simp
  | case2 => simp
  | case3 rest _ ih =>
      have := length_behindString_le rest
      simp only [List.length_cons]
      omega
  | case4 rest _ _ ih =>
      have := length_behindName_le rest
      simp only [List.length_cons]
      omega
  | case5 c rest _ _ _ ih =>
      simp only [List.length_cons]
      omega

/-- The names of the markers that a source defines, in the order of their definitions. -/
def definitions : List Char → List String
  | [] => []
  | c :: rest =>
    if c = '#' then String.ofList (rest.takeWhile (· != ';')) :: definitions (behindName rest)
    else if c = '$' then definitions (behindBlock ';' rest)
    else if c = '@' ∧ rest.head? = some '\x7b' then definitions (behindBlock '\x7d' rest.tail)
    else if c = '\\' then definitions rest.tail
    else if c = '/' ∧ rest.head? = some '/' then definitions (rest.dropWhile (· != '\n'))
    else definitions rest
termination_by text => text.length
decreasing_by
  · have := length_behindName_le rest
    simp only [List.length_cons]
    omega
  · have := length_behindBlock_le ';' rest
    simp only [List.length_cons]
    omega
  · have := length_behindBlock_le '\x7d' rest.tail
    simp only [List.length_cons, List.length_tail] at *
    omega
  · simp only [List.length_cons, List.length_tail]
    omega
  · have := (List.dropWhile_suffix (l := rest) (· != '\n')).length_le
    simp only [List.length_cons]
    omega
  · simp

section definitions

variable (rest : List Char)

theorem definitions_marker :
    definitions ('#' :: rest) =
      String.ofList (rest.takeWhile (· != ';')) :: definitions (behindName rest) := by
  rw [definitions, if_pos rfl]

theorem definitions_block :
    definitions ('$' :: rest) = definitions (behindBlock ';' rest) := by
  rw [definitions, if_neg (by decide), if_pos rfl]

theorem definitions_braces :
    definitions ('@' :: '\x7b' :: rest) = definitions (behindBlock '\x7d' rest) := by
  rw [definitions, if_neg (by decide), if_neg (by decide), if_pos ⟨rfl, rfl⟩, List.tail_cons]

theorem definitions_escape : definitions ('\\' :: rest) = definitions rest.tail := by
  rw [definitions, if_neg (by decide), if_neg (by decide), if_neg (by simp), if_pos rfl]

theorem definitions_comment :
    definitions ('/' :: '/' :: rest) = definitions (rest.dropWhile (· != '\n')) := by
  rw [definitions, if_neg (by decide), if_neg (by decide), if_neg (by simp), if_neg (by decide),
    if_pos ⟨rfl, rfl⟩, List.dropWhile_cons_of_pos (by decide)]

variable {rest}

theorem definitions_text {c : Char} (noMarker : c ≠ '#') (noBlock : c ≠ '$')
    (noBraces : ¬(c = '@' ∧ rest.head? = some '\x7b')) (noEscape : c ≠ '\\')
    (noComment : ¬(c = '/' ∧ rest.head? = some '/')) :
    definitions (c :: rest) = definitions rest := by
  rw [definitions, if_neg noMarker, if_neg noBlock, if_neg noBraces, if_neg noEscape,
    if_neg noComment]

end definitions

theorem behindString_cons (c : Char) (rest : List Char) :
    behindString (c :: rest) =
      if c = '"' then rest
      else if c = '\\' then behindString rest.tail
      else behindString rest := by
  cases rest with
  | nil => simp [behindString]
  | cons d more => rw [behindString, List.tail_cons]

theorem behindName_cons (c : Char) (rest : List Char) :
    behindName (c :: rest) = if c = ';' then rest else behindName rest := by
  by_cases ends : c = ';'
  · simp [behindName, ends]
  · simp [behindName, ends]

/-- A character that means nothing by itself does not matter to a block. -/
theorem behindBlock_cons_of_plain {close c : Char} (goesOn : c ≠ close) (noString : c ≠ '"')
    (noName : c ≠ '#') (rest : List Char) :
    behindBlock close (c :: rest) = behindBlock close rest := by
  rw [behindBlock, if_neg goesOn, if_neg noString, if_neg noName]

namespace Mode

/-- A block is ended by one of two characters. -/
def Proper : Mode → Prop
  | block close | string close _ | stringEscape close _ | number close _ _ | jump close _ _ =>
    close = ';' ∨ close = '\x7d'
  | text _ | textEscape _ | textSlash _ | textAt _ | comment _ | marker _ => True

/-- The names that are still to be defined, when this is left of a source. -/
def pending (mode : Mode) (left : List Char) : List String :=
  match mode with
  | text _ => definitions left
  | textEscape _ => definitions left.tail
  | textSlash _ => definitions ('/' :: left)
  | textAt _ => definitions ('@' :: left)
  | comment _ => definitions (left.dropWhile (· != '\n'))
  | marker name =>
    (name ++ String.ofList (left.takeWhile (· != ';'))) :: definitions (behindName left)
  | block close | number close _ _ => definitions (behindBlock close left)
  | string close _ => definitions (behindBlock close (behindString left))
  | stringEscape close _ => definitions (behindBlock close (behindString left.tail))
  | jump close _ _ => definitions (behindBlock close (behindName left))

theorem pending_comment_cons (read : String) (c : Char) (left : List Char) :
    (comment read).pending (c :: left) =
      if c = '\n' then definitions left else (comment read).pending left := by
  by_cases ends : c = '\n'
  · have broken : definitions ('\n' :: left) = definitions left :=
      definitions_text (by decide) (by decide) (by simp) (by decide) (by simp)
    simp [pending, ends, broken]
  · simp [pending, ends]

theorem pending_marker_cons (name : String) (c : Char) (left : List Char) :
    (marker name).pending (c :: left) =
      if c = ';' then name :: definitions left else (marker (name.push c)).pending left := by
  simp only [pending, behindName_cons]
  by_cases ends : c = ';'
  · simp [ends]
  · have named : name ++ String.ofList (c :: left.takeWhile (· != ';')) =
        name.push c ++ String.ofList (left.takeWhile (· != ';')) := by
      rw [String.push_eq_append, String.ofList_cons, String.append_assoc]
    rw [if_neg ends, if_neg ends, List.takeWhile_cons_of_pos (by simpa using ends), named]

end Mode

namespace Scan

variable {registry : Registry} {scan next : Scan} {offset : Nat} {c : Char}

/-- The names that have been defined. -/
def names (scan : Scan) : List String :=
  scan.markers.entries.map Prod.fst

/-- The names that are defined in all, when this is left of a source. -/
def foreseen (scan : Scan) (left : List Char) : List String :=
  scan.names ++ scan.mode.pending left

@[simp]
theorem endText_markers (read : String) (mode : Mode) :
    (scan.endText read mode).markers = scan.markers := by
  simp only [endText]
  split
  · rfl
  · rfl

@[simp]
theorem endText_mode (read : String) (mode : Mode) : (scan.endText read mode).mode = mode :=
  rfl

/-- A character of a text defines what the layout says. -/
theorem stepText_foreseen {read : String} (reads : scan.stepText offset read c = .ok next)
    (left : List Char) :
    next.mode.Proper ∧ next.foreseen left = scan.names ++ definitions (c :: left) := by
  unfold stepText at reads
  split at reads
  · cases reads
    refine ⟨trivial, ?_⟩
    simp [foreseen, names, Mode.pending, definitions_marker]
  · cases reads
    refine ⟨Or.inl rfl, ?_⟩
    simp [foreseen, names, Mode.pending, definitions_block]
  · cases reads
    exact ⟨trivial, rfl⟩
  · cases reads
    refine ⟨trivial, ?_⟩
    rw [definitions_escape]
    rfl
  · cases reads
    exact ⟨trivial, rfl⟩
  · cases reads
  · cases reads
  · rename_i noMarker noBlock noAt noEscape noSlash _ _
    cases reads
    refine ⟨trivial, ?_⟩
    rw [definitions_text noMarker noBlock (fun braces => noAt braces.1) noEscape
      (fun comment => noSlash comment.1)]
    rfl

/-- A character of a block is passed over, or ends the block. -/
theorem stepBlock_foreseen {close : Char} (proper : close = ';' ∨ close = '\x7d')
    (reads : scan.stepBlock registry offset close c = .ok next) (left : List Char) :
    next.mode.Proper ∧
      next.foreseen left = scan.names ++ definitions (behindBlock close (c :: left)) := by
  unfold stepBlock at reads
  split at reads
  · rename_i ends
    cases reads
    refine ⟨trivial, ?_⟩
    rw [behindBlock, if_pos ends]
    rfl
  rename_i goesOn
  split at reads
  · rename_i isString
    cases reads
    refine ⟨proper, ?_⟩
    rw [behindBlock, if_neg goesOn, if_pos isString]
    rfl
  rename_i noString
  split at reads
  · rename_i isJump
    cases reads
    refine ⟨proper, ?_⟩
    rw [behindBlock, if_neg goesOn, if_neg noString, if_pos isJump]
    rfl
  rename_i noJump
  rw [behindBlock_cons_of_plain goesOn noString noJump]
  split at reads
  · cases reads
    exact ⟨proper, rfl⟩
  split at reads
  · cases reads
    exact ⟨proper, rfl⟩
  split at reads
  · cases reads
    exact ⟨proper, rfl⟩
  · cases reads

theorem endMarker_foreseen {name : String} (reads : scan.endMarker offset name = .ok next)
    (left : List Char) :
    next.mode.Proper ∧ next.foreseen left = scan.names ++ name :: definitions left := by
  simp only [endMarker] at reads
  split at reads
  · cases reads
  · rename_i found
    have new : scan.markers.find? name = none := by simpa using found
    cases reads
    refine ⟨trivial, ?_⟩
    rw [Markers.insert_eq_of_notMem _ (Markers.find?_eq_none_iff.mp new)]
    simp [foreseen, names, Mode.pending]

/-- Each step keeps what is foreseen, in a mode that can be. -/
theorem step_foreseen (proper : scan.mode.Proper)
    (reads : scan.step registry offset c = .ok next) (left : List Char) :
    next.mode.Proper ∧ next.foreseen left = scan.foreseen (c :: left) := by
  cases mode : scan.mode
  all_goals
    simp only [step, mode] at reads
    simp only [mode, Mode.Proper] at proper
    simp only [foreseen, mode]
  case text read => exact stepText_foreseen reads left
  case textEscape read =>
      cases reads
      exact ⟨trivial, rfl⟩
  case textSlash read =>
      split at reads
      · rename_i isComment
        cases reads
        refine ⟨trivial, ?_⟩
        rw [isComment, Mode.pending, definitions_comment]
        rfl
      · rename_i noComment
        have slashed : definitions ('/' :: c :: left) = definitions (c :: left) :=
          definitions_text (by decide) (by decide) (by simp) (by decide) (by simpa using noComment)
        rw [Mode.pending, slashed]
        exact stepText_foreseen reads left
  case textAt read =>
      split at reads
      · rename_i opens
        cases reads
        refine ⟨Or.inr rfl, ?_⟩
        simp [opens, names, Mode.pending, definitions_braces]
      · rename_i noBraces
        have alone : definitions ('@' :: c :: left) = definitions (c :: left) :=
          definitions_text (by decide) (by decide) (by simpa using noBraces) (by decide) (by simp)
        rw [Mode.pending, alone]
        exact stepText_foreseen reads left
  case comment read =>
      split at reads
      · rename_i ends
        rw [Mode.pending_comment_cons, if_pos ends]
        cases reads
        exact ⟨trivial, rfl⟩
      · rename_i goesOn
        rw [Mode.pending_comment_cons, if_neg goesOn]
        cases reads
        rw [mode]
        exact ⟨trivial, rfl⟩
  case marker name =>
      split at reads
      · rename_i ends
        rw [Mode.pending_marker_cons, if_pos ends]
        exact endMarker_foreseen reads left
      · rename_i goesOn
        rw [Mode.pending_marker_cons, if_neg goesOn]
        cases reads
        exact ⟨trivial, rfl⟩
  case block close => exact stepBlock_foreseen proper reads left
  case string close read =>
      rw [Mode.pending, behindString_cons]
      split at reads
      · rename_i ends
        cases reads
        exact ⟨proper, by rw [if_pos ends]; rfl⟩
      · rename_i goesOn
        rw [if_neg goesOn]
        split at reads
        · rename_i escapes
          cases reads
          exact ⟨proper, by rw [if_pos escapes]; rfl⟩
        · rename_i noEscape
          cases reads
          exact ⟨proper, by rw [if_neg noEscape]; rfl⟩
  case stringEscape close read =>
      cases reads
      exact ⟨proper, rfl⟩
  case number close read point =>
      -- What belongs to the number is no character that means something to the block.
      have passed (inNumber : c.isDigit = true ∨ c = '.') :
          (Mode.number close read point).pending (c :: left) =
            definitions (behindBlock close left) := by
        apply congrArg definitions
        apply behindBlock_cons_of_plain
        · rintro rfl
          rcases proper with rfl | rfl
          · simp at inNumber
          · simp at inNumber
        · rintro rfl
          simp at inNumber
        · rintro rfl
          simp at inNumber
      split at reads
      · rename_i digit
        rw [passed (Or.inl digit)]
        cases reads
        exact ⟨proper, rfl⟩
      · split at reads
        · rename_i isPoint
          simp only [Bool.and_eq_true, decide_eq_true_eq] at isPoint
          rw [passed (Or.inr isPoint.1)]
          cases reads
          exact ⟨proper, rfl⟩
        · exact stepBlock_foreseen proper reads left
  case jump close jumpOffset name =>
      rw [Mode.pending, behindName_cons]
      split at reads
      · rename_i ends
        cases reads
        exact ⟨proper, by rw [if_pos ends]; rfl⟩
      · rename_i goesOn
        cases reads
        exact ⟨proper, by rw [if_neg goesOn]; rfl⟩

/-- A scan defines what its source defines by its layout. -/
theorem steps_foreseen {after : Scan} {text : List Char} (proper : scan.mode.Proper)
    (reads : scan.steps registry offset text = .ok after) :
    after.foreseen [] = scan.foreseen text := by
  induction text generalizing scan offset with
  | nil =>
      cases reads
      rfl
  | cons c rest ih =>
      rcases scanner.exists_of_cons_eq_ok reads with ⟨between, readsFirst, readsRest⟩
      rcases step_foreseen proper readsFirst rest with ⟨properToo, foreseen⟩
      rw [ih properToo readsRest, foreseen]

/-- Where a source may end, nothing is left to be defined. -/
theorem finish_names (ends : scan.finish offset = .ok next) : next.names = scan.foreseen [] := by
  have none : definitions [] = [] := by rw [definitions]
  have slash : definitions ['/'] = [] := by
    rw [definitions_text (by decide) (by decide) (by simp) (by decide) (by simp), none]
  have alone : definitions ['@'] = [] := by
    rw [definitions_text (by decide) (by decide) (by simp) (by decide) (by simp), none]
  cases mode : scan.mode with
  | text | textSlash | textAt | comment =>
      simp only [finish, mode] at ends
      cases ends
      simp [foreseen, mode, names, Mode.pending, none, slash, alone]
  | textEscape | marker | block | string | stringEscape | number | jump =>
      simp only [finish, mode] at ends
      cases ends

theorem toProgram_eq_ok {program : Program Token} (resolves : scan.toProgram = .ok program) :
    program = { tokens := scan.tokens, markers := scan.markers } ∧
      ∀ jump ∈ scan.jumps, (scan.markers.find? jump.1).isSome = true := by
  simp only [toProgram] at resolves
  split at resolves
  · cases resolves
  · rename_i noneOpen
    cases resolves
    refine ⟨rfl, ?_⟩
    intro jump mem
    simpa [Option.isSome_iff_ne_none] using Array.find?_eq_none.mp noneOpen jump mem

/-- A source that can be read is scanned to its end, and the end of the scan is its program. -/
theorem exists_of_readSource {source : List Char} {program : Program Token}
    (reads : readSource registry source = .ok program) :
    ∃ scan final, steps registry {} 0 source = .ok scan ∧ scan.finish source.length = .ok final ∧
      final.toProgram = .ok program := by
  simp only [readSource, Bind.bind, Except.bind] at reads
  split at reads
  · cases reads
  · rename_i scan scanned
    split at reads
    · cases reads
    · rename_i final finished
      exact ⟨scan, final, scanned, finished, reads⟩

end Scan

theorem readSource_of_read {registry : Registry} {source : String} {program : Program Token}
    (reads : read registry source = .ok program) :
    Scan.readSource registry source.toList = .ok program := by
  simp only [read] at reads
  cases scanned : Scan.readSource registry source.toList with
  | ok other =>
      rw [scanned] at reads
      cases reads
      rfl
  | error misplaced =>
      rw [scanned] at reads
      cases reads

/-- The table of a program has exactly the names that its source defines. -/
theorem markers_of_read {registry : Registry} {source : String} {program : Program Token}
    (reads : read registry source = .ok program) :
    program.markers.entries.map Prod.fst = definitions source.toList := by
  rcases Scan.exists_of_readSource (readSource_of_read reads) with
    ⟨scan, final, scanned, finished, resolves⟩
  rcases Scan.toProgram_eq_ok resolves with ⟨rfl, _⟩
  calc final.names
      = scan.foreseen [] := Scan.finish_names finished
    _ = Scan.foreseen {} source.toList := Scan.steps_foreseen trivial scanned
    _ = definitions source.toList := rfl

end ShortO

end Esoterica
