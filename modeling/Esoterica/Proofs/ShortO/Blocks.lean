import Esoterica.Proofs.ShortO.Places

/-!
# The two forms of a block

A block is written `$ ... ;` or `@{ ... }`. Between its items, the character that ends the one form
can stand for nothing else, and cannot stand at all in the other form; inside strings and names both
are characters like all others. So the same text is the body of a block in both forms, and it is
read alike.
-/

namespace Esoterica

namespace ShortO

namespace Mode

/-- The character that ends the block, inside one. -/
def close? : Mode → Option Char
  | block close | string close _ | stringEscape close _ | number close _ _ | jump close _ _ =>
    some close
  | text _ | textEscape _ | textSlash _ | textAt _ | comment _ | marker _ => none

/-- The mode in a block that another character ends. -/
def closedBy (mode : Mode) (close : Char) : Mode :=
  match mode with
  | block _ => block close
  | string _ read => string close read
  | stringEscape _ read => stringEscape close read
  | number _ read point => number close read point
  | jump _ offset name => jump close offset name
  | mode => mode

/-- Between the items of a block, where its end may stand. -/
def MayClose : Mode → Prop
  | block _ | number _ _ _ => True
  | _ => False

theorem isSome_close?_closedBy (mode : Mode) (close : Char) :
    (mode.closedBy close).close?.isSome = mode.close?.isSome := by
  cases mode <;> rfl

end Mode

/-- The character stands for nothing between the items of a block. -/
structure Registry.Foreign (registry : Registry) (c : Char) : Prop where
  noString : c ≠ '"'
  noJump : c ≠ '#'
  noDigit : c.isDigit = false
  noPoint : c ≠ '.'
  visible : isBlank c = false
  unregistered : registry.contains c = false

namespace Scan

/-- The scan in a block that another character ends. -/
def closedBy (scan : Scan) (close : Char) : Scan :=
  { scan with mode := scan.mode.closedBy close }

/-- The scan behind the end of a block. -/
def closed (scan : Scan) : Scan :=
  match scan.mode with
  | .number _ read _ => { scan.endNumber read with mode := .text "" }
  | _ => { scan with mode := .text "" }

/-- Reads a block up to its end: the scan behind that, and the rest of the text. -/
def readBlock (registry : Registry) (scan : Scan) (offset : Nat) :
    List Char → Except Misplaced (Scan × List Char)
  | [] => (scan.finish offset).map (·, [])
  | c :: rest => do
    let next ← scan.step registry (offset + 1) c
    if next.mode.close?.isSome then next.readBlock registry (offset + 1) rest
    else .ok (next, rest)

variable {registry : Registry} {scan next after : Scan} {offset : Nat} {left right c : Char}
  {body text rest : List Char}

theorem stepBlock_closedBy (scan : Scan) (offset : Nat) (other : c ≠ left) (otherToo : c ≠ right) :
    (scan.closedBy right).stepBlock registry offset right c =
      ((scan.closedBy left).stepBlock registry offset left c).map (·.closedBy right) := by
  unfold stepBlock
  rw [if_neg other, if_neg otherToo]
  repeat' split
  all_goals rfl

/-- A character that ends neither form of a block does the same in both. -/
theorem step_closedBy (inside : scan.mode.close?.isSome = true)
    (goesOn : scan.mode.MayClose → c ≠ left ∧ c ≠ right) (offset : Nat) :
    (scan.closedBy right).step registry offset c =
      ((scan.closedBy left).step registry offset c).map (·.closedBy right) := by
  rcases scan with ⟨tokens, markers, jumps, mode⟩
  cases mode with
  | block close =>
      rcases goesOn trivial with ⟨other, otherToo⟩
      exact stepBlock_closedBy ⟨tokens, markers, jumps, .block close⟩ offset other otherToo
  | number close read point =>
      rcases goesOn trivial with ⟨other, otherToo⟩
      let scan : Scan := ⟨tokens, markers, jumps, .number close read point⟩
      simp only [step, closedBy, Mode.closedBy]
      split
      · rfl
      split
      · rfl
      · exact (scan.endNumber read).stepBlock_closedBy offset other otherToo
  | string | stringEscape | jump =>
      simp only [step, closedBy, Mode.closedBy]
      repeat' split
      all_goals rfl
  | text | textEscape | textSlash | textAt | comment | marker => cases inside

theorem isSome_close?_of_stepBlock (other : c ≠ left)
    (reads : scan.stepBlock registry offset left c = .ok next) :
    next.mode.close?.isSome = true := by
  unfold stepBlock at reads
  rw [if_neg other] at reads
  grind [Mode.close?]

/-- A block goes on behind a character that does not end it. -/
theorem isSome_close?_of_step (inside : scan.mode.close?.isSome = true)
    (goesOn : scan.mode.MayClose → c ≠ left)
    (reads : (scan.closedBy left).step registry offset c = .ok next) :
    next.mode.close?.isSome = true := by
  rcases scan with ⟨tokens, markers, jumps, mode⟩
  cases mode with
  | block => exact isSome_close?_of_stepBlock (goesOn trivial) reads
  | number =>
      simp only [step, closedBy, Mode.closedBy] at reads
      split at reads
      · cases reads
        rfl
      split at reads
      · cases reads
        rfl
      · exact isSome_close?_of_stepBlock (goesOn trivial) reads
  | string | stringEscape | jump =>
      simp only [step, closedBy, Mode.closedBy] at reads
      repeat' split at reads
      all_goals
        cases reads
        rfl
  | text | textEscape | textSlash | textAt | comment | marker => cases inside

/-- Behind the last item of a block, its end leads to the same in both forms. -/
theorem step_end (mayClose : scan.mode.MayClose) {close : Char} (foreign : registry.Foreign close)
    (offset : Nat) : (scan.closedBy close).step registry offset close = .ok scan.closed := by
  rcases scan with ⟨tokens, markers, jumps, mode⟩
  cases mode with
  | block =>
      simp only [step, closedBy, Mode.closedBy, stepBlock, closed, if_true]
  | number =>
      simp only [step, closedBy, Mode.closedBy, stepBlock, closed, foreign.noDigit,
        foreign.noPoint, if_true]
      rfl
  | string | stringEscape | jump | text | textEscape | textSlash | textAt | comment | marker =>
      cases mayClose

theorem stepBlock_foreign (foreign : registry.Foreign c) (other : c ≠ left) :
    scan.stepBlock registry offset left c = .error ⟨.invalidCharacter c, offset⟩ := by
  unfold stepBlock
  rw [if_neg other, if_neg foreign.noString, if_neg foreign.noJump, foreign.noDigit,
    foreign.visible, foreign.unregistered]
  rfl

/-- The end of the other form of a block is a mistake between its items. -/
theorem step_foreign (mayClose : scan.mode.MayClose) (foreign : registry.Foreign c)
    (other : c ≠ left) (offset : Nat) :
    (scan.closedBy left).step registry offset c = .error ⟨.invalidCharacter c, offset⟩ := by
  rcases scan with ⟨tokens, markers, jumps, mode⟩
  cases mode with
  | block => exact stepBlock_foreign foreign other
  | number =>
      simp only [step, closedBy, Mode.closedBy, foreign.noDigit, foreign.noPoint]
      exact stepBlock_foreign foreign other
  | string | stringEscape | jump | text | textEscape | textSlash | textAt | comment | marker =>
      cases mayClose

theorem readBlock_cons (reads : scan.step registry (offset + 1) c = .ok next)
    (inside : next.mode.close?.isSome = true) (text : List Char) :
    scan.readBlock registry offset (c :: text) = next.readBlock registry (offset + 1) text := by
  rw [readBlock, reads]
  exact if_pos inside

theorem readBlock_end (reads : scan.step registry (offset + 1) c = .ok next)
    (outside : next.mode.close? = none) (rest : List Char) :
    scan.readBlock registry offset (c :: rest) = .ok (next, rest) := by
  have noneInside : next.mode.close?.isSome ≠ true := by simp [outside]
  rw [readBlock, reads]
  exact if_neg noneInside

/-- A character of a block that is read to its end is read, and then the rest or nothing more. -/
theorem cases_of_readBlock
    (reads : scan.readBlock registry offset (c :: text) = .ok (after, rest)) :
    ∃ next, scan.step registry (offset + 1) c = .ok next ∧
      (next.mode.close?.isSome = true ∧
          next.readBlock registry (offset + 1) text = .ok (after, rest) ∨
        next.mode.close? = none ∧ next = after ∧ text = rest) := by
  cases first : scan.step registry (offset + 1) c with
  | error misplaced =>
      rw [readBlock, first] at reads
      cases reads
  | ok next =>
      refine ⟨next, rfl, ?_⟩
      by_cases inside : next.mode.close?.isSome = true
      · rw [readBlock_cons first inside] at reads
        exact .inl ⟨inside, reads⟩
      · have outside := Option.not_isSome_iff_eq_none.mp inside
        rw [readBlock_end first outside] at reads
        cases reads
        exact .inr ⟨outside, rfl, rfl⟩

theorem not_readBlock_nil (inside : scan.mode.close?.isSome = true) :
    scan.readBlock registry offset [] ≠ .ok (after, rest) := by
  intro reads
  unfold readBlock finish at reads
  cases mode : scan.mode with
  | block | string | stringEscape | number | jump =>
      simp only [mode] at reads
      cases reads
  | text | textEscape | textSlash | textAt | comment | marker =>
      rw [mode] at inside
      cases inside

/-- A block has at least its end. -/
theorem length_lt_of_readBlock (inside : scan.mode.close?.isSome = true)
    (reads : scan.readBlock registry offset text = .ok (after, rest)) :
    rest.length < text.length := by
  induction text generalizing scan offset with
  | nil => exact absurd reads (not_readBlock_nil inside)
  | cons c more ih =>
      rcases cases_of_readBlock reads with ⟨next, -, ⟨stillInside, readsMore⟩ | ⟨-, -, rfl⟩⟩
      · exact Nat.lt_succ_of_lt (ih stillInside readsMore)
      · exact Nat.lt_succ_self _

/-- The characters of a block are read one by one. -/
theorem steps_of_readBlock (inside : scan.mode.close?.isSome = true)
    (reads : scan.readBlock registry offset (text ++ rest) = .ok (after, rest)) :
    scan.steps registry offset text = .ok after := by
  induction text generalizing scan offset with
  | nil => exact absurd (length_lt_of_readBlock inside reads) (Nat.lt_irrefl _)
  | cons c more ih =>
      rcases cases_of_readBlock reads with ⟨next, first, more | ⟨-, rfl, isRest⟩⟩
      · rw [scanner.cons_of_ok first]
        exact ih more.1 more.2
      · rw [List.append_left_eq_self.mp isRest]
        exact scanner.single_of_ok first

/-- A character of a block that ends neither form is read, and then the rest. -/
theorem exists_of_readBlock (inside : scan.mode.close?.isSome = true)
    (goesOn : scan.mode.MayClose → c ≠ left ∧ c ≠ right)
    (reads : (scan.closedBy left).readBlock registry offset (c :: text) = .ok (after, rest)) :
    ∃ next : Scan, next.mode.close?.isSome = true ∧
      (scan.closedBy right).step registry (offset + 1) c = .ok (next.closedBy right) ∧
      (next.closedBy left).readBlock registry (offset + 1) text = .ok (after, rest) := by
  rcases cases_of_readBlock reads with ⟨next, first, more⟩
  have stillInside := isSome_close?_of_step inside (fun mayClose => (goesOn mayClose).1) first
  have closedByLeft : next.closedBy left = next := by
    have same : (scan.closedBy left).step registry (offset + 1) c =
        ((scan.closedBy left).step registry (offset + 1) c).map (·.closedBy left) :=
      step_closedBy inside (fun mayClose => ⟨(goesOn mayClose).1, (goesOn mayClose).1⟩) _
    rw [first] at same
    exact (Except.ok.inj same).symm
  refine ⟨next, stillInside, ?_, ?_⟩
  · rw [step_closedBy inside goesOn, first]
    rfl
  · rw [closedByLeft]
    rcases more with ⟨-, readsText⟩ | ⟨outside, -⟩
    · exact readsText
    · rw [outside] at stillInside
      cases stillInside

theorem close?_closed (scan : Scan) : scan.closed.mode.close? = none := by
  unfold closed
  split <;> rfl

/-- Between the items of a block that does not end yet there is neither its end, which would end it,
nor the other one, which is a mistake. -/
theorem goesOn_of_readBlock (foreignLeft : registry.Foreign left)
    (foreignRight : registry.Foreign right)
    (reads : (scan.closedBy left).readBlock registry offset (c :: text) = .ok (after, rest))
    (more : text ≠ rest) : scan.mode.MayClose → c ≠ left ∧ c ≠ right := by
  intro mayClose
  have notLeft : c ≠ left := by
    rintro rfl
    rw [readBlock_end (step_end mayClose foreignLeft _) scan.close?_closed] at reads
    exact more (congrArg Prod.snd (Except.ok.inj reads))
  refine ⟨notLeft, ?_⟩
  rintro rfl
  rcases cases_of_readBlock reads with ⟨next, first, -⟩
  rw [step_foreign mayClose foreignRight notLeft] at first
  cases first

/-- The body of a block is the body of a block in the other form, with the same tokens and jumps. -/
theorem readBlock_closedBy (foreignLeft : registry.Foreign left)
    (foreignRight : registry.Foreign right) (inside : scan.mode.close?.isSome = true)
    (reads : (scan.closedBy left).readBlock registry offset (body ++ left :: rest) =
      .ok (after, rest)) :
    (scan.closedBy right).readBlock registry offset (body ++ right :: rest) =
      .ok (after, rest) := by
  induction body generalizing scan offset with
  | nil =>
      rw [List.nil_append] at reads ⊢
      by_cases mayClose : scan.mode.MayClose
      · rw [readBlock_end (step_end mayClose foreignLeft _) scan.close?_closed] at reads
        rw [readBlock_end (step_end mayClose foreignRight _) scan.close?_closed, reads]
      · -- Inside a string or a name the end is a character like all others, and nothing ends.
        have goesOn : scan.mode.MayClose → left ≠ left ∧ left ≠ right := (absurd · mayClose)
        rcases exists_of_readBlock inside goesOn reads with ⟨next, stillInside, -, readsRest⟩
        rw [← Mode.isSome_close?_closedBy _ left] at stillInside
        exact absurd (length_lt_of_readBlock stillInside readsRest) (Nat.lt_irrefl _)
  | cons c body ih =>
      rw [List.cons_append] at reads ⊢
      have more : body ++ left :: rest ≠ rest := by
        intro same
        have lengths := congrArg List.length same
        rw [List.length_append, List.length_cons] at lengths
        omega
      have goesOn := goesOn_of_readBlock foreignLeft foreignRight reads more
      rcases exists_of_readBlock inside goesOn reads with ⟨next, stillInside, first, readsRest⟩
      rw [readBlock_cons first ((Mode.isSome_close?_closedBy _ right).trans stillInside)]
      exact ih stillInside readsRest

variable {read : String}

theorem step_dollar_of_outer (outer : scan.mode.outer? = some read) (offset : Nat) :
    scan.step registry offset '$' = .ok (scan.endText read (.block ';')) := by
  rw [step_of_outer _ outer (by simp) (by decide)]
  rfl

theorem steps_atBrace (outer : scan.mode.outer? = some read) (offset : Nat) :
    scan.steps registry offset ['@', '\x7b'] = .ok (scan.endText read (.block '\x7d')) := by
  have opens : scan.step registry (offset + 1) '@' = .ok { scan with mode := .textAt read } := by
    rw [step_of_outer _ outer (by simp) (by decide)]
    rfl
  rw [scanner.cons_of_ok opens]
  apply scanner.single_of_ok
  simp only [step, if_true, endText, push]
  split <;> rfl

theorem steps_dollarBlock (outer : scan.mode.outer? = some read)
    (reads : (scan.endText read (.block ';')).readBlock registry (offset + 1)
      (body ++ ';' :: rest) = .ok (after, rest)) :
    scan.steps registry offset ('$' :: body ++ [';']) = .ok after := by
  rw [List.append_cons] at reads
  rw [List.cons_append, scanner.cons_of_ok (step_dollar_of_outer outer _)]
  exact steps_of_readBlock rfl reads

/-- In braces a body stands one place further right. -/
theorem exists_steps_bracesBlock (outer : scan.mode.outer? = some read)
    (reads : (scan.endText read (.block '\x7d')).readBlock registry (offset + 1)
      (body ++ '\x7d' :: rest) = .ok (after, rest)) :
    ∃ other, scan.steps registry offset (['@', '\x7b'] ++ (body ++ ['\x7d'])) = .ok other ∧
      after.unplaced = other.unplaced := by
  rw [List.append_cons] at reads
  rw [scanner.append_of_ok (steps_atBrace outer _)]
  exact scanner.exists_elsewhere blind (steps_of_readBlock rfl reads) _

end Scan

theorem Registry.foreign_semicolon : Registry.standard.Foreign ';' :=
  ⟨by decide, by decide, by decide, by decide, by decide, by decide⟩

theorem Registry.foreign_brace : Registry.standard.Foreign '\x7d' :=
  ⟨by decide, by decide, by decide, by decide, by decide, by decide⟩

theorem Scan.readBlock_iff (scan : Scan) (offset : Nat) (body rest : List Char) (after : Scan) :
    readBlock .standard { scan with mode := .block ';' } offset (body ++ ';' :: rest) =
        .ok (after, rest) ↔
      readBlock .standard { scan with mode := .block '\x7d' } offset (body ++ '\x7d' :: rest) =
        .ok (after, rest) := by
  let block : Scan := { scan with mode := .block ';' }
  have inside : block.mode.close?.isSome = true := rfl
  exact ⟨readBlock_closedBy Registry.foreign_semicolon Registry.foreign_brace inside,
    readBlock_closedBy Registry.foreign_brace Registry.foreign_semicolon inside⟩

/-- The part `$ body ;` of a source is a block outside all others, not in a comment or in a name. -/
def HasBlock (registry : Registry) (before body after : String) : Prop :=
  ∃ scan read next, Scan.steps registry {} 0 before.toList = .ok scan ∧
    scan.mode.outer? = some read ∧
    (scan.endText read (.block ';')).readBlock registry (before.toList.length + 1)
      (body.toList ++ ';' :: after.toList) = .ok (next, after.toList)

theorem outcome_block {before body after : String}
    (hasBlock : HasBlock .standard before body after) :
    outcome id (read .standard (before ++ "$" ++ body ++ ";" ++ after)) =
      outcome id (read .standard (before ++ "@\x7b" ++ body ++ "\x7d" ++ after)) := by
  rcases hasBlock with ⟨scan, text, next, scanned, outer, readsBlock⟩
  have dollar : scan.steps .standard before.toList.length ("$" ++ body ++ ";").toList =
      .ok next := by
    simpa using Scan.steps_dollarBlock outer readsBlock
  have readsBraces := ((scan.endText text (.block ';')).readBlock_iff _ _ _ _).mp readsBlock
  rcases Scan.exists_steps_bracesBlock outer readsBraces with ⟨other, braces, same⟩
  have braces : scan.steps .standard before.toList.length
      ("@\x7b" ++ body ++ "\x7d").toList = .ok other := by
    simpa using braces
  have exchanged := Scan.outcome_exchange scanned dollar braces same after
  simpa only [String.append_assoc] using exchanged

/--
The two forms of a block can be exchanged. A text is the body of a block that `;` ends exactly if it
is the body of one that `}` ends, whatever was read before and whatever follows, and it gives the
same tokens and jumps in both. So where a block `$ body ;` stands outside all others, `@{ body }` in
its place changes neither the tokens and markers of the program nor the cause for which it is
refused.
-/
theorem block_forms_interchangeable :
    (∀ (scan : Scan) (offset : Nat) (body rest : List Char) (after : Scan),
      Scan.readBlock .standard { scan with mode := .block ';' } offset (body ++ ';' :: rest) =
          .ok (after, rest) ↔
        Scan.readBlock .standard { scan with mode := .block '\x7d' } offset
          (body ++ '\x7d' :: rest) = .ok (after, rest)) ∧
    ∀ before body after : String, HasBlock .standard before body after →
      outcome id (read .standard (before ++ "$" ++ body ++ ";" ++ after)) =
        outcome id (read .standard (before ++ "@\x7b" ++ body ++ "\x7d" ++ after)) :=
  ⟨Scan.readBlock_iff, fun _ _ _ => outcome_block⟩

/-- A body with both ends in a string and a name, which ends in a number, behind a lone `@`. -/
theorem block_forms_interchangeable_of_ends :
    HasBlock .standard "#m\x7d;a@" "\"\x7d;\" #m\x7d;1.5" "b" ∧
      outcome id (read .standard ("#m\x7d;a@" ++ "$" ++ "\"\x7d;\" #m\x7d;1.5" ++ ";" ++ "b")) =
        outcome id (read .standard
          ("#m\x7d;a@" ++ "@\x7b" ++ "\"\x7d;\" #m\x7d;1.5" ++ "\x7d" ++ "b")) := by
  have hasBlock : HasBlock .standard "#m\x7d;a@" "\"\x7d;\" #m\x7d;1.5" "b" :=
    ⟨_, _, _, rfl, rfl, rfl⟩
  exact ⟨hasBlock, block_forms_interchangeable.2 _ _ _ hasBlock⟩

end ShortO

end Esoterica
