import Esoterica.Proofs.Composition
import Esoterica.Proofs.Engine.Consistency
import Esoterica.Proofs.ShortO.Printing

/-!
# Lines of numbers

A number that is asked for is read from the whole line, a text on the stack from its start. On the
lines that can be typed for a number both readers agree, whether or not there is a number in them.
So asking for a number pushes what asking for a text and converting that pushes.
-/

namespace Esoterica

namespace Decimal

variable {c : Char} {sign text unsigned whole fraction : List Char}

theorem IsPlain.toLower_eq (plain : IsPlain c) : c.toLower = c := by
  rcases plain with digit | rfl
  · rcases Char.isDigit_iff_toNat.mp digit with ⟨-, upper⟩
    have noUpper : ¬ (c.val ≥ 'A'.val ∧ c.val ≤ 'Z'.val) := by
      rintro ⟨lower, -⟩
      exact absurd (Nat.le_trans (UInt32.le_iff_toNat_le.mp lower) upper) (by decide)
    exact dif_neg noUpper
  · decide

/-- No word starts like a text of digits and points. -/
theorem head_ne_of_plain (plain : ∀ c ∈ text, IsPlain c) {first : Char}
    (letter : ¬ IsPlain first) : text.head? ≠ some first := by
  intro isFirst
  exact letter (plain first (List.mem_of_head? isFirst))

theorem splitSign_of_plain (plain : ∀ c ∈ text, IsPlain c) : splitSign text = (false, text) := by
  unfold splitSign
  split
  · exact absurd rfl (head_ne_of_plain plain (by decide))
  · exact absurd rfl (head_ne_of_plain plain (by decide))
  · rfl

theorem dropWhile_isBlank_of_plain (plain : ∀ c ∈ text, IsPlain c) :
    text.dropWhile isBlank = text := by
  cases text with
  | nil => rfl
  | cons c rest =>
      have visible := (plain c List.mem_cons_self).isBlank_eq_false
      exact List.dropWhile_cons_of_neg (by simp [visible])

theorem exists_splitSign (isSign : sign = [] ∨ sign = ['-'])
    (plain : ∀ c ∈ unsigned, IsPlain c) :
    ∃ negative, splitSign (sign ++ unsigned) = (negative, unsigned) ∧
      (sign ++ unsigned).dropWhile isBlank = sign ++ unsigned := by
  rcases isSign with rfl | rfl
  · exact ⟨false, splitSign_of_plain plain, dropWhile_isBlank_of_plain plain⟩
  · exact ⟨true, rfl, rfl⟩

theorem map_toLower_of_plain (plain : ∀ c ∈ text, IsPlain c) : text.map Char.toLower = text := by
  rw [List.map_congr_left fun c mem => (plain c mem).toLower_eq, List.map_id']

/-- Digits with a point among them are a numeral as a whole, if they are one at all. -/
theorem eq_nil_of_splitNumeral? {decimal : Decimal} {rest : List Char}
    (wholeDigits : ∀ c ∈ whole, c.isDigit = true)
    (fractional : fraction = [] ∨
      ∃ digits, fraction = '.' :: digits ∧ ∀ c ∈ digits, c.isDigit = true)
    (splits : splitNumeral? (whole ++ fraction) = some (decimal, rest)) : rest = [] := by
  have splitsWhole : splitDigits (whole ++ fraction) = (whole, fraction) := by
    have noDigits : splitDigits fraction = ([], fraction) := by
      rcases fractional with rfl | ⟨digits, rfl, -⟩
      · rfl
      · simp [splitDigits]
    rw [splitDigits_append wholeDigits, noDigits, List.append_nil]
  have splitsFraction : (splitFraction fraction).2 = [] := by
    rcases fractional with rfl | ⟨digits, rfl, areDigits⟩
    · rfl
    · rw [splitFraction, splitDigits_eq areDigits]
  simp only [splitNumeral?, splitsWhole, splitsFraction, splitExponent] at splits
  split at splits
  · cases splits
  · cases splits
    rfl

end Decimal

namespace Binary64

open Decimal

variable {text unsigned : List Char} {negative : Bool}

theorem read?_of_none (signed : splitSign text = (negative, unsigned))
    (plain : ∀ c ∈ unsigned, IsPlain c) (noNumeral : splitNumeral? unsigned = none) :
    read? text = none := by
  have noWord {word : List Char} {first : Char} (starts : word.head? = some first)
      (letter : ¬ IsPlain first) : unsigned.map Char.toLower ≠ word := by
    rw [map_toLower_of_plain plain]
    rintro rfl
    exact head_ne_of_plain plain letter starts
  have noInf : unsigned.map Char.toLower ≠ "inf".toList := noWord rfl (by decide)
  have noInfinity : unsigned.map Char.toLower ≠ "infinity".toList := noWord rfl (by decide)
  have noNaN : unsigned.map Char.toLower ≠ "nan".toList := noWord rfl (by decide)
  simp only [read?, signed, noNumeral]
  rw [if_neg (not_or.mpr ⟨noInf, noInfinity⟩), if_neg noNaN]

/-- The readers of whole texts and of their starts agree on the lines of numbers. -/
theorem read?_getD_eq_readStart {line : List Char} (isDecimal : LineForm.IsDecimal line) :
    (read? line).getD nan = readStart line := by
  rcases isDecimal with ⟨sign, whole, fraction, rfl, isSign, wholeDigits, fractional⟩
  rw [List.append_assoc]
  have plain : ∀ c ∈ whole ++ fraction, IsPlain c := by
    refine List.forall_mem_append.mpr ⟨fun c mem => .inl (wholeDigits c mem), ?_⟩
    rcases fractional with rfl | ⟨digits, rfl, areDigits⟩
    · simp
    · exact List.forall_mem_cons.mpr ⟨.inr rfl, fun c mem => .inl (areDigits c mem)⟩
  rcases exists_splitSign isSign plain with ⟨negative, signed, visible⟩
  have noInfinity : "Infinity".toList.isPrefixOf (whole ++ fraction) = false := by
    have noLetter : (whole ++ fraction).head? ≠ some 'I' := head_ne_of_plain plain (by decide)
    rw [Bool.eq_false_iff, ne_eq, List.isPrefixOf_iff_prefix]
    rintro ⟨rest, same⟩
    exact noLetter (same ▸ rfl)
  simp only [readStart, visible, signed, noInfinity]
  cases splits : splitNumeral? (whole ++ fraction) with
  | none =>
      rw [read?_of_none signed plain splits]
      rfl
  | some found =>
      rcases found with ⟨decimal, rest⟩
      rcases eq_nil_of_splitNumeral? wholeDigits fractional splits with rfl
      simp only [read?, signed, splits]
      rfl

end Binary64

namespace Prompt

/-- Presses keys up to the first that commits an entry: the entry, and the console as it is then. -/
def enter? (prompt : Prompt) (console : Console) : List Key → Option (Entry × Console)
  | [] => none
  | key :: rest =>
    match prompt.press key console with
    | (.committed entry, _, console) => some (entry, console)
    | (_, prompt, console) => prompt.enter? console rest

variable {prompt : Prompt} {console : Console} {form : LineForm} {key : Key}

theorem enter?_enter (asks : prompt.request = .line form) (console : Console) (rest : List Key) :
    prompt.enter? console (.enter :: rest) = some (form.entry console.echo, console) := by
  simp only [enter?, press, asks, pressLine]

theorem enter?_cons_of_uncommitted (rest : List Key)
    (uncommitted : ∀ entry, (prompt.press key console).1 ≠ .committed entry) :
    prompt.enter? console (key :: rest) =
      (prompt.press key console).2.1.enter? (prompt.press key console).2.2 rest := by
  rcases pressed : prompt.press key console with ⟨reaction, next, after⟩
  rw [pressed] at uncommitted
  cases reaction with
  | committed entry => exact absurd rfl (uncommitted entry)
  | ignored | edited => rw [enter?, pressed]

theorem Shows.admits (shown : prompt.Shows console.echo) (asks : prompt.request = .line form) :
    form.Admits console.echo.toList := by
  unfold Shows at shown
  rw [asks] at shown
  exact shown.2

/-- The first enter key commits a line of the form that is asked for, whatever is pressed before. -/
theorem Shows.exists_enter? (shown : prompt.Shows console.echo)
    (asks : prompt.request = .line form) (keys : List Key) :
    ∃ after, prompt.enter? console (keys ++ [.enter]) = some (form.entry after.echo, after) ∧
      form.Admits after.echo.toList := by
  induction keys generalizing prompt console with
  | nil => exact ⟨console, enter?_enter asks console [], shown.admits asks⟩
  | cons key rest ih =>
      by_cases isEnter : key = .enter
      · subst isEnter
        exact ⟨console, enter?_enter asks console _, shown.admits asks⟩
      · have uncommitted (entry : Entry) : (prompt.press key console).1 ≠ .committed entry :=
          fun commits => isEnter (eq_enter_of_committed asks commits)
        rw [List.cons_append, enter?_cons_of_uncommitted _ uncommitted]
        exact ih (shown.press uncommitted) ((press_request prompt key console).trans asks)

end Prompt

namespace ShortO

section run

variable {machine : Machine Token Stack} {symbol : Char} {request : Request}

theorem perform_ask (asks : execute .standard (.operator symbol) = pure (.ask request))
    (machine : Machine Token Stack) :
    (language .standard).perform (.operator symbol) machine = (.ok (.ask request), machine) := by
  simp only [Language.perform, language, asks]
  rfl

/-- A request is answered by a push. -/
theorem passes_ask (current : machine.program.current? = some (.operator symbol))
    (asks : execute .standard (.operator symbol) = pure (.ask request))
    (room : machine.state.isFull = false) (answer : Answer) :
    (language .standard).Passes machine [answer]
      { token := .operator symbol
        flow := .ok (.ask request)
        received := some (.ok ())
        machine :=
          { machine.behind with
            state := machine.state.push (valueOfEntry answer.entry)
            console := (language .standard).answered answer machine.console } } := by
  refine .answered current (perform_ask asks _) (Language.answer_of_ok ?_)
  exact if_neg (Bool.eq_false_iff.mp room)

/-- A full stack takes no answer. -/
theorem plainVerdict_ask (current : machine.program.current? = some (.operator symbol))
    (asks : execute .standard (.operator symbol) = pure (.ask request))
    (full : machine.state.isFull = true) (answer : Answer) (limit : Nat) :
    (language .standard).plainVerdict (limit + 1) [answer] machine = .failed .fullStack := by
  have refuses : (language .standard).receive answer.entry machine.behind.state =
      .error .fullStack := if_pos full
  have passes := Language.Passes.answered current (perform_ask asks _)
    (Language.answer_of_error refuses)
  have run := passes.plainRun_eq limit []
  rw [List.append_nil] at run
  rw [Language.plainVerdict, run]
  rfl

/-- An operator that changes the top of the stack leaves what is below. -/
theorem perform_mapTop {f : Value → Value}
    (maps : execute .standard (.operator symbol) = do StackAction.mapTop f; return .proceed)
    {stack : Stack} {value : Value} (pushed : machine.state = stack.push value)
    (room : stack.isFull = false) :
    (language .standard).perform (.operator symbol) machine =
      (.ok .proceed, { machine with state := stack.push (f value) }) := by
  have pops : StackAction.pop machine = .ok value { machine with state := stack } := by
    have top : machine.state.top? = some value := by simp [pushed, Stack.top?, Stack.push]
    have below : machine.state.pop = stack := by simp [pushed, Stack.pop, Stack.push]
    rw [pop_eq, top, below]
  have pushes : StackAction.push (f value) { machine with state := stack } =
      .ok () { machine with state := stack.push (f value) } := by
    rw [push_eq]
    exact if_neg (Bool.eq_false_iff.mp room)
  have applies : execute .standard (.operator symbol) machine =
      .ok .proceed { machine with state := stack.push (f value) } := by
    rw [maps]
    simp only [StackAction.mapTop, Bind.bind, EStateM.bind, pops, pushes]
    rfl
  simp only [Language.perform, language, applies]

end run

/-- The source, run with one answer on any stack, pushes a value, unless the stack is full. -/
def Pushes (source : String) (answer : Answer) (value : Value) : Prop :=
  ∃ program, read .standard source = .ok program ∧
    ∀ (stack : Stack) (console : Console) (random : RandomStream),
      let machine : Machine Token Stack := { program, state := stack, console, random }
      let limit := program.tokens.size + 1
      let verdict := (language .standard).plainVerdict limit [answer] machine
      let steps := ((language .standard).plainRun limit [answer] machine).1
      if stack.isFull then verdict = .failed .fullStack
      else verdict = .completed ∧ (PlainStep.lastMachine machine steps).state = stack.push value

theorem pushes_readNumber (answer : Answer) : Pushes "$:;" answer (valueOfEntry answer.entry) := by
  refine ⟨⟨#[.operator ':'], {}, 0⟩, rfl, ?_⟩
  intro stack console random machine limit verdict steps
  have current : machine.program.current? = some (.operator ':') := rfl
  split
  · rename_i full
    exact plainVerdict_ask current rfl full answer 1
  · rename_i room
    have passes := passes_ask current rfl (Bool.eq_false_iff.mpr room) answer
    have passage := Language.Passage.nil.snoc passes
    have finished := passage.finished (by simp [PlainStep.fault?]) rfl rfl
    exact ⟨finished.1, congrArg Machine.state finished.2⟩

theorem pushes_readText_toNumber (answer : Answer) :
    Pushes "$_~;" answer (valueOfEntry answer.entry).toNumber := by
  refine ⟨⟨#[.operator '_', .operator '~'], {}, 0⟩, rfl, ?_⟩
  intro stack console random machine limit verdict steps
  have current : machine.program.current? = some (.operator '_') := rfl
  split
  · rename_i full
    exact plainVerdict_ask current rfl full answer 2
  · rename_i room
    have room := Bool.eq_false_iff.mpr room
    have asked := Language.Passage.nil.snoc (passes_ask current rfl room answer)
    have passage := asked.snoc (.goesOn rfl (perform_mapTop rfl rfl room) (.inl rfl))
    have finished := passage.finished (by simp [PlainStep.fault?]) rfl rfl
    exact ⟨finished.1, congrArg Machine.state finished.2⟩

/--
Asking for a number is asking for a text and converting it. Whatever keys are pressed at a new
prompt for a number, where nothing is typed yet, the first enter key commits a line, and the answer
has the value of the number which the line starts with, or of no number where there is none. So the
programs `$:;` and `$_~;`, answered with this line, push the same value on every stack that has room
for it, and fail alike on one that has none.
-/
theorem number_readers_agree (keys : List Key) (console : Console) (nothing : console.echo = "") :
    ∃ after : Console,
      let line := after.echo
      let value := Value.ofNumber (Binary64.readStart line.toList)
      Prompt.enter? { request := .line .decimal } console (keys ++ [.enter]) =
          some (LineForm.decimal.entry line, after) ∧
        valueOfEntry (LineForm.decimal.entry line) = value ∧
        Pushes "$:;" ⟨LineForm.decimal.entry line, line⟩ value ∧
        Pushes "$_~;" ⟨LineForm.text.entry line, line⟩ value := by
  have shown : Prompt.Shows { request := .line .decimal } console.echo := by
    rw [nothing]
    exact Prompt.shows_empty _
  rcases shown.exists_enter? rfl keys with ⟨after, commits, isDecimal⟩
  have same : valueOfEntry (LineForm.decimal.entry after.echo) =
      .ofNumber (Binary64.readStart after.echo.toList) :=
    congrArg Value.ofNumber (Binary64.read?_getD_eq_readStart isDecimal)
  refine ⟨after, commits, same, ?_, ?_⟩
  · have pushes := pushes_readNumber ⟨LineForm.decimal.entry after.echo, after.echo⟩
    rw [same] at pushes
    exact pushes
  · exact pushes_readText_toNumber ⟨LineForm.text.entry after.echo, after.echo⟩

/-- A line with a number, typed with a key that is erased and one that is not taken. -/
theorem number_readers_agree_of_signs :
    let keys : List Key := [.char '7', .backspace, .char '-', .char '.', .char '.', .char '5']
    let value := Value.number (Binary64.neg (Binary64.div 1 2))
    ({} : Console).echo = "" ∧
      (Prompt.enter? { request := .line .decimal } {} (keys ++ [.enter])).map (·.2.echo) =
        some "-.5" ∧
      Pushes "$:;" ⟨LineForm.decimal.entry "-.5", "-.5"⟩ value ∧
      Pushes "$_~;" ⟨LineForm.text.entry "-.5", "-.5"⟩ value := by
  intro keys value
  have erased : ("7".dropEnd 1).copy = "" := by
    rw [← String.toList_inj, String.toList_copy_dropEnd]
    rfl
  have typed : (Prompt.enter? { request := .line .decimal } {} (keys ++ [.enter])).map (·.2.echo) =
      some "-.5" := by
    simp [keys, Prompt.enter?, Prompt.press, Prompt.pressLine, LineForm.allows, Console.echoChar,
      Console.setEcho, Console.rubOut?, erased]
  have half : Value.ofNumber (Binary64.readStart "-.5".toList) = value := by decide +kernel
  rcases number_readers_agree keys {} rfl with ⟨after, commits, -, number, text⟩
  have line : after.echo = "-.5" := by
    rw [commits] at typed
    exact Option.some.inj typed
  rw [line, half] at number text
  exact ⟨rfl, typed, number, text⟩

end ShortO

end Esoterica
