import Esoterica.Proofs.Script.Places
import Esoterica.Proofs.ShortO.Places

/-!
# Comments

A comment counts for nothing: whatever it says, its source is read like the one that has only the
line break in its place. In the stack language that line break belongs to the text around it, in
scripts it ends a command.
-/

namespace Esoterica

namespace Scanner

variable {Scan : Type} {step : Scan → Nat → Char → Except Misplaced Scan}
  {steps : Scan → Nat → List Char → Except Misplaced Scan} {mark : Char} {text : List Char}

/-- The scan is in a comment, and a line break leads on from there. -/
structure InComment (step : Scan → Nat → Char → Except Misplaced Scan) (scan after : Scan) :
    Prop where
  ignores : ∀ c, c ≠ '\n' → ∀ offset, step scan offset c = .ok scan
  ends : ∀ offset, step scan offset '\n' = .ok after

/-- A line break leads on from the scan, and so does the line break of a comment. -/
structure MayComment (step : Scan → Nat → Char → Except Misplaced Scan) (scan after : Scan) :
    Prop where
  lineBreak : ∀ offset, step scan offset '\n' = .ok after
  slashes : ∀ offset, ∃ slashed, step scan offset '/' = .ok slashed ∧ ∀ later, ∃ opened,
    step slashed later '/' = .ok opened ∧ InComment step opened after

variable {scan after : Scan} {junk : List Char}

theorem InComment.mayComment (inComment : InComment step scan after) :
    MayComment step scan after where
  lineBreak := inComment.ends
  slashes offset := by
    refine ⟨scan, inComment.ignores _ (by decide) offset, ?_⟩
    intro later
    exact ⟨scan, inComment.ignores _ (by decide) later, inComment⟩

theorem InComment.steps_eq (inComment : InComment step scan after)
    (scanner : Scanner step steps) (oneLine : '\n' ∉ junk) (offset : Nat) :
    steps scan offset (junk ++ ['\n']) = .ok after := by
  have ignored : steps scan offset junk = .ok scan := by
    refine scanner.text_of_adds (fun _ => scan) ?_ "" offset
    intro c mem _ offset
    have goesOn : c ≠ '\n' := by
      rintro rfl
      exact oneLine mem
    exact inComment.ignores c goesOn offset
  rw [scanner.append_of_ok ignored]
  exact scanner.single_of_ok (inComment.ends _)

theorem MayComment.steps_eq (mayComment : MayComment step scan after)
    (scanner : Scanner step steps) (oneLine : '\n' ∉ junk) (offset : Nat) :
    steps scan offset ('/' :: '/' :: junk ++ ['\n']) = .ok after := by
  rcases mayComment.slashes (offset + 1) with ⟨slashed, slash, opens⟩
  rcases opens (offset + 1 + 1) with ⟨opened, slashToo, inComment⟩
  rw [List.cons_append, List.cons_append, scanner.cons_of_ok slash, scanner.cons_of_ok slashToo]
  exact inComment.steps_eq scanner oneLine _

/-- If steps come to a mark only at one character, a scan that ends at a mark ends with it. -/
theorem getLast?_of_marked (scanner : Scanner step steps) (Marked : Scan → Prop)
    (only : ∀ scan offset c next, step scan offset c = .ok next → Marked next → c = mark)
    {first after : Scan} {offset : Nat} (unmarked : ¬ Marked first)
    (reads : steps first offset text = .ok after) (marked : Marked after) :
    text.getLast? = some mark := by
  have nonempty : text ≠ [] := by
    rintro rfl
    rw [scanner.nil] at reads
    cases reads
    exact unmarked marked
  clear unmarked
  induction text generalizing first offset with
  | nil => exact absurd rfl nonempty
  | cons c rest ih =>
      rcases scanner.exists_of_cons_eq_ok reads with ⟨between, readsFirst, readsRest⟩
      cases rest with
      | nil =>
          rw [scanner.nil] at readsRest
          cases readsRest
          rw [only first _ c _ readsFirst marked, List.getLast?_singleton]
      | cons d more =>
          rw [List.getLast?_cons_cons]
          exact ih readsRest (by simp)

/--
Behind a part of a source where a comment may begin unless a slash stands before it, and none does,
a comment is like its line break.
-/
theorem exists_comment_eq_lineBreak (scanner : Scanner step steps) (Slashed : Scan → Prop)
    (only : ∀ scan offset c next, step scan offset c = .ok next → Slashed next → c = '/')
    {first : Scan} {before junk : String} (unslashed : ¬ Slashed first)
    (scanned : steps first 0 before.toList = .ok scan)
    (noSlash : before.toList.getLast? ≠ some '/') (oneLine : '\n' ∉ junk.toList)
    (mayComment : ¬ Slashed scan → ∃ after, MayComment step scan after) :
    ∃ after, steps scan before.toList.length ("//" ++ junk ++ "\n").toList = .ok after ∧
      steps scan before.toList.length "\n".toList = .ok after := by
  have spelled : ("//" ++ junk ++ "\n").toList = '/' :: '/' :: junk.toList ++ ['\n'] := by simp
  have notBehind : ¬ Slashed scan := by
    intro slashed
    exact noSlash (scanner.getLast?_of_marked Slashed only unslashed scanned slashed)
  rcases mayComment notBehind with ⟨after, mayComment⟩
  rw [spelled]
  exact ⟨after, mayComment.steps_eq scanner oneLine _,
    scanner.single_of_ok (mayComment.lineBreak _)⟩

end Scanner

/-- Where two parts succeed one after the other, both of them do. -/
theorem exists_of_isOk_bind {ε α β : Type} {first : Except ε α} {rest : α → Except ε β}
    (succeeds : (first.bind rest).isOk = true) :
    ∃ value, first = .ok value ∧ (rest value).isOk = true := by
  cases first with
  | error error => cases succeeds
  | ok value => exact ⟨value, rfl, succeeds⟩

namespace ShortO

namespace Scan

variable {registry : Registry} {scan next : Scan} {offset : Nat} {c : Char} {read slashed : String}

theorem eq_slash_of_stepText (reads : scan.stepText offset read c = .ok next)
    (behind : next.mode = .textSlash slashed) : c = '/' := by
  unfold stepText at reads
  grind [endText]

theorem eq_slash_of_step (reads : scan.step registry offset c = .ok next)
    (behind : next.mode = .textSlash slashed) : c = '/' := by
  unfold step at reads
  grind [stepBlock, endMarker, endJump, endText, eq_slash_of_stepText]

/-- A comment goes on to the line break, which belongs to the text. -/
theorem inComment_of_mode (isComment : scan.mode = .comment read) :
    Scanner.InComment (step registry) scan { scan with mode := .text (read.push '\n') } where
  ignores c goesOn offset := by simp [step, isComment, goesOn]
  ends offset := by simp [step, isComment]

theorem mayComment_of_outer (outer : scan.mode.outer? = some read)
    (noSlash : ∀ before, scan.mode ≠ .textSlash before) :
    Scanner.MayComment (step registry) scan { scan with mode := .text (read.push '\n') } where
  lineBreak offset := by
    rw [step_of_outer _ outer (by simp) (by decide)]
    rfl
  slashes offset := by
    refine ⟨{ scan with mode := .textSlash read }, ?_, ?_⟩
    · rw [step_of_outer _ outer (fun _ => noSlash) (by decide)]
      rfl
    · intro later
      exact ⟨{ scan with mode := .comment read }, rfl, inComment_of_mode rfl⟩

/-- A source may end in a text or in a comment. -/
theorem exists_mayComment (registry : Registry) (ends : (scan.finish offset).isOk = true)
    (noSlash : ∀ before, scan.mode ≠ .textSlash before) :
    ∃ after, Scanner.MayComment (step registry) scan after := by
  cases mode : scan.mode with
  | text read | textSlash read | textAt read =>
      exact ⟨_, mayComment_of_outer (by rw [mode]; rfl) noSlash⟩
  | comment read => exact ⟨_, (inComment_of_mode mode).mayComment⟩
  | textEscape | marker | block | string | stringEscape | number | jump =>
      simp only [finish, mode] at ends
      cases ends

end Scan

/-- The source is scanned without a mistake; jumps may lack their markers. -/
def Lexes (registry : Registry) (source : String) : Prop :=
  ((Scan.steps registry {} 0 source.toList).bind (·.finish source.length)).isOk = true

instance (registry : Registry) (source : String) : Decidable (Lexes registry source) :=
  inferInstanceAs (Decidable (_ = true))

theorem outcome_comment {registry : Registry} {before junk : String}
    (lexes : Lexes registry before) (noSlash : before.toList.getLast? ≠ some '/')
    (oneLine : '\n' ∉ junk.toList) (after : String) :
    outcome id (read registry (before ++ "//" ++ junk ++ "\n" ++ after)) =
      outcome id (read registry (before ++ "\n" ++ after)) := by
  rcases exists_of_isOk_bind lexes with ⟨scan, scanned, ends⟩
  have readsAlike := Scan.scanner.exists_comment_eq_lineBreak
    (fun scan => ∃ read, scan.mode = .textSlash read)
    (fun _ _ _ _ reads ⟨_, behind⟩ => Scan.eq_slash_of_step reads behind) (by simp) scanned
    noSlash oneLine fun behind => Scan.exists_mayComment registry ends (not_exists.mp behind)
  rcases readsAlike with ⟨next, readsComment, readsBreak⟩
  have exchanged := Scan.outcome_exchange scanned readsComment readsBreak rfl after
  simpa only [String.append_assoc] using exchanged

end ShortO

namespace Script

namespace Scan

variable {scan next : Scan} {offset start : Nat} {c : Char}

theorem eq_slash_of_stepBetween (reads : scan.stepBetween offset c = .ok next)
    (behind : next.mode = .slash start) : c = '/' := by
  unfold stepBetween at reads
  grind [endLine, push]

theorem eq_slash_of_closeAndStep (reads : scan.closeAndStep offset c = .ok next)
    (behind : next.mode = .slash start) : c = '/' := by
  unfold closeAndStep at reads
  cases closes : scan.close offset with
  | error misplaced =>
      rw [closes] at reads
      cases reads
  | ok closed =>
      rw [closes] at reads
      exact eq_slash_of_stepBetween reads behind

theorem eq_slash_of_step (reads : scan.step offset c = .ok next)
    (behind : next.mode = .slash start) : c = '/' := by
  unfold step at reads
  grind [endLine, push, eq_slash_of_stepBetween, eq_slash_of_closeAndStep]

theorem inComment_of_mode (isComment : scan.mode = .comment) :
    Scanner.InComment step scan scan.endLine where
  ignores c goesOn offset := by simp [step, isComment, goesOn]
  ends offset := by simp [step, isComment]

theorem Pending.mayComment {after : Scan} (pending : scan.Pending after)
    (noSlash : ∀ start, scan.mode ≠ .slash start) :
    Scanner.MayComment step scan after.endLine where
  lineBreak := pending.step_newline
  slashes offset := by
    refine ⟨{ after with mode := .slash offset }, ?_, ?_⟩
    · have noName : isNameChar '/' = false := by decide
      have noDigit : hexDigit? '/' = none := by decide
      rw [step_eq_of_ends pending.ends '/' noName noDigit (fun _ => noSlash) (by decide),
        pending.closeAndStep_eq]
      rfl
    · intro later
      exact ⟨{ after with mode := .comment }, rfl, inComment_of_mode rfl⟩

/-- A script may end behind a lexeme or in a comment. -/
theorem exists_mayComment {closed : Scan} (closes : scan.close offset = .ok closed)
    (noSlash : ∀ start, scan.mode ≠ .slash start) :
    ∃ after, Scanner.MayComment step scan after := by
  rcases scan with ⟨lines, line, mode⟩
  cases mode with
  | comment => exact ⟨_, (inComment_of_mode rfl).mayComment⟩
  | between | name | number | slash | dash =>
      cases closes
      exact ⟨_, Pending.mayComment ⟨trivial, rfl, fun _ => rfl⟩ noSlash⟩
  | string | stringEscape => cases closes

end Scan

/-- The script is scanned without a mistake; its constants may be wrong. -/
def Lexes (source : String) : Prop :=
  (readLines source.toList).isOk = true

instance (source : String) : Decidable (Lexes source) :=
  inferInstanceAs (Decidable (_ = true))

theorem outcome_comment {before junk : String} (lexes : Lexes before)
    (noSlash : before.toList.getLast? ≠ some '/') (oneLine : '\n' ∉ junk.toList)
    (after : String) :
    outcome substance (read (before ++ "//" ++ junk ++ "\n" ++ after)) =
      outcome substance (read (before ++ "\n" ++ after)) := by
  rcases exists_of_isOk_bind lexes with ⟨scan, scanned, closesAndEnds⟩
  rcases exists_of_isOk_bind closesAndEnds with ⟨closed, closes, _⟩
  have readsAlike := Scan.scanner.exists_comment_eq_lineBreak
    (fun scan => ∃ start, scan.mode = .slash start)
    (fun _ _ _ _ reads ⟨_, behind⟩ => Scan.eq_slash_of_step reads behind) (by simp) scanned
    noSlash oneLine fun behind => Scan.exists_mayComment closes (not_exists.mp behind)
  rcases readsAlike with ⟨next, readsComment, readsBreak⟩
  have exchanged := outcome_exchange scanned readsComment readsBreak rfl after
  simpa only [String.append_assoc] using exchanged

end Script

/--
A comment can be put in or taken out. Behind a part of a source that is complete as far as it goes
and does not end with a slash, a comment up to its line break, whatever it says, and the line break
alone are followed by the same: the source is read as the same tokens and markers, or it is refused
for the same cause. So are scripts, with the same contents of commands and the same variables.
-/
theorem comments_transparent :
    (∀ (registry : ShortO.Registry) (before junk after : String), ShortO.Lexes registry before →
      before.toList.getLast? ≠ some '/' → '\n' ∉ junk.toList →
      outcome id (ShortO.read registry (before ++ "//" ++ junk ++ "\n" ++ after)) =
        outcome id (ShortO.read registry (before ++ "\n" ++ after))) ∧
    ∀ before junk after : String, Script.Lexes before →
      before.toList.getLast? ≠ some '/' → '\n' ∉ junk.toList →
      outcome Script.substance (Script.read (before ++ "//" ++ junk ++ "\n" ++ after)) =
        outcome Script.substance (Script.read (before ++ "\n" ++ after)) := by
  refine ⟨?_, ?_⟩
  · intro registry before junk after lexes noSlash oneLine
    exact ShortO.outcome_comment lexes noSlash oneLine after
  · intro before junk after lexes noSlash oneLine
    exact Script.outcome_comment lexes noSlash oneLine after

/-- Comments behind an `@` that opens no block, where a jump has its marker behind the comment, and
behind a minus that is no arrow. -/
theorem comments_transparent_of_half_signs :
    (ShortO.Lexes .standard "$#m;;x@" ∧
      outcome id (ShortO.read .standard ("$#m;;x@" ++ "//" ++ "\x7b ;\"" ++ "\n" ++ "#m;")) =
        outcome id (ShortO.read .standard ("$#m;;x@" ++ "\n" ++ "#m;"))) ∧
    Script.Lexes "#k : ~1f -" ∧
      outcome Script.substance (Script.read ("#k : ~1f -" ++ "//" ++ "> \"" ++ "\n" ++ "$v #k")) =
        outcome Script.substance (Script.read ("#k : ~1f -" ++ "\n" ++ "$v #k")) := by
  have lexes : ShortO.Lexes .standard "$#m;;x@" := by decide +kernel
  have lexesToo : Script.Lexes "#k : ~1f -" := by decide +kernel
  refine ⟨⟨lexes, ?_⟩, lexesToo, ?_⟩
  · exact comments_transparent.1 .standard _ _ _ lexes (by decide) (by decide)
  · exact comments_transparent.2 _ _ _ lexesToo (by decide) (by decide)

end Esoterica
