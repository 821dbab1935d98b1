import Esoterica.Proofs.Course
import Esoterica.Proofs.Engine.Conduct
import Esoterica.Proofs.Engine.Settings
import Esoterica.Proofs.ShortO.Definitions
import Esoterica.Proofs.ShortO.Mistakes

/-!
# Names are resolved before a program runs

A source is read as a program only if every operator in it is registered and every jump has a
marker, and markers point into the program. None of this changes while the program runs, so that
operators and jumps always find what they name, wherever skips and jumps have led.

A symbol may stand for any action at all. So this is true of registries whose actions are
respectful: they leave the tokens and the markers of the program as they are, and do not fail
themselves as if a name stood for nothing. All operators of the language are.
-/

namespace Esoterica

namespace Fault

/-- The fault of a token that names nothing. -/
def isUnresolved : Fault → Bool
  | unknownMarker _ | unknownOperator _ => true
  | emptyStack | fullStack | jumpOutOfRange _ | textTooLong _ _ _ _ | missingLoopStart
  | missingParameter | invalidParameter _ | missingResult | unexpectedInput => false

end Fault

namespace Instruction

variable {Token State α β : Type} {faults : Fault → Prop}

/-- Where the instruction fails, it is with one of the faults. -/
def FailsWith (faults : Fault → Prop) (action : Instruction Token State α) : Prop :=
  ∀ machine fault after, action machine = .error fault after → faults fault

theorem failsWith_pure (value : α) :
    (pure value : Instruction Token State α).FailsWith faults := by
  intro machine fault after fails
  cases fails

theorem failsWith_throw {fault : Fault} (thrown : faults fault) :
    (throw fault : Instruction Token State α).FailsWith faults := by
  intro machine other after fails
  cases fails
  exact thrown

theorem FailsWith.bind {first : Instruction Token State α}
    {rest : α → Instruction Token State β} (fails : first.FailsWith faults)
    (restFails : ∀ value, (rest value).FailsWith faults) : (first >>= rest).FailsWith faults := by
  intro machine fault after failed
  simp only [Bind.bind, EStateM.bind] at failed
  split at failed
  · exact restFails _ _ _ _ failed
  · rename_i failedFirst
    cases failed
    exact fails _ _ _ failedFirst

theorem FailsWith.get_bind {rest : Machine Token State → Instruction Token State α}
    (fails : ∀ machine, (rest machine).FailsWith faults) : (get >>= rest).FailsWith faults := by
  intro machine fault after failed
  exact fails machine machine fault after failed

theorem failsWith_tryProgram {change : Program Token → Except Fault (Program Token)}
    (fails : ∀ program fault, change program = .error fault → faults fault) :
    (tryProgram change : Instruction Token State Unit).FailsWith faults := by
  apply FailsWith.get_bind
  intro machine
  cases changed : change machine.program with
  | ok program =>
      intro other fault after failed
      cases failed
  | error fault => exact failsWith_throw (fails _ _ changed)

/-- What is put together fails as its parts do, or on its own account. -/
theorem Composed.failsWith {primitive : (α : Type) → Instruction Token State α → Prop}
    {throws : Fault → Prop}
    (primitives : ∀ (α : Type) (action : Instruction Token State α),
      primitive α action → action.FailsWith faults)
    (thrown : ∀ fault, throws fault → faults fault) {action : Instruction Token State α}
    (composed : Composed primitive throws α action) : action.FailsWith faults := by
  induction composed with
  | primitive isPrimitive => exact primitives _ _ isPrimitive
  | pure value => exact failsWith_pure value
  | throw throws => exact failsWith_throw (thrown _ throws)
  | bind _ _ ih restIh => exact ih.bind restIh

end Instruction

namespace ShortO

open Instruction

theorem Primitive.failsWith {looks : Prop} {α : Type} {action : StackAction α}
    (isPrimitive : Primitive looks α action) : action.FailsWith (·.isUnresolved = false) := by
  cases isPrimitive with
  | look | modifyConsole | draw =>
      intro machine fault after fails
      cases fails
  | pop =>
      intro machine fault after fails
      rw [pop_eq] at fails
      split at fails
      · cases fails
      · cases fails
        rfl
  | push value =>
      intro machine fault after fails
      rw [push_eq] at fails
      split at fails
      · cases fails
        rfl
      · cases fails
  | goTo index =>
      apply failsWith_tryProgram
      intro program fault fails
      rcases Program.goTo_fault fails with ⟨target, rfl⟩
      rfl
  | skip offset =>
      apply failsWith_tryProgram
      intro program fault fails
      rcases Program.skip_fault fails with ⟨target, rfl⟩
      rfl

theorem Overlong.isUnresolved {fault : Fault} (overlong : Overlong fault) :
    fault.isUnresolved = false := by
  rcases overlong with ⟨_, _, _, _, rfl⟩
  rfl

/-! ### What a scan keeps -/

namespace Scan

/-- Whatever a step can do to a scan keeps a property of it. -/
structure KeptBySteps (registry : Registry) (holds : Scan → Prop) : Prop where
  withMode : ∀ scan mode, holds scan → holds { scan with mode }
  text : ∀ scan read, holds scan → holds (scan.push (.text read))
  string : ∀ scan read, holds scan → holds (scan.push (.value (.text read)))
  number : ∀ scan read, holds scan → holds (scan.endNumber read)
  operator : ∀ scan symbol, registry.contains symbol = true → holds scan →
    holds (scan.push (.operator symbol))
  jump : ∀ scan close offset name, holds scan → holds (scan.endJump close offset name)
  marker : ∀ scan offset name next, holds scan → scan.endMarker offset name = .ok next → holds next

namespace KeptBySteps

variable {registry : Registry} {holds : Scan → Prop}

theorem keptAt (kept : KeptBySteps registry holds) (offset : Nat) :
    KeptAt registry offset holds where
  withMode scan mode _ held := kept.withMode scan mode held
  text := kept.text
  string := kept.string
  number := kept.number
  operator := kept.operator
  jump scan close start name _ held := kept.jump scan close start name held
  marker scan name next held ends := kept.marker scan offset name next held ends

/-- What a scan has at its start and keeps, it has when its program is read off. -/
theorem exists_of_read (kept : KeptBySteps registry holds) {source : String}
    {program : Program Token} (fresh : holds {}) (reads : read registry source = .ok program) :
    ∃ final, holds final ∧ final.toProgram = .ok program := by
  rcases exists_of_readSource (readSource_of_read reads) with
    ⟨scan, final, scanned, finished, resolves⟩
  have held : holds scan := by
    apply scanner.keeps _ fresh scanned
    intro scan offset c next held reads
    have reading := (kept.keptAt offset).step c held
    rw [reads] at reading
    exact reading.of_ok
  have finishing := (kept.keptAt source.toList.length).finish held
  rw [finished] at finishing
  exact ⟨final, finishing.of_ok, resolves⟩

end KeptBySteps

end Scan

/-! ### What a scan resolves -/

/-- The token stands for itself, or its operator is registered. -/
def Token.Known (registry : Registry) : Token → Prop
  | .text _ | .value _ => True
  | .operator symbol => registry.contains symbol = true
  | .jump _ => False

namespace Scan

variable {registry : Registry} {scan next : Scan} {offset : Nat}

/-- Operators are registered, jumps are on record, and markers are single and point inside. -/
structure Resolved (registry : Registry) (scan : Scan) : Prop where
  operators : ∀ symbol, .operator symbol ∈ scan.tokens → registry.contains symbol = true
  jumps : ∀ name, .jump name ∈ scan.tokens → ∃ offset, (name, offset) ∈ scan.jumps
  single : scan.names.Nodup
  inside : ∀ entry ∈ scan.markers.entries, entry.2 ≤ scan.tokens.size

theorem Resolved.withMode (resolved : scan.Resolved registry) (mode : Mode) :
    Resolved registry { scan with mode } :=
  ⟨resolved.operators, resolved.jumps, resolved.single, resolved.inside⟩

theorem Resolved.push (resolved : scan.Resolved registry) (token : Token)
    (known : token.Known registry) : (scan.push token).Resolved registry where
  operators symbol mem := by
    rcases Array.mem_push.mp mem with mem | rfl
    · exact resolved.operators symbol mem
    · exact known
  jumps name mem := by
    rcases Array.mem_push.mp mem with mem | rfl
    · exact resolved.jumps name mem
    · exact known.elim
  single := resolved.single
  inside entry mem := by
    have inside := resolved.inside entry mem
    simp only [Scan.push, Array.size_push]
    omega

theorem Resolved.endJump (resolved : scan.Resolved registry) (close : Char) (name : String) :
    (scan.endJump close offset name).Resolved registry where
  operators symbol mem := by
    rcases Array.mem_push.mp mem with mem | same
    · exact resolved.operators symbol mem
    · cases same
  jumps other mem := by
    simp only [Scan.endJump, Array.mem_push]
    rcases Array.mem_push.mp mem with mem | same
    · rcases resolved.jumps other mem with ⟨offset, recorded⟩
      exact ⟨offset, Or.inl recorded⟩
    · cases same
      exact ⟨offset, Or.inr rfl⟩
  single := resolved.single
  inside entry mem := by
    have inside := resolved.inside entry mem
    simp only [Scan.endJump, Scan.push, Array.size_push]
    omega

theorem Resolved.endMarker {name : String} (resolved : scan.Resolved registry)
    (reads : scan.endMarker offset name = .ok next) : next.Resolved registry := by
  simp only [Scan.endMarker] at reads
  split at reads
  · cases reads
  · rename_i found
    have new : scan.markers.find? name = none := by simpa using found
    have isNew := Markers.find?_eq_none_iff.mp new
    cases reads
    rw [Markers.insert_eq_of_notMem _ isNew]
    refine ⟨resolved.operators, resolved.jumps, ?_, ?_⟩
    · simp only [names, List.map_append, List.map_cons, List.map_nil]
      refine List.nodup_append.mpr ⟨resolved.single, by simp, ?_⟩
      intro earlier mem last isName same
      rw [same, List.mem_singleton.mp isName] at mem
      exact isNew mem
    · intro entry mem
      rcases List.mem_append.mp mem with mem | mem
      · exact resolved.inside entry mem
      · simp [List.mem_singleton.mp mem]

theorem keptBySteps_resolved : KeptBySteps registry (Resolved registry) where
  withMode _ mode resolved := resolved.withMode mode
  text _ read resolved := resolved.push (.text read) trivial
  string _ read resolved := resolved.push (.value (.text read)) trivial
  number _ _ resolved := resolved.push (.value _) trivial
  operator _ symbol registered resolved := resolved.push (.operator symbol) registered
  jump _ close _ name resolved := resolved.endJump close name
  marker _ _ _ _ resolved reads := resolved.endMarker reads

end Scan

/-- Every name in the program stands for something in it. -/
structure Resolved (registry : Registry) (program : Program Token) : Prop where
  operators : ∀ symbol, .operator symbol ∈ program.tokens → registry.contains symbol = true
  jumps : ∀ name, .jump name ∈ program.tokens → ∃ index, program.markers.find? name = some index
  single : (program.markers.entries.map Prod.fst).Nodup
  inside : ∀ entry ∈ program.markers.entries, entry.2 ≤ program.tokens.size

theorem resolved_of_read {registry : Registry} {source : String} {program : Program Token}
    (reads : read registry source = .ok program) : Resolved registry program := by
  have fresh : Scan.Resolved registry {} := ⟨by simp, by simp, by simp [Scan.names], by simp⟩
  rcases Scan.keptBySteps_resolved.exists_of_read fresh reads with ⟨final, resolved, resolves⟩
  rcases Scan.toProgram_eq_ok resolves with ⟨rfl, found⟩
  refine ⟨resolved.operators, ?_, resolved.single, resolved.inside⟩
  intro name mem
  rcases resolved.jumps name mem with ⟨offset, recorded⟩
  exact Option.isSome_iff_exists.mp (found _ recorded)

/-! ### Respectful actions -/

/-- Only the counters of the two programs may differ. -/
def SameText (before after : Program Token) : Prop :=
  after.tokens = before.tokens ∧ after.markers = before.markers

/-- The action leaves the names in the program alone, and does not fail for want of one. -/
structure Respectful (action : StackAction Flow) : Prop where
  sameText : action.Relates fun before after => SameText before.program after.program
  failsWith : action.FailsWith (·.isUnresolved = false)

theorem sameText_of_steers {action : StackAction Flow} (steers : action.Steers) :
    action.Relates fun before after => SameText before.program after.program := by
  intro machine
  exact ⟨(steers machine).tokens_eq, (steers machine).markers_eq⟩

/-- An action that is made of the primitives of the language does not look up names. -/
theorem respectful_of_composed {action : StackAction Flow}
    (composed : Composed (Primitive True) Overlong Flow action) : Respectful action where
  sameText := sameText_of_steers (composed.steers fun _ _ => Primitive.steers)
  failsWith := composed.failsWith (fun _ _ => Primitive.failsWith) fun _ => Overlong.isUnresolved

theorem Registry.OfOperators.respectful {registry : Registry}
    (ofOperators : registry.OfOperators) : registry.All Respectful :=
  ofOperators.all fun operator => respectful_of_composed (composed_apply operator fun _ => trivial)

theorem sameText_execute {registry : Registry} (respectful : registry.All Respectful)
    (token : Token) :
    ((language registry).execute token).Relates fun before after =>
      SameText before.program after.program := by
  cases token with
  | text text =>
      exact (respectful_of_composed (composed_proceed (.primitive (.modifyConsole _)))).sameText
  | value value => exact (respectful_of_composed (composed_proceed (composed_push value))).sameText
  | operator symbol =>
      simp only [language, execute]
      cases found : registry.find? symbol with
      | some entry => exact (respectful symbol entry found).sameText
      | none => exact fun _ => ⟨rfl, rfl⟩
  | jump name =>
      have steers : (jump name).Steers :=
        (composed_jump name).steers fun _ _ => Primitive.steers
      exact sameText_of_steers steers

/-! ### What a run finds -/

theorem jump_eq_ok {name : String} {index : Nat} {machine : Machine Token Stack}
    (found : machine.program.markers.find? name = some index)
    (inside : index ≤ machine.program.tokens.size) :
    jump name machine =
      .ok .yield { machine with program := { machine.program with counter := index } } := by
  have goes : (Instruction.tryProgram (·.goTo index) : StackAction Unit) machine =
      .ok () { machine with program := { machine.program with counter := index } } := by
    apply Instruction.tryProgram_of_ok
    exact if_pos inside
  have got : (get : StackAction (Machine Token Stack)) machine = .ok machine machine := rfl
  simp only [jump, bind, EStateM.bind, got, found, goes]
  rfl

section

variable {registry : Registry} {program after : Program Token} {machine : Machine Token Stack}
  {token : Token} {fault : Fault}

theorem Resolved.of_sameText (resolved : Resolved registry program)
    (sameText : SameText program after) : Resolved registry after := by
  rcases sameText with ⟨tokens_eq, markers_eq⟩
  refine ⟨?_, ?_, ?_, ?_⟩
  · rw [tokens_eq]
    exact resolved.operators
  · rw [tokens_eq, markers_eq]
    exact resolved.jumps
  · rw [markers_eq]
    exact resolved.single
  · rw [tokens_eq, markers_eq]
    exact resolved.inside

/-- A jump of the program succeeds wherever its run is. -/
theorem Resolved.jump_perform (resolved : Resolved registry machine.program) {name : String}
    (mem : .jump name ∈ machine.program.tokens) :
    ((language registry).perform (.jump name) machine).1 = .ok .yield := by
  rcases resolved.jumps name mem with ⟨index, found⟩
  have listed := (Markers.find?_eq_some_iff resolved.single).mp found
  have jumps := jump_eq_ok found (resolved.inside _ listed)
  simp only [Language.perform, language, execute, jumps]

theorem Resolved.fault_of_perform (resolved : Resolved registry machine.program)
    (respectful : registry.All Respectful) (mem : token ∈ machine.program.tokens)
    (fails : ((language registry).perform token machine).1 = .error fault) :
    fault.isUnresolved = false := by
  obtain ⟨after, executes⟩ : ∃ after, execute registry token machine = .error fault after :=
    Language.exists_execute_eq_error fails
  cases token with
  | text text =>
      exact (respectful_of_composed (composed_proceed (.primitive (.modifyConsole _)))).failsWith
        _ _ _ executes
  | value value =>
      exact (respectful_of_composed (composed_proceed (composed_push value))).failsWith
        _ _ _ executes
  | operator symbol =>
      rcases Option.isSome_iff_exists.mp (resolved.operators symbol mem) with ⟨entry, found⟩
      simp only [execute, found] at executes
      exact (respectful symbol entry found).failsWith _ _ _ executes
  | jump name =>
      rw [resolved.jump_perform mem] at fails
      cases fails

end

/-- The names of a run stand for something, and it does not fail for want of one. -/
def resolvedConduct (registry : Registry) : Conduct Token Stack where
  mayRun run := Resolved registry run.program
  mayAsk _ := True
  mayFail
    | .source _ => True
    | .instruction _ _ fault => fault.isUnresolved = false

theorem keeps_resolvedConduct {registry : Registry} (respectful : registry.All Respectful)
    (options : Options) : (language registry).Keeps options (resolvedConduct registry) where
  start source program reads := (resolved_of_read reads).of_sameText ⟨rfl, rfl⟩
  unreadable _ _ _ := trivial
  perform machine token flow after mayRun current performs := by
    have behind : Resolved registry machine.behind.program := mayRun.of_sameText ⟨rfl, rfl⟩
    have sameText := Language.perform_relates (sameText_execute respectful token) machine.behind
    rw [performs] at sameText
    exact ⟨behind.of_sameText sameText, fun _ _ => trivial⟩
  performFails machine token fault after mayRun current fails := by
    have behind : Resolved registry machine.behind.program := mayRun.of_sameText ⟨rfl, rfl⟩
    refine behind.fault_of_perform respectful (Array.mem_of_getElem? current) ?_
    rw [fails]
  receive run request entry state mayRun _ _ _ := mayRun.of_sameText ⟨rfl, rfl⟩
  receiveFails run request entry fault text position _ _ _ refuses := by
    simp only [language, receive] at refuses
    split at refuses
    · cases refuses
      rfl
    · cases refuses
  finishFails run fault text position _ refuses := by cases refuses

open Engine

/-- Every jump that was executed has succeeded. -/
theorem jumps_of_chronicle {registry : Registry} {first engine : Engine Token Stack}
    {acts : List (Act Token)} (language_eq : first.language = language registry)
    (abides : Abides (resolvedConduct registry) first) (chronicle : first.Chronicle acts engine) :
    ∀ index name result, .executed index (.jump name) result ∈ acts → result = .ok .yield := by
  induction chronicle with
  | nil => simp
  | @snoc _ more before _ chronicle does ih =>
      intro index name result mem
      rcases List.mem_append.mp mem with mem | mem
      · exact ih index name result mem
      · cases does with
        | execute running _ current =>
            cases List.mem_singleton.mp mem
            have mayRun : Resolved registry _ :=
              (chronicle.abides abides).mayEnter.mayRun (by rw [running]; rfl)
            have sameLanguage : before.language = language registry :=
              (congrArg (·.1) chronicle.kin.settings_eq).trans language_eq
            simp only [attempt, sameLanguage]
            refine Resolved.jump_perform (mayRun.of_sameText ⟨rfl, rfl⟩) ?_
            exact Array.mem_of_getElem? current
        | start | conclude | answer | edit | countSlice | requestCancel | clearOutput =>
            simp at mem
        | cancel =>
            split at mem
            · simp at mem
            · simp at mem

/--
In every program that is read, operators are registered, jumps have markers, and the markers are
those that the source defines, each with one position in the program or at its end. So if all
actions of the registry are respectful, as the operators of the language are, then whatever calls
are made of an engine: if a run fails, it is not because a name stands for nothing, and every jump
that was executed has succeeded.
-/
theorem names_always_resolve (registry : Registry) :
    (∀ source program, read registry source = .ok program →
        (∀ symbol, .operator symbol ∈ program.tokens → registry.contains symbol = true) ∧
          (∀ name, .jump name ∈ program.tokens →
            ∃ index, program.markers.find? name = some index) ∧
          program.markers.entries.map Prod.fst = definitions source.toList ∧
          (definitions source.toList).Nodup ∧
          ∀ entry ∈ program.markers.entries, entry.2 ≤ program.tokens.size) ∧
      (registry.OfOperators → registry.All Respectful) ∧
      (registry.All Respectful →
        ∀ (options : Options) (random : RandomStream) (observer : Observer) (clock : Clock)
          (calls : List Call) (answers : List Answer) (engine : Engine Token Stack),
          let fresh := create (language registry) options random observer clock
          fresh.History calls answers engine →
          (∀ text position fault, engine.phase = .failed (.instruction text position fault) →
              (∀ symbol, fault ≠ .unknownOperator symbol) ∧
                ∀ name, fault ≠ .unknownMarker name) ∧
            (∃ acts, fresh.Chronicle acts engine) ∧
            ∀ acts, fresh.Chronicle acts engine →
              ∀ index name result, .executed index (.jump name) result ∈ acts →
                result = .ok .yield) := by
  refine ⟨?_, Registry.OfOperators.respectful, ?_⟩
  · intro source program reads
    have resolved := resolved_of_read reads
    have named := markers_of_read reads
    exact ⟨resolved.operators, resolved.jumps, named, named ▸ resolved.single, resolved.inside⟩
  · intro respectful options random observer clock calls answers engine fresh history
    have abides : Abides (resolvedConduct registry) fresh :=
      abides_create (keeps_resolvedConduct respectful options) random observer clock
    refine ⟨?_, ?_, fun acts => jumps_of_chronicle rfl abides⟩
    · intro text position fault failed
      have mayEnter := (history.abides abides).mayEnter
      rw [failed] at mayEnter
      have known : fault.isUnresolved = false := mayEnter
      constructor
      · rintro symbol rfl
        cases known
      · rintro name rfl
        cases known
    · rcases history.exists_chronicle with ⟨acts, chronicle, _⟩
      exact ⟨acts, chronicle⟩

/-- The action of an operator that the language does not have. -/
def double : StackAction Flow := do
  let value ← StackAction.pop
  StackAction.push value
  StackAction.push value
  StackAction.add
  return .proceed

/-- An operator that is no standard one doubles a number before a jump behind the last token. -/
theorem names_always_resolve_of_marker_at_end :
    let registry := Registry.standard.register 'd' { name := "double", apply := double }
    let source := "$21d,#end;+;#end;"
    let fresh := create (language registry) {} .zeros {} Clock.stopped
    let engine := (fresh.start source).1.slice.1
    registry.All Respectful ∧ engine.output = "42" ∧ engine.statistics.instructions = 4 ∧
      (∃ program, read registry source = .ok program ∧
        .operator 'd' ∈ program.tokens ∧ .jump "end" ∈ program.tokens ∧
        program.markers.entries.map Prod.fst = ["end"] ∧
        ∀ entry ∈ program.markers.entries, entry.2 ≤ 5) ∧
      ∃ acts, fresh.Chronicle acts engine ∧
        ∀ index name result, .executed index (.jump name) result ∈ acts → result = .ok .yield := by
  intro registry source fresh engine
  have respectful : registry.All Respectful := by
    apply Registry.All.register Registry.ofOperators_standard.respectful
    apply respectful_of_composed
    apply Composed.bind composed_pop
    intro value
    apply Composed.bind (composed_push value)
    intro _
    exact .bind (composed_push value) fun _ => composed_proceed composed_add
  have output : engine.output = "42" := by decide +kernel
  have counted : engine.statistics.instructions = 4 := by decide +kernel
  have parts : (read registry source).toOption.map
      (fun program => (program.tokens[1]?, program.tokens[3]?, program.tokens.size)) =
        some (some (.operator 'd'), some (.jump "end"), 5) := by
    decide +kernel
  have history : fresh.History [.start source, .slice] [] engine :=
    (History.nil.snoc (.start source)).snoc .slice
  rcases names_always_resolve registry with ⟨reading, _, runs⟩
  clear_value engine
  rcases (runs respectful {} .zeros {} Clock.stopped _ _ engine history).2 with
    ⟨⟨acts, chronicle⟩, jumps⟩
  refine ⟨respectful, output, counted, ?_, acts, chronicle, jumps acts chronicle⟩
  cases reads : read registry source with
  | error error =>
      rw [reads] at parts
      cases parts
  | ok program =>
      rw [reads] at parts
      simp only [Except.toOption, Option.map_some, Option.some.injEq, Prod.mk.injEq] at parts
      rcases parts with ⟨second, fourth, size⟩
      rcases reading source program reads with ⟨_, _, named, _, inside⟩
      rw [size] at inside
      exact ⟨program, rfl, Array.mem_of_getElem? second, Array.mem_of_getElem? fourth,
        named.trans (by decide +kernel), inside⟩

end ShortO

end Esoterica
