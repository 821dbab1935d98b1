import Esoterica.Proofs.Engine.Chronicle
import Esoterica.Proofs.Engine.Consistency

/-!
# Which token is to blame

The report of a failed run names a token by its position and its text. The counter is behind the
token when an answer is refused, may be anywhere when a token has failed, and stands behind the last
token when the program ends too early. In all three cases the token that is named is the one at
fault, and it is a token of the program.
-/

namespace Esoterica

namespace Act

variable {Token : Type}

/-- The last acts show why the token at an index is to blame, in a program of `size` tokens. -/
inductive Blames (size : Nat) : List (Act Token) → Nat → Token → Fault → Prop where
  | executed (earlier : List (Act Token)) (index : Nat) (token : Token) (fault : Fault) :
      Blames size (earlier ++ [.executed index token (.error fault)]) index token fault
  | answered (earlier : List (Act Token)) (index : Nat) (token : Token) (request : Request)
      (answer : Answer) (fault : Fault) :
      Blames size
        (earlier ++ [.executed index token (.ok (.ask request))] ++
          [.answered answer (.error fault)])
        index token fault
  | concluded (earlier : List (Act Token)) (index : Nat) (token : Token) (fault : Fault)
      (last : index + 1 = size) :
      Blames size (earlier ++ [.concluded (.error fault)]) index token fault

end Act

namespace Program

variable {Token : Type}

theorem inside_rewind (program : Program Token) : program.rewind.Inside :=
  Nat.zero_le _

theorem leads_step {program : Program Token} {token : Token}
    (current : program.current? = some token) : program.Leads program.step := by
  have leads := program.leads_next
  rwa [next_of_current current] at leads

theorem Leads.getElem?_of_current {program after : Program Token} {token : Token}
    (leads : program.rewind.Leads after) (current : after.current? = some token) :
    program.tokens[after.counter]? = some token := by
  have same : after.tokens = program.tokens := leads.tokens_eq
  rw [← same]
  exact current

theorem Leads.counter_eq_of_atEnd {program after : Program Token}
    (leads : program.rewind.Leads after) (atEnd : after.current? = none) :
    after.counter = program.tokens.size := by
  have same : after.tokens = program.tokens := leads.tokens_eq
  have inside : after.counter ≤ after.tokens.size := leads.inside program.inside_rewind
  have beyond : after.tokens.size ≤ after.counter := by
    simpa [current?] using atEnd
  rw [same] at inside beyond
  omega

end Program

namespace Language

variable {Token State : Type}

/-- What makes it possible to say which token is to blame. -/
structure Accountable (language : Language Token State) : Prop where
  steers : ∀ token, (language.execute token).Steers
  asksAtOnce : ∀ token, (language.execute token).AsksAtOnce
  nonempty : ∀ source program state fault, language.read source = .ok program →
    language.finish state = .error fault → program.tokens ≠ #[]

theorem perform_of_ask {language : Language Token State} {token : Token}
    {machine after : Machine Token State} {request : Request}
    (asksAtOnce : (language.execute token).AsksAtOnce)
    (asks : language.perform token machine = (.ok (.ask request), after)) : after = machine := by
  simp only [perform] at asks
  cases executed : language.execute token machine with
  | ok flow next =>
      simp only [executed, Prod.mk.injEq, Except.ok.injEq] at asks
      rcases asks with ⟨rfl, rfl⟩
      exact asksAtOnce machine request next executed
  | error fault next => simp [executed] at asks

end Language

namespace Phase

variable {Token State : Type}

theorem eq_failed_of_failure {phase : Phase Token State} {failure : Failure}
    (failed : phase.failure? = some failure) : phase = .failed failure := by
  cases phase with
  | failed other =>
      cases failed
      rfl
  | idle | running | suspended | completed | cancelled => cases failed

/-- The phase is that of a run of the program, and the acts account for it. -/
def Accounts (describe : Token → String) (program : Program Token) (acts : List (Act Token)) :
    Phase Token State → Prop
  | running run => program.rewind.Leads run.program
  | suspended run prompt =>
    program.rewind.Leads run.program ∧ ∃ earlier index token,
      acts = earlier ++ [.executed index token (.ok (.ask prompt.request))] ∧
        program.tokens[index]? = some token ∧ run.program.counter = index + 1
  | failed failure => ∃ index token fault,
    failure = .instruction (describe token) (index + 1) fault ∧
      program.tokens[index]? = some token ∧ Act.Blames program.tokens.size acts index token fault
  | idle | completed | cancelled => True

end Phase

namespace Engine

variable {Token State : Type} {language : Language Token State} {program : Program Token}
  {acts more : List (Act Token)} {engine after : Engine Token State} {run : Run Token State}
  {token : Token}

structure Accounts (language : Language Token State) (program : Program Token)
    (acts : List (Act Token)) (engine : Engine Token State) : Prop where
  language_eq : engine.language = language
  accounts : engine.phase.Accounts language.describe program acts

theorem Accounts.of_running (accounts : Accounts language program acts engine)
    (running : engine.phase = .running run) : program.rewind.Leads run.program := by
  have fits := accounts.accounts
  rwa [running] at fits

theorem Accounts.snoc (accounts : Accounts language program acts engine) {act : Act Token}
    (sameLanguage : after.language = engine.language)
    (phase : after.phase.Accounts language.describe program (acts ++ [act])) :
    Accounts language program (acts ++ [act]) after where
  language_eq := sameLanguage.trans accounts.language_eq
  accounts := phase

theorem Accounts.quiet (accounts : Accounts language program acts engine)
    (sameLanguage : after.language = engine.language)
    (phase : after.phase.Accounts language.describe program acts) :
    Accounts language program (acts ++ []) after := by
  rw [List.append_nil]
  exact ⟨sameLanguage.trans accounts.language_eq, phase⟩

theorem Accounts.attempt (accounts : Accounts language program acts engine)
    (steers : ∀ token, (language.execute token).Steers) (running : engine.phase = .running run)
    (current : run.program.current? = some token) :
    program.rewind.Leads (engine.attempt run token).2.program := by
  have fetched : program.rewind.Leads run.program.step :=
    (accounts.of_running running).trans (Program.leads_step current)
  have same := accounts.language_eq
  subst same
  exact fetched.trans
    (Language.perform_program (steers token) (engine.machineAt run.program.step run.state))

theorem Accounts.execute (accounts : Accounts language program acts engine)
    (accountable : language.Accountable) (running : engine.phase = .running run)
    (current : run.program.current? = some token) :
    Accounts language program
      (acts ++ [.executed run.program.counter token (engine.attempt run token).1])
      engine.tick.1 := by
  have leads := accounts.attempt accountable.steers running current
  have isToken := (accounts.of_running running).getElem?_of_current current
  have ticked := tick_ticked running
  generalize engine.tick = result at ticked ⊢
  cases ticked with
  | finished atEnd | unfinished atEnd => simp [atEnd] at current
  | proceeded fetched attempts | yielded fetched attempts =>
      cases fetched.symm.trans current
      simp only [attempts] at leads ⊢
      refine accounts.snoc (by simp) ?_
      simpa [Phase.Accounts, runOf] using leads
  | halted fetched attempts =>
      cases fetched.symm.trans current
      exact accounts.snoc (by simp) (by simp [Phase.Accounts])
  | asked fetched attempts =>
      rename_i machine request
      cases fetched.symm.trans current
      simp only [attempts] at leads ⊢
      refine accounts.snoc (by simp) ?_
      -- The token has asked at once, so the counter is where the token was fetched.
      have untouched : machine = engine.machineAt run.program.step run.state :=
        Language.perform_of_ask (by
          rw [accounts.language_eq]
          exact accountable.asksAtOnce token) attempts
      simp only [enter_phase]
      exact ⟨leads, acts, run.program.counter, token, rfl, isToken, by rw [untouched]; rfl⟩
  | failed fetched attempts =>
      rename_i machine fault
      cases fetched.symm.trans current
      simp only [attempts]
      refine accounts.snoc (by simp) ?_
      simp only [fail_phase]
      refine ⟨run.program.counter, token, fault, ?_, isToken, .executed acts _ token fault⟩
      simp only [failedAt, accounts.language_eq]

/-- Where a program may not end, its last token is to blame. -/
theorem Accounts.conclude (accounts : Accounts language program acts engine)
    (nonempty : ∀ state fault, language.finish state = .error fault → program.tokens ≠ #[])
    (running : engine.phase = .running run) (atEnd : run.program.current? = none) :
    Accounts language program (acts ++ [.concluded (engine.language.finish run.state)])
      engine.tick.1 := by
  have leads := accounts.of_running running
  have ticked := tick_ticked running
  generalize engine.tick = result at ticked ⊢
  cases ticked with
  | proceeded current | yielded current | halted current | asked current | failed current =>
      simp [atEnd] at current
  | finished atEndToo accepts =>
      exact accounts.snoc (by simp) (by simp [Phase.Accounts])
  | unfinished atEndToo refuses =>
      rename_i fault
      rw [refuses]
      have counter := leads.counter_eq_of_atEnd atEnd
      have positive : 0 < program.tokens.size := by
        rw [accounts.language_eq] at refuses
        exact Array.size_pos_iff.mpr (nonempty _ _ refuses)
      refine accounts.snoc (by simp) ?_
      simp only [fail_phase]
      have isToken : program.tokens[program.tokens.size - 1]? =
          some program.tokens[program.tokens.size - 1] :=
        Array.getElem?_eq_getElem (by omega)
      refine ⟨program.tokens.size - 1, _, fault, ?_, isToken, .concluded acts _ _ fault (by omega)⟩
      have same : run.program.tokens = program.tokens := leads.tokens_eq
      have last : max 1 program.tokens.size = program.tokens.size - 1 + 1 := by omega
      simp only [unfinished, same, counter, last, Array.back?, isToken, accounts.language_eq]
      rfl

/-- Where an answer is refused, the token that asked for it is to blame. -/
theorem Accounts.answer (accounts : Accounts language program acts engine) {prompt : Prompt}
    {key : Key} {answer : Answer} (suspended : engine.phase = .suspended run prompt)
    (commits : engine.committed? key = some answer) :
    Accounts language program
      (acts ++
        [.answered answer ((engine.language.receive answer.entry run.state).map fun _ => ())])
      (engine.respond key).1 := by
  have fits := accounts.accounts
  rw [suspended] at fits
  rcases fits with ⟨leads, earlier, index, token, asked, isToken, counter⟩
  rcases respond_of_commits suspended commits with
    ⟨state, receives, responds⟩ | ⟨fault, refuses, responds⟩
  · rw [responds]
    refine accounts.snoc (by simp) ?_
    simpa [Phase.Accounts] using leads
  · rw [responds, refuses]
    refine accounts.snoc (by simp) ?_
    simp only [fail_phase]
    refine ⟨index, token, fault, ?_, isToken, ?_⟩
    · have same : run.program.tokens = program.tokens := leads.tokens_eq
      simp [refusedAt, Program.previous?, counter, same, isToken, accounts.language_eq]
    · rw [asked]
      exact .answered earlier index token prompt.request answer fault

/-- Everything that an engine does but to start another program keeps the account. -/
theorem Accounts.does (accounts : Accounts language program acts engine)
    (accountable : language.Accountable)
    (nonempty : ∀ state fault, language.finish state = .error fault → program.tokens ≠ #[])
    (does : engine.Does more after) (noStart : Act.NoStart more) :
    Accounts language program (acts ++ more) after := by
  have fits := accounts.accounts
  cases does with
  | start source => exact absurd (List.mem_singleton.mpr rfl) (noStart source)
  | execute running _ current => exact accounts.execute accountable running current
  | conclude running _ atEnd => exact accounts.conclude nonempty running atEnd
  | answer suspended commits => exact accounts.answer suspended commits
  | edit suspended _ uncommitted =>
      refine accounts.quiet (by simp) ?_
      rw [suspended] at fits
      simpa [Phase.Accounts, Prompt.press_request] using fits
  | cancel =>
      cases active : engine.status.isActive with
      | true =>
          refine accounts.snoc (by simp) ?_
          simp [cancel_phase, active, Phase.Accounts]
      | false =>
          refine accounts.quiet (by simp) ?_
          simpa [cancel_phase, active] using fits
  | countSlice | requestCancel => exact accounts.quiet rfl fits
  | clearOutput =>
      refine accounts.quiet (by simp) ?_
      simpa using fits

/-- A run that began with the program is accounted for as long as no other one is started. -/
theorem Accounts.chronicle {began : Engine Token State}
    (accounts : Accounts language program [] began) (accountable : language.Accountable)
    (nonempty : ∀ state fault, language.finish state = .error fault → program.tokens ≠ #[])
    (chronicle : began.Chronicle acts engine) (noStart : Act.NoStart acts) :
    Accounts language program acts engine := by
  induction chronicle with
  | nil => exact accounts
  | snoc chronicle does ih =>
      rcases Act.noStart_append.mp noStart with ⟨noStart, noStartLater⟩
      exact (ih noStart).does accountable nonempty does noStartLater

theorem accounts_start {before : Engine Token State} {source : String}
    (sameLanguage : before.language = language) (reads : language.read source = .ok program) :
    Accounts language program [] (before.start source).1 := by
  have readsToo : before.language.read source = .ok program := by rw [sameLanguage, reads]
  rw [start_eq, readsToo]
  constructor
  · simpa using sameLanguage
  · simpa [Phase.Accounts, runFrom] using Program.Leads.refl program.rewind

end Engine

/-! ### The dialects -/

/-- Words without a result leave none to be found. -/
theorem Chess.readWords_hasResult {hasResult : Bool} {words : List Word} {found : Bool}
    (reads : Chess.readWords hasResult words = .ok ([], found)) : found = hasResult := by
  cases words with
  | nil =>
      cases reads
      rfl
  | cons word rest =>
      simp only [Chess.readWords] at reads
      split at reads
      · cases reads
      · split at reads
        · cases reads
        · simp only [Bind.bind, Except.bind] at reads
          split at reads
          · cases reads
          · cases reads

theorem Chess.tokens_ne_empty_of_read {source : String} {program : Program Chess.Token}
    (reads : Chess.read source = .ok program) : program.tokens ≠ #[] := by
  simp only [Chess.read, Bind.bind, Except.bind] at reads
  split at reads
  · cases reads
  · rename_i words read
    rcases words with ⟨tokens, hasResult⟩
    cases hasResult with
    | false => cases reads
    | true =>
        cases reads
        intro isEmpty
        have noTokens : tokens = [] := by simpa using isEmpty
        subst noTokens
        cases Chess.readWords_hasResult read

theorem Dialect.accountable (dialect : Dialect) : dialect.language.Accountable where
  steers := dialect.steers_execute
  asksAtOnce := dialect.asksAtOnce_execute
  nonempty := by
    intro source program state fault reads refuses
    cases dialect with
    | brainfuck => cases refuses
    | chess => exact Chess.tokens_ne_empty_of_read reads
    | shortO registry => cases refuses

namespace Engine

theorem accounts_of_start (dialect : Dialect) {before engine : Engine dialect.Token dialect.State}
    {source : String} {program : Program dialect.Token} {acts : List (Act dialect.Token)}
    (language_eq : before.language = dialect.language)
    (reads : dialect.language.read source = .ok program)
    (chronicle : (before.start source).1.Chronicle acts engine) (noStart : Act.NoStart acts) :
    Accounts dialect.language program acts engine :=
  (accounts_start language_eq reads).chronicle dialect.accountable
    (fun state fault => dialect.accountable.nonempty source program state fault reads)
    chronicle noStart

/--
When a run has failed, whatever calls were made since its program was started: the failure names a
token of the program by its text and its position, counted from one. It is the token that failed
when it was executed, the token that asked for an answer that was refused, or the last token, if the
program may not end behind it. So say all chronicles of the run, and there is one.
-/
theorem failure_blames_token (dialect : Dialect)
    {before engine : Engine dialect.Token dialect.State} {source : String}
    {program : Program dialect.Token} {calls : List Call} {answers : List Answer}
    {failure : Failure} (language_eq : before.language = dialect.language)
    (reads : dialect.language.read source = .ok program)
    (history : (before.start source).1.History calls answers engine)
    (noStart : ∀ other, .start other ∉ calls) (failed : engine.phase.failure? = some failure) :
    ∃ position token fault,
      failure = .instruction (dialect.language.describe token) position fault ∧
        1 ≤ position ∧ position ≤ program.tokens.size ∧
        program.tokens[position - 1]? = some token ∧
        (∃ acts, (before.start source).1.Chronicle acts engine ∧ Act.NoStart acts) ∧
        ∀ acts, (before.start source).1.Chronicle acts engine → Act.NoStart acts →
          Act.Blames program.tokens.size acts (position - 1) token fault := by
  have phase := Phase.eq_failed_of_failure failed
  have accounted {acts : List (Act dialect.Token)}
      (chronicle : (before.start source).1.Chronicle acts engine) (noStart : Act.NoStart acts) :
      ∃ index token fault,
        failure = .instruction (dialect.language.describe token) (index + 1) fault ∧
          program.tokens[index]? = some token ∧
          Act.Blames program.tokens.size acts index token fault := by
    have fits := (accounts_of_start dialect language_eq reads chronicle noStart).accounts
    rwa [phase] at fits
  rcases history.carries noStart with ⟨acts, chronicle, carries⟩
  rcases accounted chronicle carries with ⟨index, token, fault, named, isToken, blames⟩
  have inside : index < program.tokens.size := (Array.getElem?_eq_some_iff.mp isToken).1
  refine ⟨index + 1, token, fault, named, by omega, by omega, isToken,
    ⟨acts, chronicle, carries⟩, ?_⟩
  intro others chronicleToo carriesToo
  rcases accounted chronicleToo carriesToo with ⟨_, other, _, namedToo, isTokenToo, blamesToo⟩
  -- The failure is the same for all chronicles, and so are its position, its fault and its token.
  rw [named] at namedToo
  simp only [Failure.instruction.injEq, Nat.add_right_cancel_iff] at namedToo
  rcases namedToo with ⟨_, rfl, rfl⟩
  cases isTokenToo.symm.trans isToken
  exact blamesToo

/-- A king that has taken its parameter and then jumps too far is named itself. -/
theorem failure_blames_token_of_king :
    let fresh := create Dialect.chess.language {} .zeros {} Clock.stopped
    let began := (fresh.start "e4 Kxa8 h8 #").1
    let engine := began.slice.1
    engine.phase.failure? = some (.instruction "Kxa8" 2 (.jumpOutOfRange 66)) ∧
      ∃ acts token, began.Chronicle acts engine ∧
        Dialect.chess.language.describe token = "Kxa8" ∧
        Act.Blames 4 acts 1 token (.jumpOutOfRange 66) := by
  intro fresh began engine
  have failed : engine.phase.failure? = some (.instruction "Kxa8" 2 (.jumpOutOfRange 66)) := by
    decide +kernel
  have size : (Dialect.chess.language.read "e4 Kxa8 h8 #").toOption.map (·.tokens.size) =
      some 4 := by
    decide +kernel
  have history : began.History [.slice] [] engine := History.nil.snoc .slice
  cases reads : Dialect.chess.language.read "e4 Kxa8 h8 #" with
  | error error =>
      rw [reads] at size
      cases size
  | ok program =>
      rw [reads] at size
      have size : program.tokens.size = 4 := Option.some.inj size
      clear_value engine
      rcases failure_blames_token .chess rfl reads history (by simp) failed with
        ⟨position, token, fault, named, _, _, _, ⟨acts, chronicle, noStart⟩, blames⟩
      simp only [Failure.instruction.injEq] at named
      rcases named with ⟨text, rfl, rfl⟩
      have blamed := blames acts chronicle noStart
      rw [size] at blamed
      exact ⟨failed, acts, token, chronicle, text.symm, blamed⟩

end Engine

end Esoterica
