import Esoterica.Proofs.Brainfuck.Loops
import Esoterica.Proofs.Engine.Conduct

/-!
# Nothing can fail

Every text is a program, whatever its brackets and its comments are, and every command can be
executed on every tape. There is one instruction that could fail: a jump to a place that is not in
the program. But a loop end goes back only to a start that the scan left open, and that one stands
in the program. So no session of calls, however it goes on, comes to a failure.

The answer to a command that reads is a character, because nothing else is ever asked for.
-/

namespace Esoterica

namespace Brainfuck

/-- The loops are those of the scan, characters are all that is asked for, and nothing fails. -/
def conduct : Conduct Token TapeState where
  mayRun run := run.state.loops = openLoops run.program.tokens run.program.counter
  mayAsk request := request = .char
  mayFail _ := False

theorem scanned_of_mayRun {machine : Machine Token TapeState}
    (mayRun : conduct.mayRun (Engine.runOf machine)) : Scanned machine.program.tokens machine :=
  ⟨rfl, mayRun⟩

theorem Scanned.mayRun {tokens : Array Token} {machine : Machine Token TapeState}
    (scanned : Scanned tokens machine) : conduct.mayRun (Engine.runOf machine) := by
  change machine.state.loops = openLoops machine.program.tokens machine.program.counter
  rw [scanned.tokens_eq, scanned.loops_eq]

/-- Every command can be executed, and only the one that reads asks for anything. -/
theorem Scanned.perform_ok {tokens : Array Token} {machine : Machine Token TapeState}
    {token : Token} (scanned : Scanned tokens machine)
    (here : tokens[machine.program.counter]? = some token) :
    ∃ flow after, language.perform token machine.behind = (.ok flow, after) ∧
      ∀ request, flow = .ask request → request = .char := by
  cases token with
  | right | left | increment | decrement | output | loopStart =>
      exact ⟨.proceed, _, rfl, by simp⟩
  | input => exact ⟨.ask .char, _, rfl, by simp⟩
  | loopEnd =>
      by_cases matched : ∃ start, Matches tokens start machine.program.counter
      · rcases matched with ⟨start, isMatch⟩
        exact ⟨.yield, _, scanned.perform_of_matches isMatch, by simp⟩
      · exact ⟨.yield, _, scanned.perform_of_unmatched here matched, by simp⟩

theorem keeps_conduct (options : Options) : language.Keeps options conduct where
  start source program reads := rfl
  unreadable source error unread := by cases unread
  perform machine token flow after mayRun current performs := by
    have scanned := scanned_of_mayRun mayRun
    have afterwards := (scanned.perform current).mayRun
    rcases scanned.perform_ok current with ⟨performed, machineAfter, performsToo, asks⟩
    rw [performs] at performsToo afterwards
    cases performsToo
    exact ⟨afterwards, asks⟩
  performFails machine token fault after mayRun current fails := by
    rcases (scanned_of_mayRun mayRun).perform_ok current with ⟨_, _, performs, _⟩
    rw [fails] at performs
    cases performs
  receive run request entry state mayRun mayAsk admits receives :=
    (receive_loops receives).trans mayRun
  receiveFails run request entry fault text position mayRun mayAsk admits refuses := by
    cases mayAsk
    cases admits
    cases refuses
  finishFails run fault text position mayRun refuses := by cases refuses

/--
After any calls of a fresh engine, with any sources, keys and options: the status is not failed,
there is no error, no event told of a failure, and the engine neither waits for anything but a
character nor ever did.
-/
theorem session_never_fails {options : Options} {random : RandomStream} {observer : Observer}
    {clock : Clock} {calls : List Call} {answers : List Answer} {engine : Engine Token TapeState}
    (history :
      (Engine.create language options random observer clock).History calls answers engine) :
    engine.status ≠ .failed ∧ engine.error? = none ∧
      (∀ message, .failed message ∉ engine.events) ∧ .status .failed ∉ engine.events ∧
      (∀ request, engine.status = .suspended request → request = .char) ∧
      ∀ request, .status (.suspended request) ∈ engine.events → request = .char := by
  have abides := history.abides (Engine.abides_create (keeps_conduct options) random observer clock)
  have mayShow : conduct.MayShow engine.status := abides.mayEnter.mayShow
  refine ⟨?_, ?_, ?_, ?_, ?_, ?_⟩
  · intro failed
    rw [failed] at mayShow
    exact mayShow.elim fun _ => id
  · have mayEnter := abides.mayEnter
    rw [Engine.error?]
    cases phase : engine.phase with
    | failed failure =>
        rw [phase] at mayEnter
        exact mayEnter.elim
    | idle | running | suspended | completed | cancelled => rfl
  · intro message mem
    exact (abides.mayTell _ mem).elim fun _ => And.left
  · intro mem
    exact (abides.mayTell _ mem).elim fun _ => id
  · intro request suspended
    rw [suspended] at mayShow
    exact mayShow
  · intro request mem
    exact abides.mayTell _ mem

/-- An end that matches no start, a comment of other alphabets, and a start that is never closed. -/
theorem session_never_fails_of_unmatched :
    let fresh := Engine.create language {} .zeros {} Clock.stopped
    let engine := ((fresh.start "]é⟦,[.,").1.slice.1.slice.1.press (.char 'ж')).1
    (∃ calls answers, fresh.History calls answers engine) ∧
      engine.status = .suspended .char ∧ engine.output = "6" ∧ engine.error? = none ∧
      ∀ message, .failed message ∉ engine.events := by
  intro fresh engine
  have status : engine.status = .suspended .char := by decide +kernel
  have output : engine.output = "6" := by decide +kernel
  obtain ⟨calls, answers, history⟩ : ∃ calls answers, fresh.History calls answers engine :=
    ⟨_, _, (((Engine.History.nil.snoc (.start _)).snoc .slice).snoc .slice).snoc (.press _)⟩
  clear_value engine
  have safe := session_never_fails history
  exact ⟨⟨_, _, history⟩, status, output, safe.2.1, safe.2.2.1⟩

end Brainfuck

end Esoterica
