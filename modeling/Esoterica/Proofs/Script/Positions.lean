import Esoterica.Proofs.Script.Layout
import Esoterica.Proofs.Script.Meaning
import Esoterica.Proofs.Script.RoundTrip

/-!
# Tokens point at their source

The tokens of a script take over the offsets of their lexemes, and a value that stands for a
constant takes that of the constant's name. So their offsets increase from token to token and from
command to command, and the source shows each token where its offset says.

Variables are numbered as they come: a number that has not been seen is the next one, and the table
of the script gives each number the name that is written there.
-/

namespace Esoterica

namespace Script

/-- A text shows the token at its start; a value is also shown by a constant. -/
def Token.ShownBy (table : Array String) (text : List Char) : Token → Prop
  | plain (.value literal) => text.head? = some literal.sign ∨ text.head? = some '#'
  | plain item => item.ShownBy text
  | .variable slot => ∃ name, table[slot]? = some name ∧ NamedBy ['$'] name text

/-! ### Offsets -/

section offsets

variable {environment after : Environment} {line rest output : List (Located Lexeme)}
  {lines outputs : List (List (Located Lexeme))} {names : List String} {literal : Literal}
  {offset : Nat}

/-- A chain of definitions starts with a constant, and what follows it stands behind that. -/
theorem Chain.exists_eq_cons (chain : Chain environment line offset names literal rest) :
    ∃ name between, line = ⟨offset, .constant name⟩ :: between ∧ rest <:+ between := by
  cases chain with
  | mk chain starts =>
      cases chain with
      | nil => cases starts
      | cons others =>
          cases starts
          refine ⟨_, _, rfl, ?_⟩
          exact (List.suffix_cons _ _).trans
            ((List.suffix_append _ _).trans (List.suffix_cons _ _))

/-- Offsets are taken over in order. -/
theorem Reads.offsets_sublist (reads : Reads environment line output after) :
    (output.map Located.offset).Sublist (line.map Located.offset) := by
  induction reads with
  | nil => exact List.Sublist.refl _
  | kept _ _ ih | used _ _ _ ih => exact ih.cons_cons _
  | defined chain _ ih =>
      rcases chain.exists_eq_cons with ⟨name, between, rfl, behind⟩
      exact (ih.trans (behind.sublist.map _)).cons_cons _

/-- The lexeme is one of these, or a value in the place of a constant among them. -/
def DrawnFrom (lexemes : List (Located Lexeme)) (located : Located Lexeme) : Prop :=
  located ∈ lexemes ∨ ∃ name literal, located.content = .plain (.value literal) ∧
    ⟨located.offset, .constant name⟩ ∈ lexemes

theorem DrawnFrom.mono {located : Located Lexeme} (drawn : DrawnFrom rest located)
    (subset : rest ⊆ line) : DrawnFrom line located := by
  rcases drawn with mem | ⟨name, literal, isValue, mem⟩
  · exact .inl (subset mem)
  · exact .inr ⟨name, literal, isValue, subset mem⟩

theorem Reads.drawnFrom (reads : Reads environment line output after) :
    ∀ located ∈ output, DrawnFrom line located := by
  induction reads with
  | nil => simp
  | kept _ _ ih =>
      refine List.forall_mem_cons.mpr ⟨.inl List.mem_cons_self, ?_⟩
      exact fun located mem => (ih located mem).mono (List.subset_cons_self _ _)
  | used _ _ _ ih =>
      refine List.forall_mem_cons.mpr ⟨.inr ⟨_, _, rfl, List.mem_cons_self⟩, ?_⟩
      exact fun located mem => (ih located mem).mono (List.subset_cons_self _ _)
  | defined chain _ ih =>
      rcases chain.exists_eq_cons with ⟨name, between, rfl, behind⟩
      refine List.forall_mem_cons.mpr ⟨.inr ⟨name, _, rfl, List.mem_cons_self⟩, ?_⟩
      exact fun located mem => (ih located mem).mono (List.subset_cons_of_subset _ behind.subset)

theorem ReadsLines.offsets_sublist (reads : ReadsLines environment lines outputs after) :
    (outputs.flatten.map Located.offset).Sublist (lines.flatten.map Located.offset) := by
  induction reads with
  | nil => exact List.Sublist.refl _
  | cons first _ ih =>
      simp only [List.flatten_cons, List.map_append]
      exact first.offsets_sublist.append ih

theorem ReadsLines.drawnFrom (reads : ReadsLines environment lines outputs after) :
    ∀ located ∈ outputs.flatten, DrawnFrom lines.flatten located := by
  induction reads with
  | nil => simp
  | cons first _ ih =>
      simp only [List.flatten_cons]
      refine List.forall_mem_append.mpr ⟨?_, ?_⟩
      · exact fun located mem =>
          (first.drawnFrom located mem).mono (List.subset_append_left _ _)
      · exact fun located mem => (ih located mem).mono (List.subset_append_right _ _)

variable {table : Array String} {tokens : List (Located Token)} {token : Located Token}
  {located : Located Lexeme}

/-- What a token is written as has its offset. -/
theorem written_offset (writes : written table token = some located) :
    located.offset = token.offset ∧ token.content.lexeme? table = some located.content := by
  rcases Option.map_eq_some_iff.mp writes with ⟨lexeme, same, rfl⟩
  exact ⟨rfl, same⟩

theorem Spells.exists_mem (spells : Spells table tokens output) (mem : token ∈ tokens) :
    ∃ located ∈ output, written table token = some located := by
  have inWritten : written table token ∈ output.map some := by
    rw [← spells]
    exact List.mem_map_of_mem mem
  rcases List.mem_map.mp inWritten with ⟨located, mem, same⟩
  exact ⟨located, mem, same.symm⟩

theorem Spells.offsets_eq (spells : Spells table tokens output) :
    tokens.map Located.offset = output.map Located.offset := by
  induction tokens generalizing output with
  | nil =>
      cases List.map_eq_nil_iff.mp spells.symm
      rfl
  | cons token rest ih =>
      obtain ⟨located, others, rfl, writes, spellsRest⟩ := List.map_eq_cons_iff.mp spells.symm
      rw [List.map_cons, List.map_cons, ih spellsRest.symm, (written_offset writes.symm).1]

theorem WrittenAs.spells {script : Script} (writtenAs : script.WrittenAs outputs) :
    Spells script.variableNames script.commands.flatten outputs.flatten := by
  unfold Spells
  rw [List.map_flatten, writtenAs, List.map_flatten]

/-- A token is shown where what it is written as was drawn from. -/
theorem shownBy_of_drawnFrom {source : List Char} {lexemes : List (Located Lexeme)}
    (stands : ∀ located ∈ lexemes, located.StandsIn source Lexeme.ShownBy)
    (drawn : DrawnFrom lexemes located) (writes : written table token = some located) :
    token.StandsIn source (Token.ShownBy table) := by
  rcases located with ⟨offset, lexeme⟩
  rcases token with ⟨tokenOffset, token⟩
  rcases written_offset writes with ⟨rfl, sameContent⟩
  rcases drawn with mem | ⟨name, literal, rfl, mem⟩
  · rcases stands _ mem with ⟨positive, inside, shown⟩
    refine ⟨positive, inside, ?_⟩
    rcases token with item | slot
    · cases sameContent
      cases item with
      | value literal => exact .inl shown
      | key | info | operator | openBracket | closeBracket | arrow => exact shown
    · rcases Option.map_eq_some_iff.mp sameContent with ⟨name, entry, rfl⟩
      exact ⟨name, entry, shown⟩
  · rcases stands _ mem with ⟨positive, inside, _, startsWithSign, _⟩
    refine ⟨positive, inside, ?_⟩
    rcases token with item | slot
    · cases sameContent
      have sign : (source.drop (offset - 1)).head? = some '#' := by
        rw [startsWithSign]
        rfl
      exact .inr sign
    · rcases Option.map_eq_some_iff.mp sameContent with ⟨name, _, isValue⟩
      cases isValue

end offsets

/-! ### Numbers of variables -/

namespace Numbered

variable {seen after slot : Nat} {tokens earlier later : List Token}

/-- Every number that is in use behind tokens was seen before, or appears among them. -/
theorem seen_or_mem (numbered : Numbered seen tokens after) :
    ∀ slot < after, slot < seen ∨ .variable slot ∈ tokens := by
  induction numbered with
  | nil => exact fun slot below => .inl below
  | plain _ ih | known _ _ ih =>
      exact fun slot below => (ih slot below).imp_right (List.mem_cons_of_mem _)
  | @first seen _ _ _ ih =>
      intro slot below
      rcases ih slot below with known | mem
      · rcases Nat.lt_succ_iff_lt_or_eq.mp known with known | rfl
        · exact .inl known
        · exact .inr List.mem_cons_self
      · exact .inr (List.mem_cons_of_mem _ mem)

/-- Where a variable stands, all lower numbers appear in front of it. -/
theorem lower_mem (numbered : Numbered 0 (earlier ++ .variable slot :: later) after) :
    slot < after ∧ ∀ lower < slot, .variable lower ∈ earlier := by
  rcases numbered.exists_of_append with ⟨between, inFront, here⟩
  have bounded : slot ≤ between ∧ slot < after := by
    cases here with
    | known seenBefore others =>
        exact ⟨Nat.le_of_lt seenBefore, Nat.lt_of_lt_of_le seenBefore others.le⟩
    | first others => exact ⟨Nat.le_refl _, others.le⟩
  refine ⟨bounded.2, fun lower below => ?_⟩
  have seen := inFront.seen_or_mem lower (Nat.lt_of_lt_of_le below bounded.1)
  exact seen.resolve_left (Nat.not_lt_zero lower)

end Numbered

/-! ### Scripts -/

/--
The offsets of the tokens of an accepted source increase from token to token and from command to
command. Each is the place of a character, and from there on the source shows the token: the whole
name of a key, the sign and the whole name of a variable or an info name, the first character of
anything else, where a value may be shown by a constant. No name is twice in the table of variables.
The number of a variable is in the table, under the name that is written there, and a number appears
only behind all lower ones.
-/
theorem tokens_point_at_source {source : String} {script : Script}
    (reads : read source = .ok script) :
    let tokens := script.commands.flatten
    (tokens.map Located.offset).Pairwise (· < ·) ∧
      (∀ token ∈ tokens, token.StandsIn source.toList (Token.ShownBy script.variableNames)) ∧
      script.variableNames.toList.Nodup ∧
      ∀ earlier later offset slot, tokens = earlier ++ ⟨offset, .variable slot⟩ :: later →
        slot < script.variableNames.size ∧
          ∀ lower < slot, ∃ place, ⟨place, .variable lower⟩ ∈ earlier := by
  intro tokens
  rcases exists_writtenAs reads with ⟨lines, outputs, after, scanned, readsLines, writtenAs⟩
  rcases readLines_lays scanned with ⟨stands, ordered⟩
  have wellFormed := wellFormed_of_read reads
  have spells := writtenAs.spells
  have allLexemes : (lines.filter (!·.isEmpty)).flatten = lines.flatten :=
    List.flatten_filter_not_isEmpty
  refine ⟨?_, ?_, wellFormed.single, ?_⟩
  · rw [spells.offsets_eq]
    rw [← allLexemes] at ordered
    exact List.Pairwise.sublist readsLines.offsets_sublist ordered
  · intro token mem
    rcases spells.exists_mem mem with ⟨located, inOutput, writes⟩
    have drawn := readsLines.drawnFrom located inOutput
    rw [allLexemes] at drawn
    exact shownBy_of_drawnFrom stands drawn writes
  · intro earlier later offset slot same
    have contents : script.contents.flatten =
        earlier.map Located.content ++ .variable slot :: later.map Located.content := by
      have flat : script.contents.flatten = tokens.map Located.content := List.map_flatten.symm
      rw [flat, same, List.map_append, List.map_cons]
    have numbered := wellFormed.numbered
    rw [contents] at numbered
    rcases numbered.lower_mem with ⟨inside, appears⟩
    refine ⟨inside, fun lower below => ?_⟩
    rcases List.mem_map.mp (appears lower below) with ⟨⟨place, _⟩, inEarlier, rfl⟩
    exact ⟨place, inEarlier⟩

/-- Constants, their definitions, gaps and comments between tokens of every kind. -/
theorem tokens_point_at_source_of_every_kind :
    let source := "#a : ~1F $x -> key @i // $z\n\n$y [\"s\" + $x] #a"
    ∃ script, read source = .ok script ∧
      script.commands.flatten.map Located.offset = [1, 10, 13, 16, 20, 30, 33, 34, 38, 40, 42, 44] ∧
      script.variableNames = #["x", "y"] ∧
      ∀ token ∈ script.commands.flatten,
        token.StandsIn source.toList (Token.ShownBy script.variableNames) := by
  intro source
  have parts : (read source).toOption.map (fun script : Script =>
      (script.commands.flatten.map Located.offset, script.variableNames)) =
        some ([1, 10, 13, 16, 20, 30, 33, 34, 38, 40, 42, 44], #["x", "y"]) := by
    decide +kernel
  rcases reads : read source with error | script
  · rw [reads] at parts
    cases parts
  · rw [reads] at parts
    obtain ⟨offsets, table⟩ := Prod.mk.inj (Option.some.inj parts)
    exact ⟨script, rfl, offsets, table, (tokens_point_at_source reads).2.1⟩

end Script

end Esoterica
