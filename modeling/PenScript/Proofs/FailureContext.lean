import PenScript.Proofs.LineNumbers

/-!
# What a failure quotes

A script that cannot be read fails at one of its lines with code.  The failure
quotes this line as it is written, with its comment and its capitals.  Only a
block that is left open is reported in other words: its failure describes the
command that opens the block.
-/

namespace PenScript

namespace Line

/-- Two lines of a script with the same number are the same line. -/
theorem eq_of_number_eq {source : String} {line other : Line}
    (member : line ∈ ofSource source) (otherMember : other ∈ ofSource source)
    (same : line.number = other.number) :
    line = other := by
  have distinct : ((ofSource source).map Line.number).Nodup := by
    apply List.pairwise_map.mpr
    exact (pairwise_number_ofSource source).imp Nat.ne_of_lt
  exact List.inj_on_of_nodup_map distinct member otherMember same

/-- A line is quoted as its row is written, without the blanks around it. -/
theorem raw_of_mem_ofSource {source : String} {line : Line}
    (member : line ∈ ofSource source) :
    ∃ row, (rows source)[line.number - 1]? = some row ∧
      line.raw = String.ofList (Text.trim row) := by
  obtain ⟨⟨row, index⟩, inside, made⟩ := List.mem_filterMap.mp member
  have numbered := number_of_ofNumbered? made
  refine ⟨row, ?_, ?_⟩
  · rw [numbered]
    exact List.mem_zipIdx_iff_getElem?.mp inside
  · dsimp only [ofNumbered?] at made
    split at made
    · cases made
    · cases made
      rfl

end Line

namespace Program

variable {store : Store} {failure : Failure}

/-- A line that is refused, by itself or because of its place in blocks, is
quoted. -/
theorem context_of_refused {assembly : Assembly} {lines : List Line}
    (failed : (parseLines assembly store lines).failure = some failure)
    (code : failure.code ≠ .unclosedBlock) :
    ∃ line ∈ lines, line.number = failure.line ∧
      failure.context = line.raw := by
  induction lines generalizing assembly store with
  | nil =>
      cases opened : assembly.unclosed with
      | nil =>
          rw [parseLines, Assembly.finish_eq_ok_iff.mpr ⟨opened, rfl⟩] at failed
          cases failed
      | cons block outer =>
          rw [parseLines, Assembly.finish_of_open opened] at failed
          cases failed
          exact absurd rfl code
  | cons line rest ih =>
      cases read : Command.ofLine line store with
      | error cause middle =>
          simp only [parseLines, read] at failed
          cases failed
          exact ⟨line, List.mem_cons_self,
            (Command.ofLine_eq_error read).1.symm, rfl⟩
      | ok command middle =>
          cases added : assembly.add command line.number with
          | error fault =>
              simp only [parseLines, read, added] at failed
              cases failed
              exact ⟨line, List.mem_cons_self, rfl, rfl⟩
          | ok next =>
              simp only [parseLines, read, added] at failed
              obtain ⟨found, later, quoted⟩ := ih failed
              exact ⟨found, List.mem_cons_of_mem _ later, quoted⟩

/-- A block that is left open is found behind the last line.  Its failure is at
the header of the innermost block and describes it. -/
theorem context_of_unclosed {source : String}
    (failed : (parse source store).failure = some failure)
    (code : failure.code = .unclosedBlock) :
    ∃ word final header outer, Reads store (Line.ofSource source) word final ∧
      openHeaders word = (header, failure.line) :: outer ∧
      failure.context = header.describe := by
  obtain ⟨before, rest, word, final, assembly, lines, reads, added, _, stops⟩ :=
    parseLines_reads .empty store (Line.ofSource source)
  rw [show (parseLines .empty store (Line.ofSource source)).failure =
    some failure from failed] at stops
  cases stops with
  | refused _ other => exact absurd code other
  | @unclosed block outer opened =>
      rw [List.append_nil] at lines
      refine ⟨word, final, block.header,
        outer.map fun block => (block.header, block.line),
        lines ▸ reads, ?_, rfl⟩
      rw [← (Assembly.tracks_of_addAll added).1.opened, Assembly.headings,
        opened]
      rfl

/-- Every failure to read a script is at a line with code, and there is only one
line with its number.  It quotes that line: the row of the script with its
comment and its capitals, without the blanks around it.  The exception is a
block that is left open when all lines have been read.  The failure is then at
the header of the innermost such block and does not quote it, but describes the
command there. -/
theorem context_of_unread_source (source : String) (store : Store)
    (failure : Failure)
    (failed : (parse source store).failure = some failure ∨
      store = .empty ∧ compile source = .error failure) :
    ∃ line ∈ Line.ofSource source, line.number = failure.line ∧
      (∀ other ∈ Line.ofSource source, other.number = failure.line →
        other = line) ∧
      (∃ row, (Line.rows source)[failure.line - 1]? = some row ∧
        line.raw = String.ofList (Text.trim row)) ∧
      (failure.code ≠ .unclosedBlock → failure.context = line.raw) ∧
      (failure.code = .unclosedBlock → ∃ word final header outer,
        Reads store (Line.ofSource source) word final ∧
        openHeaders word = (header, failure.line) :: outer ∧
        failure.context = header.describe) := by
  have stopped : (parse source store).failure = some failure := by
    rcases failed with stopped | ⟨rfl, unread⟩
    · exact stopped
    · exact compile_eq_error_iff.mp unread
  obtain ⟨line, listed, atLine⟩ :=
    (hasCode_of_parse source store).2 failure stopped
  have only (other : Line) (member : other ∈ Line.ofSource source)
      (same : other.number = failure.line) : other = line :=
    Line.eq_of_number_eq member listed (same.trans atLine.symm)
  refine ⟨line, listed, atLine, only, atLine ▸ Line.raw_of_mem_ofSource listed,
    ?_, context_of_unclosed stopped⟩
  intro code
  obtain ⟨found, member, same, quoted⟩ := context_of_refused stopped code
  rw [quoted, only found member same]

/-- A script with an unknown word on its second row, and one whose loop is left
open. -/
theorem context_of_unread_source_open_loop :
    (∃ failure line, compile "dot\n  Spin 90 @ Oops\t" = .error failure ∧
      line ∈ Line.ofSource "dot\n  Spin 90 @ Oops\t" ∧
      line.number = failure.line ∧
      line.raw = "Spin 90 @ Oops" ∧ failure.context = line.raw) ∧
    ∃ failure line, (parse "While On @ forever\ndot" .empty).failure =
      some failure ∧
      line ∈ Line.ofSource "While On @ forever\ndot" ∧
      line.number = failure.line ∧
      line.raw = "While On @ forever" ∧ failure.context = "While true" ∧
      ∃ word final header outer,
        Reads .empty (Line.ofSource "While On @ forever\ndot") word final ∧
        openHeaders word = (header, failure.line) :: outer ∧
        failure.context = header.describe := by
  constructor
  · have stops : (parse "dot\n  Spin 90 @ Oops\t" .empty).failure =
        some ⟨.unknownCommand, 2, "Spin 90 @ Oops",
          "unknown command `spin`"⟩ := by decide +kernel
    have quotes :
        ∀ line ∈ Line.ofSource "dot\n  Spin 90 @ Oops\t", line.number = 2 →
        line.raw = "Spin 90 @ Oops" := by decide +kernel
    have fails := compile_eq_error_iff.mpr stops
    obtain ⟨line, listed, atLine, _, _, quoted, _⟩ :=
      context_of_unread_source _ .empty _ (.inr ⟨rfl, fails⟩)
    exact ⟨_, line, fails, listed, atLine, quotes line listed atLine,
      quoted (by decide)⟩
  · have stops : (parse "While On @ forever\ndot" .empty).failure = some
        ⟨.unclosedBlock, 1, "While true",
          "block opened here is never closed (1 still open)"⟩ := by
      decide +kernel
    have quotes :
        ∀ line ∈ Line.ofSource "While On @ forever\ndot", line.number = 1 →
        line.raw = "While On @ forever" := by decide +kernel
    obtain ⟨line, listed, atLine, _, _, _, described⟩ :=
      context_of_unread_source _ .empty _ (.inl stops)
    exact ⟨_, line, stops, listed, atLine, quotes line listed atLine, rfl,
      described rfl⟩

end Program

end PenScript
