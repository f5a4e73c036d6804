import PenScript.Proofs.LineNumbers
import PenScript.Proofs.Literals

/-!
# What refused lines leave behind

Reading a line declares the variable that its command introduces.  A line that
cannot be read declares nothing, with one exception: a counting loop declares
its counter before it reads its bounds, and the counter stays declared if a
bound is wrong.
-/

namespace PenScript

open Stateful

/-! ### Keywords at the start of a line -/

namespace Line

theorem fst_split (text : List Char) :
    (split text).1 = text.takeWhile fun c => !Text.isBlank c := by
  unfold split
  split
  · next divided => exact (congrArg Prod.fst divided).symm
  · next divided => exact (congrArg Prod.fst divided).symm

/-- The first word of a line is its first token, if the word is plain. -/
theorem scan_of_plain {text : List Char} (plain : Token.Plain (split text).1) :
    ∃ rest, Token.scan text = .word (split text).1 :: rest := by
  have parts := text.takeWhile_append_dropWhile (p := fun c => !Text.isBlank c)
  rw [← fst_split] at parts
  cases remaining : text.dropWhile fun c => !Text.isBlank c with
  | nil =>
      rw [remaining, List.append_nil] at parts
      refine ⟨[], ?_⟩
      conv => lhs; rw [← parts]
      exact Token.scan_of_wordAt (.inl plain)
  | cons c rest =>
      have blank : Text.isBlank c = true := by
        have stops := List.head?_dropWhile_not (fun c => !Text.isBlank c) text
        rw [remaining] at stops
        simpa using stops
      rw [remaining] at parts
      refine ⟨Token.ofPieces false (Token.pieces rest), ?_⟩
      conv => lhs; rw [← parts]
      rw [Token.scan, Token.pieces_append_blank blank,
        Token.pieces_of_plain plain, List.singleton_append,
        Token.ofPieces_plain _ plain]

/-- The line is a counting loop with two or three bounds, and its counter has a
name that can be declared. -/
structure Counts (line : Line) (counter : String) : Prop where
  keyword : Keyword.ofWord? (String.ofList (split line.text).1) = some .forRange
  checked : Name.check counter = .ok ()
  parameters : ∃ start stop step,
    Token.parameters (split line.text).2 = counter.toList :: start :: stop ::
      Option.toList step

end Line

namespace Command

/-- An equals sign does not make an assignment of a line that starts with a
keyword. -/
theorem ofText_of_keyword {text : List Char} {keyword : Keyword}
    (found : Keyword.ofWord? (String.ofList (Line.split text).1) = some keyword) :
    ofText text = readKeyword text := by
  obtain ⟨rest, scanned⟩ := Line.scan_of_plain (Token.plain_of_lookup rfl found)
  unfold ofText
  rw [scanned]
  split
  · next name value tokens =>
      cases tokens
      rw [Token.text, found]
      rfl
  · rfl

theorem ofText_of_counts {line : Line} {counter : String}
    (counts : line.Counts counter) :
    ∃ start stop step,
      ofText line.text = readRange counter.toList start stop step := by
  obtain ⟨start, stop, step, parameters⟩ := counts.parameters
  refine ⟨start, stop, step, ?_⟩
  rw [ofText_of_keyword counts.keyword, readKeyword]
  dsimp only
  rw [counts.keyword]
  dsimp only
  rw [parameters]
  cases step <;> rfl

/-! ### Readers that fail -/

variable {store final : Store} {fault : Fault}

/-- The value is the last thing that can be wrong. -/
theorem store_of_readDeclaration_error {name : Token} {rest : List Token}
    (failed : readDeclaration (name :: rest) store = .error fault final) :
    final = store := by
  rcases readDeclaration_apply name rest store with ⟨_, _, refused⟩ |
    ⟨missing, checked, goes⟩
  · cases refused.symm.trans failed
    rfl
  · rw [goes] at failed
    have reads :=
      (ReadsAt.logic store).readInitialValue (String.ofList name.text) rest
    cases outcome : readInitialValue (String.ofList name.text) rest store with
    | error cause middle =>
        rw [bind_of_error outcome] at failed
        cases failed
        exact reads.of_error outcome
    | ok value middle =>
        rw [bind_of_ok outcome] at failed
        obtain ⟨rfl, _⟩ := ReadsAt.of_ok reads outcome
        rw [bind_of_ok (declareName_of_check missing checked)] at failed
        cases failed

/-- A counter that is new and can be declared is declared, although the loop
cannot be read. -/
theorem store_of_readRange_error {counter start stop : List Char}
    {step : Option (List Char)}
    (failed : readRange counter start stop step store = .error fault final) :
    (store.contains (String.ofList counter) = true ∨
        Name.check (String.ofList counter) ≠ .ok ()) ∧ final = store ∨
      store.contains (String.ofList counter) = false ∧
        Name.check (String.ofList counter) = .ok () ∧
        final = store.insert (String.ofList counter) none := by
  rw [readRange_eq] at failed
  rcases readCounter_apply counter store with
    ⟨declared, read⟩ | ⟨missing, ⟨⟨cause, refused⟩, bad⟩ | ⟨checked, read⟩⟩
  · rw [bind_of_ok read] at failed
    have bounds :=
      (ReadsAt.logic store).readBounds (String.ofList counter) start stop step
    exact .inl ⟨.inl declared, ReadsAt.of_error bounds failed⟩
  · rw [bind_of_error refused] at failed
    cases failed
    exact .inl ⟨.inr bad, rfl⟩
  · rw [bind_of_ok read] at failed
    have bounds :=
      (ReadsAt.logic (store.insert (String.ofList counter) none)).readBounds
      (String.ofList counter) start stop step
    exact .inr ⟨missing, checked, ReadsAt.of_error bounds failed⟩

theorem store_of_ofLine_error {line : Line} {failure : Failure}
    (failed : ofLine line store = .error failure final) :
    final = store ∨ ∃ counter, line.Counts counter ∧
    store.contains counter = false ∧
      final = store.insert counter none := by
  obtain ⟨fault, unread, _⟩ := ofText_of_ofLine_error failed
  have form := lineForm_ofText line.text
  generalize ofText line.text = reader at form unread
  cases form with
  | refused cause ofLine =>
      cases unread
      exact .inl rfl
  | assigning name value =>
      exact .inl ((readsAt_readAssignment name value).of_error unread)
  | declaring name rest tokens =>
      exact .inl (store_of_readDeclaration_error unread)
  | counting counter start stop step keyword parameters =>
      rcases store_of_readRange_error unread with ⟨_, same⟩ |
        ⟨missing, checked, grown⟩
      · exact .inl same
      · refine .inr
          ⟨String.ofList counter, ⟨keyword, checked, start, stop, step, ?_⟩,
            missing, grown⟩
        rw [parameters, String.toList_ofList]
  | stating wrongCount ofLine keyword noLoop =>
      exact .inl (ReadsAt.of_error
        ((ReadsAt.logic store).readStatement ofLine noLoop _) unread)

theorem store_of_refused_loop {line : Line} {counter : String}
    (counts : line.Counts counter) (missing : store.contains counter = false)
    {failure : Failure} (failed : ofLine line store = .error failure final) :
    final = store.insert counter none := by
  obtain ⟨fault, unread, _⟩ := ofText_of_ofLine_error failed
  obtain ⟨start, stop, step, loop⟩ := ofText_of_counts counts
  rw [loop] at unread
  have outcome := store_of_readRange_error unread
  rw [String.ofList_toList] at outcome
  rcases outcome with ⟨present | bad, _⟩ | ⟨_, _, grown⟩
  · rw [missing] at present
    cases present
  · exact absurd counts.checked bad
  · exact grown

/-- A line that cannot be read declares the counter of a loop at most. -/
theorem names_of_ofLine_error {line : Line} {failure : Failure}
    (failed : ofLine line store = .error failure final) (name : String) :
    name ∈ final.names ↔ line.Counts name ∨ name ∈ store.names := by
  have kept : store.names ⊆ final.names := by
    rcases store_of_ofLine_error failed with rfl | ⟨counter, _, _, rfl⟩
    · exact List.Subset.refl _
    · exact store.names_subset_insert counter none
  constructor
  · intro declared
    rcases store_of_ofLine_error failed with rfl | ⟨counter, counts, _, rfl⟩
    · exact .inr declared
    · rcases Store.mem_names_insert declared with rfl | old
      · exact .inl counts
      · exact .inr old
  · rintro (counts | old)
    · cases present : store.contains name with
      | true => exact kept (Store.contains_iff_mem_names.mp present)
      | false =>
          rw [store_of_refused_loop counts present failed]
          exact Store.mem_names_insert_iff.mpr (.inl rfl)
    · exact kept old

/-! ### Readers that succeed -/

/-- The variable that the line of a command declares, unless it is declared
before. -/
def introduces? : Command → Option String
  | .declare name _ => some name
  | .forRange counter _ _ _ => some counter
  | _ => none

theorem target?_of_introduces? {command : Command} {name : String}
    (introduced : command.introduces? = some name) :
    command.target? = some name := by
  cases command with
  | declare other value => exact introduced
  | forRange counter start stop step => exact introduced
  | _ => cases introduced

variable {command : Command}

theorem names_of_readDeclaration {name : Token} {rest : List Token}
    (read : readDeclaration (name :: rest) store = .ok command final)
    (other : String) :
    other ∈ final.names ↔ command.introduces? = some other ∨
    other ∈ store.names := by
  rcases readDeclaration_apply name rest store with ⟨_, _, refused⟩ |
    ⟨missing, checked, goes⟩
  · cases refused.symm.trans read
  · rw [goes] at read
    obtain ⟨value, middle, initial, declaring⟩ := bind_eq_ok_iff.mp read
    have reads :=
      (ReadsAt.logic store).readInitialValue (String.ofList name.text) rest
    obtain ⟨rfl, _⟩ := ReadsAt.of_ok reads initial
    rw [bind_of_ok (declareName_of_check missing checked)] at declaring
    cases declaring
    rw [Store.mem_names_insert_iff]
    simp [introduces?, eq_comm]

theorem names_of_readRange {counter start stop : List Char}
    {step : Option (List Char)}
    (read : readRange counter start stop step store = .ok command final)
    (other : String) :
    other ∈ final.names ↔ command.introduces? = some other ∨
    other ∈ store.names := by
  rw [readRange_eq] at read
  rcases readCounter_apply counter store with
    ⟨declared, counted⟩ | ⟨missing, ⟨⟨cause, refused⟩, _⟩ | ⟨checked, counted⟩⟩
  · rw [bind_of_ok counted] at read
    have bounds :=
      (ReadsAt.logic store).readBounds (String.ofList counter) start stop step
    obtain ⟨rfl, ⟨first, last, width, rfl⟩, _⟩ := ReadsAt.of_ok bounds read
    have present := Store.contains_iff_mem_names.mp declared
    constructor
    · exact .inr
    · rintro (same | old)
      · cases same
        exact present
      · exact old
  · rw [bind_of_error refused] at read
    cases read
  · rw [bind_of_ok counted] at read
    have bounds :=
      (ReadsAt.logic (store.insert (String.ofList counter) none)).readBounds
      (String.ofList counter) start stop step
    obtain ⟨rfl, ⟨first, last, width, rfl⟩, _⟩ := ReadsAt.of_ok bounds read
    rw [Store.mem_names_insert_iff]
    simp [introduces?, eq_comm]

/-- A line that is read declares the variable that its command introduces, and
nothing else. -/
theorem names_of_ofLine {line : Line}
    (read : ofLine line store = .ok command final) (other : String) :
    other ∈ final.names ↔ command.introduces? = some other ∨
    other ∈ store.names := by
  have unchanged (same : final = store)
      (target : ∀ name, command.target? = some name →
        store.contains name = true) :
      other ∈ final.names ↔ command.introduces? = some other ∨
      other ∈ store.names := by
    subst same
    constructor
    · exact .inr
    · rintro (introduced | old)
      · exact Store.contains_iff_mem_names.mp
          (target other (target?_of_introduces? introduced))
      · exact old
  have form := lineForm_ofText line.text
  have readText := ofText_of_ofLine read
  generalize ofText line.text = reader at form readText
  cases form with
  | refused cause ofLine => cases readText
  | assigning name value =>
      obtain ⟨same, wellRead⟩ :=
        (readsAt_readAssignment name value).of_ok readText
      exact unchanged same wellRead.target
  | declaring name rest tokens => exact names_of_readDeclaration readText other
  | counting counter start stop step => exact names_of_readRange readText other
  | stating wrongCount ofLine keyword noLoop =>
      have statement := (ReadsAt.logic store).readStatement ofLine noLoop
        (Token.parameters (Line.split line.text).2)
      obtain ⟨same, stated⟩ := ReadsAt.of_ok statement readText
      refine unchanged same fun name found => ?_
      rw [stated.target] at found
      cases found

end Command

namespace Program

/-! ### Scripts -/

theorem Reads.mem_names {store final : Store} {lines : List Line}
    {word : List (Command × Nat)} (reads : Reads store lines word final)
    (name : String) :
    name ∈ final.names ↔
      (∃ entry ∈ word, entry.1.introduces? = some name) ∨
      name ∈ store.names := by
  induction reads with
  | nil => simp
  | cons read rest ih =>
      rw [ih, Command.names_of_ofLine read]
      simp [or_assoc, or_left_comm]

/-- Reading goes through some lines, and stops at one that cannot be read or for
another reason. -/
theorem parseLines_store (assembly : Assembly) (store : Store)
    (lines : List Line) :
    ∃ before unread after word middle,
      lines = before ++ unread.toList ++ after ∧
      Reads store before word middle ∧
      (unread = none ∧ (parseLines assembly store lines).store = middle ∨
        ∃ line failure, unread = some line ∧
          Command.ofLine line middle =
            .error failure (parseLines assembly store lines).store) := by
  induction lines generalizing assembly store with
  | nil =>
      refine ⟨[], none, [], [], store, rfl, .nil, .inl ⟨rfl, ?_⟩⟩
      unfold parseLines
      split <;> rfl
  | cons line lines ih =>
      unfold parseLines
      cases read : Command.ofLine line store with
      | error failure final =>
          exact ⟨[], some line, lines, [], store, rfl, .nil,
            .inr ⟨line, failure, rfl, read⟩⟩
      | ok command final =>
          dsimp only
          cases added : assembly.add command line.number with
          | error fault =>
              exact ⟨[line], none, lines, _, final, rfl, .cons read .nil,
                .inl ⟨rfl, rfl⟩⟩
          | ok next =>
              obtain ⟨before, unread, after, word, middle, rfl, reads,
                stopped⟩ := ih next final
              exact ⟨line :: before, unread, after, _, middle, rfl,
                .cons read reads, stopped⟩

/-- The variables of a script are those that its lines introduce as far as they
were read, and the counter of the loop at which reading stopped. -/
theorem names_of_parse (source : String) :
    ∃ (read : List Line) (unread : Option Line) (after : List Line)
        (word : List (Command × Nat)) (middle : Store),
      Line.ofSource source = read ++ unread.toList ++ after ∧
      Reads .empty read word middle ∧
      (∀ line ∈ unread, ∃ failure final,
        Command.ofLine line middle = .error failure final) ∧
      ∀ name, name ∈ (parse source .empty).store.names ↔
        (∃ entry ∈ word, entry.1.introduces? = some name) ∨ ∃ line ∈ unread,
        line.Counts name := by
  obtain ⟨read, unread, after, word, middle, lines, reads, stopped⟩ :=
    parseLines_store .empty .empty (Line.ofSource source)
  have introduced (name : String) :
      name ∈ middle.names ↔ ∃ entry ∈ word,
      entry.1.introduces? = some name := by
    rw [reads.mem_names]
    exact or_iff_left List.not_mem_nil
  refine ⟨read, unread, after, word, middle, lines, reads, ?_⟩
  rcases stopped with ⟨rfl, same⟩ | ⟨line, failure, rfl, failed⟩
  · have whole : (parse source .empty).store = middle := same
    rw [whole]
    simp [introduced]
  · refine ⟨?_, fun name => ?_⟩
    · rintro _ ⟨⟩
      exact ⟨failure, _, failed⟩
    · have declared := Command.names_of_ofLine_error failed name
      rw [introduced, or_comm] at declared
      exact declared.trans (by simp)

end Program

/-- A line that cannot be read leaves the store as it was, unless it is a
counting loop whose counter is new: the counter is declared before the bounds
are read, and stays so.  After a pardoned load the variables are therefore those
that the lines introduce which could be read, and the counter of the line that
could not, if that is such a loop. -/
theorem Session.names_after_refused_line (line : Line) (store : Store)
    (session : Session) (source : String) :
    (∀ failure final, Command.ofLine line store = .error failure final →
      (final = store ∨ ∃ counter, line.Counts counter ∧
        store.contains counter = false ∧
        final = store.insert counter none) ∧
      ∀ counter, line.Counts counter → store.contains counter = false →
        final = store.insert counter none) ∧
    ∀ failure, session.config.leniency = .pardon →
      (session.load source).1 = .error failure →
      ∃ (read : List Line) (unread : Option Line) (after : List Line)
          (word : List (Command × Nat)) (middle : Store),
        Line.ofSource source = read ++ unread.toList ++ after ∧
        Program.Reads .empty read word middle ∧
        (∀ refused ∈ unread, ∃ cause final,
          Command.ofLine refused middle = .error cause final) ∧
        ∀ name, name ∈ (session.load source).2.store.names ↔
          (∃ entry ∈ word, entry.1.introduces? = some name) ∨
            ∃ refused ∈ unread, refused.Counts name := by
  constructor
  · intro failure final failed
    refine ⟨Command.store_of_ofLine_error failed, ?_⟩
    intro counter counts missing
    exact Command.store_of_refused_loop counts missing failed
  · intro failure pardon failed
    have unread := session.load_eq_error_iff.mp failed
    have kept :
        (session.load source).2.store =
          (Program.parse source .empty).store := by
      rw [load_of_compile_error_pardon unread pardon]
      rfl
    rw [kept]
    exact Program.names_of_parse source

/-- A color is no bound, and the counter before it stays declared. -/
theorem Session.names_after_refused_line_color_bound :
    let line : Line := ⟨1, "for i 1 red".toList, ""⟩
    let session := new ⟨.pardon, {}⟩ true
    let source := "var n\nfor i n red"
    line.Counts "i" ∧
    (∃ failure,
      Command.ofLine line .empty =
        .error failure (Store.empty.insert "i" none)) ∧
    (∃ failure, (session.load source).1 = .error failure) ∧
    (session.load source).2.store.names = ["n", "i"] ∧
    ∃ (read : List Line) (unread : Option Line) (after : List Line)
        (word : List (Command × Nat)) (middle : Store),
      Line.ofSource source = read ++ unread.toList ++ after ∧
      Program.Reads .empty read word middle ∧
      ((∃ entry ∈ word, entry.1.introduces? = some "i") ∨
        ∃ refused ∈ unread, refused.Counts "i") := by
  intro line session source
  have counts : line.Counts "i" := by
    refine ⟨?_, ?_, "1".toList, "red".toList, none, ?_⟩ <;> decide +kernel
  have refused : answer? (Command.ofLine line .empty) = none := by
    decide +kernel
  have facts : session.config.leniency = .pardon ∧
      (session.load source).1 =
        .error ⟨.typeMismatch, 2, "for i n red",
          "parameter 3: expected int, got color"⟩ ∧
      (session.load source).2.store.names = ["n", "i"] := by
    decide +kernel
  refine ⟨counts, ?_, ?_⟩
  · cases outcome : Command.ofLine line .empty with
    | ok command final =>
        rw [outcome] at refused
        cases refused
    | error failure final =>
        have grown :=
          ((names_after_refused_line line .empty session source).1 failure final
            outcome).2 "i" counts rfl
        exact ⟨failure, by rw [grown]⟩
  · generalize source = script at facts ⊢
    generalize session = lenient at facts ⊢
    obtain ⟨pardon, failed, names⟩ := facts
    obtain ⟨read, unread, after, word, middle, split, reads, _, declared⟩ :=
      (names_after_refused_line line .empty lenient script).2 _ pardon failed
    refine ⟨⟨_, failed⟩, names, read, unread, after, word, middle, split, reads,
      (declared "i").mp ?_⟩
    rw [names]
    decide

end PenScript
