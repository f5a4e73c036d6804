import Mathlib.Data.List.TakeWhile
import PenScript.Proofs.Relocation

/-!
# The layout of a script

Line breaks of the other kind, comments, lines without code, blanks around a
line and the case of letters have no effect on what is read from a script.  Only
the numbers of the lines may change.
-/

namespace PenScript

namespace Text

/-! ### Blanks -/

/-- A text of blanks only. -/
def Blank (text : List Char) : Prop :=
  ∀ c ∈ text, isBlank c = true

instance (text : List Char) : Decidable (Blank text) :=
  decidable_of_iff (text.all isBlank = true) List.all_eq_true

theorem trim_blank_append {blanks : List Char} (blank : Blank blanks)
    (text : List Char) :
    trim (blanks ++ text) = trim text := by
  rw [trim, trimStart, List.dropWhile_append_of_pos blank]
  rfl

theorem trimEnd_append_blank {blanks : List Char} (blank : Blank blanks)
    (text : List Char) :
    trimEnd (text ++ blanks) = trimEnd text := by
  have blankReverse : Blank blanks.reverse :=
    fun c member => blank c (List.mem_reverse.mp member)
  rw [trimEnd, List.reverse_append, List.dropWhile_append_of_pos blankReverse]
  rfl

theorem trim_append_blank {blanks : List Char} (blank : Blank blanks)
    (text : List Char) :
    trim (text ++ blanks) = trim text := by
  rw [trim, trimStart, List.dropWhile_append]
  split
  · next empty =>
      have nothing : trimStart text = [] := List.isEmpty_iff.mp empty
      rw [List.dropWhile_eq_nil_iff.mpr blank, trim, nothing]
  · exact trimEnd_append_blank blank _

/-! ### Letters -/

theorem toLower_of_not_ascii {c : Char} (beyond : ¬c.toNat < 128) :
    c.toLower = c := by
  have notUpper : c.isUpper = false :=
    isUpper_eq_false_iff.mpr (.inr (by omega))
  exact dif_neg (of_decide_eq_false notUpper)

/-- Only the characters of ASCII need to be tried to see that case makes no
difference. -/
theorem apply_toLower {α : Type} (f : Char → α)
    (ascii : ∀ code < 128, f (Char.ofNat code).toLower = f (Char.ofNat code))
    (c : Char) :
    f c.toLower = f c := by
  by_cases inside : c.toNat < 128
  · have same := ascii c.toNat inside
    rwa [Char.ofNat_toNat] at same
  · rw [toLower_of_not_ascii inside]

theorem isBlank_toLower : isBlank ∘ Char.toLower = isBlank :=
  funext (apply_toLower isBlank (by decide))

theorem isCased_toLower : isCased ∘ Char.toLower = isCased :=
  funext (apply_toLower isCased (by decide))

theorem isCaseIgnorable_toLower :
    isCaseIgnorable ∘ Char.toLower = isCaseIgnorable :=
  funext (apply_toLower isCaseIgnorable (by decide))

theorem trim_map_toLower (text : List Char) :
    trim (text.map Char.toLower) = (trim text).map Char.toLower := by
  simp only [trim, trimStart, trimEnd, List.dropWhile_map, isBlank_toLower,
    ← List.map_reverse]

theorem meetsCased_map_toLower (neighbours : List Char) :
    meetsCased (neighbours.map Char.toLower) = meetsCased neighbours := by
  rw [meetsCased, List.dropWhile_map, isCaseIgnorable_toLower, List.head?_map,
    Option.map_map, isCased_toLower]
  rfl

theorem lowerFrom_map_toLower (before text : List Char) :
    lowerFrom (before.map Char.toLower) (text.map Char.toLower) =
      lowerFrom before text := by
  induction text generalizing before with
  | nil => rfl
  | cons c rest ih =>
      have sigma : decide (c.toLower = '\u03A3') = decide (c = '\u03A3') :=
        apply_toLower (fun c => decide (c = '\u03A3')) (by decide) c
      rw [List.map_cons, lowerFrom, lowerFrom, sigma, meetsCased_map_toLower,
        meetsCased_map_toLower, apply_toLower lowerChar (by decide),
        ← List.map_cons, ih]

theorem lower_map_toLower (text : List Char) :
    lower (text.map Char.toLower) = lower text :=
  lowerFrom_map_toLower [] text

/-! ### Fields -/

theorem fields_map {isSeparator : Char → Bool} {f : Char → Char}
    (same : ∀ c, isSeparator (f c) = isSeparator c) (text : List Char) :
    fields isSeparator (text.map f) =
      (fields isSeparator text).map (List.map f) := by
  induction text with
  | nil => rfl
  | cons c text ih =>
      rw [List.map_cons, fields_cons, fields_cons, same, ih]
      split
      · rfl
      · cases fields isSeparator text <;> rfl

end Text

namespace Line

open Text

/-! ### The code on a row -/

theorem code_append_comment (content comment : List Char) :
    code (content ++ '@' :: comment) = code content := by
  have before : (content ++ '@' :: comment).takeWhile (fun c => !(c == '@')) =
      content.takeWhile fun c => !(c == '@') := by
    induction content with
    | nil => rfl
    | cons c content ih => simp only [List.cons_append, List.takeWhile_cons, ih]
  rw [code, cut, before]
  rfl

/-- Without a comment in the row, the blanks are at the end of its code. -/
theorem code_append_blank {blanks : List Char} (blank : Blank blanks)
    (content : List Char) :
    code (content ++ blanks) = code content := by
  rw [code, code, cut, cut, List.takeWhile_append]
  split
  · next uncommented =>
      have whole :=
        (List.takeWhile_prefix fun c => !(c == '@')).eq_of_length uncommented
      rw [whole]
      refine trim_append_blank ?_ content
      intro c member
      exact blank c ((List.takeWhile_prefix _).subset member)
  · rfl

theorem code_blank_append {blanks : List Char} (blank : Blank blanks)
    (row : List Char) :
    code (blanks ++ row) = code row := by
  have uncommented : ∀ c ∈ blanks, (!(c == '@')) = true := by
    intro c member
    have isBlank := blank c member
    rw [Bool.not_eq_true', beq_eq_false_iff_ne]
    rintro rfl
    cases isBlank
  rw [code, cut, List.takeWhile_append_of_pos uncommented]
  exact trim_blank_append blank _

theorem code_map_toLower (row : List Char) :
    code (row.map Char.toLower) = (code row).map Char.toLower := by
  have comment : (fun c => !(c == '@')) ∘ Char.toLower = fun c => !(c == '@') :=
    funext (apply_toLower (fun c => !(c == '@')) (by decide))
  rw [code, cut, List.takeWhile_map, comment, trim_map_toLower]
  rfl

/-- The same code up to the case of letters. -/
def SameCode (row other : List Char) : Prop :=
  (code other).map Char.toLower = (code row).map Char.toLower

/-! ### Layout -/

/-- A change to a row that does not touch its code.  Blanks at the end of a row,
such as a carriage return, may stay behind what is added. -/
inductive Dresses : List Char → List Char → Prop where
  | comment (content comment : List Char) {ending : List Char}
      (blank : Blank ending) :
      Dresses (content ++ ending) (content ++ '@' :: comment ++ ending)
  | leading {blanks : List Char} (blank : Blank blanks) (row : List Char) :
      Dresses row (blanks ++ row)
  | trailing (content : List Char) {blanks ending : List Char}
      (blank : Blank blanks) (blankEnding : Blank ending) :
        Dresses (content ++ ending) (content ++ blanks ++ ending)

/-- A row of blanks, perhaps with a comment. -/
inductive Idle : List Char → Prop where
  | blank {blanks : List Char} (blank : Blank blanks) : Idle blanks
  | comment {blanks : List Char} (blank : Blank blanks) (comment : List Char) :
      Idle (blanks ++ '@' :: comment)

/-- The script with the given rows. -/
def script (rows : List (List Char)) : String :=
  String.ofList (['\n'].intercalate rows)

/-- A script in another layout, with the place to which each of its lines has
come. -/
inductive Reformats : String → (Nat → Nat) → String → Prop where
  | same (source : String) : Reformats source id source
  | next {source middle changed : String} {place further : Nat → Nat}
      (first : Reformats source place middle)
      (second : Reformats middle further changed) :
      Reformats source (further ∘ place) changed
  | carriageReturns (source : String) :
      Reformats source id
        (String.ofList
          (source.toList.flatMap fun c =>
            if c = '\n' then ['\r', '\n'] else [c]))
  | letters {source changed : String}
      (alike :
        changed.toList.map Char.toLower = source.toList.map Char.toLower) :
      Reformats source id changed
  | dressing {source : String} {before after : List (List Char)}
      {row other : List Char} (split : rows source = before ++ row :: after)
      (dresses : Dresses row other) (free : '\n' ∉ other) :
      Reformats source id (script (before ++ other :: after))
  | insertion {source : String} {before after : List (List Char)}
      {row : List Char}
      (split : rows source = before ++ after) (idle : Idle row)
      (free : '\n' ∉ row) :
      Reformats source
        (fun number => if number ≤ before.length then number else number + 1)
        (script (before ++ row :: after))

theorem Dresses.sameCode {row other : List Char} (dresses : Dresses row other) :
    SameCode row other := by
  apply congrArg (List.map Char.toLower)
  cases dresses with
  | comment content comment blank =>
      rw [code_append_blank blank, code_append_blank blank, code_append_comment]
  | leading blank row => exact code_blank_append blank row
  | trailing content blank blankEnding =>
      rw [code_append_blank blankEnding, code_append_blank blank,
        code_append_blank blankEnding]

theorem Idle.code {row : List Char} (idle : Idle row) : code row = [] := by
  cases idle with
  | blank blank => exact code_append_blank blank []
  | comment blank comment =>
      rw [code_append_comment]
      exact code_append_blank blank []

/-! ### Rows -/

theorem rows_script {texts : List (List Char)} (some : texts ≠ [])
    (free : ∀ row ∈ texts, '\n' ∉ row) : rows (script texts) = texts := by
  have plain {row : List Char} (none : '\n' ∉ row) :
      ∀ c ∈ row, (c == '\n') = false := by
    intro c member
    rw [beq_eq_false_iff_ne]
    rintro rfl
    exact none member
  rw [rows, script, String.toList_ofList]
  induction texts with
  | nil => exact absurd rfl some
  | cons row rest ih =>
      obtain ⟨here, later⟩ := List.forall_mem_cons.mp free
      cases rest with
      | nil =>
          rw [List.intercalate_singleton]
          exact fields_of_free (plain here)
      | cons second others =>
          rw [List.intercalate_cons_cons, List.append_assoc,
            List.singleton_append, fields_append_cons (plain here) rfl,
            ih (List.cons_ne_nil _ _) later]

theorem rows_script_split {before after : List (List Char)} {row : List Char}
    (freeBefore : ∀ row ∈ before, '\n' ∉ row)
    (freeAfter : ∀ row ∈ after, '\n' ∉ row) (free : '\n' ∉ row) :
    rows (script (before ++ row :: after)) = before ++ row :: after := by
  apply rows_script
  · simp
  · exact List.forall_mem_append.mpr
      ⟨freeBefore, List.forall_mem_cons.mpr ⟨free, freeAfter⟩⟩

theorem free_of_mem_rows (source : String) :
    ∀ row ∈ rows source, '\n' ∉ row := by
  suffices ∀ text : List Char, ∀ row ∈ fields (· == '\n') text,
    '\n' ∉ row from this _
  intro text
  induction text with
  | nil => simp [fields_nil]
  | cons c text ih =>
      rw [fields_cons]
      split
      · exact List.forall_mem_cons.mpr ⟨List.not_mem_nil, ih⟩
      · next plain =>
          cases parts : fields (· == '\n') text with
          | nil => exact absurd parts (fields_ne_nil _ text)
          | cons first rest =>
              rw [parts] at ih
              obtain ⟨here, later⟩ := List.forall_mem_cons.mp ih
              refine List.forall_mem_cons.mpr ⟨?_, later⟩
              simp only [List.mem_cons, not_or]
              refine ⟨?_, here⟩
              rintro rfl
              exact plain rfl

/-- The rows are the same but for a carriage return at the end. -/
def SameUpToReturn (row other : List Char) : Prop :=
  other = row ∨ other = row ++ ['\r']

/-- A character goes to the front of the first row on both sides. -/
theorem forall₂_modifyHead {texts others : List (List Char)}
    (same : List.Forall₂ SameUpToReturn texts others) (c : Char) :
    List.Forall₂ SameUpToReturn (texts.modifyHead (c :: ·))
      (others.modifyHead (c :: ·)) := by
  cases same with
  | nil => exact .nil
  | cons here later =>
      refine .cons ?_ later
      rcases here with rfl | rfl
      · exact .inl rfl
      · exact .inr rfl

/-- Where each line break gets a carriage return, each row but the last one
does. -/
theorem rows_carriageReturns (text : List Char) :
    List.Forall₂ SameUpToReturn (fields (· == '\n') text)
      (fields (· == '\n')
        (text.flatMap fun c => if c = '\n' then ['\r', '\n'] else [c])) := by
  induction text with
  | nil => exact .cons (.inl rfl) .nil
  | cons c text ih =>
      rw [List.flatMap_cons]
      by_cases breaks : c = '\n'
      · subst breaks
        exact .cons (.inr rfl) ih
      · rw [if_neg breaks, List.singleton_append, fields_cons, fields_cons,
          beq_false_of_ne breaks]
        exact forall₂_modifyHead ih c

/-! ### Line breaks of two characters -/

/-- The text with a line break in the place of each pair of a carriage return
and a line break. -/
def unifyBreaks : List Char → List Char
  | '\r' :: '\n' :: text => '\n' :: unifyBreaks text
  | c :: text => c :: unifyBreaks text
  | [] => []

theorem rows_unifyBreaks (text : List Char) :
    List.Forall₂ SameUpToReturn (fields (· == '\n') (unifyBreaks text))
      (fields (· == '\n') text) := by
  fun_induction unifyBreaks text with
  | case1 text ih => exact .cons (.inr rfl) ih
  | case2 c text other ih =>
      rw [fields_cons, fields_cons]
      split
      · exact .cons (.inl rfl) ih
      · exact forall₂_modifyHead ih c
  | case3 => exact .cons (.inl rfl) .nil

theorem SameUpToReturn.ofNumbered?_eq {row other : List Char}
    (same : SameUpToReturn row other) (number : Nat) :
    ofNumbered? number other = ofNumbered? number row := by
  have blank : Blank ['\r'] := by decide
  rcases same with rfl | rfl
  · rfl
  · rw [ofNumbered?, ofNumbered?, code_append_blank blank,
      trim_append_blank blank]

/-- It makes no difference to the lines of a script if its line breaks of two
characters are replaced first. -/
theorem ofSource_unifyBreaks (source : String) :
    ofSource (String.ofList (unifyBreaks source.toList)) = ofSource source := by
  have numbered_eq {texts others : List (List Char)}
      (same : List.Forall₂ SameUpToReturn texts others) (start : Nat) :
      numbered start texts = numbered start others := by
    induction same generalizing start with
    | nil => rfl
    | cons here _ ih =>
        rw [numbered_cons, numbered_cons, here.ofNumbered?_eq, ih]
  rw [ofSource_eq_numbered, ofSource_eq_numbered, rows, rows,
    String.toList_ofList]
  exact numbered_eq (rows_unifyBreaks source.toList) 0

/-! ### Lines -/

theorem forall₂_ofNumbered? {place : Nat → Nat} (number : Nat)
    {row other : List Char} (same : SameCode row other) :
    List.Forall₂ (Moved place) (ofNumbered? number row).toList
      (ofNumbered? (place number) other).toList := by
  have lowered : lower (code other) = lower (code row) := by
    rw [← lower_map_toLower, same, lower_map_toLower]
  have empty : (code other).isEmpty = (code row).isEmpty := by
    simpa using congrArg List.isEmpty same
  unfold ofNumbered?
  dsimp only
  rw [empty]
  split
  · exact .nil
  · exact .cons ⟨rfl, lowered⟩ .nil

/-- Rows with the same code make up the same lines, at the places of the
rows. -/
theorem forall₂_numbered {place : Nat → Nat} {texts others : List (List Char)}
    (same : List.Forall₂ SameCode texts others) {start first : Nat}
    (moves : ∀ index < texts.length,
      place (start + index + 1) = first + index + 1) :
    List.Forall₂ (Moved place) (numbered start texts)
      (numbered first others) := by
  induction same generalizing start first with
  | nil => exact .nil
  | @cons row other texts others here _ ih =>
      have position : place (start + 1) = first + 1 := moves 0 (Nat.succ_pos _)
      rw [numbered_cons, numbered_cons, ← position]
      refine List.rel_append (forall₂_ofNumbered? (start + 1) here) ?_
      rw [position]
      apply ih
      intro index bound
      have later := moves (index + 1) (Nat.succ_lt_succ bound)
      rw [show start + 1 + index + 1 = start + (index + 1) + 1 by omega, later]
      omega

theorem forall₂_sameCode_self (texts : List (List Char)) :
    List.Forall₂ SameCode texts texts :=
  List.forall₂_same.mpr fun _ _ => rfl

theorem forall₂_ofSource {source changed : String}
    (same : List.Forall₂ SameCode (rows source) (rows changed)) :
    List.Forall₂ (Moved id) (ofSource source) (ofSource changed) :=
  forall₂_numbered same fun _ _ => rfl

theorem forall₂_moved_comp {place further : Nat → Nat}
    {lines middle others : List Line}
    (first : List.Forall₂ (Moved place) lines middle)
    (second : List.Forall₂ (Moved further) middle others) :
    List.Forall₂ (Moved (further ∘ place)) lines others := by
  induction first generalizing others with
  | nil =>
      cases second
      exact .nil
  | cons here _ ih =>
      cases second with
      | cons next rest =>
          refine .cons ⟨?_, next.text.trans here.text⟩ (ih rest)
          rw [next.number, here.number]
          rfl

/-- A row without code moves the lines behind it by one. -/
theorem forall₂_numbered_insert {before after : List (List Char)}
    {row : List Char} (idle : Idle row) :
    List.Forall₂
      (Moved fun number =>
        if number ≤ before.length then number else number + 1)
      (numbered 0 (before ++ after)) (numbered 0 (before ++ row :: after)) := by
  have nothing : ofNumbered? (0 + before.length + 1) row = none := by
    rw [ofNumbered?, idle.code]
    rfl
  rw [numbered_append, numbered_append, numbered_cons, nothing]
  refine List.rel_append ?_ ?_
  · refine forall₂_numbered (forall₂_sameCode_self before) ?_
    intro index bound
    rw [if_pos (by omega)]
  · refine forall₂_numbered (forall₂_sameCode_self after) ?_
    intro index bound
    rw [if_neg (by omega)]
    omega

/-- In another layout, each line has the same code as before. -/
theorem Reformats.moved {source changed : String} {place : Nat → Nat}
    (reformats : Reformats source place changed) :
    List.Forall₂ (Moved place) (ofSource source) (ofSource changed) := by
  induction reformats with
  | same source => exact forall₂_ofSource (forall₂_sameCode_self _)
  | next _ _ ihFirst ihSecond => exact forall₂_moved_comp ihFirst ihSecond
  | carriageReturns source =>
      apply forall₂_ofSource
      rw [rows, rows, String.toList_ofList]
      refine (rows_carriageReturns source.toList).imp ?_
      rintro row other (rfl | rfl)
      · rfl
      · exact congrArg (List.map Char.toLower)
          (code_append_blank (by decide) row)
  | @letters source changed alike =>
      apply forall₂_ofSource
      have lineBreak : ∀ c : Char, (c.toLower == '\n') = (c == '\n') :=
        apply_toLower (· == '\n') (by decide)
      have rowsAlike : (rows source).map (List.map Char.toLower) =
          (rows changed).map (List.map Char.toLower) := by
        rw [rows, rows, ← fields_map lineBreak, ← fields_map lineBreak, alike]
      rw [← List.forall₂_eq_eq_eq, List.forall₂_map_left_iff,
        List.forall₂_map_right_iff] at rowsAlike
      refine rowsAlike.imp ?_
      intro row other same
      rw [SameCode, ← code_map_toLower, ← code_map_toLower, same]
  | @dressing source before after row other split dresses free =>
      apply forall₂_ofSource
      have freeRows := free_of_mem_rows source
      rw [split] at freeRows
      obtain ⟨freeBefore, freeBehind⟩ := List.forall_mem_append.mp freeRows
      rw [rows_script_split freeBefore (List.forall_mem_cons.mp freeBehind).2
        free, split]
      exact List.rel_append (forall₂_sameCode_self before)
        (.cons dresses.sameCode (forall₂_sameCode_self after))
  | @insertion source before after row split idle free =>
      have freeRows := free_of_mem_rows source
      rw [split] at freeRows
      obtain ⟨freeBefore, freeAfter⟩ := List.forall_mem_append.mp freeRows
      rw [ofSource_eq_numbered, ofSource_eq_numbered, split,
        rows_script_split freeBefore freeAfter free]
      exact forall₂_numbered_insert idle

end Line

/-- The layout of a script does not change what it means.  In any other layout,
with other line breaks, comments, rows without code, blanks around its rows or
letters in another case, it gives the same program, or it fails with the same
code and message; nodes and failure are at the lines to which theirs have
come. -/
theorem Program.compile_of_reformats {source changed : String}
    {place : Nat → Nat} (reformats : Line.Reformats source place changed) :
    Alike place (compile source) (compile changed) :=
  alike_of_moved reformats.moved

/-- A script that fails at its second line, and at the third one with a comment
above it. -/
theorem Program.compile_of_reformats_unknown_command :
    ∃ failure other, compile "var x\nfrob x" = .error failure ∧
      compile "VAR x\r\n\t@ note\r\nfrob X" = .error other ∧
      failure.line = 2 ∧ other.line = 3 ∧ other.code = failure.code ∧
      other.message = failure.message := by
  have capitals : Line.Reformats "var x\nfrob x" id "VAR x\nfrob X" :=
    .letters (by decide)
  have split :
      Line.rows "VAR x\nfrob X" = ["VAR x".toList] ++ ["frob X".toList] := by
    decide
  have idle : Line.Idle ("\t".toList ++ '@' :: " note".toList) :=
    .comment (by decide) _
  have note := Line.Reformats.insertion split idle (by decide)
  have result : String.ofList ((Line.script (["VAR x".toList] ++
      ("\t".toList ++ '@' :: " note".toList) ::
        ["frob X".toList])).toList.flatMap
        fun c => if c = '\n' then ['\r', '\n'] else [c]) =
      "VAR x\r\n\t@ note\r\nfrob X" := by decide
  have alike :=
    compile_of_reformats ((capitals.next note).next (.carriageReturns _))
  have stops : (parse "var x\nfrob x" .empty).failure =
      some ⟨.unknownCommand, 2, "frob x", "unknown command `frob`"⟩ := by
      decide +kernel
  have fails := compile_eq_error_iff.mpr stops
  rw [result, fails] at alike
  generalize compile "VAR x\r\n\t@ note\r\nfrob X" = outcome at alike ⊢
  cases alike with
  | @error _ other moved =>
      exact ⟨_, other, fails, rfl, rfl, moved.line, moved.code, moved.message⟩

end PenScript
