import PenScript.Proofs.Statements

/-!
# Lines of a script

The lines with code are numbered in order.  A script that is cut before a line
keeps the lines with smaller numbers.  What is wrong with a line by itself never
concerns the nesting of blocks.
-/

namespace PenScript

open Stateful

namespace Text

theorem fields_nil (isSeparator : Char → Bool) : fields isSeparator [] = [[]] :=
  rfl

theorem fields_cons (isSeparator : Char → Bool) (c : Char) (text : List Char) :
    fields isSeparator (c :: text) =
      if isSeparator c then [] :: fields isSeparator text
      else (fields isSeparator text).modifyHead (c :: ·) := rfl

theorem fields_ne_nil (isSeparator : Char → Bool) (text : List Char) :
    fields isSeparator text ≠ [] := by
  cases text with
  | nil => simp [fields_nil]
  | cons c text =>
      rw [fields_cons]
      split
      · simp
      · simpa [List.modifyHead_eq_nil_iff] using fields_ne_nil isSeparator text

/-- A separator ends the last field before it. -/
theorem fields_append {isSeparator : Char → Bool} {separator : Char}
    (separates : isSeparator separator = true) (first rest : List Char) :
    fields isSeparator (first ++ separator :: rest) =
      fields isSeparator first ++ fields isSeparator rest := by
  induction first with
  | nil => simp [fields_cons, fields_nil, separates]
  | cons c first ih =>
      rw [List.cons_append, fields_cons, fields_cons, ih]
      split
      · rfl
      · cases parts : fields isSeparator first with
        | nil => exact absurd parts (fields_ne_nil isSeparator first)
        | cons field others => rfl

theorem fields_of_free {isSeparator : Char → Bool} {field : List Char}
    (free : ∀ c ∈ field, isSeparator c = false) :
    fields isSeparator field = [field] := by
  induction field with
  | nil => rfl
  | cons c field ih =>
      obtain ⟨here, later⟩ := List.forall_mem_cons.mp free
      simp [fields_cons, here, ih later]

theorem fields_append_cons {isSeparator : Char → Bool} {field : List Char}
    (free : ∀ c ∈ field, isSeparator c = false) {separator : Char}
    (separates : isSeparator separator = true) (text : List Char) :
    fields isSeparator (field ++ separator :: text) =
      field :: fields isSeparator text := by
  rw [fields_append separates, fields_of_free free]
  rfl

/-- The text up to and with a number of separators. -/
def keepFields (isSeparator : Char → Bool) : Nat → List Char → List Char
  | 0, _ => []
  | _, [] => []
  | count + 1, c :: text =>
      c :: keepFields isSeparator (if isSeparator c then count else count + 1)
        text

/-- Behind the last separator that is kept stands an empty field. -/
theorem fields_keepFields (isSeparator : Char → Bool) (count : Nat)
    (text : List Char) :
    fields isSeparator (keepFields isSeparator count text) =
      (fields isSeparator text).take count ++
        if count < (fields isSeparator text).length then [[]] else [] := by
  induction text generalizing count with
  | nil => cases count <;> simp [keepFields, fields_nil]
  | cons c text ih =>
      cases count with
      | zero =>
          have some :=
            List.length_pos_iff.mpr (fields_ne_nil isSeparator (c :: text))
          simp [keepFields, fields_nil, some]
      | succ count =>
          rw [keepFields, fields_cons, fields_cons]
          split
          · next separates => simp [ih]
          · next inside =>
              rw [ih]
              cases whole : fields isSeparator text with
              | nil => exact absurd whole (fields_ne_nil _ _)
              | cons field rest => simp

end Text

namespace Line

theorem number_of_ofNumbered? {number : Nat} {text : List Char} {line : Line}
    (made : ofNumbered? number text = some line) : line.number = number := by
  unfold ofNumbered? at made
  dsimp only at made
  split at made
  · cases made
  · cases made
    rfl

/-- The lines with code among consecutive ones, the first of which has the
number `start + 1`. -/
def numbered (start : Nat) (texts : List (List Char)) : List Line :=
  (texts.zipIdx start).filterMap fun (text, index) =>
    ofNumbered? (index + 1) text

/-- The rows of a script, whether or not there is code on them. -/
def rows (source : String) : List (List Char) :=
  Text.fields (· == '\n') source.toList

theorem ofSource_eq_numbered (source : String) :
    ofSource source = numbered 0 (rows source) :=
  rfl

theorem numbered_cons (start : Nat) (text : List Char)
    (texts : List (List Char)) :
    numbered start (text :: texts) =
      (ofNumbered? (start + 1) text).toList ++ numbered (start + 1) texts := by
  rw [numbered, List.zipIdx_cons, List.filterMap_cons]
  dsimp only
  cases ofNumbered? (start + 1) text <;> rfl

theorem lt_number_of_mem_numbered {start : Nat} {texts : List (List Char)}
    {line : Line} (member : line ∈ numbered start texts) :
    start < line.number := by
  induction texts generalizing start with
  | nil => cases member
  | cons text texts ih =>
      rw [numbered_cons] at member
      rcases List.mem_append.mp member with here | later
      · rw [number_of_ofNumbered? (Option.mem_toList.mp here)]
        omega
      · have := ih later
        omega

theorem pairwise_number_numbered (start : Nat) (texts : List (List Char)) :
    (numbered start texts).Pairwise (·.number < ·.number) := by
  induction texts generalizing start with
  | nil => exact .nil
  | cons text texts ih =>
      rw [numbered_cons]
      refine List.pairwise_append.mpr ⟨?_, ih _, ?_⟩
      · cases ofNumbered? (start + 1) text <;> simp
      · intro first here later member
        rw [number_of_ofNumbered? (Option.mem_toList.mp here)]
        exact lt_number_of_mem_numbered member

/-- The numbers of the lines increase. -/
theorem pairwise_number_ofSource (source : String) :
    (ofSource source).Pairwise (·.number < ·.number) :=
  pairwise_number_numbered 0 _

theorem numbered_append (start : Nat) (texts more : List (List Char)) :
    numbered start (texts ++ more) =
      numbered start texts ++ numbered (start + texts.length) more := by
  rw [numbered, List.zipIdx_append, List.filterMap_append]
  rfl

theorem numbered_take (start count : Nat) (texts : List (List Char)) :
    numbered start (texts.take count) =
      (numbered start texts).filter fun line =>
        line.number ≤ start + count := by
  induction texts generalizing start count with
  | nil => simp [numbered]
  | cons text texts ih =>
      cases count with
      | zero =>
          have beyond :
              ∀ line ∈ numbered start (text :: texts),
                ¬line.number ≤ start + 0 := by
            intro line member
            have := lt_number_of_mem_numbered member
            omega
          exact (List.filter_eq_nil_iff.mpr (by simpa using beyond)).symm
      | succ count =>
          rw [List.take_succ_cons, numbered_cons, numbered_cons,
            List.filter_append, ih,
            show start + 1 + count = start + (count + 1) by omega]
          congr 1
          cases made : ofNumbered? (start + 1) text with
          | none => rfl
          | some line => simp [number_of_ofNumbered? made]

/-- The script cut just before the line with the given number. -/
def cutBefore (number : Nat) (source : String) : String :=
  String.ofList (Text.keepFields (· == '\n') (number - 1) source.toList)

theorem ofSource_cutBefore_eq_numbered (number : Nat) (source : String) :
    ofSource (cutBefore number source) =
      numbered 0
        ((Text.fields (· == '\n') source.toList).take (number - 1)) := by
  have empty (start : Nat) : numbered start [[]] = [] := rfl
  change numbered 0 (Text.fields _ (cutBefore number source).toList) = _
  rw [cutBefore, String.toList_ofList, Text.fields_keepFields, numbered_append]
  split
  · rw [empty, List.append_nil]
  · exact List.append_nil _

/-- Cutting before a line leaves the lines with smaller numbers. -/
theorem ofSource_cutBefore {source : String} {before after : List Line}
    {line : Line} (lines : ofSource source = before ++ line :: after) :
    ofSource (cutBefore line.number source) = before := by
  have counted : 0 < line.number := by
    have member : line ∈ ofSource source := by simp [lines]
    exact lt_number_of_mem_numbered member
  have increasing := pairwise_number_ofSource source
  rw [lines, List.pairwise_append, List.pairwise_cons] at increasing
  obtain ⟨_, ⟨lineAfter, _⟩, beforeLine⟩ := increasing
  have kept : ∀ other ∈ before, other.number ≤ 0 + (line.number - 1) := by
    intro other member
    have := beforeLine other member line List.mem_cons_self
    omega
  have dropped :
      ∀ other ∈ line :: after, ¬other.number ≤ 0 + (line.number - 1) := by
    refine List.forall_mem_cons.mpr ⟨by omega, fun other member => ?_⟩
    have := lineAfter other member
    omega
  have all :
      numbered 0 (Text.fields (· == '\n') source.toList) =
        before ++ line :: after := lines
  rw [ofSource_cutBefore_eq_numbered, numbered_take, all, List.filter_append,
    List.filter_eq_self.mpr (by simpa using kept),
    List.filter_eq_nil_iff.mpr (by simpa using dropped), List.append_nil]

/-- Cutting behind the last line leaves all lines. -/
theorem ofSource_cutBefore_end (source : String) :
    ofSource
      (cutBefore ((Text.fields (· == '\n') source.toList).length + 1) source) =
      ofSource source := by
  rw [ofSource_cutBefore_eq_numbered, Nat.add_sub_cancel, List.take_length]
  rfl

end Line

/-! ### Faults of a line -/

theorem ValueFault.category_ne_structural (fault : ValueFault) :
    fault.code.category ≠ .structural := by
  cases fault <;> simp [code, Fault.Code.category]

theorem Fault.OfLine.category_ne_structural {fault : Fault}
    (ofLine : fault.OfLine) :
    fault.code.category ≠ .structural := by
  cases fault with
  | value fault => exact fault.category_ne_structural
  | name fault => cases fault <;> simp [code, NameFault.code, Code.category]
  | statement fault =>
      cases fault with
      | parameter position cause => exact cause.category_ne_structural
      | _ => simp [code, StatementFault.code, Code.category]
  | block => cases ofLine
  | run => cases ofLine

namespace Command

theorem ofLine_of_ok {line : Line} {store final : Store} {command : Command}
    (read : ofText line.text store = .ok command final) :
    ofLine line store = .ok command final :=
  adaptExcept_of_ok _ read

theorem ofLine_of_error {line : Line} {store final : Store} {fault : Fault}
    (unread : ofText line.text store = .error fault final) :
    ofLine line store = .error (fault.at line.number "") final :=
  adaptExcept_of_error _ unread

theorem ofText_of_ofLine {line : Line} {store final : Store} {command : Command}
    (read : ofLine line store = .ok command final) :
    ofText line.text store = .ok command final := by
  cases outcome : ofText line.text store with
  | ok other middle =>
      cases read.symm.trans (ofLine_of_ok outcome)
      rfl
  | error fault middle => cases read.symm.trans (ofLine_of_error outcome)

theorem ofText_of_ofLine_error {line : Line} {store final : Store}
    {failure : Failure} (failed : ofLine line store = .error failure final) :
    ∃ fault, ofText line.text store = .error fault final ∧
      failure = fault.at line.number "" :=
  (adaptExcept_eq_error_iff _).mp failed

/-- A line that cannot be read fails at its own number, and not because of its
place in blocks. -/
theorem ofLine_eq_error {line : Line} {store final : Store} {failure : Failure}
    (failed : ofLine line store = .error failure final) :
    failure.line = line.number ∧ failure.code.category ≠ .structural := by
  obtain ⟨fault, unread, rfl⟩ := ofText_of_ofLine_error failed
  have ofLine := (answers_ofText line.text store).2 fault final unread
  exact ⟨rfl, ofLine.category_ne_structural⟩

end Command

end PenScript
