import Mathlib.Data.List.SplitBy
import PenScript.Line
import PenScript.Name

/-!
# The spelling of names

A line is put into lower case before anything is read from it, and reading only
ever takes characters out of it or adds operators and blanks.  So no capital
letter of ASCII is left in a name, which is then of the form `[a-z_][a-z0-9_]*`.
-/

namespace PenScript

namespace Text

/-- A text without capital letters of ASCII. -/
def Lowercase (text : List Char) : Prop :=
  ∀ c ∈ text, c.isUpper = false

instance (text : List Char) : Decidable (Lowercase text) :=
  decidable_of_iff ((text.all fun c => !c.isUpper) = true) (by simp [Lowercase])

theorem isUpper_eq_false_iff {c : Char} :
    c.isUpper = false ↔ c.toNat < 65 ∨ 90 < c.toNat := by
  have range : c.isUpper = decide (c.val ≥ 'A'.val ∧ c.val ≤ 'Z'.val) := rfl
  rw [range, decide_eq_false_iff_not]
  simp only [not_and_or, ge_iff_le, UInt32.le_iff_toNat_le, not_le]
  rfl

theorem Lowercase.of_subset {part text : List Char} (lower : Lowercase text)
    (subset : part ⊆ text) : Lowercase part :=
  fun c member => lower c (subset member)

theorem Lowercase.cons {c : Char} {text : List Char} (first : c.isUpper = false)
    (rest : Lowercase text) : Lowercase (c :: text) := by
  intro other member
  rcases List.mem_cons.mp member with rfl | later
  · exact first
  · exact rest other later

/-! ### Lower case -/

theorem isUpper_ofNat {code : Nat} (above : 90 < code) :
    (Char.ofNat code).isUpper = false := by
  rw [isUpper_eq_false_iff]
  by_cases valid : code.isValidChar
  · rw [Char.ofNat, dif_pos valid]
    exact .inr above
  · rw [Char.ofNat, dif_neg valid]
    exact .inl (by decide)

/-- No lower-case letter in the table is a capital of ASCII. -/
theorem caseRuns_above : ∀ run ∈ caseRuns, 90 < run.first + run.offset := by
  decide +kernel

theorem lowercase_lowerChar (c : Char) : Lowercase (lowerChar c) := by
  unfold lowerChar
  split
  · next ascii =>
      have checked :
          ∀ code < 128, (Char.ofNat code).toLower.isUpper = false := by
        decide
      have lowered := checked c.toNat ascii
      rw [Char.ofNat_toNat] at lowered
      exact .cons lowered (by simp [Lowercase])
  · next beyond =>
      split
      · decide
      · split
        · next run found =>
            have listed := List.mem_of_find?_eq_some found
            have covered := List.find?_some found
            simp only [CaseRun.covers, Bool.and_eq_true, decide_eq_true_eq]
                at covered
            have above := caseRuns_above run listed
            refine .cons (isUpper_ofNat ?_) (by simp [Lowercase])
            omega
        · exact .cons (isUpper_eq_false_iff.mpr (.inr (by omega)))
            (by simp [Lowercase])

theorem lowercase_lowerFrom (before text : List Char) :
    Lowercase (lowerFrom before text) := by
  induction text generalizing before with
  | nil => simp [lowerFrom, Lowercase]
  | cons c rest ih =>
      intro other member
      rcases List.mem_append.mp member with first | later
      · split at first
        · rw [List.mem_singleton.mp first]
          decide
        · exact lowercase_lowerChar c other first
      · exact ih (c :: before) other later

theorem lowercase_lower (text : List Char) : Lowercase (lower text) :=
  lowercase_lowerFrom [] text

/-! ### Parts of a text -/

theorem trim_subset (text : List Char) : trim text ⊆ text := by
  intro c member
  simp only [trim, trimEnd, List.mem_reverse] at member
  have stripped := (List.dropWhile_suffix _).subset member
  rw [List.mem_reverse] at stripped
  exact (List.dropWhile_suffix _).subset stripped

theorem fields_subset {isSeparator : Char → Bool} {text part : List Char}
    (member : part ∈ fields isSeparator text) : part ⊆ text := by
  induction text generalizing part with
  | nil =>
      rw [List.mem_singleton.mp member]
      exact List.nil_subset _
  | cons c rest ih =>
      change part ∈ (if isSeparator c then [] :: fields isSeparator rest
        else (fields isSeparator rest).modifyHead (c :: ·)) at member
      split at member
      · rcases List.mem_cons.mp member with rfl | later
        · exact List.nil_subset _
        · exact List.subset_cons_of_subset c (ih later)
      · cases parts : fields isSeparator rest with
        | nil => simp [parts] at member
        | cons first others =>
            rw [parts] at ih member
            rcases List.mem_cons.mp member with rfl | later
            · exact List.cons_subset_cons c (ih List.mem_cons_self)
            · exact List.subset_cons_of_subset c
                (ih (List.mem_cons_of_mem _ later))

theorem cut_subset (isSeparator : Char → Bool) (text : List Char) :
    (cut isSeparator text).1 ⊆ text ∧
      ∀ rest, (cut isSeparator text).2 = some rest → rest ⊆ text := by
  refine ⟨(List.takeWhile_prefix _).subset, ?_⟩
  intro rest found
  simp only [cut] at found
  cases dropped : text.dropWhile fun c => !isSeparator c with
  | nil => simp [dropped] at found
  | cons first others =>
      simp only [dropped, List.tail?_cons, Option.some.injEq] at found
      subst found
      have suffix :=
        (List.dropWhile_suffix (l := text) fun c => !isSeparator c).subset
      rw [dropped] at suffix
      exact List.Subset.trans (List.subset_cons_self first others) suffix

end Text

open Text

/-- The code of every line is in lower case. -/
theorem Line.lowercase_of_mem_ofSource {source : String} {line : Line}
    (member : line ∈ ofSource source) : Lowercase line.text := by
  obtain ⟨⟨raw, index⟩, _, found⟩ := List.mem_filterMap.mp member
  dsimp only [ofNumbered?] at found
  split at found
  · cases found
  · cases found
    exact lowercase_lower _

theorem Line.split_rest_subset (text : List Char) :
    (Line.split text).2 ⊆ text := by
  have parts := (cut_subset isBlank text).2
  unfold Line.split
  split
  · next word rest divided =>
      rw [divided] at parts
      exact List.Subset.trans (trim_subset rest) (parts rest rfl)
  · exact List.nil_subset _

namespace Token

theorem lowercase_symbol (op : Operator) : Lowercase op.symbol.toList := by
  rcases op with op | op <;> cases op <;> decide

theorem lowercase_pieces {text piece : List Char} (lower : Lowercase text)
    (member : piece ∈ pieces text) : Lowercase piece := by
  have part := fields_subset (List.mem_of_mem_filter member)
  intro c inside
  obtain ⟨original, found, spread⟩ := List.mem_flatMap.mp (part inside)
  have plain := lower original found
  split at spread
  · simp only [List.mem_cons, List.not_mem_nil, or_false] at spread
    rcases spread with rfl | rfl | rfl
    · decide
    · exact plain
    · decide
  · rw [List.mem_singleton.mp spread]
    exact plain

theorem lowercase_ofPieces (operandDue : Bool) {row : List (List Char)}
    (lower : ∀ piece ∈ row, Lowercase piece) :
    ∀ token ∈ ofPieces operandDue row, Lowercase token.text := by
  fun_induction ofPieces operandDue row with
  | case1 => simp
  | case2 operandDue rest ih =>
      simp only [List.forall_mem_cons] at lower
      exact List.forall_mem_cons.mpr ⟨lowercase_symbol _, ih lower.2.2⟩
  | case3 operandDue rest _ ih =>
      exact List.forall_mem_cons.mpr
        ⟨lowercase_symbol _, ih (List.forall_mem_cons.mp lower).2⟩
  | case4 => exact List.forall_mem_singleton.mpr (lowercase_symbol _)
  | case5 operandDue sign _ _ next others _ ih =>
      simp only [List.forall_mem_cons] at lower
      exact List.forall_mem_cons.mpr ⟨.cons (by decide) lower.2.1, ih lower.2.2⟩
  | case6 operandDue sign _ _ next others _ ih =>
      exact List.forall_mem_cons.mpr
        ⟨lowercase_symbol _, ih (List.forall_mem_cons.mp lower).2⟩
  | case7 operandDue piece others _ _ op _ ih =>
      exact List.forall_mem_cons.mpr
        ⟨lowercase_symbol op, ih (List.forall_mem_cons.mp lower).2⟩
  | case8 operandDue piece others _ _ _ ih =>
      simp only [List.forall_mem_cons] at lower
      exact List.forall_mem_cons.mpr ⟨lower.1, ih lower.2⟩

theorem lowercase_scan {text : List Char} (lower : Lowercase text) :
    ∀ token ∈ scan text, Lowercase token.text :=
  lowercase_ofPieces true fun _ member => lowercase_pieces lower member

theorem lowercase_join {tokens : List Token}
    (lower : ∀ token ∈ tokens, Lowercase token.text) :
    Lowercase (join tokens) := by
  induction tokens with
  | nil => simp [join, Lowercase]
  | cons first rest ih =>
      obtain ⟨lowerFirst, lowerRest⟩ := List.forall_mem_cons.mp lower
      cases rest with
      | nil => simpa [join] using lowerFirst
      | cons second others =>
          have joined : join (first :: second :: others) =
              first.text ++ ' ' :: join (second :: others) := by
            simp [join, List.intercalate_cons_cons]
          rw [joined]
          intro c member
          rcases List.mem_append.mp member with before | after
          · exact lowerFirst c before
          · exact Lowercase.cons (by decide) (ih lowerRest) c after

theorem lowercase_parameters {text : List Char} (lower : Lowercase text) :
    ∀ parameter ∈ parameters text, Lowercase parameter := by
  intro parameter member
  unfold parameters at member
  split at member
  · cases member
  · obtain ⟨segment, segmentMember, inside⟩ := List.mem_flatMap.mp member
    have lowerSegment := lower.of_subset (fields_subset segmentMember)
    split at inside
    · rw [List.mem_singleton.mp inside]
      simp [Lowercase]
    · obtain ⟨row, rowMember, rfl⟩ := List.mem_map.mp inside
      apply lowercase_join
      intro token tokenMember
      apply lowercase_scan lowerSegment
      rw [← List.flatten_splitBy
        (fun left right => left.isOperator || right.isOperator) (scan segment)]
      exact List.mem_flatten.mpr ⟨row, rowMember, tokenMember⟩

end Token

namespace Name

/-- A name in lower case: a letter or underscore, and then letters, digits and
underscores. -/
def isLowerIdentifier : List Char → Bool
  | [] => false
  | first :: rest =>
      (first.isLower || first == '_') && rest.all fun c =>
        c.isLower || c.isDigit || c == '_'

/-- What every name of a variable or procedure satisfies. -/
structure Proper (name : String) : Prop where
  form : isLowerIdentifier name.toList = true
  unreserved : isReserved name = false
  notColor : Color.ofText? name.toList = none

theorem isLowerIdentifier_of_lowercase {text : List Char}
    (lower : Lowercase text) (identifier : isIdentifier text = true) :
    isLowerIdentifier text = true := by
  have letter (c : Char) : c.isAlpha = (c.isUpper || c.isLower) := rfl
  have letterOrDigit (c : Char) : c.isAlphanum = (c.isAlpha || c.isDigit) := rfl
  cases text with
  | nil => cases identifier
  | cons first rest =>
      have lowerFirst := lower first List.mem_cons_self
      simp only [isIdentifier, letter, lowerFirst, Bool.false_or,
        Bool.and_eq_true, List.all_eq_true] at identifier
      simp only [isLowerIdentifier, Bool.and_eq_true, List.all_eq_true]
      refine ⟨identifier.1, fun c member => ?_⟩
      have lowerNext := lower c (List.mem_cons_of_mem _ member)
      simpa only [letterOrDigit, letter, lowerNext, Bool.false_or]
          using identifier.2 c member

/-- A name that is accepted has passed each of the tests. -/
theorem passed_of_check {name : String} (checked : check name = .ok ()) :
    isIdentifier name.toList = true ∧ isReserved name = false ∧
      Color.ofText? name.toList = none := by
  have flawless : flaw? name = none := by
    unfold check at checked
    split at checked
    · cases checked
    · assumption
  unfold flaw? at flawless
  dsimp only at flawless
  split_ifs at flawless with _ _ identifier reserved color
  exact ⟨by simpa using identifier, by simpa using reserved,
    by simpa using color⟩

theorem proper_of_check {name : String} (lower : Lowercase name.toList)
    (checked : check name = .ok ()) : Proper name := by
  obtain ⟨identifier, unreserved, notColor⟩ := passed_of_check checked
  exact ⟨isLowerIdentifier_of_lowercase lower identifier, unreserved, notColor⟩

theorem isIdentifier_of_isLowerIdentifier {text : List Char}
    (identifier : isLowerIdentifier text = true) :
    isIdentifier text = true := by
  have letter (c : Char) : c.isAlpha = (c.isUpper || c.isLower) := rfl
  have letterOrDigit (c : Char) : c.isAlphanum = (c.isAlpha || c.isDigit) := rfl
  cases text with
  | nil => cases identifier
  | cons first rest =>
      simp only [isLowerIdentifier, Bool.and_eq_true, List.all_eq_true]
          at identifier
      simp only [isIdentifier, letterOrDigit, letter, Bool.and_eq_true,
        List.all_eq_true]
      refine ⟨?_, fun c member => ?_⟩
      · rw [Bool.or_assoc, identifier.1, Bool.or_true]
      · rw [Bool.or_assoc, Bool.or_assoc, ← Bool.or_assoc c.isLower,
          identifier.2 c member, Bool.or_true]

/-- A name does not begin with a digit. -/
theorem isDigit_of_isLowerIdentifier {first : Char} {rest : List Char}
    (identifier : isLowerIdentifier (first :: rest) = true) :
    first.isDigit = false := by
  have lower :
      first.isLower =
        (decide ('a'.val ≤ first.val) && decide (first.val ≤ 'z'.val)) := rfl
  have digit :
      first.isDigit =
        (decide ('0'.val ≤ first.val) && decide (first.val ≤ '9'.val)) := rfl
  rcases Bool.or_eq_true_iff.mp
    (Bool.and_eq_true_iff.mp identifier).1 with small | underscore
  · rw [lower, Bool.and_eq_true, decide_eq_true_iff] at small
    have above : '9'.val < first.val :=
      UInt32.lt_of_lt_of_le (by decide) small.1
    rw [digit, decide_eq_false (UInt32.not_le.mpr above), Bool.and_false]
  · rw [beq_iff_eq.mp underscore]
    rfl

theorem check_of_proper {name : String} (proper : Proper name) :
    check name = .ok () := by
  obtain ⟨form, unreserved, notColor⟩ := proper
  have identifier := isIdentifier_of_isLowerIdentifier form
  have flawless : flaw? name = none := by
    unfold flaw?
    cases text : name.toList with
    | nil =>
        rw [text] at form
        cases form
    | cons first rest =>
        rw [text] at form identifier notColor
        have digit := isDigit_of_isLowerIdentifier form
        simp [digit, identifier, unreserved, notColor]
  rw [check, flawless]

end Name

end PenScript
