import Mathlib.Data.List.SplitBy
import PenScript.Proofs.Lines
import PenScript.Proofs.Spelling

/-!
# Tokens and their text

The text of tokens, with blanks between them, has these tokens again.  What a
minus sign means depends on the token before it, so this is shown for the rows
of tokens that a text can have, and for the parts into which the parameters of a
line cut such a row.
-/

namespace PenScript

namespace Text

theorem trim_of_ends {text : List Char} (start : text.head?.any isBlank = false)
    (stop : text.getLast?.any isBlank = false) : trim text = text := by
  have unchanged {text : List Char} (start : text.head?.any isBlank = false) :
      text.dropWhile isBlank = text := by
    cases text with
    | nil => rfl
    | cons c text =>
        rw [List.dropWhile_cons, show isBlank c = false from start]; rfl
  rw [trim, trimStart, unchanged start, trimEnd, unchanged,
    List.reverse_reverse]
  rwa [List.head?_reverse]

theorem getLast?_of_free {text : List Char}
    (free : ∀ c ∈ text, isBlank c = false) :
    text.getLast?.any isBlank = false := by
  cases last : text.getLast? with
  | none => rfl
  | some c => exact free c (List.mem_of_getLast? last)

theorem trim_of_free {text : List Char} (free : ∀ c ∈ text, isBlank c = false) :
    trim text = text := by
  apply trim_of_ends _ (getLast?_of_free free)
  cases text with
  | nil => rfl
  | cons c text => exact (List.forall_mem_cons.mp free).1

end Text

namespace Token

/-! ### Pieces -/

/-- A text without blanks and glyphs. -/
def Free (text : List Char) : Prop :=
  ∀ c ∈ text, Text.isBlank c = false ∧ isGlyph c = false

/-- A piece that is no operator. -/
def Plain (piece : List Char) : Prop :=
  piece ≠ [] ∧ Free piece

/-- A property of all glyphs can be tried on each of them. -/
theorem of_isGlyph (holds : Char → Bool)
    (tried : ['+', '-', '*', '/', '=', '>', '<', '!'].all holds = true)
    {c : Char} (glyph : isGlyph c = true) : holds c = true :=
  List.all_eq_true.mp tried c (List.contains_iff_mem.mp glyph)

theorem isBlank_of_isGlyph {c : Char} (glyph : isGlyph c = true) :
    Text.isBlank c = false := by
  simpa using of_isGlyph (fun c => !Text.isBlank c) rfl glyph

theorem isDigit_of_isGlyph {c : Char} (glyph : isGlyph c = true) :
    c.isDigit = false := by
  simpa using of_isGlyph (fun c => !c.isDigit) rfl glyph

theorem pieces_nil : pieces [] = [] := rfl

/-- A blank stands between pieces. -/
theorem pieces_append_blank {c : Char} (blank : Text.isBlank c = true)
    (first rest : List Char) :
    pieces (first ++ c :: rest) = pieces first ++ pieces rest := by
  have plain : isGlyph c = false := by
    by_contra glyph
    rw [isBlank_of_isGlyph (by simpa using glyph)] at blank
    cases blank
  simp only [pieces, Text.words, List.flatMap_append, List.flatMap_cons, plain]
  rw [if_neg (by simp), List.singleton_append, Text.fields_append blank,
    List.filter_append]

theorem pieces_cons_blank {c : Char} (blank : Text.isBlank c = true)
    (text : List Char) :
    pieces (c :: text) = pieces text :=
  pieces_append_blank blank [] text

/-- A glyph is a piece of its own. -/
theorem pieces_append_glyph {c : Char} (glyph : isGlyph c = true)
    (first rest : List Char) :
    pieces (first ++ c :: rest) = pieces first ++ [c] :: pieces rest := by
  have space : Text.isBlank ' ' = true := rfl
  simp only [pieces, Text.words, List.flatMap_append, List.flatMap_cons, glyph,
    if_true]
  rw [List.cons_append, Text.fields_append space, List.filter_append]
  have alone : ∀ other ∈ [c], Text.isBlank other = false := by
    simpa using isBlank_of_isGlyph glyph
  exact congrArg (_ ++ List.filter _ ·) (Text.fields_append_cons alone space _)

theorem pieces_cons_glyph {c : Char} (glyph : isGlyph c = true)
    (text : List Char) :
    pieces (c :: text) = [c] :: pieces text :=
  pieces_append_glyph glyph [] text

theorem pieces_of_plain {piece : List Char} (plain : Plain piece) :
    pieces piece = [piece] := by
  have same :
      (piece.flatMap fun c => if isGlyph c then [' ', c, ' '] else [c]) =
        piece := by
    rw [List.flatMap_congr (g := fun c => [c]), List.flatMap_singleton']
    intro c member
    rw [(plain.2 c member).2]
    rfl
  rw [pieces, same, Text.words,
    Text.fields_of_free fun c member => (plain.2 c member).1]
  simpa using plain.1

/-- A piece is a glyph, or it is plain. -/
def Piece (piece : List Char) : Prop :=
  Plain piece ∨ ∃ c, isGlyph c = true ∧ piece = [c]

/-- Where each glyph stands between two spaces, the first field has none, and
any other field is a piece or empty. -/
theorem piece_of_mem_fields (text : List Char) :
    ∃ first others, Free first ∧ (∀ field ∈ others, field = [] ∨ Piece field) ∧
      Text.fields Text.isBlank
        (text.flatMap fun c => if isGlyph c then [' ', c, ' '] else [c]) =
        first :: others := by
  induction text with
  | nil => exact ⟨[], [], by simp [Free], by simp, rfl⟩
  | cons c text ih =>
      obtain ⟨first, others, free, rest, fields⟩ := ih
      have firstField : first = [] ∨ Piece first :=
        (eq_or_ne first []).imp_right fun some => .inl ⟨some, free⟩
      have fieldsRest : ∀ field ∈ first :: others, field = [] ∨ Piece field :=
        List.forall_mem_cons.mpr ⟨firstField, rest⟩
      rw [List.flatMap_cons]
      by_cases glyph : isGlyph c = true
      · refine ⟨[], [c] :: first :: others, by simp [Free], ?_, ?_⟩
        · exact List.forall_mem_cons.mpr
            ⟨.inr (.inr ⟨c, glyph, rfl⟩), fieldsRest⟩
        · have space : Text.isBlank ' ' = true := rfl
          simp [glyph, Text.fields_cons, space, isBlank_of_isGlyph glyph,
            fields]
      · rw [if_neg glyph, List.singleton_append, Text.fields_cons, fields]
        split
        · exact ⟨[], first :: others, by simp [Free], fieldsRest, rfl⟩
        · next inside =>
            refine ⟨c :: first, others, ?_, rest, rfl⟩
            exact List.forall_mem_cons.mpr
              ⟨⟨by simpa using inside, by simpa using glyph⟩, free⟩

theorem piece_of_mem_pieces {text piece : List Char}
    (member : piece ∈ pieces text) :
    Piece piece := by
  obtain ⟨first, others, free, rest, fields⟩ := piece_of_mem_fields text
  rw [pieces, Text.words, fields, List.mem_filter] at member
  have some : piece ≠ [] := by simpa using member.2
  rcases List.mem_cons.mp member.1 with rfl | later
  · exact .inl ⟨some, free⟩
  · exact (rest piece later).resolve_left some

/-- The blanks at the ends of a text do not matter. -/
theorem pieces_trim (text : List Char) :
    pieces (Text.trim text) = pieces text := by
  have atStart (text : List Char) :
      pieces (Text.trimStart text) = pieces text := by
    induction text with
    | nil => rfl
    | cons c text ih =>
        rw [Text.trimStart, List.dropWhile_cons]
        split
        · next blank => rw [pieces_cons_blank blank, ← ih, Text.trimStart]
        · rfl
  have atEnd (text : List Char) : pieces (Text.trimEnd text) = pieces text := by
    induction text using List.reverseRecOn with
    | nil => rfl
    | append_singleton text c ih =>
        rw [Text.trimEnd, List.reverse_append, List.reverse_singleton,
          List.singleton_append, List.dropWhile_cons]
        split
        · next blank =>
            rw [pieces_append_blank blank, pieces_nil, List.append_nil, ← ih,
              Text.trimEnd]
        · rw [List.reverse_cons, List.reverse_reverse]
  rw [Text.trim, atEnd, atStart]

theorem scan_trim (text : List Char) : scan (Text.trim text) = scan text := by
  rw [scan, pieces_trim, scan]

/-! ### Rows of tokens -/

/-- A word that can stand in a row of tokens: a plain one, or a number with its
sign where an operand is due. -/
def WordAt (operandDue : Bool) (text : List Char) : Prop :=
  Plain text ∨
    operandDue = true ∧
      ∃ number, text = '-' :: number ∧ Plain number ∧
        startsWithDigit number = true

/-- A row of tokens that a text can have.  Where an operand is due, a minus sign
stands by itself only if no number follows. -/
def Row : Bool → List Token → Prop
  | _, [] => True
  | operandDue, .operator op :: rest =>
      (operandDue = true → op = .arithmetic .subtract →
        ∀ text others, rest = .word text :: others →
          startsWithDigit text = false) ∧
      Row true rest
  | operandDue, .word text :: rest => WordAt operandDue text ∧ Row false rest

theorem plain_of_startsWithDigit {piece : List Char} (isPiece : Piece piece)
    (digit : startsWithDigit piece = true) : Plain piece := by
  rcases isPiece with plain | ⟨c, glyph, rfl⟩
  · exact plain
  · have same : startsWithDigit [c] = c.isDigit := rfl
    rw [same, isDigit_of_isGlyph glyph] at digit
    cases digit

theorem eq_exclamation_of_ofSymbol? {c : Char} (glyph : isGlyph c = true)
    (unknown : Operator.ofSymbol? [c] = none) : c = '!' := by
  have tried :=
    of_isGlyph (fun c => (Operator.ofSymbol? [c]).isSome || c == '!') rfl glyph
  simpa [unknown] using tried

theorem eq_of_ofSymbol?_subtract {piece : List Char}
    (known : Operator.ofSymbol? piece = some (.arithmetic .subtract)) :
    piece = ['-'] := by
  unfold Operator.ofSymbol? at known
  split at known <;> first | rfl | cases known

/-- The first word starts with a digit only if the first piece does. -/
theorem startsWithDigit_of_ofPieces {operandDue : Bool} {piece text : List Char}
    {rest : List (List Char)} {others : List Token}
    (first : ofPieces operandDue (piece :: rest) = .word text :: others)
    (digit : startsWithDigit text = true) : startsWithDigit piece = true := by
  unfold ofPieces at first
  split at first
  · split at first <;> cases first
  · split at first
    · split at first
      · cases first
      · split at first
        · cases first
          cases digit
        · cases first
    · split at first
      · cases first
      · cases first
        exact digit

theorem row_ofPieces (operandDue : Bool) {row : List (List Char)}
    (isPiece : ∀ piece ∈ row, Piece piece) :
    Row operandDue (ofPieces operandDue row) := by
  fun_induction ofPieces operandDue row with
  | case1 => trivial
  | case2 operandDue rest ih =>
      simp only [List.forall_mem_cons] at isPiece
      exact ⟨fun _ minus => (by cases minus), ih isPiece.2.2⟩
  | case3 operandDue rest _ ih =>
      exact ⟨fun _ minus => (by cases minus),
        ih (List.forall_mem_cons.mp isPiece).2⟩
  | case4 => exact ⟨fun _ _ _ _ next => (by cases next), trivial⟩
  | case5 operandDue sign _ due next others digit ih =>
      simp only [List.forall_mem_cons] at isPiece
      have plain := plain_of_startsWithDigit isPiece.2.1 digit
      exact ⟨.inr ⟨(Bool.and_eq_true_iff.mp due).1, next, rfl, plain, digit⟩,
        ih isPiece.2.2⟩
  | case6 operandDue sign _ due next others noDigit ih =>
      refine ⟨fun _ _ text rest first => ?_,
        ih (List.forall_mem_cons.mp isPiece).2⟩
      by_contra digit
      exact noDigit (startsWithDigit_of_ofPieces first (by simpa using digit))
  | case7 operandDue piece others _ notMinus op known ih =>
      refine ⟨fun due minus => ?_, ih (List.forall_mem_cons.mp isPiece).2⟩
      rw [minus] at known
      rw [due, eq_of_ofSymbol?_subtract known] at notMinus
      exact absurd rfl notMinus
  | case8 operandDue piece others notExclamation _ unknown ih =>
      obtain ⟨here, later⟩ := List.forall_mem_cons.mp isPiece
      refine ⟨.inl (here.resolve_right ?_), ih later⟩
      rintro ⟨c, glyph, rfl⟩
      rw [eq_exclamation_of_ofSymbol? glyph unknown] at notExclamation
      exact notExclamation rfl

theorem row_scan (text : List Char) : Row true (scan text) :=
  row_ofPieces true fun _ member => piece_of_mem_pieces member

/-! ### Reading tokens again -/

section Equations

variable {operandDue : Bool} (rest : List (List Char))

theorem ofPieces_plain {piece : List Char} (plain : Plain piece) :
    ofPieces operandDue (piece :: rest) =
      .word piece :: ofPieces false rest := by
  have glyphless {c : Char} (glyph : isGlyph c = true) (others : List Char) :
      piece ≠ c :: others := by
    rintro rfl
    rw [(plain.2 c List.mem_cons_self).2] at glyph
    cases glyph
  have unknown : Operator.ofSymbol? piece = none := by
    unfold Operator.ofSymbol?
    split <;> first | rfl | exact absurd rfl (glyphless rfl _)
  have notMinus : piece ≠ ['-'] := glyphless rfl []
  have binary : ¬(operandDue && decide (piece = ['-'])) = true := by
    simp [notMinus]
  conv => lhs; unfold ofPieces
  rw [if_neg (glyphless rfl []), if_neg binary, unknown]

theorem ofPieces_signed {number : List Char}
    (digit : startsWithDigit number = true) :
    ofPieces true (['-'] :: number :: rest) =
      .word ('-' :: number) :: ofPieces false rest := by
  conv => lhs; unfold ofPieces
  rw [if_neg (by decide), if_pos (by decide)]
  exact if_pos digit

theorem ofPieces_minus {rest : List (List Char)}
    (numberless : ∀ next others, rest = next :: others →
      startsWithDigit next = false) :
    ofPieces true (['-'] :: rest) = .operator (.arithmetic .subtract) ::
      ofPieces true rest := by
  cases rest with
  | nil => rfl
  | cons next others =>
      have noDigit : ¬startsWithDigit next = true := by
        simp [numberless next others rfl]
      conv => lhs; unfold ofPieces
      rw [if_neg (by decide), if_pos (by decide)]
      exact if_neg noDigit

theorem ofPieces_notEqual :
    ofPieces operandDue (['!'] :: ['='] :: rest) =
      .operator (.comparison .notEqual) :: ofPieces true rest := by
  rw [ofPieces, if_pos rfl]

theorem ofPieces_symbol {c : Char} {op : Operator}
    (known : Operator.ofSymbol? [c] = some op)
    (binary : operandDue = true → c ≠ '-') :
    ofPieces operandDue ([c] :: rest) = .operator op :: ofPieces true rest := by
  have notExclamation : [c] ≠ ['!'] := by
    rintro ⟨⟩
    cases known
  have notUnary : ¬(operandDue && decide ([c] = ['-'])) = true := by
    simpa using binary
  conv => lhs; unfold ofPieces
  rw [if_neg notExclamation, if_neg notUnary, known]

end Equations

/-- An operator is written with one glyph, or it is the one that is written with
two. -/
theorem pieces_operator (op : Operator) :
    op = .comparison .notEqual ∧ pieces op.symbol.toList = [['!'], ['=']] ∨
      ∃ c, isGlyph c = true ∧ pieces op.symbol.toList = [[c]] ∧
        Operator.ofSymbol? [c] = some op := by
  rcases op with (_ | _ | _ | _) | (_ | _ | _ | _)
  · exact .inr ⟨'+', rfl, rfl, rfl⟩
  · exact .inr ⟨'-', rfl, rfl, rfl⟩
  · exact .inr ⟨'*', rfl, rfl, rfl⟩
  · exact .inr ⟨'/', rfl, rfl, rfl⟩
  · exact .inr ⟨'>', rfl, rfl, rfl⟩
  · exact .inr ⟨'<', rfl, rfl, rfl⟩
  · exact .inr ⟨'=', rfl, rfl, rfl⟩
  · exact .inl ⟨rfl, rfl⟩

theorem pieces_signed {number : List Char} (plain : Plain number) :
    pieces ('-' :: number) = [['-'], number] := by
  rw [pieces_cons_glyph rfl, pieces_of_plain plain]

/-- The first piece of a row starts with a digit only if the row starts with
such a word. -/
theorem numberless_of_row {operandDue : Bool} {tokens : List Token}
    (row : Row operandDue tokens)
    (numberless : ∀ text others, tokens = .word text :: others →
      startsWithDigit text = false) {next : List Char}
    {others : List (List Char)}
    (first : (tokens.flatMap fun token => pieces token.text) = next :: others) :
    startsWithDigit next = false := by
  cases tokens with
  | nil => cases first
  | cons token rest =>
      rw [List.flatMap_cons] at first
      cases token with
      | operator op =>
          have noDigit {c : Char} (glyph : isGlyph c = true) :
              startsWithDigit [c] = false :=
            isDigit_of_isGlyph glyph
          rcases pieces_operator op with ⟨rfl, spelled⟩ | ⟨c, glyph, spelled, _⟩
          · cases first
            exact noDigit rfl
          · rw [text, spelled] at first
            cases first
            exact noDigit glyph
      | word text =>
          rcases row.1 with plain | ⟨_, number, rfl, plain, _⟩
          · rw [Token.text, pieces_of_plain plain] at first
            cases first
            exact numberless next rest rfl
          · rw [Token.text, pieces_signed plain] at first
            cases first
            rfl

/-- The pieces of a row of tokens make up the same tokens. -/
theorem ofPieces_of_row {operandDue : Bool} {tokens : List Token}
    (row : Row operandDue tokens) :
    ofPieces operandDue (tokens.flatMap fun token => pieces token.text) =
      tokens := by
  induction tokens generalizing operandDue with
  | nil => rfl
  | cons token rest ih =>
      rw [List.flatMap_cons]
      cases token with
      | word text =>
          obtain ⟨word, later⟩ := row
          rcases word with plain | ⟨rfl, number, rfl, plain, digit⟩
          · rw [Token.text, pieces_of_plain plain, List.singleton_append,
              ofPieces_plain _ plain, ih later]
          · rw [Token.text, pieces_signed plain, List.cons_append,
              List.singleton_append, ofPieces_signed _ digit, ih later]
      | operator op =>
          obtain ⟨minus, later⟩ := row
          rw [Token.text]
          rcases pieces_operator op with ⟨rfl, spelled⟩ | ⟨c, _, spelled, known⟩
          · rw [spelled, List.cons_append, List.singleton_append,
              ofPieces_notEqual, ih later]
          · rw [spelled, List.singleton_append]
            by_cases unary : operandDue = true ∧ c = '-'
            · obtain ⟨rfl, rfl⟩ := unary
              cases known
              rw [ofPieces_minus, ih later]
              intro next others first
              exact numberless_of_row later (minus rfl rfl) first
            · rw [ofPieces_symbol _ known fun due isMinus =>
                unary ⟨due, isMinus⟩, ih later]

theorem join_singleton (token : Token) : join [token] = token.text := by
  simp [join]

theorem join_cons_cons (first second : Token) (rest : List Token) :
    join (first :: second :: rest) =
      first.text ++ ' ' :: join (second :: rest) := by
  simp [join, List.intercalate_cons_cons]

theorem pieces_join (tokens : List Token) :
    pieces (join tokens) = tokens.flatMap fun token => pieces token.text := by
  induction tokens with
  | nil => rfl
  | cons first rest ih =>
      rw [List.flatMap_cons, ← ih]
      cases rest with
      | nil => simp [join, pieces_nil]
      | cons second others => rw [join_cons_cons, pieces_append_blank rfl]

/-- A row of tokens can be read again from its text. -/
theorem scan_join {tokens : List Token} (row : Row true tokens) :
    scan (join tokens) = tokens := by
  rw [scan, pieces_join, ofPieces_of_row row]

/-! ### Parts of a row -/

theorem Row.after {operandDue : Bool} {before rest : List Token} {token : Token}
    (row : Row operandDue (before ++ token :: rest)) :
    Row token.isOperator rest := by
  induction before generalizing operandDue with
  | nil => cases token <;> exact row.2
  | cons first before ih => cases first <;> exact ih row.2

theorem Row.start {operandDue : Bool} {first rest : List Token}
    (row : Row operandDue (first ++ rest)) : Row operandDue first := by
  induction first generalizing operandDue with
  | nil => trivial
  | cons token first ih =>
      cases token with
      | word text => exact ⟨row.1, ih row.2⟩
      | operator op =>
          refine ⟨fun due minus text others split => ?_, ih row.2⟩
          exact row.1 due minus text (others ++ rest)
            (congrArg (· ++ rest) split)

/-- Only a row that starts with a minus sign depends on what stands before
it. -/
theorem Row.of_word {token : Token} {rest : List Token}
    (word : token.isOperator = false) (row : Row false (token :: rest)) :
    Row true (token :: rest) := by
  cases token with
  | operator op => cases word
  | word text =>
      refine ⟨.inl (row.1.resolve_right ?_), row.2⟩
      rintro ⟨due, _⟩
      cases due

theorem scan_join_scan (text : List Char) :
    scan (join (scan text)) = scan text :=
  scan_join (row_scan text)

/-- What follows an operator can be read by itself. -/
theorem scan_join_after {text : List Char} {before value : List Token}
    {op : Operator} (split : scan text = before ++ .operator op :: value) :
    scan (join value) = value := by
  have row := row_scan text
  rw [split] at row
  exact scan_join row.after

/-! ### Words -/

theorem wordAt_of_mem {operandDue : Bool} {tokens : List Token}
    (row : Row operandDue tokens) {text : List Char}
    (member : .word text ∈ tokens) : WordAt true text := by
  induction tokens generalizing operandDue with
  | nil => cases member
  | cons token rest ih =>
      rcases List.mem_cons.mp member with rfl | later
      · exact row.1.imp_right fun signed => ⟨rfl, signed.2⟩
      · cases token <;> exact ih row.2 later

theorem wordAt_of_mem_scan {source text : List Char}
    (member : .word text ∈ scan source) :
    WordAt true text :=
  wordAt_of_mem (row_scan source) member

/-- The text of a word is this one word. -/
theorem scan_of_wordAt {text : List Char} (word : WordAt true text) :
    scan text = [.word text] := by
  have again := scan_join (show Row true [.word text] from ⟨word, trivial⟩)
  rw [join_singleton] at again
  exact again

theorem isBlank_of_wordAt {operandDue : Bool} {text : List Char}
    (word : WordAt operandDue text) :
    ∀ c ∈ text, Text.isBlank c = false := by
  rcases word with plain | ⟨_, number, rfl, plain, _⟩
  · exact fun c member => (plain.2 c member).1
  · exact List.forall_mem_cons.mpr ⟨rfl, fun c member => (plain.2 c member).1⟩

/-! ### Parameters -/

/-- Rows that are cut where two words meet. -/
def Cut (rows : List (List Token)) : Prop :=
  rows.IsChain fun left right =>
    ∃ some some', (left.getLast some).isOperator = false ∧
      (right.head some').isOperator = false

theorem cut_expressions (tokens : List Token) : Cut (expressions tokens) := by
  apply (List.isChain_getLast_head_splitBy _ tokens).imp
  rintro left right ⟨some, some', apart⟩
  exact ⟨some, some', Bool.or_eq_false_iff.mp apart⟩

/-- On both sides of a cut stands a word. -/
theorem words_at_cut {parts others : List (List Token)}
    (cut : Cut (parts ++ others)) {before after : List Token}
    {left right : Token} (first : parts.flatten = before ++ [left])
    (second : others.flatten = right :: after) :
    left.isOperator = false ∧ right.isOperator = false := by
  rcases List.eq_nil_or_concat' parts with rfl | ⟨earlier, part, rfl⟩
  · simp at first
  · cases others with
    | nil => cases second
    | cons other later =>
        have joint :=
          (List.isChain_append.mp cut).2.2 part (by simp) other (by simp)
        obtain ⟨some, some', leftWord, rightWord⟩ := joint
        rw [List.flatten_append, List.flatten_singleton,
          ← List.dropLast_append_getLast some, ← List.append_assoc,
          List.append_singleton_inj] at first
        rw [List.flatten_cons, ← List.cons_head_tail some', List.cons_append]
            at second
        rw [first.2] at leftWord
        rw [(List.cons.inj second).1] at rightWord
        exact ⟨leftWord, rightWord⟩

/-- Each part of a row that is cut where two words meet is a row. -/
theorem row_of_cut {rows : List (List Token)} (cut : Cut rows)
    (row : Row true rows.flatten) :
    ∀ part ∈ rows, Row true part := by
  induction rows with
  | nil => simp
  | cons first rest ih =>
      rw [List.flatten_cons] at row
      refine List.forall_mem_cons.mpr ⟨row.start, ih cut.tail ?_⟩
      cases rest with
      | nil => trivial
      | cons second others =>
          obtain ⟨some, some', left, right⟩ := (List.isChain_cons_cons.mp cut).1
          rw [← List.dropLast_append_getLast some, List.append_assoc,
            List.singleton_append] at row
          have behind := row.after
          rw [left, List.flatten_cons, ← List.cons_head_tail some',
            List.cons_append] at behind
          rw [List.flatten_cons, ← List.cons_head_tail some', List.cons_append]
          exact behind.of_word right

/-- The parameters between two commas. -/
def segmentParameters (segment : List Char) : List (List Char) :=
  match expressions (scan segment) with
  | [] => [[]]
  | found => found.map join

theorem parameters_eq {text : List Char} (some : text ≠ []) :
    parameters text = (Text.fields (· == ',') text).flatMap
      segmentParameters := by
  rw [parameters, if_neg (by simpa using some)]
  rfl

theorem scan_join_of_mem_expressions {segment : List Char} {part : List Token}
    (member : part ∈ expressions (scan segment)) : scan (join part) = part := by
  apply scan_join
  apply row_of_cut (cut_expressions (scan segment)) _ part member
  rw [expressions, List.flatten_splitBy]
  exact row_scan segment

theorem flatMap_scan_map_join {segment : List Char} {parts : List (List Token)}
    (found : parts ⊆ expressions (scan segment)) :
    (parts.map join).flatMap scan = parts.flatten := by
  rw [List.flatMap_map, List.flatten_eq_flatMap]
  apply List.flatMap_congr
  intro part member
  exact scan_join_of_mem_expressions (found member)

/-- The parameters are cut between these tokens. -/
def CutBetween (row : List (List Char)) (before after : List Token) : Prop :=
  ∃ first second, row = first ++ second ∧ first.flatMap scan = before ∧
    second.flatMap scan = after

/-- The segment falls into parameters: their tokens are those of the segment,
and two neighbours are in different parameters if neither of them is an
operator. -/
structure FallsInto (segment : List Char) (row : List (List Char)) : Prop where
  tokens : row.flatMap scan = scan segment
  cuts : ∀ before left right after,
    scan segment = before ++ left :: right :: after →
    (CutBetween row (before ++ [left]) (right :: after) ↔
      left.isOperator = false ∧ right.isOperator = false)

theorem fallsInto_of_scan_eq_nil {segment : List Char}
    (empty : scan segment = []) {row : List (List Char)}
    (blank : row.flatMap scan = []) : FallsInto segment row where
  tokens := blank.trans empty.symm
  cuts := by
    intro before left right after split
    rw [empty] at split
    simp at split

theorem fallsInto_map_join (segment : List Char) :
    FallsInto segment ((expressions (scan segment)).map join) where
  tokens := by
    rw [flatMap_scan_map_join (List.Subset.refl _), expressions,
      List.flatten_splitBy]
  cuts := by
    intro before left right after split
    constructor
    · rintro ⟨first, second, row, firstTokens, secondTokens⟩
      obtain ⟨parts, others, divided, rfl, rfl⟩ := List.map_eq_append_iff.mp row
      have cut := cut_expressions (scan segment)
      rw [divided] at cut
      rw [flatMap_scan_map_join (divided ▸ List.subset_append_left _ _)]
          at firstTokens
      rw [flatMap_scan_map_join (divided ▸ List.subset_append_right _ _)]
          at secondTokens
      exact words_at_cut cut firstTokens secondTokens
    · rintro ⟨leftWord, rightWord⟩
      have divided : expressions (scan segment) =
          expressions (before ++ [left]) ++ expressions (right :: after) := by
        rw [split, ← List.singleton_append, ← List.append_assoc]
        apply List.splitBy_append_cons
        simp [leftWord, rightWord]
      refine ⟨(expressions (before ++ [left])).map join,
        (expressions (right :: after)).map join, ?_, ?_, ?_⟩
      · rw [divided, List.map_append]
      · rw [flatMap_scan_map_join (divided ▸ List.subset_append_left _ _),
          expressions, List.flatten_splitBy]
      · rw [flatMap_scan_map_join (divided ▸ List.subset_append_right _ _),
          expressions, List.flatten_splitBy]

theorem fallsInto_segmentParameters (segment : List Char) :
    FallsInto segment (segmentParameters segment) := by
  unfold segmentParameters
  split
  · next nothing =>
      exact fallsInto_of_scan_eq_nil (List.splitBy_eq_nil.mp nothing) rfl
  · exact fallsInto_map_join segment

theorem exists_rows_of_parameters (text : List Char) :
    ∃ rows : List (List (List Char)), rows.flatten = parameters text ∧
      List.Forall₂ FallsInto (Text.fields (· == ',') text) rows := by
  rcases eq_or_ne text [] with rfl | some
  · exact ⟨[[]], rfl, .cons (fallsInto_of_scan_eq_nil rfl rfl) .nil⟩
  · refine ⟨(Text.fields (· == ',') text).map segmentParameters, ?_, ?_⟩
    · rw [parameters_eq some, List.flatMap_def]
    · rw [List.forall₂_map_right_iff]
      exact List.forall₂_same.mpr fun segment _ =>
        fallsInto_segmentParameters segment

theorem flatMap_scan_of_rows {segments : List (List Char)}
    {rows : List (List (List Char))}
    (fall : List.Forall₂ FallsInto segments rows) :
    rows.flatten.flatMap scan = segments.flatMap scan := by
  induction fall with
  | nil => rfl
  | cons falls _ ih =>
      rw [List.flatten_cons, List.flatMap_append, falls.tokens, ih,
        List.flatMap_cons]

/-- Splitting a text into parameters and reading these again loses nothing.  The
text of tokens has these tokens again, so has what follows an operator among
them, and blanks at the ends do not matter.  The parameters of a text have the
tokens of its segments between the commas, in order; inside a segment two
neighbours are in different parameters exactly if neither is an operator. -/
theorem tokens_of_parameters :
    (∀ text, scan (join (scan text)) = scan text) ∧
    (∀ text before op value, scan text = before ++ .operator op :: value →
      scan (join value) = value) ∧
    (∀ text, scan (Text.trim text) = scan text) ∧
    ∀ text,
      (parameters text).flatMap scan =
        (Text.fields (· == ',') text).flatMap scan ∧
      ∃ rows : List (List (List Char)), rows.flatten = parameters text ∧
        List.Forall₂ FallsInto (Text.fields (· == ',') text) rows := by
  refine ⟨scan_join_scan, fun _ _ _ _ => scan_join_after, scan_trim,
    fun text => ?_⟩
  obtain ⟨rows, flat, fall⟩ := exists_rows_of_parameters text
  refine ⟨?_, rows, flat, fall⟩
  rw [← flat, flatMap_scan_of_rows fall]

end Token

end PenScript
