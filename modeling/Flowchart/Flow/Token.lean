import Flowchart.Source.Diagnostic
import Flowchart.Text.Quoted

/-!
# Tokens of flow text

Flow text is free text between a few marks: arrows, pipes, round and square brackets, quoted strings,
line feeds and comments up to the end of a line. Everything else is words with spaces between them,
and one text token. Behind the last word the spaces are a token of their own, so **every source without
quotes has tokens** and the tokens of a source follow each other without a gap.
-/

namespace Flowchart.Flow

open Text (byteSize isBlank)

/-- A token. The content of a quoted string is decoded. -/
inductive Token where
  | text (content : List Char)
  | quoted (content : List Char)
  | arrow
  | mergeArrow
  | newline
  | pipe
  | openParen
  | closeParen
  | openBracket
  | closeBracket
  | comment
  | blank
  deriving DecidableEq, Repr

namespace Token

/-- The token separates two steps. -/
def isSeparator : Token → Bool
  | arrow | mergeArrow | newline => true
  | _ => false

/-- The token has no meaning. -/
def isTrivia : Token → Bool
  | comment | blank => true
  | _ => false

/-- The token closes a bracket. -/
def isCloser : Token → Bool
  | closeParen | closeBracket => true
  | _ => false

/-- A token as it is quoted in a message. -/
def shown : Token → String
  | text content => s!"`{String.ofList content}`"
  | quoted content => s!"\"{String.ofList content}\""
  | arrow => "`->`"
  | mergeArrow => "`=>`"
  | newline => "newline"
  | pipe => "`|`"
  | openParen => "`(`"
  | closeParen => "`)`"
  | openBracket => "`[`"
  | closeBracket => "`]`"
  | comment => "comment"
  | blank => "whitespace"

end Token

/-! ## Text and strings -/

/-- The marks of one character, with their tokens. -/
def mark? : Char → Option Token
  | '|' => some .pipe
  | '(' => some .openParen
  | ')' => some .closeParen
  | '[' => some .openBracket
  | ']' => some .closeBracket
  | '\n' => some .newline
  | _ => none

/-- A blank that does not end the line. -/
def isSpace (c : Char) : Bool := isBlank c && c ≠ '\n'

/-- The characters at which a word ends, apart from blanks. -/
def wordEnds : List Char := ['|', '(', ')', '[', ']', '"']

/-- A word ends in front of this text: an arrow or a comment starts here, or there is a character that
no word has. -/
def endsWord (cs : List Char) : Bool :=
  ['-', '>'].isPrefixOf cs || ['=', '>'].isPrefixOf cs || ['/', '/'].isPrefixOf cs ||
    cs.head?.any wordEnds.contains || cs.head?.any isBlank

/-- The text up to the end of a word, and what follows it. -/
def splitWord : List Char → List Char × List Char
  | [] => ([], [])
  | c :: cs =>
    if endsWord (c :: cs) then ([], c :: cs)
    else
      let next := splitWord cs
      (c :: next.1, next.2)

/-- A word, of at least one character, and what follows it. -/
def word? (cs : List Char) : Option (List Char × List Char) :=
  let found := splitWord cs
  if found.1.isEmpty then none else some found

/-- At least one space and a word, and what follows them. -/
def spacedWord? (cs : List Char) : Option (List Char × List Char) :=
  if (cs.takeWhile isSpace).isEmpty then none
  else (word? (cs.dropWhile isSpace)).map fun found => (cs.takeWhile isSpace ++ found.1, found.2)

/-- Nothing is lost between a word and what follows it. -/
theorem append_splitWord (cs : List Char) : (splitWord cs).1 ++ (splitWord cs).2 = cs := by
  induction cs with
  | nil => rfl
  | cons c cs ih =>
    unfold splitWord
    split
    · rfl
    · exact congrArg (c :: ·) ih

/-- A word is not empty, and nothing is lost behind it. -/
theorem append_of_word? {cs word rest : List Char} (h : word? cs = some (word, rest)) :
    word ≠ [] ∧ word ++ rest = cs := by
  unfold word? at h
  dsimp only at h
  split at h
  · exact absurd h (by simp)
  · next hne =>
    have hfound : splitWord cs = (word, rest) := Option.some.inj h
    have happend := append_splitWord cs
    rw [hfound] at hne happend
    exact ⟨fun hword => hne (by rw [hword]; rfl), happend⟩

/-- Spaces with a word are not empty, and nothing is lost behind them. -/
theorem append_of_spacedWord? {cs front rest : List Char} (h : spacedWord? cs = some (front, rest)) :
    front ≠ [] ∧ front ++ rest = cs := by
  unfold spacedWord? at h
  split at h
  · exact absurd h (by simp)
  · obtain ⟨found, hword, heq⟩ := Option.map_eq_some_iff.1 h
    obtain ⟨rfl, rfl⟩ : _ = front ∧ _ = rest := Prod.mk.inj heq
    obtain ⟨hne, happend⟩ := append_of_word? hword
    exact ⟨List.append_ne_nil_of_right_ne_nil _ hne,
      by rw [List.append_assoc, happend, List.takeWhile_append_dropWhile]⟩

/-- The words behind a first one, with the spaces in front of each, and what follows them. Spaces
that no word follows are not among them. -/
def moreWords (cs : List Char) : List Char × List Char :=
  match _hfront : spacedWord? cs with
  | none => ([], cs)
  | some (front, rest) =>
    let next := moreWords rest
    (front ++ next.1, next.2)
termination_by cs.length
decreasing_by
  obtain ⟨hne, happend⟩ := append_of_spacedWord? _hfront
  have hpos := List.length_pos_iff.2 hne
  rw [← happend, List.length_append]
  omega

/-- A text: words with spaces between them, without the spaces behind the last one. -/
def text? (cs : List Char) : Option (List Char × List Char) :=
  (word? cs).map fun first =>
    let next := moreWords first.2
    (first.1 ++ next.1, next.2)

/-- Nothing is lost behind the words. -/
theorem append_moreWords (cs : List Char) : (moreWords cs).1 ++ (moreWords cs).2 = cs := by
  fun_induction moreWords cs with
  | case1 => rfl
  | case2 cs front rest h next ih =>
    rw [List.append_assoc, ih]
    exact (append_of_spacedWord? h).2

/-- A text is not empty, and nothing is lost behind it. -/
theorem append_of_text? {cs text rest : List Char} (h : text? cs = some (text, rest)) :
    text ≠ [] ∧ text ++ rest = cs := by
  obtain ⟨⟨word, left⟩, hword, heq⟩ := Option.map_eq_some_iff.1 h
  obtain ⟨rfl, rfl⟩ : _ = text ∧ _ = rest := Prod.mk.inj heq
  obtain ⟨hne, happend⟩ := append_of_word? hword
  exact ⟨List.append_ne_nil_of_left_ne_nil hne _,
    by rw [List.append_assoc, append_moreWords, happend]⟩

/-- What a quoted string comes to, with the text that is left. -/
inductive Literal where
  | closed (content rest : List Char)
  | unterminated (rest : List Char)
  | badEscape (rest : List Char)
  deriving DecidableEq, Repr

namespace Literal

/-- A string with one more character in front. -/
def cons (c : Char) : Literal → Literal
  | closed content rest => closed (c :: content) rest
  | other => other

/-- The character that an escape stands for. -/
def unescape? : Char → Option Char
  | '"' => some '"'
  | '\\' => some '\\'
  | 'n' => some '\n'
  | 't' => some '\t'
  | _ => none

/-- Reads a string behind its opening quote, up to the closing quote, the end of the line or the
backslash of an escape that stands for nothing. -/
def read : List Char → Literal
  | [] => unterminated []
  | '"' :: rest => closed [] rest
  | '\n' :: rest => unterminated ('\n' :: rest)
  | ['\\'] => badEscape ['\\']
  | '\\' :: c :: rest =>
    match unescape? c with
    | some decoded => (read rest).cons decoded
    | none => badEscape ('\\' :: c :: rest)
  | c :: rest => (read rest).cons c

end Literal

/-- What follows a string that is given up: the text behind the next quote or line feed that no
backslash precedes. -/
def skipString : List Char → List Char
  | [] => []
  | '"' :: rest => rest
  | '\n' :: rest => rest
  | '\\' :: _ :: rest => skipString rest
  | _ :: rest => skipString rest

/-! ## Scanning -/

/-- A token or a problem in its place. -/
inductive Lexeme where
  | token (token : Spanned Token)
  | problem (problem : Diagnostic)
  deriving DecidableEq, Repr

namespace Lexeme

/-- A complaint about the text from `start` up to where the scan has stopped, or about one byte where
it has stopped at once. -/
def complaint (code : ErrorCode) (message : String) (help : Option String) (start stop : Nat) :
    Lexeme :=
  problem {
    code := some code
    message
    labels := [.primary (.ofRange start (max stop (start + 1))) code.description]
    help }

/-- The complaint about a string without a closing quote. -/
def unterminatedString (start stop : Nat) : Lexeme :=
  complaint .unterminatedString "unterminated string literal" (some "add closing `\"`") start stop

/-- The complaint about an escape that stands for nothing. -/
def invalidEscape (start stop : Nat) : Lexeme :=
  complaint .invalidEscape "invalid escape sequence"
    (some "valid escapes: `\\\"`, `\\\\`, `\\n`, `\\t`") start stop

/-- The complaint about a character that starts no token. -/
def unexpectedCharacter (pos : Nat) : Lexeme :=
  complaint .unexpectedCharacter "unexpected character" none pos pos

/-- A token of this text. -/
def ofText (pos : Nat) (text : List Char) (token : Token) : Lexeme :=
  .token ⟨token, .ofRange pos (pos + byteSize text)⟩

end Lexeme

/-- The lexeme of a string whose opening quote stands at `pos`, and what follows it. After an
invalid escape the rest of the string is given up, so that its closing quote opens no other. -/
def scanString (pos : Nat) (tail : List Char) : Lexeme × List Char :=
  let reached (rest : List Char) := pos + 1 + (byteSize tail - byteSize rest)
  match Literal.read tail with
  | .closed content rest => (.token ⟨.quoted content, .ofRange pos (reached rest)⟩, rest)
  | .unterminated rest => (.unterminatedString pos (reached rest), rest.drop 1)
  | .badEscape rest =>
    let escape := rest.take 2
    (.invalidEscape (reached rest) (reached rest + byteSize escape), skipString (rest.drop 2))

/-- The first lexeme of the text `c :: cs` at `pos`, and what follows it. The kinds of tokens are tried
in this order; a character that starts none of them is complained about and skipped. -/
def scanOne (pos : Nat) (c : Char) (cs : List Char) : Lexeme × List Char :=
  if ['/', '/'].isPrefixOf (c :: cs) then
    (.ofText pos ((c :: cs).takeWhile (· ≠ '\n')) .comment, cs.dropWhile (· ≠ '\n'))
  else if c = '"' then scanString pos cs
  else if ['-', '>'].isPrefixOf (c :: cs) then (.ofText pos ['-', '>'] .arrow, cs.drop 1)
  else if ['=', '>'].isPrefixOf (c :: cs) then (.ofText pos ['=', '>'] .mergeArrow, cs.drop 1)
  else
    match mark? c with
    | some token => (.ofText pos [c] token, cs)
    | none =>
      if isSpace c then
        (.ofText pos (c :: cs.takeWhile isSpace) .blank, cs.dropWhile isSpace)
      else
        match text? (c :: cs) with
        | some (text, rest) => (.ofText pos text (.text text), rest)
        | none => (.unexpectedCharacter pos, cs)

/-! A step leaves less text than it was given. -/

theorem length_dropWhile_le (p : Char → Bool) (cs : List Char) :
    (cs.dropWhile p).length ≤ cs.length :=
  (List.dropWhile_suffix p).length_le

/-- The text that a reading of a string leaves. -/
def Literal.rest : Literal → List Char
  | closed _ rest | unterminated rest | badEscape rest => rest

@[simp]
theorem Literal.rest_cons (c : Char) (l : Literal) : (l.cons c).rest = l.rest := by
  cases l <;> rfl

theorem Literal.length_rest_read_le (cs : List Char) : (Literal.read cs).rest.length ≤ cs.length := by
  fun_induction Literal.read cs with
  | case1 => simp [rest]
  | case2 | case3 | case4 => simp [rest]
  | case5 c tail decoded _ ih =>
    rw [rest_cons]
    exact Nat.le_trans ih (by simp only [List.length_cons]; omega)
  | case6 => simp [rest]
  | case7 =>
    rename_i ih
    rw [rest_cons]
    exact Nat.le_trans ih (by simp only [List.length_cons]; omega)

theorem length_skipString_le (cs : List Char) : (skipString cs).length ≤ cs.length := by
  fun_induction skipString cs <;> simp_all <;> omega

theorem length_scanString_le (pos : Nat) (cs : List Char) :
    (scanString pos cs).2.length ≤ cs.length := by
  have h := Literal.length_rest_read_le cs
  unfold scanString
  split <;> rename_i heq <;> rw [heq] at h <;> simp only [Literal.rest] at h
  · exact h
  · simp only [List.length_drop]
    omega
  · exact Nat.le_trans (length_skipString_le _) (by simp only [List.length_drop]; omega)

theorem length_scanOne_le (pos : Nat) (c : Char) (cs : List Char) :
    (scanOne pos c cs).2.length ≤ cs.length := by
  unfold scanOne
  split
  · exact length_dropWhile_le _ _
  split
  · exact length_scanString_le _ _
  split
  · simp
  split
  · simp
  split
  · exact Nat.le_refl _
  split
  · exact length_dropWhile_le _ _
  split
  · next text rest htext =>
    obtain ⟨hne, happend⟩ := append_of_text? htext
    have hpos := List.length_pos_iff.2 hne
    have hlength := congrArg List.length happend
    rw [List.length_append, List.length_cons] at hlength
    show rest.length ≤ cs.length
    omega
  · exact Nat.le_refl _

/-- The lexemes of a text that starts at an offset. -/
def scan (pos : Nat) : List Char → List Lexeme
  | [] => []
  | c :: cs =>
    let next := scanOne pos c cs
    next.1 :: scan (pos + (byteSize (c :: cs) - byteSize next.2)) next.2
termination_by cs => cs.length
decreasing_by exact Nat.lt_succ_of_le (length_scanOne_le pos c cs)

/-- The tokens of a source, or every problem with its lexemes. -/
def tokens (source : List Char) : Except ParseError (List (Spanned Token)) :=
  let lexemes := scan 0 source
  let problems := lexemes.filterMap fun
    | .problem problem => some (problem.locate source)
    | .token _ => none
  if problems.isEmpty then
    .ok (lexemes.filterMap fun
      | .token token => some token
      | .problem _ => none)
  else .error ⟨problems⟩

end Flowchart.Flow
