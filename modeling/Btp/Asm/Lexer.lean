import Mathlib

/-!
# The lexer of the assembler

`core/asm/lexer.go`. `Lex` runs the state functions in a goroutine that sends
the tokens on a channel; here the tokens are the list the channel delivers,
in order. The source is a list of runes and positions count runes. The
classes `unicode.IsLetter`, `IsSpace` and `IsNumber` are taken on ASCII: the
model reads ASCII sources, on which a rune is one byte.

A state function is one step of the lexer. `lexLine` loops on its own until
it hands over; here each turn of that loop is a step that returns `lexLine`,
which the loop of `Lex` runs the same way. The loops run on a fuel: every
step of `lexLine` reads a rune, and every other state hands back to it
without going back, so twice the source's length bounds the steps of a run
(`run_add`), and the length bounds the turns of `acceptRun` and
`acceptRunUntil` (`acceptRunLoop_add`, `acceptRunUntilLoop_add`). The fuel is
never what ends a loop.
-/

namespace Btp.Asm

/-- `tokenType`. -/
inductive tokenType
  | eof
  | lineStart
  | lineEnd
  | invalidStatement
  | element
  | label
  | labelDef
  | number
  | stringValue
  deriving DecidableEq, Repr

/-- `tokenType.String`, through the table `stringtokenTypes`. -/
def tokenType.String : tokenType → List Char
  | .eof => "EOF".toList
  | .lineStart => "new line".toList
  | .lineEnd => "end of line".toList
  | .invalidStatement => "invalid statement".toList
  | .element => "element".toList
  | .label => "label".toList
  | .labelDef => "label definition".toList
  | .number => "number".toList
  | .stringValue => "string".toList

/-- `token`: what was found, on which line, and its text. -/
structure token where
  typ : tokenType
  lineno : Nat
  text : List Char
  deriving DecidableEq, Repr

def Numbers : List Char := "1234567890".toList
def HexadecimalNumbers : List Char := Numbers ++ "aAbBcCdDeEfF".toList
def Alpha : List Char := "abcdefghijklmnopqrstuwvxyzABCDEFGHIJKLMNOPQRSTUWVXYZ".toList

/-- `unicode.IsLetter` on ASCII. -/
def isLetter (t : Char) : Bool := t.isAlpha

/-- `unicode.IsSpace` on ASCII: tab, line feed, vertical tab, form feed,
carriage return and space. -/
def isSpace (t : Char) : Bool :=
  t == '\t' || t == '\n' || t == '\x0b' || t == '\x0c' || t == '\r' || t == ' '

/-- `unicode.IsNumber` on ASCII. -/
def isNumber (t : Char) : Bool := t.isDigit

/-- `lexer`: the source, the tokens sent so far, the line, and the start of
the current token, the position and the width of the rune read last. -/
structure lexer where
  input : List Char
  tokens : List token
  lineno : Nat
  start : Nat
  pos : Nat
  width : Nat

namespace lexer

variable (l : lexer)

/-- `next`: the rune at the position, or `0` at the end. -/
def next : Char × lexer :=
  match l.input[l.pos]? with
  | none => ('\x00', { l with width := 0 })
  | some r => (r, { l with pos := l.pos + 1, width := 1 })

/-- `backup`: step back over the rune read last. -/
def backup : lexer := { l with pos := l.pos - l.width }

/-- `peek`: the next rune, read and backed up over. -/
def peek : Char × lexer := ((l.next).1, (l.next).2.backup)

/-- `ignore`: the current token starts at the position. -/
def ignore : lexer := { l with start := l.pos }

/-- `accept`: read the next rune if it is in `valid`. -/
def accept (valid : List Char) : Bool × lexer :=
  if valid.contains (l.next).1 then (true, (l.next).2) else (false, (l.next).2.backup)

/-- The loop of `acceptRun`. -/
def acceptRunLoop (valid : List Char) : Nat → lexer → lexer
  | 0, l => l
  | fuel + 1, l =>
    if valid.contains (l.next).1 then acceptRunLoop valid fuel (l.next).2 else (l.next).2.backup

/-- `acceptRun`: read the runes in `valid`, and back up over the first that
is not. -/
def acceptRun (valid : List Char) : lexer := acceptRunLoop valid (l.input.length + 1) l

/-- The loop of `acceptRunUntil`. -/
def acceptRunUntilLoop (untilRune : Char) : Nat → lexer → Bool × lexer
  | 0, l => (false, l)
  | fuel + 1, l =>
    if (l.next).1 = untilRune then (true, (l.next).2)
    else if (l.next).1 = '\x00' then (false, (l.next).2)
    else acceptRunUntilLoop untilRune fuel (l.next).2

/-- `acceptRunUntil`: read up to and including `untilRune`; `false` when the
source ends first. -/
def acceptRunUntil (untilRune : Char) : Bool × lexer :=
  acceptRunUntilLoop untilRune (l.input.length + 1) l

/-- `blob`: the text of the current token, `input[start:pos]`. -/
def blob : List Char := (l.input.drop l.start).take (l.pos - l.start)

/-- `emit`: send a token of the current text, which ends there. -/
def emit (t : tokenType) : lexer :=
  { l with tokens := l.tokens ++ [⟨t, l.lineno, l.blob⟩], start := l.pos }

end lexer

/-- The state functions. -/
inductive stateFn
  | lexLine
  | lexComment
  | lexLabel
  | lexInsideString
  | lexNumber
  | lexElement
  deriving DecidableEq, Repr

open lexer

/-- A turn of the loop of `lexLine`: a new line, a comment, a space, or the
state for the token that starts here; `nil` on anything else, the end
included. -/
def lexLine (l : lexer) : Option stateFn × lexer :=
  let (r, l) := l.next
  if r = '\n' then
    let l := (l.emit .lineEnd).ignore
    (some .lexLine, { l with lineno := l.lineno + 1 }.emit .lineStart)
  -- `peek` is only read after a `;`, which none of the later cases accepts
  else if r = ';' then
    if (l.peek).1 = ';' then (some .lexComment, (l.peek).2) else (none, (l.peek).2)
  else if isSpace r then (some .lexLine, l.ignore)
  else if isLetter r || r = '_' then (some .lexElement, l)
  else if isNumber r then (some .lexNumber, l)
  else if r = '@' then (some .lexLabel, l.ignore)
  else if r = '"' then (some .lexInsideString, l)
  else (none, l)

/-- `lexComment`: drop the rest of the line, its line feed included. -/
def lexComment (l : lexer) : Option stateFn × lexer :=
  (some .lexLine, (l.acceptRunUntil '\n').2.ignore)

/-- `lexLabel`: the name after an `@`. -/
def lexLabel (l : lexer) : Option stateFn × lexer :=
  (some .lexLine, (l.acceptRun (Alpha ++ ['_'])).emit .label)

/-- `lexInsideString`: a string up to its closing quote; nothing when the
source ends first. -/
def lexInsideString (l : lexer) : Option stateFn × lexer :=
  let (found, l) := l.acceptRunUntil '"'
  (some .lexLine, if found then l.emit .stringValue else l)

/-- `lexNumber`: a number, hexadecimal after a `0`, `x` or `X` right after
its first digit. -/
def lexNumber (l : lexer) : Option stateFn × lexer :=
  let (zero, l) := l.accept ['0']
  let (hex, l) := if zero then (true, l) else l.accept ['x', 'X']
  let acceptance := if hex then HexadecimalNumbers else Numbers
  (some .lexLine, (l.acceptRun acceptance).emit .number)

/-- `lexElement`: a name, which defines a label when a `:` follows. -/
def lexElement (l : lexer) : Option stateFn × lexer :=
  let l := l.acceptRun (Alpha ++ ['_'] ++ Numbers)
  if (l.peek).1 = ':' then
    (some .lexLine, (((l.peek).2.emit .labelDef).accept [':']).2.ignore)
  else (some .lexLine, (l.peek).2.emit .element)

/-- A state function, run once. -/
def stateFn.step : stateFn → lexer → Option stateFn × lexer
  | .lexLine => Asm.lexLine
  | .lexComment => Asm.lexComment
  | .lexLabel => Asm.lexLabel
  | .lexInsideString => Asm.lexInsideString
  | .lexNumber => Asm.lexNumber
  | .lexElement => Asm.lexElement

/-- The loop of `Lex`: run the state functions until one returns `nil`. -/
def lexer.run : Nat → stateFn → lexer → lexer
  | 0, _, l => l
  | fuel + 1, st, l =>
    match st.step l with
    | (none, l) => l
    | (some st, l) => lexer.run fuel st l

/-- `Lex`: the tokens of `source`, from a `lineStart` to an `eof`. -/
def Lex (source : List Char) : List token :=
  let l := (lexer.mk source [] 0 0 0 0).emit .lineStart
  ((lexer.run (2 * source.length + 1) .lexLine l).emit .eof).tokens

/-! ## What a step reads -/

namespace lexer

variable {l : lexer}

@[simp] theorem next_input : (l.next).2.input = l.input := by
  unfold next; split <;> rfl

@[simp] theorem backup_input : l.backup.input = l.input := rfl
@[simp] theorem ignore_input : l.ignore.input = l.input := rfl
@[simp] theorem emit_input (t : tokenType) : (l.emit t).input = l.input := rfl
@[simp] theorem ignore_pos : l.ignore.pos = l.pos := rfl
@[simp] theorem emit_pos (t : tokenType) : (l.emit t).pos = l.pos := rfl

/-- A token that may be sent moves nothing. -/
theorem emit_if (b : Bool) (t : tokenType) :
    (if b = true then l.emit t else l).input = l.input ∧
      (if b = true then l.emit t else l).pos = l.pos := by
  cases b <;> exact ⟨rfl, rfl⟩

/-- `next` reads a rune exactly when the position is in the source. -/
theorem next_pos : (l.next).2.pos = if l.pos < l.input.length then l.pos + 1 else l.pos := by
  unfold next
  split <;> rename_i h
  · rw [List.getElem?_eq_none_iff] at h
    rw [if_neg (by omega)]
  · obtain ⟨hlt, -⟩ := List.getElem?_eq_some_iff.mp h
    rw [if_pos hlt]

/-- The rune `next` reads in the source. -/
theorem next_char (h : l.pos < l.input.length) : (l.next).1 = l.input[l.pos] := by
  unfold next
  rw [List.getElem?_eq_getElem h]

/-- At the end `next` reads `0`. -/
theorem next_char_end (h : l.input.length ≤ l.pos) : (l.next).1 = '\x00' := by
  unfold next
  rw [List.getElem?_eq_none h]

/-- Backing up right after `next` returns to where it read. -/
@[simp] theorem next_backup_pos : (l.next).2.backup.pos = l.pos := by
  unfold next backup
  split <;> simp

@[simp] theorem peek_pos : (l.peek).2.pos = l.pos := next_backup_pos
@[simp] theorem peek_input : (l.peek).2.input = l.input := by simp [peek]

theorem accept_pos_ge (valid : List Char) : l.pos ≤ (l.accept valid).2.pos := by
  unfold accept
  split
  · rw [next_pos]; split <;> omega
  · simp

@[simp] theorem accept_input (valid : List Char) : (l.accept valid).2.input = l.input := by
  unfold accept; split <;> simp

theorem acceptRunLoop_pos_ge (valid : List Char) (fuel : Nat) (l : lexer) :
    l.pos ≤ (acceptRunLoop valid fuel l).pos := by
  induction fuel generalizing l with
  | zero => exact le_rfl
  | succ fuel ih =>
    unfold acceptRunLoop
    split
    · have := ih (l.next).2
      rw [next_pos] at this
      split at this <;> omega
    · simp

@[simp] theorem acceptRunLoop_input (valid : List Char) (fuel : Nat) (l : lexer) :
    (acceptRunLoop valid fuel l).input = l.input := by
  induction fuel generalizing l with
  | zero => rfl
  | succ fuel ih =>
    unfold acceptRunLoop
    split
    · rw [ih, next_input]
    · simp

theorem acceptRunUntilLoop_pos_ge (untilRune : Char) (fuel : Nat) (l : lexer) :
    l.pos ≤ (acceptRunUntilLoop untilRune fuel l).2.pos := by
  induction fuel generalizing l with
  | zero => exact le_rfl
  | succ fuel ih =>
    have hnext : l.pos ≤ (l.next).2.pos := by rw [next_pos]; split <;> omega
    unfold acceptRunUntilLoop
    split
    · exact hnext
    · split
      · exact hnext
      · exact hnext.trans (ih _)

@[simp] theorem acceptRunUntilLoop_input (untilRune : Char) (fuel : Nat) (l : lexer) :
    (acceptRunUntilLoop untilRune fuel l).2.input = l.input := by
  induction fuel generalizing l with
  | zero => rfl
  | succ fuel ih =>
    unfold acceptRunUntilLoop
    split
    · simp
    · split
      · simp
      · rw [ih, next_input]

/-! ## The fuel of the inner loops -/

/-- A rune of `valid` read by `next` was in the source, when `valid` does not
hold the `0` that `next` reads at the end. -/
theorem next_advances_of_contains {valid : List Char} (h0 : valid.contains '\x00' = false)
    (h : valid.contains (l.next).1 = true) : l.pos < l.input.length := by
  by_contra hend
  rw [next_char_end (by omega), h0] at h
  cases h

/-- `acceptRun` stops on a rune that is not in `valid` before the fuel runs
out: more fuel gives the same result. -/
theorem acceptRunLoop_add {valid : List Char} (h0 : valid.contains '\x00' = false)
    (fuel k : Nat) (l : lexer) (hfuel : l.input.length - l.pos < fuel) :
    acceptRunLoop valid (fuel + k) l = acceptRunLoop valid fuel l := by
  induction fuel generalizing l with
  | zero => omega
  | succ fuel ih =>
    rw [Nat.add_right_comm]
    unfold acceptRunLoop
    split
    · rename_i hin
      -- a rune of `valid` was read from the source: one less to go
      have hlt := next_advances_of_contains h0 hin
      refine ih _ ?_
      rw [next_input, next_pos, if_pos hlt]
      omega
    · rfl

/-- `acceptRunUntil` finds `untilRune` or the end before the fuel runs out. -/
theorem acceptRunUntilLoop_add {untilRune : Char} (fuel k : Nat) (l : lexer)
    (hfuel : l.input.length - l.pos < fuel) :
    acceptRunUntilLoop untilRune (fuel + k) l = acceptRunUntilLoop untilRune fuel l := by
  induction fuel generalizing l with
  | zero => omega
  | succ fuel ih =>
    rw [Nat.add_right_comm]
    unfold acceptRunUntilLoop
    split
    · rfl
    · split
      · rfl
      · rename_i hne h0
        -- a rune other than `0` was read from the source: one less to go
        have hlt : l.pos < l.input.length := by
          by_contra hend
          exact h0 (next_char_end (by omega))
        refine ih _ ?_
        rw [next_input, next_pos, if_pos hlt]
        omega

end lexer

/-! ## The fuel of `Lex` -/

/-- What is left to lex: two for each rune to read, and one more when the
state is not `lexLine`, which reads one at each step. -/
def stateFn.potential (st : stateFn) (l : lexer) : Nat :=
  2 * (l.input.length - l.pos) + if st = .lexLine then 0 else 1

/-- At the end `lexLine` stops. -/
theorem lexLine_of_end {l : lexer} (h : (l.next).1 = '\x00') : lexLine l = (none, (l.next).2) := by
  unfold lexLine
  simp only [h]
  rfl

/-- A turn of `lexLine` moves as far as the rune it reads. -/
theorem lexLine_pos (l : lexer) :
    (lexLine l).2.input = l.input ∧ (lexLine l).2.pos = (l.next).2.pos := by
  unfold lexLine
  dsimp only
  split_ifs <;> simp

/-- A turn of `lexLine` that goes on has read a rune of the source. -/
theorem lexLine_step {l : lexer} {st : stateFn} (h : (lexLine l).1 = some st) :
    l.pos < l.input.length ∧ (lexLine l).2.input = l.input ∧ (lexLine l).2.pos = l.pos + 1 := by
  have hlt : l.pos < l.input.length := by
    by_contra hend
    rw [lexLine_of_end (lexer.next_char_end (by omega))] at h
    cases h
  obtain ⟨hinput, hpos⟩ := lexLine_pos l
  rw [lexer.next_pos, if_pos hlt] at hpos
  exact ⟨hlt, hinput, hpos⟩

/-- Every other state hands back to `lexLine`, without going back. -/
theorem step_to_lexLine {st : stateFn} (hst : st ≠ .lexLine) (l : lexer) :
    (st.step l).1 = some .lexLine ∧ (st.step l).2.input = l.input ∧ l.pos ≤ (st.step l).2.pos := by
  cases st with
  | lexLine => exact absurd rfl hst
  | lexComment =>
    exact ⟨rfl, by simp [stateFn.step, lexComment, lexer.acceptRunUntil],
      lexer.acceptRunUntilLoop_pos_ge _ _ _⟩
  | lexLabel =>
    exact ⟨rfl, by simp [stateFn.step, lexLabel, lexer.acceptRun],
      lexer.acceptRunLoop_pos_ge _ _ _⟩
  | lexInsideString =>
    have hge := lexer.acceptRunUntilLoop_pos_ge '"' (l.input.length + 1) l
    have hin := lexer.acceptRunUntilLoop_input '"' (l.input.length + 1) l
    obtain ⟨hin', hpos'⟩ := lexer.emit_if (l := (acceptRunUntilLoop '"' (l.input.length + 1) l).2)
      (acceptRunUntilLoop '"' (l.input.length + 1) l).1 .stringValue
    simp only [stateFn.step, lexInsideString, lexer.acceptRunUntil, true_and]
    exact ⟨hin'.trans hin, hpos' ▸ hge⟩
  | lexNumber =>
    -- the optional `0`, `x` or `X`, then the digits
    have h₁ := lexer.accept_pos_ge (l := l) ['0']
    refine ⟨rfl, ?_, ?_⟩ <;> simp only [stateFn.step, lexNumber] <;> split
    · simp [lexer.acceptRun]
    · simp [lexer.acceptRun]
    · exact h₁.trans (lexer.acceptRunLoop_pos_ge _ _ _)
    · have h₂ := lexer.accept_pos_ge (l := (l.accept ['0']).2) ['x', 'X']
      exact (h₁.trans h₂).trans (lexer.acceptRunLoop_pos_ge _ _ _)
  | lexElement =>
    have hge := lexer.acceptRunLoop_pos_ge (Alpha ++ ['_'] ++ Numbers) (l.input.length + 1) l
    refine ⟨?_, ?_, ?_⟩ <;> simp only [stateFn.step, lexElement] <;> split
    · rfl
    · rfl
    · simp [lexer.acceptRun]
    · simp [lexer.acceptRun]
    · refine hge.trans ?_
      simpa [lexer.acceptRun] using lexer.accept_pos_ge (l := ((lexer.acceptRun l _).peek.2.emit
        .labelDef)) [':']
    · simpa [lexer.acceptRun] using hge

/-- Each step that goes on leaves less to lex. -/
theorem stateFn.step_potential (st : stateFn) (l : lexer) {st' : stateFn}
    (h : (st.step l).1 = some st') : st'.potential (st.step l).2 < st.potential l := by
  unfold potential
  by_cases hst : st = .lexLine
  · subst hst
    obtain ⟨hlt, hinput, hpos⟩ := lexLine_step h
    simp only [step] at hinput hpos ⊢
    rw [hinput, hpos]
    split <;> omega
  · obtain ⟨hnext, hinput, hge⟩ := step_to_lexLine hst l
    rw [hnext] at h
    cases h
    rw [hinput, if_pos rfl, if_neg hst]
    omega

/-- The run of the state functions ends, by a `nil` state, before the fuel
runs out: more fuel gives the same result. -/
theorem run_add (fuel k : Nat) (st : stateFn) (l : lexer) (h : st.potential l < fuel) :
    lexer.run (fuel + k) st l = lexer.run fuel st l := by
  induction fuel generalizing st l with
  | zero => omega
  | succ fuel ih =>
    rw [Nat.add_right_comm]
    unfold lexer.run
    cases hs : st.step l with
    | mk o l' =>
      cases o with
      | none => rfl
      | some st' =>
        -- the next state has less to lex, within the fuel left
        have hlt := st.step_potential l (by rw [hs])
        rw [hs] at hlt
        dsimp only at hlt
        exact ih st' l' (by omega)

/-- `Lex` runs its state functions to the end. -/
theorem Lex_run (source : List Char) (k : Nat) :
    ((lexer.run (2 * source.length + 1 + k) .lexLine
      ((lexer.mk source [] 0 0 0 0).emit .lineStart)).emit .eof).tokens = Lex source := by
  rw [run_add _ _ _ _ (by simp [stateFn.potential, lexer.emit])]
  rfl

end Btp.Asm
