import Mathlib.Data.Nat.Notation
import Mathlib.Data.List.Basic

/-!
# The syntax of shell scripts

A script is read by two machines that write as they read: one makes tokens of the
characters, by the quoting rules of the POSIX shell, and one makes commands of the tokens.
Both are in their first state again where a line with a complete command ends, so that a
script is read line after line (`compile_append`).  What the machines do not know, such as a
pipe, a here-document or a command substitution, they refuse.

## Main definitions

* `transduce` — a run of a machine that writes as it reads.
* `Piece`, `Word`, `Token`, `lexStep` — the characters of a word as they are quoted.
* `Script`, `parseStep` — commands.
* `compile` — the commands of a text.
-/

namespace NeoProot.Shell

/-! ### Machines that write as they read -/

section Transducer

variable {σ α β : Type*} {step : σ → α → Option (σ × List β)}

/-- The state and the writings of a machine after a list of inputs. -/
def transduce (step : σ → α → Option (σ × List β)) : σ → List α → Option (σ × List β)
  | s, [] => some (s, [])
  | s, a :: as => do
    let (s, out) ← step s a
    let (s, rest) ← transduce step s as
    some (s, out ++ rest)

theorem transduce_append {s t u : σ} {as bs : List α} {out rest : List β}
    (h : transduce step s as = some (t, out)) (h' : transduce step t bs = some (u, rest)) :
    transduce step s (as ++ bs) = some (u, out ++ rest) := by
  induction as generalizing s out with
  | nil =>
    rw [transduce, Option.some.injEq, Prod.mk.injEq] at h
    rw [List.nil_append, h.1, h', ← h.2, List.nil_append]
  | cons a as ih =>
    simp only [transduce, Option.bind_eq_bind, Option.bind_eq_some_iff] at h
    obtain ⟨⟨s₁, out₁⟩, hstep, ⟨s₂, out₂⟩, hrest, heq⟩ := h
    rw [Option.some.injEq, Prod.mk.injEq] at heq
    obtain ⟨rfl, rfl⟩ := heq
    simp only [List.cons_append, transduce, hstep, Option.bind_eq_bind, Option.bind_some,
      ih hrest, List.append_assoc]

end Transducer

/-! ### Tokens -/

/-- What a word is made of: characters outside and inside of quotations, the beginning of a
quotation, and parameters. -/
inductive Piece
  | lit (c : Char)
  | quoted (c : Char)
  | quotes
  | param (name : List Char) (inQuotes : Bool)
  deriving DecidableEq, Repr

abbrev Word := List Piece

inductive Operator
  | semi | andIf | orIf | lparen | rparen | less | great | greatAnd
  deriving DecidableEq, Repr

inductive Token
  | word (w : Word)
  | number (digit : Char)
  | op (o : Operator)
  | newline
  deriving DecidableEq, Repr

/-- Where the reader of characters is. -/
inductive Mode
  | plain
  | single
  | double
  | escape
  | comment
  | dollar (inQuotes : Bool)
  | name (n : List Char) (inQuotes : Bool)
  | operator (c : Char)
  deriving DecidableEq, Repr

/-- The reader of characters, with the word that it is in. -/
structure Lexer where
  mode : Mode
  word : Option Word
  deriving DecidableEq, Repr

namespace Lexer

def start : Lexer := ⟨.plain, none⟩

/-- The word goes on with a piece. -/
def push (l : Lexer) (mode : Mode) (piece : Piece) : Lexer :=
  ⟨mode, some (l.word.getD [] ++ [piece])⟩

/-- The word that ends. -/
def ended (l : Lexer) : List Token :=
  match l.word with
  | none => []
  | some w => [.word w]

/-- The word that ends in front of a redirection: one digit is the number of a descriptor. -/
def endedNumber (l : Lexer) : List Token :=
  match l.word with
  | some [.lit c] => if c.isDigit then [.number c] else [.word [.lit c]]
  | _ => l.ended

end Lexer

def isNameStart (c : Char) : Bool := c.isAlpha || c = '_'
def isNameChar (c : Char) : Bool := c.isAlphanum || c = '_'

/-- The mode behind a parameter. -/
def outside (inQuotes : Bool) : Mode := if inQuotes then .double else .plain

/-- A character outside of quotations. -/
def plainStep (l : Lexer) (c : Char) : Option (Lexer × List Token) :=
  if c = ' ' ∨ c = '\t' then some (.start, l.ended)
  else if c = '\n' then some (.start, l.ended ++ [.newline])
  else if c = '\'' then some (l.push .single .quotes, [])
  else if c = '"' then some (l.push .double .quotes, [])
  else if c = '\\' then some ({ l with mode := .escape }, [])
  else if c = '$' then some ({ l with mode := .dollar false }, [])
  else if c = '#' ∧ l.word = none then some (⟨.comment, none⟩, [])
  else if c = ';' then some (.start, l.ended ++ [.op .semi])
  else if c = '(' then some (.start, l.ended ++ [.op .lparen])
  else if c = ')' then some (.start, l.ended ++ [.op .rparen])
  else if c = '<' then some (.start, l.endedNumber ++ [.op .less])
  else if c = '>' then some (⟨.operator c, none⟩, l.endedNumber)
  else if c = '&' ∨ c = '|' then some (⟨.operator c, none⟩, l.ended)
  else if c = Char.ofNat 96 then none
  else some (l.push .plain (.lit c), [])

/-- A character between double quotes. -/
def doubleStep (l : Lexer) (c : Char) : Option (Lexer × List Token) :=
  if c = '"' then some ({ l with mode := .plain }, [])
  else if c = '$' then some ({ l with mode := .dollar true }, [])
  else if c = '\\' ∨ c = Char.ofNat 96 then none
  else some (l.push .double (.quoted c), [])

/-- The reader of characters. -/
def lexStep (l : Lexer) (c : Char) : Option (Lexer × List Token) :=
  match l.mode with
  | .plain => plainStep l c
  | .single =>
    if c = '\'' then some ({ l with mode := .plain }, [])
    else some (l.push .single (.quoted c), [])
  | .double => doubleStep l c
  | .escape =>
    -- A newline behind a backslash is no character at all.
    if c = '\n' then some ({ l with mode := .plain }, [])
    else some (l.push .plain (.quoted c), [])
  | .comment => if c = '\n' then some (.start, [.newline]) else some (l, [])
  | .dollar inQuotes =>
    if c = '@' ∨ c = '?' ∨ c.isDigit then
      some (l.push (outside inQuotes) (.param [c] inQuotes), [])
    else if isNameStart c then some ({ l with mode := .name [c] inQuotes }, [])
    else none
  | .name n inQuotes =>
    if isNameChar c then some ({ l with mode := .name (n ++ [c]) inQuotes }, [])
    else
      let l := l.push (outside inQuotes) (.param n inQuotes)
      if inQuotes then doubleStep l c else plainStep l c
  | .operator o =>
    if o = '>' then
      if c = '&' then some (.start, [.op .greatAnd])
      else (plainStep .start c).map fun (l, out) => (l, .op .great :: out)
    else if o = '&' ∧ c = '&' then some (.start, [.op .andIf])
    else if o = '|' ∧ c = '|' then some (.start, [.op .orIf])
    else none

/-! ### Commands -/

structure Redirection where
  fd : Option Char
  op : Operator
  target : Word
  deriving DecidableEq, Repr

structure Simple where
  assigns : List (List Char × Word)
  words : List Word
  redirs : List Redirection
  deriving DecidableEq, Repr

inductive Script
  | skip
  | simple (c : Simple)
  | seq (a b : Script)
  | and (a b : Script)
  | or (a b : Script)
  | not (a : Script)
  | ite (c t e : Script)
  | loop (c b : Script)
  | redirected (a : Script) (redirs : List Redirection)
  | define (name : List Char) (body : Script)
  deriving DecidableEq, Repr

/-- The commands of a list as one. -/
def block (scripts : List Script) : Script := scripts.foldr .seq .skip

/-- The text of a word that is not quoted anywhere. -/
def literal : Word → Option (List Char)
  | [] => some []
  | .lit c :: w => (literal w).map (c :: ·)
  | _ :: _ => none

/-- The name in front of a `=` that is not quoted, and the word behind it. -/
def assignment (name : List Char) : Word → Option (List Char × Word)
  | .lit c :: w =>
    if c = '=' ∧ name ≠ [] then some (name, w)
    else if isNameStart c ∨ (isNameChar c ∧ name ≠ []) then assignment (name ++ [c]) w
    else none
  | _ => none

/-- The assignments in front of a command. -/
def splitAssignments : List Word → List (List Char × Word) × List Word
  | [] => ([], [])
  | w :: ws =>
    match assignment [] w with
    | none => ([], w :: ws)
    | some a => ((a :: (splitAssignments ws).1), (splitAssignments ws).2)

/-- The command that is being read. -/
inductive Pending
  | nothing
  | simple (words : List Word) (redirs : List Redirection)
  | compound (s : Script) (redirs : List Redirection)
  | paren (name : List Char)
  | header (name : List Char)
  deriving DecidableEq, Repr

/-- The command is complete where it ends here. -/
def Pending.script : Pending → Option Script
  | .simple words redirs =>
    let (assigns, words) := splitAssignments words
    some (.simple ⟨assigns, words, redirs⟩)
  | .compound s [] => some s
  | .compound s redirs => some (.redirected s redirs)
  | _ => none

/-- A list of commands that is being read: those before, the left side of an operator with
whether it is `&&`, a `!`, the command, and a redirection without its target. -/
structure Level where
  before : List Script
  left : Option (Script × Bool)
  negated : Bool
  pending : Pending
  number : Option Char
  redir : Option Operator
  deriving DecidableEq, Repr

namespace Level

def start : Level := ⟨[], none, false, .nothing, none, none⟩

/-- The list that goes on behind these commands. -/
def after (scripts : List Script) : Level := { start with before := scripts }

/-- The commands around the operators, where they end here. -/
def joined (l : Level) : Option Script := do
  let s ← l.pending.script
  let s := if l.negated then .not s else s
  match l.left with
  | none => some s
  | some (a, true) => some (.and a s)
  | some (a, false) => some (.or a s)

/-- All commands of the list, where no command is being read. -/
def closed (l : Level) : Option Script :=
  if l.left.isNone ∧ ¬ l.negated ∧ l.pending = .nothing ∧ l.number.isNone ∧ l.redir.isNone then
    some (block l.before)
  else none

/-- A compound command is complete. -/
def compound (l : Level) (s : Script) : Level := { l with pending := .compound s [] }

end Level

/-- What a list of commands is part of. -/
inductive Opening
  | ifCond
  | thenPart (c : Script)
  | elsePart (c t : Script) (chained : Bool)
  | whileCond
  | doPart (c : Script)
  | body (name : List Char)
  deriving DecidableEq, Repr

/-- The reader of tokens: the list it is in, and those around it. -/
structure Parser where
  stack : List (Opening × Level)
  level : Level
  deriving DecidableEq, Repr

def Parser.start : Parser := ⟨[], .start⟩

/-- `fi` closes the conditional, and those that an `elif` opened. -/
def closeIf (s : Script) : List (Opening × Level) → Option Parser
  | (.thenPart c, l) :: stack => closeElse (.ite c s .skip) l stack
  | (.elsePart c t _, l) :: stack => closeElse (.ite c t s) l stack
  | _ => none
where
  /-- The conditional ends the else part that an `elif` opened. -/
  closeElse (s : Script) (l : Level) : List (Opening × Level) → Option Parser
    | (.elsePart c t true, l') :: stack => closeElse (.ite c t (block [s])) l' stack
    | stack => some ⟨stack, l.compound s⟩

/-- A reserved word at the beginning of a command. -/
def reserved (p : Parser) (word : List Char) : Option (Option Parser) :=
  let opened (opening : Opening) : Option Parser := some ⟨(opening, p.level) :: p.stack, .start⟩
  if word = "if".toList then some (opened .ifCond)
  else if word = "while".toList then some (opened .whileCond)
  else if word = "!".toList then some (some { p with level := { p.level with negated := true } })
  else if word = "then".toList then
    some <| match p.stack, p.level.closed with
      | (.ifCond, l) :: stack, some c => some ⟨(.thenPart c, l) :: stack, .start⟩
      | _, _ => none
  else if word = "elif".toList then
    some <| match p.stack, p.level.closed with
      | (.thenPart c, l) :: stack, some t =>
        some ⟨(.ifCond, .start) :: (.elsePart c t true, l) :: stack, .start⟩
      | _, _ => none
  else if word = "else".toList then
    some <| match p.stack, p.level.closed with
      | (.thenPart c, l) :: stack, some t => some ⟨(.elsePart c t false, l) :: stack, .start⟩
      | _, _ => none
  else if word = "fi".toList then some (p.level.closed.bind fun s => closeIf s p.stack)
  else if word = "do".toList then
    some <| match p.stack, p.level.closed with
      | (.whileCond, l) :: stack, some c => some ⟨(.doPart c, l) :: stack, .start⟩
      | _, _ => none
  else if word = "done".toList then
    some <| match p.stack, p.level.closed with
      | (.doPart c, l) :: stack, some b => some ⟨stack, l.compound (.loop c b)⟩
      | _, _ => none
  else if word = ['}'] then
    some <| match p.stack, p.level.closed with
      | (.body name, l) :: stack, some b => some ⟨stack, l.compound (.define name b)⟩
      | _, _ => none
  else none

/-- The command gets a word. -/
def wordStep (p : Parser) (w : Word) : Option Parser :=
  let l := p.level
  match l.redir with
  | some op =>
    let redir : Redirection := ⟨l.number, op, w⟩
    let l := { l with number := none, redir := none }
    match l.pending with
    | .nothing => some { p with level := { l with pending := .simple [] [redir] } }
    | .simple words redirs =>
      some { p with level := { l with pending := .simple words (redirs ++ [redir]) } }
    | .compound s redirs =>
      some { p with level := { l with pending := .compound s (redirs ++ [redir]) } }
    | _ => none
  | none =>
    match l.pending with
    | .nothing =>
      match (literal w).bind (reserved p) with
      | some p => p
      | none => some { p with level := { l with pending := .simple [w] [] } }
    | .simple words redirs =>
      some { p with level := { l with pending := .simple (words ++ [w]) redirs } }
    | .header name =>
      if literal w = some ['{'] then
        some ⟨(.body name, { l with pending := .nothing }) :: p.stack, .start⟩
      else none
    | _ => none

/-- The list of commands ends a command here. -/
def endCommand (p : Parser) : Option (Parser × List Script) :=
  match p.level.joined with
  | none => none
  | some s =>
    if p.stack = [] then some (.start, [s])
    else some ({ p with level := .after (p.level.before ++ [s]) }, [])

/-- The reader of tokens. -/
def parseStep (p : Parser) (t : Token) : Option (Parser × List Script) :=
  let l := p.level
  match t with
  | .word w => (wordStep p w).map (·, [])
  | .number c =>
    if l.redir = none then some ({ p with level := { l with number := some c } }, []) else none
  | .newline =>
    -- An empty line, or a line behind `&&` or `||`.
    if l.pending = .nothing ∧ l.redir = none ∧ ¬ l.negated then some (p, []) else endCommand p
  | .op .semi => endCommand p
  | .op .andIf | .op .orIf =>
    l.joined.map fun s =>
      ({ p with level := { Level.after l.before with left := some (s, t = .op .andIf) } }, [])
  | .op .lparen =>
    match l.pending with
    | .simple [w] [] => (literal w).map fun name =>
      ({ p with level := { l with pending := .paren name } }, [])
    | _ => none
  | .op .rparen =>
    match l.pending with
    | .paren name => some ({ p with level := { l with pending := .header name } }, [])
    | _ => none
  | .op o =>
    if l.redir = none then some ({ p with level := { l with redir := some o } }, []) else none

/-! ### The commands of a text -/

/-- The commands of a text whose last line ends a command. -/
def compile (text : List Char) : Option (List Script) :=
  match transduce lexStep .start text with
  | some (l, tokens) =>
    if l = .start then
      match transduce parseStep .start tokens with
      | some (p, scripts) => if p = .start then some scripts else none
      | none => none
    else none
  | none => none

theorem compile_eq_some_iff {text : List Char} {scripts : List Script} :
    compile text = some scripts ↔
      ∃ tokens, transduce lexStep .start text = some (.start, tokens) ∧
        transduce parseStep .start tokens = some (.start, scripts) := by
  constructor
  · intro h
    unfold compile at h
    split at h
    · rename_i l tokens hlex
      split at h
      · rename_i hl
        split at h
        · rename_i p scripts' hparse
          split at h
          · rename_i hp
            rw [Option.some.injEq] at h
            exact ⟨tokens, hl ▸ hlex, h ▸ hp ▸ hparse⟩
          · cases h
        · cases h
      · cases h
    · cases h
  · intro ⟨tokens, hlex, hparse⟩
    simp only [compile, hlex, hparse, if_true]

@[simp] theorem compile_nil : compile [] = some [] := compile_eq_some_iff.2 ⟨[], rfl, rfl⟩

/-- A script is read line after line. -/
theorem compile_append {text text' : List Char} {scripts scripts' : List Script}
    (h : compile text = some scripts) (h' : compile text' = some scripts') :
    compile (text ++ text') = some (scripts ++ scripts') := by
  obtain ⟨tokens, hlex, hparse⟩ := compile_eq_some_iff.1 h
  obtain ⟨tokens', hlex', hparse'⟩ := compile_eq_some_iff.1 h'
  rw [compile_eq_some_iff]
  exact ⟨tokens ++ tokens', transduce_append hlex hlex', transduce_append hparse hparse'⟩

/-! ### Quoted strings -/

/-- A string between single quotes; a quote in it stands outside of them behind a
backslash. -/
def quote (value : List Char) : List Char :=
  '\'' :: (value.flatMap fun c => if c = '\'' then ['\'', '\\', '\'', '\''] else [c]) ++ ['\'']

/-- The word that a quoted string is. -/
def quoteWord (value : List Char) : Word :=
  .quotes :: value.flatMap fun c => if c = '\'' then [.quoted c, .quotes] else [.quoted c]

theorem lex_inside (value : List Char) (w : Word) :
    transduce lexStep ⟨.single, some w⟩
        ((value.flatMap fun c => if c = '\'' then ['\'', '\\', '\'', '\''] else [c]) ++ ['\'']) =
      some (⟨.plain, some (w ++ value.flatMap fun c =>
        if c = '\'' then [.quoted c, .quotes] else [.quoted c])⟩, []) := by
  induction value generalizing w with
  | nil => simp [transduce, lexStep]
  | cons c value ih =>
    by_cases hc : c = '\''
    · subst hc
      have hquote : transduce lexStep ⟨.single, some w⟩ ['\'', '\\', '\'', '\''] =
          some (⟨.single, some (w ++ [.quoted '\'', .quotes])⟩, []) := by
        simp [transduce, lexStep, plainStep, Lexer.push]
      rw [List.flatMap_cons, if_pos rfl, List.append_assoc, List.flatMap_cons, if_pos rfl,
        transduce_append hquote (ih _), List.append_assoc, List.nil_append]
    · have hchar : transduce lexStep ⟨.single, some w⟩ [c] =
          some (⟨.single, some (w ++ [.quoted c])⟩, []) := by
        simp [transduce, lexStep, Lexer.push, hc]
      rw [List.flatMap_cons, if_neg hc, List.append_assoc, List.flatMap_cons, if_neg hc,
        transduce_append hchar (ih _), List.append_assoc, List.nil_append]

/-- A quoted string goes into the word it stands in, and nothing in it is syntax. -/
theorem lex_quote (value : List Char) (w : Option Word) :
    transduce lexStep ⟨.plain, w⟩ (quote value) =
      some (⟨.plain, some (w.getD [] ++ quoteWord value)⟩, []) := by
  have hopen : transduce lexStep ⟨.plain, w⟩ ['\''] =
      some (⟨.single, some (w.getD [] ++ [.quotes])⟩, []) := by
    simp [transduce, lexStep, plainStep, Lexer.push]
  have hquote : quote value = ['\''] ++
      ((value.flatMap fun c => if c = '\'' then ['\'', '\\', '\'', '\''] else [c]) ++ ['\'']) := rfl
  rw [hquote, transduce_append hopen (lex_inside value _), quoteWord, List.append_assoc]
  rfl

/-- A word ends in front of a blank, a newline or a semicolon. -/
theorem lex_end {w : Word} {d : Char} {text : List Char} {l : Lexer} {out : List Token}
    (hd : d = ' ' ∨ d = '\n' ∨ d = ';') (h : transduce lexStep .start (d :: text) = some (l, out)) :
    transduce lexStep ⟨.plain, some w⟩ (d :: text) = some (l, .word w :: out) := by
  obtain ⟨out', hstep, hplain⟩ : ∃ out', lexStep .start d = some (.start, out') ∧
      lexStep ⟨.plain, some w⟩ d = some (.start, .word w :: out') := by
    obtain rfl | rfl | rfl := hd
    · exact ⟨[], rfl, rfl⟩
    · exact ⟨[.newline], rfl, rfl⟩
    · exact ⟨[.op .semi], rfl, rfl⟩
  simp only [transduce, hstep, Option.bind_eq_bind, Option.bind_some, Option.bind_eq_some_iff] at h
  obtain ⟨⟨l', rest⟩, hrest, heq⟩ := h
  rw [Option.some.injEq, Prod.mk.injEq] at heq
  obtain ⟨rfl, rfl⟩ := heq
  simp only [transduce, hplain, hrest, Option.bind_eq_bind, Option.bind_some, List.cons_append]

/-- A text that is one word, between two texts. -/
theorem lex_word {front text inside : List Char} {w : Word} {d : Char} {out rest : List Token}
    {l : Lexer} (hinside : transduce lexStep .start inside = some (⟨.plain, some w⟩, []))
    (hd : d = ' ' ∨ d = '\n' ∨ d = ';')
    (hfront : transduce lexStep .start front = some (.start, out))
    (hback : transduce lexStep .start (d :: text) = some (l, rest)) :
    transduce lexStep .start (front ++ inside ++ d :: text) = some (l, out ++ .word w :: rest) := by
  have hword : transduce lexStep .start (front ++ inside) = some (⟨.plain, some w⟩, out) := by
    rw [transduce_append hfront hinside, List.append_nil]
  exact transduce_append hword (lex_end hd hback)

/-- A quoted string between two texts is a word. -/
theorem lex_hole {front text : List Char} {value : List Char} {d : Char} {out rest : List Token}
    {l : Lexer} (hd : d = ' ' ∨ d = '\n' ∨ d = ';')
    (hfront : transduce lexStep .start front = some (.start, out))
    (hback : transduce lexStep .start (d :: text) = some (l, rest)) :
    transduce lexStep .start (front ++ quote value ++ d :: text) =
      some (l, out ++ .word (quoteWord value) :: rest) :=
  lex_word (lex_quote value none) hd hfront hback

/-- A name that a variable can have. -/
def IsName (name : List Char) : Prop :=
  ∃ c cs, name = c :: cs ∧ isNameStart c = true ∧ ∀ d ∈ cs, isNameChar d = true

theorem isNameChar_of_isNameStart {c : Char} (h : isNameStart c = true) : isNameChar c = true := by
  simp only [isNameStart, isNameChar, Char.isAlphanum, Bool.or_eq_true] at h ⊢
  exact h.imp_left .inl

/-- The characters of a name are none that the shell looks for. -/
theorem plainStep_of_isNameChar {c : Char} (h : isNameChar c = true) (w : Option Word) :
    plainStep ⟨.plain, w⟩ c = some (⟨.plain, some (w.getD [] ++ [.lit c])⟩, []) := by
  have hne : ∀ d, isNameChar d = false → c ≠ d := by
    intro d hd heq
    rw [heq, hd] at h
    cases h
  unfold plainStep
  rw [if_neg (by simp [hne ' ' (by decide), hne '\t' (by decide)]), if_neg (hne '\n' (by decide)),
    if_neg (hne '\'' (by decide)), if_neg (hne '"' (by decide)), if_neg (hne '\\' (by decide)),
    if_neg (hne '$' (by decide)), if_neg (by simp [hne '#' (by decide)]),
    if_neg (hne ';' (by decide)), if_neg (hne '(' (by decide)), if_neg (hne ')' (by decide)),
    if_neg (hne '<' (by decide)), if_neg (hne '>' (by decide)),
    if_neg (by simp [hne '&' (by decide), hne '|' (by decide)]), if_neg (hne _ (by decide))]
  rfl

theorem lex_nameChars {cs : List Char} (h : ∀ c ∈ cs, isNameChar c = true) (w : Word) :
    transduce lexStep ⟨.plain, some w⟩ cs = some (⟨.plain, some (w ++ cs.map .lit)⟩, []) := by
  induction cs generalizing w with
  | nil => simp [transduce]
  | cons c cs ih =>
    have hstep : lexStep ⟨.plain, some w⟩ c = some (⟨.plain, some (w ++ [.lit c])⟩, []) :=
      plainStep_of_isNameChar (h c List.mem_cons_self) _
    simp only [transduce, hstep, Option.bind_eq_bind, Option.bind_some,
      ih (fun d hd => h d (List.mem_cons_of_mem c hd)), List.append_assoc, List.map_cons,
      List.singleton_append, List.nil_append]

/-- A name is a word of its own characters. -/
theorem lex_name {name : List Char} (h : IsName name) :
    transduce lexStep .start name = some (⟨.plain, some (name.map .lit)⟩, []) := by
  obtain ⟨c, cs, rfl, hc, hcs⟩ := h
  have hstep : lexStep .start c = some (⟨.plain, some [.lit c]⟩, []) :=
    plainStep_of_isNameChar (isNameChar_of_isNameStart hc) none
  simp only [transduce, hstep, Option.bind_eq_bind, Option.bind_some, lex_nameChars hcs,
    List.singleton_append, List.map_cons, List.append_nil]

/-- A name with a `=` behind it begins an assignment. -/
theorem assignment_name {name : List Char} (h : IsName name) (w : Word) :
    assignment [] (name.map .lit ++ .lit '=' :: w) = some (name, w) := by
  have hrest : ∀ {front cs : List Char}, front ≠ [] → (∀ d ∈ cs, isNameChar d = true) →
      assignment front (cs.map .lit ++ .lit '=' :: w) = some (front ++ cs, w) := by
    intro front cs hfront hcs
    induction cs generalizing front with
    | nil => simp [assignment, hfront]
    | cons d cs ih =>
      have hd := hcs d List.mem_cons_self
      have hne : d ≠ '=' := by
        rintro rfl
        cases hd
      rw [List.map_cons, List.cons_append, assignment, if_neg fun h => hne h.1,
        if_pos (.inr ⟨hd, hfront⟩), ih (by simp) fun e he => hcs e (List.mem_cons_of_mem d he),
        List.append_assoc]
      rfl
  obtain ⟨c, cs, rfl, hc, hcs⟩ := h
  rw [List.map_cons, List.cons_append, assignment, if_neg fun h => h.2 rfl, if_pos (.inl hc)]
  exact hrest (List.cons_ne_nil _ _) hcs

/-- Quoted strings with blanks in front of them are the next words. -/
theorem lex_quotes (values : List (List Char)) (w : Word) :
    transduce lexStep ⟨.plain, some w⟩ ((values.flatMap fun v => ' ' :: quote v) ++ ['\n']) =
      some (.start, .word w :: values.map (fun v => .word (quoteWord v)) ++ [.newline]) := by
  induction values generalizing w with
  | nil => rfl
  | cons v values ih =>
    have hquote : transduce lexStep .start (' ' :: quote v) =
        some (⟨.plain, some (quoteWord v)⟩, []) := by
      have hblank : transduce lexStep .start [' '] = some (.start, []) := rfl
      exact transduce_append hblank (lex_quote v none)
    rw [List.flatMap_cons, List.append_assoc, transduce_append (lex_end (.inl rfl) hquote) (ih _),
      List.map_cons]
    rfl

/-- The words of a command. -/
theorem parse_words (stack : List (Opening × Level)) (l : Level) (hl : l.redir = none)
    (words rest : List Word) (redirs : List Redirection) :
    transduce parseStep ⟨stack, { l with pending := .simple words redirs }⟩ (rest.map .word) =
      some (⟨stack, { l with pending := .simple (words ++ rest) redirs }⟩, []) := by
  induction rest generalizing words with
  | nil => simp [transduce]
  | cons w rest ih =>
    have hstep : parseStep ⟨stack, { l with pending := .simple words redirs }⟩ (.word w) =
        some (⟨stack, { l with pending := .simple (words ++ [w]) redirs }⟩, []) := by
      simp only [parseStep, wordStep, hl, Option.map_some]
    simp only [List.map_cons, transduce, hstep, Option.bind_eq_bind, Option.bind_some, ih,
      List.append_assoc, List.singleton_append, List.nil_append]

theorem literal_of_quotes {w : Word} (h : Piece.quotes ∈ w) : literal w = none := by
  induction w with
  | nil => cases h
  | cons x w ih =>
    cases x with
    | lit c =>
      have hw : Piece.quotes ∈ w := by simpa using h
      rw [literal, ih hw]
      rfl
    | quoted _ | quotes | param _ _ => rfl

/-- A line with an assignment of a quoted string. -/
theorem parse_assignment {name : List Char} (h : IsName name) (value : List Char) :
    transduce parseStep .start [.word (name.map .lit ++ .lit '=' :: quoteWord value), .newline] =
      some (.start, [.simple ⟨[(name, quoteWord value)], [], []⟩]) := by
  have hliteral : literal (name.map .lit ++ .lit '=' :: quoteWord value) = none :=
    literal_of_quotes (by simp [quoteWord])
  have hsplit : splitAssignments [name.map .lit ++ .lit '=' :: quoteWord value] =
      ([(name, quoteWord value)], []) := by
    rw [splitAssignments, assignment_name h]
    rfl
  have hword : parseStep .start (.word (name.map .lit ++ .lit '=' :: quoteWord value)) =
      some (⟨[], { Level.start with
        pending := .simple [name.map .lit ++ .lit '=' :: quoteWord value] [] }⟩, []) := by
    simp only [parseStep, wordStep, Parser.start, Level.start, hliteral, Option.bind_none,
      Option.map_some]
  simp only [transduce, hword, Option.bind_eq_bind, Option.bind_some]
  simp only [parseStep, Level.start, reduceCtorEq, false_and, if_false, endCommand, Level.joined,
    Pending.script, hsplit, Option.bind_eq_bind, Option.bind_some, Bool.false_eq_true]
  rfl

end NeoProot.Shell
