import Triage.Shell.Syntax

/-!
Reading shell scripts: from bytes to tokens, and from tokens to commands.

A script that is not well formed has no command.
-/

namespace Triage

namespace Shell

/-! ## Words -/

/-- What stands before the next single quote, and what follows it. -/
def untilQuote (s : Text) : Option (Text × Text) :=
  let inner := s.takeWhile (· != '\''.ascii)
  if inner.length < s.length then some (inner, s.drop (inner.length + 1)) else none

/-- What stands before the parenthesis that closes `depth` open ones, and what follows it. -/
def untilClosed : (depth : Nat) → Text → Option (Text × Text)
  | _, [] => none
  | depth, b :: rest =>
    if b == ')'.ascii && depth ≤ 1 then some ([], rest)
    else
      let depth :=
        if b == '('.ascii then depth + 1 else if b == ')'.ascii then depth - 1 else depth
      (untilClosed depth rest).map fun (inner, rest) => (b :: inner, rest)

/-- The parameters with a name of one character that is no letter. -/
def isSpecialParameter (b : UInt8) : Bool := "*@#?$!-".ascii.contains b || Byte.isDigit b

/-- The part that stands after a dollar sign, and what follows it. -/
def afterDollar (isQuoted : Bool) (s : Text) : Option (WordPart × Text) :=
  match s with
  | [] => some (.quoted "$".ascii, [])
  | b :: rest =>
    if b == '('.ascii then
      (untilClosed 1 rest).map fun (script, rest) => (.output script isQuoted, rest)
    else if b == '\x7b'.ascii then
      let name := rest.takeWhile (· != '\x7d'.ascii)
      if name.length < rest.length then
        some (.parameter name isQuoted, rest.drop (name.length + 1))
      else none
    else if isSpecialParameter b then some (.parameter [b] isQuoted, rest)
    else
      let name := s.takeWhile isNameByte
      if name.isEmpty then some (.quoted "$".ascii, s)
      else some (.parameter name isQuoted, s.drop name.length)

/-- The mark before and after a script whose output is used. -/
def backquote : UInt8 := 96

/-- What stands before the next backquote, and what follows it. -/
def untilBackquote (isQuoted : Bool) (s : Text) : Option (WordPart × Text) :=
  let script := s.takeWhile (· != backquote)
  if script.length < s.length then some (.output script isQuoted, s.drop (script.length + 1))
  else none

/-- The parts of a text in double quotes, and what follows the closing one. -/
def inQuotes : (fuel : Nat) → Text → Option (Word × Text)
  | 0, _ | _, [] => none
  | fuel + 1, b :: rest =>
    let more (found : Option (WordPart × Text)) : Option (Word × Text) := do
      let (part, rest) ← found
      let (parts, rest) ← inQuotes fuel rest
      pure (part :: parts, rest)
    if b == '"'.ascii then some ([.quoted []], rest)
    else if b == '$'.ascii then more (afterDollar true rest)
    else if b == backquote then more (untilBackquote true rest)
    else
      match b == '\\'.ascii, rest with
      | true, c :: tail =>
        if c == Byte.lineFeed then inQuotes fuel tail
        else if "$\"\\".ascii.contains c || c == backquote then more (some (.quoted [c], tail))
        else more (some (.quoted [b, c], tail))
      | _, _ => more (some (.quoted [b], rest))

/-- Whether a byte ends an unquoted word. -/
def endsWord (b : UInt8) : Bool := " \t\n;&|<>()".ascii.contains b

def wordAt : (fuel : Nat) → Text → Option (Word × Text)
  | 0, _ => none
  | _, [] => some ([], [])
  | fuel + 1, b :: rest =>
    let more (parts : Word) (rest : Text) : Option (Word × Text) :=
      (wordAt fuel rest).map fun (others, rest) => (parts ++ others, rest)
    if endsWord b then some ([], b :: rest)
    else if b == '\''.ascii then (untilQuote rest).bind fun (s, rest) => more [.quoted s] rest
    else if b == '"'.ascii then (inQuotes fuel rest).bind fun (parts, rest) => more parts rest
    else if b == '$'.ascii then
      (afterDollar false rest).bind fun (part, rest) => more [part] rest
    else if b == backquote then
      (untilBackquote false rest).bind fun (part, rest) => more [part] rest
    else
      match b == '\\'.ascii, rest with
      | true, c :: rest => if c == Byte.lineFeed then more [] rest else more [.quoted [c]] rest
      | _, _ => more [.plain [b]] rest

/-- Joins neighbouring parts of the same kind. -/
def joinParts : Word → Word
  | .plain a :: .plain b :: rest => joinParts (.plain (a ++ b) :: rest)
  | .quoted a :: .quoted b :: rest => joinParts (.quoted (a ++ b) :: rest)
  | part :: rest => part :: joinParts rest
  | [] => []
termination_by word => word.length

/-! ## Tokens -/

def operators : List Text :=
  ["&&", "||", ">>", ">&", "<&", ";", "&", "|", "<", ">", "(", ")", "\n"].map String.ascii

def operatorAt? (s : Text) : Option Text := operators.find? fun op => op.isPrefixOf s

/-- The number at the start of a text, if a redirection follows it. -/
def descriptorAt? (s : Text) : Option (Nat × Text) :=
  let digits := s.takeWhile Byte.isDigit
  let rest := s.drop digits.length
  if !digits.isEmpty && (rest.head? == some '<'.ascii || rest.head? == some '>'.ascii) then
    some (Text.digitsValue digits, rest)
  else none

def tokens : (fuel : Nat) → Text → Option (List Token)
  | 0, _ => none
  | _, [] => some []
  | fuel + 1, b :: rest =>
    if b == ' '.ascii || b == '\t'.ascii then tokens fuel rest
    else if b == '#'.ascii then tokens fuel (rest.dropWhile (· != Byte.lineFeed))
    else
      match operatorAt? (b :: rest), descriptorAt? (b :: rest) with
      | some op, _ => (tokens fuel ((b :: rest).drop op.length)).map (.operator op :: ·)
      | none, some (n, rest) => (tokens fuel rest).map (.descriptor n :: ·)
      | none, none => do
        let (parts, rest) ← wordAt (rest.length + 2) (b :: rest)
        let others ← tokens fuel rest
        pure (.word (joinParts parts) :: others)

/-! ## Commands -/

/-- The words with a meaning of their own where a command begins. -/
def reserved : List Text :=
  ["if", "then", "else", "elif", "fi", "while", "until", "for", "in", "do", "done", "!", "\x7b",
   "\x7d"].map String.ascii

/-- The reserved word that a token is. -/
def reservedOf? : Token → Option Text
  | .word [.plain s] => if reserved.contains s then some s else none
  | _ => none

def isReserved (word : String) (t : Token) : Bool := reservedOf? t == some word.ascii

def isOperator (op : String) (t : Token) : Bool := t == .operator op.ascii

/-- The tokens after line feeds and, if `semicolons`, semicolons. -/
def skipBreaks (semicolons : Bool) (ts : List Token) : List Token :=
  ts.dropWhile fun t => isOperator "\n" t || (semicolons && isOperator ";" t)

/-- The assignment that a word is. -/
def assignmentOf? : Word → Option (Text × Word)
  | .plain s :: rest =>
    let name := Text.before '='.ascii s
    if isName name && name.length < s.length then
      some (name, .plain (Text.after '='.ascii s) :: rest)
    else none
  | _ => none

def redirectionAt? : List Token → Option (Redirection × List Token)
  | .descriptor n :: .operator op :: .word w :: rest => make n op w rest
  | .operator op :: .word w :: rest => make (if op.head? == some '<'.ascii then 0 else 1) op w rest
  | _ => none
where
  make (n : Nat) (op : Text) (w : Word) (rest : List Token) :
      Option (Redirection × List Token) :=
    if op == ">".ascii then some (.output n false w, rest)
    else if op == ">>".ascii then some (.output n true w, rest)
    else if op == "<".ascii then some (.input w, rest)
    else if op == ">&".ascii || op == "<&".ascii then some (.duplicate n w, rest)
    else none

/-- A simple command under construction. -/
structure SimpleCommand where
  assignments : List (Text × Word)
  words : List Word
  redirections : List Redirection

def simpleAt (c : SimpleCommand) : (fuel : Nat) → List Token → SimpleCommand × List Token
  | 0, ts => (c, ts)
  | fuel + 1, ts =>
    match redirectionAt? ts with
    | some (r, rest) => simpleAt { c with redirections := c.redirections ++ [r] } fuel rest
    | none =>
      match ts with
      | .word w :: rest =>
        match c.words, assignmentOf? w with
        | [], some a => simpleAt { c with assignments := c.assignments ++ [a] } fuel rest
        | _, _ => simpleAt { c with words := c.words ++ [w] } fuel rest
      | _ => (c, ts)

def redirectionsAt : (fuel : Nat) → List Token → List Redirection × List Token
  | 0, ts => ([], ts)
  | fuel + 1, ts =>
    match redirectionAt? ts with
    | some (r, rest) =>
      let (others, rest) := redirectionsAt fuel rest
      (r :: others, rest)
    | none => ([], ts)

/-- The tokens after one that must come next. -/
def expect (isNext : Token → Bool) : List Token → Option (List Token)
  | t :: rest => if isNext t then some rest else none
  | [] => none

/-- Whether a list of commands ends before a token. -/
def endsList (t : Token) : Bool :=
  isOperator ")" t || (["then", "else", "elif", "fi", "do", "done", "\x7d"].any (isReserved · t))

mutual

def listAt : (fuel : Nat) → List Token → Option (ShellCommand × List Token)
  | 0, _ => none
  | fuel + 1, ts =>
    match skipBreaks true ts with
    | [] => some (.nothing, [])
    | t :: rest =>
      if endsList t then some (.nothing, t :: rest)
      else do
        let (first, rest) ← chainAt fuel (t :: rest)
        match rest with
        | u :: tail =>
          if isOperator ";" u || isOperator "&" u || isOperator "\n" u then do
            let (others, rest) ← listAt fuel tail
            pure (.sequence first others, rest)
          else if endsList u then pure (first, rest)
          else none
        | [] => pure (first, [])

/-- Pipelines that depend on one another. -/
def chainAt : (fuel : Nat) → List Token → Option (ShellCommand × List Token)
  | 0, _ => none
  | fuel + 1, ts => do
    let (first, rest) ← pipelineAt fuel ts
    chainFrom fuel first rest

def chainFrom : (fuel : Nat) → ShellCommand → List Token → Option (ShellCommand × List Token)
  | 0, _, _ => none
  | fuel + 1, first, ts =>
    match ts with
    | t :: rest =>
      if isOperator "&&" t then do
        let (next, rest) ← pipelineAt fuel (skipBreaks false rest)
        chainFrom fuel (.both first next) rest
      else if isOperator "||" t then do
        let (next, rest) ← pipelineAt fuel (skipBreaks false rest)
        chainFrom fuel (.either first next) rest
      else some (first, ts)
    | [] => some (first, [])

def pipelineAt : (fuel : Nat) → List Token → Option (ShellCommand × List Token)
  | 0, _ => none
  | fuel + 1, ts =>
    match ts with
    | t :: rest =>
      if isReserved "!" t then
        (pipelineAt fuel rest).map fun (c, rest) => (.negation c, rest)
      else do
        let (first, rest) ← commandAt fuel ts
        match rest with
        | u :: tail =>
          if isOperator "|" u then do
            let (next, rest) ← pipelineAt fuel (skipBreaks false tail)
            pure (.pipeline first next, rest)
          else pure (first, rest)
        | [] => pure (first, [])
    | [] => none

def conditionalAt : (fuel : Nat) → List Token → Option (ShellCommand × List Token)
  | 0, _ => none
  | fuel + 1, ts => do
    let (test, rest) ← listAt fuel ts
    let (yes, rest) ← listAt fuel (← expect (isReserved "then") rest)
    match rest with
    | t :: tail =>
      if isReserved "elif" t then do
        let (no, rest) ← conditionalAt fuel tail
        pure (.conditional test yes no, rest)
      else if isReserved "else" t then do
        let (no, rest) ← listAt fuel tail
        pure (.conditional test yes no, ← expect (isReserved "fi") rest)
      else pure (.conditional test yes .nothing, ← expect (isReserved "fi") rest)
    | [] => none

def bodyAt : (fuel : Nat) → List Token → Option (ShellCommand × List Token)
  | 0, _ => none
  | fuel + 1, ts => do
    let (body, rest) ← listAt fuel (← expect (isReserved "do") (skipBreaks true ts))
    pure (body, ← expect (isReserved "done") rest)

def commandAt : (fuel : Nat) → List Token → Option (ShellCommand × List Token)
  | 0, _ => none
  | fuel + 1, ts =>
    match ts with
    | [] => none
    | t :: rest =>
      if isOperator "(" t then do
        let (body, rest) ← listAt fuel rest
        let (redirections, rest) := redirectionsAt fuel (← expect (isOperator ")") rest)
        pure (.subshell body redirections, rest)
      else if isReserved "\x7b" t then do
        let (body, rest) ← listAt fuel rest
        let (redirections, rest) := redirectionsAt fuel (← expect (isReserved "\x7d") rest)
        pure (.group body redirections, rest)
      else if isReserved "if" t then do
        let (body, rest) ← conditionalAt fuel rest
        let (redirections, rest) := redirectionsAt fuel rest
        pure (.group body redirections, rest)
      else if isReserved "while" t || isReserved "until" t then do
        let (test, rest) ← listAt fuel rest
        let (body, rest) ← bodyAt fuel rest
        let (redirections, rest) := redirectionsAt fuel rest
        pure (.group (.loop (isReserved "until" t) test body) redirections, rest)
      else if isReserved "for" t then
        match rest with
        | .word [.plain name] :: inWord :: rest =>
          let words := rest.takeWhile fun t => !isOperator ";" t && !isOperator "\n" t
          let listed := words.filterMap fun t => match t with
            | .word w => some w
            | _ => none
          if isReserved "in" inWord then do
            let (body, rest) ← bodyAt fuel (rest.drop words.length)
            let (redirections, rest) := redirectionsAt fuel rest
            pure (.group (.forEach name listed body) redirections, rest)
          else none
        | _ => none
      else if (reservedOf? t).isSome then none
      else
        let (c, left) := simpleAt ⟨[], [], []⟩ (ts.length + 1) ts
        if left.length < ts.length then
          some (.simple c.assignments c.words c.redirections, left)
        else none

end

def read (script : Text) : Option ShellCommand := do
  let ts ← tokens (script.length + 1) script
  let (command, rest) ← listAt (8 * ts.length + 8) ts
  if rest.isEmpty then pure command else none

end Shell

end Triage
