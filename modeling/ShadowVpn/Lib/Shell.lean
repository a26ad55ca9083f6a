import Mathlib.Data.List.Basic
import Mathlib.Tactic.Common

/-! Quoting and its undoing: literals of a script between double quotes, and the words and operators
of a POSIX shell. The two readers give up on whatever they do not model, so that a text they read has
the meaning they say and no other. -/

namespace Lib

/-- Every `c` becomes `t`. -/
def substitute (c : Char) (t s : List Char) : List Char := s.flatMap fun x => if x = c then t else [x]

theorem all_substitute {p : Char → Bool} {c : Char} {t s : List Char} (ht : t.all p = true)
    (hs : s.all p = true) : (substitute c t s).all p = true := by
  rw [List.all_eq_true] at ht hs ⊢
  intro x hx
  obtain ⟨y, hy, hxy⟩ := List.mem_flatMap.1 hx
  split_ifs at hxy
  · exact ht x hxy
  · rw [List.mem_singleton.1 hxy]
    exact hs y hy

def isAsciiControl (c : Char) : Bool := c.toNat < 32 || c.toNat = 127

/-! Literals. -/

/-- The text up to the closing quote, and what follows it. A backslash stands before a backslash or
a quote; a control character is an error. -/
def literalBody : (escaped : Bool) → List Char → Option (List Char × List Char)
  | _, [] => none
  | true, c :: rest =>
    if c = '\\' ∨ c = '"' then (literalBody false rest).map fun p => (c :: p.1, p.2) else none
  | false, c :: rest =>
    if c = '"' then some ([], rest)
    else if c = '\\' then literalBody true rest
    else if isAsciiControl c then none
    else (literalBody false rest).map fun p => (c :: p.1, p.2)

def literal : List Char → Option (List Char × List Char)
  | [] => none
  | c :: rest => if c = '"' then literalBody false rest else none

/-- Backslashes first, so that those of the quotes stay single. -/
def escape (s : List Char) : List Char := substitute '"' ['\\', '"'] (substitute '\\' ['\\', '\\'] s)

theorem escape_cons (c : Char) (s : List Char) :
    escape (c :: s) = (if c = '\\' ∨ c = '"' then ['\\', c] else [c]) ++ escape s := by
  simp only [escape, substitute, List.flatMap_cons, List.flatMap_append]
  congr 1
  by_cases hslash : c = '\\'
  · subst hslash
    rfl
  · rw [if_neg hslash, List.flatMap_cons, List.flatMap_nil, List.append_nil]
    by_cases hquote : c = '"'
    · subst hquote
      rfl
    · rw [if_neg hquote, if_neg (not_or.2 ⟨hslash, hquote⟩)]

theorem literalBody_escape {s : List Char} (h : s.all (fun c => !isAsciiControl c) = true) (rest : List Char) :
    literalBody false (escape s ++ '"' :: rest) = some (s, rest) := by
  induction s with
  | nil => rfl
  | cons c s ih =>
    obtain ⟨hc, hs⟩ := Bool.and_eq_true_iff.1 h
    rw [escape_cons]
    by_cases hspecial : c = '\\' ∨ c = '"'
    · rw [if_pos hspecial, List.cons_append, List.cons_append, List.cons_append, literalBody,
        if_neg (by decide), if_pos rfl, List.cons_append, literalBody, if_pos hspecial,
        List.nil_append, ih hs]
      rfl
    · obtain ⟨hslash, hquote⟩ := not_or.1 hspecial
      rw [if_neg hspecial, List.cons_append, List.cons_append, literalBody, if_neg hquote,
        if_neg hslash, if_neg (by simpa using hc), List.nil_append, ih hs]
      rfl

theorem literal_escape {s : List Char} (h : s.all (fun c => !isAsciiControl c) = true) (rest : List Char) :
    literal ('"' :: (escape s ++ '"' :: rest)) = some (s, rest) := by
  rw [literal, if_pos rfl, literalBody_escape h]

/-! The shell. -/

namespace Shell

inductive Op where
  | less
  | great
  | dgreat
  | lessAnd
  | greatAnd
  | lessGreat
  | clobber
  | amp
  | andIf
deriving DecidableEq

/-- An operator, the number of a descriptor right before one, or a word with its quotes removed. -/
inductive Token where
  | word (text : List Char)
  | ioNumber (digits : List Char)
  | op (o : Op)
deriving DecidableEq

inductive Mode where
  | plain
  | quoted
  | escaped
  | less
  | great
  | amp
deriving DecidableEq

/-- The word that is being read, and whether it is a number without any quotes. -/
structure Part where
  text : List Char
  number : Bool
deriving DecidableEq

structure Lexer where
  tokens : List Token
  part : Option Part
  mode : Mode
deriving DecidableEq

namespace Lexer

def start : Lexer := ⟨[], none, .plain⟩

def emit (l : Lexer) (t : Token) : Lexer := { l with tokens := l.tokens ++ [t] }

/-- A character of the word. -/
def push (l : Lexer) (c : Char) (number : Bool) : Lexer :=
  match l.part with
  | none => { l with part := some ⟨[c], number⟩ }
  | some p => { l with part := some ⟨p.text ++ [c], p.number && number⟩ }

/-- Quotes start a word even if there is nothing between them. -/
def quote (l : Lexer) (mode : Mode) : Lexer :=
  match l.part with
  | none => { l with part := some ⟨[], false⟩, mode := mode }
  | some p => { l with part := some ⟨p.text, false⟩, mode := mode }

/-- The word ends. -/
def flush (l : Lexer) : Lexer :=
  match l.part with
  | none => l
  | some p => { l.emit (.word p.text) with part := none }

/-- The word ends before a redirection. -/
def flushNumber (l : Lexer) : Lexer :=
  match l.part with
  | some ⟨digits, true⟩ => { l.emit (.ioNumber digits) with part := none }
  | _ => l.flush

/-- Characters that are themselves wherever they stand. -/
def isPlain (c : Char) : Bool :=
  c.isAlphanum || ['/', '-', '_', '.', ',', ':', '@', '%', '+'].contains c

def plainStep (l : Lexer) (c : Char) : Option Lexer :=
  if c = '\'' then some (l.quote .quoted)
  else if c = '\\' then some (l.quote .escaped)
  else if c = ' ' ∨ c = '\t' then some l.flush
  else if c = '<' then some { l.flushNumber with mode := .less }
  else if c = '>' then some { l.flushNumber with mode := .great }
  else if c = '&' then some { l.flush with mode := .amp }
  else if isPlain c then some (l.push c c.isDigit)
  else none

/-- An operator is as long as it can be. -/
def step (l : Lexer) (c : Char) : Option Lexer :=
  match l.mode with
  | .plain => l.plainStep c
  | .quoted => some (if c = '\'' then { l with mode := .plain } else l.push c false)
  | .escaped => if c = '\n' then none else some { l.push c false with mode := .plain }
  | .less =>
    let l := { l with mode := .plain }
    if c = '&' then some (l.emit (.op .lessAnd))
    else if c = '>' then some (l.emit (.op .lessGreat))
    else if c = '<' then none
    else (l.emit (.op .less)).plainStep c
  | .great =>
    let l := { l with mode := .plain }
    if c = '&' then some (l.emit (.op .greatAnd))
    else if c = '>' then some (l.emit (.op .dgreat))
    else if c = '|' then some (l.emit (.op .clobber))
    else (l.emit (.op .great)).plainStep c
  | .amp =>
    let l := { l with mode := .plain }
    if c = '&' then some (l.emit (.op .andIf)) else (l.emit (.op .amp)).plainStep c

def finish (l : Lexer) : Option (List Token) :=
  match l.mode with
  | .plain => some l.flush.tokens
  | .quoted | .escaped => none
  | .less => some (l.emit (.op .less)).tokens
  | .great => some (l.emit (.op .great)).tokens
  | .amp => some (l.emit (.op .amp)).tokens

end Lexer

/-- The tokens of a text; nothing for a text that needs more of the shell than this. -/
def lex (s : List Char) : Option (List Token) := (s.foldlM Lexer.step .start).bind Lexer.finish

/-- Between apostrophes, with each apostrophe of the text outside of them. -/
def singleQuote (s : List Char) : List Char :=
  '\'' :: (substitute '\'' ['\'', '\\', '\'', '\''] s ++ ['\''])

open Lexer

variable {tokens : List Token}

/-! A text is read part by part. -/

theorem foldlM_cons_of {c : Char} {s : List Char} {l l' : Lexer} (h : l.step c = some l') :
    (c :: s).foldlM step l = s.foldlM step l' := by
  rw [List.foldlM_cons, h]
  rfl

theorem foldlM_append_of {s t : List Char} {l l' : Lexer} (h : s.foldlM step l = some l') :
    (s ++ t).foldlM step l = t.foldlM step l' := by
  rw [List.foldlM_append, h]
  rfl

theorem foldlM_quoted (s w : List Char) :
    (substitute '\'' ['\'', '\\', '\'', '\''] s).foldlM step ⟨tokens, some ⟨w, false⟩, .quoted⟩ =
      some ⟨tokens, some ⟨w ++ s, false⟩, .quoted⟩ := by
  induction s generalizing w with
  | nil => simp [substitute]
  | cons c s ih =>
    have hone : (if c = '\'' then ['\'', '\\', '\'', '\''] else [c]).foldlM step
        ⟨tokens, some ⟨w, false⟩, .quoted⟩ = some ⟨tokens, some ⟨w ++ [c], false⟩, .quoted⟩ := by
      split_ifs with hc
      · subst hc
        rfl
      · simp [step, push, hc]
    rw [substitute, List.flatMap_cons, foldlM_append_of hone]
    exact (ih (w ++ [c])).trans (by rw [List.append_assoc, List.singleton_append])

/-- What is quoted is one word, and stands for itself. -/
theorem foldlM_singleQuote (s : List Char) :
    (singleQuote s).foldlM step ⟨tokens, none, .plain⟩ = some ⟨tokens, some ⟨s, false⟩, .plain⟩ := by
  have hopen : step ⟨tokens, none, .plain⟩ '\'' = some ⟨tokens, some ⟨[], false⟩, .quoted⟩ := rfl
  rw [singleQuote, foldlM_cons_of hopen, foldlM_append_of (foldlM_quoted s [])]
  rfl

theorem plainStep_of_isPlain {l : Lexer} {c : Char} (h : isPlain c = true) :
    l.plainStep c = some (l.push c c.isDigit) := by
  have hne : ∀ d, isPlain d = false → c ≠ d := by
    rintro d hd rfl
    rw [h] at hd
    cases hd
  simp only [plainStep, h, if_true, hne '\'' (by decide), hne '\\' (by decide), hne ' ' (by decide),
    hne '\t' (by decide), hne '<' (by decide), hne '>' (by decide), hne '&' (by decide), if_false, or_self]

theorem foldlM_plain {s : List Char} (h : s.all isPlain = true) (w : List Char) (number : Bool) :
    s.foldlM step ⟨tokens, some ⟨w, number⟩, .plain⟩ =
      some ⟨tokens, some ⟨w ++ s, number && s.all Char.isDigit⟩, .plain⟩ := by
  induction s generalizing w number with
  | nil => simp
  | cons c s ih =>
    obtain ⟨hc, hs⟩ := Bool.and_eq_true_iff.1 h
    have hstep : step ⟨tokens, some ⟨w, number⟩, .plain⟩ c =
        some ⟨tokens, some ⟨w ++ [c], number && c.isDigit⟩, .plain⟩ := plainStep_of_isPlain hc
    rw [foldlM_cons_of hstep, ih hs, List.append_assoc, List.singleton_append, List.all_cons,
      Bool.and_assoc]

/-- A plain word and a quoted one, each after a blank. -/
theorem foldlM_argument {c : Char} {name : List Char} (h : (c :: name).all isPlain = true)
    (w : List Char) (number : Bool) (s : List Char) :
    (' ' :: (c :: name ++ ' ' :: singleQuote s)).foldlM step ⟨tokens, some ⟨w, number⟩, .plain⟩ =
      some ⟨tokens ++ [.word w, .word (c :: name)], some ⟨s, false⟩, .plain⟩ := by
  obtain ⟨hc, hname⟩ := Bool.and_eq_true_iff.1 h
  have hblank : ∀ (ts : List Token) (p : Part), step ⟨ts, some p, .plain⟩ ' ' =
      some ⟨ts ++ [.word p.text], none, .plain⟩ := fun ts p => rfl
  have hfirst : step ⟨tokens ++ [.word w], none, .plain⟩ c =
      some ⟨tokens ++ [.word w], some ⟨[c], c.isDigit⟩, .plain⟩ := plainStep_of_isPlain hc
  rw [foldlM_cons_of (hblank tokens ⟨w, number⟩), List.cons_append, foldlM_cons_of hfirst,
    foldlM_append_of (foldlM_plain hname [c] c.isDigit), foldlM_cons_of (hblank _ _),
    foldlM_singleQuote, List.append_assoc]
  rfl

end Shell

end Lib
