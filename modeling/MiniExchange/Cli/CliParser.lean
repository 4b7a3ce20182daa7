import MiniExchange.Protocol.TextParser

/-!
# CLI parser

`CLIParser::parse` of `apps/cli/cli_parser.cpp`: the two commands of the CLI
itself are intercepted, and every other line goes to the shared text parser.
The CLI looks for its commands with a tokenizer of its own, for which only
spaces and tabs are blank.
-/

namespace MiniExchange
namespace Cli

open Foundation
open Foundation.Tokens (Runs)
open TextProtocol (ascii isWhitespace tokenize)

inductive Command where
  | engine (command : EngineCommand)
  | printBook
  | quit
deriving DecidableEq, Repr

def isBlank (c : UInt8) : Bool :=
  c == 32 || c == 9

def firstToken (line : List UInt8) : List UInt8 :=
  Tokens.word isBlank (line.dropWhile isBlank)

/-- Nothing but blanks follows the first token. -/
def isSingleToken (line : List UInt8) : Bool :=
  ((Tokens.afterWord isBlank (line.dropWhile isBlank)).dropWhile isBlank).isEmpty

def parse (line : List UInt8) : Except (List UInt8) Command :=
  if firstToken line = ascii "QUIT" then
    if isSingleToken line then .ok .quit
    else .error (ascii "QUIT takes no arguments")
  else if firstToken line = ascii "PRINT_BOOK" then
    if isSingleToken line then .ok .printBook
    else .error (ascii "PRINT_BOOK takes no arguments")
  else
    (TextProtocol.parse line).map .engine

/-!
## The result up to the error text
-/

theorem textParse_of_unknown {line cmd : List UInt8} {args : List (List UInt8)}
    (hruns : Runs isWhitespace line (cmd :: args)) (hcancel : cmd ≠ ascii "CANCEL")
    (hadd : cmd ≠ ascii "ADD") (hmarket : cmd ≠ ascii "MARKET") :
    (TextProtocol.parse line).toOption = none := by
  unfold TextProtocol.parse tokenize
  rw [Tokens.split_eq_iff.mpr hruns, TextProtocol.parseTokens, if_neg hcancel, if_neg hadd,
    if_neg hmarket]
  rfl

theorem isWhitespace_of_isBlank {c : UInt8} (h : isBlank c = true) : isWhitespace c = true := by
  unfold isBlank at h
  unfold isWhitespace
  rw [h, Bool.true_or, Bool.true_or]

theorem exists_runs_of_firstToken {line cmd : List UInt8} (hfirst : firstToken line = cmd)
    (hsolid : TextProtocol.Solid cmd) :
    exists args, Runs isBlank line (cmd :: args) ∧
      exists later, Runs isWhitespace line (cmd :: later) ∧ (args = [] -> later = []) := by
  have hruns := Tokens.runs_split isBlank line
  have hword := hruns.word_eq
  rw [show Tokens.word isBlank (line.dropWhile isBlank) = cmd from hfirst] at hword
  cases hsplit : Tokens.split isBlank line with
  | nil =>
      rw [hsplit] at hword
      exact absurd hword hsolid.left
  | cons token args =>
      rw [hsplit] at hword hruns
      rw [show token = cmd from hword.symm] at hruns
      exact ⟨args, hruns,
        hruns.widen (fun _ hc => isWhitespace_of_isBlank hc) hsolid.right⟩

theorem isSingleToken_iff {line : List UInt8} {tokens : List (List UInt8)}
    (hruns : Runs isBlank line tokens) : isSingleToken line = true <-> tokens.tail = [] := by
  unfold isSingleToken
  rw [List.isEmpty_iff]
  exact hruns.single_iff

theorem ne_singleton_of_firstToken {line cmd : List UInt8} (hfirst : firstToken line ≠ cmd) :
    Tokens.split isBlank line ≠ [cmd] := by
  intro hsplit
  have hword := (Tokens.runs_split isBlank line).word_eq
  rw [hsplit] at hword
  exact hfirst hword

theorem intercepted {line cmd message : List UInt8} {command : Command}
    (hfirst : firstToken line = cmd) (hsolid : TextProtocol.Solid cmd) :
    (if isSingleToken line then .ok command
      else .error message : Except (List UInt8) Command).toOption =
      if Tokens.split isBlank line = [cmd] then some command else none := by
  rcases exists_runs_of_firstToken hfirst hsolid with ⟨args, hruns, -⟩
  rw [Tokens.split_eq_iff.mpr hruns]
  by_cases hargs : args = []
  · rw [if_pos ((isSingleToken_iff hruns).mpr hargs), if_pos (by rw [hargs])]
    rfl
  · rw [if_neg (fun h => hargs ((isSingleToken_iff hruns).mp h)),
      if_neg (fun h => hargs (List.cons.inj h).right)]
    rfl

theorem textParse_of_firstToken {line cmd : List UInt8} (hfirst : firstToken line = cmd)
    (hsolid : TextProtocol.Solid cmd) (hcancel : cmd ≠ ascii "CANCEL")
    (hadd : cmd ≠ ascii "ADD") (hmarket : cmd ≠ ascii "MARKET") :
    (TextProtocol.parse line).toOption = none := by
  rcases exists_runs_of_firstToken hfirst hsolid with ⟨-, -, later, hruns, -⟩
  exact textParse_of_unknown hruns hcancel hadd hmarket

theorem toOption_map (result : Except (List UInt8) EngineCommand) :
    (result.map Command.engine).toOption = result.toOption.map Command.engine := by
  cases result <;> rfl

theorem parse_outcome (line : List UInt8) :
    (parse line).toOption =
      if Tokens.split isBlank line = [ascii "QUIT"] then some .quit
      else if Tokens.split isBlank line = [ascii "PRINT_BOOK"] then some .printBook
      else (TextProtocol.parse line).toOption.map Command.engine := by
  unfold parse
  by_cases hquit : firstToken line = ascii "QUIT"
  · have hprint : firstToken line ≠ ascii "PRINT_BOOK" := by
      rw [hquit]
      decide
    rw [if_pos hquit, intercepted hquit (by decide), if_neg (ne_singleton_of_firstToken hprint),
      textParse_of_firstToken hquit (by decide) (by decide) (by decide) (by decide)]
    rfl
  · rw [if_neg hquit, if_neg (ne_singleton_of_firstToken hquit)]
    by_cases hprint : firstToken line = ascii "PRINT_BOOK"
    · rw [if_pos hprint, intercepted hprint (by decide),
        textParse_of_firstToken hprint (by decide) (by decide) (by decide) (by decide)]
      rfl
    · rw [if_neg hprint, if_neg (ne_singleton_of_firstToken hprint), toOption_map]

/-!
## Line breaks

A carriage return or a line feed is whitespace for the text parser and part of
a word for the CLI.
-/

def isBreak (c : UInt8) : Bool :=
  c == 13 || c == 10

def withSpaces (line : List UInt8) : List UInt8 :=
  line.map fun c => if isBreak c then 32 else c

theorem isWhitespace_eq (c : UInt8) : isWhitespace c = (isBlank c || isBreak c) := by
  unfold isWhitespace isBlank isBreak
  rw [Bool.or_assoc]

theorem isBlank_eq_of_not_isBreak {c : UInt8} (h : isBreak c = false) :
    isBlank c = isWhitespace c := by
  rw [isWhitespace_eq, h, Bool.or_false]

theorem runs_withSpaces {line : List UInt8} {tokens : List (List UInt8)}
    (h : Runs isWhitespace line tokens) : Runs isWhitespace (withSpaces line) tokens := by
  apply h.map
  · intro c
    split
    · next hbreak =>
        rw [isWhitespace_eq c, hbreak, Bool.or_true]
        rfl
    · rfl
  · intro c hc
    rw [isWhitespace_eq, Bool.or_eq_false_iff] at hc
    simp [hc.right]

theorem tokenize_withSpaces (line : List UInt8) : tokenize (withSpaces line) = tokenize line :=
  Tokens.split_eq_iff.mpr (runs_withSpaces (Tokens.runs_split isWhitespace line))

theorem textParse_withSpaces (line : List UInt8) :
    TextProtocol.parse (withSpaces line) = TextProtocol.parse line := by
  unfold TextProtocol.parse
  rw [tokenize_withSpaces]

theorem not_isBreak_of_mem_withSpaces {line : List UInt8} {c : UInt8} (h : c ∈ withSpaces line) :
    isBreak c = false := by
  rcases List.mem_map.mp h with ⟨d, -, rfl⟩
  split
  · rfl
  · next hbreak => exact Bool.not_eq_true _ ▸ hbreak

theorem split_of_unbroken {line : List UInt8}
    (h : forall c, c ∈ line -> isBreak c = false) : Tokens.split isBlank line = tokenize line := by
  apply Tokens.split_eq_iff.mpr
  apply (Tokens.runs_split isWhitespace line).congr
  intro c hc
  exact (isBlank_eq_of_not_isBreak (h c hc)).symm

theorem split_singleton_iff {line cmd : List UInt8} (hsolid : TextProtocol.Solid cmd) :
    Tokens.split isBlank line = [cmd] <->
      tokenize line = [cmd] ∧ forall c, c ∈ line -> isBreak c = false := by
  constructor
  · intro hsplit
    have hruns := Tokens.split_eq_iff.mp hsplit
    rcases hruns.widen (fun _ hc => isWhitespace_of_isBlank hc) hsolid.right with
      ⟨later, hwide, hlater⟩
    rw [hlater rfl] at hwide
    refine ⟨Tokens.split_eq_iff.mpr hwide, ?_⟩
    intro c hc
    rcases hruns.mem hc with hblank | ⟨token, htoken, hin⟩
    · simp only [isBlank, Bool.or_eq_true, beq_iff_eq] at hblank
      rcases hblank with rfl | rfl <;> rfl
    · rw [List.mem_singleton.mp htoken] at hin
      have hspace := hsolid.right c hin
      rw [isWhitespace_eq, Bool.or_eq_false_iff] at hspace
      exact hspace.right
  · rintro ⟨htokens, hunbroken⟩
    rw [split_of_unbroken hunbroken, htokens]

theorem parse_withSpaces_outcome (line : List UInt8) :
    (parse (withSpaces line)).toOption =
      if tokenize line = [ascii "QUIT"] then some .quit
      else if tokenize line = [ascii "PRINT_BOOK"] then some .printBook
      else (TextProtocol.parse line).toOption.map .engine := by
  rw [parse_outcome, split_of_unbroken fun c hc => not_isBreak_of_mem_withSpaces hc,
    tokenize_withSpaces, textParse_withSpaces]

theorem map_engine_ne {result : Option EngineCommand} {command : Command}
    (h : forall c, command ≠ .engine c) : some command ≠ result.map .engine := by
  intro heq
  rcases Option.map_eq_some_iff.mp heq.symm with ⟨c, -, hc⟩
  exact h c hc.symm

/-- Line breaks may be replaced by spaces unless the line is a command of the CLI. -/
theorem line_breaks_as_spaces_iff (line : List UInt8) :
    (parse (withSpaces line)).toOption = (parse line).toOption <->
      (forall c, c ∈ line -> isBreak c = false) ∨
        tokenize line ≠ [ascii "QUIT"] ∧ tokenize line ≠ [ascii "PRINT_BOOK"] := by
  rw [parse_withSpaces_outcome, parse_outcome]
  by_cases hunbroken : forall c, c ∈ line -> isBreak c = false
  · rw [split_of_unbroken hunbroken]
    exact ⟨fun _ => Or.inl hunbroken, fun _ => rfl⟩
  · -- The CLI finds a break in the line, so it leaves the line to the text parser.
    have hmissed : forall cmd, TextProtocol.Solid cmd -> Tokens.split isBlank line ≠ [cmd] := by
      intro cmd hsolid hsplit
      exact hunbroken ((split_singleton_iff hsolid).mp hsplit).right
    rw [if_neg (hmissed (ascii "QUIT") (by decide)),
      if_neg (hmissed (ascii "PRINT_BOOK") (by decide))]
    constructor
    · intro hsame
      refine Or.inr ⟨?_, ?_⟩
      · intro hquit
        rw [if_pos hquit] at hsame
        exact map_engine_ne (fun c => by simp) hsame
      · intro hprint
        rw [if_neg (by rw [hprint]; decide), if_pos hprint] at hsame
        exact map_engine_ne (fun c => by simp) hsame
    · rintro (h | ⟨hquit, hprint⟩)
      · exact absurd h hunbroken
      · rw [if_neg hquit, if_neg hprint]

/-- With a carriage return at its end QUIT is refused, with a space it is accepted. -/
theorem quit_with_carriage_return_refused :
    parse (ascii "QUIT\r") = .error (ascii "Unknown command: QUIT") ∧
      withSpaces (ascii "QUIT\r") = ascii "QUIT " ∧
      parse (ascii "QUIT ") = .ok .quit := by
  decide

end Cli
end MiniExchange
