import MiniExchange.Foundation.Decimal
import MiniExchange.Foundation.Tokens
import MiniExchange.Protocol.TextProtocol

/-!
# Text protocol parser

The parser of `adapters/text_protocol/text_protocol_parser.cpp`.  A line is cut
into tokens; the first names the command, the others are read in order, and
the first that cannot be read is named in the error.
-/

namespace MiniExchange
namespace TextProtocol

open Foundation
open Foundation.Tokens (Runs)
open Foundation.Decimal (fromChars int64 uint64 Written)

def isWhitespace (c : UInt8) : Bool :=
  c == 32 || c == 9 || c == 13 || c == 10

def tokenize (line : List UInt8) : List (List UInt8) :=
  Tokens.split isWhitespace line

def parseSide (s : List UInt8) : Option Side :=
  if s = ascii "BUY" then some .buy
  else if s = ascii "SELL" then some .sell
  else none

def parseInteger (type : Decimal.IntType) (s : List UInt8) : Option Int :=
  if s = [] then none
  else
    match fromChars type s with
    | some (number, []) => some number
    | _ => none

def parseUint64 (s : List UInt8) : Option UInt64 :=
  (parseInteger uint64 s).map fun number => UInt64.ofNat number.toNat

def parseInt64 (s : List UInt8) : Option Int64 :=
  (parseInteger int64 s).map Int64.ofInt

/-- The value read from a token, or an error that ends in the token. -/
def orError {α : Type} (value : Option α) (message : String) (token : List UInt8) :
    Except (List UInt8) α :=
  match value with
  | some a => .ok a
  | none => .error (ascii message ++ token)

def parseCancel : List (List UInt8) -> Except (List UInt8) EngineCommand
  | [idToken] => do
      let id ← orError (parseUint64 idToken) "Invalid order ID: " idToken
      .ok (.cancel ⟨id⟩)
  | _ => .error (ascii "Usage: CANCEL <id>")

def parseAdd : List (List UInt8) -> Except (List UInt8) EngineCommand
  | [idToken, sideToken, priceToken, qtyToken] => do
      let id ← orError (parseUint64 idToken) "Invalid order ID: " idToken
      let side ← orError (parseSide sideToken) "Invalid side (expected BUY or SELL): " sideToken
      let price ← orError (parseInt64 priceToken) "Invalid price: " priceToken
      let qty ← orError (parseUint64 qtyToken) "Invalid quantity: " qtyToken
      .ok (.limit { id := ⟨id⟩, side := side, price := ⟨price⟩, quantity := ⟨qty⟩ })
  | _ => .error (ascii "Usage: ADD <id> <BUY|SELL> <price> <qty>")

def parseMarket : List (List UInt8) -> Except (List UInt8) EngineCommand
  | [idToken, sideToken, qtyToken] => do
      let id ← orError (parseUint64 idToken) "Invalid order ID: " idToken
      let side ← orError (parseSide sideToken) "Invalid side (expected BUY or SELL): " sideToken
      let qty ← orError (parseUint64 qtyToken) "Invalid quantity: " qtyToken
      .ok (.market { id := ⟨id⟩, side := side, quantity := ⟨qty⟩ })
  | _ => .error (ascii "Usage: MARKET <id> <BUY|SELL> <qty>")

def parseTokens : List (List UInt8) -> Except (List UInt8) EngineCommand
  | [] => .error (ascii "Empty command")
  | cmd :: args =>
      if cmd = ascii "CANCEL" then parseCancel args
      else if cmd = ascii "ADD" then parseAdd args
      else if cmd = ascii "MARKET" then parseMarket args
      else .error (ascii "Unknown command: " ++ cmd)

def parse (line : List UInt8) : Except (List UInt8) EngineCommand :=
  parseTokens (tokenize line)

/-!
## The grammar

What a line means, stated on its tokens and without the parser.
-/

def sideText : Side -> List UInt8
  | .buy => ascii "BUY"
  | .sell => ascii "SELL"

/-- The three forms of a command, with the values that its tokens are written for. -/
inductive Sentence : List (List UInt8) -> EngineCommand -> Prop where
  | cancel {idToken : List UInt8} {id : OrderId} (hid : Written uint64 idToken id.value.toNat) :
      Sentence [ascii "CANCEL", idToken] (.cancel id)
  | add {idToken priceToken qtyToken : List UInt8} {id : OrderId} {side : Side} {price : Price}
      {qty : Quantity} (hid : Written uint64 idToken id.value.toNat)
      (hprice : Written int64 priceToken price.value.toInt)
      (hqty : Written uint64 qtyToken qty.value.toNat) :
      Sentence [ascii "ADD", idToken, sideText side, priceToken, qtyToken]
        (.limit { id := id, side := side, price := price, quantity := qty })
  | market {idToken qtyToken : List UInt8} {id : OrderId} {side : Side} {qty : Quantity}
      (hid : Written uint64 idToken id.value.toNat)
      (hqty : Written uint64 qtyToken qty.value.toNat) :
      Sentence [ascii "MARKET", idToken, sideText side, qtyToken]
        (.market { id := id, side := side, quantity := qty })

def commandTokens : EngineCommand -> List (List UInt8)
  | .cancel id => [ascii "CANCEL", decimal id.value.toNat]
  | .limit order =>
      [ascii "ADD", decimal order.id.value.toNat, sideText order.side,
        signedDecimal order.price.value.toInt, decimal order.quantity.value.toNat]
  | .market order =>
      [ascii "MARKET", decimal order.id.value.toNat, sideText order.side,
        decimal order.quantity.value.toNat]

/-!
## Tokens
-/

variable {s : List UInt8}

theorem parseInteger_eq_some_iff {type : Decimal.IntType} {n : Int} :
    parseInteger type s = some n <-> type.Holds n ∧ Written type s n := by
  rw [← Decimal.fromChars_whole_iff]
  unfold parseInteger
  constructor
  · intro h
    split at h
    · cases h
    · split at h
      · next number hread =>
          rw [hread, Option.some.inj h]
      · cases h
  · intro hread
    have hne : s ≠ [] := by
      rintro rfl
      rcases (Decimal.fromChars_whole_iff.mp hread).right with hnumeral | ⟨-, ds, hds, -⟩
      · exact hnumeral.left.left rfl
      · cases hds
    rw [if_neg hne, hread]

theorem map_parseInteger_eq_some_iff {β : Type} {type : Decimal.IntType} {f : Int -> β}
    {g : β -> Int} (hvalue : forall n, type.Holds n -> g (f n) = n)
    (hholds : forall v, type.Holds (g v)) (hback : forall v, f (g v) = v)
    {v : β} :
    (parseInteger type s).map f = some v <-> Written type s (g v) := by
  rw [Option.map_eq_some_iff]
  constructor
  · rintro ⟨n, hread, rfl⟩
    rcases parseInteger_eq_some_iff.mp hread with ⟨hn, hwritten⟩
    rw [hvalue n hn]
    exact hwritten
  · intro hwritten
    exact ⟨g v, parseInteger_eq_some_iff.mpr ⟨hholds v, hwritten⟩, hback v⟩

theorem parseUint64_eq_some_iff {v : UInt64} :
    parseUint64 s = some v <-> Written uint64 s v.toNat := by
  apply map_parseInteger_eq_some_iff (g := fun v : UInt64 => (v.toNat : Int))
  · rintro n ⟨hlow, hhigh⟩
    replace hlow : 0 <= n := hlow
    replace hhigh : n <= 2 ^ 64 - 1 := hhigh
    rw [UInt64.toNat_ofNat_of_lt' (by show n.toNat < 2 ^ 64; omega)]
    omega
  · intro v
    have hlt := v.toNat_lt
    constructor
    · show (0 : Int) <= v.toNat
      omega
    · show (v.toNat : Int) <= 2 ^ 64 - 1
      omega
  · intro v
    rw [Int.toNat_natCast, UInt64.ofNat_toNat]

theorem parseInt64_eq_some_iff {v : Int64} :
    parseInt64 s = some v <-> Written int64 s v.toInt := by
  apply map_parseInteger_eq_some_iff (g := Int64.toInt)
  · intro n hholds
    have hn : n < 2 ^ 63 := Int.lt_of_le_sub_one hholds.right
    exact Int64.toInt_ofInt_of_le hholds.left hn
  · intro v
    exact ⟨v.le_toInt, Int.le_sub_one_of_lt v.toInt_lt⟩
  · intro v
    exact Int64.ofInt_toInt v

theorem parseSide_eq_some_iff {side : Side} :
    parseSide s = some side <-> s = sideText side := by
  constructor
  · intro h
    unfold parseSide at h
    split at h
    · next hbuy =>
        cases Option.some.inj h
        exact hbuy
    · split at h
      · next hsell =>
          cases Option.some.inj h
          exact hsell
      · cases h
  · rintro rfl
    cases side <;> rfl

/-!
## Commands
-/

theorem orError_bind_eq_ok_iff {α β : Type} {value : Option α} {message : String}
    {token : List UInt8} {f : α -> Except (List UInt8) β} {b : β} :
    (orError value message token >>= f) = .ok b <->
      exists a, value = some a ∧ f a = .ok b := by
  cases value with
  | none =>
      constructor
      · intro h
        cases h
      · rintro ⟨a, ha, -⟩
        cases ha
  | some a =>
      constructor
      · intro h
        exact ⟨a, rfl, h⟩
      · rintro ⟨a', ha, h⟩
        cases Option.some.inj ha
        exact h

variable {command : EngineCommand}

theorem parseCancel_eq_ok_iff {args : List (List UInt8)} :
    parseCancel args = .ok command <-> Sentence (ascii "CANCEL" :: args) command := by
  constructor
  · intro h
    unfold parseCancel at h
    split at h
    · rcases orError_bind_eq_ok_iff.mp h with ⟨id, hid, hok⟩
      cases hok
      exact .cancel (parseUint64_eq_some_iff.mp hid)
    · cases h
  · intro h
    generalize hcmd : ascii "CANCEL" = cmd at h
    cases h with
    | cancel hid => exact orError_bind_eq_ok_iff.mpr ⟨_, parseUint64_eq_some_iff.mpr hid, rfl⟩
    | add _ _ _ => exact absurd hcmd (by decide)
    | market _ _ => exact absurd hcmd (by decide)

theorem parseAdd_eq_ok_iff {args : List (List UInt8)} :
    parseAdd args = .ok command <-> Sentence (ascii "ADD" :: args) command := by
  constructor
  · intro h
    unfold parseAdd at h
    split at h
    · rcases orError_bind_eq_ok_iff.mp h with ⟨id, hid, h⟩
      rcases orError_bind_eq_ok_iff.mp h with ⟨side, hside, h⟩
      rcases orError_bind_eq_ok_iff.mp h with ⟨price, hprice, h⟩
      rcases orError_bind_eq_ok_iff.mp h with ⟨qty, hqty, hok⟩
      cases hok
      rw [parseSide_eq_some_iff.mp hside]
      exact .add (parseUint64_eq_some_iff.mp hid) (parseInt64_eq_some_iff.mp hprice)
        (parseUint64_eq_some_iff.mp hqty)
    · cases h
  · intro h
    generalize hcmd : ascii "ADD" = cmd at h
    cases h with
    | cancel _ => exact absurd hcmd (by decide)
    | market _ _ => exact absurd hcmd (by decide)
    | add hid hprice hqty =>
        refine orError_bind_eq_ok_iff.mpr ⟨_, parseUint64_eq_some_iff.mpr hid, ?_⟩
        refine orError_bind_eq_ok_iff.mpr ⟨_, parseSide_eq_some_iff.mpr rfl, ?_⟩
        refine orError_bind_eq_ok_iff.mpr ⟨_, parseInt64_eq_some_iff.mpr hprice, ?_⟩
        exact orError_bind_eq_ok_iff.mpr ⟨_, parseUint64_eq_some_iff.mpr hqty, rfl⟩

theorem parseMarket_eq_ok_iff {args : List (List UInt8)} :
    parseMarket args = .ok command <-> Sentence (ascii "MARKET" :: args) command := by
  constructor
  · intro h
    unfold parseMarket at h
    split at h
    · rcases orError_bind_eq_ok_iff.mp h with ⟨id, hid, h⟩
      rcases orError_bind_eq_ok_iff.mp h with ⟨side, hside, h⟩
      rcases orError_bind_eq_ok_iff.mp h with ⟨qty, hqty, hok⟩
      cases hok
      rw [parseSide_eq_some_iff.mp hside]
      exact .market (parseUint64_eq_some_iff.mp hid) (parseUint64_eq_some_iff.mp hqty)
    · cases h
  · intro h
    generalize hcmd : ascii "MARKET" = cmd at h
    cases h with
    | cancel _ => exact absurd hcmd (by decide)
    | add _ _ _ => exact absurd hcmd (by decide)
    | market hid hqty =>
        refine orError_bind_eq_ok_iff.mpr ⟨_, parseUint64_eq_some_iff.mpr hid, ?_⟩
        refine orError_bind_eq_ok_iff.mpr ⟨_, parseSide_eq_some_iff.mpr rfl, ?_⟩
        exact orError_bind_eq_ok_iff.mpr ⟨_, parseUint64_eq_some_iff.mpr hqty, rfl⟩

theorem parseTokens_eq_ok_iff {tokens : List (List UInt8)} :
    parseTokens tokens = .ok command <-> Sentence tokens command := by
  cases tokens with
  | nil =>
      constructor
      · intro h
        cases h
      · intro h
        cases h
  | cons cmd args =>
      rw [parseTokens]
      split
      · next hcancel => rw [hcancel, parseCancel_eq_ok_iff]
      · next hcancel =>
          split
          · next hadd => rw [hadd, parseAdd_eq_ok_iff]
          · next hadd =>
              split
              · next hmarket => rw [hmarket, parseMarket_eq_ok_iff]
              · next hmarket =>
                  constructor
                  · intro h
                    cases h
                  · intro h
                    cases h with
                    | cancel _ => exact absurd rfl hcancel
                    | add _ _ _ => exact absurd rfl hadd
                    | market _ _ => exact absurd rfl hmarket

theorem parse_eq_ok_iff {line : List UInt8} :
    parse line = .ok command <->
      exists tokens, Runs isWhitespace line tokens ∧ Sentence tokens command := by
  unfold parse tokenize
  rw [parseTokens_eq_ok_iff]
  constructor
  · intro h
    exact ⟨_, Tokens.runs_split isWhitespace line, h⟩
  · rintro ⟨tokens, hruns, h⟩
    rw [Tokens.split_eq_iff.mpr hruns]
    exact h

/-!
## Printed commands
-/

theorem sentence_commandTokens (command : EngineCommand) :
    Sentence (commandTokens command) command.unowned := by
  have hnat : forall v : UInt64, Written uint64 (decimal v.toNat) v.toNat := fun v =>
    Decimal.written_digits uint64 v.toNat
  cases command with
  | cancel id => exact .cancel (hnat _)
  | limit order =>
      exact .add (hnat _) (Decimal.written_signedDigits rfl order.price.value.toInt)
        (hnat _)
  | market order => exact .market (hnat _) (hnat _)

def Solid (token : List UInt8) : Prop :=
  token ≠ [] ∧ forall c, c ∈ token -> isWhitespace c = false

instance (token : List UInt8) : Decidable (Solid token) :=
  decidable_of_iff (token.isEmpty = false ∧ token.all (fun c => !isWhitespace c) = true)
    (by simp [Solid])

theorem isWhitespace_of_isDigit {c : UInt8} (h : Decimal.isDigit c = true) :
    isWhitespace c = false := by
  cases hspace : isWhitespace c with
  | false => rfl
  | true =>
      simp only [isWhitespace, Bool.or_eq_true, beq_iff_eq] at hspace
      rcases hspace with ((rfl | rfl) | rfl) | rfl <;> cases h

theorem solid_decimal (n : Nat) : Solid (decimal n) :=
  ⟨Decimal.digits_ne_nil n, fun _ hc => isWhitespace_of_isDigit (Decimal.isDigit_of_mem_digits hc)⟩

theorem solid_signedDecimal (n : Int) : Solid (signedDecimal n) := by
  constructor
  · intro hnil
    unfold signedDecimal at hnil
    split at hnil
    · cases hnil
    · exact Decimal.digits_ne_nil _ hnil
  · intro c hc
    rcases Decimal.mem_signedDigits hc with rfl | hdigit
    · rfl
    · exact isWhitespace_of_isDigit hdigit

theorem solid_sideText (side : Side) : Solid (sideText side) := by
  cases side <;> decide

theorem solid_of_mem_commandTokens {token : List UInt8}
    (h : token ∈ commandTokens command) : Solid token := by
  cases command with
  | cancel id =>
      simp only [commandTokens, List.mem_cons, List.not_mem_nil, or_false] at h
      rcases h with rfl | rfl
      · decide
      · exact solid_decimal _
  | limit order =>
      simp only [commandTokens, List.mem_cons, List.not_mem_nil, or_false] at h
      rcases h with rfl | rfl | rfl | rfl | rfl
      · decide
      · exact solid_decimal _
      · exact solid_sideText _
      · exact solid_signedDecimal _
      · exact solid_decimal _
  | market order =>
      simp only [commandTokens, List.mem_cons, List.not_mem_nil, or_false] at h
      rcases h with rfl | rfl | rfl | rfl
      · decide
      · exact solid_decimal _
      · exact solid_sideText _
      · exact solid_decimal _

theorem parse_printed {lead : List UInt8}
    {pieces : List (List UInt8 × List UInt8)}
    (htokens : pieces.map Prod.fst = commandTokens command)
    (hlead : lead.all isWhitespace = true)
    (hgap : forall piece, piece ∈ pieces -> piece.2.all isWhitespace = true)
    (hbetween : forall piece, piece ∈ pieces.dropLast -> piece.2 ≠ []) :
    parse (lead ++ pieces.flatMap fun piece => piece.1 ++ piece.2) = .ok command.unowned := by
  have hsolid : forall piece, piece ∈ pieces -> Solid piece.1 := by
    intro piece hpiece
    have hmem : piece.1 ∈ pieces.map Prod.fst := List.mem_map_of_mem hpiece
    rw [htokens] at hmem
    exact solid_of_mem_commandTokens hmem
  have hruns := Tokens.runs_pieces lead pieces (List.all_eq_true.mp hlead) hsolid
    (fun piece hpiece => List.all_eq_true.mp (hgap piece hpiece)) hbetween
  rw [htokens] at hruns
  exact parse_eq_ok_iff.mpr ⟨_, hruns, sentence_commandTokens command⟩

/-- The parser accepts the lines of the grammar and no others, and reads back what is printed. -/
theorem parser_accepts_grammar :
    (forall line command, parse line = .ok command <->
      exists tokens, Runs isWhitespace line tokens ∧ Sentence tokens command) ∧
    forall (command : EngineCommand) (lead : List UInt8)
      (pieces : List (List UInt8 × List UInt8)),
      pieces.map Prod.fst = commandTokens command ->
      lead.all isWhitespace = true ->
      (forall piece, piece ∈ pieces -> piece.2.all isWhitespace = true) ->
      (forall piece, piece ∈ pieces.dropLast -> piece.2 ≠ []) ->
      parse (lead ++ pieces.flatMap fun piece => piece.1 ++ piece.2) = .ok command.unowned :=
  ⟨fun _ _ => parse_eq_ok_iff,
    fun _ _ _ htokens hlead hgap hbetween => parse_printed htokens hlead hgap hbetween⟩

/-- A line with whitespace of every kind. -/
theorem parser_accepts_spaced_line :
    parse (ascii "\t CANCEL \t\r 42\r\n") = .ok (.cancel ⟨42⟩) :=
  parser_accepts_grammar.right (.cancel ⟨42⟩) (ascii "\t ")
    [(ascii "CANCEL", ascii " \t\r "), (ascii "42", ascii "\r\n")]
    (by decide) (by decide) (by decide) (by decide)

end TextProtocol
end MiniExchange
