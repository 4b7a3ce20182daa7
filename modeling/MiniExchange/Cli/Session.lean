import MiniExchange.Cli.CliParser
import MiniExchange.Engine.Reference
import MiniExchange.Engine.Uncrossed
import MiniExchange.Foundation.Delimited

/-!
# CLI session

The loop of `apps/cli/main.cpp` and the printer of `apps/cli/console_printer.cpp`,
from the bytes on standard input to the bytes on standard output.  The program
prints what a program around the reference exchange prints; in particular the
ladder of price levels that it prints is the depth of the resting orders.
-/

namespace MiniExchange
namespace Cli

open Foundation
open TextProtocol (ascii decimal signedDecimal)

/-!
## The printer
-/

def resultToString : EngineResult -> String
  | .accepted => "ACCEPTED"
  | .duplicateOrderId => "REJECTED: DuplicateOrderId"
  | .unknownOrderId => "REJECTED: UnknownOrderId"
  | .invalidQuantity => "REJECTED: InvalidQuantity"
  | .invalidPrice => "REJECTED: InvalidPrice"
  | .poolExhausted => "REJECTED: PoolExhausted"
  | .selfTradePrevented => "REJECTED: SelfTradePrevented"
  | .priceOutOfBand => "REJECTED: PriceOutOfBand"
  | .quantityTooLarge => "REJECTED: QuantityTooLarge"
  | .tickSizeMisaligned => "REJECTED: TickSizeMisaligned"
  | .internalError => "REJECTED: InternalError"

def fillText (trade : Trade) : List UInt8 :=
  ascii " FILL " ++ decimal trade.quantity.units ++ ascii "@" ++ signedDecimal trade.price.ticks

def printResponse (response : EngineResponse) : List UInt8 :=
  if response.status ≠ .accepted then
    ascii (resultToString response.status) ++ ascii "\n"
  else if response.trades.isEmpty then
    ascii "ACCEPTED: no fills, remaining_qty=" ++ decimal response.remainingQty.units ++
      ascii "\n"
  else
    ascii "ACCEPTED:" ++ response.trades.flatMap fillText ++
      (if 0 < response.remainingQty.units then
        ascii " | remaining_qty=" ++ decimal response.remainingQty.units
      else ascii " | FULLY FILLED") ++
      ascii "\n"

def printCancelResponse (response : EngineResponse) (id : OrderId) : List UInt8 :=
  if response.status = .accepted then
    ascii "CANCELLED: order " ++ decimal id.value.toNat ++ ascii ", remaining_qty=" ++
      decimal response.remainingQty.units ++ ascii "\n"
  else ascii (resultToString response.status) ++ ascii "\n"

def rowText (row : Price × Nat) : List UInt8 :=
  ascii "  " ++ signedDecimal row.1.ticks ++ ascii ": qty=" ++ decimal row.2 ++ ascii "\n"

def ladderText (asks bids : List (Price × Nat)) : List UInt8 :=
  ascii "=== ORDER BOOK ===\n" ++ ascii "--- ASKS ---\n" ++ asks.flatMap rowText ++
    ascii "--- BIDS ---\n" ++ bids.flatMap rowText ++ ascii "==================\n"

def rows (b : OrderBook) (s : Side) : List (Price × Nat) :=
  (b.levels s).entries.map (fun entry => (entry.1, entry.2.totalQty.units))

/-- Asks are printed against the order of their tree, so that the best is next to the bids. -/
def printBook (b : OrderBook) : List UInt8 :=
  ladderText (rows b .sell).reverse (rows b .buy)

def printError (message : List UInt8) : List UInt8 :=
  ascii "ERROR: " ++ message ++ ascii "\n"

/-!
## The loop
-/

/-- `std::getline` up to the end of the input; what follows the last newline counts if not empty. -/
def getlines (input : List UInt8) : List (List UInt8) :=
  let cut := Delimited.split 10 input
  cut.1 ++ if cut.2.isEmpty then [] else [cut.2]

section Loop

variable {σ : Type} (api : EngineApi σ) (book : σ -> List UInt8)

def printAnswer (command : EngineCommand) (response : EngineResponse) : List UInt8 :=
  match command with
  | .cancel id => printCancelResponse response id
  | _ => printResponse response

def serve (engine : σ) : Except (List UInt8) Command -> List UInt8 × σ
  | .ok (.engine command) =>
      let answered := api.exec engine command
      (printAnswer command answered.1, answered.2)
  | .ok .printBook => (book engine, engine)
  | .ok .quit => ([], engine)
  | .error message => (printError message, engine)

def session (engine : σ) : List (List UInt8) -> List UInt8
  | [] => []
  | line :: rest =>
      let served := serve api book engine (parse line)
      served.1 ++ if parse line = .ok .quit then [] else session served.2 rest

end Loop

def program (raw : Memory) (input : List UInt8) : List UInt8 :=
  session MatchingEngine.api (fun e => printBook e.book) (MatchingEngine.new raw 1000000 {})
    (getlines input)

/-!
## The ladder
-/

/-- The price levels of a side's orders, with what is open there modulo 2^64. -/
def depth (orders : List RestingOrder) : List (Price × Nat) :=
  (PriorityList.totals (fun o => o.price) (fun o => o.quantity.units) orders).map
    (fun row => (row.1, row.2 % 2 ^ 64))

section Ladder

variable {b : OrderBook}

theorem resting_eq_flatMap {free : List Slot} (h : Represents b b.restingSlots free)
    (s : Side) :
    b.resting s = ((b.levels s).entries.map Prod.fst).flatMap
      (fun p => (slotsAt b.mem (b.restingSlots s) p).map b.data) := by
  have hslots : b.restingSlots s =
      (b.levels s).entries.flatMap (fun e => slotsAt b.mem (b.restingSlots s) e.1) := by
    conv => lhs; unfold OrderBook.restingSlots
    apply List.flatMap_congr
    intro e he
    exact h.level_slots ((b.levels s).mem_entries_iff.mp he)
  rw [OrderBook.resting_eq]
  conv => lhs; rw [hslots]
  rw [List.map_flatMap, List.flatMap_map]

theorem nodup_prices (b : OrderBook) (s : Side) : ((b.levels s).entries.map Prod.fst).Nodup := by
  unfold List.Nodup
  rw [List.pairwise_map]
  apply (b.levels s).sorted.imp
  intro e e' hlt heq
  rw [heq] at hlt
  exact irrefl_of s.better _ hlt

theorem rows_eq (hw : b.WellFormed) (s : Side) : rows b s = depth (b.resting s) := by
  rcases hw with ⟨free, h⟩
  have hfind : forall e, e ∈ (b.levels s).entries -> (b.levels s).find? e.1 = some e.2 :=
    fun e he => (b.levels s).mem_entries_iff.mp he
  unfold depth
  rw [resting_eq_flatMap h, PriorityList.totals_flatMap]
  · rw [List.map_map, List.map_map]
    apply List.map_congr_left
    intro e he
    have htotal := ((h.levels s e.1).some_rep e.2 (hfind e he)).total
    have hunits : (((slotsAt b.mem (b.restingSlots s) e.1).map b.data).map
        (fun o => o.quantity.units)).sum =
          slotUnits b.mem (slotsAt b.mem (b.restingSlots s) e.1) := by
      rw [List.map_map]
      rfl
    rw [← hunits] at htotal
    exact Prod.ext rfl htotal
  · exact nodup_prices b s
  · intro p hp
    rcases List.mem_map.mp hp with ⟨e, he, rfl⟩
    intro hnil
    exact ((h.levels s e.1).some_rep e.2 (hfind e he)).nonempty (List.map_eq_nil_iff.mp hnil)
  · intro p _ o ho
    rcases List.mem_map.mp ho with ⟨x, hx, rfl⟩
    exact (Represents.mem_slotsAt.mp hx).right

theorem mem_rows (hw : b.WellFormed) {s : Side} {row : Price × Nat} (hrow : row ∈ rows b s) :
    (exists o, o ∈ b.resting s ∧ o.price = row.1) ∧
      row.2 = volume (fun p => decide (p = row.1)) (b.resting s) % 2 ^ 64 := by
  rcases hw with ⟨free, h⟩
  rcases List.mem_map.mp hrow with ⟨e, he, rfl⟩
  have hrep := (h.levels s e.1).some_rep e.2 ((b.levels s).mem_entries_iff.mp he)
  constructor
  · rcases List.exists_mem_of_ne_nil _ hrep.nonempty with ⟨x, hx⟩
    rcases Represents.mem_slotsAt.mp hx with ⟨hslot, hprice⟩
    exact ⟨b.data x, List.mem_map_of_mem hslot, hprice⟩
  · have hvolume : volume (fun p => decide (p = e.1)) (b.resting s) =
        slotUnits b.mem (slotsAt b.mem (b.restingSlots s) e.1) := by
      unfold volume
      rw [OrderBook.resting_eq, List.filter_map, List.map_map]
      rfl
    rw [hvolume]
    exact hrep.total

theorem exists_row (hw : b.WellFormed) {s : Side} {o : RestingOrder} (ho : o ∈ b.resting s) :
    exists row, row ∈ rows b s ∧ row.1 = o.price := by
  rcases hw with ⟨free, h⟩
  rcases List.mem_map.mp ho with ⟨x, hx, rfl⟩
  rcases h.level_of_mem hx with ⟨l, hfind, -⟩
  exact ⟨((b.mem x).price, l.totalQty.units),
    List.mem_map.mpr ⟨_, (b.levels s).mem_entries_iff.mpr hfind, rfl⟩, rfl⟩

theorem ladder_falls (hw : b.WellFormed) (huncrossed : b.Uncrossed) :
    ((rows b .sell).reverse ++ rows b .buy).Pairwise (fun row row' => row'.1 < row.1) := by
  have hside : forall s, (rows b s).Pairwise (fun row row' => s.better row.1 row'.1) := by
    intro s
    unfold rows
    rw [List.pairwise_map]
    exact (b.levels s).sorted
  apply List.pairwise_append.mpr
  refine ⟨List.pairwise_reverse.mpr (hside .sell), hside .buy, ?_⟩
  intro ask hask bid hbid
  rcases (mem_rows hw (List.mem_reverse.mp hask)).left with ⟨o, ho, hprice⟩
  rcases (mem_rows hw hbid).left with ⟨o', ho', hprice'⟩
  rw [← hprice, ← hprice']
  exact huncrossed o' o ho' ho

end Ladder

/-!
## The program around the reference exchange
-/

def referenceApi : EngineApi Reference where
  submit := Reference.submit
  cancel := Reference.cancel

def referenceBook (r : Reference) : List UInt8 :=
  ladderText (depth (r.resting .sell)).reverse (depth (r.resting .buy))

def referenceProgram (input : List UInt8) : List UInt8 :=
  session referenceApi referenceBook (Reference.new 1000000 {}) (getlines input)

theorem own_of_parse {line : List UInt8} {command : EngineCommand}
    (h : parse line = .ok (.engine command)) :
    OwnId (fun _ => ⟨0⟩) command := by
  have hparse : TextProtocol.parse line = .ok command := by
    unfold parse at h
    split at h
    · split at h <;> cases h
    · split at h
      · split at h <;> cases h
      · cases hresult : TextProtocol.parse line with
        | error message =>
            rw [hresult] at h
            cases h
        | ok parsed =>
            rw [hresult] at h
            cases h
            rfl
  rcases TextProtocol.parse_eq_ok_iff.mp hparse with ⟨tokens, -, hsentence⟩
  intro order horder
  cases hsentence with
  | cancel hid => cases horder
  | add hid hprice hqty =>
      cases horder
      rfl
  | market hid hqty =>
      cases horder
      rfl

theorem referenceApi_exec (r : Reference) (command : EngineCommand) :
    referenceApi.exec r command = r.exec command := by
  cases command <;> rfl

theorem session_refines (lines : List (List UInt8)) {e : MatchingEngine}
    (h : MatchingEngine.Separated (fun _ => ⟨0⟩) e) :
    session MatchingEngine.api (fun e => printBook e.book) e lines =
      session referenceApi referenceBook e.reference lines := by
  induction lines generalizing e with
  | nil => rfl
  | cons line rest ih =>
      have hbook : printBook e.book = referenceBook e.reference := by
        unfold printBook referenceBook
        rw [rows_eq h.wellFormed, rows_eq h.wellFormed]
        rfl
      unfold session
      cases hparse : parse line with
      | error message =>
          show printError message ++ session _ _ e rest =
            printError message ++ session _ _ e.reference rest
          rw [ih h]
      | ok command =>
          cases command with
          | quit => rfl
          | printBook =>
              show printBook e.book ++ session _ _ e rest =
                referenceBook e.reference ++ session _ _ e.reference rest
              rw [ih h, hbook]
          | engine command =>
              have hrefines := h.exec_refines command
              have hexec := ih (h.exec (own_of_parse hparse))
              show printAnswer command (MatchingEngine.api.exec e command).1 ++
                  session _ _ (MatchingEngine.api.exec e command).2 rest =
                printAnswer command (referenceApi.exec e.reference command).1 ++
                  session _ _ (referenceApi.exec e.reference command).2 rest
              rw [referenceApi_exec, ← hrefines, MatchingEngine.api_exec, hexec]

/--
For every input the program prints, byte for byte, what the program around the
reference exchange prints.
-/
theorem program_prints_reference (raw : Memory) (input : List UInt8) :
    program raw input = referenceProgram input := by
  unfold program referenceProgram
  rw [session_refines _ (MatchingEngine.Separated.new _ raw {} (by decide)),
    MatchingEngine.reference_new]
  rfl

/-- A short session, for the look of it. -/
example : referenceProgram (ascii "ADD 1 SELL 100 5\nMARKET 2 BUY 2\nPRINT_BOOK\nQUIT\nADD 3") =
    ascii "ACCEPTED: no fills, remaining_qty=5\nACCEPTED: FILL 2@100 | FULLY FILLED\n" ++
      ascii "=== ORDER BOOK ===\n--- ASKS ---\n  100: qty=3\n--- BIDS ---\n" ++
      ascii "==================\n" := by
  decide +kernel

theorem engine_uncrossed (raw : Memory) (capacity : UInt64) (stp : StpConfig)
    (commands : List EngineCommand) :
    ((MatchingEngine.new raw capacity stp).run commands).book.Uncrossed := by
  apply MatchingEngine.run_induction (Q := fun e => e.book.Uncrossed)
    (OrderBook.WellFormed.new raw capacity)
  · intro bid ask hbid _
    rw [show (MatchingEngine.new raw capacity stp).book.resting .buy = [] from
      OrderBook.WellFormed.resting_new raw capacity .buy] at hbid
    cases hbid
  · intro e order hw h _ ha
    exact MatchingEngine.submit_uncrossed hw h ha
  · intro e id s x hw h hc
    exact MatchingEngine.cancel_uncrossed hw h hc

/--
The ladder that is printed for a book falls strictly from its first row to its
last, asks above bids, and has exactly one row for each price at which orders
rest, with the sum of their open quantities modulo 2^64.
-/
theorem printed_ladder (raw : Memory) (capacity : UInt64) (stp : StpConfig)
    (commands : List EngineCommand) :
    let b := ((MatchingEngine.new raw capacity stp).run commands).book
    printBook b = ladderText (rows b .sell).reverse (rows b .buy) ∧
      ((rows b .sell).reverse ++ rows b .buy).Pairwise
        (fun row row' => row'.1 < row.1) ∧
      (forall s o, o ∈ b.resting s -> exists row, row ∈ rows b s ∧ row.1 = o.price) ∧
      forall s row, row ∈ rows b s -> (exists o, o ∈ b.resting s ∧ o.price = row.1) ∧
        row.2 = volume (fun p => decide (p = row.1)) (b.resting s) % 2 ^ 64 := by
  intro b
  have hw : b.WellFormed := MatchingEngine.run_wellFormed raw capacity stp commands
  exact ⟨rfl, ladder_falls hw (engine_uncrossed raw capacity stp commands),
    fun s o ho => exists_row hw ho, fun s row hrow => mem_rows hw hrow⟩

end Cli
end MiniExchange
