import Mathlib.Data.List.Basic

/-!
# Incremental scanning

A buffer that grows at the end is cut into items from the front.  Whether an
item stands at the front is decided by the bytes of that item alone, so the
items do not depend on how the input was divided.
-/

namespace MiniExchange
namespace Foundation

inductive Front (φ : Type) where
  | incomplete
  | invalid
  | item (value : φ) (size : Nat)
deriving DecidableEq, Repr

structure Scanner (α φ : Type) where
  front : List α -> Front φ
  size_pos : forall {buffer value size}, front buffer = .item value size -> 0 < size
  size_le : forall {buffer value size}, front buffer = .item value size ->
    size <= buffer.length
  item_append : forall {buffer value size} (more : List α),
    front buffer = .item value size -> front (buffer ++ more) = .item value size
  invalid_append : forall {buffer} (more : List α),
    front buffer = .invalid -> front (buffer ++ more) = .invalid

namespace Scanner

variable {α φ : Type} (scanner : Scanner α φ)

def Stuck (buffer : List α) : Prop :=
  forall value size, scanner.front buffer ≠ .item value size

theorem length_drop_lt {scanner : Scanner α φ} {buffer : List α} {value : φ} {size : Nat}
    (h : scanner.front buffer = .item value size) :
    (buffer.drop size).length < buffer.length := by
  have hpos := scanner.size_pos h
  have hle := scanner.size_le h
  rw [List.length_drop]
  omega

def scan (buffer : List α) : List φ × List α :=
  match _h : scanner.front buffer with
  | .item value size =>
      (value :: (scan (buffer.drop size)).1, (scan (buffer.drop size)).2)
  | _ => ([], buffer)
termination_by buffer.length
decreasing_by all_goals exact length_drop_lt _h

def items (buffer : List α) : List φ :=
  (scanner.scan buffer).1

def rest (buffer : List α) : List α :=
  (scanner.scan buffer).2

variable {scanner} {buffer : List α}

theorem scan_of_item {value : φ} {size : Nat} (h : scanner.front buffer = .item value size) :
    scanner.scan buffer =
      (value :: scanner.items (buffer.drop size), scanner.rest (buffer.drop size)) := by
  rw [scan]
  split
  · next value' size' heq =>
      rw [h] at heq
      cases heq
      rfl
  · next hother => exact absurd h (hother value size)

theorem scan_of_stuck (h : scanner.Stuck buffer) : scanner.scan buffer = ([], buffer) := by
  rw [scan]
  split
  · next value size heq => exact absurd heq (h value size)
  · rfl

theorem items_of_item {value : φ} {size : Nat}
    (h : scanner.front buffer = .item value size) :
    scanner.items buffer = value :: scanner.items (buffer.drop size) := by
  rw [items, scan_of_item h]

theorem rest_of_item {value : φ} {size : Nat}
    (h : scanner.front buffer = .item value size) :
    scanner.rest buffer = scanner.rest (buffer.drop size) := by
  rw [rest, scan_of_item h]

theorem items_of_stuck (h : scanner.Stuck buffer) : scanner.items buffer = [] := by
  rw [items, scan_of_stuck h]

theorem rest_of_stuck (h : scanner.Stuck buffer) : scanner.rest buffer = buffer := by
  rw [rest, scan_of_stuck h]

theorem stuck_of_incomplete (h : scanner.front buffer = .incomplete) :
    scanner.Stuck buffer := by
  intro value size hitem
  rw [h] at hitem
  cases hitem

theorem stuck_of_invalid (h : scanner.front buffer = .invalid) : scanner.Stuck buffer := by
  intro value size hitem
  rw [h] at hitem
  cases hitem

theorem stuck_of_part {part more : List α} {value : φ} {size : Nat}
    (hwhole : scanner.front (part ++ more) = .item value size) (hshort : part.length < size) :
    scanner.Stuck part ∧ scanner.front part ≠ .invalid := by
  constructor
  · intro other size' hitem
    have hle := scanner.size_le hitem
    have hsame := scanner.item_append more hitem
    rw [hwhole] at hsame
    cases hsame
    omega
  · intro hinvalid
    have hsame := scanner.invalid_append more hinvalid
    rw [hwhole] at hsame
    cases hsame

theorem stuck_nil : scanner.Stuck ([] : List α) := by
  intro value size hitem
  have hpos := scanner.size_pos hitem
  have hle := scanner.size_le hitem
  rw [List.length_nil] at hle
  omega

theorem scan_induction (scanner : Scanner α φ) {P : List α -> Prop}
    (hitem : forall buffer value size, scanner.front buffer = .item value size ->
      P (buffer.drop size) -> P buffer)
    (hstuck : forall buffer, scanner.Stuck buffer -> P buffer) (buffer : List α) : P buffer := by
  cases hfront : scanner.front buffer with
  | incomplete => exact hstuck buffer (stuck_of_incomplete hfront)
  | invalid => exact hstuck buffer (stuck_of_invalid hfront)
  | item value size =>
      exact hitem buffer value size hfront
        (scan_induction scanner hitem hstuck (buffer.drop size))
termination_by buffer.length
decreasing_by exact length_drop_lt hfront

theorem stuck_rest (buffer : List α) : scanner.Stuck (scanner.rest buffer) := by
  induction buffer using scan_induction scanner with
  | hitem buffer value size hfront ih =>
      rw [rest_of_item hfront]
      exact ih
  | hstuck buffer hstuck =>
      rw [rest_of_stuck hstuck]
      exact hstuck

/-!
## Input that arrives in parts
-/

theorem scan_append (buffer more : List α) :
    scanner.items (buffer ++ more) =
        scanner.items buffer ++ scanner.items (scanner.rest buffer ++ more) ∧
      scanner.rest (buffer ++ more) = scanner.rest (scanner.rest buffer ++ more) := by
  induction buffer using scan_induction scanner with
  | hitem buffer value size hfront ih =>
      have hdrop : (buffer ++ more).drop size = buffer.drop size ++ more :=
        List.drop_append_of_le_length (scanner.size_le hfront)
      have hwhole := scanner.item_append more hfront
      rw [items_of_item hwhole, rest_of_item hwhole, hdrop, items_of_item hfront,
        rest_of_item hfront, ih.left, ih.right]
      exact ⟨rfl, rfl⟩
  | hstuck buffer hstuck =>
      rw [items_of_stuck hstuck, rest_of_stuck hstuck]
      exact ⟨rfl, rfl⟩

theorem items_append (buffer more : List α) :
    scanner.items (buffer ++ more) =
      scanner.items buffer ++ scanner.items (scanner.rest buffer ++ more) :=
  (scan_append buffer more).left

theorem rest_append (buffer more : List α) :
    scanner.rest (buffer ++ more) = scanner.rest (scanner.rest buffer ++ more) :=
  (scan_append buffer more).right

theorem items_append_of_invalid (h : scanner.front (scanner.rest buffer) = .invalid)
    (more : List α) : scanner.items (buffer ++ more) = scanner.items buffer := by
  rw [items_append, items_of_stuck (stuck_of_invalid (scanner.invalid_append more h)),
    List.append_nil]

theorem invalid_rest_append (h : scanner.front (scanner.rest buffer) = .invalid)
    (more : List α) : scanner.front (scanner.rest (buffer ++ more)) = .invalid := by
  have hinvalid := scanner.invalid_append more h
  rw [rest_append, rest_of_stuck (stuck_of_invalid hinvalid)]
  exact hinvalid

/-!
## Encoded items
-/

section Encoding

variable {encode : φ -> List α} {values : List φ}
  (hfront : forall value, value ∈ values -> forall more,
    scanner.front (encode value ++ more) = .item value (encode value).length)

include hfront

theorem items_encoded (more : List α) :
    scanner.items (values.flatMap encode ++ more) = values ++ scanner.items more := by
  induction values with
  | nil => rfl
  | cons value values ih =>
      have hone := hfront value List.mem_cons_self (values.flatMap encode ++ more)
      rw [List.flatMap_cons, List.append_assoc, items_of_item hone, List.drop_left,
        ih (fun other hother => hfront other (List.mem_cons_of_mem _ hother))]
      rfl

theorem rest_encoded (more : List α) :
    scanner.rest (values.flatMap encode ++ more) = scanner.rest more := by
  induction values with
  | nil => rfl
  | cons value values ih =>
      have hone := hfront value List.mem_cons_self (values.flatMap encode ++ more)
      rw [List.flatMap_cons, List.append_assoc, rest_of_item hone, List.drop_left,
        ih (fun other hother => hfront other (List.mem_cons_of_mem _ hother))]

theorem scan_encoded_prefix {part more : List α} (h : part ++ more = values.flatMap encode) :
    exists n, n <= values.length ∧ scanner.items part = values.take n ∧
      part = (values.take n).flatMap encode ++ scanner.rest part ∧
      forall value, values[n]? = some value ->
        (scanner.rest part).length < (encode value).length ∧
          scanner.front (scanner.rest part) ≠ .invalid := by
  induction values generalizing part with
  | nil =>
      have hnil : part = [] := (List.append_eq_nil_iff.mp h).left
      rw [hnil, items_of_stuck stuck_nil, rest_of_stuck stuck_nil]
      exact ⟨0, Nat.le_refl _, rfl, rfl, fun _ hvalue => by cases hvalue⟩
  | cons value values ih =>
      have hrest := fun other hother => hfront other (List.mem_cons_of_mem value hother)
      rw [List.flatMap_cons] at h
      rcases Nat.lt_or_ge part.length (encode value).length with hshort | hlong
      · -- The first item is not complete: its bytes decide.
        have hwhole := hfront value List.mem_cons_self (values.flatMap encode)
        rw [← h] at hwhole
        rcases stuck_of_part hwhole hshort with ⟨hstuck, hvalid⟩
        rw [items_of_stuck hstuck, rest_of_stuck hstuck]
        refine ⟨0, Nat.zero_le _, rfl, rfl, ?_⟩
        intro first hfirst
        cases hfirst
        exact ⟨hshort, hvalid⟩
      · -- The first item is cut off.
        have hfirst : (part ++ more).take (encode value).length =
            part.take (encode value).length := List.take_append_of_le_length hlong
        have htake : part.take (encode value).length = encode value := by
          rw [← hfirst, h, List.take_left]
        have hpart : part = encode value ++ part.drop (encode value).length := by
          conv => lhs; rw [← List.take_append_drop (encode value).length part, htake]
        have htail : part.drop (encode value).length ++ more = values.flatMap encode := by
          rw [hpart, List.append_assoc] at h
          exact List.append_cancel_left h
        rcases ih hrest htail with ⟨n, hn, hitems, hdecoded, hnext⟩
        have hone := hfront value List.mem_cons_self (part.drop (encode value).length)
        rw [← hpart] at hone
        refine ⟨n + 1, Nat.succ_le_succ hn, ?_, ?_, ?_⟩
        · rw [items_of_item hone, hitems, List.take_succ_cons]
        · rw [rest_of_item hone, List.take_succ_cons, List.flatMap_cons, List.append_assoc,
            ← hdecoded]
          exact hpart
        · rw [rest_of_item hone]
          exact hnext

end Encoding

end Scanner
end Foundation
end MiniExchange
