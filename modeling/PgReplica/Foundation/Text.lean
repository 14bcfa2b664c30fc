import Mathlib.Algebra.Group.Nat.Defs
import Mathlib.Data.List.DropRight

/-! # Text as lists of characters

The string operations of a line parser: cutting white space off, splitting at the
first separator, and reading an unsigned number of a fixed width.
-/

namespace PgReplica.Foundation

/-- `char::is_whitespace`: the characters with the Unicode property `White_Space`. -/
def isWhitespace (c : Char) : Bool :=
  let code := c.toNat
  decide (0x9 ≤ code ∧ code ≤ 0xD) || code == 0x20 || code == 0x85 || code == 0xA0 ||
    code == 0x1680 || decide (0x2000 ≤ code ∧ code ≤ 0x200A) || code == 0x2028 ||
    code == 0x2029 || code == 0x202F || code == 0x205F || code == 0x3000

/-- `str::trim`. -/
def trim (text : List Char) : List Char :=
  (text.dropWhile isWhitespace).rdropWhile isWhitespace

theorem trim_eq_self {text : List Char} (hhead : ∀ c ∈ text.head?, isWhitespace c = false)
    (hlast : ∀ c ∈ text.getLast?, isWhitespace c = false) : trim text = text := by
  have hdrop : text.dropWhile isWhitespace = text := by
    cases text with
    | nil => rfl
    | cons c rest => rw [List.dropWhile_cons, hhead c rfl, if_neg Bool.false_ne_true]
  rw [trim, hdrop, List.rdropWhile_eq_self_iff]
  intro hne
  rw [hlast _ (List.getLast?_eq_some_getLast hne)]
  exact Bool.false_ne_true

/-! ## The first separator -/

/-- `str::split_once`. -/
def splitOnce (sep : Char) : List Char → Option (List Char × List Char)
  | [] => none
  | c :: rest =>
      if c = sep then some ([], rest)
      else (splitOnce sep rest).map fun parts => (c :: parts.1, parts.2)

theorem splitOnce_eq_some_iff {sep : Char} {text before after : List Char} :
    splitOnce sep text = some (before, after) ↔ text = before ++ sep :: after ∧ sep ∉ before := by
  induction text generalizing before with
  | nil => simp [splitOnce]
  | cons c rest ih =>
      rw [splitOnce]
      split
      next heq =>
        cases before with
        | nil => simp [heq]
        | cons b before =>
            simp only [Option.some.injEq, Prod.mk.injEq, reduceCtorEq, false_and, false_iff]
            rintro ⟨htext, hnot⟩
            have hhead := (List.cons.inj htext).1
            exact hnot (by simp [← hhead, heq])
      next hne =>
        cases before with
        | nil => simp [hne]
        | cons b before =>
            simp only [Option.map_eq_some_iff, Prod.exists, Prod.mk.injEq, List.cons.injEq,
              List.cons_append, List.mem_cons, not_or]
            constructor
            · rintro ⟨before', after', hsplit, ⟨rfl, rfl⟩, rfl⟩
              obtain ⟨htext, hnot⟩ := ih.mp hsplit
              exact ⟨⟨rfl, htext⟩, Ne.symm hne, hnot⟩
            · rintro ⟨⟨rfl, htext⟩, -, hnot⟩
              exact ⟨before, after, ih.mpr ⟨htext, hnot⟩, ⟨rfl, rfl⟩, rfl⟩

/-- What comes after the last separator determines the rest. -/
theorem append_separator_inj {sep : Char} {before before' after after' : List Char}
    (hafter : sep ∉ after) (hafter' : sep ∉ after')
    (heq : before ++ sep :: after = before' ++ sep :: after') :
    before = before' ∧ after = after' := by
  have hreverse : after.reverse ++ sep :: before.reverse =
      after'.reverse ++ sep :: before'.reverse := by
    simpa using congrArg List.reverse heq
  have hsplit : splitOnce sep (after.reverse ++ sep :: before.reverse) =
      some (after.reverse, before.reverse) :=
    splitOnce_eq_some_iff.mpr ⟨rfl, by simpa using hafter⟩
  have hsplit' : splitOnce sep (after.reverse ++ sep :: before.reverse) =
      some (after'.reverse, before'.reverse) :=
    splitOnce_eq_some_iff.mpr ⟨hreverse, by simpa using hafter'⟩
  obtain ⟨hafters, hbefores⟩ := Prod.mk.inj (Option.some.inj (hsplit.symm.trans hsplit'))
  exact ⟨List.reverse_injective hbefores, List.reverse_injective hafters⟩

/-! ## Unsigned numbers -/

def digitValue (c : Char) : Nat :=
  c.toNat - '0'.toNat

/-- The number that the digits continue from `start`. -/
def decimalFrom (start : Nat) (digits : List Char) : Nat :=
  digits.foldl (fun value c => value * 10 + digitValue c) start

def decimal (digits : List Char) : Nat :=
  decimalFrom 0 digits

/-- One turn of the loop in `from_str_radix`: `none` at a character that is not a digit
and where the value overflows. -/
def pushDigit (width value : Nat) (c : Char) : Option Nat :=
  if c.isDigit ∧ value * 10 + digitValue c < 2 ^ width then some (value * 10 + digitValue c)
  else none

/-- The text after an optional plus sign. -/
def afterPlus : List Char → List Char
  | '+' :: digits => digits
  | text => text

/-- `str::parse` to an unsigned integer of the given width. -/
def parseUnsigned (width : Nat) (text : List Char) : Option Nat :=
  if (afterPlus text).isEmpty then none else (afterPlus text).foldlM (pushDigit width) 0

theorem le_decimalFrom (start : Nat) (digits : List Char) : start ≤ decimalFrom start digits := by
  induction digits generalizing start with
  | nil => exact le_rfl
  | cons c rest ih =>
      refine le_trans ?_ (ih (start * 10 + digitValue c))
      omega

/-- A loop that stops at the first overflow reads exactly the numbers that fit. -/
theorem foldlM_pushDigit_eq_some_iff {width start value : Nat} {digits : List Char}
    (hstart : start < 2 ^ width) : digits.foldlM (pushDigit width) start = some value ↔
      (∀ c ∈ digits, c.isDigit = true) ∧ decimalFrom start digits < 2 ^ width ∧
        decimalFrom start digits = value := by
  induction digits generalizing start with
  | nil => simp [decimalFrom, hstart]
  | cons c rest ih =>
      have hle := le_decimalFrom (start * 10 + digitValue c) rest
      rw [List.foldlM_cons, pushDigit, List.forall_mem_cons, decimalFrom, List.foldl_cons,
        ← decimalFrom]
      split
      next hdigit =>
        rw [Option.bind_eq_bind, Option.bind_some, ih hdigit.2]
        simp [hdigit.1]
      next hstop =>
        simp only [Option.bind_eq_bind, Option.bind_none, reduceCtorEq, false_iff]
        rintro ⟨⟨hdigit, -⟩, hfits, -⟩
        exact hstop ⟨hdigit, by omega⟩

/-- A decimal number of the width, with an optional plus sign. -/
def IsUnsigned (width : Nat) (text : List Char) : Prop :=
  ∃ digits, (text = digits ∨ text = '+' :: digits) ∧ digits ≠ [] ∧
    (∀ c ∈ digits, c.isDigit = true) ∧ decimal digits < 2 ^ width

theorem isUnsigned_iff_afterPlus {width : Nat} {text : List Char} :
    IsUnsigned width text ↔ afterPlus text ≠ [] ∧ (∀ c ∈ afterPlus text, c.isDigit = true) ∧
      decimal (afterPlus text) < 2 ^ width := by
  constructor
  · rintro ⟨digits, rfl | rfl, hne, hdigits, hfits⟩
    · have hplus : afterPlus text = text := by
        unfold afterPlus
        split
        next rest => exact absurd (hdigits '+' List.mem_cons_self) (by decide)
        next => rfl
      rw [hplus]
      exact ⟨hne, hdigits, hfits⟩
    · exact ⟨hne, hdigits, hfits⟩
  · rintro ⟨hne, hdigits, hfits⟩
    refine ⟨afterPlus text, ?_, hne, hdigits, hfits⟩
    unfold afterPlus
    split
    next => exact Or.inr rfl
    next => exact Or.inl rfl

theorem parseUnsigned_isSome_iff {width : Nat} {text : List Char} :
    (parseUnsigned width text).isSome = true ↔ IsUnsigned width text := by
  rw [isUnsigned_iff_afterPlus, parseUnsigned]
  split
  next hempty => simp [List.isEmpty_iff.mp hempty]
  next hne =>
    rw [Option.isSome_iff_exists]
    simp only [foldlM_pushDigit_eq_some_iff (Nat.two_pow_pos width)]
    constructor
    · rintro ⟨_, hdigits, hfits, -⟩
      exact ⟨by simpa using hne, hdigits, hfits⟩
    · rintro ⟨-, hdigits, hfits⟩
      exact ⟨_, hdigits, hfits, rfl⟩

end PgReplica.Foundation
