import Nes6502.CommandLine.Options
import Nes6502.Proofs.Number

/-!
# The grammar of addresses

An address on the command line is written with marks before it that say that it is hexadecimal. Each
of three kinds of mark may stand there any number of times, but the kinds have an order, and a kind
is taken away as often as it can be before the next one is looked at. What remains is a number, with
a plus sign before it at most.

Digits are hexadecimal ones, and none of them is a letter of a mark or a dollar sign. So a mark
is never taken away from the digits of a number, and the accepted texts are those that the grammar
without greed describes. Of a text that is not accepted, what is taken away matters: `0x0x` is
empty behind its marks.

## What is proved

* `Address.follows_iff`: what remains of a text is what follows its marks.
* `Address.follows_marks`: all marks before a number are taken away.
* `Address.parse_eq_ok_iff`: the accepted texts.
* `address_grammar`: which texts are addresses, and why another text is none.
-/

set_option autoImplicit false

namespace Nes6502.CommandLine

/-! ## Marks -/

namespace Address

/-- The rest of a text follows a mark that stands as often as it can at the front of it. -/
structure Greedy (mark text rest : List Char) : Prop where
  split : ∃ count, text = (List.replicate count mark).flatten ++ rest
  done : ¬ mark <+: rest

variable {mark text rest : List Char}

theorem flatten_replicate_succ (count : Nat) (mark rest : List Char) :
    (List.replicate (count + 1) mark).flatten ++ rest =
      mark ++ ((List.replicate count mark).flatten ++ rest) := by
  rw [List.replicate_succ, List.flatten_cons, List.append_assoc]

theorem Greedy.cons (h : Greedy mark text rest) : Greedy mark (mark ++ text) rest := by
  obtain ⟨count, hsplit⟩ := h.split
  exact ⟨⟨count + 1, by rw [flatten_replicate_succ, ← hsplit]⟩, h.done⟩

theorem Greedy.refl (h : ¬ mark <+: text) : Greedy mark text text := ⟨⟨0, rfl⟩, h⟩

/-- Two splits of a text take away the same marks, one by one, and end together. -/
theorem Greedy.unique {other : List Char} (h : Greedy mark text rest)
    (hother : Greedy mark text other) : other = rest := by
  obtain ⟨⟨count, rfl⟩, hdone⟩ := h
  obtain ⟨⟨count', hsplit⟩, hdone'⟩ := hother
  induction count generalizing count' with
  | zero =>
    cases count' with
    | zero => exact hsplit.symm
    | succ count' =>
      rw [flatten_replicate_succ] at hsplit
      exact absurd ⟨_, hsplit.symm⟩ hdone
  | succ count ih =>
    rw [flatten_replicate_succ] at hsplit
    cases count' with
    | zero => exact absurd ⟨_, hsplit⟩ hdone'
    | succ count' =>
      rw [flatten_replicate_succ] at hsplit
      exact ih count' (List.append_cancel_left hsplit)

theorem greedy_dropDollars (text : List Char) : Greedy ['$'] text (dropDollars text) := by
  induction text with
  | nil => exact .refl (by simp)
  | cons c text ih =>
    rw [dropDollars, List.dropWhile_cons]
    by_cases h : c = '$'
    · subst h
      exact ih.cons
    · rw [if_neg (by simpa using h)]
      refine .refl fun hstarts => ?_
      exact h (List.cons_prefix_cons.mp hstarts).1.symm

theorem greedy_dropMarks (letter : Char) (text : List Char) :
    Greedy ['0', letter] text (dropMarks letter text) := by
  fun_induction dropMarks letter text with
  | case1 rest ih => exact ih.cons
  | case2 c rest h =>
    refine .refl fun hstarts => ?_
    exact h (List.cons_prefix_cons.mp (List.cons_prefix_cons.mp hstarts).2).1.symm
  | case3 text h =>
    refine .refl fun ⟨rest, hrest⟩ => ?_
    exact h letter rest hrest.symm

/-- What follows the marks of a text: dollar signs, then `0x`, then `0X`. -/
def Follows (text rest : List Char) : Prop :=
  ∃ afterDollars afterLower, Greedy ['$'] text afterDollars ∧
    Greedy ['0', 'x'] afterDollars afterLower ∧ Greedy ['0', 'X'] afterLower rest

theorem follows_iff : Follows text rest ↔ rest = digits text := by
  constructor
  · rintro ⟨afterDollars, afterLower, hdollars, hlower, hupper⟩
    cases (greedy_dropDollars text).unique hdollars
    cases (greedy_dropMarks 'x' _).unique hlower
    exact (greedy_dropMarks 'X' _).unique hupper
  · rintro rfl
    exact ⟨_, _, greedy_dropDollars text, greedy_dropMarks 'x' _, greedy_dropMarks 'X' _⟩

/-- Some marks of each kind, in the order in which they may stand. -/
def marks (dollars lower upper : Nat) : List Char :=
  (List.replicate dollars ['$']).flatten ++ (List.replicate lower ['0', 'x']).flatten ++
    (List.replicate upper ['0', 'X']).flatten

theorem exists_marks (text : List Char) :
    ∃ dollars lower upper, text = marks dollars lower upper ++ digits text := by
  have hfollows : Follows text (digits text) := follows_iff.mpr rfl
  obtain ⟨afterDollars, afterLower, hdollars, hlower, hupper⟩ := hfollows
  obtain ⟨dollars, hdollars⟩ := hdollars.split
  obtain ⟨lower, hlower⟩ := hlower.split
  obtain ⟨upper, hupper⟩ := hupper.split
  refine ⟨dollars, lower, upper, ?_⟩
  rw [marks, List.append_assoc, List.append_assoc, ← hupper, ← hlower, ← hdollars]

/-- A text without one of the characters of a mark does not start with it. -/
theorem Greedy.of_not_mem {c : Char} (count : Nat) (hmark : c ∈ mark) (hrest : c ∉ rest) :
    Greedy mark ((List.replicate count mark).flatten ++ rest) rest :=
  ⟨⟨count, rfl⟩, fun hstarts => hrest (hstarts.subset hmark)⟩

/-- All marks before a text are taken away from it, if it has none of their letters. -/
theorem follows_marks (dollars lower upper : Nat) (hdollar : '$' ∉ rest) (hlower : 'x' ∉ rest)
    (hupper : 'X' ∉ rest) : Follows (marks dollars lower upper ++ rest) rest := by
  have hlower' : 'x' ∉ (List.replicate upper ['0', 'X']).flatten ++ rest := by
    simp [hlower]
  have hdollar' : '$' ∉ (List.replicate lower ['0', 'x']).flatten ++
      ((List.replicate upper ['0', 'X']).flatten ++ rest) := by
    simp [hdollar]
  refine ⟨_, _, ?_, .of_not_mem lower (by decide) hlower', .of_not_mem upper (by decide) hupper⟩
  rw [marks, List.append_assoc, List.append_assoc]
  exact .of_not_mem dollars (by decide) hdollar'

/-! ## Addresses -/

theorem parse_eq_error_iff {cause : NumberError} :
    parse text = .error cause ↔ Number.read 16 0x10000 (digits text) = .error cause := by
  rw [parse]
  cases Number.read 16 0x10000 (digits text) with
  | ok value => exact ⟨nofun, nofun⟩
  | error other =>
    constructor
    · intro h
      cases h
      rfl
    · intro h
      cases h
      rfl

theorem parse_eq_ok_iff_read {address : UInt16} :
    parse text = .ok address ↔ Number.read 16 0x10000 (digits text) = .ok address.toNat := by
  have hsmall : ∀ value, Number.read 16 0x10000 (digits text) = .ok value → value < 0x10000 :=
    fun value h => ((Number.read_eq_ok_iff (by decide)).mp h).2.2
  rw [parse]
  cases hread : Number.read 16 0x10000 (digits text) with
  | error cause => exact ⟨nofun, nofun⟩
  | ok value =>
    have hvalue : (UInt16.ofNat value).toNat = value :=
      UInt16.toNat_ofNat_of_lt' (hsmall value hread)
    constructor
    · intro h
      cases h
      rw [hvalue]
    · intro h
      cases h
      exact congrArg Except.ok UInt16.ofNat_toNat

/-- The accepted texts, without greed. -/
theorem parse_eq_ok_iff {address : UInt16} :
    parse text = .ok address ↔
      ∃ dollars lower upper sign number, text = marks dollars lower upper ++ sign ++ number ∧
        (sign = [] ∨ sign = ['+']) ∧ number ≠ [] ∧ Hex.value? number = some address.toNat := by
  rw [parse_eq_ok_iff_read, Number.read_eq_ok_iff (by decide)]
  constructor
  · rintro ⟨hsome, hvalue, -⟩
    obtain ⟨dollars, lower, upper, htext⟩ := exists_marks text
    obtain ⟨sign, hsign, hdigits⟩ := Number.exists_sign (digits text)
    refine ⟨dollars, lower, upper, sign, Number.unsigned (digits text), ?_, hsign, hsome, hvalue⟩
    rw [List.append_assoc, ← hdigits]
    exact htext
  · rintro ⟨dollars, lower, upper, sign, number, rfl, hsign, hsome, hvalue⟩
    have hnumber : ∀ c ∈ number, Hex.isDigit c = true := Hex.isDigit_of_foldlM hvalue
    -- neither a sign nor a digit has a letter of a mark
    have hfree : ∀ c, c ≠ '+' → Hex.isDigit c = false → c ∉ sign ++ number := by
      intro c hplus hbad hmem
      rcases List.mem_append.mp hmem with hmem | hmem
      · rcases hsign with rfl | rfl
        · cases hmem
        · exact hplus (List.mem_singleton.mp hmem)
      · rw [hnumber c hmem] at hbad
        cases hbad
    have hdigits : digits (marks dollars lower upper ++ sign ++ number) = sign ++ number := by
      rw [List.append_assoc]
      exact (follows_iff.mp (follows_marks dollars lower upper
        (hfree '$' (by decide) (by decide)) (hfree 'x' (by decide) (by decide))
        (hfree 'X' (by decide) (by decide)))).symm
    have hunsigned : Number.unsigned (sign ++ number) = number := by
      rcases hsign with rfl | rfl
      · refine Number.unsigned_of_head fun hhead => ?_
        have hdigit : Hex.isDigit '+' = true := hnumber '+' (List.mem_of_head? hhead)
        revert hdigit
        decide
      · rfl
    rw [hdigits, hunsigned]
    exact ⟨hsome, hvalue, address.toNat_lt⟩

theorem parse_eq_invalidDigit_iff :
    parse text = .error .invalidDigit ↔ Follows text ['+'] ∨ Follows text ['-'] ∨
      ∃ rest digits c more value, Follows text rest ∧
        Number.unsigned rest = digits ++ c :: more ∧ Hex.isDigit c = false ∧
        Hex.value? digits = some value ∧ value ≤ 0xFFFF := by
  rw [parse_eq_error_iff, Number.read_eq_invalidDigit_iff (by decide)]
  constructor
  · rintro (hlone | ⟨number, c, more, value, hsplit, hbad, hvalue, hsmall⟩)
    · exact .inl (follows_iff.mpr hlone.symm)
    · exact .inr (.inr ⟨_, number, c, more, value, follows_iff.mpr rfl, hsplit, hbad, hvalue,
        Nat.le_of_lt_succ hsmall⟩)
  · rintro (hlone | hminus | ⟨rest, number, c, more, value, hrest, hsplit, hbad, hvalue, hsmall⟩)
    · exact .inl (follows_iff.mp hlone).symm
    · rw [← follows_iff.mp hminus]
      exact .inr ⟨[], '-', [], 0, rfl, rfl, rfl, by decide⟩
    · rw [← follows_iff.mp hrest]
      exact .inr ⟨number, c, more, value, hsplit, hbad, hvalue, Nat.lt_succ_of_le hsmall⟩

theorem parse_eq_tooLarge_iff :
    parse text = .error .tooLarge ↔
      ∃ rest digits more value, Follows text rest ∧ Number.unsigned rest = digits ++ more ∧
        Hex.value? digits = some value ∧ 0xFFFF < value := by
  rw [parse_eq_error_iff, Number.read_eq_tooLarge_iff (by decide)]
  constructor
  · rintro ⟨number, more, value, hsplit, hvalue, hlarge⟩
    exact ⟨_, number, more, value, follows_iff.mpr rfl, hsplit, hvalue, hlarge⟩
  · rintro ⟨rest, number, more, value, hrest, hsplit, hvalue, hlarge⟩
    rw [← follows_iff.mp hrest]
    exact ⟨number, more, value, hsplit, hvalue, hlarge⟩

end Address

theorem NumberError.message_injective {cause other : NumberError}
    (h : cause.message = other.message) : cause = other := by
  revert h
  cases cause <;> cases other <;> decide

/-- The cause is reported together with the text as it was given. -/
theorem Draft.readAddress_eq_error_iff {name : Setting} {text : String} {cause : NumberError} :
    Draft.readAddress name text = .error (.usageError (.invalidValue text (.setting name)
      ("invalid address '" ++ text ++ "': " ++ cause.message))) ↔
      Address.parse text.toList = .error cause := by
  rw [readAddress]
  cases Address.parse text.toList with
  | ok address => exact ⟨nofun, nofun⟩
  | error other =>
    constructor
    · intro h
      have hmessage : "invalid address '" ++ text ++ "': " ++ other.message =
          "invalid address '" ++ text ++ "': " ++ cause.message := by
        injection h with h
        injection h with h
        injection h
      rw [NumberError.message_injective ((String.append_right_inj _).mp hmessage)]
    · intro h
      cases h
      rfl

/-- Which texts are addresses, and what is said about the others. What follows the marks of a text
is well defined. A text is an address if it is some marks in their order, at most one plus sign and
at least one digit, with a value of sixteen bits, which is then the address. Else nothing follows
the marks; or a lone sign does; or the first character that is no digit comes before the value is
too large; or the value is too large before such a character comes. -/
theorem address_grammar (text : String) :
    (∃ rest, ∀ other, Address.Follows text.toList other ↔ other = rest) ∧
    (∀ address : UInt16, Address.parse text.toList = .ok address ↔
      ∃ dollars lower upper sign digits,
        text.toList = Address.marks dollars lower upper ++ sign ++ digits ∧
        (sign = [] ∨ sign = ['+']) ∧ digits ≠ [] ∧
        Hex.value? digits = some address.toNat) ∧
    (Address.parse text.toList = .error .empty ↔ Address.Follows text.toList []) ∧
    (Address.parse text.toList = .error .invalidDigit ↔
      Address.Follows text.toList ['+'] ∨ Address.Follows text.toList ['-'] ∨
      ∃ rest digits c more value, Address.Follows text.toList rest ∧
        Number.unsigned rest = digits ++ c :: more ∧ Hex.isDigit c = false ∧
        Hex.value? digits = some value ∧ value ≤ 0xFFFF) ∧
    (Address.parse text.toList = .error .tooLarge ↔
      ∃ rest digits more value, Address.Follows text.toList rest ∧
        Number.unsigned rest = digits ++ more ∧
        Hex.value? digits = some value ∧ 0xFFFF < value) ∧
    ∀ name cause, Draft.readAddress name text =
        .error (.usageError (.invalidValue text (.setting name)
          ("invalid address '" ++ text ++ "': " ++ cause.message))) ↔
      Address.parse text.toList = .error cause := by
  refine ⟨⟨_, fun other => Address.follows_iff⟩, fun address => Address.parse_eq_ok_iff, ?_,
    Address.parse_eq_invalidDigit_iff, Address.parse_eq_tooLarge_iff,
    fun name cause => Draft.readAddress_eq_error_iff⟩
  rw [Address.parse_eq_error_iff, Number.read_eq_empty_iff (by decide), Address.follows_iff]
  exact eq_comm

/-- Digits that are too large already are not read to the junk behind them. -/
example : Address.parse "$$0x0X+00012345xyz".toList = .error .tooLarge := rfl

end Nes6502.CommandLine
