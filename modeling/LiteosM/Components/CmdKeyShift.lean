import Mathlib.Data.List.Basic

/-!
# The command line of the shell

`OsCmdKeyShift` of `shcmd.c` copies a command line without its single quotes and needless spaces. It looks
one character ahead in the line as it was typed, so a single quote hides the space behind it; and it moves
the pointer past a leading space that it then gives to `LOS_MemFree`. A string is the list of its characters
before the NUL.

* `squeeze_tidy`: a tidy line is left alone;
* `neat_iff`: which lines come out tidy, without a leading space;
* **`cmdKeyShift_iff`**: so it is for these lines that the function does what it should.

Premise: neither pointer is NULL. Out of scope: the parsing of the line behind this.
-/

namespace LiteosM.Components

open List

/-- `'`. -/
def singleQuote : Char := Char.ofNat 39

/-- `"`. -/
def doubleQuote : Char := Char.ofNat 34

/-- The blank. -/
def space : Char := Char.ofNat 32

/-- `SWITCH_QUOTES_STATUS` at a double quote. -/
def switchQuotes (quotes : Bool) (c : Char) : Bool := if c = doubleQuote then !quotes else quotes

/-- The loop of `OsCmdKeyShift`. -/
def squeeze (quotes : Bool) : List Char → List Char
  | [] => []
  | c :: cmdKey =>
    let quotes := switchQuotes quotes c
    if c = space ∧ cmdKey.head?.all (· = space) ∧ quotes = false then squeeze quotes cmdKey
    else if c = singleQuote then squeeze quotes cmdKey
    else c :: squeeze quotes cmdKey

/-- `SECUREC_STRING_MAX_LEN`. -/
def securecStringMaxLen : Nat := 0x7fffffff

/-- What `OsCmdKeyShift` returns, gives to `LOS_MemFree` and leaves in `cmdOut`. -/
structure Shift where
  ok : Bool
  freed : Option Nat
  /-- The string; with its NUL it is all that is written. -/
  cmdOut : Option (List Char)
  deriving DecidableEq

/-- `OsCmdKeyShift` of two pointers that are not `NULL`; `alloc` is what `LOS_MemAlloc` gives. -/
def cmdKeyShift (cmdKey : List Char) (size alloc : Nat) : Shift :=
  if cmdKey.length ≥ size ∨ alloc = 0 then ⟨false, none, none⟩
  else
    let output := squeeze false cmdKey
    let lead := if output.head? = some space then 1 else 0
    -- `strncpy_s` refuses a buffer of this size
    if size > securecStringMaxLen then ⟨false, some (alloc + lead), none⟩
    else ⟨true, some (alloc + lead), some (output.drop lead)⟩

/-- Outside double quotes every space is followed by something else. -/
def tidy (quotes : Bool) : List Char → Bool
  | [] => true
  | c :: out =>
    let quotes := switchQuotes quotes c
    (c ≠ space || quotes || out.head?.any (· ≠ space)) && tidy quotes out

/-- The function frees what it has allocated, writes no more than `size` bytes and leaves a tidy line, which
it would not change. -/
def Squeezed (cmdKey : List Char) (size alloc : Nat) : Prop :=
  ∃ out, (cmdKeyShift cmdKey size alloc).cmdOut = some out ∧
    (cmdKeyShift cmdKey size alloc).freed = some alloc ∧ out.length + 1 ≤ size ∧
    singleQuote ∉ out ∧ out.head? ≠ some space ∧ tidy false out = true ∧
    (cmdKeyShift out size alloc).cmdOut = some out

/-- A space outside double quotes that the loop keeps is not the first character it keeps (`bare`), and
behind it comes, past any single quotes, something else than a space. -/
def neat (bare quotes : Bool) : List Char → Bool
  | [] => true
  | c :: cmdKey =>
    let quotes := switchQuotes quotes c
    if c = space ∧ cmdKey.head?.all (· = space) ∧ quotes = false ∨ c = singleQuote then neat bare quotes cmdKey
    else (c ≠ space || quotes || !bare && (cmdKey.find? (· ≠ singleQuote)).any (· ≠ space)) &&
      neat false quotes cmdKey

theorem switchQuotes_space (quotes : Bool) : switchQuotes quotes space = quotes := rfl

section
variable {quotes bare : Bool} {l : List Char}

theorem squeeze_sublist (quotes : Bool) (l : List Char) : squeeze quotes l <+ l.filter (· ≠ singleQuote) := by
  induction l generalizing quotes with
  | nil => exact .slnil
  | cons c l ih =>
    unfold squeeze
    dsimp only
    by_cases hc : c = singleQuote
    · rw [filter_cons_of_neg (by simpa using hc)]
      split_ifs <;> exact ih _
    rw [filter_cons_of_pos (by simpa using hc)]
    split_ifs
    · exact (ih _).cons c
    · exact (ih _).cons_cons c

theorem squeeze_tidy (h : tidy quotes l = true) (hl : singleQuote ∉ l) : squeeze quotes l = l := by
  induction l generalizing quotes with
  | nil => rfl
  | cons c l ih =>
    rw [tidy, Bool.and_eq_true] at h
    rw [squeeze, ih h.2 fun hm => hl (mem_cons_of_mem _ hm), if_neg, if_neg fun hc => hl (by simp [hc])]
    rintro ⟨rfl, hall, hq⟩
    cases l <;> simp_all

/-- Looking past the single quotes is looking at what the loop keeps. -/
theorem find_squeeze (l : List Char) :
    (l.find? (· ≠ singleQuote)).any (· ≠ space) = (squeeze false l).head?.any (· ≠ space) := by
  induction l with
  | nil => rfl
  | cons c l ih =>
    by_cases hc : c = singleQuote
    · subst hc
      exact ih
    rw [find?_cons_of_pos (by simpa using hc), squeeze]
    by_cases hs : c = space
    · subst hs
      split_ifs with hdrop
      · rw [switchQuotes_space, ← ih]
        cases l with
        | nil => rfl
        | cons d l =>
          obtain rfl : d = space := by simpa using hdrop.2.1
          rfl
      · rfl
    · simp [hs, hc]

theorem neat_iff (hq : bare = true → quotes = false) : neat bare quotes l = true ↔
    tidy quotes (squeeze quotes l) = true ∧ (bare = true → (squeeze quotes l).head? ≠ some space) := by
  induction l generalizing bare quotes with
  | nil => simp [neat, squeeze, tidy]
  | cons c l ih =>
    have hkept := @ih (switchQuotes quotes c) false fun h => Bool.noConfusion h
    simp only [neat, squeeze]
    by_cases hdrop : c = space ∧ l.head?.all (· = space) ∧ switchQuotes quotes c = false
    · rw [if_pos (.inl hdrop), if_pos hdrop, hdrop.1]
      exact ih hq
    by_cases hc : c = singleQuote
    · rw [if_pos (.inr hc), if_neg hdrop, if_pos hc, hc]
      exact ih hq
    rw [if_neg (not_or.mpr ⟨hdrop, hc⟩), if_neg hdrop, if_neg hc, tidy, Bool.and_eq_true, Bool.and_eq_true, hkept]
    by_cases hs : c = space
    · subst hs
      rw [switchQuotes_space]
      cases quotes with
      | false =>
        rw [find_squeeze]
        cases bare <;> simp
      | true => cases bare <;> simp_all
    · simp [hs]

end

theorem cmdKeyShift_iff (cmdKey : List Char) (size alloc : Nat) (hsize : cmdKey.length < size)
    (halloc : alloc ≠ 0) :
    Squeezed cmdKey size alloc ↔ size ≤ securecStringMaxLen ∧ neat true false cmdKey = true := by
  have hlen := ((squeeze_sublist false cmdKey).trans filter_sublist).length_le
  have hdone : ∀ line : List Char, line.length < size → size ≤ securecStringMaxLen →
      (squeeze false line).head? ≠ some space →
      cmdKeyShift line size alloc = ⟨true, some alloc, some (squeeze false line)⟩ := by
    intro line hlt hmax hhead
    rw [cmdKeyShift, if_neg (by omega)]
    dsimp only
    rw [if_neg hhead, if_neg (by omega)]
    rfl
  rw [neat_iff fun _ => rfl]
  constructor
  · rintro ⟨out, hout, hfreed, -, -, -, htidy, -⟩
    rw [cmdKeyShift, if_neg (by omega)] at hout hfreed
    dsimp only at hout hfreed
    by_cases hmax : size > securecStringMaxLen
    · rw [if_pos hmax] at hout
      cases hout
    rw [if_neg hmax] at hout hfreed
    by_cases hhead : (squeeze false cmdKey).head? = some space
    · simp [hhead] at hfreed
    rw [if_neg hhead] at hout
    cases hout
    exact ⟨by omega, htidy, fun _ => hhead⟩
  rintro ⟨hmax, htidy, hhead⟩
  have hhead := hhead rfl
  have hquote : singleQuote ∉ squeeze false cmdKey := fun hm => by
    simpa using (squeeze_sublist false cmdKey).subset hm
  have hsame := squeeze_tidy htidy hquote
  have hout := hdone cmdKey hsize hmax hhead
  have hagain := hdone (squeeze false cmdKey) (by omega) hmax (by rwa [hsame])
  refine ⟨squeeze false cmdKey, by rw [hout], by rw [hout], by omega, hquote, hhead, htidy, ?_⟩
  rw [hagain, hsame]

theorem cmdKeyShift_iff_ls : Squeezed "ls  'a' \"b  c\" ".toList 64 4096 :=
  (cmdKeyShift_iff _ 64 4096 (by decide +kernel) (by decide)).mpr ⟨by decide, by decide +kernel⟩

/-- The pointer behind a leading space is freed, and single quotes leave two spaces, or one at the end. -/
theorem cmdKeyShift_not_tidy : cmdKeyShift " a".toList 8 4096 = ⟨true, some 4097, some "a".toList⟩ ∧
      cmdKeyShift "a ' b".toList 8 4096 = ⟨true, some 4096, some "a  b".toList⟩ ∧
      cmdKeyShift "a '".toList 8 4096 = ⟨true, some 4096, some "a ".toList⟩ ∧
      tidy false "a  b".toList = false ∧ tidy false "a ".toList = false := by
  decide +kernel

end LiteosM.Components
