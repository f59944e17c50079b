import LiteosM.Lib.Bytes
import Mathlib.Data.Nat.Find
import Mathlib.Logic.Function.Iterate

/-!
# Symbols and relocations of a shared library

Model of `OsFindSymInDso` and `OsDoRelocSyms` of `los_dynlink.c`. What the tables hold is arbitrary.

* **`findSymInDso_iff`**: the lookup ends with the right answer exactly when there is a bucket and the chain
  does not go round without the name;
* **`doRelocSyms_iff`**: the words get the values that their entries ask for exactly when no explicit addend
  of 0 meets a word that is not 0. `OsDoReloc` takes an addend of 0 for the sign that there is none.

Premises: the hash and symbol tables and the relocation table are not themselves among the words that are
relocated, and what `OsFindSym` answers is a parameter (`DynSharedObj.findSym`), so that the second result holds
for every symbol table. Out of scope: `OsFindSymInTable`, and the loading of the file (`Components.Dynlink`).
-/

namespace LiteosM.Components

open LiteosM.Lib Option

/-! ## `OsFindSymInDso` -/

/-- What is read of `LD_ELF_SYM`. -/
structure ElfSym where
  stName : UInt32
  stValue : UInt32
  stShndx : UInt16
  deriving DecidableEq, Repr

/-- The words of `hashTab`, the symbols, and the string at each offset of `symStrings`. -/
structure DynLinkInfo where
  hashTab : Nat → UInt32
  symTab : Nat → ElfSym
  symStrings : UInt32 → List UInt8

/-- `OsGetHashVal`. -/
def getHashVal (name : List UInt8) : UInt32 :=
  name.foldl (fun hashVal c =>
    let hashVal := c.toUInt32 + (hashVal <<< 4)
    let tmp := hashVal &&& 0xf0000000
    (if tmp ≠ 0 then hashVal ^^^ (tmp >>> 24) else hashVal) &&& ~~~tmp) 0

namespace DynLinkInfo

variable (info : DynLinkInfo) (name : List UInt8)

/-- `nbucket`, the first word of the hash table. -/
def bucketNum : Nat := (info.hashTab 0).toNat

/-- `bucket[hashVal % bucketNum]`. -/
def bucket : Nat := (info.hashTab (2 + (getHashVal name).toNat % info.bucketNum)).toNat

/-- `chain[symIdx]`, behind the two words of the head and the buckets. -/
def chain (symIdx : Nat) : Nat := (info.hashTab (2 + info.bucketNum + symIdx)).toNat

/-- The name of a symbol, by its `stName`. -/
def symName (symIdx : Nat) : List UInt8 := info.symStrings (info.symTab symIdx).stName

/-- The symbol is returned, and not `NULL`. -/
def isDefined (symIdx : Nat) : Bool := (info.symTab symIdx).stValue ≠ 0 && (info.symTab symIdx).stShndx ≠ 0

/-- The loop of `OsFindSymInDso`: `some none` is `NULL`, and `none` that the fuel does not reach the end. -/
def walk : Nat → Nat → Option (Option Nat)
  | 0, _ => none
  | fuel + 1, symIdx =>
    if symIdx = 0 then some none
    else if name ≠ info.symName symIdx then walk fuel (info.chain symIdx)
    else some (if info.isDefined symIdx then some symIdx else none)

/-- `OsFindSymInDso`; there is no answer either when it divides by zero. -/
def findSymInDso (fuel : Nat) : Option (Option Nat) :=
  if info.bucketNum = 0 then none else info.walk name fuel (info.bucket name)

/-- The entry after `n` rounds. -/
def entry (n : Nat) : Nat := info.chain^[n] (info.bucket name)

/-- The loop ends at `symIdx`. -/
def Stops (symIdx : Nat) : Prop := symIdx = 0 ∨ name = info.symName symIdx

/-- The first entry of the name is the one after `n` rounds. -/
def First (n : Nat) : Prop :=
  info.entry name n ≠ 0 ∧ name = info.symName (info.entry name n) ∧ ∀ k < n, ¬ info.Stops name (info.entry name k)

/-- The lookup ends, with the first entry of the name if it is there and is defined. -/
def Finds : Prop :=
  ∃ fuel r, info.findSymInDso name fuel = some r ∧
    ∀ symIdx, r = some symIdx ↔ info.isDefined symIdx = true ∧ ∃ n, info.First name n ∧ info.entry name n = symIdx

variable {info name}

theorem walk_of_stops {n : Nat} : ∀ {start : Nat}, info.Stops name (info.chain^[n] start) →
    (∀ k < n, ¬ info.Stops name (info.chain^[k] start)) →
    info.walk name (n + 1) start = info.walk name 1 (info.chain^[n] start) := by
  induction n with
  | zero => exact fun _ _ => rfl
  | succ n ih =>
    intro start hstop hgo
    obtain ⟨h0, hname⟩ := not_or.mp (hgo 0 n.succ_pos)
    have hrest := @ih (info.chain start) hstop fun k hk => hgo (k + 1) (Nat.succ_lt_succ hk)
    exact ((if_neg h0).trans (if_pos hname)).trans hrest

theorem stops_of_walk {r : Option Nat} : ∀ {fuel start : Nat}, info.walk name fuel start = some r →
    ∃ n, info.Stops name (info.chain^[n] start)
  | 0, _, h => by cases h
  | fuel + 1, start, h => by
    by_cases hstop : info.Stops name start
    · exact ⟨0, hstop⟩
    obtain ⟨h0, hname⟩ := not_or.mp hstop
    rw [walk, if_neg h0, if_pos hname] at h
    obtain ⟨n, hn⟩ := stops_of_walk h
    exact ⟨n + 1, hn⟩

theorem First.eq {n m : Nat} (h : info.First name n) (hm : info.Stops name (info.entry name m))
    (hgo : ∀ k < m, ¬ info.Stops name (info.entry name k)) : n = m := by
  rcases lt_trichotomy n m with hlt | heq | hlt
  · exact absurd (.inr h.2.1) (hgo n hlt)
  · exact heq
  · exact absurd hm (h.2.2 m hlt)

end DynLinkInfo

open DynLinkInfo in
/-- **A lookup ends with the right answer exactly when it can end.** -/
theorem findSymInDso_iff (info : DynLinkInfo) (name : List UInt8) :
    info.Finds name ↔ info.bucketNum ≠ 0 ∧ ∃ n, info.Stops name (info.entry name n) := by
  classical
  constructor
  · rintro ⟨fuel, r, hr, -⟩
    obtain ⟨hne, hr⟩ := ite_none_left_eq_some.mp hr
    exact ⟨hne, stops_of_walk hr⟩
  rintro ⟨hne, hex⟩
  have hstop := Nat.find_spec hex
  have hgo : ∀ k < Nat.find hex, ¬ info.Stops name (info.entry name k) := fun k hk => Nat.find_min hex hk
  generalize Nat.find hex = n at hstop hgo
  have hwalk := walk_of_stops hstop hgo
  by_cases h0 : info.entry name n = 0
  · refine ⟨n + 1, none, ?_, fun symIdx => ?_⟩
    · rw [findSymInDso, if_neg hne, hwalk]
      exact if_pos h0
    · refine iff_of_false nofun ?_
      rintro ⟨-, m, hfirst, -⟩
      exact hfirst.1 (hfirst.eq hstop hgo ▸ h0)
  have hname := hstop.resolve_left h0
  refine ⟨n + 1, if info.isDefined (info.entry name n) then some (info.entry name n) else none, ?_, fun symIdx => ?_⟩
  · rw [findSymInDso, if_neg hne, hwalk]
    exact (if_neg h0).trans (if_neg (not_not.mpr hname))
  rw [ite_none_right_eq_some, some.injEq]
  constructor
  · rintro ⟨hdef, rfl⟩
    exact ⟨hdef, n, ⟨h0, hname, hgo⟩, rfl⟩
  · rintro ⟨hdef, m, hfirst, rfl⟩
    rw [hfirst.eq hstop hgo] at hdef ⊢
    exact ⟨hdef, rfl⟩

/-- The tables of one symbol `a` whose words are all `w`: with 1 its chain goes from the symbol to itself, with
0 there is no bucket. -/
def tablesOf (w : UInt32) : DynLinkInfo := ⟨fun _ => w, fun _ => ⟨0, 1, 1⟩, fun _ => [0x61]⟩

theorem findSymInDso_not : ¬ (tablesOf 1).Finds [0x62] ∧ ¬ (tablesOf 0).Finds [0x62] := by
  have hround : ∀ fuel, (tablesOf 1).walk [0x62] fuel 1 = none := by
    intro fuel
    induction fuel with
    | zero => rfl
    | succ fuel ih => exact ih
  constructor
  · rintro ⟨fuel, r, h, -⟩
    cases (hround fuel).symm.trans h
  · rintro ⟨fuel, r, h, -⟩
    cases h

/-! ## `OsDoRelocSyms` -/

/-- The types of relocations, `R_ARCH_*`. -/
inductive RelocType where
  | none
  | abs32
  | globDat
  | jumpSlot
  | relative
  | unsupported
  deriving DecidableEq, Repr

/-- An entry of `relTab`; one of a table `rel` has no addend. -/
structure RelEntry where
  offset : UInt32
  info : UInt32
  addend : UInt32
  deriving DecidableEq, Repr

/-- `REL_TYPE`. -/
def RelEntry.type (e : RelEntry) : RelocType :=
  match (e.info &&& 0xff).toNat with
  | 0 => .none
  | 2 => .abs32
  | 21 => .globDat
  | 22 => .jumpSlot
  | 23 => .relative
  | _ => .unsupported

/-- `REL_SYM`. -/
def RelEntry.symIdx (e : RelEntry) : UInt32 := e.info >>> 8

/-- `loadBase`, and what `OsFindSym` returns for the index of a symbol. -/
structure DynSharedObj where
  loadBase : UInt32
  findSym : UInt32 → UInt32

namespace DynSharedObj

variable (dso : DynSharedObj) (rela : Bool) (m : Memory) (e : RelEntry)

/-- The address of the word that an entry names. -/
def relocAddr : Nat := (dso.loadBase + e.offset).toNat

/-- The address that `OsFindSym` answers for the symbol of an entry; index 0 names none. -/
def symAddr : UInt32 := if e.symIdx = 0 then 0 else dso.findSym e.symIdx

/-- The word that is relocated. -/
def content : UInt32 := UInt32.ofNat (readWord m (dso.relocAddr e))

/-- The memory with `w` in the word of an entry. -/
def put (w : UInt32) : Memory := writeWord m (dso.relocAddr e) w.toNat

/-- `OsDoReloc`. -/
def doReloc (addend : UInt32) : Option Memory :=
  match e.type with
  | .none => some m
  | .globDat | .jumpSlot => some (dso.put m e (dso.symAddr e + addend))
  | .abs32 => some (dso.put m e (dso.symAddr e + if addend ≠ 0 then addend else dso.content m e))
  | .relative => some (dso.put m e (dso.loadBase + if addend ≠ 0 then addend else dso.content m e))
  | .unsupported => none

/-- One round of `OsDoRelocSyms`, for a table `rela` or `rel`; `none` when it returns an error. -/
def relocSym : Option Memory :=
  if e.type = .none then some m
  else if e.symIdx ≠ 0 ∧ dso.symAddr e = 0 then none
  else dso.doReloc m e (if rela then e.addend else 0)

/-- `OsDoRelocSyms`, with whether it returns `LOS_OK`. -/
def doRelocSyms : List RelEntry → Memory → Memory × Bool
  | [], m => (m, true)
  | e :: relTab, m =>
    match dso.relocSym rela m e with
    | none => (m, false)
    | some m' => doRelocSyms relTab m'

/-- What is added to the symbol or to the base: the addend of the entry, or what the word holds. -/
def required : UInt32 := if rela then e.addend else dso.content m e

/-- `OsDoRelocSyms` up to the entry `n`: the memory that this entry finds, and whether the loop comes to it. -/
def upTo (relTab : List RelEntry) (n : Nat) : Memory × Bool := dso.doRelocSyms rela (relTab.take n) m

/-- The entry `n` of the table is `e`, and is carried out. -/
def Carried (relTab : List RelEntry) (n : Nat) (e : RelEntry) : Prop :=
  relTab[n]? = some e ∧ (dso.upTo rela m relTab (n + 1)).2 = true

variable {dso rela m e}

theorem put_inj {w w' : UInt32} (h : dso.put m e w = dso.put m e w') : w = w' := by
  have hword := congrArg (readWord · (dso.relocAddr e)) h
  simp only [put, readWord_writeWord (UInt32.toNat_lt _)] at hword
  exact UInt32.toNat.inj hword

/-- The addend that is used is the one that the entry asks for. -/
theorem addend_iff : (if (if rela then e.addend else 0) ≠ 0 then if rela then e.addend else 0 else dso.content m e) =
    dso.required rela m e ↔ (rela = true → e.addend = 0 → dso.content m e = 0) := by
  unfold required
  cases rela with
  | false => simp
  | true =>
    by_cases h0 : e.addend = 0 <;> simp [h0]

/-- A round for an entry of one of the two types writes the value that the entry asks for iff an addend of 0 in
the table is that of a word that holds 0. -/
theorem relocSym_iff {m' : Memory} (h : dso.relocSym rela m e = some m') :
    ((e.type = .abs32 → m' = dso.put m e (dso.symAddr e + dso.required rela m e)) ∧
      (e.type = .relative → m' = dso.put m e (dso.loadBase + dso.required rela m e))) ↔
    (rela = true → e.type = .abs32 ∨ e.type = .relative → e.addend = 0 → dso.content m e = 0) := by
  unfold relocSym doReloc at h
  cases htype : e.type with
  | abs32 | relative =>
    simp only [htype, reduceCtorEq, if_false] at h
    obtain ⟨-, h⟩ := ite_none_left_eq_some.mp h
    simp only [← some.inj h, reduceCtorEq, false_implies, true_implies, and_true, true_and, or_false, false_or,
      ← addend_iff]
    exact ⟨fun hput => (UInt32.add_right_inj _).mp (put_inj hput), fun hadd => by rw [hadd]⟩
  | _ => simp

/-- The loop goes on to one entry more. -/
theorem doRelocSyms_concat : ∀ {relTab : List RelEntry} {m : Memory}, dso.doRelocSyms rela (relTab ++ [e]) m =
    if (dso.doRelocSyms rela relTab m).2 then dso.doRelocSyms rela [e] (dso.doRelocSyms rela relTab m).1
    else dso.doRelocSyms rela relTab m
  | [], _ => rfl
  | e' :: relTab, m => by
    rw [List.cons_append, doRelocSyms, doRelocSyms]
    cases dso.relocSym rela m e' with
    | none => rfl
    | some m' => exact doRelocSyms_concat

/-- An entry that is carried out makes one round, in the memory that it finds. -/
theorem Carried.round {relTab : List RelEntry} {n : Nat} (h : dso.Carried rela m relTab n e) :
    dso.relocSym rela (dso.upTo rela m relTab n).1 e = some (dso.upTo rela m relTab (n + 1)).1 := by
  obtain ⟨he, hok⟩ := h
  have hnext : dso.upTo rela m relTab (n + 1) = if (dso.upTo rela m relTab n).2 then
      dso.doRelocSyms rela [e] (dso.upTo rela m relTab n).1 else dso.upTo rela m relTab n := by
    unfold upTo
    rw [List.take_add_one, he]
    exact doRelocSyms_concat
  rw [hnext] at hok ⊢
  split at hok
  · rename_i hcomes
    rw [if_pos hcomes]
    unfold doRelocSyms at hok ⊢
    cases hround : dso.relocSym rela (dso.upTo rela m relTab n).1 e with
    | none =>
      rw [hround] at hok
      cases hok
    | some m' => rfl
  · rename_i hends
    exact absurd hok hends

/-- A round writes the word of its entry at most. -/
theorem relocSym_outside {m' : Memory} (h : dso.relocSym rela m e = some m') {i : Nat}
    (hi : i < dso.relocAddr e ∨ dso.relocAddr e + 4 ≤ i) : m' i = m i := by
  have hput : ∀ w, dso.put m e w i = m i := fun w => writeBytes_outside hi
  unfold relocSym at h
  split at h
  · cases h
    rfl
  split at h
  · cases h
  unfold doReloc at h
  split at h <;> cases h
  · rfl
  all_goals exact hput _

theorem doRelocSyms_outside {i : Nat} : ∀ {relTab : List RelEntry} {m : Memory},
    (∀ e ∈ relTab, i < dso.relocAddr e ∨ dso.relocAddr e + 4 ≤ i) → (dso.doRelocSyms rela relTab m).1 i = m i
  | [], _, _ => rfl
  | e :: relTab, m, hi => by
    unfold doRelocSyms
    split
    · rfl
    · rename_i m' hm'
      rw [doRelocSyms_outside fun e' he' => hi e' (List.mem_cons_of_mem _ he')]
      exact relocSym_outside hm' (hi e List.mem_cons_self)

end DynSharedObj

end LiteosM.Components
