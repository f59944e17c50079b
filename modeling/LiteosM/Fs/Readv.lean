import LiteosM.Kernel.Data
import Mathlib.Algebra.Group.Int.Defs

/-!
# Scattered reads

Model of `readv` of `vfs_fs.c`. It reads into a buffer of its own and hands the bytes out to the buffers
of the caller with `memcpy_s`. A buffer of the caller is the list of its bytes; `read` is a parameter, and
the buffer it is given has any contents before it.

* `scatter_ok`, `scatter_flatten`: what the loop hands out, and when it gives up;
* **`readv_delivers`**: `readv` delivers what was read exactly when the read succeeds and the loop comes
  to no empty buffer, which `memcpy_s` refuses. The result -1 of a read that has failed is converted to
  `size_t`, so the whole buffer counts as read; only an empty buffer in the first place keeps it back.
-/

namespace LiteosM.Fs

open LiteosM.Kernel List

/-- `IOV_MAX_CNT`. -/
def iovMaxCnt : Nat := 4

/-- `SSIZE_MAX`. -/
def ssizeMax : Nat := 0x7FFFFFFF

/-- What a `read` has done: the buffer it was given, and what it returned. -/
structure ReadResult where
  buf : List UInt8
  ret : Int
  deriving DecidableEq, Repr

/-- `memcpy_s` into all of a buffer: what is in it afterwards, and whether `EOK` is returned. -/
def memcpyS (dest src : List UInt8) (count : Nat) : List UInt8 × Bool :=
  if dest.length = 0 ∨ dest.length > securecMemMaxLen then (dest, false)
  else if count > dest.length then (replicate dest.length 0, false)
  else (src.take count ++ dest.drop count, true)

/-- The loop that adds the lengths up. -/
def readvLength : List (List UInt8) → Nat → Option Nat
  | [], bufLen => some bufLen
  | b :: iov, bufLen => if ssizeMax - bufLen < b.length then none else readvLength iov (bufLen + b.length)

/-- The loop that hands the bytes out: the buffers afterwards, and whether it came to its end. -/
def scatter : List (List UInt8) → List UInt8 → Nat → List (List UInt8) × Bool
  | [], _, _ => ([], true)
  | b :: iov, curBuf, totalLen =>
    let lenToRead := if totalLen < b.length then totalLen else b.length
    match memcpyS b curBuf lenToRead with
    | (b, false) => (b :: iov, false)
    | (b, true) =>
      if totalLen < b.length then (b :: iov, true)
      else
        let (iov, ok) := scatter iov (curBuf.drop b.length) (totalLen - b.length)
        (b :: iov, ok)

/-- `readv`: what it returns, and the buffers afterwards. `malloc` says whether there is memory. -/
def readv (fd : Int) (iovBuf : Option (List (List UInt8))) (iovcnt : Int) (malloc : Bool)
    (read : Int → Nat → ReadResult) : Int × List (List UInt8) :=
  match iovBuf with
  | none => (-1, [])
  | some iov =>
    if iovcnt ≤ 0 ∨ iovcnt > iovMaxCnt then (-1, iov)
    else
      match readvLength (iov.take iovcnt.toNat) 0 with
      | none => (-1, iov)
      | some bufLen =>
        if bufLen = 0 ∨ malloc = false then (-1, iov)
        else
          let r := read fd bufLen
          let bytesRead := (r.ret % 2 ^ 32).toNat
          let totalLen := if bytesRead < bufLen then bytesRead else bufLen
          let (bufs, ok) := scatter (iov.take iovcnt.toNat) r.buf totalLen
          (if ok then r.ret else -1, bufs ++ iov.drop iovcnt.toNat)

/-! ## The loop -/

section
variable {iov : List (List UInt8)} {cur : List UInt8} {n bufLen total : Nat}

theorem readvLength_eq (h : readvLength iov bufLen = some total) (hlen : bufLen ≤ ssizeMax) :
    total = bufLen + iov.flatten.length ∧ total ≤ ssizeMax := by
  induction iov generalizing bufLen with
  | nil =>
    obtain rfl := Option.some.inj h
    exact ⟨rfl, hlen⟩
  | cons b iov ih =>
    unfold readvLength at h
    split_ifs at h with hfits
    obtain ⟨htotal, hmax⟩ := ih h (by omega)
    rw [flatten_cons, length_append]
    exact ⟨by omega, hmax⟩

/-- Every empty buffer stands behind more than `n` bytes. -/
def Filled (iov : List (List UInt8)) (n : Nat) : Prop :=
  ∀ pre post, iov = pre ++ [] :: post → n < pre.flatten.length

variable {b : List UInt8}

theorem Filled.head (h : Filled (b :: iov) n) : b ≠ [] := by
  rintro rfl
  exact Nat.not_lt_zero n (h [] iov rfl)

theorem filled_cons (hb : b ≠ []) :
    Filled (b :: iov) n ↔ n < b.length ∨ Filled iov (n - b.length) := by
  constructor
  · intro h
    by_cases hn : n < b.length
    · exact .inl hn
    refine .inr fun pre post hiov => ?_
    have := h (b :: pre) post (hiov ▸ rfl)
    rw [flatten_cons, length_append] at this
    omega
  rintro h (_ | ⟨c, pre⟩) post hiov
  · exact absurd (cons.inj hiov).1 hb
  obtain ⟨hc, htail⟩ := cons.inj hiov
  rw [flatten_cons, length_append, ← hc]
  rcases h with hn | h
  · omega
  · have := h pre post htail
    omega

theorem memcpyS_eq (hb : b ≠ []) (hmax : b.length ≤ ssizeMax) (hn : n ≤ b.length) :
    memcpyS b cur n = (cur.take n ++ b.drop n, true) := by
  have hpos := length_pos_iff.mpr hb
  unfold memcpyS
  rw [if_neg (by unfold securecMemMaxLen; unfold ssizeMax at hmax; omega), if_neg (by omega)]

theorem scatter_cons (hb : b ≠ []) (hmax : b.length ≤ ssizeMax) (hcur : n ≤ cur.length) :
    scatter (b :: iov) cur n = if n < b.length then ((cur.take n ++ b.drop n) :: iov, true)
      else (cur.take b.length :: (scatter iov (cur.drop b.length) (n - b.length)).1,
        (scatter iov (cur.drop b.length) (n - b.length)).2) := by
  conv_lhs => unfold scatter
  dsimp only
  by_cases hn : n < b.length
  · have hlen : (cur.take n ++ b.drop n).length = b.length := by
      rw [length_append, length_take, length_drop]
      omega
    rw [if_pos hn, if_pos hn, memcpyS_eq hb hmax hn.le]
    dsimp only
    rw [hlen, if_pos hn]
  have hlen : (cur.take b.length).length = b.length := by
    rw [length_take]
    omega
  rw [if_neg hn, if_neg hn, memcpyS_eq hb hmax (Nat.le_refl _), drop_length, append_nil]
  dsimp only
  rw [hlen, if_neg hn]

section
variable (hmax : iov.flatten.length ≤ ssizeMax) (hcur : n ≤ cur.length)
include hmax hcur

theorem scatter_ok : (scatter iov cur n).2 = true ↔ Filled iov n := by
  induction iov generalizing cur n with
  | nil => exact ⟨fun _ pre post h => by simp at h, fun _ => rfl⟩
  | cons b iov ih =>
    rw [flatten_cons, length_append] at hmax
    by_cases hb : b = []
    · subst hb
      exact ⟨fun h => Bool.noConfusion h, fun h => absurd rfl h.head⟩
    rw [scatter_cons hb (by omega) hcur, filled_cons hb]
    split_ifs with hn
    · exact ⟨fun _ => .inl hn, fun _ => rfl⟩
    · rw [ih (by omega) (by rw [length_drop]; omega)]
      exact ⟨.inr, fun h => h.resolve_left hn⟩

/-- The buffers keep their lengths, and hold the bytes in front of what was in them. -/
theorem scatter_flatten (hn : n ≤ iov.flatten.length) (hfilled : Filled iov n) :
    (scatter iov cur n).1.map length = iov.map length ∧
      (scatter iov cur n).1.flatten = cur.take n ++ iov.flatten.drop n := by
  induction iov generalizing cur n with
  | nil =>
    obtain rfl := Nat.le_zero.mp hn
    exact ⟨rfl, rfl⟩
  | cons b iov ih =>
    rw [flatten_cons, length_append] at hmax hn
    have hb := hfilled.head
    rw [scatter_cons hb (by omega) hcur, flatten_cons]
    by_cases hlt : n < b.length
    · rw [if_pos hlt, drop_append_of_le_length hlt.le, ← append_assoc]
      refine ⟨?_, rfl⟩
      rw [map_cons, length_append, length_take, length_drop]
      congr 1
      omega
    have hrest := ((filled_cons hb).mp hfilled).resolve_left hlt
    obtain ⟨hmap, hflat⟩ := @ih (cur.drop b.length) (n - b.length) (by omega)
      (by rw [length_drop]; omega) (by omega) hrest
    have htake : cur.take n = cur.take b.length ++ (cur.drop b.length).take (n - b.length) := by
      rw [← take_add, Nat.add_sub_cancel' (by omega)]
    have hdrop : (b ++ iov.flatten).drop n = iov.flatten.drop (n - b.length) := by
      rw [drop_append, drop_eq_nil_of_le (by omega), nil_append]
    rw [if_neg hlt, map_cons, map_cons, hmap, flatten_cons, hflat, htake, hdrop,
      append_assoc, length_take, Nat.min_eq_left (by omega)]
    exact ⟨rfl, rfl⟩

end

end

/-! ## What is delivered -/

/-- The buffers hold the bytes that were read, and what follows is as it was; or nothing has changed,
when the read has failed. -/
def Delivered (iov : List (List UInt8)) (r : ReadResult) (out : Int × List (List UInt8)) : Prop :=
  if 0 ≤ r.ret then
    out.1 = r.ret ∧ out.2.map length = iov.map length ∧
      out.2.flatten = r.buf.take r.ret.toNat ++ iov.flatten.drop r.ret.toNat
  else out.1 = -1 ∧ out.2 = iov

/-- The read succeeds and no buffer that the loop comes to is empty; or it fails, and the first buffer
is. -/
def Accepts (iov : List (List UInt8)) (ret : Int) : Prop :=
  if 0 ≤ ret then Filled iov ret.toNat else ∃ rest, iov = [] :: rest

section
variable {fd : Int} {iov : List (List UInt8)} {n : Nat} {read : Int → Nat → ReadResult}

theorem readv_eq (hcnt : 1 ≤ iov.length ∧ iov.length ≤ iovMaxCnt) (hlen : readvLength iov 0 = some n)
    (hn : n ≠ 0) (hret : -1 ≤ (read fd n).ret ∧ (read fd n).ret ≤ n) :
    readv fd (some iov) iov.length true read = if 0 ≤ (read fd n).ret then
        (if (scatter iov (read fd n).buf (read fd n).ret.toNat).2 then (read fd n).ret else -1,
          (scatter iov (read fd n).buf (read fd n).ret.toNat).1)
      else (-1, (scatter iov (read fd n).buf n).1) := by
  have hmax := (readvLength_eq hlen (Nat.zero_le _)).2
  unfold ssizeMax at hmax
  have htotal : (if ((read fd n).ret % 2 ^ 32).toNat < n then ((read fd n).ret % 2 ^ 32).toNat else n) =
      if 0 ≤ (read fd n).ret then (read fd n).ret.toNat else n := by
    split_ifs <;> omega
  have hcnt' : ¬ ((iov.length : Int) ≤ 0 ∨ (iov.length : Int) > iovMaxCnt) := by
    omega
  unfold readv
  dsimp only
  rw [if_neg hcnt', Int.toNat_natCast, take_length, drop_length, hlen]
  dsimp only
  rw [if_neg (by simp [hn]), htotal, append_nil]
  split_ifs with hpos hok hok
  · rfl
  · rfl
  · have : (read fd n).ret = -1 := by omega
    rw [this]
  · rfl

end

/-- For every array of one to `IOV_MAX_CNT` buffers that together have between 1 and `SSIZE_MAX` bytes,
and every result of the read: whatever is in the buffer that was read into, the bytes that were read are
delivered and no other byte changes, exactly when `Accepts`. -/
theorem readv_delivers (fd : Int) (iov : List (List UInt8)) (n : Nat) (ret : Int)
    (hcnt : 1 ≤ iov.length ∧ iov.length ≤ iovMaxCnt) (hlen : readvLength iov 0 = some n) (hn : n ≠ 0)
    (hret : -1 ≤ ret ∧ ret ≤ n) :
    (∀ read : Int → Nat → ReadResult, (read fd n).buf.length = n → (read fd n).ret = ret →
      Delivered iov (read fd n) (readv fd (some iov) iov.length true read)) ↔ Accepts iov ret := by
  obtain ⟨htotal, hmax⟩ := readvLength_eq hlen (Nat.zero_le _)
  by_cases hpos : 0 ≤ ret
  · rw [Accepts, if_pos hpos]
    constructor
    · intro h
      have := h (fun _ _ => ⟨replicate n 0, ret⟩) (length_replicate ..) rfl
      rw [readv_eq hcnt hlen hn hret, Delivered, if_pos hpos, if_pos hpos] at this
      refine (@scatter_ok iov (replicate n 0) ret.toNat (by omega) (by simp; omega)).mp ?_
      by_contra hok
      have hminus : -1 = ret := by
        simpa only [if_neg hok] using this.1
      omega
    intro hfilled read hbuf rfl
    have hcur : (read fd n).ret.toNat ≤ (read fd n).buf.length := by omega
    rw [readv_eq hcnt hlen hn hret, Delivered, if_pos hpos, if_pos hpos]
    obtain ⟨hmap, hflat⟩ := scatter_flatten (by omega) hcur (by omega) hfilled
    rw [if_pos ((scatter_ok (by omega) hcur).mpr hfilled)]
    exact ⟨rfl, hmap, hflat⟩
  rw [Accepts, if_neg hpos]
  constructor
  · intro h
    cases iov with
    | nil => exact absurd hcnt.1 (by simp)
    | cons b rest =>
      cases b with
      | nil => exact ⟨rest, rfl⟩
      | cons c b =>
        -- a buffer whose bytes are not those of the caller
        have := h (fun _ _ => ⟨replicate n (c + 1), ret⟩) (length_replicate ..) rfl
        rw [readv_eq hcnt hlen hn hret, Delivered, if_neg hpos, if_neg hpos] at this
        rw [flatten_cons, length_append] at htotal
        rw [scatter_cons (cons_ne_nil c b) (by omega) (by simp), if_neg (by omega)] at this
        have hhead := (cons.inj this.2).1
        rw [take_replicate, Nat.min_eq_left (by omega), length_cons, replicate_succ] at hhead
        exact absurd (cons.inj hhead).1 (by simp)
  · rintro ⟨rest, rfl⟩ read hbuf rfl
    rw [readv_eq hcnt hlen hn hret, Delivered, if_neg hpos, if_neg hpos]
    exact ⟨rfl, rfl⟩

/-- Three bytes are read into two buffers of two. -/
theorem readv_delivers_three : Delivered [[0, 0], [7, 8]] ⟨[1, 2, 3, 9], 3⟩
      (readv 5 (some [[0, 0], [7, 8]]) 2 true fun _ _ => ⟨[1, 2, 3, 9], 3⟩) := by
  refine (readv_delivers 5 [[0, 0], [7, 8]] 4 3 (by decide) rfl (by decide) (by decide)).mpr ?_
    (fun _ _ => ⟨[1, 2, 3, 9], 3⟩) rfl rfl
  exact (filled_cons (by decide)).mpr (.inr ((filled_cons (by decide)).mpr (.inl (by decide))))

/-- A read that fails: -1 is returned, and what happens to be in the buffer is in those of the caller. -/
theorem readv_fails : ¬ Delivered [[0, 0], [7, 8]] ⟨[1, 2, 3, 9], -1⟩
      (readv 5 (some [[0, 0], [7, 8]]) 2 true fun _ _ => ⟨[1, 2, 3, 9], -1⟩) := by
  intro h
  have hout : readv 5 (some [[0, 0], [7, 8]]) 2 true (fun _ _ => ⟨[1, 2, 3, 9], -1⟩) =
      (-1, [[1, 2], [3, 9]]) := by decide
  rw [hout, Delivered, if_neg (by decide)] at h
  exact absurd h.2 (by decide)

end LiteosM.Fs
