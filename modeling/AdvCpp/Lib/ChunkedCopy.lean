import AdvCpp.Lib.Bytes
import Mathlib.Algebra.Ring.Nat
import Mathlib.Data.List.Induction

/-!
# Copying a file in chunks

A copy that reads a source chunk by chunk (`B` elements each, the last one shorter) and writes
what each read returned behind what was read before, when reads and writes may be short and
neither is repeated.  `copyOut` is the destination as a function of the results.

* `copyOut_length_le`, `copyOut_off_le` — a short read can not be made up for.
* `copyOut_padded` — a short write is harmless exactly if what it left out is padding.
* `copyOut_eq_iff` — the results for which the destination is the source.
* `copiedTo_write` — the same for one piece of any length, when the read offset and the write
  offset are the same.
-/

namespace AdvCpp.Lib

universe u

variable {α : Type u}

/-- Length of the `i`-th chunk of a file of `n` elements. -/
def chunkLen (B n i : Nat) : Nat := min B (n - i * B)

theorem chunkLen_le (B n i : Nat) : chunkLen B n i ≤ n - i * B := Nat.min_le_right _ _

theorem chunkLen_eq_zero {B n i : Nat} (hB : 0 < B) : chunkLen B n i = 0 ↔ n ≤ i * B := by
  unfold chunkLen; omega

/-- The end of a chunk. -/
theorem chunkLen_end {B n i : Nat} (h : i * B ≤ n) :
    i * B + chunkLen B n i = min ((i + 1) * B) n := by
  unfold chunkLen; rw [Nat.add_mul]; omega

/-- Chunk number, destination offset and destination file. -/
structure CopyOut (α : Type u) where
  chunk : Nat
  off : Nat
  dst : List α

/-- The `i`-th read returned `rw.1` and the write of what it read `rw.2`. -/
def writeChunk (z : α) (B : Nat) (src : List α) (o : CopyOut α) (rw : Int × Int) : CopyOut α :=
  ⟨o.chunk + 1, o.off + rw.1.toNat,
    pwrite z o.dst o.off ((pread src (o.chunk * B) rw.1.toNat).take rw.2.toNat)⟩

/-- The destination as a function of the results of the reads and writes. -/
def copyOut (z : α) (B : Nat) (src : List α) (rws : List (Int × Int)) : CopyOut α :=
  rws.foldl (writeChunk z B src) ⟨0, 0, []⟩

/-- What the `i`-th chunk holds from position `w` on is padding. -/
def TailPadded (z : α) (B : Nat) (src : List α) (i : Nat) (w : Int) : Prop :=
  ∀ j : Nat, w ≤ j → j < chunkLen B src.length i → src[i * B + j]? = some z

variable {z : α} {B : Nat} {src : List α} {rws : List (Int × Int)}

/-- Read results stay within their chunks, write results within what was read. -/
def Bounded (B n : Nat) (rws : List (Int × Int)) : Prop :=
  ∀ (i : Nat) (p : Int × Int), rws[i]? = some p → 0 < p.2 ∧ p.2 ≤ p.1 ∧ p.1 ≤ chunkLen B n i

/-- A property of all results, with one more of them. -/
theorem forall_snoc {P : Nat → Int × Int → Prop} {p : Int × Int} :
    (∀ i q, (rws ++ [p])[i]? = some q → P i q) ↔
      (∀ i q, rws[i]? = some q → P i q) ∧ P rws.length p := by
  constructor
  · intro h
    refine ⟨fun i q hq => h i q ?_, h rws.length p (by simp)⟩
    rw [List.getElem?_append_left (List.getElem?_eq_some_iff.1 hq).1]
    exact hq
  · intro h i q hq
    by_cases hi : i < rws.length
    · rw [List.getElem?_append_left hi] at hq
      exact h.1 i q hq
    · have hlt : i < (rws ++ [p]).length := (List.getElem?_eq_some_iff.1 hq).1
      rw [List.length_append, List.length_singleton] at hlt
      obtain rfl : i = rws.length := by omega
      rw [List.getElem?_concat_length] at hq
      cases hq
      exact h.2

theorem Bounded.init {n : Nat} {p : Int × Int} (h : Bounded B n (rws ++ [p])) : Bounded B n rws :=
  (forall_snoc.1 h).1

theorem Bounded.last {n : Nat} {p : Int × Int} (h : Bounded B n (rws ++ [p])) :
    0 < p.2 ∧ p.2 ≤ p.1 ∧ p.1 ≤ chunkLen B n rws.length :=
  (forall_snoc.1 h).2

theorem copyOut_snoc (p : Int × Int) :
    copyOut z B src (rws ++ [p]) = writeChunk z B src (copyOut z B src rws) p := by
  simp [copyOut]

@[simp] theorem copyOut_chunk : (copyOut z B src rws).chunk = rws.length := by
  induction rws using List.reverseRecOn with
  | nil => rfl
  | append_singleton rws p ih => simp [copyOut_snoc, writeChunk, ih]

/-- The destination offset is the sum of the bytes read. -/
theorem copyOut_off : (copyOut z B src rws).off = (rws.map (·.1.toNat)).sum := by
  induction rws using List.reverseRecOn with
  | nil => rfl
  | append_singleton rws p ih => simp [copyOut_snoc, writeChunk, ih]

/-- The destination never reaches behind the sum of the bytes read. -/
theorem copyOut_length_le (z : α) (B : Nat) (src : List α) (rws : List (Int × Int)) :
    (copyOut z B src rws).dst.length ≤ (copyOut z B src rws).off := by
  induction rws using List.reverseRecOn with
  | nil => exact Nat.le_refl _
  | append_singleton rws p ih =>
    rw [copyOut_snoc]
    refine Nat.le_trans (pwrite_end_length ih) ?_
    simp only [writeChunk, List.length_take, pread_length]
    omega

/-- The bytes read fill at most the chunks read, and only full reads fill them. -/
theorem copyOut_off_le (z : α) (src : List α) {n : Nat} (hb : Bounded B n rws) :
    (copyOut z B src rws).off ≤ min (rws.length * B) n ∧
      ((copyOut z B src rws).off = min (rws.length * B) n →
        ∀ (i : Nat) (p : Int × Int), rws[i]? = some p → p.1 = chunkLen B n i) := by
  induction rws using List.reverseRecOn with
  | nil => simp [copyOut]
  | append_singleton rws p ih =>
    obtain ⟨hle, hfull⟩ := ih hb.init
    obtain ⟨hw, hwr, hr⟩ := hb.last
    have hchunk : min ((rws.length + 1) * B) n =
        min (rws.length * B) n + chunkLen B n rws.length := by
      unfold chunkLen; rw [Nat.add_mul]; omega
    have hp : p.1.toNat ≤ chunkLen B n rws.length := by omega
    rw [copyOut_snoc, List.length_append, List.length_singleton, hchunk]
    simp only [writeChunk]
    refine ⟨by omega, fun he => forall_snoc.2 ⟨hfull (by omega), ?_⟩⟩
    omega

/-- Full reads of whole chunks fill the chunks. -/
theorem copyOut_off_full {n : Nat} (hb : Bounded B n rws) (hn : rws.length * B ≤ n)
    (h : ∀ (i : Nat) (p : Int × Int), rws[i]? = some p → p.1 = chunkLen B n i) :
    (copyOut z B src rws).off = rws.length * B := by
  induction rws using List.reverseRecOn with
  | nil => simp [copyOut]
  | append_singleton rws p ih =>
    rw [List.length_append, List.length_singleton, Nat.add_mul, Nat.one_mul] at hn ⊢
    obtain ⟨hfull, hp⟩ := forall_snoc.1 h
    have hrec := ih hb.init (by omega) hfull
    have hc : chunkLen B n rws.length = B := by unfold chunkLen; omega
    rw [copyOut_snoc]
    simp only [writeChunk, hrec, hp, hc]
    omega

/-- What one more write of a full chunk appends to the padded destination. -/
theorem copyOut_step {p : Int × Int} (hb : Bounded B src.length (rws ++ [p]))
    (hoff : (copyOut z B src rws).off = rws.length * B) :
    (copyOut z B src (rws ++ [p])).dst =
        (copyOut z B src rws).dst.rightpad (rws.length * B) z ++
          pread src (rws.length * B) p.2.toNat ∧
      (pread src (rws.length * B) p.2.toNat).length = p.2.toNat := by
  obtain ⟨hw, hwr, hr⟩ := hb.last
  have hlen : (pread src (rws.length * B) p.2.toNat).length = p.2.toNat := by
    rw [pread_length]; unfold chunkLen at hr; omega
  refine ⟨?_, hlen⟩
  rw [copyOut_snoc]
  simp only [writeChunk, copyOut_chunk, hoff]
  rw [pread_take (by omega), pwrite_end]
  · intro hnil; rw [hnil] at hlen; simp at hlen; omega
  · have := copyOut_length_le z B src rws
    omega

/-- With full reads of whole chunks, the padded destination is a prefix of the source exactly if
every write left out only padding. -/
theorem copyOut_padded (hb : Bounded B src.length rws)
    (hfull : (copyOut z B src rws).off = rws.length * B)
    (hn : rws.length * B ≤ src.length) :
    (copyOut z B src rws).dst.rightpad (rws.length * B) z = src.take (rws.length * B) ↔
      ∀ (i : Nat) (p : Int × Int), rws[i]? = some p → TailPadded z B src i p.2 := by
  induction rws using List.reverseRecOn with
  | nil => simp [copyOut, List.rightpad]
  | append_singleton rws p ih =>
    obtain ⟨hw, hwr, hr⟩ := hb.last
    rw [List.length_append, List.length_singleton, Nat.add_mul, Nat.one_mul] at hn hfull ⊢
    have hc : chunkLen B src.length rws.length = B := by unfold chunkLen; omega
    have hoff : (copyOut z B src rws).off = rws.length * B := by
      have h1 := (copyOut_off_le z src hb.init).1
      rw [copyOut_snoc] at hfull
      simp only [writeChunk] at hfull
      omega
    obtain ⟨hdst, hlen⟩ := copyOut_step hb hoff
    have hdl := copyOut_length_le z B src rws
    rw [hdst, rightpad_append_eq_take (by omega) (by omega) (by omega) (by omega),
      ih hb.init hoff (by omega), hlen, Nat.add_sub_cancel_left]
    have htail : pread src (rws.length * B) p.2.toNat ++
        List.replicate (B - p.2.toNat) z = (src.drop (rws.length * B)).take B ↔
        TailPadded z B src rws.length p.2 := by
      rw [pread, take_append_replicate_eq_take (by omega) (by rw [List.length_drop]; omega)]
      unfold TailPadded
      rw [hc]
      simp only [List.getElem?_drop]
      exact ⟨fun h j h1 h2 => h j (by omega) h2, fun h j h1 h2 => h j (by omega) h2⟩
    rw [htail, forall_snoc]

/-- **The results for which the destination is the source**, when `rws.length` is the number of
the last chunk. -/
theorem copyOut_eq_iff {p : Int × Int} (hb : Bounded B src.length (rws ++ [p]))
    (hlast : rws.length * B < src.length)
    (hend : src.length ≤ (rws.length + 1) * B) :
    (copyOut z B src (rws ++ [p])).dst = src ↔
      (∀ (i : Nat) (q : Int × Int), (rws ++ [p])[i]? = some q → q.1 = chunkLen B src.length i) ∧
      (∀ (i : Nat) (q : Int × Int), (rws ++ [p])[i]? = some q →
        q.2 = chunkLen B src.length i ∨ ((i + 1) * B < src.length ∧ TailPadded z B src i q.2)) := by
  obtain ⟨hw, hwr, hr⟩ := hb.last
  have hc : chunkLen B src.length rws.length = src.length - rws.length * B := by
    rw [Nat.add_mul] at hend; unfold chunkLen; omega
  have hle := copyOut_off_le z src hb
  have hmin : min ((rws ++ [p]).length * B) src.length = src.length := by simp; omega
  have hstep : (copyOut z B src (rws ++ [p])).off = (copyOut z B src rws).off + p.1.toNat := by
    rw [copyOut_snoc]; rfl
  have hdl := copyOut_length_le z B src rws
  have hinit := (copyOut_off_le z src hb.init).1
  rw [hmin] at hle
  constructor
  · intro h
    have hfull : (copyOut z B src (rws ++ [p])).off = src.length := by
      have := copyOut_length_le z B src (rws ++ [p])
      rw [h] at this
      exact Nat.le_antisymm hle.1 this
    have hoff : (copyOut z B src rws).off = rws.length * B := by omega
    obtain ⟨hdst, hlen⟩ := copyOut_step hb hoff
    have hsrc := h
    rw [hdst] at hsrc
    have hw' : p.2.toNat = src.length - rws.length * B := by
      have := congrArg List.length hsrc
      rw [List.length_append, hlen, List.length_rightpad] at this
      omega
    have hpad : ((copyOut z B src rws).dst.rightpad (rws.length * B) z ++
        pread src (rws.length * B) p.2.toNat).rightpad src.length z = src.take src.length := by
      rw [hsrc]; simp [List.rightpad]
    rw [rightpad_append_eq_take (by omega) (by omega) (by omega) (by omega)] at hpad
    have htails := (copyOut_padded hb.init hoff (by omega)).1 hpad.1
    refine ⟨hle.2 hfull, forall_snoc.2 ⟨fun i q hq => Or.inr ⟨?_, htails i q hq⟩, Or.inl (by omega)⟩⟩
    have hi : i < rws.length := (List.getElem?_eq_some_iff.1 hq).1
    have : (i + 1) * B ≤ rws.length * B := Nat.mul_le_mul_right _ (by omega)
    omega
  · rw [forall_snoc, forall_snoc]
    rintro ⟨⟨hreads, -⟩, hwrites, hwrite⟩
    have hoff : (copyOut z B src rws).off = rws.length * B :=
      copyOut_off_full hb.init (by omega) hreads
    obtain ⟨hdst, hlen⟩ := copyOut_step hb hoff
    have hp2 : p.2 = chunkLen B src.length rws.length := by
      obtain h | h := hwrite
      · exact h
      · omega
    have htails : ∀ (i : Nat) (q : Int × Int), rws[i]? = some q → TailPadded z B src i q.2 := by
      intro i q hq
      obtain h | h := hwrites i q hq
      · intro j h1 h2
        omega
      · exact h.2
    have hpad := (copyOut_padded hb.init hoff (by omega)).2 htails
    have hrest : (src.drop (rws.length * B)).take p.2.toNat = src.drop (rws.length * B) :=
      List.take_of_length_le (by rw [List.length_drop]; omega)
    rw [hdst, hpad, pread, hrest, List.take_append_drop]

/-! ## Pieces of any length -/

variable {dst : List α} {off r w : Nat}

/-- The padded destination is a prefix of the source, and there is no padding behind its end. -/
def CopiedTo (z : α) (src : List α) (off : Nat) (dst : List α) : Prop :=
  dst.rightpad off z = src.take off ∧ (off = src.length → dst.length = off)

theorem copiedTo_nil (z : α) (src : List α) : CopiedTo z src 0 [] := by
  simp [CopiedTo, List.rightpad]

/-- At the end of the source everything is copied. -/
theorem copiedTo_end (hdst : dst.length ≤ src.length) :
    CopiedTo z src src.length dst ↔ dst = src := by
  unfold CopiedTo
  rw [List.take_length]
  constructor
  · intro h
    have hpad : dst.rightpad src.length z = dst := by simp [List.rightpad, h.2 rfl]
    rw [← h.1, hpad]
  · intro h
    subst h
    simp [List.rightpad]

/-- **Copying a piece** of `r` elements of which `w` are written: what is left out has to be padding
in front of something. -/
theorem copiedTo_write (hdst : dst.length ≤ off) (hw : 0 < w) (hwr : w ≤ r)
    (hr : off + r ≤ src.length) :
    CopiedTo z src (off + r) (pwrite z dst off ((pread src off r).take w)) ↔
      CopiedTo z src off dst ∧
        (w = r ∨ (off + r < src.length ∧ ∀ j, w ≤ j → j < r → src[off + j]? = some z)) := by
  have hlen : (pread src off w).length = w := by
    rw [pread_length]
    omega
  have hne : pread src off w ≠ [] := by
    intro hnil
    rw [hnil] at hlen
    exact Nat.ne_of_lt hw hlen
  have hpadded : (dst.rightpad off z).length = off := by
    simp [List.rightpad]
    omega
  have htail : pread src off w ++ List.replicate (off + r - off - (pread src off w).length) z =
      (src.drop off).take (off + r - off) ↔ ∀ j, w ≤ j → j < r → src[off + j]? = some z := by
    rw [hlen, Nat.add_sub_cancel_left, pread,
      take_append_replicate_eq_take hwr (by rw [List.length_drop]; omega)]
    simp only [List.getElem?_drop]
  unfold CopiedTo
  rw [pread_take hwr, pwrite_end hne hdst,
    rightpad_append_eq_take (by omega) hdst (by omega) (by omega), htail, List.length_append,
    hpadded, hlen]
  constructor
  · intro h
    refine ⟨⟨h.1.1, by omega⟩, ?_⟩
    by_cases hend : off + r = src.length
    · have := h.2 hend
      exact Or.inl (by omega)
    · exact Or.inr ⟨by omega, h.1.2⟩
  · intro h
    obtain ⟨⟨hpre, -⟩, hfull | ⟨hlt, hzero⟩⟩ := h
    · exact ⟨⟨hpre, by omega⟩, by omega⟩
    · exact ⟨⟨hpre, hzero⟩, by omega⟩

end AdvCpp.Lib
