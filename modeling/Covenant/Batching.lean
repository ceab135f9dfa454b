import Covenant.Lists
import Covenant.Outcome

/-! Splitting a slice into consecutive batches with an index that is a 64-bit machine
integer. For a positive batch size and a slice that a machine can hold the index
never wraps, the batches partition the slice in order, and only the last one may be
short; for batch size zero the loop never ends on a non-empty slice. -/

namespace Batching
open Outcome

variable {α : Type}

/-- `xs[i:stop]`. -/
def slice (xs : List α) (i stop : UInt64) : Except Halt (List α) :=
  if i ≤ stop ∧ stop.toNat ≤ xs.length then .ok ((xs.take stop.toNat).drop i.toNat)
  else .error (.panic "slice bounds out of range")

/-- The loop from index `i` on. A loop still running after `fuel` rounds counts as one
that never ends. -/
def batchesFrom (batchSize : UInt64) (xs : List α) : Nat → UInt64 → Except Halt (List (List α))
  | 0, _ => .error .diverge
  | fuel + 1, i =>
    let len := UInt64.ofNat xs.length
    if i < len then do
      let stop := if i + batchSize > len then len else i + batchSize
      let batch ← slice xs i stop
      let batches ← batchesFrom batchSize xs fuel (i + batchSize)
      return batch :: batches
    else
      return []

/-- Every batch is non-empty and has at most `n` elements; all but the last have `n`. -/
def Chunked (n : Nat) : List (List α) → Prop
  | [] => True
  | [x] => 0 < x.length ∧ x.length ≤ n
  | x :: y :: rest => x.length = n ∧ Chunked n (y :: rest)

theorem Chunked.cons_full {n : Nat} (hn : 0 < n) {x : List α} {rest : List (List α)}
    (h : Chunked n rest) (hx : x.length = n) : Chunked n (x :: rest) := by
  cases rest with
  | nil => exact ⟨by omega, by omega⟩
  | cons y rest => exact ⟨hx, h⟩

theorem Chunked.bounds {n : Nat} (hn : 0 < n) {batches : List (List α)} (h : Chunked n batches) :
    ∀ x ∈ batches, x ≠ [] ∧ x.length ≤ n := by
  induction batches with
  | nil => simp
  | cons x rest ih =>
    have hx : 0 < x.length ∧ x.length ≤ n ∧ Chunked n rest := by
      cases rest with
      | nil => exact ⟨h.1, h.2, trivial⟩
      | cons y rest => exact ⟨h.1 ▸ hn, Nat.le_of_eq h.1, h.2⟩
    intro z hz
    rcases List.mem_cons.mp hz with rfl | hz
    · exact ⟨List.ne_nil_of_length_pos hx.1, hx.2.1⟩
    · exact ih hx.2.2 z hz

theorem Chunked.full {n : Nat} {batches : List (List α)} (h : Chunked n batches) :
    ∀ x ∈ batches.dropLast, x.length = n := by
  induction batches with
  | nil => simp
  | cons x rest ih =>
    cases rest with
    | nil => simp
    | cons y rest =>
      intro z hz
      rw [List.dropLast_cons_cons] at hz
      rcases List.mem_cons.mp hz with rfl | hz
      · exact h.1
      · exact ih h.2 z hz

theorem Chunked.eq_nil {n : Nat} (hn : 0 < n) {batches : List (List α)} (h : Chunked n batches)
    (hflat : batches.flatten = []) : batches = [] := by
  cases batches with
  | nil => rfl
  | cons x rest =>
    have hx := (Chunked.bounds hn h x (List.mem_cons_self ..)).1
    exact absurd (List.flatten_eq_nil_iff.mp hflat x (List.mem_cons_self ..)) hx

/-- A batch size that is not below the length gives one batch. -/
theorem Chunked.single {n : Nat} {batches : List (List α)} (h : Chunked n batches)
    (hne : batches.flatten ≠ []) (hlen : batches.flatten.length ≤ n) :
    batches = [batches.flatten] := by
  cases batches with
  | nil => simp at hne
  | cons x rest =>
    cases rest with
    | nil => simp
    | cons y rest =>
      exfalso
      obtain ⟨hx, hrest⟩ := h
      have hy : 0 < y.length := by
        cases rest with
        | nil => exact hrest.1
        | cons z rest =>
          rw [hrest.1, ← hx]
          by_contra h0
          have : n = 0 := by omega
          have := List.length_eq_zero_iff.mp (Nat.le_zero.mp (this ▸ hlen))
          exact hne this
      simp only [List.flatten_cons, List.length_append] at hlen
      omega

theorem Chunked.tail {n : Nat} {x : List α} {rest : List (List α)} (h : Chunked n (x :: rest)) :
    Chunked n rest := by
  cases rest with
  | nil => trivial
  | cons y rest => exact h.2

/-- Batches that are left when others are dropped are still full but for the last. -/
theorem Chunked.filter {n : Nat} (hn : 0 < n) {batches : List (List α)} (h : Chunked n batches)
    (f : List α → Bool) : Chunked n (batches.filter f) := by
  induction batches with
  | nil => trivial
  | cons x rest ih =>
    cases hx : f x with
    | false =>
      rw [List.filter_cons_of_neg (by simp [hx])]
      exact ih h.tail
    | true =>
      rw [List.filter_cons_of_pos hx]
      cases rest with
      | nil => exact h
      | cons y rest => exact (ih h.2).cons_full hn h.1

/-- Only the lengths matter. -/
theorem Chunked.of_map {β : Type} {n : Nat} {f : α → β} {batches : List (List α)}
    (h : Chunked n (batches.map (List.map f))) : Chunked n batches := by
  induction batches with
  | nil => trivial
  | cons x rest ih =>
    cases rest with
    | nil =>
      obtain ⟨hpos, hle⟩ := h
      rw [List.length_map] at hpos hle
      exact ⟨hpos, hle⟩
    | cons y rest =>
      obtain ⟨hx, hrest⟩ := h
      rw [List.length_map] at hx
      exact ⟨hx, ih hrest⟩

theorem Chunked.head_length {n : Nat} {x : List α} {rest : List (List α)}
    (h : Chunked n (x :: rest)) : x.length = min n (x :: rest).flatten.length := by
  rw [List.flatten_cons, List.length_append]
  cases rest with
  | nil =>
    have hle := h.2
    simp only [List.flatten_nil, List.length_nil]
    omega
  | cons y rest =>
    have hx := h.1
    omega

/-- Batches of related lists are related. -/
theorem Chunked.forall₂ {β : Type} {n : Nat} (hn : 0 < n) {R : α → β → Prop} {as : List (List α)}
    {bs : List (List β)} (ha : Chunked n as) (hb : Chunked n bs)
    (h : List.Forall₂ R as.flatten bs.flatten) : List.Forall₂ (List.Forall₂ R) as bs := by
  induction as generalizing bs with
  | nil =>
    rw [List.flatten_nil, List.forall₂_nil_left_iff] at h
    rw [hb.eq_nil hn h]
    exact .nil
  | cons x rest ih =>
    cases bs with
    | nil =>
      rw [List.flatten_nil, List.forall₂_nil_right_iff] at h
      cases ha.eq_nil hn h
    | cons y rest' =>
      have hlen : x.length = y.length := by
        rw [ha.head_length, hb.head_length, h.length_eq]
      rw [List.flatten_cons, List.flatten_cons] at h
      obtain ⟨hx, hrest⟩ := Lists.forall₂_append h hlen
      exact .cons hx (ih ha.tail hb.tail hrest)

theorem ofNat_length_toNat {xs : List α} (hlen : xs.length < 2 ^ 63) :
    (UInt64.ofNat xs.length).toNat = xs.length := by
  rw [UInt64.toNat_ofNat']
  omega

/-- The index is zero or at least a batch size, and below the length, so adding a batch
size to it does not wrap. -/
theorem add_no_wrap {xs : List α} {b i : UInt64} (hlen : xs.length < 2 ^ 63)
    (hi : i.toNat < xs.length) (hinv : i.toNat = 0 ∨ b.toNat ≤ i.toNat) :
    (i + b).toNat = i.toNat + b.toNat := by
  have hb := b.toNat_lt
  rw [UInt64.toNat_add]
  omega

theorem slice_eq {xs : List α} {i stop : UInt64} (h : i.toNat ≤ stop.toNat)
    (hs : stop.toNat ≤ xs.length) :
    slice xs i stop = .ok ((xs.take stop.toNat).drop i.toNat) := by
  rw [slice, if_pos ⟨UInt64.le_iff_toNat_le.mpr h, hs⟩]

theorem toNat_pos {b : UInt64} (hb : b ≠ 0) : 0 < b.toNat := by
  rcases Nat.eq_zero_or_pos b.toNat with h0 | h0
  · exact absurd (UInt64.toNat_inj.mp (by simpa using h0)) hb
  · exact h0

/-- **Batches.** From an index that the loop can reach, enough rounds end the loop with
batches that make up the rest of the slice. -/
theorem batchesFrom_spec {xs : List α} {b : UInt64} (hlen : xs.length < 2 ^ 63) (hb : b ≠ 0)
    (fuel : Nat) (i : UInt64) (hinv : i.toNat = 0 ∨ b.toNat ≤ i.toNat)
    (hfuel : xs.length - i.toNat < fuel) :
    ∃ batches, batchesFrom b xs fuel i = .ok batches ∧ batches.flatten = xs.drop i.toNat ∧
      Chunked b.toNat batches := by
  have hb0 := toNat_pos hb
  have hl := ofNat_length_toNat hlen
  induction fuel generalizing i with
  | zero => omega
  | succ fuel ih =>
    rw [batchesFrom]
    by_cases hi : i < UInt64.ofNat xs.length
    · have hi' : i.toNat < xs.length := hl ▸ UInt64.lt_iff_toNat_lt.mp hi
      have hnext := add_no_wrap hlen hi' hinv
      obtain ⟨batches, hrec, hflat, hchunk⟩ :=
        ih (i + b) (Or.inr (by rw [hnext]; omega)) (by rw [hnext]; omega)
      simp only [hi, ↓reduceIte, hrec]
      by_cases hstop : i + b > UInt64.ofNat xs.length
      · -- the last batch, cut at the end of the slice
        have hstop' : xs.length < (i + b).toNat := hl ▸ UInt64.lt_iff_toNat_lt.mp hstop
        simp only [hstop, ↓reduceIte, slice_eq (hl.symm ▸ Nat.le_of_lt hi') (Nat.le_of_eq hl)]
        have hrest : xs.drop (i + b).toNat = [] := List.drop_eq_nil_of_le (Nat.le_of_lt hstop')
        rw [hrest] at hflat
        obtain rfl := Chunked.eq_nil hb0 hchunk hflat
        refine ⟨_, rfl, by simp [hl], ?_, ?_⟩
        · simp only [hl, List.take_length, List.length_drop]
          omega
        · simp only [hl, List.take_length, List.length_drop]
          omega
      · have hstop' : (i + b).toNat ≤ xs.length :=
          hl ▸ Nat.not_lt.mp (mt UInt64.lt_iff_toNat_lt.mpr hstop)
        simp only [hstop, ↓reduceIte, slice_eq (hnext ▸ Nat.le_add_right ..) hstop']
        refine ⟨_, rfl, ?_, Chunked.cons_full hb0 hchunk ?_⟩
        · rw [List.flatten_cons, hflat, ← List.drop_append_of_le_length, List.take_append_drop]
          rw [List.length_take]
          omega
        · rw [List.length_drop, List.length_take]
          omega
    · have hi' : xs.length ≤ i.toNat := hl ▸ Nat.not_lt.mp (mt UInt64.lt_iff_toNat_lt.mpr hi)
      simp only [hi, ↓reduceIte]
      exact ⟨[], rfl, (List.drop_eq_nil_of_le hi').symm, trivial⟩

/-- With batch size zero the index stays where it is. -/
theorem batchesFrom_zero {xs : List α} (hne : xs ≠ []) (hlen : xs.length < 2 ^ 63) (fuel : Nat) :
    batchesFrom 0 xs fuel 0 = .error .diverge := by
  have hpos : (0 : UInt64) < UInt64.ofNat xs.length := by
    rw [UInt64.lt_iff_toNat_lt, ofNat_length_toNat hlen]
    exact List.length_pos_iff.mpr hne
  induction fuel with
  | zero => rfl
  | succ fuel ih =>
    have hstop : ¬ (0 + 0 : UInt64) > UInt64.ofNat xs.length := by
      intro h
      exact absurd (UInt64.lt_trans hpos h) (by decide)
    have hslice : slice xs 0 (0 + 0) = .ok ((xs.take (0 + 0 : UInt64).toNat).drop 0) :=
      slice_eq (Nat.le_refl _) (Nat.zero_le _)
    rw [batchesFrom]
    simp only [hpos, hstop, ↓reduceIte, hslice]
    rw [show (0 : UInt64) + 0 = 0 from rfl, ih]
    rfl

end Batching
