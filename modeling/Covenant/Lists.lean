import Mathlib.Data.List.Forall2

/-! Lists that are related element by element, and what the first elements of a list have
to do with the first elements that pass a filter, or that come before a failure. -/

namespace Lists

variable {α β : Type}

/-! ## Related lists -/

theorem forall₂_trans {γ : Type} {R : α → β → Prop} {T : β → γ → Prop} {xs : List α} {ys : List β}
    {zs : List γ} (h : List.Forall₂ R xs ys) (h' : List.Forall₂ T ys zs) :
    List.Forall₂ (fun x z => ∃ y, R x y ∧ T y z) xs zs := by
  induction h generalizing zs with
  | nil =>
    cases h'
    exact .nil
  | cons hr _ ih =>
    cases h' with
    | cons ht htail => exact .cons ⟨_, hr, ht⟩ (ih htail)

/-- Part of the results belongs to the same part of the arguments. -/
theorem forall₂_of_sublist {R : α → β → Prop} {xs : List α} {ys ys' : List β}
    (h : List.Forall₂ R xs ys) (hsub : ys'.Sublist ys) :
    ∃ xs', xs'.Sublist xs ∧ List.Forall₂ R xs' ys' := by
  induction hsub generalizing xs with
  | slnil => exact ⟨[], List.nil_sublist _, .nil⟩
  | cons y _ ih =>
    cases h with
    | cons _ htail =>
      obtain ⟨xs', hxs, hf⟩ := ih htail
      exact ⟨xs', hxs.cons _, hf⟩
  | cons_cons y _ ih =>
    cases h with
    | cons hr htail =>
      obtain ⟨xs', hxs, hf⟩ := ih htail
      exact ⟨_, hxs.cons_cons _, .cons hr hf⟩

theorem countP_eq_of_forall₂ {R : α → β → Prop} {f : α → Bool} {g : β → Bool}
    (hfg : ∀ x y, R x y → f x = g y) {xs : List α} {ys : List β} (h : List.Forall₂ R xs ys) :
    xs.countP f = ys.countP g := by
  induction h with
  | nil => rfl
  | cons hr _ ih => rw [List.countP_cons, List.countP_cons, ih, hfg _ _ hr]

theorem forall₂_filter {R : α → β → Prop} {f : α → Bool} {g : β → Bool}
    (hfg : ∀ x y, R x y → f x = g y) {xs : List α} {ys : List β} (h : List.Forall₂ R xs ys) :
    List.Forall₂ R (xs.filter f) (ys.filter g) := by
  induction h with
  | nil => exact .nil
  | @cons x y xs ys hr _ ih =>
    have heq := hfg x y hr
    cases hx : f x with
    | false =>
      rw [List.filter_cons_of_neg (by simp [hx]), List.filter_cons_of_neg (by simp [← heq, hx])]
      exact ih
    | true =>
      rw [List.filter_cons_of_pos hx, List.filter_cons_of_pos (by rw [← heq, hx])]
      exact .cons hr ih

theorem length_filter_le {R : α → β → Prop} {f : α → Bool} {g : β → Bool}
    (hfg : ∀ x y, R x y → g y = true → f x = true) {xs : List α} {ys : List β}
    (h : List.Forall₂ R xs ys) : (ys.filter g).length ≤ (xs.filter f).length := by
  induction h with
  | nil => exact Nat.le_refl _
  | @cons x y xs ys hr _ ih =>
    cases hy : g y with
    | false =>
      rw [List.filter_cons_of_neg (by simp [hy])]
      exact Nat.le_trans ih ((List.sublist_cons_self x xs).filter f).length_le
    | true =>
      rw [List.filter_cons_of_pos hy, List.filter_cons_of_pos (hfg x y hr hy)]
      exact Nat.succ_le_succ ih

theorem exists_forall₂ {R : α → β → Prop} {xs : List α} (h : ∀ x ∈ xs, ∃ y, R x y) :
    ∃ ys, List.Forall₂ R xs ys := by
  induction xs with
  | nil => exact ⟨[], .nil⟩
  | cons x xs ih =>
    obtain ⟨y, hy⟩ := h x (List.mem_cons_self ..)
    obtain ⟨ys, hys⟩ := ih fun x' hx' => h x' (List.mem_cons_of_mem _ hx')
    exact ⟨y :: ys, .cons hy hys⟩

theorem map_eq_of_forall₂ {γ : Type} {R : α → β → Prop} {f : α → γ} {g : β → γ}
    (hfg : ∀ x y, R x y → g y = f x) {xs : List α} {ys : List β} (h : List.Forall₂ R xs ys) :
    ys.map g = xs.map f := by
  induction h with
  | nil => rfl
  | cons hr _ ih => rw [List.map_cons, List.map_cons, ih, hfg _ _ hr]

theorem exists_right_of_mem {R : α → β → Prop} {xs : List α} {ys : List β}
    (h : List.Forall₂ R xs ys) {x : α} (hx : x ∈ xs) : ∃ y ∈ ys, R x y := by
  induction h with
  | nil => cases hx
  | @cons x' y xs ys hr _ ih =>
    rcases List.mem_cons.mp hx with rfl | hx
    · exact ⟨y, List.mem_cons_self .., hr⟩
    · obtain ⟨y', hy', hr'⟩ := ih hx
      exact ⟨y', List.mem_cons_of_mem _ hy', hr'⟩

theorem forall₂_mem_right {R : α → β → Prop} {xs : List α} {ys : List β}
    (h : List.Forall₂ R xs ys) : List.Forall₂ (fun x y => R x y ∧ y ∈ ys) xs ys := by
  induction h with
  | nil => exact .nil
  | cons hr _ ih =>
    refine .cons ⟨hr, List.mem_cons_self ..⟩ (ih.imp ?_)
    rintro x y ⟨hxy, hy⟩
    exact ⟨hxy, List.mem_cons_of_mem _ hy⟩

/-! ## Blocks -/

theorem forall₂_append {R : α → β → Prop} {xs xs' : List α} {ys ys' : List β}
    (h : List.Forall₂ R (xs ++ xs') (ys ++ ys')) (hlen : xs.length = ys.length) :
    List.Forall₂ R xs ys ∧ List.Forall₂ R xs' ys' := by
  have hleft := List.forall₂_take_append _ _ _ h
  have hright := List.forall₂_drop_append _ _ _ h
  rw [← hlen] at hleft hright
  rw [List.take_left'] at hleft
  · rw [List.drop_left'] at hright
    · exact ⟨hleft, hright⟩
    · rfl
  · rfl

/-- A list that is related to a list of blocks falls into blocks itself. -/
theorem forall₂_unflatten {R : α → β → Prop} {xs : List α} {yss : List (List β)}
    (h : List.Forall₂ R xs yss.flatten) :
    ∃ xss, xs = xss.flatten ∧ List.Forall₂ (List.Forall₂ R) xss yss := by
  induction yss generalizing xs with
  | nil =>
    rw [List.flatten_nil, List.forall₂_nil_right_iff] at h
    exact ⟨[], h, .nil⟩
  | cons ys yss ih =>
    rw [List.flatten_cons] at h
    obtain ⟨xss, hxs, hf⟩ := ih (List.forall₂_drop_append _ _ _ h)
    refine ⟨xs.take ys.length :: xss, ?_, .cons (List.forall₂_take_append _ _ _ h) hf⟩
    rw [List.flatten_cons, ← hxs, List.take_append_drop]

/-- Without the elements of some blocks, the other blocks are left. -/
theorem filter_rest_of_blocks {κ : Type} [DecidableEq κ] {key : α → κ} {f : List α → Bool}
    {xss : List (List α)} (h : (xss.flatten.map key).Nodup) :
    xss.flatten.filter (fun x => decide (key x ∉ (xss.filter f).flatten.map key)) =
      (xss.filter fun xs => !f xs).flatten := by
  induction xss with
  | nil => rfl
  | cons xs xss ih =>
    rw [List.flatten_cons, List.map_append, List.nodup_append] at h
    obtain ⟨_, hrest, hdisj⟩ := h
    have hkept : ∀ k ∈ (xss.filter f).flatten.map key, k ∈ xss.flatten.map key := by
      intro k hk
      obtain ⟨x, hx, rfl⟩ := List.mem_map.mp hk
      obtain ⟨ys, hys, hx⟩ := List.mem_flatten.mp hx
      exact List.mem_map_of_mem (List.mem_flatten.mpr ⟨ys, List.mem_of_mem_filter hys, hx⟩)
    rw [List.flatten_cons, List.filter_append]
    cases hf : f xs with
    | false =>
      rw [List.filter_cons_of_neg (by simp [hf]), ih hrest, List.filter_cons_of_pos (by simp [hf]),
        List.flatten_cons]
      congr 1
      apply List.filter_eq_self.mpr
      intro x hx
      rw [decide_eq_true_eq]
      intro hk
      exact hdisj _ (List.mem_map_of_mem hx) _ (hkept _ hk) rfl
    | true =>
      rw [List.filter_cons_of_pos hf, List.filter_cons_of_neg (by simp [hf]), ← ih hrest,
        List.flatten_cons, List.map_append]
      have hnil : xs.filter (fun x => decide (key x ∉ xs.map key ++ (xss.filter f).flatten.map key)) =
          [] := by
        apply List.filter_eq_nil_iff.mpr
        intro x hx
        rw [decide_eq_true_eq, not_not]
        exact List.mem_append_left _ (List.mem_map_of_mem hx)
      rw [hnil, List.nil_append]
      apply List.filter_congr
      intro x hx
      apply decide_eq_decide.mpr
      rw [List.mem_append, not_or]
      refine and_iff_right ?_
      intro hk
      exact hdisj _ hk _ (List.mem_map_of_mem hx) rfl

/-! ## Lists whose elements take steps -/

/-- One element takes a step. -/
def StepsAt (r : α → α → Prop) (ys xs : List α) : Prop :=
  ∃ i x y, xs[i]? = some x ∧ r y x ∧ ys = xs.set i y

theorem stepsAt_cons {r : α → α → Prop} {x : α} {xs ys : List α} (h : StepsAt r ys (x :: xs)) :
    (∃ y, r y x ∧ ys = y :: xs) ∨ ∃ ys', StepsAt r ys' xs ∧ ys = x :: ys' := by
  obtain ⟨i, x', y, hx, hr, rfl⟩ := h
  cases i with
  | zero =>
    obtain rfl := Option.some.inj hx
    exact Or.inl ⟨y, hr, rfl⟩
  | succ i => exact Or.inr ⟨xs.set i y, ⟨i, x', y, hx, hr, rfl⟩, rfl⟩

theorem stepsAt_acc {r : α → α → Prop} (h : ∀ x, Acc r x) (xs : List α) : Acc (StepsAt r) xs := by
  induction xs with
  | nil =>
    constructor
    rintro ys ⟨i, x, y, hx, _⟩
    cases hx
  | cons x xs ih =>
    -- the head may step while the tail stands, and the other way round
    induction h x generalizing xs with
    | intro x _ ihx =>
      induction ih with
      | intro xs hxs ihxs =>
        constructor
        intro ys hys
        rcases stepsAt_cons hys with ⟨y, hy, rfl⟩ | ⟨ys', hys', rfl⟩
        · exact ihx y hy xs (Acc.intro xs hxs)
        · exact ihxs ys' hys'

/-! ## Filtered pages -/

/-- Filtering the first `n` elements gives a first part of the first `n` that pass. -/
theorem take_filter (f : α → Bool) (n : Nat) (xs : List α) :
    (xs.filter f).take n =
      (xs.take n).filter f ++ ((xs.drop n).filter f).take (n - ((xs.take n).filter f).length) := by
  have hsplit : xs.filter f = (xs.take n).filter f ++ (xs.drop n).filter f := by
    rw [← List.filter_append, List.take_append_drop]
  have hle : ((xs.take n).filter f).length ≤ n :=
    Nat.le_trans (List.length_filter_le f _) (List.length_take_le n xs)
  rw [hsplit, List.take_append, List.take_of_length_le hle]

theorem take_filter_eq_of_length {f : α → Bool} {n : Nat} {xs : List α}
    (h : ((xs.filter f).take n).length = ((xs.take n).filter f).length) :
    (xs.filter f).take n = (xs.take n).filter f := by
  rw [take_filter] at h ⊢
  rw [List.length_append] at h
  have hnil : ((xs.drop n).filter f).take (n - ((xs.take n).filter f).length) = [] := by
    apply List.length_eq_zero_iff.mp
    omega
  rw [hnil, List.append_nil]

/-- Nothing is missing exactly when the page passes as a whole or nothing behind it does. -/
theorem length_filter_take_iff (f : α → Bool) (n : Nat) (xs : List α) :
    ((xs.filter f).take n).length = ((xs.take n).filter f).length ↔
      (∀ x ∈ xs.take n, f x = true) ∨ ∀ x ∈ xs.drop n, f x = false := by
  rw [take_filter, List.length_append]
  constructor
  · intro h
    have hzero : (((xs.drop n).filter f).take (n - ((xs.take n).filter f).length)).length = 0 := by
      omega
    rw [List.length_take, Nat.min_eq_zero_iff] at hzero
    rcases hzero with hfull | hnone
    · left
      have hlen : (xs.take n).length ≤ n := List.length_take_le n xs
      have hfilter := List.length_filter_le f (xs.take n)
      have hall : ((xs.take n).filter f).length = (xs.take n).length := by omega
      exact List.length_filter_eq_length_iff.mp hall
    · right
      intro x hx
      have hnil := List.filter_eq_nil_iff.mp (List.length_eq_zero_iff.mp hnone) x hx
      simpa using hnil
  · rintro (hall | hnone)
    · rw [List.filter_eq_self.mpr hall]
      rcases Nat.le_total n xs.length with hn | hn
      · have hlen : (xs.take n).length = n := by
          rw [List.length_take]
          omega
        simp [hlen]
      · simp [List.drop_eq_nil_of_le hn]
    · have hnil : (xs.drop n).filter f = [] := by
        apply List.filter_eq_nil_iff.mpr
        intro x hx
        simp [hnone x hx]
      simp [hnil]

/-! ## Up to a failure -/

/-- The elements up to the first one that fails `f`, which is kept. -/
def upTo (f : α → Bool) : List α → List α
  | [] => []
  | x :: xs => x :: if f x then upTo f xs else []

theorem flatten_upTo (f : List α → Bool) (xs : List (List α)) :
    ∃ rest, xs.flatten = (upTo f xs).flatten ++ rest := by
  induction xs with
  | nil => exact ⟨[], rfl⟩
  | cons x xs ih =>
    unfold upTo
    cases f x with
    | false => exact ⟨xs.flatten, by simp⟩
    | true =>
      obtain ⟨rest, hrest⟩ := ih
      exact ⟨rest, by simp [hrest]⟩

/-- Nothing is lost exactly when no element but the last fails. -/
theorem flatten_upTo_iff {f : List α → Bool} {xs : List (List α)} (hne : ∀ x ∈ xs, x ≠ []) :
    (upTo f xs).flatten = xs.flatten ↔ ∀ x ∈ xs.dropLast, f x = true := by
  induction xs with
  | nil => simp [upTo]
  | cons x xs ih =>
    have ih := ih fun y hy => hne y (List.mem_cons_of_mem _ hy)
    cases xs with
    | nil => simp [upTo]
    | cons y ys =>
      rw [upTo, List.dropLast_cons_cons, List.forall_mem_cons, ← ih]
      cases f x with
      | false =>
        have hy : y ≠ [] := hne y (by simp)
        simp [hy]
      | true => simp

end Lists
