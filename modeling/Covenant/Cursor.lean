import Mathlib.Data.List.Nodup

/-! Reading a listing page by page. Each page is asked for by the key that the page before
it named as the next. The listing may grow between pages, anywhere. `Standing` says what a
reader has and has not seen; it survives growth (`Standing.grow`), and a page carries it on
(`Standing.next`) or completes the reading (`Standing.last`). -/

namespace Cursor

variable {κ : Type}

/-- What is listed from the cursor on. -/
def rest [DecidableEq κ] : Option κ → List κ → List κ
  | none, ks => ks
  | some k, ks => ks.dropWhile fun k' => k' ≠ k

/-- A reader who set out when `first` was listed has read `read`. What is listed before the
cursor is `before`, from the cursor on it is `after`. -/
structure Standing (first read : List κ) (cursor : Option κ) (before after : List κ) : Prop where
  read_sublist : read.Sublist before
  covered : ∀ k ∈ first, k ∈ read ∨ k ∈ after
  cursor_eq : cursor = none ∧ before = [] ∨ ∃ k, cursor = some k ∧ after.head? = some k

variable {first read before after ks : List κ} {cursor : Option κ}

theorem Standing.start (ks : List κ) : Standing ks [] none [] ks where
  read_sublist := List.Sublist.refl _
  covered _ hk := Or.inr hk
  cursor_eq := Or.inl ⟨rfl, rfl⟩

theorem Standing.rest_eq [DecidableEq κ] (h : Standing first read cursor before after)
    (hd : (before ++ after).Nodup) : rest cursor (before ++ after) = after := by
  rcases h.cursor_eq with ⟨rfl, rfl⟩ | ⟨k, rfl, hk⟩
  · rfl
  · obtain ⟨after, rfl⟩ := List.head?_eq_some_iff.mp hk
    have hall : ∀ k' ∈ before, decide (k' ≠ k) = true := by
      intro k' hk'
      rw [decide_eq_true_eq]
      rintro rfl
      exact (List.nodup_append.mp hd).2.2 k' hk' k' (List.mem_cons_self ..) rfl
    show (before ++ k :: after).dropWhile _ = _
    rw [List.dropWhile_append_of_pos hall]
    exact List.dropWhile_cons_of_neg (by simp)

/-- New keys do not move the reader away from the key it goes on with. -/
theorem Standing.grow (h : Standing first read cursor before after)
    (hsub : (before ++ after).Sublist ks) :
    ∃ before' after', ks = before' ++ after' ∧ Standing first read cursor before' after' := by
  rcases h.cursor_eq with ⟨rfl, rfl⟩ | ⟨k, rfl, hk⟩
  · refine ⟨[], ks, rfl, h.read_sublist, ?_, Or.inl ⟨rfl, rfl⟩⟩
    intro k hk
    exact (h.covered k hk).imp id fun hin => hsub.subset hin
  · obtain ⟨after, rfl⟩ := List.head?_eq_some_iff.mp hk
    obtain ⟨ks₁, ks₂, rfl, h₁, h₂⟩ := List.append_sublist_iff.mp hsub
    obtain ⟨r₁, r₂, rfl, hmem, htail⟩ := List.cons_sublist_iff.mp h₂
    obtain ⟨u, v, rfl⟩ := List.append_of_mem hmem
    refine ⟨ks₁ ++ u, k :: (v ++ r₂), by simp, ?_, ?_, Or.inr ⟨k, rfl, rfl⟩⟩
    · exact (h.read_sublist.trans h₁).trans (List.sublist_append_left _ _)
    · intro x hx
      rcases h.covered x hx with hread | hafter
      · exact Or.inl hread
      · rcases List.mem_cons.mp hafter with rfl | hin
        · exact Or.inr (List.mem_cons_self ..)
        · exact Or.inr (List.mem_cons_of_mem _ (List.mem_append_right v (htail.subset hin)))

/-- After a page that names a next key the reader goes on with that key. -/
theorem Standing.next (h : Standing first read cursor before after) {n : Nat} {k : κ}
    (hk : after[n]? = some k) :
    Standing first (read ++ after.take n) (some k) (before ++ after.take n) (after.drop n) where
  read_sublist := h.read_sublist.append (List.Sublist.refl _)
  covered := by
    intro x hx
    rcases h.covered x hx with hread | hafter
    · exact Or.inl (List.mem_append_left _ hread)
    · rw [← List.take_append_drop n after] at hafter
      exact (List.mem_append.mp hafter).imp (List.mem_append_right read) id
  cursor_eq := Or.inr ⟨k, rfl, by rw [List.head?_drop, hk]⟩

/-- A page that names none is the last one. -/
theorem Standing.last (h : Standing first read cursor before after) {n : Nat}
    (hn : after[n]? = none) :
    (read ++ after.take n).Sublist (before ++ after) ∧ ∀ k ∈ first, k ∈ read ++ after.take n := by
  have hall : after.take n = after := List.take_of_length_le (List.getElem?_eq_none_iff.mp hn)
  rw [hall]
  constructor
  · exact h.read_sublist.append (List.Sublist.refl _)
  · intro k hk
    exact List.mem_append.mpr (h.covered k hk)

end Cursor
