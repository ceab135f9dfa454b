import Mathlib.Data.List.Nodup

/-! Registries: entries in a fixed order, each under its own key. Entries are inserted and
rewritten but never removed, so along any history an entry keeps its key and can only
grow (`Grows`), and what stands under a key later has grown out of what stood there
before (`Grows.of_key`). -/

/-- Entries whose keys differ. -/
structure Registry {α κ : Type} (key : α → κ) where
  entries : List α
  distinct : (entries.map key).Nodup

namespace Registry

variable {α κ : Type} {key : α → κ} (reg : Registry key)

theorem eq_of_key {x y : α} (hx : x ∈ reg.entries) (hy : y ∈ reg.entries) (h : key x = key y) :
    x = y :=
  List.inj_on_of_nodup_map reg.distinct hx hy h

/-- A new entry at position `i`. -/
def insert (i : Nat) (x : α) (hx : key x ∉ reg.entries.map key) : Registry key where
  entries := reg.entries.take i ++ x :: reg.entries.drop i
  distinct := by
    have hperm : (reg.entries.take i ++ x :: reg.entries.drop i).Perm (x :: reg.entries) := by
      apply List.perm_middle.trans
      rw [List.take_append_drop]
    rw [(hperm.map key).nodup_iff, List.map_cons, List.nodup_cons]
    exact ⟨hx, reg.distinct⟩

/-- Entries are rewritten in place. -/
def update (f : α → α) (hf : ∀ x, key (f x) = key x) : Registry key where
  entries := reg.entries.map f
  distinct := by
    have hmap : (reg.entries.map f).map key = reg.entries.map key := by
      rw [List.map_map]
      exact List.map_congr_left fun x _ => hf x
    rw [hmap]
    exact reg.distinct

/-- Every entry is still there, in a form that `R` relates to the earlier one. -/
def Grows (R : α → α → Prop) (reg reg' : Registry key) : Prop :=
  ∀ x ∈ reg.entries, ∃ y ∈ reg'.entries, R x y

variable {R : α → α → Prop} {reg}

theorem Grows.refl (hrefl : ∀ x, R x x) (reg : Registry key) : Grows R reg reg :=
  fun x hx => ⟨x, hx, hrefl x⟩

theorem Grows.trans (htrans : ∀ {x y z}, R x y → R y z → R x z) {reg₁ reg₂ reg₃ : Registry key}
    (h : Grows R reg₁ reg₂) (h' : Grows R reg₂ reg₃) : Grows R reg₁ reg₃ := by
  intro x hx
  obtain ⟨y, hy, hxy⟩ := h x hx
  obtain ⟨z, hz, hyz⟩ := h' y hy
  exact ⟨z, hz, htrans hxy hyz⟩

theorem grows_insert (reg : Registry key) (hrefl : ∀ x, R x x) (i : Nat) (x : α)
    (hx : key x ∉ reg.entries.map key) :
    Grows R reg (reg.insert i x hx) := by
  intro y hy
  refine ⟨y, ?_, hrefl y⟩
  have hsplit : y ∈ reg.entries.take i ++ reg.entries.drop i := by
    rw [List.take_append_drop]
    exact hy
  rcases List.mem_append.mp hsplit with h | h
  · exact List.mem_append_left _ h
  · exact List.mem_append_right _ (List.mem_cons_of_mem x h)

theorem grows_update (reg : Registry key) {f : α → α} (hf : ∀ x, key (f x) = key x)
    (hR : ∀ x, R x (f x)) :
    Grows R reg (reg.update f hf) :=
  fun x hx => ⟨f x, List.mem_map_of_mem hx, hR x⟩

/-- The entry under a key has grown out of the entry under that key. -/
theorem Grows.of_key (hkey : ∀ {x y}, R x y → key y = key x) {reg reg' : Registry key}
    (h : Grows R reg reg') {x y : α} (hx : x ∈ reg.entries) (hy : y ∈ reg'.entries)
    (hxy : key x = key y) : R x y := by
  obtain ⟨z, hz, hR⟩ := h x hx
  have hzy : z = y := reg'.eq_of_key hz hy ((hkey hR).trans hxy)
  rw [← hzy]
  exact hR

/-- Entries of two earlier registries under one key have grown into one entry. -/
theorem Grows.meet (hkey : ∀ {x y}, R x y → key y = key x) {reg₁ reg₂ reg : Registry key}
    (h₁ : Grows R reg₁ reg) (h₂ : Grows R reg₂ reg) {x y : α} (hx : x ∈ reg₁.entries)
    (hy : y ∈ reg₂.entries) (hxy : key x = key y) : ∃ z ∈ reg.entries, R x z ∧ R y z := by
  obtain ⟨z, hz, hR⟩ := h₁ x hx
  have hzy : key y = key z := hxy.symm.trans (hkey hR).symm
  exact ⟨z, hz, hR, Grows.of_key (fun h => hkey h) h₂ hy hz hzy⟩

end Registry
