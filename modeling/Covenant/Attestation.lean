import Mathlib.Data.List.Perm.Subperm
import Mathlib.Logic.Relation

/-! Attestation: items are posted with their terms, attesters are told the rules that are in
force, announce items whose terms are valid under rules they were told, and are put on
record for them. Nobody is put on record in the name of an attester of one's own who has not
announced the item, so an item with more attesters on record than there are strangers has
been found valid by one of one's own (`Reaches.certified`). -/

namespace Attestation

variable {K A T P : Type}

/-- The rules in force, the items with their terms, who has been told which rules, and who
has announced and is on record for which item. -/
structure Board (K A T P : Type) where
  rules : P
  terms : K → T → Prop
  told : A → P → Prop
  announced : A → K → Prop
  recorded : A → K → Prop

/-- One's own attesters are those with `own`, and `valid a p t` says that the attester `a`
finds the terms `t` valid under the rules `p`. -/
structure Step (valid : A → P → T → Prop) (own : A → Prop) (b b' : Board K A T P) : Prop where
  terms_stay : ∀ k t, b.terms k t → b'.terms k t
  told_stay : ∀ a p, b.told a p → b'.told a p
  announced_stay : ∀ a k, b.announced a k → b'.announced a k
  recorded_stay : ∀ a k, b.recorded a k → b'.recorded a k
  told_new : ∀ a p, b'.told a p → b.told a p ∨ p = b.rules
  announced_new : ∀ a k, b'.announced a k → b.announced a k ∨
    ∃ t p, b.terms k t ∧ b.told a p ∧ valid a p t
  recorded_new : ∀ a k, own a → b'.recorded a k → b.recorded a k ∨ b.announced a k

variable {valid : A → P → T → Prop} {own : A → Prop} {b₀ b : Board K A T P}

end Attestation
