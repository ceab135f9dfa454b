import Covenant.Records
import Covenant.Registry
import Covenant.Reactor

/-! The consumer chain as the members see it: the parameters, the delegations in the order
of their keys, and the transactions that were sent and may be included at any time or
never. `Evolves` are its own steps, `babylon` the environment in which the members'
calls are answered. A delegation never leaves the chain, never changes its
transactions, and never loses a signature (`Ledger.Grows`). -/

namespace Covenant.Chain
open Outcome Interaction Bitcoin Covenant.Types Controller Records Reactor

/-! ## Delegations -/

/-- A delegation on the chain, under the hash of its staking transaction. -/
structure Entry (lib : Lib) where
  hash : Hash
  record : BTCDelegation
  status : BTCDelegationStatus
  keyed : recordHash lib record = some hash

variable {lib : Lib}

/-- The key, the transactions and the terms stay, and signatures are only added. -/
structure Entry.Grows (x y : Entry lib) : Prop where
  hash_eq : y.hash = x.hash
  bare_eq : bareRecord y.record = bareRecord x.record
  signers_subset : signers x.record ⊆ signers y.record

theorem Entry.Grows.refl (x : Entry lib) : x.Grows x := ⟨rfl, rfl, List.Subset.refl _⟩

theorem Entry.Grows.trans {x y z : Entry lib} (h : x.Grows y) (h' : y.Grows z) : x.Grows z :=
  ⟨h'.hash_eq.trans h.hash_eq, h'.bare_eq.trans h.bare_eq,
    List.Subset.trans h.signers_subset h'.signers_subset⟩

def Entry.setStatus (hash : Hash) (status : BTCDelegationStatus) (x : Entry lib) : Entry lib :=
  if x.hash = hash then { x with status := status } else x

/-- The delegator's request to unbond. -/
def Entry.undelegate (hash : Hash) (sig : BIP340Signature) (x : Entry lib) : Entry lib :=
  if x.hash = hash then
    { x with
      record := { x.record with
        btcUndelegation := x.record.btcUndelegation.map ({ · with delegatorUnbondingSig := some sig }) }
      keyed := x.keyed }
  else x

/-- A record with the signatures of a message, under the key of the message. -/
def addCovenantSigs (m : MsgAddCovenantSigs) (r : BTCDelegation) : BTCDelegation :=
  { r with
    covenantSigs := r.covenantSigs ++ [⟨m.pk, m.slashingTxSigs⟩]
    btcUndelegation := r.btcUndelegation.map fun u =>
      { u with
        covenantSlashingSigs := u.covenantSlashingSigs ++ [⟨m.pk, m.slashingUnbondingTxSigs⟩]
        covenantUnbondingSigList := u.covenantUnbondingSigList ++ [⟨m.pk, m.unbondingTxSig⟩] } }

/-- A message is recorded at the delegation it names, once for each key. -/
def Entry.addSigs (m : MsgAddCovenantSigs) (x : Entry lib) : Entry lib :=
  if lib.hashString x.hash = m.stakingTxHash ∧ m.pk ∉ signers x.record then
    { x with record := addCovenantSigs m x.record, keyed := x.keyed }
  else x

theorem Entry.grows_setStatus (hash : Hash) (status : BTCDelegationStatus) (x : Entry lib) :
    x.Grows (x.setStatus hash status) := by
  unfold setStatus
  split
  · exact ⟨rfl, rfl, List.Subset.refl _⟩
  · exact Grows.refl x

theorem Entry.grows_undelegate (hash : Hash) (sig : BIP340Signature) (x : Entry lib) :
    x.Grows (x.undelegate hash sig) := by
  unfold undelegate
  split
  · refine ⟨rfl, ?_, List.Subset.refl _⟩
    unfold bareRecord
    cases x.record.btcUndelegation <;> rfl
  · exact Grows.refl x

theorem Entry.grows_addSigs (m : MsgAddCovenantSigs) (x : Entry lib) : x.Grows (x.addSigs m) := by
  unfold addSigs
  split
  · refine ⟨rfl, ?_, ?_⟩
    · unfold bareRecord addCovenantSigs
      cases x.record.btcUndelegation <;> rfl
    · unfold signers addCovenantSigs
      rw [List.map_append]
      exact List.subset_append_left _ _
  · exact Grows.refl x

/-- The messages of a transaction, one after the other. -/
def Entry.addAll (msgs : List MsgAddCovenantSigs) (x : Entry lib) : Entry lib :=
  msgs.foldl (fun y m => y.addSigs m) x

theorem Entry.grows_addAll (msgs : List MsgAddCovenantSigs) (x : Entry lib) :
    x.Grows (x.addAll msgs) := by
  unfold addAll
  induction msgs generalizing x with
  | nil => exact Grows.refl x
  | cons m msgs ih => exact (grows_addSigs m x).trans (ih (x.addSigs m))

/-! ## The chain -/

structure Ledger (lib : Lib) where
  ckptParams : BTCCheckpointParams
  stakingParams : BTCStakingParams
  dels : Registry (@Entry.hash lib)
  mempool : List (List MsgAddCovenantSigs)

/-- Delegations rewritten in place. -/
def Ledger.rewrite (c : Ledger lib) (f : Entry lib → Entry lib) (hf : ∀ x, Entry.Grows x (f x)) :
    Ledger lib :=
  { c with dels := c.dels.update f fun x => (hf x).hash_eq }

/-- `query.DefaultLimit`, for a request without a limit. -/
def defaultLimit : Nat := 100

def pageSize (pagination : PageRequest) : Nat :=
  if pagination.limit = 0 then defaultLimit else pagination.limit.toNat

/-- The delegations with a status from the key of the request on. -/
def Ledger.listed (c : Ledger lib) (status : BTCDelegationStatus) (pagination : PageRequest) :
    List (Entry lib) :=
  let all := c.dels.entries.filter fun x => status = .any ∨ x.status = status
  match pagination.key with
  | none => all
  | some key => all.dropWhile fun x => x.hash.bytes ≠ key

def Ledger.page (c : Ledger lib) (status : BTCDelegationStatus) (pagination : PageRequest) :
    List BTCDelegation :=
  ((c.listed status pagination).take (pageSize pagination)).map (·.record)

def Ledger.nextKey (c : Ledger lib) (status : BTCDelegationStatus) (pagination : PageRequest) :
    Option Bytes :=
  ((c.listed status pagination)[pageSize pagination]?).map (·.hash.bytes)

theorem Ledger.listed_sublist (c : Ledger lib) (status : BTCDelegationStatus)
    (pagination : PageRequest) : (c.listed status pagination).Sublist c.dels.entries := by
  unfold listed
  cases pagination.key with
  | none => exact List.filter_sublist
  | some key => exact (List.dropWhile_sublist _).trans List.filter_sublist

/-- A page shows different delegations, as they stand on the chain. -/
theorem Ledger.page_entries (c : Ledger lib) (status : BTCDelegationStatus) (pagination : PageRequest) :
    ∃ xs : List (Entry lib), c.page status pagination = xs.map (·.record) ∧ xs.Sublist c.dels.entries :=
  ⟨_, rfl, (List.take_sublist _ _).trans (c.listed_sublist status pagination)⟩

/-- The pending delegations in the order of their keys. -/
def Ledger.pending (c : Ledger lib) : List BTCDelegation :=
  (c.dels.entries.filter fun x => x.status = .pending).map (·.record)

/-- The first page of the pending delegations is the first of them, up to the limit. -/
theorem Ledger.page_pending (c : Ledger lib) {limit : UInt64} (h : 1 ≤ limit) :
    c.page .pending ⟨none, limit⟩ = c.pending.take limit.toNat := by
  have hne : limit ≠ 0 := by
    rintro rfl
    exact absurd h (by decide)
  have hsize : pageSize ⟨none, limit⟩ = limit.toNat := if_neg hne
  unfold page pending
  rw [hsize, List.map_take]
  simp [listed]

/-- What happens on the chain without the members. -/
inductive Move (lib : Lib)
  | govern (ckpt : BTCCheckpointParams) (staking : BTCStakingParams)
  | create (i : Nat) (x : Entry lib)
  | setStatus (hash : Hash) (status : BTCDelegationStatus)
  | undelegate (hash : Hash) (sig : BIP340Signature)
  -- a message from elsewhere, say of a member that runs other software
  | sign (m : MsgAddCovenantSigs)
  | deliver (msgs : List MsgAddCovenantSigs)
  | expire (msgs : List MsgAddCovenantSigs)

/-- The steps of a chain that makes the moves `allowed`. -/
inductive EvolvesIf (allowed : Ledger lib → Move lib → Prop) : Ledger lib → Ledger lib → Prop
  | govern (c : Ledger lib) (ckpt : BTCCheckpointParams) (staking : BTCStakingParams) :
      allowed c (.govern ckpt staking) →
      EvolvesIf allowed c { c with ckptParams := ckpt, stakingParams := staking }
  | create (c : Ledger lib) (i : Nat) (x : Entry lib) (hx : x.hash ∉ c.dels.entries.map Entry.hash) :
      allowed c (.create i x) → EvolvesIf allowed c { c with dels := c.dels.insert i x hx }
  | setStatus (c : Ledger lib) (hash : Hash) (status : BTCDelegationStatus) :
      allowed c (.setStatus hash status) →
      EvolvesIf allowed c (c.rewrite (Entry.setStatus hash status) (Entry.grows_setStatus hash status))
  | undelegate (c : Ledger lib) (hash : Hash) (sig : BIP340Signature) :
      allowed c (.undelegate hash sig) →
      EvolvesIf allowed c (c.rewrite (Entry.undelegate hash sig) (Entry.grows_undelegate hash sig))
  | sign (c : Ledger lib) (m : MsgAddCovenantSigs) : allowed c (.sign m) →
      EvolvesIf allowed c (c.rewrite (Entry.addSigs m) (Entry.grows_addSigs m))
  | deliver (c : Ledger lib) (before after : List (List MsgAddCovenantSigs))
      (msgs : List MsgAddCovenantSigs) (h : c.mempool = before ++ msgs :: after) :
      allowed c (.deliver msgs) →
      EvolvesIf allowed c { c.rewrite (Entry.addAll msgs) (Entry.grows_addAll msgs) with
        mempool := before ++ after }
  | expire (c : Ledger lib) (before after : List (List MsgAddCovenantSigs))
      (msgs : List MsgAddCovenantSigs) (h : c.mempool = before ++ msgs :: after) :
      allowed c (.expire msgs) → EvolvesIf allowed c { c with mempool := before ++ after }

/-- The moves that the members do not make. -/
abbrev Evolves : Ledger lib → Ledger lib → Prop := EvolvesIf fun _ _ => True

theorem EvolvesIf.evolves {allowed : Ledger lib → Move lib → Prop} {c c' : Ledger lib}
    (h : EvolvesIf allowed c c') : Evolves c c' := by
  cases h with
  | govern ckpt staking => exact .govern c ckpt staking trivial
  | create i x hx => exact .create c i x hx trivial
  | setStatus hash status => exact .setStatus c hash status trivial
  | undelegate hash sig => exact .undelegate c hash sig trivial
  | sign m => exact .sign c m trivial
  | deliver before after msgs hm => exact .deliver c before after msgs hm trivial
  | expire before after msgs hm => exact .expire c before after msgs hm trivial

/-- How a call is answered. A query either fails or reads the chain as it stands; a
transaction is on its way whatever the member is told. -/
def Responds (c : Ledger lib) : Event bbnClient → Ledger lib → Prop
  | ⟨.btcCheckpointParams, a⟩, c' => c' = c ∧ ∀ ckpt, a = .ok ckpt → ckpt = c.ckptParams
  | ⟨.btcStakingParams, a⟩, c' => c' = c ∧ ∀ staking, a = .ok staking → staking = c.stakingParams
  | ⟨.btcDelegations status pagination, a⟩, c' => c' = c ∧ ∀ res, a = .ok res →
      res.btcDelegations.elems = c.page status pagination ∧ res.nextKey = c.nextKey status pagination
  | ⟨.reliablySendMsgs msgs, _⟩, c' => c' = { c with mempool := c.mempool ++ [msgs] }
  | ⟨.enter _ _, _⟩, c' => c' = c

/-- The chain as the environment of any number of members. -/
def babylon (lib : Lib) (ι : Type) : Environment ι bbnClient where
  State := Ledger lib
  evolve := Evolves
  respond _ := Responds

/-! ## Growth -/

def Ledger.Grows (c c' : Ledger lib) : Prop := Registry.Grows Entry.Grows c.dels c'.dels

theorem Ledger.Grows.refl (c : Ledger lib) : c.Grows c := Registry.Grows.refl Entry.Grows.refl _

theorem Ledger.Grows.trans {c₁ c₂ c₃ : Ledger lib} (h : c₁.Grows c₂) (h' : c₂.Grows c₃) :
    c₁.Grows c₃ :=
  Registry.Grows.trans (fun hx hy => hx.trans hy) h h'

theorem Ledger.grows_rewrite (c : Ledger lib) (f : Entry lib → Entry lib)
    (hf : ∀ x, Entry.Grows x (f x)) : c.Grows (c.rewrite f hf) :=
  c.dels.grows_update (fun x => (hf x).hash_eq) hf

theorem grows_of_evolves {c c' : Ledger lib} (h : Evolves c c') : c.Grows c' := by
  cases h with
  | govern ckpt staking => exact Ledger.Grows.refl c
  | create i x hx => exact c.dels.grows_insert Entry.Grows.refl i x hx
  | setStatus hash status => exact c.grows_rewrite _ (Entry.grows_setStatus hash status)
  | undelegate hash sig => exact c.grows_rewrite _ (Entry.grows_undelegate hash sig)
  | sign m => exact c.grows_rewrite _ (Entry.grows_addSigs m)
  | deliver before after msgs hm => exact c.grows_rewrite _ (Entry.grows_addAll msgs)
  | expire before after msgs hm => exact Ledger.Grows.refl c

/-- An answer changes no delegation. -/
theorem dels_of_responds {c c' : Ledger lib} {e : Event bbnClient} (h : Responds c e c') :
    c'.dels = c.dels := by
  obtain ⟨call, a⟩ := e
  cases call with
  | btcCheckpointParams => rw [h.1]
  | btcStakingParams => rw [h.1]
  | btcDelegations status pagination => rw [h.1]
  | reliablySendMsgs msgs =>
    obtain rfl := h
    rfl
  | enter params btcDels =>
    obtain rfl := h
    rfl

theorem grows_of_responds {c c' : Ledger lib} {e : Event bbnClient} (h : Responds c e c') :
    c.Grows c' := by
  obtain ⟨call, a⟩ := e
  cases call with
  | btcCheckpointParams =>
    obtain ⟨rfl, _⟩ := h
    exact Ledger.Grows.refl _
  | btcStakingParams =>
    obtain ⟨rfl, _⟩ := h
    exact Ledger.Grows.refl _
  | btcDelegations status pagination =>
    obtain ⟨rfl, _⟩ := h
    exact Ledger.Grows.refl _
  | reliablySendMsgs msgs =>
    obtain rfl := h
    exact Ledger.Grows.refl c
  | enter params btcDels =>
    obtain rfl := h
    exact Ledger.Grows.refl _

end Covenant.Chain
