import Covenant.Agreement
import Covenant.Batches
import Covenant.Paging

/-! What becomes of the delegations that a tick leaves unsigned. A batch that
`AddCovenantSignatures` declines stays on the chain as it was, and on the next page the
delegations that are left fall into the same batches again. While the chain does nothing but
include what was sent, only the first tick sends anything (`declined_for_good`). -/

namespace Covenant.Stalls
open Outcome Lists Interaction Batching Bitcoin Covenant.Types Emulator Signing Loop Controller
  Records Chain Reference Gate Runs Ticks Batches Member Committee Paging Agreement
open Reactor hiding Run

/-! ## Whole ticks -/

section

variable {lib : Lib} {bc : BabylonController} {ce ce' : CovenantEmulator}

theorem sent_of_steps {batches : List (List (Option Delegation))} {u : ClientTrace}
    (h : Prog.Steps (submitBatches lib ce batches) u (.ret ())) : Runs.Sent lib ce batches u := by
  obtain ⟨pre, post, u₁, u₂, rfl, rfl, hs, hc⟩ := steps_submitBatches h
  generalize hq : Prog.ret () = q at hc
  cases hc with
  | idle =>
    cases post with
    | nil => simpa using hs
    | cons b bs => cases hq
  | panicked => cases hq
  | submitting => cases hq

/-- A whole tick has no page, or works it off batch by batch. -/
theorem whole_tick {t : ClientTrace} (h : Prog.Steps (tick lib ce) t (.ret ce')) :
    (t.filterMap delegationsOf = [] ∧ submissions t = []) ∨
      ∃ errs p dels batches u, t = (failures errs ++ [fetched p]) ++ queried ce dels :: u ∧
        workList lib (withParams ce p) dels.elems = .ok batches ∧
        Runs.Sent lib (withParams ce p) batches u := by
  have hrun := steps_tick h
  generalize hq : Prog.ret ce' = q at hrun
  cases hrun with
  | fetching => cases hq
  | @unfetched errs =>
    left
    have hnil := filterMap_failures (f := delegationsOf) (fun _ => rfl) errs []
    have hnil' := filterMap_failures (f := submissionOf) (fun _ => rfl) errs []
    rw [List.append_nil] at hnil hnil'
    exact ⟨hnil, hnil'⟩
  | querying => cases hq
  | @unqueried errs p err =>
    exact Or.inl ⟨filterMap_failures (fun _ => rfl) errs _, filterMap_failures (fun _ => rfl) errs _⟩
  | @processing errs p dels u q' hlen hs =>
    cases q' with
    | halt x => cases hq
    | call c k => cases hq
    | ret x =>
      right
      rcases steps_processDelegations hs with ⟨_, _, _, hx⟩ | ⟨batches, hw, hs⟩
      · cases hx
      · exact ⟨errs, p, dels, batches, u, by simp, hw, sent_of_steps hs⟩

/-- A tick that got its page: before it the parameters were fetched, after it the batches
are sent that can be collected. -/
structure Works (lib : Lib) (bc : BabylonController) (ce : CovenantEmulator) (t₁ t₂ : RpcTrace)
    (res : BTCDelegationsResponse) (p : StakingParams) (batches : List (List (Option Delegation))) :
    Prop where
  params : ∃ ckpt staking, ⟨.btcCheckpointParams, .ok ckpt⟩ ∈ t₁ ∧
    ⟨.btcStakingParams, .ok staking⟩ ∈ t₁ ∧ stakingParamsOf lib bc ckpt staking = .ok p
  sends_before : sends t₁ = []
  batched : ∃ ds, List.Forall₂ (fun r d => convertDelegationType lib r = .ok d)
    res.btcDelegations.elems ds ∧ workList lib (withParams ce p) (ds.map some) = .ok batches
  sent : List.Forall₂ (fun l msgs => l.mapM (msgAddCovenantSigs lib bc) = .ok msgs)
    (batches.filterMap (collected lib (withParams ce p))) (sends t₂)

theorem whole_memberTick {t : RpcTrace} (h : Prog.Steps (memberTick lib bc ce) t (.ret ce')) :
    (pages t = [] ∧ sends t = []) ∨
      ∃ t₁ t₂ res p batches, t = t₁ ++ paged .pending ⟨none, ce.config.delegationLimit⟩ res :: t₂ ∧
        Works lib bc ce t₁ t₂ res p batches := by
  obtain ⟨s, hs, hcar⟩ := Prog.steps_interp_ret h
  rcases whole_tick hs with ⟨hdels, hsubs⟩ | ⟨errs, p, dels, batches, u, rfl, hw, hsent⟩
  · left
    have hpages := hcar.filterMap pages_of_call
    have hsends := hcar.filterMap sends_of_call
    unfold submissions at hsubs
    rw [hdels] at hpages
    rw [hsubs] at hsends
    exact ⟨List.forall₂_nil_left_iff.mp hpages, List.forall₂_nil_left_iff.mp hsends⟩
  · right
    obtain ⟨t₁, t', rfl, h₁, h'⟩ := hcar.append_inv
    cases h' with
    | @cons _ _ _ v t₂ hq h₂ =>
      obtain ⟨res, rfl, hconv⟩ := steps_queryPendingDelegations_ok hq
      obtain ⟨ds, hds, helems⟩ := convertAll_eq_ok hconv
      refine ⟨t₁, t₂, res, p, batches, rfl, ?_, ?_, ⟨ds, mapM_eq_ok_iff.mp hds, helems ▸ hw⟩, ?_⟩
      · obtain ⟨v, hv, hvt⟩ := h₁.run_of_mem (List.mem_append_right _ (List.mem_singleton_self _))
        obtain ⟨ckpt, staking, rfl, hp⟩ := steps_queryStakingParams_ok hv
        exact ⟨ckpt, staking, hvt _ (by simp), hvt _ (by simp), hp⟩
      · have hsends := h₁.filterMap sends_of_call
        rw [filterMap_failures (fun _ => rfl)] at hsends
        exact List.forall₂_nil_left_iff.mp hsends
      · have hsends := h₂.filterMap sends_of_call
        have hsubs := submissions_sent hsent
        unfold submissions at hsubs
        rw [hsubs] at hsends
        exact hsends

end

/-! ## A chain that only includes -/

variable {lib : Lib}

/-- The chain includes what is sent and adds nothing to the work of the member with the given
key: no new delegations, no new parameters, no lost transactions. Others sign and unbond, and
what the member has signed may leave the pending delegations. -/
def AddsNoWork (key : BIP340PubKey) (c : Ledger lib) : Move lib → Prop
  | .setStatus hash status =>
    status ≠ .pending ∧ ∀ x ∈ c.dels.entries, x.hash = hash → key ∈ signers x.record
  | .sign m => m.pk ≠ key
  | .undelegate _ _ => True
  | .deliver _ => True
  | .govern _ _ => False
  | .create _ _ => False
  | .expire _ => False

abbrev Quiet (key : BIP340PubKey) : Ledger lib → Ledger lib → Prop := EvolvesIf (AddsNoWork key)

/-- How many signatures on the unbonding transaction a record shows. -/
def unbondingSigs (r : BTCDelegation) : Nat :=
  (r.btcUndelegation.map (·.covenantUnbondingSigList.length)).getD 0

/-- The delegation `x` later, as `y`, when the member with the given key has sent messages for
the hashes `sent` in between. -/
structure Kept (key : BIP340PubKey) (sent : List String) (x y : Entry lib) : Prop where
  grows : x.Grows y
  sigs_le : x.record.covenantSigs.length ≤ y.record.covenantSigs.length
  unbonding_le : unbondingSigs x.record ≤ unbondingSigs y.record
  pending : y.status = .pending → x.status = .pending
  status_eq : key ∉ signers y.record → y.status = x.status
  signed : key ∈ signers y.record → key ∈ signers x.record ∨ lib.hashString x.hash ∈ sent

section

variable {key : BIP340PubKey} {sent sent' : List String} {x y z : Entry lib}

theorem Kept.refl (x : Entry lib) : Kept key sent x x :=
  ⟨.refl x, Nat.le_refl _, Nat.le_refl _, id, fun _ => rfl, Or.inl⟩

theorem Kept.trans (h : Kept key sent x y) (h' : Kept key sent y z) : Kept key sent x z where
  grows := h.grows.trans h'.grows
  sigs_le := Nat.le_trans h.sigs_le h'.sigs_le
  unbonding_le := Nat.le_trans h.unbonding_le h'.unbonding_le
  pending hz := h.pending (h'.pending hz)
  status_eq hz := (h'.status_eq hz).trans (h.status_eq fun hy => hz (h'.grows.signers_subset hy))
  signed hz := by
    rcases h'.signed hz with hy | hy
    · exact h.signed hy
    · exact Or.inr (h.grows.hash_eq ▸ hy)

theorem Kept.mono (h : Kept key sent x y) (hsub : sent ⊆ sent') : Kept key sent' x y :=
  { h with signed := fun hy => (h.signed hy).imp_right fun hx => hsub hx }

theorem kept_setStatus {hash : Hash} {status : BTCDelegationStatus} (hs : status ≠ .pending)
    (hsigned : x.hash = hash → key ∈ signers x.record) :
    Kept key sent x (x.setStatus hash status) := by
  have hgrows := Entry.grows_setStatus hash status x
  unfold Entry.setStatus at hgrows ⊢
  split at hgrows
  · rename_i heq
    rw [if_pos heq]
    exact ⟨hgrows, Nat.le_refl _, Nat.le_refl _, fun h => absurd h hs,
      fun h => absurd (hsigned heq) h, Or.inl⟩
  · rename_i hne
    rw [if_neg hne]
    exact Kept.refl x

theorem kept_undelegate (hash : Hash) (sig : BIP340Signature) :
    Kept key sent x (x.undelegate hash sig) := by
  have hgrows := Entry.grows_undelegate hash sig x
  unfold Entry.undelegate at hgrows ⊢
  split at hgrows
  · rename_i heq
    rw [if_pos heq]
    refine ⟨hgrows, Nat.le_refl _, ?_, id, fun _ => rfl, Or.inl⟩
    unfold unbondingSigs
    cases x.record.btcUndelegation <;> exact Nat.le_refl _
  · rename_i hne
    rw [if_neg hne]
    exact Kept.refl x

theorem signers_addCovenantSigs (m : MsgAddCovenantSigs) (r : BTCDelegation) :
    signers (addCovenantSigs m r) = signers r ++ [m.pk] := by
  unfold signers addCovenantSigs
  rw [List.map_append]
  rfl

theorem kept_addSigs {m : MsgAddCovenantSigs} (hm : m.pk = key → m.stakingTxHash ∈ sent) :
    Kept key sent x (x.addSigs m) := by
  have hgrows := Entry.grows_addSigs m x
  unfold Entry.addSigs at hgrows ⊢
  split at hgrows
  · rename_i hnew
    rw [if_pos hnew]
    refine ⟨hgrows, ?_, ?_, id, fun _ => rfl, ?_⟩
    · simp [addCovenantSigs]
    · unfold unbondingSigs addCovenantSigs
      cases x.record.btcUndelegation <;> simp
    · intro hy
      rw [signers_addCovenantSigs, List.mem_append, List.mem_singleton] at hy
      rcases hy with hy | rfl
      · exact Or.inl hy
      · exact Or.inr (hnew.1 ▸ hm rfl)
  · rename_i hold
    rw [if_neg hold]
    exact Kept.refl x

theorem kept_addAll {msgs : List MsgAddCovenantSigs}
    (hm : ∀ m ∈ msgs, m.pk = key → m.stakingTxHash ∈ sent) : Kept key sent x (x.addAll msgs) := by
  unfold Entry.addAll
  induction msgs generalizing x with
  | nil => exact Kept.refl x
  | cons m msgs ih =>
    exact (kept_addSigs (hm m (List.mem_cons_self ..))).trans
      (ih fun m' hm' => hm m' (List.mem_cons_of_mem _ hm'))

/-- A message that is included stands at the delegation it names. -/
theorem mem_signers_addSigs {m : MsgAddCovenantSigs} (h : lib.hashString x.hash = m.stakingTxHash) :
    m.pk ∈ signers (x.addSigs m).record := by
  unfold Entry.addSigs
  split
  · rw [signers_addCovenantSigs]
    exact List.mem_append_right _ (List.mem_singleton_self _)
  · rename_i hold
    by_contra hne
    exact hold ⟨h, hne⟩

theorem mem_signers_addAll {msgs : List MsgAddCovenantSigs} {m : MsgAddCovenantSigs} (hm : m ∈ msgs)
    (h : lib.hashString x.hash = m.stakingTxHash) : m.pk ∈ signers (x.addAll msgs).record := by
  induction msgs generalizing x with
  | nil => cases hm
  | cons m' msgs ih =>
    rcases List.mem_cons.mp hm with rfl | hm
    · exact (Entry.grows_addAll msgs (x.addSigs m)).signers_subset (mem_signers_addSigs h)
    · exact ih hm ((Entry.grows_addSigs m' x).hash_eq ▸ h)

end

/-! ## What is carried through a run -/

/-- The chain `c` later than `c₀`, when the member has sent the messages `sent` in between:
they are on their way, or stand on the chain. -/
structure Carried (key : BIP340PubKey) (c₀ : Ledger lib) (sent : List MsgAddCovenantSigs)
    (c : Ledger lib) : Prop where
  ckpt_eq : c.ckptParams = c₀.ckptParams
  staking_eq : c.stakingParams = c₀.stakingParams
  kept : List.Forall₂ (Kept key (sent.map (·.stakingTxHash))) c₀.dels.entries c.dels.entries
  mempool : ∀ msgs ∈ c.mempool, ∀ m ∈ msgs, m.pk = key → m ∈ sent
  arrives : ∀ m ∈ sent, m.pk = key → (∃ msgs ∈ c.mempool, m ∈ msgs) ∨
    ∀ y ∈ c.dels.entries, lib.hashString y.hash = m.stakingTxHash → key ∈ signers y.record

section

variable {key : BIP340PubKey} {c₀ c c' : Ledger lib} {sent : List MsgAddCovenantSigs}

theorem Carried.refl (h : c.mempool = []) : Carried key c [] c where
  ckpt_eq := rfl
  staking_eq := rfl
  kept := List.forall₂_same.mpr fun x _ => Kept.refl x
  mempool msgs hmsgs := by
    rw [h] at hmsgs
    cases hmsgs
  arrives m hm := by cases hm

/-- The delegations are rewritten, and the transactions in the mempool that are gone are
recorded. -/
theorem Carried.rewrite (h : Carried key c₀ sent c) {f : Entry lib → Entry lib}
    (hf : ∀ x, Entry.Grows x (f x))
    (hkept : ∀ x ∈ c.dels.entries, Kept key (sent.map (·.stakingTxHash)) x (f x))
    {mempool : List (List MsgAddCovenantSigs)} (hsub : mempool ⊆ c.mempool)
    (hgone : ∀ msgs ∈ c.mempool, msgs ∈ mempool ∨ ∀ m ∈ msgs, ∀ x : Entry lib,
      lib.hashString x.hash = m.stakingTxHash → m.pk ∈ signers (f x).record) :
    Carried key c₀ sent { c.rewrite f hf with mempool := mempool } where
  ckpt_eq := h.ckpt_eq
  staking_eq := h.staking_eq
  kept := by
    have hstep : List.Forall₂ (Kept key (sent.map (·.stakingTxHash))) c.dels.entries
        (c.dels.entries.map f) := by
      rw [List.forall₂_map_right_iff, List.forall₂_same]
      exact hkept
    apply (forall₂_trans h.kept hstep).imp
    rintro x z ⟨y, hxy, hyz⟩
    exact hxy.trans hyz
  mempool msgs hmsgs := h.mempool msgs (hsub hmsgs)
  arrives m hm hpk := by
    have hrecorded : (∀ y ∈ c.dels.entries, lib.hashString y.hash = m.stakingTxHash →
        key ∈ signers (f y).record) →
        ∀ z ∈ c.dels.entries.map f, lib.hashString z.hash = m.stakingTxHash → key ∈ signers z.record := by
      intro hall z hz hhash
      obtain ⟨y, hy, rfl⟩ := List.mem_map.mp hz
      exact hall y hy ((hf y).hash_eq ▸ hhash)
    rcases h.arrives m hm hpk with ⟨msgs, hmsgs, hmem⟩ | hall
    · rcases hgone msgs hmsgs with hin | hdone
      · exact Or.inl ⟨msgs, hin, hmem⟩
      · exact Or.inr (hrecorded fun y _ hhash => hpk ▸ hdone m hmem y hhash)
    · exact Or.inr (hrecorded fun y hy hhash => (hf y).signers_subset (hall y hy hhash))

theorem Carried.quiet (h : Carried key c₀ sent c) (hq : Quiet key c c') : Carried key c₀ sent c' := by
  cases hq with
  | govern ckpt staking hno => cases hno
  | create i x hx hno => cases hno
  | expire before after msgs hm hno => cases hno
  | setStatus hash status hs =>
    exact h.rewrite (Entry.grows_setStatus hash status)
      (fun x hx => kept_setStatus hs.1 (hs.2 x hx)) (List.Subset.refl _) fun _ => Or.inl
  | undelegate hash sig =>
    exact h.rewrite (Entry.grows_undelegate hash sig) (fun x _ => kept_undelegate hash sig)
      (List.Subset.refl _) fun _ => Or.inl
  | sign m hm =>
    exact h.rewrite (Entry.grows_addSigs m) (fun x _ => kept_addSigs fun hpk => absurd hpk hm)
      (List.Subset.refl _) fun _ => Or.inl
  | deliver before after msgs hm _ =>
    refine h.rewrite (Entry.grows_addAll msgs) ?_ ?_ ?_
    · intro x _
      apply kept_addAll
      intro m hmem hpk
      exact List.mem_map_of_mem (h.mempool msgs (by simp [hm]) m hmem hpk)
    · rw [hm]
      intro msgs' hmsgs
      rcases List.mem_append.mp hmsgs with hmsgs | hmsgs
      · exact List.mem_append_left _ hmsgs
      · exact List.mem_append_right _ (List.mem_cons_of_mem _ hmsgs)
    · intro msgs' hmsgs
      rw [hm, List.mem_append, List.mem_cons] at hmsgs
      rcases hmsgs with hmsgs | rfl | hmsgs
      · exact Or.inl (List.mem_append_left _ hmsgs)
      · exact Or.inr fun m hmem x hhash => mem_signers_addAll hmem hhash
      · exact Or.inl (List.mem_append_right _ hmsgs)

theorem Carried.send (h : Carried key c₀ sent c) (msgs : List MsgAddCovenantSigs) :
    Carried key c₀ (sent ++ msgs) { c with mempool := c.mempool ++ [msgs] } where
  ckpt_eq := h.ckpt_eq
  staking_eq := h.staking_eq
  kept := h.kept.imp fun x y hxy => hxy.mono (by
    rw [List.map_append]
    exact List.subset_append_left _ _)
  mempool msgs' hmsgs m hm hpk := by
    rcases List.mem_append.mp hmsgs with hmsgs | hmsgs
    · exact List.mem_append_left _ (h.mempool msgs' hmsgs m hm hpk)
    · rw [List.mem_singleton.mp hmsgs] at hm
      exact List.mem_append_right _ hm
  arrives m hm hpk := by
    rcases List.mem_append.mp hm with hm | hm
    · rcases h.arrives m hm hpk with ⟨msgs', hmsgs, hmem⟩ | hall
      · exact Or.inl ⟨msgs', List.mem_append_left _ hmsgs, hmem⟩
      · exact Or.inr hall
    · exact Or.inl ⟨msgs, by simp, hm⟩

theorem Carried.responds (h : Carried key c₀ sent c) {e : Event bbnClient} (he : Responds c e c') :
    Carried key c₀ (sent ++ (sends [e]).flatten) c' := by
  obtain ⟨call, a⟩ := e
  cases call with
  | reliablySendMsgs msgs =>
    obtain rfl := he
    simpa [sends, sendOf] using h.send msgs
  | enter params btcDels =>
    obtain rfl := he
    exact (List.append_nil sent).symm ▸ h
  | _ =>
    obtain ⟨rfl, _⟩ := he
    exact (List.append_nil sent).symm ▸ h

/-- The chain around one member. -/
abbrev quietChain (lib : Lib) (key : BIP340PubKey) : Environment Unit bbnClient :=
  (babylon lib Unit).within (Quiet key)

theorem sends_append (t u : RpcTrace) : sends (t ++ u) = sends t ++ sends u :=
  List.filterMap_append

theorem Carried.interleaves (h : Carried key c₀ sent c) {t : RpcTrace}
    (ht : System.Interleaves (quietChain lib key) () c t c') :
    Carried key c₀ (sent ++ (sends t).flatten) c' := by
  have hinv := ht.invariant (d := [])
    (P := fun d (e : Ledger lib) => Carried key c₀ (sent ++ (sends d).flatten) e)
    (fun hc hq => hc.quiet hq)
    (fun {d ev e e'} hc hev => by
      rw [sends_append, List.flatten_append, ← List.append_assoc]
      exact hc.responds hev)
  exact hinv (by simpa [sends] using h)

end

/-! ## Delegations that have grown -/

section

variable {ce : CovenantEmulator} {d d' : Delegation}

theorem checksPass_of_bare {net : NetParams} {p : StakingParams} {ud ud' : Undelegation} {c : Checked}
    (h : ChecksPass lib net p d' ud' c) (hbare : bare d = bare d') (hud : d.btcUndelegation = some ud)
    (hud' : d'.btcUndelegation = some ud') : ChecksPass lib net p d ud c := by
  obtain ⟨hutx, hustx⟩ := undelegation_hex_eq hbare hud hud'
  obtain ⟨hpk, hfps, _, _, _, hstx, hidx, hsltx, hunb⟩ := terms_eq hbare
  constructor
  · rw [hunb]
    exact h.unbondingTime_gt
  · rw [hstx]
    exact h.staking_parses
  · rw [hsltx]
    exact h.slashing_parses
  · exact h.slashing_decodes
  · rw [hidx, hpk, hunb]
    exact h.slashing_checked
  · rw [hustx]
    exact h.unbondingSlashing_parses
  · rw [hutx]
    exact h.unbonding_parses
  · rw [hpk, hfps, hunb]
    exact h.unbondingInfo_built
  · rw [hpk, hunb]
    exact h.unbondingSlashing_checked

theorem signingPasses_of_bare {p : StakingParams} {ud ud' : Undelegation} {c : Checked} {m : Signed}
    (h : SigningPasses lib ce p d' ud' c m) (hbare : bare d = bare d')
    (hud : d.btcUndelegation = some ud) (hud' : d'.btcUndelegation = some ud') :
    SigningPasses lib ce p d ud c m := by
  obtain ⟨_, hustx⟩ := undelegation_hex_eq hbare hud hud'
  obtain ⟨hpk, hfps, hstart, hend, hsat, _, hidx, _, _⟩ := terms_eq hbare
  constructor
  · exact h.privKey
  · unfold Delegation.getStakingTime
    rw [hstart, hend]
    exact h.stakingTime_eq
  · rw [hpk, hfps, hsat]
    exact h.stakingInfo_built
  · exact h.slashingPath
  · rw [hidx, hfps]
    exact h.slashing_signed
  · exact h.unbondingPath
  · rw [hidx]
    exact h.unbonding_signed
  · rw [hustx]
    exact h.slashUnbonding_parses
  · exact h.unbondingSlashingPath
  · rw [hfps]
    exact h.unbondingSlashing_signed

theorem undelegation_of_bare {ud' : Undelegation} (hbare : bare d = bare d')
    (hud' : d'.btcUndelegation = some ud') : ∃ ud, d.btcUndelegation = some ud := by
  have h := congrArg Delegation.btcUndelegation hbare
  simp only [bare, hud', Option.map_some] at h
  cases hud : d.btcUndelegation with
  | none =>
    rw [hud] at h
    cases h
  | some ud => exact ⟨ud, rfl⟩

/-- With fewer signatures there is no quorum either. -/
theorem no_quorum_of_le {ud ud' : Undelegation} {quorum : UInt32} (hud : d.btcUndelegation = some ud)
    (hud' : d'.btcUndelegation = some ud') (hsigs : d.covenantSigs.length ≤ d'.covenantSigs.length)
    (hlt : d'.covenantSigs.length < 2 ^ 32)
    (hunb : ud.covenantUnbondingSigs.length ≤ ud'.covenantUnbondingSigs.length)
    (h : d'.hasCovenantQuorum quorum = .ok false) : d.hasCovenantQuorum quorum = .ok false := by
  rw [Delegation.hasCovenantQuorum_eq hud'] at h
  rw [Delegation.hasCovenantQuorum_eq hud]
  simp only [Except.ok.injEq, Bool.and_eq_false_iff, decide_eq_false_iff_not, ge_iff_le,
    UInt32.le_iff_toNat_le, UInt32.toNat_ofNat', Undelegation.hasAllSignatures,
    Undelegation.hasCovenantQuorumOnUnbonding, Undelegation.hasCovenantQuorumOnSlashing] at h ⊢
  rw [Nat.mod_eq_of_lt hlt] at h
  rw [Nat.mod_eq_of_lt (Nat.lt_of_le_of_lt hsigs hlt)]
  omega

theorem unbondingSigs_of_converts {r : BTCDelegation} {ud : Undelegation} (h : Converts lib r d)
    (hud : d.btcUndelegation = some ud) : unbondingSigs r = ud.covenantUnbondingSigs.length := by
  have hrel := h.undelegation
  unfold unbondingSigs
  rw [hud] at hrel
  generalize r.btcUndelegation = o at hrel
  cases hrel with
  | some hu => exact hu.unbondingSigs.length_eq

variable {key : BIP340PubKey} {sent : List String} {x y : Entry lib}

/-- What is signed later would have been signed before. -/
theorem passes_of_kept (h : Kept key sent x y) (hd : Converts lib x.record d)
    (hd' : Converts lib y.record d') (hlt : y.record.covenantSigs.length < 2 ^ 32)
    (hp : Passes lib ce (some d')) : Passes lib ce (some d) := by
  obtain ⟨⟨del, ud', p, ch, sg, hdel, hud', hparams, hno, hchecks, hsigning⟩⟩ := hp
  obtain rfl := Option.some.inj hdel
  -- apart from the quorum, nothing that is checked or signed depends on the signatures
  have hbare : bare d = bare d' := bare_eq_of_converts hd hd' h.grows.bare_eq.symm
  obtain ⟨ud, hud⟩ := undelegation_of_bare hbare hud'
  have hquorum : d.hasCovenantQuorum p.covenantQuorum = .ok false := by
    apply no_quorum_of_le hud hud' _ _ _ hno
    · rw [← hd.covenantSigs.length_eq, ← hd'.covenantSigs.length_eq]
      exact h.sigs_le
    · rw [← hd'.covenantSigs.length_eq]
      exact hlt
    · rw [← unbondingSigs_of_converts hd hud, ← unbondingSigs_of_converts hd' hud']
      exact h.unbonding_le
  exact ⟨⟨d, ud, p, ch, sg, rfl, hud, hparams, hquorum, checksPass_of_bare hchecks hbare hud hud',
    signingPasses_of_bare hsigning hbare hud hud'⟩⟩

end

/-! ## The work of a page -/

/-- The pending delegations that the member has not signed. -/
def todo (key : BIP340PubKey) (c : Ledger lib) : List (Entry lib) :=
  c.dels.entries.filter fun x => x.status = .pending ∧ key ∉ signers x.record

def handedFor (x : Entry lib) : Option Delegation := (convertDelegationType lib x.record).toOption

/-- The batch that is made of the delegations `xs`. -/
def batchOf (xs : List (Entry lib)) : List (Option Delegation) := xs.map handedFor

/-- The batch is collected, and so submitted. -/
def Collects (ce : CovenantEmulator) (xs : List (Entry lib)) : Bool :=
  (collected lib ce (batchOf xs)).isSome

section

variable {key : BIP340PubKey} {bc : BabylonController} {ce : CovenantEmulator}
  {c₀ c : Ledger lib}

theorem handedFor_eq_some_iff {x : Entry lib} {d : Delegation} :
    handedFor x = some d ↔ convertDelegationType lib x.record = .ok d := by
  unfold handedFor
  cases convertDelegationType lib x.record <;> simp [Except.toOption]

theorem collects_iff {xs : List (Entry lib)} :
    Collects ce xs = true ↔ xs ≠ [] ∧ ∀ x ∈ xs, Passes lib ce (handedFor x) := by
  unfold Collects
  simp only [Option.isSome_iff_exists, collected_eq_some_iff, collectBatch_succeeds_iff, batchOf,
    ne_eq, List.map_eq_nil_iff, List.forall_mem_map]

/-- A message of the member for the delegation. -/
def Named (key : BIP340PubKey) (x : Entry lib) (m : MsgAddCovenantSigs) : Prop :=
  m.stakingTxHash = lib.hashString x.hash ∧ m.pk = key

theorem pk_of_signs (henc : lib.KeyEncoding) {o : Option Delegation} {s : CovenantSigs}
    {m : MsgAddCovenantSigs} (hs : signDelegation lib ce o = .ok (some s))
    (hm : msgAddCovenantSigs lib bc s = .ok m) : m.pk = ce.pk.x := by
  obtain ⟨a, rfl⟩ := (signDelegation_eq_some_iff lib ce _ _).mp hs
  obtain ⟨signer, _, hm⟩ := bind_eq_ok_iff.mp hm
  rw [← Except.ok.inj hm]
  exact henc.newBIP340PubKey_eq _

theorem named_of_signs (henc : lib.KeyEncoding) {x : Entry lib} {s : CovenantSigs}
    {m : MsgAddCovenantSigs} (hs : signDelegation lib ce (handedFor x) = .ok (some s))
    (hm : msgAddCovenantSigs lib bc s = .ok m) : Named ce.pk.x x m := by
  have hpk := pk_of_signs henc hs hm
  obtain ⟨a, rfl⟩ := (signDelegation_eq_some_iff lib ce _ _).mp hs
  have hd := handedFor_eq_some_iff.mp a.del_eq
  obtain ⟨d, ud, p, ch, sg, hdel, hud, hp, hq, hchecks, hsigning⟩ := a
  let a' : Accepted lib ce (some d) := ⟨d, ud, p, ch, sg, rfl, hud, hp, hq, hchecks, hsigning⟩
  exact ⟨(concerns_entry.mp (concerns_of_accepted (a := a') hd hm)).symm, hpk⟩

/-- The batches that are collected are sent. -/
theorem named_of_sends (henc : lib.KeyEncoding) {xss : List (List (Entry lib))}
    {mss : List (List MsgAddCovenantSigs)}
    (h : List.Forall₂ (fun l msgs => l.mapM (msgAddCovenantSigs lib bc) = .ok msgs)
      ((xss.map batchOf).filterMap (collected lib ce)) mss) :
    List.Forall₂ (Named ce.pk.x) (xss.filter (Collects ce)).flatten mss.flatten := by
  induction xss generalizing mss with
  | nil =>
    rw [List.forall₂_nil_left_iff.mp h]
    exact .nil
  | cons xs xss ih =>
    rw [List.map_cons] at h
    cases hc : collected lib ce (batchOf xs) with
    | none =>
      rw [List.filterMap_cons_none hc] at h
      rw [List.filter_cons_of_neg (by simp [Collects, hc])]
      exact ih h
    | some l =>
      rw [List.filterMap_cons_some hc] at h
      obtain ⟨msgs, mss, hm, hrest, rfl⟩ := List.forall₂_cons_left_iff.mp h
      rw [List.filter_cons_of_pos (by simp [Collects, hc]), List.flatten_cons, List.flatten_cons]
      refine List.rel_append ?_ (ih hrest)
      have hl := ((collectBatch_eq_some_iff lib ce _ _).mp (collected_eq_some_iff.mp hc)).2
      apply (List.forall₂_map_left_iff.mp (forall₂_trans hl (mapM_eq_ok_iff.mp hm))).imp
      rintro x m ⟨s, hs, hm⟩
      exact named_of_signs henc hs hm

theorem sends_eq_nil {xss : List (List (Entry lib))} {mss : List (List MsgAddCovenantSigs)}
    (h : List.Forall₂ (fun l msgs => l.mapM (msgAddCovenantSigs lib bc) = .ok msgs)
      ((xss.map batchOf).filterMap (collected lib ce)) mss)
    (hno : ∀ xs ∈ xss, Collects ce xs = false) : mss = [] := by
  have hnil : (xss.map batchOf).filterMap (collected lib ce) = [] := by
    apply List.filterMap_eq_nil_iff.mpr
    intro b hb
    obtain ⟨xs, hxs, rfl⟩ := List.mem_map.mp hb
    exact Option.not_isSome_iff_eq_none.mp (Bool.eq_false_iff.mp (hno xs hxs))
  rw [hnil] at h
  exact List.forall₂_nil_left_iff.mp h

/-- When everything pending fits on the page, the batches are made of all that is to do. -/
theorem exists_blocks (henc : lib.KeyEncoding) (hlimit : 1 ≤ ce.config.delegationLimit)
    (hbatch : ce.config.sigsBatchSize ≠ 0)
    (hfit : c.pending.length ≤ ce.config.delegationLimit.toNat) {t₁ t₂ : RpcTrace}
    {res : BTCDelegationsResponse} {p : StakingParams} {batches : List (List (Option Delegation))}
    (hw : Works lib bc ce t₁ t₂ res p batches)
    (hres : res.btcDelegations.elems = c.page .pending ⟨none, ce.config.delegationLimit⟩) :
    ∃ xss, todo ce.pk.x c = xss.flatten ∧ batches = xss.map batchOf ∧
      Chunked ce.config.sigsBatchSize.toNat xss ∧ ∀ x ∈ todo ce.pk.x c, ∃ d,
        handedFor x = some d := by
  obtain ⟨ds, hds, hwork⟩ := hw.batched
  have hlen : ds.length < 2 ^ 63 := by
    rw [← hds.length_eq]
    exact res.btcDelegations.len_lt
  rw [hres, c.page_pending hlimit] at hds
  have hpage : pageBatches lib ce p c.pending = .ok batches :=
    bind_eq_ok_iff.mpr ⟨ds, mapM_eq_ok_iff.mpr hds, hwork⟩
  obtain ⟨hhanded, _, _, hconv⟩ := pageBatches_ok henc (hds.length_eq ▸ hlen) hpage
  rw [List.take_of_length_le hfit] at hhanded hconv
  have htodo : c.pending.filter (Unsigned ce) = (todo ce.pk.x c).map (·.record) := by
    unfold Ledger.pending todo
    rw [List.filter_map, List.filter_filter]
    congr 1
    apply List.filter_congr
    intro x _
    simp [Unsigned, Bool.and_comm, Bool.decide_and]
  rw [htodo, List.forall₂_map_left_iff] at hhanded
  obtain ⟨xss, hflat, hblocks⟩ := forall₂_unflatten hhanded
  have hbatches : batches = xss.map batchOf := by
    have hblock : ∀ (xs : List (Entry lib)) (b : List (Option Delegation)),
        List.Forall₂ (fun x o => HandedAs lib x.record o) xs b → id b = batchOf xs := by
      intro xs b hb
      rw [← List.map_id b]
      apply map_eq_of_forall₂ _ hb
      rintro x o ⟨d, hd, rfl⟩
      exact (handedFor_eq_some_iff.mpr hd).symm
    rw [← List.map_id batches]
    exact map_eq_of_forall₂ hblock hblocks
  obtain ⟨_, batches', hs, hb, _, hchunk⟩ := workList_spec lib (withParams ce p) hlen hbatch
  obtain rfl : batches' = batches :=
    Except.ok.inj ((bind_eq_ok_iff.mpr ⟨_, hs, hb⟩ : workList _ _ _ = _).symm.trans hwork)
  refine ⟨xss, hflat, hbatches, ?_, ?_⟩
  · rw [hbatches] at hchunk
    exact hchunk.of_map
  · intro x hx
    have hmem : x.record ∈ c.pending := by
      have hr := List.mem_map_of_mem (f := fun x : Entry lib => x.record) hx
      rw [← htodo] at hr
      exact List.mem_of_mem_filter hr
    obtain ⟨d, hd⟩ := hconv _ hmem
    exact ⟨d, handedFor_eq_some_iff.mpr hd⟩

/-- Once all that was sent is included, what is left to do is what no message was sent for. -/
theorem Carried.todo {sent : List MsgAddCovenantSigs} (h : Carried key c₀ sent c)
    (hmem : c.mempool = []) (hpk : ∀ m ∈ sent, m.pk = key) :
    List.Forall₂ (Kept key (sent.map (·.stakingTxHash)))
      ((todo key c₀).filter fun x => lib.hashString x.hash ∉ sent.map (·.stakingTxHash))
      (todo key c) := by
  unfold Stalls.todo
  rw [List.filter_filter]
  apply (forall₂_filter _ (forall₂_mem_right h.kept)).imp fun x y hxy => hxy.1
  rintro x y ⟨hxy, hy⟩
  rw [← Bool.decide_and, decide_eq_decide]
  constructor
  · rintro ⟨hnamed, hpending, hx⟩
    have hun : key ∉ signers y.record := fun hin => (hxy.signed hin).elim hx hnamed
    exact ⟨(hxy.status_eq hun).trans hpending, hun⟩
  · rintro ⟨hpending, hun⟩
    refine ⟨?_, hxy.pending hpending, fun hin => hun (hxy.grows.signers_subset hin)⟩
    intro hin
    obtain ⟨m, hm, hhash⟩ := List.mem_map.mp hin
    rcases h.arrives m hm (hpk m hm) with ⟨msgs, hmsgs, _⟩ | hall
    · rw [hmem] at hmsgs
      cases hmsgs
    · exact hun (hall y hy (hxy.grows.hash_eq ▸ hhash.symm))

/-- A batch that was declined is declined when its delegations have grown. -/
theorem declined_of_kept {sent : List String} {xs ys : List (Entry lib)}
    (h : List.Forall₂ (Kept key sent) xs ys)
    (hconv : ∀ x ∈ xs, ∃ d, handedFor x = some d)
    (hlt : ∀ y ∈ ys, y.record.covenantSigs.length < 2 ^ 32) (hno : Collects ce xs = false) :
    Collects ce ys = false := by
  rw [Bool.eq_false_iff] at hno ⊢
  intro hys
  obtain ⟨hne, hpass⟩ := collects_iff.mp hys
  refine hno (collects_iff.mpr ⟨?_, ?_⟩)
  · rintro rfl
    exact hne (List.forall₂_nil_left_iff.mp h)
  · intro x hx
    obtain ⟨d, hd⟩ := hconv x hx
    obtain ⟨y, hy, hxy⟩ := exists_right_of_mem h hx
    obtain ⟨a⟩ := hpass y hy
    have hd' := a.del_eq
    rw [hd]
    exact passes_of_kept hxy (convertDelegationType_eq_ok_iff.mp (handedFor_eq_some_iff.mp hd))
      (convertDelegationType_eq_ok_iff.mp (handedFor_eq_some_iff.mp hd')) (hlt y hy) (hd' ▸ ⟨a⟩)

end

/-! ## Ticks, one after the other -/

/-- Ticks of the member on such a chain. What a tick sends is included before the next one
begins. -/
inductive Rounds (lib : Lib) (bc : BabylonController) (key : BIP340PubKey) :
    CovenantEmulator → Ledger lib → List RpcTrace → CovenantEmulator → Ledger lib → Prop
  | nil (ce : CovenantEmulator) (c : Ledger lib) : Rounds lib bc key ce c [] ce c
  | cons {ce ce' ce'' : CovenantEmulator} {c c' c'' : Ledger lib} {t : RpcTrace} {ts : List RpcTrace} :
      Prog.Steps (memberTick lib bc ce) t (.ret ce') →
      System.Interleaves (quietChain lib key) () c t c' → c'.mempool = [] →
      Rounds lib bc key ce' c' ts ce'' c'' → Rounds lib bc key ce c (t :: ts) ce'' c''

section

variable {bc : BabylonController} {key : BIP340PubKey} {ce ce' ce₀ : CovenantEmulator}
  {c c' c₀ : Ledger lib} {t t₁ t₂ : RpcTrace} {ts : List RpcTrace} {sent : List MsgAddCovenantSigs}

/-- They are a run of the member's loop on the chain. -/
theorem Rounds.run (h : Rounds lib bc key ce c ts ce' c')
    {ls : Log Unit} {ph : Unit → Phase bbnClient Halt CovenantEmulator}
    (hrun : System.Run (quietChain lib key) (fun _ => memberTick lib bc) (fun _ => .select ce₀) c₀ ls ph c)
    (hph : ph () = .select ce) :
    ∃ ks ph', System.Run (quietChain lib key) (fun _ => memberTick lib bc) (fun _ => .select ce₀) c₀
      (ls ++ ks) ph' c' ∧ ph' () = .select ce' := by
  induction h generalizing ls ph with
  | nil ce c => exact ⟨[], ph, by simpa using hrun, hph⟩
  | @cons ce ce' ce'' c c' c'' t ts hs hi _ _ ih =>
    have htick : Step (memberTick lib bc) (ph ()) (.tick ce) (.busy (memberTick lib bc ce)) :=
      hph ▸ Step.tick ce
    obtain ⟨ks, hks⟩ := (hrun.act (i := ()) (a := .tick ce) htick rfl).interleaved
      (Function.update_self ..) hs hi
    have hdone := hks.act (i := ()) (a := .done ce') (x := .select ce')
      (by rw [Function.update_self]; exact .done ce') rfl
    obtain ⟨ks', ph', hrun', hph'⟩ := ih hdone (Function.update_self ..)
    exact ⟨.act () (.tick ce) :: ks ++ .act () (.done ce') :: ks', ph', by simpa using hrun', hph'⟩

theorem Rounds.carried (h : Rounds lib bc key ce c ts ce' c') (hc : Carried key c₀ sent c) :
    Carried key c₀ (sent ++ (ts.flatMap sends).flatten) c' := by
  induction h generalizing sent with
  | nil => simpa using hc
  | cons _ hi _ _ ih =>
    have hnext := ih (hc.interleaves hi)
    rw [List.append_assoc, ← List.flatten_append, ← List.flatMap_cons] at hnext
    exact hnext

theorem Rounds.mempool_eq_nil (h : Rounds lib bc key ce c ts ce' c') (hmem : c.mempool = []) :
    c'.mempool = [] := by
  induction h with
  | nil => exact hmem
  | cons _ _ hmem' _ ih => exact ih hmem'

theorem mempool_eq_nil_of_quiet (h : Quiet key c c') (hmem : c.mempool = []) : c'.mempool = [] := by
  cases h with
  | deliver before after msgs hm =>
    rw [hmem] at hm
    simp at hm
  | expire before after msgs hm hno => cases hno
  | _ => exact hmem

theorem responds_mempool {e : Event bbnClient} (h : Responds c e c') (he : sends [e] = []) :
    c'.mempool = c.mempool := by
  obtain ⟨call, a⟩ := e
  cases call with
  | reliablySendMsgs msgs => cases he
  | enter params btcDels =>
    obtain rfl := h
    rfl
  | _ =>
    obtain ⟨rfl, _⟩ := h
    rfl

theorem mempool_of_interleaves (h : System.Interleaves (quietChain lib key) () c t c')
    (ht : sends t = []) (hmem : c.mempool = []) : c'.mempool = [] := by
  refine h.invariant (d := []) (P := fun d (e : Ledger lib) => sends d = [] → e.mempool = []) ?_ ?_
    (fun _ => hmem) ht
  · intro d e e' hP hq hd
    exact mempool_eq_nil_of_quiet hq (hP hd)
  · intro d ev e e' hP hev hd
    rw [sends_append, List.append_eq_nil_iff] at hd
    exact (responds_mempool hev hd.2).trans (hP hd.1)

theorem Carried.pending_length_le (h : Carried key c₀ sent c) :
    c.pending.length ≤ c₀.pending.length := by
  unfold Ledger.pending
  rw [List.length_map, List.length_map]
  apply length_filter_le _ h.kept
  intro x y hxy hy
  rw [decide_eq_true_eq] at hy ⊢
  exact hxy.pending hy

/-- The parameters are those of the chain at any time. -/
theorem Carried.params (h : Carried key c₀ sent c)
    (hi : System.Interleaves (quietChain lib key) () c t c') {ckpt : BTCCheckpointParams}
    {staking : BTCStakingParams} (hckpt : ⟨.btcCheckpointParams, .ok ckpt⟩ ∈ t)
    (hstaking : ⟨.btcStakingParams, .ok staking⟩ ∈ t) :
    ckpt = c₀.ckptParams ∧ staking = c₀.stakingParams := by
  obtain ⟨u, v, rfl⟩ := List.append_of_mem hckpt
  obtain ⟨u', v', heq⟩ := List.append_of_mem hstaking
  obtain ⟨c₁, _, h₁, hev, _⟩ := hi.event
  rw [heq] at hi
  obtain ⟨c₂, _, h₂, hev', _⟩ := hi.event
  exact ⟨(hev.2 ckpt rfl).trans (h.interleaves h₁).ckpt_eq,
    (hev'.2 staking rfl).trans (h.interleaves h₂).staking_eq⟩

/-- The chain when the page is read, in a tick that begins with nothing on its way. -/
theorem Carried.page (h : Carried key c₀ sent c) (hmem : c.mempool = [])
    {res : BTCDelegationsResponse} {p : StakingParams} {batches : List (List (Option Delegation))}
    (hi : System.Interleaves (quietChain lib key) () c
      (t₁ ++ paged .pending ⟨none, ce.config.delegationLimit⟩ res :: t₂) c')
    (hw : Works lib bc ce t₁ t₂ res p batches) :
    stakingParamsOf lib bc c₀.ckptParams c₀.stakingParams = .ok p ∧
      ∃ c₁, Carried key c₀ sent c₁ ∧ c₁.mempool = [] ∧
        res.btcDelegations.elems = c₁.page .pending ⟨none, ce.config.delegationLimit⟩ ∧
        System.Interleaves (quietChain lib key) () c₁ t₂ c' := by
  obtain ⟨ckpt, staking, hckpt, hstaking, hp⟩ := hw.params
  obtain ⟨c₁, c₂, h₁, ⟨hc, hres⟩, h₂⟩ := hi.event
  obtain ⟨hck, hst⟩ := h.params h₁ hckpt hstaking
  rw [hck, hst] at hp
  rw [hc] at h₂
  have hcar := h.interleaves h₁
  rw [hw.sends_before] at hcar
  exact ⟨hp, c₁, by simpa using hcar, mempool_of_interleaves h₁ hw.sends_before hmem,
    (hres res rfl).1, h₂⟩

/-- The blocks of a page, and the messages that were sent for those that were collected. -/
structure Worked (ce : CovenantEmulator) (p : StakingParams) (c : Ledger lib)
    (xss : List (List (Entry lib))) (sent : List MsgAddCovenantSigs) : Prop where
  todo_eq : todo ce.pk.x c = xss.flatten
  chunked : Chunked ce.config.sigsBatchSize.toNat xss
  handed : ∀ x ∈ todo ce.pk.x c, ∃ d, handedFor x = some d
  named : List.Forall₂ (Named ce.pk.x) (xss.filter (Collects (withParams ce p))).flatten sent

theorem Worked.pk {p : StakingParams} {xss : List (List (Entry lib))} (h : Worked ce p c xss sent) :
    ∀ m ∈ sent, m.pk = ce.pk.x := by
  intro m hm
  obtain ⟨x, _, hx⟩ := exists_right_of_mem h.named.flip hm
  exact hx.2

/-- Once all is included, the blocks that were not collected are left. -/
theorem Worked.left {p : StakingParams} {xss : List (List (Entry lib))} (h : Worked ce p c₀ xss sent)
    (hc : Carried ce.pk.x c₀ sent c) (hmem : c.mempool = []) :
    List.Forall₂ (Kept ce.pk.x (sent.map (·.stakingTxHash)))
      (xss.filter fun xs => !Collects (withParams ce p) xs).flatten (todo ce.pk.x c) := by
  have hnames : sent.map (·.stakingTxHash) =
      (xss.filter (Collects (withParams ce p))).flatten.map fun x => lib.hashString x.hash :=
    map_eq_of_forall₂ (fun x m hx => hx.1) h.named
  have hnodup : (xss.flatten.map fun x => lib.hashString x.hash).Nodup := by
    have hkeys : ((todo ce.pk.x c₀).map fun x => x.hash).Nodup :=
      c₀.dels.distinct.sublist (List.filter_sublist.map _)
    rw [← h.todo_eq]
    have hnames := hkeys.map (f := lib.hashString) fun _ _ => lib.hashString_injective
    rw [List.map_map] at hnames
    exact hnames
  have hleft := hc.todo hmem h.pk
  rw [h.todo_eq] at hleft
  rw [← filter_rest_of_blocks hnodup, ← hnames]
  exact hleft

/-- A tick that works a page off, starting from a chain with nothing on its way. -/
theorem exists_worked (henc : lib.KeyEncoding) (hlimit : 1 ≤ ce.config.delegationLimit)
    (hbatch : ce.config.sigsBatchSize ≠ 0)
    (hfit : c.pending.length ≤ ce.config.delegationLimit.toNat) {res : BTCDelegationsResponse}
    {p : StakingParams} {batches : List (List (Option Delegation))}
    (hw : Works lib bc ce t₁ t₂ res p batches)
    (hres : res.btcDelegations.elems = c.page .pending ⟨none, ce.config.delegationLimit⟩) :
    ∃ xss, batches = xss.map batchOf ∧ Worked ce p c xss (sends t₂).flatten := by
  obtain ⟨xss, htodo, hbatches, hchunk, hhanded⟩ := exists_blocks henc hlimit hbatch hfit hw hres
  have hsent := hw.sent
  rw [hbatches] at hsent
  exact ⟨xss, hbatches, htodo, hchunk, hhanded, named_of_sends henc hsent⟩

end

section

variable {bc : BabylonController} {ce : CovenantEmulator} {c₁ : Ledger lib} {p : StakingParams}
  {xss : List (List (Entry lib))} {sent : List MsgAddCovenantSigs}
  (henc : lib.KeyEncoding) (hlimit : 1 ≤ ce.config.delegationLimit)
  (hbatch : ce.config.sigsBatchSize ≠ 0)
  (hfit : c₁.pending.length ≤ ce.config.delegationLimit.toNat)
  (hparams : stakingParamsOf lib bc c₁.ckptParams c₁.stakingParams = .ok p)
  (hworked : Worked ce p c₁ xss sent)
include henc hlimit hbatch hfit hparams hworked

/-- **A later tick.** It makes the same batches of what is left, and declines them again. -/
theorem later_tick {ce₂ ce₃ : CovenantEmulator} {c c' : Ledger lib} {t : RpcTrace}
    (hce : withParams ce₂ p = withParams ce p) (hc : Carried ce.pk.x c₁ sent c) (hmem : c.mempool = [])
    (hs : Prog.Steps (memberTick lib bc ce₂) t (.ret ce₃))
    (hi : System.Interleaves (quietChain lib ce.pk.x) () c t c')
    (hsigs : ∀ r ∈ snapshot t, r.covenantSigs.length < 2 ^ 32) : sends t = [] := by
  have hpk : (withParams ce₂ p).pk = (withParams ce p).pk := congrArg CovenantEmulator.pk hce
  have hconfig : (withParams ce₂ p).config = (withParams ce p).config :=
    congrArg CovenantEmulator.config hce
  change ce₂.pk = ce.pk at hpk
  change ce₂.config = ce.config at hconfig
  rcases whole_memberTick hs with ⟨_, hsends⟩ | ⟨t₁, t₂, res, p', batches, rfl, hw⟩
  · exact hsends
  · obtain ⟨hp, c₂, hc₂, hmem₂, hres, _⟩ := hc.page hmem hi hw
    obtain rfl : p' = p := ok_unique hp hparams rfl
    have hfit₂ : c₂.pending.length ≤ ce₂.config.delegationLimit.toNat := by
      rw [hconfig]
      exact Nat.le_trans hc₂.pending_length_le hfit
    obtain ⟨yss, hbatches, hworked₂⟩ :=
      exists_worked henc (hconfig ▸ hlimit) (hconfig ▸ hbatch) hfit₂ hw hres
    have hn : 0 < ce.config.sigsBatchSize.toNat := toNat_pos hbatch
    have hleft := hworked.left hc₂ hmem₂
    have htodo := hworked₂.todo_eq
    have hchunk := hworked₂.chunked
    rw [hpk] at htodo
    rw [hconfig] at hchunk
    rw [htodo] at hleft
    -- block by block, what is left was declined before
    have hblocks := (hworked.chunked.filter hn _).forall₂ hn hchunk hleft
    have hno : ∀ ys ∈ yss, Collects (withParams ce₂ p') ys = false := by
      intro ys hys
      obtain ⟨xs, hxs, hxy⟩ := exists_right_of_mem hblocks.flip hys
      obtain ⟨hmemxs, hdeclined⟩ := List.mem_filter.mp hxs
      rw [hce]
      refine declined_of_kept hxy ?_ ?_ (by simpa using hdeclined)
      · intro x hx
        exact hworked.handed x (hworked.todo_eq ▸ List.mem_flatten.mpr ⟨xs, hmemxs, hx⟩)
      · intro y hy
        apply hsigs
        have hin : y ∈ todo ce.pk.x c₂ := htodo ▸ List.mem_flatten.mpr ⟨ys, hys, hy⟩
        have hpend : y.record ∈ c₂.pending := by
          obtain ⟨hmemy, hst⟩ := List.mem_filter.mp hin
          simp only [decide_eq_true_eq] at hst
          exact List.mem_map_of_mem (List.mem_filter.mpr ⟨hmemy, by simpa using hst.1⟩)
        have helems : y.record ∈ res.btcDelegations.elems := by
          rw [hres, c₂.page_pending (hconfig ▸ hlimit), List.take_of_length_le hfit₂]
          exact hpend
        unfold snapshot pages
        rw [List.filterMap_append, List.flatMap_append]
        exact List.mem_append_right _ (List.mem_flatMap.mpr ⟨res, List.mem_cons_self, helems⟩)
    have hsent := hw.sent
    rw [hbatches] at hsent
    have hnil := sends_eq_nil hsent hno
    rw [sends_append, hw.sends_before, List.nil_append]
    exact hnil

theorem later_ticks {ce₂ ce' : CovenantEmulator} {c c' : Ledger lib} {ts : List RpcTrace}
    (h : Rounds lib bc ce.pk.x ce₂ c ts ce' c') (hce : withParams ce₂ p = withParams ce p)
    (hc : Carried ce.pk.x c₁ sent c) (hmem : c.mempool = [])
    (hsigs : ∀ t ∈ ts, ∀ r ∈ snapshot t, r.covenantSigs.length < 2 ^ 32) :
    ∀ t ∈ ts, sends t = [] := by
  induction h with
  | nil => exact nofun
  | @cons ce₂ ce₃ ce' c c₂ c' t ts hs hi hmem₂ _ ih =>
    have ht : sends t = [] := later_tick henc hlimit hbatch hfit hparams hworked hce hc hmem hs hi
      (hsigs t (List.mem_cons_self ..))
    have hcar := hc.interleaves hi
    rw [ht, List.flatten_nil, List.append_nil] at hcar
    have hrest := ih ((withParams_of_tick hs p).trans hce) hcar hmem₂
      fun u hu => hsigs u (List.mem_cons_of_mem _ hu)
    exact List.forall_mem_cons.mpr ⟨ht, hrest⟩

end

/-- **Declined for good.** Once a tick has seen all pending delegations, the later ticks of the
quiet chain send nothing, and what it has not signed stays pending and unsigned. -/
theorem declined_for_good (lib : Lib) (henc : lib.KeyEncoding) (bc : BabylonController)
    (ce ce' : CovenantEmulator) (c c' : Ledger lib) (t : RpcTrace) (ts : List RpcTrace)
    (hlimit : 1 ≤ ce.config.delegationLimit) (hbatch : ce.config.sigsBatchSize ≠ 0)
    (hfit : c.pending.length ≤ ce.config.delegationLimit.toNat) (hmem : c.mempool = [])
    (h : Rounds lib bc ce.pk.x ce c (t :: ts) ce' c') (hpage : pages t ≠ [])
    (hsigs : ∀ u ∈ ts, ∀ r ∈ snapshot u, r.covenantSigs.length < 2 ^ 32) :
    (∀ u ∈ ts, sends u = []) ∧
      ∀ x ∈ todo ce.pk.x c, (∀ m ∈ (sends t).flatten, m.stakingTxHash ≠ lib.hashString x.hash) →
        ∃ y ∈ todo ce.pk.x c', y.hash = x.hash := by
  have hall := h.carried (Carried.refl hmem)
  cases h with
  | @cons _ ce₂ _ _ c₂ _ _ _ hs hi hmem₂ hrest =>
    rcases whole_memberTick hs with ⟨hnone, _⟩ | ⟨t₁, t₂, res, p, batches, rfl, hw⟩
    · exact absurd hnone hpage
    · obtain ⟨hp, c₁, hc₁, hmem₁, hres, hi₂⟩ := (Carried.refl hmem).page hmem hi hw
      have hfit₁ : c₁.pending.length ≤ ce.config.delegationLimit.toNat :=
        Nat.le_trans hc₁.pending_length_le hfit
      rw [← hc₁.ckpt_eq, ← hc₁.staking_eq] at hp
      obtain ⟨xss, _, hworked⟩ := exists_worked henc hlimit hbatch hfit₁ hw hres
      have hc₂ : Carried ce.pk.x c₁ (sends t₂).flatten c₂ := (Carried.refl hmem₁).interleaves hi₂
      have hnil := later_ticks henc hlimit hbatch hfit₁ hp hworked hrest (withParams_of_tick hs p) hc₂
        hmem₂ hsigs
      refine ⟨hnil, ?_⟩
      intro x hx hunsent
      have hsent : sends (t₁ ++ paged .pending ⟨none, ce.config.delegationLimit⟩ res :: t₂) = sends t₂ := by
        rw [sends_append, hw.sends_before, List.nil_append]
        rfl
      have hts : ts.flatMap sends = [] := by
        rw [List.flatMap_eq_nil_iff]
        exact hnil
      rw [List.flatMap_cons, hts, List.append_nil, List.nil_append, hsent] at hall
      rw [hsent] at hunsent
      have hmem' : x ∈ (todo ce.pk.x c).filter fun x =>
          lib.hashString x.hash ∉ (sends t₂).flatten.map (·.stakingTxHash) := by
        rw [List.mem_filter, decide_eq_true_eq]
        refine ⟨hx, ?_⟩
        intro hin
        obtain ⟨m, hm, hhash⟩ := List.mem_map.mp hin
        exact hunsent m hm hhash
      obtain ⟨y, hy, hxy⟩ :=
        exists_right_of_mem (hall.todo (hrest.mempool_eq_nil hmem₂) hworked.pk) hmem'
      exact ⟨y, hy, hxy.grows.hash_eq⟩

/-! ### A delegation that is declined twice -/

def shortRecord : BTCDelegation := { sampleRecord with unbondingTime := 100 }

theorem converts_shortRecord : Converts sampleLib shortRecord shortDelegation :=
  { converts_sampleRecord with unbondingTime := rfl }

def shortEntry : Entry sampleLib where
  hash := stakingHash
  record := shortRecord
  status := .pending
  keyed := by
    rw [← recordHash_sampleRecord]
    exact recordHash_congr rfl

def shortLedger : Ledger sampleLib :=
  { sampleLedger 2 [] with dels := ⟨[shortEntry], List.nodup_singleton _⟩ }

def shortPage : BTCDelegationsResponse := ⟨⟨[shortRecord], by decide⟩, none⟩

/-- The calls of a tick that declines the delegation. -/
def declinedTick : RpcTrace :=
  [⟨.btcCheckpointParams, .ok shortLedger.ckptParams⟩,
    ⟨.btcStakingParams, .ok shortLedger.stakingParams⟩, paged .pending ⟨none, 100⟩ shortPage,
    ⟨.enter (some (paramsWith 2)) [some shortDelegation], ()⟩]

theorem steps_declinedTick (params : Option StakingParams) :
    Prog.Steps (memberTick sampleLib sampleController { startWith (key 1) with params := params })
      declinedTick (.ret (emulatorWith (key 1) (paramsWith 2))) := by
  have hds : shortPage.btcDelegations.elems.mapM (convertDelegationType sampleLib) =
      .ok [shortDelegation] :=
    mapM_eq_ok_iff.mpr (.cons (convertDelegationType_eq_ok_iff.mpr converts_shortRecord) .nil)
  have hconv := (convertAll_of_mapM hds).choose_spec
  have hw : workList sampleLib (emulatorWith (key 1) (paramsWith 2)) [some shortDelegation] =
      .ok [[some shortDelegation]] := rfl
  have hdecl : Declined sampleLib (emulatorWith (key 1) (paramsWith 2)) [some shortDelegation] :=
    Or.inr ⟨_, rfl⟩
  have hdels := steps_processDelegations_of hw (Runs.Sent.decline hdecl .nil)
  have htick := @steps_tick_of _ { startWith (key 1) with params := params } (paramsWith 2)
    ⟨[some shortDelegation], by decide⟩ _ _ hdels
  refine Prog.Carries.steps htick ?_
  refine .cons (t := [_, _]) ?_ (.cons (t := [_]) ?_ (.cons (t := [_]) ?_ .nil))
  · exact steps_fetch 2
  · exact steps_of_convertAll hconv
  · exact .call (I := bbnClient) (c := .enter _ _) () (.refl _)

theorem interleaves_declinedTick (k : BIP340PubKey) :
    System.Interleaves (quietChain sampleLib k) () shortLedger declinedTick shortLedger := by
  refine .answer ⟨rfl, ?_⟩ (.answer ⟨rfl, ?_⟩ (.answer ⟨rfl, ?_⟩ (.answer rfl (.nil _))))
  · intro ckpt h
    cases h
    rfl
  · intro staking h
    cases h
    rfl
  · intro res h
    cases h
    exact ⟨rfl, rfl⟩

theorem declined_for_good_sample :
    sends declinedTick = [] ∧ ∃ y ∈ todo (key 1).x shortLedger, y.hash = stakingHash := by
  have h : Rounds sampleLib sampleController (key 1).x (startWith (key 1)) shortLedger
      [declinedTick, declinedTick] (emulatorWith (key 1) (paramsWith 2)) shortLedger :=
    .cons (steps_declinedTick none) (interleaves_declinedTick _) rfl
      (.cons (steps_declinedTick (some (paramsWith 2))) (interleaves_declinedTick _) rfl (.nil _ _))
  have hsigs : ∀ u ∈ [declinedTick], ∀ r ∈ snapshot u, r.covenantSigs.length < 2 ^ 32 := by
    intro u hu r hr
    rw [List.mem_singleton.mp hu] at hr
    rw [List.mem_singleton.mp (show r ∈ [shortRecord] from hr)]
    decide
  obtain ⟨hnone, hleft⟩ := declined_for_good sampleLib sampleLib_keyEncoding sampleController
    (startWith (key 1)) (emulatorWith (key 1) (paramsWith 2)) shortLedger shortLedger declinedTick
    [declinedTick] (by decide) (by decide) (by decide) rfl h (List.cons_ne_nil _ _) hsigs
  refine ⟨hnone _ (List.mem_singleton_self _), ?_⟩
  obtain ⟨y, hy, hhash⟩ := hleft _ (List.mem_singleton_self _) nofun
  exact ⟨y, hy, hhash⟩

end Covenant.Stalls
